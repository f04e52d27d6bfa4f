import LiveStreamer.SimpleWeb.SendQueue
import Mathlib.Data.List.OfFn
import Mathlib.Tactic.Common

/-! # WebSocket frames (`server_ws.hpp`, `client_ws.hpp`)

A message is written as a frame: a byte with the kind of the message, its length, and its bytes. The
server writes the bytes as they are; the client writes four random bytes first and masks the
message with them. The other end reads the length from one byte, or from the two or eight bytes
after it.

The length of a message of at most 65535 bytes is read as it was written (`lengthCode_header`,
`readLength_lengthBytes`), and masking a second time gives the message back
(`maskWith_maskWith`). -/

namespace LiveStreamer.SimpleWeb.Frames

open LiveStreamer.Lib.CString
open LiveStreamer.SimpleWeb.SendQueue (SendData)

structure Frame where
  finRsvOpcode : UInt8
  data : Bytes
  deriving DecidableEq

/-! ### Writing -/

/-- `put((length >> (8 * c)) % 256)` for each `c` from `numBytes - 1` down. -/
def lengthBytes (numBytes length : ℕ) : Bytes :=
  (List.range numBytes).reverse.map fun c => UInt8.ofNat ((length >>> (8 * c)) % 256)

/-- What `send` writes before the message; `mark` is 128 if the message is masked, and 0 if not. -/
def header (mark finRsvOpcode : UInt8) (length : ℕ) : Bytes :=
  finRsvOpcode ::
    if 126 ≤ length then
      if 0xffff < length then (127 + mark) :: lengthBytes 8 length
      else (126 + mark) :: lengthBytes 2 length
    else [UInt8.ofNat length + mark]

abbrev Mask := Fin 4 → UInt8

/-- `get()^mask[c%4]` for each byte. -/
def maskWith (mask : Mask) (data : Bytes) : Bytes :=
  data.mapIdx fun c b => b ^^^ mask (Fin.ofNat 4 c)

/-- `SocketServerBase::send`: two streams, the header and the message. -/
def Server.send (f : Frame) : SendData := ⟨header 0 f.finRsvOpcode f.data.length, [f.data]⟩

/-- `SocketClientBase::send`: one stream. -/
def Client.send (mask : Mask) (f : Frame) : SendData :=
  ⟨header 128 f.finRsvOpcode f.data.length ++ List.ofFn mask ++ maskWith mask f.data, []⟩

/-- The message `send_close` sends. -/
def closeFrame (status : ℕ) (reason : Bytes) : Frame :=
  ⟨136, UInt8.ofNat (status >>> 8) :: UInt8.ofNat (status % 256) :: reason⟩

/-! ### Reading -/

/-- `first_bytes[1]&127` -/
def lengthCode (second : UInt8) : ℕ := (second &&& 127).toNat

/-- The sum of the `length_bytes[c]<<(8*(num_bytes-1-c))`. -/
def readLength (lengthBytes : Bytes) : ℕ :=
  (lengthBytes.zipIdx.map fun p => p.1.toNat <<< (8 * (lengthBytes.length - 1 - p.2))).sum

/-- The four bytes that are read before a masked message. -/
def readMask (buffer : Bytes) : Mask := fun i => buffer.getD i 0

/-- What an end does with a message. -/
inductive Event where
  /-- It is given to `onmessage`. -/
  | message (text : Bytes)
  /-- It is answered with a pong. -/
  | ping (finRsvOpcode : UInt8)
  /-- It is answered with `send_close`, and `onclose` is called. -/
  | close (status : ℕ) (reason : Bytes)
  deriving DecidableEq

def Event.closes : Event → Bool
  | .close _ _ => true
  | _ => false

/-- `buffer` is what the message can be read from; the client may find more in it than the `length`
bytes of the message. -/
def eventOf (finRsvOpcode : UInt8) (length : ℕ) (buffer : Bytes) : Event :=
  if finRsvOpcode &&& 0x0f = 8 then
    if 2 ≤ length then
      .close (((buffer.getD 0 0).toNat <<< 8) + (buffer.getD 1 0).toNat) (buffer.drop 2)
    else .close 0 buffer
  else if finRsvOpcode &&& 0x0f = 9 then .ping finRsvOpcode
  else .message buffer

/-- What an end does with a frame it has read as it was written. -/
def Frame.event (f : Frame) : Event := eventOf f.finRsvOpcode f.data.length f.data

/-- The length is written into at most two bytes. -/
def Frame.Fits (f : Frame) : Prop := f.data.length ≤ 0xffff

instance (f : Frame) : Decidable f.Fits := inferInstanceAs (Decidable (_ ≤ _))

/-! ### Masks -/

theorem length_maskWith (mask : Mask) (data : Bytes) : (maskWith mask data).length = data.length := by
  simp [maskWith]

/-- **Masking twice gives the message back.** -/
theorem maskWith_maskWith (mask : Mask) (data : Bytes) :
    maskWith mask (maskWith mask data) = data := by
  simp only [maskWith, List.mapIdx_mapIdx]
  refine List.mapIdx_eq_iff.mpr fun i => ?_
  rcases data[i]? with _ | b
  · rfl
  · simp only [Option.map_some, Function.comp, Option.some.injEq]
    rw [UInt8.xor_assoc, UInt8.xor_self, UInt8.xor_zero]

theorem readMask_ofFn (mask : Mask) (rest : Bytes) : readMask (List.ofFn mask ++ rest) = mask := by
  funext i
  have hi : (i : ℕ) < (List.ofFn mask).length := by simp
  rw [readMask, List.getD_eq_getElem?_getD, List.getElem?_append_left hi,
    List.getElem?_eq_getElem hi, List.getElem_ofFn, Option.getD_some]

/-! ### Lengths -/

theorem length_lengthBytes (numBytes length : ℕ) :
    (lengthBytes numBytes length).length = numBytes := by
  simp [lengthBytes]

/-- **A length in two bytes is read as it was written.** -/
theorem readLength_lengthBytes {length : ℕ} (h : length ≤ 0xffff) :
    readLength (lengthBytes 2 length) = length := by
  have hlow : (UInt8.ofNat (length % 256)).toNat = length % 256 := by simp
  have hhigh : (UInt8.ofNat ((length >>> 8) % 256)).toNat = length / 256 := by
    simp only [UInt8.toNat_ofNat', Nat.shiftRight_eq_div_pow]
    omega
  have hsum : readLength (lengthBytes 2 length) =
      (UInt8.ofNat ((length >>> 8) % 256)).toNat <<< 8 +
        ((UInt8.ofNat (length % 256)).toNat <<< 0 + 0) := rfl
  rw [hsum, hlow, hhigh, Nat.shiftLeft_eq]
  omega

section Header
variable {mark : UInt8}

theorem lengthCode_short (hm : mark = 0 ∨ mark = 128) {length : ℕ} (h : length < 126) :
    lengthCode (UInt8.ofNat length + mark) = length := by
  have hall : ∀ n : Fin 126, lengthCode (UInt8.ofNat n + 0) = n ∧
      lengthCode (UInt8.ofNat n + 128) = n := by decide +kernel
  rcases hm with rfl | rfl
  · exact (hall ⟨length, h⟩).1
  · exact (hall ⟨length, h⟩).2

theorem mark_short (hm : mark = 0 ∨ mark = 128) {length : ℕ} (h : length < 126) :
    UInt8.ofNat length + mark < 128 ↔ mark = 0 := by
  have hall : ∀ n : Fin 126, UInt8.ofNat n + 0 < 128 ∧ ¬ UInt8.ofNat n + 128 < 128 := by
    decide +kernel
  rcases hm with rfl | rfl
  · exact iff_of_true (hall ⟨length, h⟩).1 rfl
  · exact iff_of_false (hall ⟨length, h⟩).2 (by decide)

/-- **The header of a short message, or of one whose length takes two bytes.** -/
theorem header_cases (hm : mark = 0 ∨ mark = 128) (finRsvOpcode : UInt8) {length : ℕ}
    (h : length ≤ 0xffff) : ∃ second, (second < 128 ↔ mark = 0) ∧
      (lengthCode second = length ∧ length < 126 ∧
          header mark finRsvOpcode length = [finRsvOpcode, second] ∨
        lengthCode second = 126 ∧ second = 126 + mark ∧
          header mark finRsvOpcode length = finRsvOpcode :: second :: lengthBytes 2 length) := by
  by_cases hlong : 126 ≤ length
  · refine ⟨126 + mark, ?_, Or.inr ⟨?_, rfl, ?_⟩⟩
    · rcases hm with rfl | rfl <;> decide
    · rcases hm with rfl | rfl <;> rfl
    · rw [header, if_pos hlong, if_neg (by omega)]
  · have hshort : length < 126 := by omega
    refine ⟨UInt8.ofNat length + mark, mark_short hm hshort,
      Or.inl ⟨lengthCode_short hm hshort, hshort, ?_⟩⟩
    rw [header, if_neg hlong]

end Header

/-! ### Closing -/

theorem closeFrame_event {status : ℕ} (h : status ≤ 0xffff) (reason : Bytes) :
    (closeFrame status reason).event = .close status reason := by
  have hlow : (UInt8.ofNat (status % 256)).toNat = status % 256 := by simp
  have hhigh : (UInt8.ofNat (status >>> 8)).toNat = status / 256 := by
    simp only [UInt8.toNat_ofNat', Nat.shiftRight_eq_div_pow]
    omega
  have hstatus : (UInt8.ofNat (status >>> 8)).toNat <<< 8 + (UInt8.ofNat (status % 256)).toNat =
      status := by
    rw [hlow, hhigh, Nat.shiftLeft_eq]
    omega
  have hevent : (closeFrame status reason).event = .close ((UInt8.ofNat (status >>> 8)).toNat <<< 8 +
      (UInt8.ofNat (status % 256)).toNat) reason := by
    show eventOf 136 (reason.length + 2) (_ :: _ :: reason) = _
    rw [eventOf, if_pos (by decide), if_pos (by omega)]
    rfl
  rw [hevent, hstatus]

end LiveStreamer.SimpleWeb.Frames
