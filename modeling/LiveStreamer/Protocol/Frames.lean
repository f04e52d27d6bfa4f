import LiveStreamer.StreamerClient.ClientComm
import LiveStreamer.StreamerServer.SrvrComm
import Mathlib.Algebra.Order.BigOperators.Group.List
import Mathlib.Algebra.Order.Ring.Nat
import Mathlib.Data.List.SplitLengths

/-! # Messages on a connection (`srvrComm.c`, `Client.c`)

Both sides send a message as the first `MAXDATASIZE - 1` bytes of a zeroed buffer (`sendData`), and
take what one `recv` returns for a message (`received`). A connection carries the bytes of all
blocks one after the other; a delivery cuts them into the parts that the calls of `recv` return.

A part that is shorter than a block splits a message, or leaves the zeros of its block to the next
`recv` (`ack_split`). The strings received are the texts sent if and only if every `recv` returns
a whole block (`received_iff`). -/

namespace LiveStreamer.Protocol.Frames

open LiveStreamer.Lib.CString
open LiveStreamer.StreamerServer.SrvrComm (MAXDATASIZE Globals ackText receiveData actText)
open LiveStreamer.StreamerClient.ClientComm (statusText)

/-! ### Sending and receiving -/

/-- The bytes that `sendData` sends for a text in the message buffer. -/
def sendData (text : Bytes) : Bytes := block (MAXDATASIZE - 1) text

/-- The string that `receive` passes on after a `recv` that returned `data`. -/
def received (data : Bytes) : Bytes := cstr (data.take (MAXDATASIZE - 1))

/-- The string is what `receiveData` leaves in the buffer. -/
theorem received_eq (g : Globals) (data : Bytes) :
    (receiveData g (some data)).map (fun g => cstr g.tempBufS) = some (received data) := rfl

/-- A text in the message buffer. -/
def Message (text : Bytes) : Prop := (0 : UInt8) ∉ text ∧ text.length ≤ MAXDATASIZE - 1

instance (text : Bytes) : Decidable (Message text) := inferInstanceAs (Decidable (_ ∧ _))

theorem message_snprintf {text : Bytes} (h : (0 : UInt8) ∉ text) :
    Message (snprintf MAXDATASIZE text) := by
  refine ⟨fun hm => h (List.mem_of_mem_take hm), ?_⟩
  rw [length_snprintf]
  omega

/-- What the connection carries. -/
def stream (texts : List Bytes) : Bytes := texts.flatMap sendData

/-- The sizes of the parts in which `recv` returns what the connection carries. -/
def Delivery (texts : List Bytes) (sizes : List ℕ) : Prop :=
  (∀ n ∈ sizes, 1 ≤ n ∧ n ≤ MAXDATASIZE - 1) ∧ sizes.sum = (stream texts).length

instance (texts : List Bytes) (sizes : List ℕ) : Decidable (Delivery texts sizes) :=
  inferInstanceAs (Decidable (_ ∧ _))

/-- The strings that are passed on. -/
def strings (texts : List Bytes) (sizes : List ℕ) : List Bytes :=
  (sizes.splitLengths (stream texts)).map received

/-! ### Whole blocks -/

theorem length_sendData (text : Bytes) : (sendData text).length = MAXDATASIZE - 1 :=
  length_block _ _

theorem length_stream (texts : List Bytes) :
    (stream texts).length = texts.length * (MAXDATASIZE - 1) := by
  induction texts with
  | nil => simp [stream]
  | cons t texts ih =>
    have hs : stream (t :: texts) = sendData t ++ stream texts := List.flatMap_cons
    rw [hs, List.length_append, length_sendData, ih, List.length_cons, Nat.succ_mul, Nat.add_comm]

theorem received_sendData {text : Bytes} (h : Message text) : received (sendData text) = text := by
  rw [received, List.take_of_length_le (length_sendData text).le]
  exact cstr_block h.1 h.2

/-- Parts of the size of a block are the blocks. -/
theorem splitLengths_stream (texts : List Bytes) :
    (List.replicate texts.length (MAXDATASIZE - 1)).splitLengths (stream texts) =
      texts.map sendData := by
  induction texts with
  | nil => rfl
  | cons t texts ih =>
    have hs : stream (t :: texts) = sendData t ++ stream texts := List.flatMap_cons
    have hl := length_sendData t
    rw [List.length_cons, List.replicate_succ, List.splitLengths_cons, hs,
      List.take_left' hl, List.drop_left' hl, ih, List.map_cons]

/-- As many parts as blocks are whole blocks. -/
theorem eq_of_sum {k : ℕ} : ∀ {sizes : List ℕ}, (∀ n ∈ sizes, n ≤ k) →
    sizes.sum = sizes.length * k → ∀ n ∈ sizes, n = k
  | [], _, _ => fun n hn => absurd hn List.not_mem_nil
  | m :: sizes, hk, hsum => by
    obtain ⟨hm, hk⟩ := List.forall_mem_cons.mp hk
    have hle : sizes.sum ≤ sizes.length * k := by
      simpa using List.sum_le_card_nsmul sizes k hk
    rw [List.sum_cons, List.length_cons, Nat.succ_mul] at hsum
    refine List.forall_mem_cons.mpr ⟨by omega, eq_of_sum hk (by omega)⟩

/-- **The strings received are the texts sent** if and only if every `recv` returns a whole
block. -/
theorem received_iff {texts : List Bytes} {sizes : List ℕ} (ht : ∀ t ∈ texts, Message t)
    (hd : Delivery texts sizes) :
    strings texts sizes = texts ↔ ∀ n ∈ sizes, n = MAXDATASIZE - 1 := by
  obtain ⟨hn, hsum⟩ := hd
  rw [length_stream] at hsum
  constructor
  · intro h
    have hlen : sizes.length = texts.length := by
      have := congrArg List.length h
      rwa [strings, List.length_map, List.length_splitLengths] at this
    exact eq_of_sum (fun n h => (hn n h).2) (by rw [hsum, hlen])
  · intro h
    have hrep : sizes = List.replicate sizes.length (MAXDATASIZE - 1) :=
      List.eq_replicate_of_mem h
    have hlen : sizes.length = texts.length := by
      have hs : sizes.sum = sizes.length * (MAXDATASIZE - 1) := by
        rw [hrep, List.sum_replicate_nat, List.length_replicate]
      exact Nat.eq_of_mul_eq_mul_right (by decide) (hs.symm.trans hsum)
    rw [strings, hrep, hlen, splitLengths_stream, List.map_map]
    have hmap : texts.map (received ∘ sendData) = texts.map id :=
      List.map_congr_left fun t hm => received_sendData (ht t hm)
    rw [hmap, List.map_id]

/-! ### An acknowledgement in two blocks, and in two parts -/

theorem received_iff_whole : strings [ackText, ackText] [254, 254] = [ackText, ackText] :=
  (received_iff (by decide) (by decide +kernel)).mpr (by decide)

/-- **An `ACK` in two parts** is no `ACK`. -/
theorem ack_split : ¬ ∀ (texts : List Bytes) (sizes : List ℕ), (∀ t ∈ texts, Message t) →
    Delivery texts sizes → strings texts sizes = texts := by
  intro h
  have hs := h [ackText] [1, 253] (by decide) (by decide +kernel)
  exact absurd hs (by decide +kernel)

end LiveStreamer.Protocol.Frames
