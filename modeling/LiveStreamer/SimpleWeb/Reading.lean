import LiveStreamer.SimpleWeb.Frames

/-! # Reading frames (`read_message`, `read_message_content`)

An end reads a frame with up to three `async_read`s: its first two bytes, its length if it is not
in the second one, and the message. An `async_read` waits for as many new bytes as it is told,
whatever is in the buffer already. With the handshake an end may have read some bytes of the first
frames (`lag`); they stay in the buffer.

The server goes on with one buffer. It finds every message the client has sent, in their order, as
soon as as many bytes have followed it as were left over (`server_hears`). The client takes the
whole buffer for the message, and a new one for the next: it finds the messages of the server if
nothing was left over (`client_hears`), and otherwise the first one comes with the bytes after it
(`client_garbled`). -/

namespace LiveStreamer.SimpleWeb.Reading

open LiveStreamer.Lib.CString LiveStreamer.Lib.Run LiveStreamer.Lib.Simulation
open LiveStreamer.SimpleWeb.SendQueue (SendData)
open LiveStreamer.SimpleWeb.Frames

/-- What an `async_read` is for. -/
inductive Handler where
  | firstBytes
  | lengthBytes (finRsvOpcode : UInt8) (numBytes : ℕ)
  | content (finRsvOpcode : UInt8) (length : ℕ)
  /-- No read follows. -/
  | stopped
  /-- An `int` has been shifted by 32 bits or more, and the language does not say what follows. -/
  | undefined
  deriving DecidableEq

structure Reader where
  handler : Handler
  /-- How many bytes the `async_read` has brought. -/
  transferred : ℕ
  buffer : Bytes
  deriving DecidableEq

/-! ### The code -/

/-- What the two ends of a connection do differently. -/
structure End where
  rejects : UInt8 → Bool
  reason : Bytes
  /-- The bytes that are read with a message besides its own. -/
  extra : ℕ
  /-- What is done with a message, and the buffer the next one is read into. -/
  content : UInt8 → ℕ → Bytes → Event × Bytes

def server : End where
  rejects second := second < 128
  reason := lit "message from client not masked"
  extra := 4
  content finRsvOpcode length buffer :=
    (eventOf finRsvOpcode length (maskWith (readMask buffer) ((buffer.drop 4).take length)),
      buffer.drop (4 + length))

def client : End where
  rejects second := 128 ≤ second
  reason := lit "message from server masked"
  extra := 0
  content finRsvOpcode length buffer := (eventOf finRsvOpcode length buffer, [])

/-- How many bytes an `async_read` waits for. -/
def End.wants (e : End) : Handler → ℕ
  | .firstBytes => 2
  | .lengthBytes _ numBytes => numBytes
  | .content _ length => e.extra + length
  | .stopped => 0
  | .undefined => 0

/-- The handler of an `async_read`. -/
def End.handle (e : End) (r : Reader) : Reader × List Event :=
  match r.handler, r.buffer with
  | .firstBytes, finRsvOpcode :: second :: rest =>
    if e.rejects second then (⟨.stopped, 0, rest⟩, [.close 1002 e.reason])
    else if lengthCode second = 126 then (⟨.lengthBytes finRsvOpcode 2, 0, rest⟩, [])
    else if lengthCode second = 127 then (⟨.lengthBytes finRsvOpcode 8, 0, rest⟩, [])
    else (⟨.content finRsvOpcode (lengthCode second), 0, rest⟩, [])
  | .lengthBytes finRsvOpcode numBytes, buffer =>
    if 32 ≤ 8 * (numBytes - 1) then (⟨.undefined, 0, buffer.drop numBytes⟩, [])
    else
      (⟨.content finRsvOpcode (readLength (buffer.take numBytes)), 0, buffer.drop numBytes⟩, [])
  | .content finRsvOpcode length, buffer =>
    let (event, rest) := e.content finRsvOpcode length buffer
    (⟨if event.closes then .stopped else .firstBytes, 0, rest⟩, [event])
  | _, _ => (r, [])

/-- An `async_read` is under way. -/
def Reader.Busy (r : Reader) : Prop := r.handler ≠ .stopped ∧ r.handler ≠ .undefined

instance (r : Reader) : Decidable r.Busy := inferInstanceAs (Decidable (_ ∧ _))

/-- The `async_read` has brought everything it waits for. -/
def End.Complete (e : End) (r : Reader) : Prop := r.Busy ∧ r.transferred = e.wants r.handler

instance (e : End) (r : Reader) : Decidable (e.Complete r) := inferInstanceAs (Decidable (_ ∧ _))

/-- A connection as one end sees it: its reader, and the bytes that are still to come. -/
structure Incoming where
  reader : Reader
  stream : Bytes
  /-- `onerror` has been called. -/
  failed : Bool

inductive Lbl where
  /-- The `async_read` takes the next `n` bytes. -/
  | arrive (n : ℕ)
  | handle
  /-- The `async_read` fails; `connection_error` is called and nothing more is read. -/
  | error

/-- The reader with more bytes in its buffer. -/
def Reader.take (r : Reader) (bytes : Bytes) : Reader :=
  { r with transferred := r.transferred + bytes.length, buffer := r.buffer ++ bytes }

def step (e : End) (x : Incoming) : Lbl → Option Incoming
  | .arrive n =>
    if 0 < n ∧ n ≤ x.stream.length ∧ x.reader.transferred + n ≤ e.wants x.reader.handler then
      some { x with reader := x.reader.take (x.stream.take n), stream := x.stream.drop n }
    else none
  | .handle =>
    if e.Complete x.reader then some { x with reader := (e.handle x.reader).1 } else none
  | .error =>
    if x.reader.Busy then
      some { x with reader := { x.reader with handler := .stopped }, failed := true }
    else none

/-- What a step does with a message. -/
def events (e : End) (x : Incoming) : Lbl → List Event
  | .handle => (e.handle x.reader).2
  | _ => []

/-- After the handshake, with `lag` bytes of the stream read along with it. -/
def opened (lag : ℕ) (stream : Bytes) : Incoming :=
  ⟨⟨.firstBytes, 0, stream.take lag⟩, stream.drop lag, false⟩

/-! ### The handlers -/

section Handlers
variable (e : End)

theorem handle_firstBytes {finRsvOpcode second : UInt8} (hrej : e.rejects second = false) (n : ℕ)
    (rest : Bytes) : e.handle ⟨.firstBytes, n, finRsvOpcode :: second :: rest⟩ =
      (⟨if lengthCode second = 126 then .lengthBytes finRsvOpcode 2
        else if lengthCode second = 127 then .lengthBytes finRsvOpcode 8
        else .content finRsvOpcode (lengthCode second), 0, rest⟩, []) := by
  simp only [End.handle, hrej, Bool.false_eq_true, if_false]
  split_ifs <;> rfl

theorem handle_lengthBytes (finRsvOpcode : UInt8) (n : ℕ) (buffer : Bytes) :
    e.handle ⟨.lengthBytes finRsvOpcode 2, n, buffer⟩ =
      (⟨.content finRsvOpcode (readLength (buffer.take 2)), 0, buffer.drop 2⟩, []) := rfl

theorem handle_content (finRsvOpcode : UInt8) (length n : ℕ) (buffer : Bytes) :
    e.handle ⟨.content finRsvOpcode length, n, buffer⟩ =
      (⟨if (e.content finRsvOpcode length buffer).1.closes then .stopped else .firstBytes, 0,
        (e.content finRsvOpcode length buffer).2⟩, [(e.content finRsvOpcode length buffer).1]) :=
  rfl

end Handlers

/-! ### Reading one frame -/

/-- The parts of a frame that an end reads. -/
structure Readable (e : End) (mark : UInt8) (f : Frame) (body : Bytes) : Prop where
  marked : mark = 0 ∨ mark = 128
  fits : f.Fits
  accepts : ∀ second, (second < 128 ↔ mark = 0) → e.rejects second = false
  length : body.length = e.extra + f.data.length

section Frame
variable (e : End) (lag : ℕ) (mark : UInt8) (f : Frame) (body tail : Bytes)

/-- The reader is about to read the frame, or has read a part of it; `tail` is what follows it, and
`more` is still to come. -/
inductive Within : Reader → Bytes → Prop where
  | first {n : ℕ} {buffer more : Bytes} :
    buffer ++ more = header mark f.finRsvOpcode f.data.length ++ body ++ tail →
    buffer.length = n + lag → n ≤ 2 → Within ⟨.firstBytes, n, buffer⟩ more
  | length {n : ℕ} {buffer more : Bytes} :
    buffer ++ more = lengthBytes 2 f.data.length ++ body ++ tail →
    buffer.length = n + lag → n ≤ 2 → Within ⟨.lengthBytes f.finRsvOpcode 2, n, buffer⟩ more
  | content {n : ℕ} {buffer more : Bytes} :
    buffer ++ more = body ++ tail → buffer.length = n + lag → n ≤ e.extra + f.data.length →
    Within ⟨.content f.finRsvOpcode f.data.length, n, buffer⟩ more

variable {e lag mark f body tail} {r : Reader} {more : Bytes}

theorem within_take (h : Within e lag mark f body tail r more) {n : ℕ} (hn : n ≤ more.length)
    (hw : r.transferred + n ≤ e.wants r.handler) :
    Within e lag mark f body tail (r.take (more.take n)) (more.drop n) := by
  have hlen : (more.take n).length = n := List.length_take_of_le hn
  have happ (buffer : Bytes) : buffer ++ more.take n ++ more.drop n = buffer ++ more := by
    rw [List.append_assoc, List.take_append_drop]
  have hbuf (buffer : Bytes) : (buffer ++ more.take n).length = buffer.length + n := by
    rw [List.length_append, hlen]
  cases h with
  | @first m buffer more hb hl ht =>
    simp only [Reader.take, hlen]
    exact .first ((happ _).trans hb) (by rw [hbuf]; omega) hw
  | @length m buffer more hb hl ht =>
    simp only [Reader.take, hlen]
    exact .length ((happ _).trans hb) (by rw [hbuf]; omega) hw
  | @content m buffer more hb hl ht =>
    simp only [Reader.take, hlen]
    exact .content ((happ _).trans hb) (by rw [hbuf]; omega) hw

/-- A buffer with the first bytes of the stream begins with them. -/
theorem eq_append_of_le {buffer more front back : Bytes} (h : buffer ++ more = front ++ back)
    (hl : front.length ≤ buffer.length) : ∃ x, buffer = front ++ x ∧ x ++ more = back := by
  obtain ⟨x, rfl⟩ := List.prefix_of_prefix_length_le (h ▸ List.prefix_append front back)
    (List.prefix_append buffer more) hl
  refine ⟨x, rfl, ?_⟩
  rw [List.append_assoc] at h
  exact List.append_cancel_left h

/-- **A handler reads on, or the message has been read**, with the bytes that are left over. -/
theorem within_handle (hr : Readable e mark f body) (h : Within e lag mark f body tail r more)
    (hc : e.Complete r) :
    (Within e lag mark f body tail (e.handle r).1 more ∧ (e.handle r).2 = []) ∨
      ∃ x n, x.length = lag ∧ x ++ more = tail ∧
        r = ⟨.content f.finRsvOpcode f.data.length, n, body ++ x⟩ := by
  obtain ⟨-, hdone⟩ := hc
  cases h with
  | @first n buffer more hb hl ht =>
    left
    obtain rfl : n = 2 := hdone
    obtain ⟨second, hmark, ⟨hcode, hshort, hhead⟩ | ⟨hcode, -, hhead⟩⟩ :=
      header_cases hr.marked f.finRsvOpcode hr.fits
    · rw [hhead, List.append_assoc] at hb
      obtain ⟨x, rfl, hx⟩ := eq_append_of_le hb (by rw [hl]; exact Nat.le_add_right 2 lag)
      have hx' : x.length = 0 + lag := by
        simp only [List.length_append, List.length_cons, List.length_nil] at hl
        omega
      rw [List.cons_append, List.cons_append, List.nil_append,
        handle_firstBytes e (hr.accepts second hmark), if_neg (by omega), if_neg (by omega), hcode]
      exact ⟨.content hx hx' (Nat.zero_le _), rfl⟩
    · have hb' : buffer ++ more =
          [f.finRsvOpcode, second] ++ (lengthBytes 2 f.data.length ++ body ++ tail) := by
        rw [hb, hhead]
        rfl
      obtain ⟨x, rfl, hx⟩ := eq_append_of_le hb' (by rw [hl]; exact Nat.le_add_right 2 lag)
      have hx' : x.length = 0 + lag := by
        simp only [List.length_append, List.length_cons, List.length_nil] at hl
        omega
      rw [List.cons_append, List.cons_append, List.nil_append,
        handle_firstBytes e (hr.accepts second hmark), if_pos hcode]
      exact ⟨.length hx hx' (Nat.zero_le _), rfl⟩
  | @length n buffer more hb hl ht =>
    left
    obtain rfl : n = 2 := hdone
    have htwo := length_lengthBytes 2 f.data.length
    rw [List.append_assoc] at hb
    obtain ⟨x, rfl, hx⟩ := eq_append_of_le hb (by omega)
    have hx' : x.length = 0 + lag := by
      rw [List.length_append] at hl
      omega
    rw [handle_lengthBytes, List.take_left' htwo, List.drop_left' htwo,
      readLength_lengthBytes hr.fits]
    exact ⟨.content hx hx' (Nat.zero_le _), rfl⟩
  | @content n buffer more hb hl ht =>
    right
    obtain rfl : n = e.extra + f.data.length := hdone
    have hbody := hr.length
    obtain ⟨x, rfl, hx⟩ := eq_append_of_le hb (by omega)
    refine ⟨x, _, ?_, hx, rfl⟩
    rw [List.length_append] at hl
    omega

end Frame

/-! ### Reading all frames -/

/-- What an end does with messages: nothing is read after the first one that closes. -/
def heard : List Frame → List Event
  | [] => []
  | f :: fs => f.event :: if f.event.closes then [] else heard fs

/-- The frames that are followed by `lag` bytes or more. -/
def followed (lag : ℕ) : List (Frame × Bytes) → List Frame
  | [] => []
  | p :: ps => if lag ≤ (ps.flatMap Prod.snd).length then p.1 :: followed lag ps else []

/-- The end finds the message in the bytes of its frame, also with `lag` bytes after it in the
buffer. -/
def Found (e : End) (lag : ℕ) (p : Frame × Bytes) : Prop :=
  ∃ mark body, Readable e mark p.1 body ∧
    p.2 = header mark p.1.finRsvOpcode p.1.data.length ++ body ∧
    ∀ x : Bytes, x.length = lag →
      e.content p.1.finRsvOpcode p.1.data.length (body ++ x) = (p.1.event, x)

section Frames
variable {e : End} {lag : ℕ} {r : Reader} {more : Bytes} {ps : List (Frame × Bytes)}

theorem followed_zero (ps : List (Frame × Bytes)) : followed 0 ps = ps.map Prod.fst := by
  induction ps with
  | nil => rfl
  | cons p ps ih => rw [followed, if_pos (Nat.zero_le _), ih, List.map_cons]

/-- **The server finds the message of a client.** -/
theorem found_client_send (lag : ℕ) {f : Frame} (hf : f.Fits) (mask : Mask) :
    Found server lag (f, (Client.send mask f).streams.flatten) := by
  have hmask : (List.ofFn mask).length = 4 := List.length_ofFn
  refine ⟨128, List.ofFn mask ++ maskWith mask f.data, ⟨Or.inr rfl, hf, ?_, ?_⟩, ?_, ?_⟩
  · intro second hs
    exact decide_eq_false fun h => absurd (hs.mp h) (by decide)
  · rw [List.length_append, hmask, length_maskWith]
    rfl
  · simp [SendData.streams, Client.send]
  · intro x hx
    have hdrop : (List.ofFn mask ++ maskWith mask f.data ++ x).drop 4 = maskWith mask f.data ++ x := by
      rw [List.append_assoc, List.drop_left' hmask]
    have hrest : (List.ofFn mask ++ maskWith mask f.data ++ x).drop (4 + f.data.length) = x := by
      rw [← List.drop_drop, hdrop, List.drop_left' (length_maskWith mask f.data)]
    simp only [server, hdrop, hrest, List.take_left' (length_maskWith mask f.data)]
    rw [List.append_assoc, readMask_ofFn, maskWith_maskWith]
    rfl

theorem flatten_server_send (f : Frame) : (Server.send f).streams.flatten =
    header 0 f.finRsvOpcode f.data.length ++ f.data := by
  simp [SendData.streams, Server.send]

theorem readable_server_send {f : Frame} (hf : f.Fits) : Readable client 0 f f.data where
  marked := Or.inl rfl
  fits := hf
  accepts _ hs := decide_eq_false (UInt8.not_le.mpr (hs.mpr rfl))
  length := (Nat.zero_add _).symm

/-- **The client finds the message of a server**, if nothing follows it in the buffer. -/
theorem found_server_send {f : Frame} (hf : f.Fits) :
    Found client 0 (f, (Server.send f).streams.flatten) := by
  refine ⟨0, f.data, readable_server_send hf, flatten_server_send f, fun x hx => ?_⟩
  obtain rfl := List.eq_nil_of_length_eq_zero hx
  rw [List.append_nil]
  rfl

variable (e lag) in
/-- The reader has read the frames before `ps`, and maybe a part of the first one of `ps`. -/
def Reads (ps : List (Frame × Bytes)) (r : Reader) (more : Bytes) : Prop :=
  (∀ p ∈ ps, Found e lag p) ∧
    match ps with
    | [] => r = ⟨.firstBytes, 0, []⟩ ∧ more = [] ∧ lag = 0
    | p :: ps => ∃ mark body, Readable e mark p.1 body ∧
        p.2 = header mark p.1.finRsvOpcode p.1.data.length ++ body ∧
        (∀ x : Bytes, x.length = lag →
          e.content p.1.finRsvOpcode p.1.data.length (body ++ x) = (p.1.event, x)) ∧
        Within e lag mark p.1 body (ps.flatMap Prod.snd) r more

/-- The reader between two frames. -/
theorem reads_first (hf : ∀ p ∈ ps, Found e lag p) {buffer : Bytes}
    (hb : buffer ++ more = ps.flatMap Prod.snd) (hl : buffer.length = lag) :
    Reads e lag ps ⟨.firstBytes, 0, buffer⟩ more := by
  refine ⟨hf, ?_⟩
  rcases ps with _ | ⟨p, ps⟩
  · obtain ⟨rfl, rfl⟩ := List.append_eq_nil_iff.mp hb
    exact ⟨rfl, rfl, hl.symm⟩
  · obtain ⟨mark, body, hr, hp, hx⟩ := hf p (List.mem_cons_self ..)
    refine ⟨mark, body, hr, hp, hx, .first ?_ (by omega) (Nat.zero_le 2)⟩
    rw [hb, List.flatMap_cons, hp]

theorem reads_take (h : Reads e lag ps r more) {n : ℕ} (hn : n ≤ more.length)
    (hw : r.transferred + n ≤ e.wants r.handler) :
    Reads e lag ps (r.take (more.take n)) (more.drop n) := by
  obtain ⟨hf, h⟩ := h
  refine ⟨hf, ?_⟩
  rcases ps with _ | ⟨p, ps⟩
  · obtain ⟨rfl, rfl, hl⟩ := h
    exact ⟨by simp [Reader.take], by simp, hl⟩
  · obtain ⟨mark, body, hr, hp, hx, h⟩ := h
    exact ⟨mark, body, hr, hp, hx, within_take h hn hw⟩

/-- **A handler**: the reader is further on in the first frame, or has read it. -/
theorem reads_handle (h : Reads e lag ps r more) (hc : e.Complete r) :
    (Reads e lag ps (e.handle r).1 more ∧ (e.handle r).2 = []) ∨
      ∃ p ps', ps = p :: ps' ∧ lag ≤ (ps'.flatMap Prod.snd).length ∧
        (e.handle r).2 = [p.1.event] ∧
        if p.1.event.closes then (e.handle r).1.handler = .stopped
        else Reads e lag ps' (e.handle r).1 more := by
  obtain ⟨hf, h⟩ := h
  rcases ps with _ | ⟨p, ps⟩
  · obtain ⟨rfl, -, -⟩ := h
    exact absurd (show 0 = 2 from hc.2) (by decide)
  · obtain ⟨mark, body, hr, hp, hx, h⟩ := h
    rcases within_handle hr h hc with ⟨h', hno⟩ | ⟨x, n, hl, htail, rfl⟩
    · exact Or.inl ⟨⟨hf, mark, body, hr, hp, hx, h'⟩, hno⟩
    · refine Or.inr ⟨p, ps, rfl, ?_, ?_, ?_⟩
      · rw [← htail, List.length_append]
        omega
      · rw [handle_content, hx x hl]
      · rw [handle_content, hx x hl]
        split_ifs with hclose
        · rfl
        · exact reads_first (fun q hq => hf q (.tail _ hq)) htail hl

/-- A reader that waits for bytes that do not come has read all frames that are followed by `lag`
bytes. -/
theorem followed_of_waiting (h : Reads e lag ps r []) (hw : r.transferred < e.wants r.handler) :
    followed lag ps = [] := by
  obtain ⟨-, h⟩ := h
  rcases ps with _ | ⟨p, ps⟩
  · rfl
  · obtain ⟨mark, body, hr, hp, hx, h⟩ := h
    have hlen : (ps.flatMap Prod.snd).length < lag := by
      have hbody := hr.length
      cases h with
      | @first n buffer more hb hl ht =>
        obtain ⟨second, -, ⟨-, -, hhead⟩ | ⟨-, -, hhead⟩⟩ :=
          header_cases hr.marked p.1.finRsvOpcode hr.fits
        all_goals
          rw [hhead, List.append_nil] at hb
          rw [hb] at hl
          simp only [List.length_append, List.length_cons, List.length_nil] at hl
          have : n < 2 := hw
          omega
      | @length n buffer more hb hl ht =>
        have htwo := length_lengthBytes 2 p.1.data.length
        rw [List.append_nil] at hb
        rw [hb, List.length_append, List.length_append] at hl
        have : n < 2 := hw
        omega
      | @content n buffer more hb hl ht =>
        rw [List.append_nil] at hb
        rw [hb, List.length_append] at hl
        have : n < e.extra + p.1.data.length := hw
        omega
    rw [followed, if_neg (by omega)]

theorem reads_busy (h : Reads e lag ps r more) : r.Busy ∧ r.transferred ≤ e.wants r.handler := by
  obtain ⟨-, h⟩ := h
  rcases ps with _ | ⟨p, ps⟩
  · obtain ⟨rfl, -, -⟩ := h
    exact ⟨⟨nofun, nofun⟩, Nat.zero_le 2⟩
  · obtain ⟨mark, body, -, -, -, h⟩ := h
    cases h with
    | first hb hl ht => exact ⟨⟨nofun, nofun⟩, ht⟩
    | length hb hl ht => exact ⟨⟨nofun, nofun⟩, ht⟩
    | content hb hl ht => exact ⟨⟨nofun, nofun⟩, ht⟩

/-! ### Every run -/

/-- What the end is still to do, as far as the bytes of the frames come. -/
def Hears (e : End) (lag : ℕ) (x : Incoming) (rest : List Event) : Prop :=
  (x.reader.handler = .stopped ∧ (x.failed = false → rest = [])) ∨
    ∃ ps, Reads e lag ps x.reader x.stream ∧ rest = heard (followed lag ps)

theorem heard_cons (f : Frame) (fs : List Frame) :
    heard (f :: fs) = f.event :: if f.event.closes then [] else heard fs := rfl

variable {x x' : Incoming} {rest : List Event}

theorem hears_step (h : Hears e lag x rest) {l : Lbl} (hx : step e x l = some x') :
    ∃ rest', Hears e lag x' rest' ∧ rest = events e x l ++ rest' := by
  cases l with
  | error =>
    simp only [step] at hx
    split_ifs at hx
    cases hx
    exact ⟨rest, Or.inl ⟨rfl, fun h => absurd h.symm Bool.false_ne_true⟩, rfl⟩
  | arrive n =>
    simp only [step] at hx
    split_ifs at hx with hn
    cases hx
    refine ⟨rest, ?_, rfl⟩
    rcases h with hstop | ⟨ps, hr, he⟩
    · exact Or.inl hstop
    · exact Or.inr ⟨ps, reads_take hr hn.2.1 hn.2.2, he⟩
  | handle =>
    simp only [step] at hx
    split_ifs at hx with hc
    cases hx
    rcases h with ⟨hstop, -⟩ | ⟨ps, hr, rfl⟩
    · exact absurd hstop hc.1.1
    · rcases reads_handle hr hc with ⟨hr', hno⟩ | ⟨p, ps', rfl, hlag, hev, hnext⟩
      · exact ⟨_, Or.inr ⟨ps, hr', rfl⟩, by rw [events, hno, List.nil_append]⟩
      · refine ⟨if p.1.event.closes then [] else heard (followed lag ps'), ?_, ?_⟩
        · split_ifs at hnext ⊢
          · exact Or.inl ⟨hnext, fun _ => rfl⟩
          · exact Or.inr ⟨ps', hnext, rfl⟩
        · rw [followed, if_pos hlag, heard_cons, events, hev]
          rfl

theorem hears_run (h : Hears e lag x rest) {ls : List Lbl} (hr : run (step e) x ls = some x') :
    ∃ rest', Hears e lag x' rest' ∧ rest = outputs (step e) (events e) x ls ++ rest' := by
  induction ls generalizing x rest with
  | nil =>
    cases Option.some.inj hr
    exact ⟨rest, h, rfl⟩
  | cons l ls ih =>
    obtain ⟨x₁, h₁, hrest⟩ := run_cons_eq_some.mp hr
    obtain ⟨rest₁, hh₁, he₁⟩ := hears_step h h₁
    obtain ⟨rest', hh', he'⟩ := ih hh₁ hrest
    exact ⟨rest', hh', by rw [outputs_cons h₁, List.append_assoc, ← he', ← he₁]⟩

/-- Nothing is left to do if no read can go on. -/
theorem hears_stuck (h : Hears e lag x rest) (hf : x.failed = false)
    (hno : ∀ l, l ≠ .error → step e x l = none) : rest = [] := by
  rcases h with ⟨-, hrest⟩ | ⟨ps, hr, rfl⟩
  · exact hrest hf
  · obtain ⟨hbusy, hle⟩ := reads_busy hr
    have hw : x.reader.transferred < e.wants x.reader.handler := by
      refine Nat.lt_of_le_of_ne hle fun heq => ?_
      have hhandle := hno .handle nofun
      simp only [step, if_pos (show e.Complete x.reader from ⟨hbusy, heq⟩), reduceCtorEq] at hhandle
    have hstream : x.stream = [] := by
      by_contra hne
      have hpos : 1 ≤ x.stream.length := List.length_pos_iff.mpr hne
      have harrive := hno (.arrive 1) nofun
      simp only [step, if_pos (show 0 < 1 ∧ 1 ≤ x.stream.length ∧
        x.reader.transferred + 1 ≤ e.wants x.reader.handler from ⟨Nat.one_pos, hpos, hw⟩),
        reduceCtorEq] at harrive
    rw [hstream] at hr
    rw [followed_of_waiting hr hw]
    rfl

theorem hears_opened (hf : ∀ p ∈ ps, Found e lag p) (hl : lag ≤ (ps.flatMap Prod.snd).length) :
    Hears e lag (opened lag (ps.flatMap Prod.snd)) (heard (followed lag ps)) :=
  Or.inr ⟨ps, reads_first hf (List.take_append_drop ..) (List.length_take_of_le hl), rfl⟩

end Frames

theorem stopped_step {e : End} {x : Incoming} (h : x.reader.handler = .stopped) (l : Lbl) :
    step e x l = none := by
  have hbusy : ¬ x.reader.Busy := fun hb => hb.1 h
  cases l with
  | arrive n =>
    have hw : e.wants x.reader.handler = 0 := by rw [h]; rfl
    simp only [step]
    rw [if_neg (by omega)]
  | handle =>
    have hc : ¬ e.Complete x.reader := fun hc => hbusy hc.1
    simp only [step]
    rw [if_neg hc]
  | error =>
    simp only [step]
    rw [if_neg hbusy]

/-! ### The two ends -/

/-- The frames of a client, each with the mask it was given. -/
def clientBytes (sent : List (Mask × Frame)) : List (Frame × Bytes) :=
  sent.map fun p => (p.2, (Client.send p.1 p.2).streams.flatten)

def serverBytes (sent : List Frame) : List (Frame × Bytes) :=
  sent.map fun f => (f, (Server.send f).streams.flatten)

/-- **What a client sends, the server hears**: whatever of it has been read along with the handshake,
and however the rest arrives, the server is given the messages in their order, up to the first one
that closes; each of them when `lag` bytes have followed it. -/
theorem server_hears {sent : List (Mask × Frame)} (hf : ∀ p ∈ sent, p.2.Fits) {lag : ℕ}
    (hl : lag ≤ ((clientBytes sent).flatMap Prod.snd).length) {ls : List Lbl} {x : Incoming}
    (hr : run (step server) (opened lag ((clientBytes sent).flatMap Prod.snd)) ls = some x) :
    outputs (step server) (events server) (opened lag ((clientBytes sent).flatMap Prod.snd)) ls <+:
        heard (followed lag (clientBytes sent)) ∧
      (x.failed = false → (∀ l, l ≠ .error → step server x l = none) →
        outputs (step server) (events server) (opened lag ((clientBytes sent).flatMap Prod.snd)) ls =
          heard (followed lag (clientBytes sent))) := by
  have hfound : ∀ p ∈ clientBytes sent, Found server lag p := by
    intro p hp
    obtain ⟨q, hq, rfl⟩ := List.mem_map.mp hp
    exact found_client_send lag (hf q hq) q.1
  obtain ⟨rest, hrest, he⟩ := hears_run (hears_opened hfound hl) hr
  refine ⟨⟨rest, he.symm⟩, fun hok hno => ?_⟩
  rw [he, hears_stuck hrest hok hno, List.append_nil]

/-- A client has sent a message and a close, and the server has read three bytes of them along with the
handshake. -/
def helloAndClose : List (Mask × Frame) :=
  [(fun i => if i.val = 0 then 7 else 130, ⟨129, lit "Hello"⟩), (fun _ => 9, closeFrame 1000 [])]

def helloReads : List Lbl := [.arrive 2, .handle, .arrive 5, .arrive 4, .handle, .arrive 2, .handle]

theorem server_hears_hello : ∃ x, run (step server)
      (opened 3 ((clientBytes helloAndClose).flatMap Prod.snd)) helloReads = some x ∧
    outputs (step server) (events server)
      (opened 3 ((clientBytes helloAndClose).flatMap Prod.snd)) helloReads =
        [.message (lit "Hello")] ∧
    outputs (step server) (events server)
      (opened 3 ((clientBytes helloAndClose).flatMap Prod.snd)) helloReads <+:
        heard (followed 3 (clientBytes helloAndClose)) := by
  have hsome : (run (step server) (opened 3 ((clientBytes helloAndClose).flatMap Prod.snd))
      helloReads).isSome = true := by decide +kernel
  obtain ⟨x, hx⟩ := Option.isSome_iff_exists.mp hsome
  exact ⟨x, hx, by decide +kernel, (server_hears (by decide) (by decide +kernel) hx).1⟩

/-- **What a server sends, the client hears**, if none of it has been read along with the
handshake. -/
theorem client_hears {sent : List Frame} (hf : ∀ f ∈ sent, f.Fits) {ls : List Lbl} {x : Incoming}
    (hr : run (step client) (opened 0 ((serverBytes sent).flatMap Prod.snd)) ls = some x) :
    outputs (step client) (events client) (opened 0 ((serverBytes sent).flatMap Prod.snd)) ls <+:
        heard sent ∧
      (x.failed = false → (∀ l, l ≠ .error → step client x l = none) →
        outputs (step client) (events client) (opened 0 ((serverBytes sent).flatMap Prod.snd)) ls =
          heard sent) := by
  have hfound : ∀ p ∈ serverBytes sent, Found client 0 p := by
    intro p hp
    obtain ⟨f, hf', rfl⟩ := List.mem_map.mp hp
    exact found_server_send (hf f hf')
  have hall : followed 0 (serverBytes sent) = sent := by
    rw [followed_zero, serverBytes, List.map_map]
    exact List.map_id sent
  have h := hears_opened hfound (Nat.zero_le _)
  rw [hall] at h
  obtain ⟨rest, hrest, he⟩ := hears_run h hr
  refine ⟨⟨rest, he.symm⟩, fun hok hno => ?_⟩
  rw [he, hears_stuck hrest hok hno, List.append_nil]

theorem client_hears_close : ∃ x,
    run (step client) (opened 0 ((serverBytes [closeFrame 1000 []]).flatMap Prod.snd))
      [.arrive 2, .handle, .arrive 2, .handle] = some x ∧
    outputs (step client) (events client)
      (opened 0 ((serverBytes [closeFrame 1000 []]).flatMap Prod.snd))
      [.arrive 2, .handle, .arrive 2, .handle] = heard [closeFrame 1000 []] := by
  have hend : (run (step client) (opened 0 ((serverBytes [closeFrame 1000 []]).flatMap Prod.snd))
      [.arrive 2, .handle, .arrive 2, .handle]).map (fun x => (x.reader.handler, x.failed)) =
        some (.stopped, false) := by decide +kernel
  obtain ⟨x, hx, he⟩ := Option.map_eq_some_iff.mp hend
  obtain ⟨hstop, hok⟩ := Prod.mk.inj he
  exact ⟨x, hx, (client_hears (by decide) hx).2 hok fun l _ => stopped_step hstop l⟩

/-! ### Bytes that are left over at the client -/

/-- The first thing an end does with a frame it is about to read. -/
theorem first_event {e : End} {lag : ℕ} {mark : UInt8} {f : Frame} {body tail : Bytes}
    (hr : Readable e mark f body) {x x' : Incoming}
    (h : Within e lag mark f body tail x.reader x.stream) {ls : List Lbl}
    (hrun : run (step e) x ls = some x') {ev : Event}
    (hev : (outputs (step e) (events e) x ls).head? = some ev) : ∃ y : Bytes, y.length = lag ∧
      y <+: tail ∧ ev = (e.content f.finRsvOpcode f.data.length (body ++ y)).1 := by
  induction ls generalizing x with
  | nil => exact absurd hev.symm (Option.some_ne_none ev)
  | cons l ls ih =>
    obtain ⟨x₁, h₁, hrest⟩ := run_cons_eq_some.mp hrun
    rw [outputs_cons h₁] at hev
    cases l with
    | arrive n =>
      simp only [step] at h₁
      split_ifs at h₁ with hn
      cases h₁
      exact ih (within_take h hn.2.1 hn.2.2) hrest hev
    | handle =>
      simp only [step] at h₁
      split_ifs at h₁ with hc
      cases h₁
      rcases within_handle hr h hc with ⟨h', hno⟩ | ⟨y, n, hl, htail, hreader⟩
      · rw [events, hno, List.nil_append] at hev
        exact ih h' hrest hev
      · refine ⟨y, hl, ⟨x.stream, htail⟩, ?_⟩
        rw [events, hreader, handle_content] at hev
        exact (Option.some.inj hev).symm
    | error =>
      simp only [step] at h₁
      split_ifs at h₁
      cases h₁
      rcases ls with _ | ⟨l, ls⟩
      · exact absurd hev.symm (Option.some_ne_none ev)
      · obtain ⟨x₂, h₂, -⟩ := run_cons_eq_some.mp hrest
        exact absurd ((stopped_step rfl l).symm.trans h₂).symm (Option.some_ne_none x₂)

theorem eventOf_message {finRsvOpcode : UInt8} {length : ℕ} {buffer text : Bytes}
    (h : eventOf finRsvOpcode length buffer = .message text) (buffer' : Bytes) :
    eventOf finRsvOpcode length buffer' = .message buffer' := by
  unfold eventOf at h ⊢
  split_ifs at h ⊢
  rfl

/-- **Bytes that are left over garble the first message**: if the first frame of the server is a
message of at most 65535 bytes, and the client has read `lag` bytes along with the handshake, the
first text it is given is the one the server has sent and the `lag` bytes after it. So it is right
only if nothing was left over. -/
theorem client_garbled {f : Frame} (hf : f.Fits) (hm : f.event = .message f.data) (tail : Bytes)
    {lag : ℕ} (hl : lag ≤ ((Server.send f).streams.flatten ++ tail).length) {ls : List Lbl}
    {x : Incoming}
    (hr : run (step client) (opened lag ((Server.send f).streams.flatten ++ tail)) ls = some x)
    {ev : Event} (hev : (outputs (step client) (events client)
      (opened lag ((Server.send f).streams.flatten ++ tail)) ls).head? = some ev) :
    ev = .message (f.data ++ tail.take lag) ∧ (ev = f.event ↔ lag = 0) := by
  have hwithin : Within client lag 0 f f.data tail
      (opened lag ((Server.send f).streams.flatten ++ tail)).reader
      (opened lag ((Server.send f).streams.flatten ++ tail)).stream := by
    refine .first ?_ ?_ (Nat.zero_le 2)
    · exact (List.take_append_drop ..).trans (by rw [flatten_server_send])
    · rw [List.length_take_of_le hl, Nat.zero_add]
  obtain ⟨y, hy, hpre, rfl⟩ := first_event (readable_server_send hf) hwithin hr hev
  obtain rfl : y = tail.take lag := by rw [← hy, ← List.prefix_iff_eq_take]; exact hpre
  have htext : (client.content f.finRsvOpcode f.data.length (f.data ++ tail.take lag)).1 =
      .message (f.data ++ tail.take lag) := eventOf_message hm _
  refine ⟨htext, ?_⟩
  rw [htext, hm, Event.message.injEq, List.append_right_eq_self, ← List.length_eq_zero_iff, hy]

/-- Two of the bytes of the next frame are taken for the end of the text. -/
theorem client_garbled_hello :
    let x := opened 2 ((Server.send ⟨129, lit "Hello"⟩).streams.flatten ++ [129, 2, 72, 105])
    (outputs (step client) (events client) x [.arrive 2, .handle, .arrive 5, .handle]).head? =
        some (.message (lit "Hello" ++ [129, 2])) ∧
      Event.message (lit "Hello" ++ [129, 2]) ≠ Frame.event ⟨129, lit "Hello"⟩ := by
  intro x
  have hsome : (run (step client) x [.arrive 2, .handle, .arrive 5, .handle]).isSome = true := by
    decide +kernel
  obtain ⟨x', hx⟩ := Option.isSome_iff_exists.mp hsome
  have hfirst : (outputs (step client) (events client) x
      [.arrive 2, .handle, .arrive 5, .handle]).head? =
        some (.message (lit "Hello" ++ [129, 2])) := by decide +kernel
  obtain ⟨-, hright⟩ := client_garbled (f := ⟨129, lit "Hello"⟩) (by decide) (by decide +kernel)
    [129, 2, 72, 105] (by decide +kernel) hx hfirst
  exact ⟨hfirst, fun he => absurd (hright.mp he) (by decide)⟩

end LiveStreamer.SimpleWeb.Reading
