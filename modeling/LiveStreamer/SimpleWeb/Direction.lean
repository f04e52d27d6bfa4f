import LiveStreamer.SimpleWeb.Reading

/-! # One direction of a connection

The send queue of one end, the bytes on their way, and the reader of the other end. Between any two
steps of these the first end may send, and the queue may lose its socket or the reader give up.

The other end has done what it should with the first frames that were sent, and the rest of them is
somewhere on the way (`Carries`). So what it has done is what it should do with the frames, as far
as it has come (`Carries.done`); and with all of them, if neither the queue nor the reader has
failed and none of them can go on (`Carries.all_done`). -/

namespace LiveStreamer.SimpleWeb.Direction

open LiveStreamer.Lib.CString
open LiveStreamer.SimpleWeb.SendQueue (SendData Queue Owes owes_step owes_stuck owes_empty
  step_quiet isWork)
open LiveStreamer.SimpleWeb.Frames LiveStreamer.SimpleWeb.Reading

structure Flow where
  queue : Queue
  wire : Bytes
  reader : Reader
  /-- The reader has called `onerror`. -/
  failed : Bool

inductive Lbl where
  | write (l : SendQueue.Lbl)
  | read (l : Reading.Lbl)

/-- The direction as the reader sees it. -/
def Flow.incoming (x : Flow) : Incoming := ⟨x.reader, x.wire, x.failed⟩

/-- A step of the queue that is no `send`, or of the reader. -/
def step (e : End) (x : Flow) : Lbl → Option Flow
  | .write (.send _) => none
  | .write l => (SendQueue.step x.queue l).map fun q =>
      { x with queue := q, wire := x.wire ++ SendQueue.written x.queue l }
  | .read l => (Reading.step e x.incoming l).map fun y =>
      { x with reader := y.reader, wire := y.stream, failed := y.failed }

/-- What the reader does in a step. -/
def events (e : End) (x : Flow) : Lbl → List Event
  | .write _ => []
  | .read l => Reading.events e x.incoming l

/-- `send`: the message is posted to the strand. -/
def Flow.send (x : Flow) (m : SendData) : Flow :=
  { x with queue := { x.queue with strand := x.queue.strand ++ [.push m] } }

def opened : Flow := ⟨SendQueue.empty, [], ⟨.firstBytes, 0, []⟩, false⟩

/-- Nothing has failed. -/
def Flow.Sound (x : Flow) : Prop := x.queue.down = false ∧ x.failed = false

/-- A failure of a write or a read. -/
def isFailure : Lbl → Bool
  | .write (.fail _) => true
  | .read .error => true
  | _ => false

/-- A direction with nothing to write and nobody to read has nothing to do. -/
theorem step_still {e : End} {x : Flow} (hs : x.queue.strand = []) (hw : x.queue.writes = [])
    (hr : x.reader.handler = .stopped) {l : Lbl} (hl : isFailure l = false) : step e x l = none := by
  rcases l with l | l
  · cases l with
    | send m => rfl
    | fail i => exact absurd hl.symm Bool.false_ne_true
    | run => exact Option.map_eq_none_iff.mpr (step_quiet hs hw rfl)
    | write i n => exact Option.map_eq_none_iff.mpr (step_quiet hs hw rfl)
    | finish i => exact Option.map_eq_none_iff.mpr (step_quiet hs hw rfl)
  · exact Option.map_eq_none_iff.mpr (stopped_step hr l)

/-! ### What is heard of a list of frames -/

theorem heard_append {done more : List Frame} (h : ∀ f ∈ done, f.event.closes = false) :
    heard (done ++ more) = done.map Frame.event ++ heard more := by
  induction done with
  | nil => rfl
  | cons f done ih =>
    rw [List.cons_append, heard_cons, h f (List.mem_cons_self ..),
      ih fun g hg => h g (.tail _ hg)]
    rfl

theorem heard_of_open {done : List Frame} (h : ∀ f ∈ done, f.event.closes = false) :
    heard done = done.map Frame.event := by
  have happ := @heard_append done [] h
  rw [List.append_nil] at happ
  exact happ.trans (List.append_nil _)

theorem heard_mono (done more : List Frame) : heard done <+: heard (done ++ more) := by
  induction done with
  | nil => exact List.nil_prefix
  | cons f done ih =>
    rw [List.cons_append, heard_cons, heard_cons]
    split_ifs
    · exact List.prefix_rfl
    · exact List.cons_prefix_cons.mpr ⟨rfl, ih⟩

/-- Nothing is heard after a frame that closes. -/
theorem heard_closed {done : List Frame} (h : ∃ f ∈ done, f.event.closes = true)
    (more : List Frame) : heard (done ++ more) = heard done := by
  induction done with
  | nil =>
    obtain ⟨f, hf, -⟩ := h
    exact absurd hf List.not_mem_nil
  | cons g done ih =>
    rw [List.cons_append, heard_cons, heard_cons]
    by_cases hg : g.event.closes = true
    · rw [if_pos hg, if_pos hg]
    · obtain ⟨f, hf, hclose⟩ := h
      rcases List.mem_cons.mp hf with rfl | hf
      · exact absurd hclose hg
      · rw [ih ⟨f, hf, hclose⟩]

/-! ### What is on the way -/

/-- The reader has done `got` with the frames it has read of those that were `sent`; the rest of
them is in its buffer, on the wire, or to be written by the queue. -/
def Carries (e : End) (x : Flow) (sent : List Frame) (got : List Event) : Prop :=
  ∃ (done : List Frame) (ps : List (Frame × Bytes)) (rest : Bytes),
    sent = done ++ ps.map Prod.fst ∧ got = heard done ∧ Owes x.queue rest ∧
      ((x.reader.handler = .stopped ∧ (x.failed = false → ∃ f ∈ done, f.event.closes = true)) ∨
        (Reads e 0 ps x.reader (x.wire ++ rest) ∧ ∀ f ∈ done, f.event.closes = false))

section Carries
variable {e : End} {x x' : Flow} {sent : List Frame} {got : List Event}

theorem carries_opened (e : End) : Carries e opened [] [] :=
  ⟨[], [], [], rfl, rfl, owes_empty, Or.inr ⟨⟨fun _ hp => absurd hp List.not_mem_nil, rfl, rfl, rfl⟩,
    fun _ hf => absurd hf List.not_mem_nil⟩⟩

/-- **What has been done with the frames is what should be**, as far as the reader has come. -/
theorem Carries.done (h : Carries e x sent got) : got <+: heard sent := by
  obtain ⟨done, ps, rest, rfl, rfl, -, -⟩ := h
  exact heard_mono done _

/-- **Everything has been done** if nothing has failed and neither the queue nor the reader can go
on. -/
theorem Carries.all_done (h : Carries e x sent got) (hs : x.Sound)
    (hno : ∀ l, isFailure l = false → step e x l = none) : got = heard sent := by
  obtain ⟨done, ps, rest, rfl, rfl, ho, hr⟩ := h
  have hrest : rest = [] := by
    refine owes_stuck ho hs.1 fun l hl => ?_
    have hx := hno (.write l)
    cases l with
    | send m => exact absurd hl Bool.false_ne_true
    | fail i => exact absurd hl Bool.false_ne_true
    | run => exact Option.map_eq_none_iff.mp (hx rfl)
    | write i n => exact Option.map_eq_none_iff.mp (hx rfl)
    | finish i => exact Option.map_eq_none_iff.mp (hx rfl)
  rcases hr with ⟨-, hclose⟩ | ⟨hreads, hopen⟩
  · rw [heard_closed (hclose hs.2)]
  · have hhears : Hears e 0 x.incoming (heard (followed 0 ps)) := by
      rw [hrest, List.append_nil] at hreads
      exact Or.inr ⟨ps, hreads, rfl⟩
    have hdone := hears_stuck hhears hs.2 fun l hl => by
      have hx := hno (.read l)
      cases l with
      | error => exact absurd rfl hl
      | arrive n => exact Option.map_eq_none_iff.mp (hx rfl)
      | handle => exact Option.map_eq_none_iff.mp (hx rfl)
    rw [followed_zero] at hdone
    rw [heard_append hopen, hdone, List.append_nil, heard_of_open hopen]

/-! ### Every step -/

theorem reads_append {ps : List (Frame × Bytes)} {r : Reader} {more : Bytes}
    (h : Reads e 0 ps r more) {p : Frame × Bytes} (hp : Found e 0 p) :
    Reads e 0 (ps ++ [p]) r (more ++ p.2) := by
  obtain ⟨hf, h⟩ := h
  have hall : ∀ q ∈ ps ++ [p], Found e 0 q := by
    intro q hq
    rcases List.mem_append.mp hq with hq | hq
    · exact hf q hq
    · rwa [List.mem_singleton.mp hq]
  rcases ps with _ | ⟨q, ps⟩
  · obtain ⟨rfl, rfl, -⟩ := h
    refine reads_first hall ?_ rfl
    simp
  · obtain ⟨mark, body, hr, hq, hx, h⟩ := h
    refine ⟨hall, mark, body, hr, hq, hx, ?_⟩
    have htail : (ps ++ [p]).flatMap Prod.snd = ps.flatMap Prod.snd ++ p.2 := by simp
    show Within e 0 mark q.1 body ((ps ++ [p]).flatMap Prod.snd) r (more ++ p.2)
    rw [htail]
    have happ (buffer more front tail : Bytes) (hb : buffer ++ more = front ++ tail) :
        buffer ++ (more ++ p.2) = front ++ (tail ++ p.2) := by
      rw [← List.append_assoc, hb, List.append_assoc]
    cases h with
    | first hb hl ht => exact .first (happ _ _ _ _ hb) hl ht
    | length hb hl ht => exact .length (happ _ _ _ _ hb) hl ht
    | content hb hl ht => exact .content (happ _ _ _ _ hb) hl ht

/-- A frame is sent. -/
theorem Carries.send (h : Carries e x sent got) {f : Frame} {m : SendData}
    (hf : Found e 0 (f, m.streams.flatten)) : Carries e (x.send m) (sent ++ [f]) got := by
  obtain ⟨done, ps, rest, rfl, rfl, ho, hr⟩ := h
  obtain ⟨-, rest', ho', hb⟩ := owes_step (l := .send m) ho rfl
  obtain rfl : rest ++ m.streams.flatten = rest' := hb
  refine ⟨done, ps ++ [(f, m.streams.flatten)], _, ?_, rfl, ho', ?_⟩
  · rw [List.map_append, List.append_assoc]
    rfl
  · rcases hr with hstop | ⟨hreads, hopen⟩
    · exact Or.inl hstop
    · refine Or.inr ⟨?_, hopen⟩
      have happ := reads_append hreads hf
      rw [List.append_assoc] at happ
      exact happ

/-- A step of the queue: what it writes is on the wire. -/
theorem Carries.write (h : Carries e x sent got) {l : SendQueue.Lbl}
    (hx : step e x (.write l) = some x') : Carries e x' sent got := by
  obtain ⟨done, ps, rest, rfl, rfl, ho, hr⟩ := h
  have hq : ∃ q, SendQueue.step x.queue l = some q ∧ SendQueue.accepted l = [] ∧
      x' = { x with queue := q, wire := x.wire ++ SendQueue.written x.queue l } := by
    cases l with
    | send m => exact absurd hx.symm (Option.some_ne_none x')
    | run | write | finish | fail =>
      obtain ⟨q, hq, rfl⟩ := Option.map_eq_some_iff.mp hx
      exact ⟨q, hq, rfl, rfl⟩
  obtain ⟨q, hstep, hno, rfl⟩ := hq
  obtain ⟨-, rest', ho', hb⟩ := owes_step ho hstep
  rw [hno, List.append_nil] at hb
  refine ⟨done, ps, rest', rfl, rfl, ho', ?_⟩
  rcases hr with hstop | ⟨hreads, hopen⟩
  · exact Or.inl hstop
  · refine Or.inr ⟨?_, hopen⟩
    rw [hb, ← List.append_assoc] at hreads
    exact hreads

/-- The reader handles what it has read. -/
theorem Carries.handle (h : Carries e x sent got) (hc : e.Complete x.reader) :
    Carries e { x with reader := (e.handle x.reader).1 } sent (got ++ (e.handle x.reader).2) := by
  obtain ⟨done, ps, rest, rfl, rfl, ho, hr⟩ := h
  rcases hr with ⟨hstop, -⟩ | ⟨hreads, hopen⟩
  · exact absurd hstop hc.1.1
  · rcases reads_handle hreads hc with ⟨hreads', hno⟩ | ⟨p, ps', rfl, -, hev, hnext⟩
    · refine ⟨done, ps, rest, rfl, ?_, ho, Or.inr ⟨hreads', hopen⟩⟩
      rw [hno, List.append_nil]
    · refine ⟨done ++ [p.1], ps', rest, by simp, ?_, ho, ?_⟩
      · rw [hev, heard_append hopen, heard_of_open hopen]
        simp [heard]
      · split_ifs at hnext with hclose
        · exact Or.inl ⟨hnext, fun _ => ⟨p.1, by simp, hclose⟩⟩
        · refine Or.inr ⟨hnext, fun f hf => ?_⟩
          rcases List.mem_append.mp hf with hf | hf
          · exact hopen f hf
          · rw [List.mem_singleton.mp hf]
            exact Bool.eq_false_iff.mpr hclose

/-- **A step of the queue or of the reader.** -/
theorem Carries.step (h : Carries e x sent got) {l : Lbl} (hx : step e x l = some x') :
    Carries e x' sent (got ++ events e x l) := by
  cases l with
  | write l =>
    rw [show events e x (.write l) = [] from rfl, List.append_nil]
    exact h.write hx
  | read l =>
    obtain ⟨y, hy, rfl⟩ := Option.map_eq_some_iff.mp hx
    cases l with
    | error =>
      simp only [Reading.step] at hy
      split_ifs at hy
      cases hy
      obtain ⟨done, ps, rest, rfl, rfl, ho, -⟩ := h
      exact ⟨done, ps, rest, rfl, List.append_nil _, ho,
        Or.inl ⟨rfl, fun hf => absurd hf.symm Bool.false_ne_true⟩⟩
    | arrive n =>
      simp only [Reading.step] at hy
      split_ifs at hy with hn
      cases hy
      obtain ⟨done, ps, rest, rfl, rfl, ho, hr⟩ := h
      refine ⟨done, ps, rest, rfl, List.append_nil _, ho, ?_⟩
      rcases hr with hstop | ⟨hreads, hopen⟩
      · exact Or.inl hstop
      · refine Or.inr ⟨?_, hopen⟩
        have hle : n ≤ x.wire.length := hn.2.1
        have htake := reads_take hreads (n := n) (by rw [List.length_append]; omega) hn.2.2
        rw [List.take_append_of_le_length hle, List.drop_append_of_le_length hle] at htake
        exact htake
    | handle =>
      simp only [Reading.step] at hy
      split_ifs at hy with hc
      cases hy
      exact h.handle hc

end Carries

end LiveStreamer.SimpleWeb.Direction
