import LiveStreamer.Lib.CString
import LiveStreamer.Lib.Simulation
import Mathlib.Algebra.Order.BigOperators.Group.List
import Mathlib.Algebra.Order.Ring.Nat

/-! # The send queue of a connection (`Connection::send_from_queue`)

`send` posts a message to the strand of its connection. On the strand the message joins the queue,
and the first one of the queue is written: its streams one after the other, each with an
`async_write` whose handler starts the next one. Two writes at the same time would mix their bytes
on the socket, and nothing in the code checks that there is only one. Both ends have this queue;
the messages of the server have two streams, those of the client one.

There is one write, or one task on the strand that leads to one, exactly if the queue has a
message (`Stage`). So the bytes that are written are those of the messages in the order of the
`send`s, none of them twice or between those of another one, and when nothing is left to do all of
them have been written (`written_in_order`).

Of the socket it is assumed that an error of an `async_write` is final: a TCP connection takes no
more bytes after it, and nothing cancels a write while the connection is open. -/

namespace LiveStreamer.SimpleWeb.SendQueue

open LiveStreamer.Lib.CString LiveStreamer.Lib.Run LiveStreamer.Lib.Simulation

/-- A message, as the streams that are written one after the other. -/
structure SendData where
  first : Bytes
  more : List Bytes

def SendData.streams (m : SendData) : List Bytes := m.first :: m.more

/-- What has been posted to the strand. -/
inductive Task where
  /-- `send`: the message joins the queue. -/
  | push (m : SendData)
  /-- `send_from_queue` -/
  | start
  /-- The handler of an `async_write` of the first message. -/
  | written (part : ℕ) (ec : Bool)

/-- An `async_write` that is under way, and what it has still to write. -/
structure Write where
  part : ℕ
  rest : Bytes

structure Queue where
  strand : List Task
  sendQueue : List SendData
  writes : List Write
  /-- A write has failed; the socket takes nothing after that. -/
  down : Bool
  /-- `send_queue.begin()` has been used in an empty queue. -/
  fault : Bool

inductive Lbl where
  | send (m : SendData)
  /-- The strand runs its first task. -/
  | run
  /-- A write brings its next `n` bytes to the socket. -/
  | write (i n : ℕ)
  | finish (i : ℕ)
  | fail (i : ℕ)

/-! ### The code -/

/-- The stream a write begins with. -/
def writeOf (m : SendData) (part : ℕ) : Write := ⟨part, m.streams.getD part []⟩

/-- A task on the strand. -/
def Queue.perform (q : Queue) : Task → Queue
  | .push m =>
    { q with
      sendQueue := q.sendQueue ++ [m]
      strand := if (q.sendQueue ++ [m]).length = 1 then q.strand ++ [.start] else q.strand }
  | .start =>
    match q.sendQueue with
    | m :: _ => { q with writes := q.writes ++ [writeOf m 0] }
    | [] => { q with fault := true }
  | .written part ec =>
    match q.sendQueue with
    | m :: queued =>
      if ec then { q with sendQueue := [] }
      else if part + 1 < m.streams.length then
        { q with writes := q.writes ++ [writeOf m (part + 1)] }
      else
        { q with
          sendQueue := queued
          strand := if 0 < queued.length then q.strand ++ [.start] else q.strand }
    | [] => { q with fault := true }

def step (q : Queue) : Lbl → Option Queue
  | .send m => some { q with strand := q.strand ++ [.push m] }
  | .run =>
    match q.strand with
    | task :: tasks => some ({ q with strand := tasks }.perform task)
    | [] => none
  | .write i n =>
    match q.writes[i]? with
    | some w =>
      if 0 < n ∧ n ≤ w.rest.length ∧ q.down = false then
        some { q with writes := q.writes.set i { w with rest := w.rest.drop n } }
      else none
    | none => none
  | .finish i =>
    match q.writes[i]? with
    | some w =>
      if w.rest = [] then
        some { q with
          writes := q.writes.eraseIdx i
          strand := q.strand ++ [.written w.part false] }
      else none
    | none => none
  | .fail i =>
    match q.writes[i]? with
    | some w =>
      some { q with
        writes := q.writes.eraseIdx i
        strand := q.strand ++ [.written w.part true]
        down := true }
    | none => none

/-- What a step brings to the socket. -/
def written (q : Queue) : Lbl → Bytes
  | .write i n => ((q.writes[i]?.map Write.rest).getD []).take n
  | _ => []

/-- What is given to `send`. -/
def accepted : Lbl → Bytes
  | .send m => m.streams.flatten
  | _ => []

def empty : Queue := ⟨[], [], [], false, false⟩

/-! ### One write at a time -/

/-- The tasks that lead to a write. -/
def controls : List Task → List Task
  | [] => []
  | .push _ :: tasks => controls tasks
  | task :: tasks => task :: controls tasks

/-- The messages that are to join the queue. -/
def pushed : List Task → List (List Bytes)
  | [] => []
  | .push m :: tasks => m.streams :: pushed tasks
  | _ :: tasks => pushed tasks

/-- Where the first message of the queue is, and what is left of the messages of the queue. -/
inductive Stage (q : Queue) : List (List Bytes) → Prop where
  | idle : q.sendQueue = [] → q.writes = [] → controls q.strand = [] → Stage q []
  | starting (m : SendData) (queued : List SendData) :
    q.sendQueue = m :: queued → q.writes = [] → controls q.strand = [.start] →
      Stage q (m.streams :: queued.map SendData.streams)
  | writing (m : SendData) (queued : List SendData) (w : Write) :
    q.sendQueue = m :: queued → q.writes = [w] → controls q.strand = [] →
      Stage q ((w.rest :: m.streams.drop (w.part + 1)) :: queued.map SendData.streams)
  | wrote (m : SendData) (queued : List SendData) (part : ℕ) (ec : Bool) :
    q.sendQueue = m :: queued → q.writes = [] → controls q.strand = [.written part ec] →
      (ec = true → q.down = true) →
      Stage q (m.streams.drop (part + 1) :: queued.map SendData.streams)

section Queue
variable {q q' : Queue} {left : List (List Bytes)}

@[simp] theorem controls_nil : controls [] = [] := rfl

@[simp] theorem controls_push (m : SendData) (tasks : List Task) :
    controls (.push m :: tasks) = controls tasks := rfl

@[simp] theorem controls_start (tasks : List Task) :
    controls (.start :: tasks) = .start :: controls tasks := rfl

@[simp] theorem controls_written (part : ℕ) (ec : Bool) (tasks : List Task) :
    controls (.written part ec :: tasks) = .written part ec :: controls tasks := rfl

@[simp] theorem controls_append (tasks tasks' : List Task) :
    controls (tasks ++ tasks') = controls tasks ++ controls tasks' := by
  induction tasks with
  | nil => rfl
  | cons task tasks ih => cases task <;> simp [ih]

@[simp] theorem pushed_append (tasks tasks' : List Task) :
    pushed (tasks ++ tasks') = pushed tasks ++ pushed tasks' := by
  induction tasks with
  | nil => rfl
  | cons task tasks ih => cases task <;> simp [pushed, ih]

/-- The bytes left to be written, in the queue and on the strand. -/
def leftBytes (left : List (List Bytes)) (tasks : List Task) : Bytes :=
  left.flatten.flatten ++ (pushed tasks).flatten.flatten

theorem leftBytes_cons (m : List Bytes) (left : List (List Bytes)) (tasks : List Task) :
    leftBytes (m :: left) tasks = m.flatten ++ leftBytes left tasks := by
  simp [leftBytes]

/-- The steps that the streams of a message still take. -/
def streamsWork (streams : List Bytes) : ℕ := (streams.map fun s => s.length + 2).sum

/-- The steps that messages take which are not the first one yet. -/
def queuedWork (queued : List (List Bytes)) : ℕ := (queued.map fun m => streamsWork m + 1).sum

/-- The steps that are left to be done. -/
def work (left : List (List Bytes)) (tasks : List Task) : ℕ :=
  streamsWork (left.headD []) + queuedWork left.tail + tasks.length + queuedWork (pushed tasks)

@[simp] theorem streamsWork_cons (s : Bytes) (streams : List Bytes) :
    streamsWork (s :: streams) = s.length + 2 + streamsWork streams := rfl

@[simp] theorem streamsWork_nil : streamsWork [] = 0 := rfl

@[simp] theorem queuedWork_nil : queuedWork [] = 0 := rfl

@[simp] theorem queuedWork_cons (m : List Bytes) (queued : List (List Bytes)) :
    queuedWork (m :: queued) = streamsWork m + 1 + queuedWork queued := rfl

@[simp] theorem queuedWork_append (queued queued' : List (List Bytes)) :
    queuedWork (queued ++ queued') = queuedWork queued + queuedWork queued' := by
  simp [queuedWork]

/-- The queue `q'` has the bytes left to be written, and less than so much to do. -/
def Keeps (q q' : Queue) (bytes : Bytes) (n : ℕ) : Prop :=
  q'.fault = q.fault ∧ q'.down = q.down ∧ ∃ left, Stage q' left ∧
    (q.down = false → leftBytes left q'.strand = bytes) ∧ work left q'.strand < n

/-- Writing a stream and those after it. -/
theorem drop_writeOf {m : SendData} {part : ℕ} (h : part < m.streams.length) :
    (writeOf m part).rest :: m.streams.drop (part + 1) = m.streams.drop part := by
  rw [List.drop_eq_getElem_cons h, writeOf, List.getD_eq_getElem?_getD,
    List.getElem?_eq_getElem h, Option.getD_some]

/-- A message joins the queue. -/
theorem perform_push (h : Stage q left) (m : SendData) :
    Keeps q (q.perform (.push m)) (leftBytes (left ++ [m.streams]) q.strand)
      (work left (.push m :: q.strand)) := by
  have hlater {first : SendData} {queued : List SendData} (hq : q.sendQueue = first :: queued) :
      q.perform (.push m) = { q with sendQueue := first :: (queued ++ [m]) } := by
    simp [Queue.perform, hq]
  have hbytes (streams : List Bytes) (queued : List SendData) :
      leftBytes (streams :: (queued ++ [m]).map SendData.streams) q.strand =
        leftBytes (streams :: queued.map SendData.streams ++ [m.streams]) q.strand := by simp
  have hwork (streams : List Bytes) (queued : List SendData) :
      work (streams :: (queued ++ [m]).map SendData.streams) q.strand <
        work (streams :: queued.map SendData.streams) (.push m :: q.strand) := by
    simp [work, pushed]
    omega
  cases h with
  | idle hq hw hk =>
    have hrun : q.perform (.push m) =
        { q with sendQueue := [m], strand := q.strand ++ [.start] } := by
      simp [Queue.perform, hq]
    rw [hrun]
    refine ⟨rfl, rfl, _, .starting m [] rfl hw ?_, fun _ => ?_, ?_⟩
    · simp [hk]
    · simp [leftBytes, pushed]
    · simp [work, pushed]
      omega
  | starting first queued hq hw hk =>
    rw [hlater hq]
    exact ⟨rfl, rfl, _, .starting first (queued ++ [m]) rfl hw hk, fun _ => hbytes _ _,
      hwork _ _⟩
  | writing first queued w hq hw hk =>
    rw [hlater hq]
    exact ⟨rfl, rfl, _, .writing first (queued ++ [m]) w rfl hw hk, fun _ => hbytes _ _,
      hwork _ _⟩
  | wrote first queued part ec hq hw hk hec =>
    rw [hlater hq]
    exact ⟨rfl, rfl, _, .wrote first (queued ++ [m]) part ec rfl hw hk hec,
      fun _ => hbytes _ _, hwork _ _⟩

/-- A stream of the first message is begun. -/
theorem stage_writeOf {m : SendData} {queued : List SendData} (hq : q.sendQueue = m :: queued)
    (hk : controls q.strand = []) {part : ℕ} (hpart : part < m.streams.length) :
    Stage { q with writes := [writeOf m part] }
      (m.streams.drop part :: queued.map SendData.streams) := by
  rw [← drop_writeOf hpart]
  exact .writing m queued (writeOf m part) hq rfl hk

/-- A stream of the first message has been written. -/
theorem perform_written {m : SendData} {queued : List SendData} {part : ℕ} {ec : Bool}
    (hq : q.sendQueue = m :: queued) (hw : q.writes = []) (hk : controls q.strand = [])
    (hec : ec = true → q.down = true) :
    Keeps q (q.perform (.written part ec))
      (leftBytes (m.streams.drop (part + 1) :: queued.map SendData.streams) q.strand)
      (work (m.streams.drop (part + 1) :: queued.map SendData.streams)
        (.written part ec :: q.strand)) := by
  by_cases he : ec = true
  · have hrun : q.perform (.written part ec) = { q with sendQueue := [] } := by
      simp [Queue.perform, hq, he]
    rw [hrun]
    refine ⟨rfl, rfl, [], .idle rfl hw hk, fun hd => ?_, ?_⟩
    · exact absurd (hd.symm.trans (hec he)) (by decide)
    · simp [work, pushed]
      omega
  · by_cases hpart : part + 1 < m.streams.length
    · have hrun : q.perform (.written part ec) = { q with writes := [writeOf m (part + 1)] } := by
        simp [Queue.perform, hq, hw, he, hpart]
      rw [hrun]
      refine ⟨rfl, rfl, _, stage_writeOf hq hk hpart, fun _ => rfl, ?_⟩
      simp [work, pushed]
    · have hdone : m.streams.drop (part + 1) = [] := List.drop_eq_nil_of_le (by omega)
      rw [leftBytes_cons, hdone]
      rcases queued with _ | ⟨next, queued⟩
      · have hrun : q.perform (.written part ec) = { q with sendQueue := [] } := by
          simp [Queue.perform, hq, he, hpart]
        rw [hrun]
        refine ⟨rfl, rfl, [], .idle rfl hw hk, fun _ => rfl, ?_⟩
        simp [work, pushed]
      · have hrun : q.perform (.written part ec) =
            { q with sendQueue := next :: queued, strand := q.strand ++ [.start] } := by
          simp [Queue.perform, hq, he, hpart]
        rw [hrun]
        refine ⟨rfl, rfl, _, .starting next queued rfl hw ?_, fun _ => ?_, ?_⟩
        · simp [hk]
        · simp [leftBytes, pushed]
        · simp [work, pushed]

/-- **The strand runs a task**: unless a write has failed, the bytes left to be written stay. -/
theorem stage_run (h : Stage q left) {task : Task} {tasks : List Task}
    (hs : q.strand = task :: tasks) :
    Keeps q ({ q with strand := tasks }.perform task) (leftBytes left q.strand)
      (work left q.strand) := by
  rw [hs]
  rcases task with m | _ | ⟨part, ec⟩
  · have hc : controls q.strand = controls tasks := by rw [hs, controls_push]
    have h' : Stage { q with strand := tasks } left := by
      cases h with
      | idle hq hw hk => exact .idle hq hw (hc ▸ hk)
      | starting first queued hq hw hk => exact .starting first queued hq hw (hc ▸ hk)
      | writing first queued w hq hw hk => exact .writing first queued w hq hw (hc ▸ hk)
      | wrote first queued part ec hq hw hk hec =>
        exact .wrote first queued part ec hq hw (hc ▸ hk) hec
    have hb : leftBytes (left ++ [m.streams]) tasks = leftBytes left (.push m :: tasks) := by
      simp [leftBytes, pushed]
    exact hb ▸ perform_push h' m
  · have hc : controls q.strand = .start :: controls tasks := by rw [hs, controls_start]
    cases h with
    | idle hq hw hk => exact absurd (hc.symm.trans hk) (by simp)
    | starting m queued hq hw hk =>
      have hk' : controls tasks = [] := (List.cons.inj (hc.symm.trans hk)).2
      have hrun : ({ q with strand := tasks } : Queue).perform .start =
          { q with strand := tasks, writes := [writeOf m 0] } := by
        simp [Queue.perform, hq, hw]
      rw [hrun]
      refine ⟨rfl, rfl, _, stage_writeOf (q := { q with strand := tasks }) hq hk' (Nat.succ_pos _),
        fun _ => rfl, ?_⟩
      simp [work, pushed]
    | writing first queued w hq hw hk => exact absurd (hc.symm.trans hk) (by simp)
    | wrote first queued part ec hq hw hk hec => exact absurd (hc.symm.trans hk) (by simp)
  · have hc : controls q.strand = .written part ec :: controls tasks := by
      rw [hs, controls_written]
    cases h with
    | idle hq hw hk => exact absurd (hc.symm.trans hk) (by simp)
    | starting first queued hq hw hk => exact absurd (hc.symm.trans hk) (by simp)
    | writing first queued w hq hw hk => exact absurd (hc.symm.trans hk) (by simp)
    | wrote first queued part' ec' hq hw hk hec =>
      obtain ⟨htask, hk'⟩ := List.cons.inj (hc.symm.trans hk)
      obtain ⟨rfl, rfl⟩ := Task.written.inj htask
      exact perform_written (q := { q with strand := tasks }) hq hw hk' hec

/-! ### Every step -/

/-- A write under way is the only one. -/
theorem stage_writes (h : Stage q left) {i : ℕ} {w : Write} (hi : q.writes[i]? = some w) :
    i = 0 ∧ q.writes = [w] ∧ controls q.strand = [] ∧ ∃ m queued, q.sendQueue = m :: queued ∧
      left = (w.rest :: m.streams.drop (w.part + 1)) :: queued.map SendData.streams := by
  have hno (hw : q.writes = []) : False := by
    rw [hw] at hi
    simp at hi
  cases h with
  | idle hq hw hk => exact (hno hw).elim
  | starting m queued hq hw hk => exact (hno hw).elim
  | wrote m queued part ec hq hw hk hec => exact (hno hw).elim
  | writing m queued w' hq hw hk =>
    rw [hw, List.getElem?_singleton] at hi
    split_ifs at hi with h0
    obtain rfl := Option.some.inj hi
    exact ⟨h0, hw, hk, m, queued, hq, rfl⟩

/-- The steps a `send` gives rise to. -/
def asked : Lbl → ℕ
  | .send m => streamsWork m.streams + 2
  | _ => 0

/-- A `send` does not change the stage. -/
theorem stage_send (h : Stage q left) (m : SendData) :
    Stage { q with strand := q.strand ++ [.push m] } left := by
  have hc : controls (q.strand ++ [.push m]) = controls q.strand := by simp
  cases h with
  | idle hq hw hk => exact .idle hq hw (hc.trans hk)
  | starting first queued hq hw hk => exact .starting first queued hq hw (hc.trans hk)
  | writing first queued w hq hw hk => exact .writing first queued w hq hw (hc.trans hk)
  | wrote first queued part ec hq hw hk hec =>
    exact .wrote first queued part ec hq hw (hc.trans hk) hec

/-- **One step.** Only the write that is under way brings bytes to the socket; until a write fails,
what has been sent is left to be written as long as it is not written. Every step but a `send`
leaves less to be done. -/
theorem stage_step (h : Stage q left) {l : Lbl} (hx : step q l = some q') :
    q'.fault = q.fault ∧ (q'.down = true → written q l = []) ∧ ∃ left', Stage q' left' ∧
      (q'.down = false → q.down = false ∧
        leftBytes left q.strand ++ accepted l = written q l ++ leftBytes left' q'.strand) ∧
      work left' q'.strand + (if asked l = 0 then 1 else 0) ≤ work left q.strand + asked l := by
  cases l with
  | send m =>
    cases hx
    refine ⟨rfl, fun _ => rfl, left, stage_send h m, fun hd => ⟨hd, ?_⟩, ?_⟩
    · simp [leftBytes, accepted, written, pushed]
    · simp [work, asked, pushed]
      omega
  | run =>
    simp only [step] at hx
    split at hx
    · next task tasks hs =>
      cases hx
      obtain ⟨hf, hd, left', h', hb, hwork⟩ := stage_run h hs
      refine ⟨hf, fun _ => rfl, left', h', fun hd' => ⟨hd ▸ hd', ?_⟩, ?_⟩
      · rw [hb (hd ▸ hd')]
        simp [accepted, written]
      · simp only [asked, if_true]
        omega
    · cases hx
  | write i n =>
    simp only [step] at hx
    split at hx
    · next w hi =>
      split_ifs at hx with hn
      cases hx
      obtain ⟨rfl, hw, hk, m, queued, hq, rfl⟩ := stage_writes h hi
      refine ⟨rfl, fun hd => ?_, _, .writing m queued { w with rest := w.rest.drop n } hq ?_ hk,
        fun hd => ⟨hd, ?_⟩, ?_⟩
      · exact absurd (hd.symm.trans hn.2.2) (by decide)
      · simp [hw]
      · have hout : written q (.write 0 n) = w.rest.take n := by simp [written, hi]
        rw [leftBytes_cons, leftBytes_cons, hout]
        simp only [accepted, List.append_nil, List.flatten_cons, ← List.append_assoc,
          List.take_append_drop]
      · simp [work, asked]
        omega
    · cases hx
  | finish i =>
    simp only [step] at hx
    split at hx
    · next w hi =>
      split_ifs at hx with hrest
      cases hx
      obtain ⟨rfl, hw, hk, m, queued, hq, rfl⟩ := stage_writes h hi
      refine ⟨rfl, fun _ => rfl, _, .wrote m queued w.part false hq ?_ ?_ fun he =>
        absurd he Bool.false_ne_true,
        fun hd => ⟨hd, ?_⟩, ?_⟩
      · simp [hw]
      · simp [hk]
      · simp [leftBytes, accepted, written, pushed, hrest]
      · simp [work, asked, pushed]
        omega
    · cases hx
  | fail i =>
    simp only [step] at hx
    split at hx
    · next w hi =>
      cases hx
      obtain ⟨rfl, hw, hk, m, queued, hq, rfl⟩ := stage_writes h hi
      refine ⟨rfl, fun _ => rfl, _, .wrote m queued w.part true hq ?_ ?_ fun _ => rfl,
        fun hd => absurd hd.symm Bool.false_ne_true, ?_⟩
      · simp [hw]
      · simp [hk]
      · simp [work, asked, pushed]
        omega
    · cases hx

/-! ### Every run -/

/-- The queue owes the socket some bytes; after a failure they do not matter. -/
def Owes (q : Queue) (bytes : Bytes) : Prop :=
  ∃ left, Stage q left ∧ (q.down = false → bytes = leftBytes left q.strand)

theorem owes_empty : Owes empty [] := ⟨[], .idle rfl rfl rfl, fun _ => rfl⟩

theorem owes_step {bytes : Bytes} (h : Owes q bytes) {l : Lbl} (hx : step q l = some q') :
    q'.fault = q.fault ∧ ∃ bytes', Owes q' bytes' ∧ bytes ++ accepted l = written q l ++ bytes' := by
  obtain ⟨left, hs, hb⟩ := h
  obtain ⟨hf, hdown, left', hs', hbytes, -⟩ := stage_step hs hx
  refine ⟨hf, ?_⟩
  by_cases hd : q'.down = true
  · refine ⟨bytes ++ accepted l, ⟨left', hs', fun hd' => ?_⟩, by rw [hdown hd, List.nil_append]⟩
    exact absurd (hd.symm.trans hd') (by decide)
  · obtain ⟨hd', he⟩ := hbytes (Bool.eq_false_iff.mpr hd)
    exact ⟨leftBytes left' q'.strand, ⟨left', hs', fun _ => rfl⟩, by rw [hb hd', he]⟩

theorem owes_run {bytes : Bytes} (h : Owes q bytes) {ls : List Lbl} (hr : run step q ls = some q') :
    q'.fault = q.fault ∧ ∃ bytes', Owes q' bytes' ∧
      bytes ++ ls.flatMap accepted = outputs step written q ls ++ bytes' := by
  induction ls generalizing q bytes with
  | nil =>
    cases Option.some.inj hr
    exact ⟨rfl, bytes, h, by rw [List.flatMap_nil, List.append_nil]; rfl⟩
  | cons l ls ih =>
    obtain ⟨q₁, h₁, hrest⟩ := run_cons_eq_some.mp hr
    obtain ⟨hf, b₁, ho₁, hb₁⟩ := owes_step h h₁
    obtain ⟨hf', b', ho', hb'⟩ := ih ho₁ hrest
    refine ⟨hf'.trans hf, b', ho', ?_⟩
    rw [List.flatMap_cons, outputs_cons h₁, ← List.append_assoc, hb₁, List.append_assoc, hb',
      List.append_assoc]

theorem owes_writes {bytes : Bytes} (h : Owes q bytes) : q.writes.length ≤ 1 := by
  obtain ⟨left, hs, -⟩ := h
  cases hs with
  | idle hq hw hk => simp [hw]
  | starting m queued hq hw hk => simp [hw]
  | writing m queued w hq hw hk => simp [hw]
  | wrote m queued part ec hq hw hk hec => simp [hw]

/-- A step the queue takes by itself. -/
def isWork : Lbl → Bool
  | .send _ => false
  | .fail _ => false
  | _ => true

/-- A queue with nothing on its strand and no write under way has nothing to do. -/
theorem step_quiet (hs : q.strand = []) (hw : q.writes = []) {l : Lbl} (hl : isWork l = true) :
    step q l = none := by
  cases l with
  | send m => exact absurd hl Bool.false_ne_true
  | fail i => exact absurd hl Bool.false_ne_true
  | run => simp only [step, hs]
  | write i n => simp only [step, hw, List.getElem?_nil]
  | finish i => simp only [step, hw, List.getElem?_nil]

theorem owes_stuck {bytes : Bytes} (h : Owes q bytes) (hd : q.down = false)
    (hno : ∀ l, isWork l = true → step q l = none) : bytes = [] := by
  obtain ⟨left, hs, hb⟩ := h
  have hstrand : q.strand = [] := by
    have hrun := hno .run rfl
    rcases hq : q.strand with _ | ⟨task, tasks⟩
    · rfl
    · simp only [step, hq, reduceCtorEq] at hrun
  have hwrites : q.writes[0]? = none := by
    rcases hw : q.writes[0]? with _ | w
    · rfl
    · by_cases hrest : w.rest = []
      · have hfinish := hno (.finish 0) rfl
        simp only [step, hw, hrest, if_true, reduceCtorEq] at hfinish
      · have hpos : 1 ≤ w.rest.length := List.length_pos_iff.mpr hrest
        have hwrite := hno (.write 0 1) rfl
        simp only [step, hw, hd, and_true, Nat.one_pos, true_and, if_pos hpos,
          reduceCtorEq] at hwrite
  rw [hb hd, hstrand]
  cases hs with
  | idle => rfl
  | starting m queued _ hw hk => exact absurd (hstrand ▸ hk) (by simp)
  | writing m queued w _ hw hk =>
    rw [hw] at hwrites
    exact absurd hwrites (by simp)
  | wrote m queued part ec _ hw hk hec => exact absurd (hstrand ▸ hk) (by simp)

/-- **The send queue**: at most one write is under way at a time, no handler finds the queue empty,
and the bytes that are brought to the socket, which takes none after an error, are the first ones of
the messages in the order of the `send`s. -/
theorem written_in_order {ls : List Lbl} (hr : run step empty ls = some q) :
    q.writes.length ≤ 1 ∧ q.fault = false ∧
      outputs step written empty ls <+: ls.flatMap accepted := by
  obtain ⟨hf, bytes, ho, hb⟩ := owes_run owes_empty hr
  exact ⟨owes_writes ho, hf, ⟨bytes, hb.symm⟩⟩

/-- Two messages are sent before the first one is written. -/
def twoSends : List Lbl :=
  [.send ⟨[1], [[2, 3]]⟩, .send ⟨[4], [[]]⟩, .run, .run, .run, .write 0 1, .finish 0, .run,
    .write 0 1]

theorem written_in_order_two : ∃ q, run step empty twoSends = some q ∧ q.writes.length ≤ 1 ∧
    q.fault = false ∧ outputs step written empty twoSends = [1, 2] ∧
      outputs step written empty twoSends <+: twoSends.flatMap accepted := by
  have hsome : (run step empty twoSends).isSome = true := by decide +kernel
  obtain ⟨q, hq⟩ := Option.isSome_iff_exists.mp hsome
  obtain ⟨hw, hf, hpre⟩ := written_in_order hq
  exact ⟨q, hq, hw, hf, by decide +kernel, hpre⟩

/-- The steps of a run that are no `send`s are limited by what has been sent. -/
theorem run_work (h : Stage q left) {ls : List Lbl} (hr : run step q ls = some q') :
    ls.countP (fun l => asked l = 0) ≤ work left q.strand + (ls.map asked).sum := by
  induction ls generalizing q left with
  | nil => exact Nat.zero_le _
  | cons l ls ih =>
    obtain ⟨q₁, h₁, hrest⟩ := run_cons_eq_some.mp hr
    obtain ⟨-, -, left₁, hs₁, -, hw₁⟩ := stage_step h h₁
    have := ih hs₁ hrest
    rw [List.countP_cons, List.map_cons, List.sum_cons]
    simp only [decide_eq_true_eq]
    omega

/-- **All of it is written**: between the `send`s the queue takes no more steps than there are bytes,
and two for each stream and for each message; and if no write fails it only stops when everything
has been written. -/
theorem all_written {ls : List Lbl} (hr : run step empty ls = some q) :
    ls.countP (fun l => asked l = 0) ≤ (ls.map asked).sum ∧
      (q.down = false → (∀ l, isWork l = true → step q l = none) →
        outputs step written empty ls = ls.flatMap accepted) := by
  obtain ⟨-, bytes, ho, hb⟩ := owes_run owes_empty hr
  rw [List.nil_append] at hb
  constructor
  · have hwork := run_work (.idle rfl rfl rfl) hr
    simpa [work, pushed, empty] using hwork
  · intro hd hno
    rw [hb, owes_stuck ho hd hno, List.append_nil]

/-- The rest of the two messages. -/
def theRest : List Lbl :=
  [.write 0 1, .finish 0, .run, .run, .write 0 1, .finish 0, .run, .finish 0, .run]

theorem all_written_two : ∃ q, run step empty (twoSends ++ theRest) = some q ∧
    (twoSends ++ theRest).countP (fun l => asked l = 0) ≤
      ((twoSends ++ theRest).map asked).sum ∧
    outputs step written empty (twoSends ++ theRest) = (twoSends ++ theRest).flatMap accepted := by
  have hend : (run step empty (twoSends ++ theRest)).map
      (fun q => (q.strand.length, q.writes.length, q.down)) = some (0, 0, false) := by
    decide +kernel
  obtain ⟨q, hq, he⟩ := Option.map_eq_some_iff.mp hend
  obtain ⟨hs, hw, hd⟩ : q.strand.length = 0 ∧ q.writes.length = 0 ∧ q.down = false := by
    simpa only [Prod.mk.injEq] using he
  obtain ⟨hle, hall⟩ := all_written hq
  exact ⟨q, hq, hle, hall hd fun l hl =>
    step_quiet (List.eq_nil_of_length_eq_zero hs) (List.eq_nil_of_length_eq_zero hw) hl⟩

end Queue

end LiveStreamer.SimpleWeb.SendQueue
