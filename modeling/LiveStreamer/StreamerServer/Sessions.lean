import LiveStreamer.Lib.Run
import LiveStreamer.StreamerServer.SrvrComm

/-! # Sessions of several devices (`srvrComm.c`, `StreamerServer.c`)

Every accepted connection gets a thread, which is given the socket of its connection and stores it
in the global `clntSock` when it starts. The socket of a connection stands for its thread. A step
is the acceptance of a connection, the start of its thread, one `recv` of a thread, its handling
of the message in `tempBufS` with all the operations that calls, or the close after its `ACK`. The
log keeps who read from which socket, called which operation, and closed which socket.

`Isolated` says of a log that every thread keeps to its own socket and to the records of the
streams its own device has named, that it closes after an `ACK` of its own, and that no other
session ends with it. All threads share the globals of the process, so a thread that starts takes
over the socket of a thread that is running (`sessions_cross`). Where no thread starts while
another runs, the sessions are isolated (`sessions_isolated`). -/

namespace LiveStreamer.StreamerServer.Sessions

open LiveStreamer.Lib.CString LiveStreamer.Lib.PathName LiveStreamer.Lib.Program
open LiveStreamer.Lib.Program.Prog LiveStreamer.Lib.Run LiveStreamer.Lib.Tokener
open LiveStreamer.StreamerServer.SrvrJson LiveStreamer.StreamerServer.SrvrComm

/-! ### The server process -/

/-- Where a thread is. -/
inductive Phase where
  /-- The connection is accepted, the thread has not run yet. -/
  | accepted
  /-- At the test of the loop of `clientComm`. -/
  | receiving
  /-- A `recv` has returned, and the message is to be handled. -/
  | handling
  | closed
  deriving DecidableEq

inductive Ev where
  | read (t sock : ℕ) (msg : Bytes)
  | op (t : ℕ) (o : SrvrOp)
  | closed (t sock : ℕ)
  /-- The thread ended the process after an error of `recv`, while the others were running. -/
  | exit (t : ℕ) (others : List ℕ)
  /-- The thread ended the process by the use of a NULL. -/
  | crash (t : ℕ)
  deriving DecidableEq

structure Srvr where
  g : Globals
  fs : Fs
  threads : AList fun _ : ℕ => Phase
  up : Bool
  /-- Newest first. -/
  log : List Ev

inductive Lbl where
  | accept (t : ℕ)
  | start (t : ℕ)
  /-- A `recv` of the thread returns these bytes, or fails. -/
  | recv (t : ℕ) (data : Option Bytes)
  | handle (t : ℕ)
  | close (t : ℕ)

/-- `ThreadMain` up to the loop of `clientComm`. -/
def threadMain (g : Globals) (clntSockfd : ℕ) : Globals :=
  { g with clntSock := clntSockfd, ACK := false }

/-- The message in the buffer. -/
def message (g : Globals) : Bytes := cstr g.tempBufS

/-- The other sessions that have not ended. -/
def others (threads : AList fun _ : ℕ => Phase) (t : ℕ) : List ℕ :=
  threads.keys.filter fun t' => t' ≠ t ∧ threads.lookup t' ≠ some .closed

section System
variable (cwd : Path)

/-- The handling of the message in the buffer by the thread `t`. -/
def handle (s : Srvr) (t : ℕ) : Srvr :=
  match exec (logged (srvrSem cwd)) (msgParse s.g (message s.g)) (s.fs, []) with
  | (some g, fs, ops) =>
    { s with
      g, fs, threads := s.threads.insert t .receiving, log := ops.reverse.map (.op t) ++ s.log }
  | (none, fs, ops) =>
    { s with fs, up := false, log := .crash t :: ops.reverse.map (.op t) ++ s.log }

/-- A step of the accepting thread or of a device thread, as long as the process is up. -/
def step (s : Srvr) : Lbl → Option Srvr
  | .accept t =>
    if s.up ∧ s.threads.lookup t = none then
      some { s with threads := s.threads.insert t .accepted }
    else none
  | .start t =>
    if s.up ∧ s.threads.lookup t = some .accepted then
      some { s with g := threadMain s.g t, threads := s.threads.insert t .receiving }
    else none
  | .recv t data =>
    if s.up ∧ s.threads.lookup t = some .receiving ∧ s.g.ACK = false then
      match receiveData s.g data with
      | some g =>
        some { s with
          g, threads := s.threads.insert t .handling, log := .read t g.clntSock (message g) :: s.log }
      | none => some { s with up := false, log := .exit t (others s.threads t) :: s.log }
    else none
  | .handle t =>
    if s.up ∧ s.threads.lookup t = some .handling then some (handle cwd s t) else none
  | .close t =>
    if s.up ∧ s.threads.lookup t = some .receiving ∧ s.g.ACK = true then
      some { s with
        threads := s.threads.insert t .closed, log := .closed t s.g.clntSock :: s.log }
    else none

/-- No connection yet, and a store of whole records. -/
def Initial (s : Srvr) : Prop :=
  s.threads = ∅ ∧ s.log = [] ∧ WholeStore cwd s.fs

/-! ### Isolation -/

/-- The stream the device of `t` has named last. -/
def named (t : ℕ) : List Ev → Option Bytes
  | [] => none
  | .read t' _ msg :: log =>
    if t' = t then (field "streamId" msg).or (named t log) else named t log
  | _ :: log => named t log

/-- An operation on the record of the stream `id`, or a reply to the socket `t`, which is an `ACK`
or names `id`. -/
def Own (t : ℕ) (id : Bytes) : SrvrOp → Prop
  | .set _ _ file => file = some id
  | .get _ file => file = some id
  | .send sock text => sock = t ∧ (text = ackText ∨ ∃ action, text = actText (some id) action)
  | .lwsWrite _ => False

/-- **Every session keeps to itself.** -/
def Isolated : List Ev → Prop
  | [] => True
  | .read t sock _ :: log => sock = t ∧ Isolated log
  | .op t o :: log => (∃ id, named t log = some id ∧ Own t id o) ∧ Isolated log
  | .closed t sock :: log => sock = t ∧ .op t (.send t ackText) ∈ log ∧ Isolated log
  | .exit _ others :: log => others = [] ∧ Isolated log
  | .crash _ :: _ => False

/-- A thread that is between its start and its close. -/
def Running (threads : AList fun _ : ℕ => Phase) (t : ℕ) : Prop :=
  threads.lookup t = some .receiving ∨ threads.lookup t = some .handling

instance (threads : AList fun _ : ℕ => Phase) (t : ℕ) : Decidable (Running threads t) :=
  inferInstanceAs (Decidable (_ ∨ _))

/-- **Sessions do not overlap**: a thread starts when no other is running. A `recv` fails only
when no other session is open, and returns a message that names a status, and a stream unless the
session has named one before. -/
def Separate (s : Srvr) : Lbl → Prop
  | .start _ => ∀ t ∈ s.threads.keys, ¬ Running s.threads t
  | .recv t none => others s.threads t = []
  | .recv t (some data) =>
    field "status" (cstr (data.take (MAXDATASIZE - 1))) ≠ none ∧
      ((field "streamId" (cstr (data.take (MAXDATASIZE - 1)))).or (named t s.log)) ≠ none
  | _ => True

instance (s : Srvr) : ∀ l, Decidable (Separate s l)
  | .accept _ => isTrue trivial
  | .start _ => inferInstanceAs (Decidable (∀ t ∈ _, _))
  | .recv _ none => inferInstanceAs (Decidable (_ = _))
  | .recv _ (some _) => inferInstanceAs (Decidable (_ ∧ _))
  | .handle _ => isTrue trivial
  | .close _ => isTrue trivial

/-! ### The handling of a message -/

/-- An operation that answers: a store of a value, a read of a field that every record has. -/
def Answerable : SrvrOp → Prop
  | .set _ value _ => value.isSome
  | .get jKey _ => jKey ∈ keys
  | _ => True

/-- A read answers a string. -/
def Answers : (o : SrvrOp) → SrvrRet o → Prop
  | .get _ _, r => ∃ v, r = some v
  | _, _ => True

variable {cwd}

theorem srvrSem_own {t : ℕ} {id : Bytes} (o : SrvrOp) (fs : Fs) (ho : Own t id o ∧ Answerable o)
    (hw : WholeStore cwd fs) :
    ∃ r, (srvrSem cwd o fs).1 = some r ∧ Answers o r ∧ WholeStore cwd (srvrSem cwd o fs).2 := by
  obtain ⟨ho, ha⟩ := ho
  cases o with
  | set jKey value file =>
    obtain rfl : file = some id := ho
    obtain ⟨v, rfl⟩ := Option.isSome_iff_exists.mp ha
    rw [srvrSem_set]
    exact ⟨(), rfl, trivial, hw.store id ((hw id).add jKey v)⟩
  | get jKey file =>
    obtain rfl : file = some id := ho
    obtain ⟨v, hv⟩ := hw id jKey ha
    rw [srvrSem_get cwd hv]
    exact ⟨some (cstr v), rfl, ⟨_, rfl⟩, hw.load id⟩
  | send sock text => exact ⟨(), rfl, trivial, hw⟩
  | lwsWrite text => exact ho.elim

/-- What the handling of a message leaves: the socket and the stream stay, and the flag is set
only after an `ACK`. -/
def Handled (t : ℕ) (id : Bytes) (ops : List SrvrOp) (g : Globals) : Prop :=
  g.clntSock = t ∧ g.strmID = some id ∧ (g.ACK = true → .send t ackText ∈ ops)

section Handling
variable {t : ℕ} {id : Bytes} {g : Globals}

/-- The handling keeps to its own session. -/
abbrev Keeps (t : ℕ) (id : Bytes) (p : SrvrProg Globals) (ops : List SrvrOp) : Prop :=
  Wp (fun o => Own t id o ∧ Answerable o) Answers (Handled t id) p ops

theorem keeps_SIGAck (hs : g.clntSock = t) (hid : g.strmID = some id) (ops : List SrvrOp) :
    Keeps t id (SIGAck g) ops := by
  simp only [SIGAck, sendData, setValue, op_bind]
  refine ⟨⟨⟨hs, Or.inl rfl⟩, trivial⟩, fun _ _ => ⟨⟨hid, rfl⟩, fun _ _ => ⟨hs, hid, fun _ => ?_⟩⟩⟩
  rw [hs]
  exact List.mem_append_left _ (List.mem_append_right _ (List.mem_singleton_self _))

theorem keeps_SIGAct (hs : g.clntSock = t) (hid : g.strmID = some id) (ha : g.ACK = false)
    (ops : List SrvrOp) : Keeps t id (SIGAct g) ops := by
  simp only [SIGAct, getValue, sendData, op_bind]
  refine ⟨⟨hid, mem_keys_action⟩,
    fun r _ => ⟨⟨⟨hs, Or.inr ⟨r, by rw [hid]⟩⟩, trivial⟩, fun _ _ => ?_⟩⟩
  exact ⟨hs, hid, fun h => absurd (ha.symm.trans h) (by decide)⟩

theorem keeps_withAction {k : Bytes → SrvrProg Globals} (hid : g.strmID = some id)
    (hk : ∀ a ops, Keeps t id (k a) ops) (ops : List SrvrOp) :
    Keeps t id (withAction g k) ops := by
  refine ⟨⟨hid, mem_keys_action⟩, fun r hr => ?_⟩
  obtain ⟨a, rfl⟩ := hr
  exact hk a _

theorem keeps_compareAction (hs : g.clntSock = t) (hid : g.strmID = some id) (ha : g.ACK = false)
    (status : Bytes) (ops : List SrvrOp) : Keeps t id (compareAction g status) ops :=
  compareAction_rule (P := fun p => ∀ ops, Keeps t id p ops) (fun _ => keeps_withAction hid)
    (keeps_SIGAck hs hid) (keeps_SIGAct hs hid ha) status ops

/-- **The handling of a message keeps to its own session.** -/
theorem keeps_msgParse {msg status : Bytes} (hs : g.clntSock = t) (ha : g.ACK = false)
    (hid : streamOf g (tokenerParse msg) = some id) (hst : field "status" msg = some status) :
    Keeps t id (msgParse g msg) [] := by
  rw [msgParse_eq g hid hst]
  exact ⟨⟨rfl, rfl⟩, fun _ _ => ⟨⟨rfl, rfl⟩, fun _ _ => ⟨⟨rfl, mem_keys_status⟩, fun _ _ =>
    keeps_compareAction (g := { g with strmID := some id }) hs rfl ha status _⟩⟩⟩

end Handling

/-! ### The invariant -/

theorem named_ops (t t' : ℕ) (ops : List SrvrOp) (log : List Ev) :
    named t' (ops.map (.op t) ++ log) = named t' log := by
  induction ops with
  | nil => rfl
  | cons o ops ih => exact ih

theorem isolated_ops {t : ℕ} {id : Bytes} {ops : List SrvrOp} {log : List Ev}
    (hn : named t log = some id) (ho : ∀ o ∈ ops, Own t id o) (h : Isolated log) :
    Isolated (ops.map (.op t) ++ log) := by
  induction ops with
  | nil => exact h
  | cons o ops ih =>
    refine ⟨⟨id, ?_, ho o (List.mem_cons_self ..)⟩, ih fun o' ho' => ho o' (.tail _ ho')⟩
    exact (named_ops t t ops log).trans hn

variable (cwd) in
/-- At most one thread is running, the globals are its own, and the log is isolated. -/
structure Inv (s : Srvr) : Prop where
  whole : WholeStore cwd s.fs
  isolated : Isolated s.log
  fresh : ∀ t, s.threads.lookup t = none ∨ s.threads.lookup t = some .accepted →
    named t s.log = none
  sock : ∀ t, Running s.threads t → s.g.clntSock = t
  strm : ∀ t, s.threads.lookup t = some .receiving →
    ∀ id, named t s.log = some id → s.g.strmID = some id
  acked : ∀ t, s.threads.lookup t = some .receiving → s.g.ACK = true →
    .op t (.send t ackText) ∈ s.log
  pending : ∀ t, s.threads.lookup t = some .handling → s.g.ACK = false ∧
    (∃ status, field "status" (message s.g) = some status) ∧
      ∃ id, named t s.log = some id ∧ streamOf s.g (tokenerParse (message s.g)) = some id

theorem inv_of_initial {s : Srvr} (h : Initial cwd s) : Inv cwd s := by
  obtain ⟨ht, hl, hw⟩ := h
  refine ⟨hw, ?_, ?_, ?_, ?_, ?_, ?_⟩ <;> simp [ht, hl, Running, Isolated, named]

/-- After a step of the thread `t`, what is known of the other threads is what was known. -/
theorem lookup_other {threads : AList fun _ : ℕ => Phase} {t t' : ℕ} {ph ph' : Phase}
    (hp : ph' ≠ ph) (hl : (threads.insert t ph).lookup t' = some ph') :
    t' ≠ t ∧ threads.lookup t' = some ph' := by
  have he : t' ≠ t := by
    rintro rfl
    rw [AList.lookup_insert] at hl
    exact hp (Option.some.inj hl).symm
  exact ⟨he, by rwa [AList.lookup_insert_ne he] at hl⟩

theorem running_other {threads : AList fun _ : ℕ => Phase} {t t' : ℕ} {ph : Phase}
    (h1 : ph ≠ .receiving) (h2 : ph ≠ .handling) (hr : Running (threads.insert t ph) t') :
    t' ≠ t ∧ Running threads t' := by
  rcases hr with hl | hl
  · exact ⟨(lookup_other h1.symm hl).1, Or.inl (lookup_other h1.symm hl).2⟩
  · exact ⟨(lookup_other h2.symm hl).1, Or.inr (lookup_other h2.symm hl).2⟩

/-- A thread that is not started stays so, whatever phase another one gets. -/
theorem fresh_other {threads : AList fun _ : ℕ => Phase} {t t' : ℕ} {ph : Phase}
    (hp : ph ≠ .accepted) (hl : (threads.insert t ph).lookup t' = none ∨
      (threads.insert t ph).lookup t' = some .accepted) :
    t' ≠ t ∧ (threads.lookup t' = none ∨ threads.lookup t' = some .accepted) := by
  rcases hl with hl | hl
  · have he : t' ≠ t := by
      rintro rfl
      simp at hl
    exact ⟨he, Or.inl (by rwa [AList.lookup_insert_ne he] at hl)⟩
  · exact ⟨(lookup_other hp.symm hl).1, Or.inr (lookup_other hp.symm hl).2⟩

theorem named_read_ne {t t' sock : ℕ} {msg : Bytes} {log : List Ev} (h : t' ≠ t) :
    named t' (.read t sock msg :: log) = named t' log := by
  rw [named, if_neg (Ne.symm h)]

theorem inv_accept {s s' : Srvr} {t : ℕ} (hi : Inv cwd s) (h : step cwd s (.accept t) = some s') :
    Inv cwd s' := by
  simp only [step] at h
  split_ifs at h with hc
  cases h
  refine ⟨hi.whole, hi.isolated, fun t' hl => ?_,
    fun t' hr => hi.sock t' (running_other (by decide) (by decide) hr).2,
    fun t' hl => hi.strm t' (lookup_other (by decide) hl).2,
    fun t' hl => hi.acked t' (lookup_other (by decide) hl).2,
    fun t' hl => hi.pending t' (lookup_other (by decide) hl).2⟩
  by_cases he : t' = t
  · exact hi.fresh t' (Or.inl (he ▸ hc.2))
  · simp only [AList.lookup_insert_ne he] at hl
    exact hi.fresh t' hl

theorem inv_start {s s' : Srvr} {t : ℕ} (hi : Inv cwd s) (hc : Separate s (.start t))
    (h : step cwd s (.start t) = some s') : Inv cwd s' := by
  simp only [step] at h
  split_ifs at h with hl
  cases h
  have hnone : ∀ t', ¬ Running s.threads t' := by
    intro t' hr
    refine hc t' ?_ hr
    rw [← AList.mem_keys, ← AList.lookup_isSome]
    rcases hr with hr | hr <;> simp [hr]
  have hone : ∀ t', Running (s.threads.insert t .receiving) t' → t' = t := by
    intro t' hr
    by_contra he
    refine hnone t' ?_
    simpa only [Running, AList.lookup_insert_ne he] using hr
  refine ⟨hi.whole, hi.isolated, fun t' hl' => ?_, fun t' hr => (hone t' hr).symm, ?_, ?_, ?_⟩
  · exact hi.fresh t' (fresh_other (by decide) hl').2
  · intro t' hr id hid
    obtain rfl := hone t' (Or.inl hr)
    rw [hi.fresh t' (Or.inr hl.2)] at hid
    cases hid
  · intro t' _ ha
    cases ha
  · intro t' hr
    exact absurd (lookup_other (by decide) hr).2 fun h => hnone t' (Or.inr h)

/-- While a thread is running, what it does to its own phase leaves no other thread running. -/
theorem not_running_other {s : Srvr} {t t' : ℕ} (hi : Inv cwd s) (hr : Running s.threads t)
    (he : t' ≠ t) : ¬ Running s.threads t' := by
  intro hr'
  exact he ((hi.sock t' hr').symm.trans (hi.sock t hr))

theorem inv_recv {s s' : Srvr} {t : ℕ} {data : Option Bytes} (hi : Inv cwd s)
    (hc : Separate s (.recv t data)) (h : step cwd s (.recv t data) = some s') : Inv cwd s' := by
  simp only [step] at h
  split_ifs at h with hl
  obtain ⟨-, hl, hack⟩ := hl
  have hsock : s.g.clntSock = t := hi.sock t (Or.inl hl)
  cases data with
  | none =>
    cases h
    exact ⟨hi.whole, ⟨hc, hi.isolated⟩, hi.fresh, hi.sock, hi.strm,
      fun t' hl' ha => .tail _ (hi.acked t' hl' ha), hi.pending⟩
  | some data =>
    cases h
    obtain ⟨hst, hid⟩ := hc
    obtain ⟨status, hst⟩ := Option.ne_none_iff_exists'.mp hst
    obtain ⟨id, hid⟩ := Option.ne_none_iff_exists'.mp hid
    have hother : ∀ t', t' ≠ t → ¬ Running s.threads t' := fun t' =>
      not_running_other hi (Or.inl hl)
    refine ⟨hi.whole, ⟨hsock, hi.isolated⟩, fun t' hl' => ?_, fun t' hr => ?_, fun t' hl' => ?_,
      fun t' hl' => ?_, fun t' hl' => ?_⟩
    · obtain ⟨he, hf⟩ := fresh_other (by decide) hl'
      exact (named_read_ne he).trans (hi.fresh t' hf)
    · by_cases he : t' = t
      · exact hsock.trans he.symm
      · exact absurd (by simpa only [Running, AList.lookup_insert_ne he] using hr) (hother t' he)
    · obtain ⟨he, hl'⟩ := lookup_other (by decide) hl'
      exact absurd (Or.inl hl') (hother t' he)
    · obtain ⟨he, hl'⟩ := lookup_other (by decide) hl'
      exact absurd (Or.inl hl') (hother t' he)
    · by_cases he : t' = t
      · subst he
        refine ⟨hack, ⟨status, hst⟩, id, ?_, ?_⟩
        · rw [named, if_pos rfl]
          exact hid
        · rcases hf : field "streamId" (cstr (data.take (MAXDATASIZE - 1))) with _ | id'
          · rw [hf, Option.none_or] at hid
            exact (streamOf_of_none hf).trans (hi.strm t' hl id hid)
          · rw [hf, Option.some_or] at hid
            cases hid
            exact streamOf_of_field hf
      · rw [AList.lookup_insert_ne he] at hl'
        exact absurd (Or.inr hl') (hother t' he)

theorem inv_handle {s s' : Srvr} {t : ℕ} (hi : Inv cwd s) (h : step cwd s (.handle t) = some s') :
    Inv cwd s' := by
  simp only [step] at h
  split_ifs at h with hl
  cases h
  obtain ⟨hack, ⟨status, hst⟩, id, hn, hid⟩ := hi.pending t hl.2
  have hr : Running s.threads t := Or.inr hl.2
  obtain ⟨g, fs, ops, hx, hw, ⟨hs, hg, ha⟩, ho⟩ :=
    Wp.exec (l := []) (fun o fs ho hw => srvrSem_own o fs ho hw) hi.whole
      (keeps_msgParse (hi.sock t hr) hack hid hst) (by simp)
  have hx : exec (logged (srvrSem cwd)) (msgParse s.g (message s.g)) (s.fs, []) =
      (some g, fs, ops) := hx
  simp only [handle, hx]
  have hone : ∀ t', Running (s.threads.insert t .receiving) t' → t' = t := by
    intro t' hr'
    by_contra he
    refine not_running_other hi hr he ?_
    simpa only [Running, AList.lookup_insert_ne he] using hr'
  refine ⟨hw, isolated_ops hn (fun o h => (ho o (List.mem_reverse.mp h)).1) hi.isolated,
    fun t' hl' => ?_, fun t' hr' => ?_, fun t' hl' id' hid' => ?_, fun t' hl' ha' => ?_,
    fun t' hl' => ?_⟩
  · rw [named_ops]
    exact hi.fresh t' (fresh_other (by decide) hl').2
  · rw [hone t' hr']
    exact hs
  · obtain rfl := hone t' (Or.inl hl')
    rw [named_ops, hn] at hid'
    cases hid'
    exact hg
  · obtain rfl := hone t' (Or.inl hl')
    exact List.mem_append_left _ (List.mem_map_of_mem (List.mem_reverse.mpr (ha ha')))
  · obtain ⟨he, hl'⟩ := lookup_other (by decide) hl'
    exact absurd (Or.inr hl') (not_running_other hi hr he)

theorem inv_close {s s' : Srvr} {t : ℕ} (hi : Inv cwd s) (h : step cwd s (.close t) = some s') :
    Inv cwd s' := by
  simp only [step] at h
  split_ifs at h with hl
  cases h
  obtain ⟨-, hl, hack⟩ := hl
  refine ⟨hi.whole, ⟨hi.sock t (Or.inl hl), hi.acked t hl hack, hi.isolated⟩,
    fun t' hl' => hi.fresh t' (fresh_other (by decide) hl').2,
    fun t' hr => hi.sock t' (running_other (by decide) (by decide) hr).2,
    fun t' hl' => hi.strm t' (lookup_other (by decide) hl').2,
    fun t' hl' ha => .tail _ (hi.acked t' (lookup_other (by decide) hl').2 ha),
    fun t' hl' => hi.pending t' (lookup_other (by decide) hl').2⟩

/-- **Sessions that do not overlap are isolated**, in every run. -/
theorem sessions_isolated {s s' : Srvr} {es : List Lbl} (hi : Initial cwd s)
    (hm : Meets (step cwd) Separate s es) (hr : run (step cwd) s es = some s') :
    Isolated s'.log := by
  have hstep : ∀ s e s', Inv cwd s → Separate s e → step cwd s e = some s' → Inv cwd s' := by
    intro s e s' hi hc h
    cases e with
    | accept t => exact inv_accept hi h
    | start t => exact inv_start hi hc h
    | recv t data => exact inv_recv hi hc h
    | handle t => exact inv_handle hi h
    | close t => exact inv_close hi h
  exact (hm.inv hstep (inv_of_initial hi) hr).isolated

end System

/-! ### Two sessions one after the other, and two at once -/

/-- A server without connections and without records. -/
def start : Srvr where
  g := { strmID := none, clntSock := 0, ACK := false, tempBufS := [] }
  fs := ∅
  threads := ∅
  up := true
  log := []

theorem initial_start : Initial [] start := ⟨rfl, rfl, wholeStore_empty []⟩

/-- The report of a device. -/
def report (id : String) : Option Bytes :=
  some (lit ("\x7b \"streamId\" : \"" ++ id ++ "\", \"status\" : \"live\"\x7d"))

/-- Two devices are connected, the second session starts after the first. -/
def inTurn : List Lbl :=
  [.accept 4, .accept 5, .start 4, .recv 4 (report "a"), .handle 4, .close 4, .start 5,
    .recv 5 (report "b"), .handle 5, .close 5]

/-- The second session starts before the first has received. -/
def atOnce : List Lbl := [.accept 4, .accept 5, .start 4, .start 5, .recv 4 (report "b")]

theorem sessions_isolated_inTurn :
    ∃ s', run (step []) start inTurn = some s' ∧ s'.log.length = 18 ∧ Isolated s'.log := by
  have hlen : (run (step []) start inTurn).map (fun s => s.log.length) = some 18 := by
    decide +kernel
  obtain ⟨s', hr, hl⟩ := Option.map_eq_some_iff.mp hlen
  exact ⟨s', hr, hl, sessions_isolated initial_start (by decide +kernel) hr⟩

/-- **A thread that reads from the socket of another session.** -/
theorem sessions_cross :
    ¬ ∀ (cwd : Path) (s s' : Srvr) (es : List Lbl), Initial cwd s →
      run (step cwd) s es = some s' → Isolated s'.log := by
  intro h
  have hlog : (run (step []) start atOnce).map Srvr.log =
      some [.read 4 5 (lit "\x7b \"streamId\" : \"b\", \"status\" : \"live\"\x7d")] := by
    decide +kernel
  obtain ⟨s', hr, hl⟩ := Option.map_eq_some_iff.mp hlog
  have hs := h [] start s' atOnce initial_start hr
  rw [hl] at hs
  exact absurd hs.1 (by decide)

end LiveStreamer.StreamerServer.Sessions
