import LiveStreamer.Lib.Run
import LiveStreamer.StreamerServer.PlayerServer

/-! # Player commands against the device thread

One device thread handles the reports of a stream with `msgParse`, one player thread the requests
for the same stream with `websocketWriteBack`; each store operation and each send of the two is
one step (`step`), in any order. The log keeps what a player can rely on: an action is `stored`,
the player gets its `ACK` (`acked`), the device gets an `ACK` for its report (`devAck`).

`Promised a` says that the last stored action is `a`, that the player has its `ACK`, and that no
report satisfying `a` has been acknowledged since. The device thread decides on an action it has
read and sets `done` two steps later (`SIGAck`); in between a player can store another action,
which `done` then overwrites (`done_overwrites_promise`). Where no action is stored in these two
steps, every promised action is the stored one (`promise_kept`). -/

namespace LiveStreamer.StreamerServer.PlayerCommands

open LiveStreamer.Lib.CString LiveStreamer.Lib.PathName LiveStreamer.Lib.Program
open LiveStreamer.Lib.Program.Prog LiveStreamer.Lib.Run LiveStreamer.Lib.Tokener
open LiveStreamer.StreamerServer.SrvrJson LiveStreamer.StreamerServer.SrvrComm
open LiveStreamer.StreamerServer.PlayerServer

/-! ### The two threads -/

inductive Ev where
  | stored (action : Bytes)
  | acked (action : Bytes)
  | devAck (status : Bytes)
  deriving DecidableEq

structure Sys where
  fs : Fs
  /-- What is left of the device thread's `msgParse`, and the status it was called with. -/
  dev : SrvrProg Globals
  report : Bytes
  /-- What is left of the player thread's `websocketWriteBack`, and the action it was called
  with. -/
  plyr : SrvrProg Unit
  action : Bytes
  /-- Newest first. -/
  log : List Ev

inductive Lbl where
  | report (msg : Bytes)
  | dev
  | request (str : Bytes)
  | plyr

/-- The event of an operation of the device thread. -/
def devEv (report : Bytes) : Option SrvrOp → List Ev
  | some (.send _ text) => if text = ackText then [.devAck report] else []
  | _ => []

/-- The event of an operation of the player thread. -/
def plyrEv (action : Bytes) : Option SrvrOp → List Ev
  | some (.set _ _ _) => [.stored action]
  | some (.lwsWrite _) => [.acked action]
  | _ => []

section System
variable (cwd : Path) (strm : Bytes)

/-- A step of one of the threads, or the arrival of a report or a request for the stream. -/
def step (s : Sys) : Lbl → Option Sys
  | .report msg =>
    match s.dev, field "status" msg with
    | .ret g, some status =>
      if field "streamId" msg = some strm then
        some { s with dev := msgParse g msg, report := status }
      else none
    | _, _ => none
  | .dev =>
    (s.dev.step (srvrSem cwd) s.fs).map fun p =>
      { s with dev := p.1, fs := p.2, log := devEv s.report s.dev.next ++ s.log }
  | .request str =>
    match s.plyr, field "action" str with
    | .ret _, some action =>
      if field "streamId" str = some strm ∧ action ≠ lit "status" ∧ action ≠ lit "done" then
        some { s with plyr := websocketWriteBack str, action := action }
      else none
    | _, _ => none
  | .plyr =>
    (s.plyr.step (srvrSem cwd) s.fs).map fun p =>
      { s with plyr := p.1, fs := p.2, log := plyrEv s.action s.plyr.next ++ s.log }

/-- Both threads are idle, and the record is whole or not there yet. -/
def Initial (s : Sys) : Prop :=
  (∃ g, s.dev = .ret g) ∧ s.plyr = .ret () ∧ s.log = [] ∧ Whole (record cwd s.fs strm)

/-- The last stored action is `a`, and no report that satisfies it has been acknowledged since. -/
def Owed (a : Bytes) : List Ev → Prop
  | [] => False
  | .stored b :: _ => b = a
  | .acked _ :: log => Owed a log
  | .devAck status :: log => ¬ Satisfies status a ∧ Owed a log

/-- **A promise to a player**: the action is owed, and its `ACK` has been sent. -/
def Promised (a : Bytes) : List Ev → Prop
  | [] => False
  | .stored _ :: _ => False
  | .acked b :: log => (b = a ∧ Owed a log) ∨ Promised a log
  | .devAck status :: log => ¬ Satisfies status a ∧ Promised a log

/-- The operation that marks the action done. -/
abbrev markDone : SrvrOp := .set (lit "action") (some (lit "done")) (some strm)

/-- The next operation of the device thread is no part of `SIGAck`, or it is the `ACK` for a report
that satisfies the action. -/
def Spares (report action : Bytes) : Option SrvrOp → Prop
  | some (.send _ text) => text = ackText → Satisfies report action
  | o => o ≠ some (markDone strm)

instance (report action : Bytes) : ∀ o, Decidable (Spares strm report action o)
  | some (.send _ text) => inferInstanceAs (Decidable (text = ackText → _))
  | some (.set _ _ _) => inferInstanceAs (Decidable (_ ≠ _))
  | some (.get _ _) => inferInstanceAs (Decidable (_ ≠ _))
  | some (.lwsWrite _) => inferInstanceAs (Decidable (_ ≠ _))
  | none => inferInstanceAs (Decidable (_ ≠ _))

/-- **No action is stored between the device thread's decision and its `done`**, unless the
report that is about to be acknowledged satisfies it. -/
def Clear (s : Sys) : Lbl → Prop
  | .plyr =>
    s.plyr.next = some (.set (lit "action") (some s.action) (some strm)) →
      Spares strm s.report s.action s.dev.next
  | _ => True

instance (s : Sys) : ∀ l, Decidable (Clear strm s l)
  | .plyr => inferInstanceAs (Decidable (_ → _))
  | .report _ => isTrue trivial
  | .dev => isTrue trivial
  | .request _ => isTrue trivial

/-! ### What is left of the two handlers -/

/-- The device thread is about to set `done`. -/
def AtDone (p : SrvrProg Globals) : Prop :=
  ∃ g, p = .call (markDone strm) fun _ => .ret g

/-- The device thread is about to send its `ACK`. -/
def AtSend (p : SrvrProg Globals) : Prop :=
  ∃ sock g, p = .call (.send sock ackText) fun _ => .call (markDone strm) fun _ => .ret g

/-- The action read justifies an `ACK` for the report. -/
def Justifies (status : Bytes) (r : Option Bytes) : Prop :=
  r = some (lit "done") ∨ ∃ a, r = some a ∧ Satisfies status a

/-- What is left of `msgParse` up to its decision: it changes no action, sends no `ACK`, and goes
on to `SIGAck` right after it has read an action that justifies it. -/
def Undecided (status : Bytes) : SrvrProg Globals → Prop
  | .ret _ => True
  | .abort => True
  | .call (.set jKey value file) k =>
    jKey ≠ lit "action" ∧ (∃ v, value = some v) ∧ file = some strm ∧ Undecided status (k ())
  | .call (.get jKey file) k =>
    file = some strm ∧ jKey ∈ keys ∧ ∀ r, Undecided status (k r) ∨
      (jKey = lit "action" ∧ AtSend strm (k r) ∧ Justifies status r)
  | .call (.send _ text) k => text ≠ ackText ∧ Undecided status (k ())
  | .call (.lwsWrite _) _ => False

variable {cwd strm}

theorem atSend_SIGAck {g : Globals} (h : g.strmID = some strm) : AtSend strm (SIGAck g) := by
  refine ⟨g.clntSock, { g with tempBufS := snprintf MAXDATASIZE (lit "ACK"), ACK := true }, ?_⟩
  simp only [SIGAck, sendData, setValue, op_bind]
  rw [h]
  rfl

theorem undecided_SIGAct {status : Bytes} {g : Globals} (h : g.strmID = some strm) :
    Undecided strm status (SIGAct g) := by
  simp only [SIGAct, getValue, sendData, op_bind, Undecided]
  exact ⟨h, by decide, fun r => Or.inl ⟨actText_ne_ack _ _, trivial⟩⟩

/-- A read of the action is followed by a justified `SIGAck` or goes on undecided. -/
theorem undecided_withAction {status : Bytes} {g : Globals} {k : Bytes → SrvrProg Globals}
    (h : g.strmID = some strm)
    (hk : ∀ a, Undecided strm status (k a) ∨ (AtSend strm (k a) ∧ Justifies status (some a))) :
    Undecided strm status (withAction g k) := by
  refine ⟨h, by decide, fun r => ?_⟩
  rcases r with _ | a
  · exact Or.inl trivial
  · rcases hk a with h1 | ⟨h1, h2⟩
    · exact Or.inl h1
    · exact Or.inr ⟨rfl, h1, h2⟩

theorem undecided_compareStatus {status : Bytes} {g : Globals} (h : g.strmID = some strm) :
    Undecided strm status (compareStatus g status) := by
  refine undecided_withAction h fun a => ?_
  by_cases ha : status = a
  · rw [if_pos ha]
    exact Or.inr ⟨atSend_SIGAck h, Or.inr ⟨a, rfl, Or.inl ha⟩⟩
  · rw [if_neg ha]
    exact Or.inl (undecided_SIGAct h)

theorem undecided_compareAction {status : Bytes} {g : Globals} (h : g.strmID = some strm) :
    Undecided strm status (compareAction g status) := by
  refine undecided_withAction h fun a => ?_
  by_cases hd : a = lit "done"
  · rw [if_pos hd]
    exact Or.inr ⟨atSend_SIGAck h, Or.inl (by rw [hd])⟩
  rw [if_neg hd]
  left
  by_cases hr : status = lit "ready"
  · rw [if_pos hr]
    refine undecided_withAction h fun b => ?_
    by_cases ho : b = lit "off"
    · rw [if_pos ho]
      exact Or.inr ⟨atSend_SIGAck h, Or.inr ⟨b, rfl, Or.inr ⟨hr, ho⟩⟩⟩
    · rw [if_neg ho]
      exact Or.inl (undecided_compareStatus h)
  · rw [if_neg hr]
    exact undecided_compareStatus h

theorem undecided_msgParse {status msg : Bytes} (g : Globals)
    (hid : field "streamId" msg = some strm) (hst : field "status" msg = some status) :
    Undecided strm status (msgParse g msg) := by
  rw [msgParse_eq g (streamOf_of_field hid) hst]
  exact ⟨by decide, ⟨_, rfl⟩, rfl, by decide, ⟨_, rfl⟩, rfl, rfl, by decide,
    fun _ => Or.inl (undecided_compareAction rfl)⟩

/-! ### The invariant -/

theorem owed_of_promised {a : Bytes} {log : List Ev} (h : Promised a log) : Owed a log := by
  induction log with
  | nil => exact h.elim
  | cons e log ih =>
    cases e with
    | stored b => exact h.elim
    | acked b => exact h.elim And.right ih
    | devAck status => exact ⟨h.1, ih h.2⟩

/-- What is left of `websocketWriteBack`. -/
inductive PlyrAt (strm action : Bytes) : SrvrProg Unit → Prop
  | idle : PlyrAt strm action (.ret ())
  | reply : PlyrAt strm action (.call (.lwsWrite ackText) .ret)
  | store (h0 : (0 : UInt8) ∉ action) (hd : action ≠ lit "done") :
      PlyrAt strm action (.call (.set (lit "action") (some action) (some strm)) fun _ =>
        .call (.lwsWrite ackText) .ret)

/-- What is left of `msgParse`: after its decision, the report satisfies every action that is
owed, and after its `ACK` none is owed. -/
inductive DevAt (strm report : Bytes) (log : List Ev) (p : SrvrProg Globals) : Prop
  | undecided (h : Undecided strm report p)
  | send (h : AtSend strm p) (hs : ∀ a, Owed a log → Satisfies report a)
  | done (h : AtDone strm p) (hn : ∀ a, ¬ Owed a log)

variable (cwd strm) in
/-- An owed action is the stored one. -/
structure Inv (s : Sys) : Prop where
  whole : Whole (record cwd s.fs strm)
  owed : ∀ a, Owed a s.log → storedAction cwd strm s.fs = some a ∧ a ≠ lit "done"
  dev : DevAt strm s.report s.log s.dev
  plyr : PlyrAt strm s.action s.plyr

theorem inv_of_initial {s : Sys} (h : Initial cwd strm s) : Inv cwd strm s := by
  obtain ⟨⟨g, hd⟩, hp, hl, hw⟩ := h
  refine ⟨hw, fun a ha => ?_, .undecided ?_, ?_⟩
  · rw [hl] at ha
    exact ha.elim
  · rw [hd]
    trivial
  · rw [hp]
    exact .idle

/-- A read by the device thread: the record stays, and a decision on the action read is a decision
on every action that is owed. -/
theorem inv_dev_get {s : Sys} {jKey : Bytes} {k : Option Bytes → SrvrProg Globals}
    (hi : Inv cwd strm s) (hk : jKey ∈ keys)
    (hu : ∀ r, Undecided strm s.report (k r) ∨
      (jKey = lit "action" ∧ AtSend strm (k r) ∧ Justifies s.report r)) :
    ∃ r, srvrSem cwd (.get jKey (some strm)) s.fs = (some r, load cwd s.fs strm) ∧
      Inv cwd strm { s with dev := k r, fs := load cwd s.fs strm } := by
  obtain ⟨v, hv⟩ := hi.whole jKey hk
  refine ⟨_, srvrSem_get cwd hv, ?_, ?_, ?_, hi.plyr⟩
  · show Whole (record cwd (load cwd s.fs strm) strm)
    rw [record_load_self]
    exact hi.whole
  · intro a ha
    show storedAction cwd strm (load cwd s.fs strm) = some a ∧ _
    rw [storedAction, record_load_self]
    exact hi.owed a ha
  · rcases hu (getString (.str v)) with h | ⟨rfl, h, hj⟩
    · exact .undecided h
    · refine .send h fun a ha => ?_
      obtain ⟨hst, hd⟩ := hi.owed a ha
      have hst : getString (.str v) = some a := by
        rw [storedAction, hv] at hst
        exact hst
      rw [hst] at hj
      rcases hj with hj | ⟨b, hb, hs⟩
      · exact absurd (Option.some.inj hj) hd
      · exact Option.some.inj hb ▸ hs

/-- A store by the device thread of a field that is not the action. -/
theorem inv_dev_set {s : Sys} {jKey v : Bytes} {p : SrvrProg Globals} (hi : Inv cwd strm s)
    (hk : jKey ≠ lit "action") (hu : Undecided strm s.report p) :
    Inv cwd strm { s with
      dev := p, fs := store cwd s.fs strm (add (record cwd s.fs strm) jKey (.str v)) } := by
  refine ⟨?_, fun a ha => ?_, .undecided hu, hi.plyr⟩
  · show Whole (record cwd (store cwd s.fs strm _) strm)
    rw [record_store_self]
    exact hi.whole.add _ _
  · rw [storedAction_set_other cwd v hk]
    exact hi.owed a ha

/-- The device thread sets `done` when no action is owed. -/
theorem inv_dev_done {s : Sys} {g : Globals} (hi : Inv cwd strm s) (hn : ∀ a, ¬ Owed a s.log) :
    Inv cwd strm { s with
      dev := .ret g
      fs := store cwd s.fs strm (add (record cwd s.fs strm) (lit "action") (.str (lit "done"))) }
    := by
  refine ⟨?_, fun a ha => (hn a ha).elim, .undecided trivial, hi.plyr⟩
  show Whole (record cwd (store cwd s.fs strm _) strm)
  rw [record_store_self]
  exact hi.whole.add _ _

/-- **A step of the device thread keeps the invariant.** -/
theorem inv_dev {s s' : Sys} (hi : Inv cwd strm s) (h : step cwd strm s .dev = some s') :
    Inv cwd strm s' := by
  simp only [step, Option.map_eq_some_iff, Prod.exists] at h
  obtain ⟨p', fs', hstep, rfl⟩ := h
  obtain ⟨o, k, hp, -⟩ := step_cases _ hstep
  rw [hp] at hstep ⊢
  rcases hi.dev with hu | ⟨⟨sock, g, he⟩, hs⟩ | ⟨⟨g, he⟩, hn⟩
  · rw [hp] at hu
    cases o with
    | set jKey value file =>
      obtain ⟨hk, ⟨v, rfl⟩, rfl, hu⟩ := hu
      obtain ⟨rfl, rfl⟩ := eq_of_step_call _ hstep (srvrSem_set cwd _ _ _ _)
      exact inv_dev_set hi hk hu
    | get jKey file =>
      obtain ⟨rfl, hk, hu⟩ := hu
      obtain ⟨r, hr', hi'⟩ := inv_dev_get hi hk hu
      obtain ⟨rfl, rfl⟩ := eq_of_step_call _ hstep hr'
      exact hi'
    | send sock text =>
      obtain ⟨ht, hu⟩ := hu
      obtain ⟨rfl, rfl⟩ := eq_of_step_call _ hstep (srvrSem_send cwd _ _ _)
      have hev : devEv s.report (some (.send sock text)) = [] := by simp [devEv, ht]
      simp only [next, hev, List.nil_append]
      exact ⟨hi.whole, hi.owed, .undecided hu, hi.plyr⟩
    | lwsWrite text => exact hu.elim
  · rw [hp] at he
    cases he
    obtain ⟨rfl, rfl⟩ := eq_of_step_call _ hstep (srvrSem_send cwd _ _ _)
    have hn : ∀ a, ¬ Owed a (.devAck s.report :: s.log) := fun a ha => ha.1 (hs a ha.2)
    exact ⟨hi.whole, fun a ha => (hn a ha).elim, .done ⟨g, rfl⟩ hn, hi.plyr⟩
  · rw [hp] at he
    cases he
    obtain ⟨rfl, rfl⟩ := eq_of_step_call _ hstep (srvrSem_set cwd _ _ _ _)
    exact inv_dev_done hi hn

/-- **A step of the player thread keeps the invariant** if it stores no action between the device
thread's decision and its `done`. -/
theorem inv_plyr {s s' : Sys} (hi : Inv cwd strm s) (hc : Clear strm s .plyr)
    (h : step cwd strm s .plyr = some s') : Inv cwd strm s' := by
  simp only [step, Option.map_eq_some_iff, Prod.exists] at h
  obtain ⟨p', fs', hstep, rfl⟩ := h
  obtain ⟨o, k, hp, -⟩ := step_cases _ hstep
  have hpl := hi.plyr
  rw [hp] at hpl hstep ⊢
  cases hpl with
  | reply =>
    obtain ⟨rfl, rfl⟩ := eq_of_step_call _ hstep (srvrSem_lwsWrite cwd _ _)
    refine ⟨hi.whole, fun a ha => hi.owed a ha, ?_, .idle⟩
    rcases hi.dev with hu | ⟨he, hs⟩ | ⟨he, hn⟩
    · exact .undecided hu
    · exact .send he fun a ha => hs a ha
    · exact .done he fun a ha => hn a ha
  | store h0 hd =>
    obtain ⟨rfl, rfl⟩ := eq_of_step_call _ hstep (srvrSem_set cwd _ _ _ _)
    have hc := hc (by rw [hp]; rfl)
    refine ⟨?_, fun a ha => ?_, ?_, .reply⟩
    · show Whole (record cwd (store cwd s.fs strm _) strm)
      rw [record_store_self]
      exact hi.whole.add _ _
    · obtain rfl : s.action = a := ha
      exact ⟨storedAction_set cwd h0, hd⟩
    · rcases hi.dev with hu | ⟨he, hs⟩ | ⟨he, hn⟩
      · exact .undecided hu
      · obtain ⟨sock, g, he'⟩ := he
        rw [he'] at hc
        refine .send ⟨sock, g, he'⟩ fun a ha => ?_
        obtain rfl : s.action = a := ha
        exact hc rfl
      · obtain ⟨g, he'⟩ := he
        rw [he'] at hc
        exact absurd rfl hc

theorem inv_step {s s' : Sys} {l : Lbl} (hi : Inv cwd strm s) (hc : Clear strm s l)
    (h : step cwd strm s l = some s') : Inv cwd strm s' := by
  cases l with
  | dev => exact inv_dev hi h
  | plyr => exact inv_plyr hi hc h
  | report msg =>
    simp only [step] at h
    split at h
    case h_1 g status _ hst =>
      split_ifs at h with hid
      cases h
      exact ⟨hi.whole, hi.owed, .undecided (undecided_msgParse g hid hst), hi.plyr⟩
    case h_2 => cases h
  | request str =>
    simp only [step] at h
    split at h
    case h_1 u action _ ha =>
      split_ifs at h with hc
      cases h
      refine ⟨hi.whole, hi.owed, hi.dev, ?_⟩
      show PlyrAt strm action (websocketWriteBack str)
      rw [websocketWriteBack_command hc.1 ha hc.2.1]
      exact .store (notMem_field ha) hc.2.2
    case h_2 => cases h

/-- **No promised action is lost**, in every run that stores no action between a decision of the
device thread and its `done`. -/
theorem promise_kept {s s' : Sys} {es : List Lbl} (hi : Initial cwd strm s)
    (hm : Meets (step cwd strm) (Clear strm) s es) (hr : run (step cwd strm) s es = some s') :
    ∀ a, Promised a s'.log → storedAction cwd strm s'.fs = some a := by
  have hinv : Inv cwd strm s' := hm.inv (fun _ _ _ => inv_step) (inv_of_initial hi) hr
  exact fun a ha => (hinv.owed a (owed_of_promised ha)).1

end System

/-! ### A command that is kept, and one that is lost -/

/-- Both threads of an empty store are idle. -/
def start : Sys where
  fs := ∅
  dev := .ret { strmID := none, clntSock := 0, ACK := false, tempBufS := [] }
  report := []
  plyr := .ret ()
  action := []
  log := []

/-- The player turns the stream off after its `live` was done. -/
def kept : List Lbl :=
  .report (lit "\x7b \"streamId\" : \"cam\", \"status\" : \"live\"\x7d") ::
    List.replicate 7 .dev ++
    [.request (lit "\x7b\"streamId\":\"cam\",\"action\":\"off\"\x7d"), .plyr, .plyr]

/-- The player turns the stream off between the last read of the action and `done`. -/
def lost : List Lbl :=
  .report (lit "\x7b \"streamId\" : \"cam\", \"status\" : \"live\"\x7d") ::
    List.replicate 5 .dev ++
    [.request (lit "\x7b\"streamId\":\"cam\",\"action\":\"off\"\x7d"), .plyr, .plyr, .dev, .dev]

theorem initial_start : Initial [] (lit "cam") start :=
  ⟨⟨_, rfl⟩, rfl, rfl, whole_defaults _⟩

theorem promise_kept_off :
    ((run (step [] (lit "cam")) start kept).map fun s => storedAction [] (lit "cam") s.fs) =
      some (some (lit "off")) := by
  have hlog : ((run (step [] (lit "cam")) start kept).map Sys.log) =
      some [.acked (lit "off"), .stored (lit "off"), .devAck (lit "live")] := by decide +kernel
  obtain ⟨s', hr, hl⟩ := Option.map_eq_some_iff.mp hlog
  have hp : Promised (lit "off") s'.log := by
    rw [hl]
    exact Or.inl ⟨rfl, rfl⟩
  rw [hr, Option.map_some, promise_kept initial_start (by decide +kernel) hr _ hp]

/-- **A command that is acknowledged to the player and then overwritten by `done`.** -/
theorem done_overwrites_promise :
    ¬ ∀ (cwd : Path) (strm : Bytes) (s s' : Sys) (es : List Lbl), Initial cwd strm s →
      run (step cwd strm) s es = some s' →
        ∀ a, Promised a s'.log → storedAction cwd strm s'.fs = some a := by
  intro h
  have hout : ((run (step [] (lit "cam")) start lost).map fun s =>
      (s.log, storedAction [] (lit "cam") s.fs)) =
      some ([.devAck (lit "live"), .acked (lit "off"), .stored (lit "off")],
        some (lit "done")) := by decide +kernel
  obtain ⟨s', hr, he⟩ := Option.map_eq_some_iff.mp hout
  simp only [Prod.mk.injEq] at he
  have hp : Promised (lit "off") s'.log := by
    rw [he.1]
    exact ⟨by decide, Or.inl ⟨rfl, rfl⟩⟩
  have := h [] (lit "cam") start s' lost initial_start hr _ hp
  rw [he.2] at this
  exact absurd this (by decide)

end LiveStreamer.StreamerServer.PlayerCommands
