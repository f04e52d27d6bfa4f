import LiveStreamer.Protocol.Exchange
import LiveStreamer.StreamerServer.Sweep
import Mathlib.Data.Set.Operations

/-! # Commands that are marked done

Any number of devices, each with a stream of its own, take turns in having a session with the
server; players send requests, and the sweep runs, between any two messages. `last` keeps the last
command of a player for each stream.

The server stores `done` when it acknowledges a report, and a device carries out a command before
it reports again. So as long as the stored action is another one it is the last command, and a
device that is still to carry out a reply has a stored action that is the last command (`Inv`).
An action that is marked done has been carried out by its device (`done_carried_out`). -/

namespace LiveStreamer.Protocol.Done

open LiveStreamer.Lib.CString LiveStreamer.Lib.JsonText LiveStreamer.Lib.PathName
open LiveStreamer.Lib.Program LiveStreamer.Lib.Program.Prog LiveStreamer.Lib.Refs
open LiveStreamer.Lib.Run LiveStreamer.Lib.Tokener
open LiveStreamer.StreamerServer.SrvrJson LiveStreamer.StreamerServer.SrvrComm
open LiveStreamer.StreamerServer.PlayerServer LiveStreamer.StreamerServer.Main
open LiveStreamer.StreamerServer.Sweep
open LiveStreamer.StreamerClient.ClientComm (Client Answers SIGStatus receive)
open LiveStreamer.StreamerClient.Modes (modes)
open LiveStreamer.Protocol.Exchange (Wire Session Reported begin step_report storedAction_answered
  handled_cases mode_handled stopping_eq)

/-! ### The server and its devices -/

structure Sys (ι : Type) where
  fs : Fs
  g : Globals
  dev : ι → Client
  /-- The device in session, and the message on its way. -/
  session : Option (ι × Wire)
  /-- The last command of a player. -/
  last : ι → Bytes

inductive Lbl (ι : Type) where
  | connect (d : ι)
  /-- The message on its way is handled; the GStreamer calls of a device answer `a`. -/
  | message (a : Answers)
  | request (d : ι) (str : Bytes)
  | sweep

/-! ### The streams -/

section Streams
variable {ι : Type} (cwd : Path) (name : ι → Bytes)

/-- The streams: plain names that fit the messages, with files of their own. -/
def Proper : Prop :=
  Function.Injective name ∧ ∀ d, Plain (name d) ∧ slash ∉ name d ∧ (name d).length ≤ 51

variable {cwd name}

theorem Proper.short (h : Proper name) : ∀ s ∈ Set.range name, Short s := by
  rintro s ⟨d, rfl⟩
  exact (h.2 d).2

theorem Proper.path_ne (h : Proper name) {d e : ι} (hne : e ≠ d) :
    recordPath cwd (name e) ≠ recordPath cwd (name d) := fun he =>
  hne (h.1 (recordPath_inj cwd (h.2 e).2 (h.2 d).2 he))

/-- A store for one device leaves the actions of the others. -/
theorem Proper.storedAction_ne (h : Proper name) {d e : ι} (hne : e ≠ d) (fs : Fs) (o : Obj) :
    storedAction cwd (name e) (store cwd fs (name d) o) = storedAction cwd (name e) fs := by
  rw [storedAction, record_store_ne cwd fs o (h.path_ne hne), storedAction]

theorem Proper.whole_store (h : Proper name) {fs : Fs}
    (hw : ∀ d, Whole (record cwd fs (name d))) {d : ι} {o : Obj} (ho : Whole o) (e : ι) :
    Whole (record cwd (store cwd fs (name d) o) (name e)) := by
  by_cases he : e = d
  · rw [he, record_store_self]
    exact ho
  · rw [record_store_ne cwd fs o (h.path_ne he)]
    exact hw e

end Streams

section System
variable {ι : Type} (cwd : Path) (name : ι → Bytes)

/-- The session of a device as one of the two sides sees it. -/
def Sys.toSession (x : Sys ι) (d : ι) (wire : Wire) : Session := ⟨x.g, x.fs, x.dev d, wire⟩

/-- The system after a message of the session of `d`. -/
def Sys.ofSession [DecidableEq ι] (x : Sys ι) (d : ι) (y : Session) : Sys ι :=
  { x with
    g := y.g
    fs := y.fs
    dev := Function.update x.dev d y.c
    session := if y.wire = .closed then none else some (d, y.wire) }

def step [DecidableEq ι] (x : Sys ι) : Lbl ι → Option (Sys ι)
  | .connect d =>
    match x.session with
    | none => some (x.ofSession d (begin x.g x.fs (x.dev d)))
    | some _ => none
  | .message a =>
    match x.session with
    | some (d, wire) => some (x.ofSession d (Exchange.step cwd a (x.toSession d wire)))
    | none => none
  | .request d str =>
    match field "action" str with
    | some action =>
      if field "streamId" str = some (name d) then
        some { x with
          fs := (exec (srvrSem cwd) (websocketWriteBack str) x.fs).2
          last := if action = lit "status" then x.last else Function.update x.last d action }
      else none
    | none => none
  | .sweep => some { x with fs := (exec (fileSem cwd) trigger x.fs).2 }

/-- An empty store, and devices that have just been started. -/
def Initial (x : Sys ι) : Prop :=
  x.fs = ∅ ∧ (∀ d, (x.dev d).streamId = some (name d) ∧ (x.dev d).status = lit "ready") ∧
    x.session = none ∧ ∀ d, x.last d = lit "live"

/-! ### The invariant -/

/-- The stored action is the last command, or the device has carried it out and it is marked
done. -/
def Pending (x : Sys ι) (d : ι) : Prop :=
  storedAction cwd (name d) x.fs = some (x.last d) ∨
    (storedAction cwd (name d) x.fs = some (lit "done") ∧
      Satisfies (x.dev d).status (x.last d))

/-- What is known of the message on its way: a report is that of its device, and a reply other
than an `ACK` leaves the last command stored. -/
def Flight (x : Sys ι) : Prop :=
  match x.session with
  | some (d, .report text) => text = SIGStatus (x.dev d) ∧ x.g.ACK = false
  | some (d, .reply text) =>
    text ≠ ackText → x.g.ACK = false ∧ storedAction cwd (name d) x.fs = some (x.last d)
  | _ => True

structure Inv (x : Sys ι) : Prop where
  dev : ∀ d, (x.dev d).streamId = some (name d) ∧ (x.dev d).status ∈ modes
  whole : ∀ d, Whole (record cwd x.fs (name d))
  tidy : Tidy cwd (Set.range name) x.fs
  pending : ∀ d, Pending cwd name x d
  flight : Flight cwd name x

variable {cwd name} {x x' : Sys ι}

theorem inv_initial (hi : Initial name x) : Inv cwd name x := by
  obtain ⟨hfs, hdev, hs, hl⟩ := hi
  refine ⟨fun d => ⟨(hdev d).1, by rw [(hdev d).2]; decide⟩, ?_, ?_, fun d => Or.inl ?_, ?_⟩
  · rw [hfs]
    exact fun d => whole_defaults (name d)
  · rw [hfs]
    exact tidy_empty
  · rw [hfs, hl d]
    rfl
  · rw [Flight, hs]
    trivial

/-! ### One step -/

variable [DecidableEq ι]

theorem whole_answered {s status action : Bytes} {o : Obj} (h : Whole o) :
    Whole (answered s status action o) := by
  have hr : Whole (reported s status o) := (h.add _ _).add _ _
  unfold answered
  split_ifs
  · exact hr.add _ _
  · exact hr

/-- A report is answered. -/
theorem inv_report (hn : Proper name) (hi : Inv cwd name x) {d : ι} {text : Bytes}
    (hs : x.session = some (d, .report text)) (k : Answers) :
    Inv cwd name (x.ofSession d (Exchange.step cwd k (x.toSession d (.report text)))) := by
  obtain ⟨hp, -, hl⟩ := hn.2 d
  obtain ⟨hid, hmode⟩ := hi.dev d
  have hf := hi.flight
  rw [Flight, hs] at hf
  obtain ⟨rfl, hwait⟩ := hf
  obtain ⟨a, ha, hpend⟩ : ∃ a, storedAction cwd (name d) x.fs = some a ∧
      (a = x.last d ∨ (a = lit "done" ∧ Satisfies (x.dev d).status (x.last d))) := by
    rcases hi.pending d with h | ⟨h, hsat⟩
    · exact ⟨_, h, Or.inl rfl⟩
    · exact ⟨_, h, Or.inr ⟨rfl, hsat⟩⟩
  obtain ⟨g, hx, hack⟩ := step_report (x := x.toSession d (.report (SIGStatus (x.dev d)))) hp
    (by omega) ⟨hmode, hid, rfl, hwait, ha⟩ k
  have hst := storedAction_answered (x.dev d).status ha
  have hx' : x.ofSession d (Exchange.step cwd k (x.toSession d (.report (SIGStatus (x.dev d))))) =
      { x with
        g
        fs := store cwd x.fs (name d)
          (answered (name d) (x.dev d).status a (record cwd x.fs (name d)))
        session := some (d, .reply (answer (name d) (x.dev d).status a)) } := by
    rw [hx, Sys.ofSession, if_neg Wire.noConfusion]
    simp only [Sys.toSession, Function.update_eq_self]
  rw [hx']
  refine ⟨hi.dev, hn.whole_store hi.whole (whole_answered (hi.whole d)),
    hi.tidy.store hn.short ⟨d, rfl⟩ _, fun e => ?_, fun hne => ?_⟩
  · by_cases he : e = d
    · subst he
      rw [Pending, hst]
      by_cases hA : Acks (x.dev e).status a
      · rw [if_pos hA]
        rcases hpend with rfl | ⟨-, hsat⟩
        · rcases hA with hd | hsat
          · exact Or.inl (by rw [hd])
          · exact Or.inr ⟨rfl, hsat⟩
        · exact Or.inr ⟨rfl, hsat⟩
      · rw [if_neg hA]
        rcases hpend with rfl | ⟨hd, -⟩
        · exact Or.inl rfl
        · exact absurd (Or.inl hd) hA
    · rw [Pending, hn.storedAction_ne he]
      exact hi.pending e
  · have hA : ¬ Acks (x.dev d).status a := fun hA => hne (if_pos hA)
    rw [hack, hst, if_neg hA]
    refine ⟨decide_eq_false hA, ?_⟩
    rcases hpend with rfl | ⟨hd, -⟩
    · rfl
    · exact absurd (Or.inl hd) hA

/-- A device changes, and the last command is still stored unless it keeps its status. -/
theorem inv_device (hi : Inv cwd name x) {g : Globals} {d : ι} {c : Client}
    {session : Option (ι × Wire)} (hid : c.streamId = (x.dev d).streamId) (hmode : c.status ∈ modes)
    (hp : storedAction cwd (name d) x.fs = some (x.last d) ∨ c.status = (x.dev d).status)
    (hf : Flight cwd name { x with g, dev := Function.update x.dev d c, session }) :
    Inv cwd name { x with g, dev := Function.update x.dev d c, session } := by
  refine ⟨fun e => ?_, hi.whole, hi.tidy, fun e => ?_, hf⟩
  · by_cases he : e = d
    · subst he
      simp only [Function.update_self]
      exact ⟨hid.trans (hi.dev e).1, hmode⟩
    · simp only [Function.update_of_ne he]
      exact hi.dev e
  · by_cases he : e = d
    · subst he
      simp only [Pending, Function.update_self]
      rcases hp with h | h
      · exact Or.inl h
      · rw [h]
        exact hi.pending e
    · simp only [Pending, Function.update_of_ne he]
      exact hi.pending e

/-- A reply is carried out by its device. -/
theorem inv_reply (hi : Inv cwd name x) {d : ι} {text : Bytes}
    (hs : x.session = some (d, .reply text)) (k : Answers) :
    Inv cwd name (x.ofSession d (Exchange.step cwd k (x.toSession d (.reply text)))) := by
  obtain ⟨-, hmode⟩ := hi.dev d
  have hf := hi.flight
  rw [Flight, hs] at hf
  rcases hr : receive k (x.dev d) text with _ | ⟨c⟩ | ⟨c⟩ | _
  · simp only [Exchange.step, Sys.toSession, hr, Sys.ofSession, if_true]
    exact inv_device hi rfl hmode (Or.inr rfl) trivial
  · have hne : text ≠ ackText := by
      rintro rfl
      cases hr
    obtain ⟨hwait, hst⟩ := hf hne
    simp only [Exchange.step, Sys.toSession, hr, Sys.ofSession, reduceCtorEq, if_false]
    refine inv_device hi (handled_cases hr).1 (mode_handled hmode hr) (Or.inl hst) ?_
    refine ⟨?_, hwait⟩
    simp only [Function.update_self]
  · obtain ⟨hid, hst⟩ := stopping_eq hr
    simp only [Exchange.step, Sys.toSession, hr, Sys.ofSession, reduceCtorEq, if_false]
    exact inv_device hi hid (hst ▸ hmode) (Or.inr hst) trivial
  · simp only [Exchange.step, Sys.toSession, hr, Sys.ofSession, reduceCtorEq, if_false]
    exact inv_device hi rfl hmode (Or.inr rfl) trivial

omit [DecidableEq ι] in
/-- A change of the store, and of the last commands, between two messages. -/
theorem inv_store (hi : Inv cwd name x) {fs : Fs} {last : ι → Bytes}
    (hw : ∀ d, Whole (record cwd fs (name d))) (ht : Tidy cwd (Set.range name) fs)
    (hst : ∀ e, (storedAction cwd (name e) fs = storedAction cwd (name e) x.fs ∧
      last e = x.last e) ∨ storedAction cwd (name e) fs = some (last e)) :
    Inv cwd name { x with fs, last } := by
  refine ⟨hi.dev, hw, ht, fun e => ?_, ?_⟩
  · rcases hst e with ⟨h1, h2⟩ | h
    · simp only [Pending, h1, h2]
      exact hi.pending e
    · exact Or.inl h
  · have hf := hi.flight
    unfold Flight at hf ⊢
    rcases hs : x.session with _ | ⟨d, _ | text | _ | _⟩
    · trivial
    · rwa [hs] at hf
    · simp only [hs] at hf ⊢
      intro hne
      obtain ⟨hwait, hlast⟩ := hf hne
      refine ⟨hwait, ?_⟩
      rcases hst d with ⟨h1, h2⟩ | h
      · rw [h1, h2, hlast]
      · exact h
    · trivial
    · trivial

/-- A request of a player. -/
theorem inv_request (hn : Proper name) (hi : Inv cwd name x) {d : ι} {str action : Bytes}
    (ha : field "action" str = some action) (hid : field "streamId" str = some (name d)) :
    Inv cwd name { x with
      fs := (exec (srvrSem cwd) (websocketWriteBack str) x.fs).2
      last := if action = lit "status" then x.last else Function.update x.last d action } := by
  by_cases hq : action = lit "status"
  · subst hq
    obtain ⟨v, hv⟩ := hi.whole d (lit "status") mem_keys_status
    have hfs : (exec (srvrSem cwd) (websocketWriteBack str) x.fs).2 = load cwd x.fs (name d) := by
      rw [websocketWriteBack_query hid ha, exec_call_some _ (srvrSem_get cwd hv),
        exec_call_some _ (srvrSem_lwsWrite cwd _ _), exec_ret]
    rw [hfs, if_pos rfl]
    have hrec (e : ι) : record cwd (load cwd x.fs (name d)) (name e) = record cwd x.fs (name e) := by
      by_cases he : e = d
      · rw [he, record_load_self]
      · rw [record_load_ne cwd x.fs (hn.path_ne he)]
    refine inv_store hi (fun e => ?_) (hi.tidy.load hn.short ⟨d, rfl⟩) fun e => Or.inl ⟨?_, rfl⟩
    · rw [hrec]
      exact hi.whole e
    · rw [storedAction, hrec, storedAction]
  · have hfs : (exec (srvrSem cwd) (websocketWriteBack str) x.fs).2 = store cwd x.fs (name d)
        (add (record cwd x.fs (name d)) (lit "action") (.str action)) := by
      rw [websocketWriteBack_command hid ha hq, exec_call_some _ (srvrSem_set cwd x.fs _ _ _),
        exec_call_some _ (srvrSem_lwsWrite cwd _ _), exec_ret]
    rw [hfs, if_neg hq]
    refine inv_store hi (hn.whole_store hi.whole ((hi.whole d).add _ _))
      (hi.tidy.store hn.short ⟨d, rfl⟩ _) fun e => ?_
    by_cases he : e = d
    · subst he
      rw [Function.update_self]
      exact Or.inr (storedAction_set cwd (notMem_field ha))
    · rw [Function.update_of_ne he, hn.storedAction_ne he]
      exact Or.inl ⟨rfl, rfl⟩

omit [DecidableEq ι] in
/-- The sweep. -/
theorem inv_sweep (hn : Proper name) (hi : Inv cwd name x) :
    Inv cwd name { x with fs := (exec (fileSem cwd) trigger x.fs).2 } := by
  obtain ⟨fs, hx, htidy, hrec⟩ := exec_trigger hn.short hi.tidy
  rw [hx]
  refine inv_store hi (fun e => ?_) htidy fun e => Or.inl ⟨?_, rfl⟩
  · rw [hrec _ ⟨e, rfl⟩]
    split_ifs
    · exact (hi.whole e).add _ _
    · exact hi.whole e
  · exact storedAction_of_sweep (hrec _ ⟨e, rfl⟩)

/-- **A step keeps the invariant.** -/
theorem inv_step (hn : Proper name) (hi : Inv cwd name x) {l : Lbl ι}
    (h : step cwd name x l = some x') : Inv cwd name x' := by
  cases l with
  | connect d =>
    simp only [step] at h
    split at h
    · cases h
      simp only [begin, Sys.ofSession, reduceCtorEq, if_false]
      refine inv_device hi rfl (hi.dev d).2 (Or.inr rfl) ⟨?_, rfl⟩
      simp only [Function.update_self]
    · cases h
  | message k =>
    simp only [step] at h
    split at h
    · next d wire hs =>
      cases h
      cases wire with
      | report text => exact inv_report hn hi hs k
      | reply text => exact inv_reply hi hs k
      | closed => exact inv_device hi rfl (hi.dev d).2 (Or.inr rfl) trivial
      | lost => exact inv_device hi rfl (hi.dev d).2 (Or.inr rfl) trivial
    · cases h
  | request d str =>
    simp only [step] at h
    split at h
    · next action ha =>
      by_cases hid : field "streamId" str = some (name d)
      · rw [if_pos hid] at h
        cases h
        exact inv_request hn hi ha hid
      · rw [if_neg hid] at h
        cases h
    · cases h
  | sweep =>
    cases h
    exact inv_sweep hn hi

/-- **An action that is marked done has been carried out by its device**, or it is `done` itself. -/
theorem done_carried_out (hn : Proper name) (hr : Reachable (step cwd name) (Initial name) x)
    {d : ι} (hd : storedAction cwd (name d) x.fs = some (lit "done")) :
    Satisfies (x.dev d).status (x.last d) ∨ x.last d = lit "done" := by
  have hi : Inv cwd name x := hr.inv (fun _ => inv_initial) fun _ _ _ hi h => inv_step hn hi h
  rcases hi.pending d with h | ⟨-, h⟩
  · exact Or.inr (Option.some.inj (h.symm.trans hd))
  · exact Or.inl h

end System

/-! ### Two devices -/

def names : Bool → Bytes := fun d => if d then lit "cam" else lit "yard"

/-- Two devices that have just been started. -/
def start : Sys Bool where
  fs := ∅
  g := ⟨none, 4, false, []⟩
  dev d := ⟨some (names d), lit "ready", ⟨Handles.empty, false, []⟩⟩
  session := none
  last _ := lit "live"

/-- A message is handled, with every GStreamer call succeeding. -/
def handle : Lbl Bool := .message ⟨fun _ => true, [StreamerClient.VAGstreamer.CHANGE_SUCCESS]⟩

/-- The one device goes live and comes back, when a player has asked the other one to stop and the
sweep has run. -/
def turns : List (Lbl Bool) :=
  [.connect true, handle, handle, handle, handle,
    .request false (lit "\x7b\"streamId\":\"yard\",\"action\":\"off\"\x7d"), .sweep,
    .connect false, handle, handle, .connect true, handle]

theorem proper_names : Proper names := by
  refine ⟨fun d e h => ?_, fun d => ?_⟩
  · cases d <;> cases e <;> first | rfl | exact absurd h (by decide)
  · cases d <;> decide

theorem initial_start : Initial names start :=
  ⟨rfl, fun _ => ⟨rfl, rfl⟩, rfl, fun _ => rfl⟩

theorem done_carried_out_turns : ∃ x, run (step [] names) start turns = some x ∧
    ∀ d, Satisfies (x.dev d).status (x.last d) ∨ x.last d = lit "done" := by
  have hout : (run (step [] names) start turns).map (fun x =>
      (storedAction [] (names true) x.fs, storedAction [] (names false) x.fs)) =
      some (some (lit "done"), some (lit "done")) := by decide +kernel
  obtain ⟨x, hr, he⟩ := Option.map_eq_some_iff.mp hout
  simp only [Prod.mk.injEq] at he
  refine ⟨x, hr, fun d => done_carried_out proper_names ⟨start, turns, initial_start, hr⟩ ?_⟩
  cases d
  · exact he.2
  · exact he.1

end LiveStreamer.Protocol.Done
