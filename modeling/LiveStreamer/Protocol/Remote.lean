import LiveStreamer.Lib.Simulation
import LiveStreamer.Protocol.Done
import LiveStreamer.StreamerServer.PlayerReply

/-! # The server as a panel of remote controls

What StreamerServer and its devices are for, without records, messages or global variables: a
panel with one control for each device. A player gives a command or asks what is shown, the device
takes a command and changes its mode, and reports; the sweep clears what is shown. The controls
have nothing in common.

`panel_refines` connects the panel to the code: with sessions that take turns, every run of the
server and its devices is a run of the panel in which the players press what they have asked for
(`Presses`), and every player is answered what the panel answers.
Commands that cannot be read back as they were given (`Clear`) leave it open what a device makes
of them. -/

namespace LiveStreamer.Protocol.Remote

open LiveStreamer.Lib.CString LiveStreamer.Lib.JsonText LiveStreamer.Lib.PathName
open LiveStreamer.Lib.Program LiveStreamer.Lib.Run
open LiveStreamer.Lib.Program.Prog (exec exec_ret exec_call_some logged exec_logged_some)
open LiveStreamer.Lib.Simulation LiveStreamer.Lib.Tokener
open LiveStreamer.StreamerServer.SrvrJson LiveStreamer.StreamerServer.SrvrComm
open LiveStreamer.StreamerServer.PlayerServer LiveStreamer.StreamerServer.Main
open LiveStreamer.StreamerServer.Sweep
open LiveStreamer.StreamerServer.PlayerReply (written)
open LiveStreamer.StreamerClient.ClientComm (Client Answers SIGStatus receive command
  receive_of_command live local' off)
open LiveStreamer.StreamerClient.Modes (modes mode_cases)
open LiveStreamer.Protocol.Exchange (Wire Session begin commandOf_actText mode_handled
  handled_cases stopping_eq step_report storedAction_answered plain_modes)
open LiveStreamer.Protocol.Done

/-! ### The panel -/

/-- The control of one device. -/
structure Control where
  /-- What the device does. -/
  mode : Bytes
  /-- What a player is shown. -/
  shown : Bytes
  /-- The command that is still to be carried out. -/
  wanted : Option Bytes
  /-- The command that is on its way to the device. -/
  told : Option Bytes

abbrev Panel (ι : Type) := ι → Control

inductive Press (ι : Type) where
  | command (d : ι) (action : Bytes)
  | query (d : ι)
  | sweep
  | report (d : ι)
  /-- The device has taken the command on its way to it. -/
  | obey (d : ι) (mode : Bytes)
  | wait

/-- What a device can make of a command: it carries it out, or it does nothing. -/
def Obeys (action mode mode' : Bytes) : Prop :=
  mode' = mode ∨ (action = lit "live" ∧ mode' = lit "live") ∨
    (action = lit "local" ∧ mode' = lit "local") ∨ (action = lit "off" ∧ mode' = lit "ready")

/-- A command of `done` asks for nothing. -/
def asked (action : Bytes) : Option Bytes := if action = lit "done" then none else some action

/-- What is still wanted of a device that reports `mode`. -/
def unmet (mode : Bytes) : Option Bytes → Option Bytes
  | some action => if Satisfies mode action then none else some action
  | none => none

section Panel
variable {ι : Type} [DecidableEq ι] (name : ι → Bytes)

/-- The command fits a reply, and has no character to escape. -/
def Clear (d : ι) (action : Bytes) : Prop :=
  Plain action ∧ (name d).length + action.length ≤ 222

instance (d : ι) (action : Bytes) : Decidable (Clear name d action) :=
  inferInstanceAs (Decidable (_ ∧ _))

instance (action mode mode' : Bytes) : Decidable (Obeys action mode mode') :=
  inferInstanceAs (Decidable (_ ∨ _))

/-- The control after a report. -/
def Control.reported (c : Control) : Control :=
  { c with shown := c.mode, wanted := unmet c.mode c.wanted, told := unmet c.mode c.wanted }

def Panel.step (p : Panel ι) : Press ι → Option (Panel ι)
  | .command d action => some (Function.update p d { p d with wanted := asked action })
  | .query _ => some p
  | .sweep => some fun d => { p d with shown := lit "off" }
  | .report d => some (Function.update p d (p d).reported)
  | .obey d mode =>
    match (p d).told with
    | some action =>
      if mode ∈ modes ∧ (Clear name d action → Obeys action (p d).mode mode) then
        some (Function.update p d { p d with mode, told := none })
      else none
    | none => none
  | .wait => some p

/-- What the player who gives a command or asks is answered. -/
def Panel.answers (p : Panel ι) : Press ι → List Bytes
  | .command _ _ => [ackText]
  | .query d => [statusReply (some (name d)) (some (p d).shown)]
  | _ => []

end Panel

/-! ### The panel of a server -/

/-- What a step of the server and its devices is for the panel: a request is its command or query,
the sweep is the sweep, and a message is something that the device of the session does. -/
def Presses {ι : Type} : Lbl ι → Press ι → Prop
  | .connect _, f => f = .wait
  | .message _, f => f = .wait ∨ ∃ d, f = .report d ∨ ∃ mode, f = .obey d mode
  | .request d str, f => ∃ action, field "action" str = some action ∧
      f = if action = lit "status" then .query d else .command d action
  | .sweep, f => f = .sweep

section System
variable {ι : Type} (cwd : Path) (name : ι → Bytes)

/-- What a request is answered. -/
def answers (x : Sys ι) : Lbl ι → List Bytes
  | .request _ str => written (exec (logged (srvrSem cwd)) (websocketWriteBack str) (x.fs, [])).2.2
  | _ => []

/-- **The panel shows the state** of the server and its devices. -/
structure Shows (x : Sys ι) (p : Panel ι) : Prop where
  mode : ∀ d, (x.dev d).status = (p d).mode
  shown : ∀ d, (p d).shown ∈ modes ∧
    getEx (record cwd x.fs (name d)) (lit "status") = some (.str (p d).shown)
  wanted : ∀ d, (p d).wanted ≠ some (lit "done") ∧
    storedAction cwd (name d) x.fs = some ((p d).wanted.getD (lit "done"))
  told : ∀ d action, (p d).told = some action →
    x.session = some (d, .reply (actText (some (name d)) (some action)))
  heard : ∀ d text, x.session = some (d, .reply text) → text ≠ ackText → (p d).told ≠ none

variable {cwd name} {x x' : Sys ι} {p : Panel ι}

theorem asked_ne (action : Bytes) : asked action ≠ some (lit "done") := by
  unfold asked
  split_ifs with h
  · exact (Option.some_ne_none _).symm
  · exact fun he => h (Option.some.inj he)

theorem asked_getD (action : Bytes) : (asked action).getD (lit "done") = action := by
  unfold asked
  split_ifs with h
  · exact h.symm
  · rfl

theorem unmet_some (mode action : Bytes) :
    unmet mode (some action) = if Satisfies mode action then none else some action := rfl

theorem unmet_ne {mode : Bytes} {w : Option Bytes} (h : w ≠ some (lit "done")) :
    unmet mode w ≠ some (lit "done") := by
  rcases w with _ | action
  · exact h
  · rw [unmet_some]
    split_ifs
    · exact (Option.some_ne_none _).symm
    · exact h

/-- A report is acknowledged if and only if nothing more is wanted. -/
theorem acks_iff_unmet {mode : Bytes} {w : Option Bytes} (h : w ≠ some (lit "done")) :
    Acks mode (w.getD (lit "done")) ↔ unmet mode w = none := by
  rcases w with _ | action
  · exact iff_of_true (Or.inl rfl) rfl
  · have hne : action ≠ lit "done" := fun he => h (congrArg some he)
    rw [unmet_some, Option.getD_some, Acks, or_iff_right hne]
    by_cases hs : Satisfies mode action
    · rw [if_pos hs]
      exact iff_of_true hs rfl
    · rw [if_neg hs]
      exact iff_of_false hs (Option.some_ne_none _)

theorem unmet_of_not_acks {mode : Bytes} {w : Option Bytes}
    (hA : ¬ Acks mode (w.getD (lit "done"))) : unmet mode w = some (w.getD (lit "done")) := by
  rcases w with _ | action
  · exact absurd (Or.inl rfl) hA
  · exact if_neg fun hs => hA (Or.inr hs)

/-- A device carries out a command or does nothing. -/
theorem obeys_command {k : Answers} {c c' : Client} {action : Bytes}
    (h : command k c action = .handled c') : Obeys action c.status c'.status := by
  unfold command at h
  split_ifs at h with h1 h2 h3
  · cases h
    unfold live
    split_ifs
    · exact Or.inr (Or.inl ⟨h1, rfl⟩)
    · exact Or.inl rfl
    · exact Or.inr (Or.inl ⟨h1, rfl⟩)
    · exact Or.inr (Or.inl ⟨h1, rfl⟩)
  · cases h
    unfold local'
    split_ifs
    · exact Or.inr (Or.inr (Or.inl ⟨h2, rfl⟩))
    · exact Or.inl rfl
    · exact Or.inr (Or.inr (Or.inl ⟨h2, rfl⟩))
    · exact Or.inr (Or.inr (Or.inl ⟨h2, rfl⟩))
  · unfold off at h
    split_ifs at h
    cases h
    exact Or.inr (Or.inr (Or.inr ⟨h3, rfl⟩))
  · cases h
    exact Or.inl rfl

/-! ### The start, and the changes of a device -/

/-- Only the device in session can be told a command. -/
theorem Shows.told_none (h : Shows cwd name x p) {d : ι}
    (hs : ∀ text, x.session ≠ some (d, .reply text)) : (p d).told = none := by
  rcases ht : (p d).told with _ | action
  · rfl
  · exact absurd (h.told d action ht) (hs _)

variable [DecidableEq ι]

/-- The device in session changes, and there is no reply to it on its way. -/
theorem shows_device (h : Shows cwd name x p) {g : Globals} {d : ι} {c : Client} {mode : Bytes}
    {session : Option (ι × Wire)} (hm : c.status = mode)
    (hs : ∀ e text, session ≠ some (e, .reply text))
    (ho : ∀ e, e ≠ d → ∀ text, x.session ≠ some (e, .reply text)) :
    Shows cwd name { x with g, dev := Function.update x.dev d c, session }
      (Function.update p d { p d with mode, told := none }) := by
  refine ⟨fun e => ?_, fun e => ?_, fun e => ?_, fun e action he => ?_, fun e text he => ?_⟩
  · by_cases hed : e = d
    · subst hed
      simp only [Function.update_self]
      exact hm
    · simp only [Function.update_of_ne hed]
      exact h.mode e
  · by_cases hed : e = d
    · subst hed
      rw [Function.update_self]
      exact h.shown e
    · rw [Function.update_of_ne hed]
      exact h.shown e
  · by_cases hed : e = d
    · subst hed
      rw [Function.update_self]
      exact h.wanted e
    · rw [Function.update_of_ne hed]
      exact h.wanted e
  · by_cases hed : e = d
    · subst hed
      rw [Function.update_self] at he
      cases he
    · rw [Function.update_of_ne hed, h.told_none (ho e hed)] at he
      cases he
  · exact absurd he (hs e text)

/-- A session starts or ends. -/
theorem shows_wait (h : Shows cwd name x p) {g : Globals} {d : ι} {session : Option (ι × Wire)}
    (hs : ∀ e text, session ≠ some (e, .reply text))
    (ho : ∀ e text, x.session = some (e, .reply text) → text = ackText) :
    Shows cwd name { x with g, dev := Function.update x.dev d (x.dev d), session } p := by
  rw [Function.update_eq_self]
  refine ⟨h.mode, h.shown, h.wanted, fun e action he => ?_, fun e text he => absurd he (hs e text)⟩
  exact absurd (ho e _ (h.told e action he)) (actText_ne_ack _ _)

/-- A record changes, and with it what is shown and wanted of its device. -/
theorem shows_store (hn : Proper name) (h : Shows cwd name x p) {d : ι} {o : Obj} {c : Control}
    (hc : c.mode = (p d).mode ∧ c.told = (p d).told) (hshown : c.shown ∈ modes ∧
      getEx o (lit "status") = some (.str c.shown)) (hwanted : c.wanted ≠ some (lit "done") ∧
      (getEx o (lit "action")).bind getString = some (c.wanted.getD (lit "done"))) :
    Shows cwd name { x with fs := store cwd x.fs (name d) o } (Function.update p d c) := by
  refine ⟨fun e => ?_, fun e => ?_, fun e => ?_, fun e action he => ?_, fun e text he hne => ?_⟩
  · by_cases hed : e = d
    · subst hed
      rw [Function.update_self, hc.1]
      exact h.mode e
    · rw [Function.update_of_ne hed]
      exact h.mode e
  · by_cases hed : e = d
    · subst hed
      simp only [Function.update_self, record_store_self]
      exact hshown
    · simp only [Function.update_of_ne hed, record_store_ne cwd x.fs o (hn.path_ne hed)]
      exact h.shown e
  · by_cases hed : e = d
    · subst hed
      simp only [Function.update_self, storedAction_store]
      exact hwanted
    · simp only [Function.update_of_ne hed, hn.storedAction_ne hed]
      exact h.wanted e
  · by_cases hed : e = d
    · subst hed
      rw [Function.update_self, hc.2] at he
      exact h.told e action he
    · rw [Function.update_of_ne hed] at he
      exact h.told e action he
  · by_cases hed : e = d
    · subst hed
      rw [Function.update_self, hc.2]
      exact h.heard e text he hne
    · rw [Function.update_of_ne hed]
      exact h.heard e text he hne

/-! ### The messages of a session -/

/-- **A report** is shown, and the device is told what is still wanted. -/
theorem shows_report (hn : Proper name) (hi : Inv cwd name x) (h : Shows cwd name x p) {d : ι}
    {text : Bytes} (hs : x.session = some (d, .report text)) (k : Answers) :
    Shows cwd name (x.ofSession d (Exchange.step cwd k (x.toSession d (.report text))))
      (Function.update p d (p d).reported) := by
  obtain ⟨hp, -, hl⟩ := hn.2 d
  obtain ⟨hid, hmode⟩ := hi.dev d
  have hf := hi.flight
  rw [Flight, hs] at hf
  obtain ⟨rfl, hwait⟩ := hf
  obtain ⟨hw, ha⟩ := h.wanted d
  obtain ⟨g, hx, -⟩ := step_report (x := x.toSession d (.report (SIGStatus (x.dev d)))) hp
    (by omega) ⟨hmode, hid, rfl, hwait, ha⟩ k
  have hst := storedAction_answered (x.dev d).status ha
  rw [hx, Sys.ofSession, if_neg Wire.noConfusion]
  simp only [Sys.toSession, Function.update_eq_self]
  rw [h.mode d] at hst hmode ⊢
  have hA := @acks_iff_unmet (p d).mode _ hw
  refine ⟨fun e => ?_, fun e => ?_, fun e => ?_, fun e action he => ?_, fun e text he hne => ?_⟩
  · by_cases hed : e = d
    · subst hed
      rw [Function.update_self]
      exact h.mode e
    · rw [Function.update_of_ne hed]
      exact h.mode e
  · by_cases hed : e = d
    · subst hed
      simp only [Function.update_self, record_store_self]
      exact ⟨hmode, getEx_answered_status _ _ _ _⟩
    · simp only [Function.update_of_ne hed, record_store_ne cwd x.fs _ (hn.path_ne hed)]
      exact h.shown e
  · by_cases hed : e = d
    · subst hed
      simp only [Function.update_self, hst]
      refine ⟨unmet_ne hw, ?_⟩
      by_cases hack : Acks (p e).mode ((p e).wanted.getD (lit "done"))
      · rw [if_pos hack, Control.reported, hA.mp hack]
        rfl
      · rw [if_neg hack, Control.reported, unmet_of_not_acks hack, Option.getD_some]
    · simp only [Function.update_of_ne hed, hn.storedAction_ne hed]
      exact h.wanted e
  · by_cases hed : e = d
    · subst hed
      rw [Function.update_self, Control.reported] at he
      simp only at he
      have hack : ¬ Acks (p e).mode ((p e).wanted.getD (lit "done")) := by
        rw [hA, he]
        exact Option.some_ne_none _
      rw [unmet_of_not_acks hack] at he
      simp only [answer, if_neg hack, ← Option.some.inj he]
    · rw [Function.update_of_ne hed] at he
      have hsame := h.told e action he
      rw [hs] at hsame
      cases hsame
  · obtain ⟨rfl, rfl⟩ : d = e ∧
        answer (name d) (p d).mode ((p d).wanted.getD (lit "done")) = text := by simpa using he
    rw [Function.update_self, Control.reported]
    exact fun hnone => hne (if_pos (hA.mpr hnone))

/-- **A reply** is taken by its device. -/
theorem shows_reply (hn : Proper name) (hi : Inv cwd name x) (h : Shows cwd name x p) {d : ι}
    {text : Bytes} (hs : x.session = some (d, .reply text)) (k : Answers) : ∃ f p',
    (f = .wait ∨ ∃ mode, f = .obey d mode) ∧
    Panel.step name p f = some p' ∧ Panel.answers name p f = [] ∧
      Shows cwd name (x.ofSession d (Exchange.step cwd k (x.toSession d (.reply text)))) p' := by
  obtain ⟨hid, hmode⟩ := hi.dev d
  have ho : ∀ e, e ≠ d → ∀ text, x.session ≠ some (e, .reply text) := by
    intro e hed text' he
    rw [hs, Option.some.injEq, Prod.mk.injEq] at he
    exact hed he.1.symm
  by_cases hack : text = ackText
  · subst hack
    refine ⟨.wait, p, Or.inl rfl, rfl, rfl,
      shows_wait h (fun e text he => by cases he) fun e text he => ?_⟩
    rw [hs, Option.some.injEq, Prod.mk.injEq, Wire.reply.injEq] at he
    exact he.2.symm
  · obtain ⟨action, ht⟩ := Option.ne_none_iff_exists'.mp (h.heard d text hs hack)
    have he := h.told d action ht
    rw [hs, Option.some.injEq, Prod.mk.injEq, Wire.reply.injEq] at he
    obtain ⟨-, rfl⟩ := he
    have hobey {mode : Bytes} (hm : mode ∈ modes)
        (hc : Clear name d action → Obeys action (p d).mode mode) :
        Panel.step name p (.obey d mode) =
          some (Function.update p d { p d with mode, told := none }) := by
      simp only [Panel.step, ht]
      exact if_pos ⟨hm, hc⟩
    have hkeep := hobey (h.mode d ▸ hmode) fun _ => Or.inl rfl
    rcases hr : receive k (x.dev d) (actText (some (name d)) (some action)) with _ | ⟨c⟩ | ⟨c⟩ | _
    · rw [StreamerClient.ClientComm.receive, if_neg hack] at hr
      cases hr
    · refine ⟨.obey d c.status, _, Or.inr ⟨_, rfl⟩, hobey (mode_handled hmode hr) fun hclear => ?_,
        rfl, ?_⟩
      · have hcmd := commandOf_actText (hn.2 d).1 hclear.1 hclear.2 hid
        rw [receive_of_command k hcmd] at hr
        rw [← h.mode d]
        exact obeys_command (Option.some.inj hr)
      · simp only [Exchange.step, Sys.toSession, hr, Sys.ofSession, reduceCtorEq, if_false]
        exact shows_device h rfl (fun e text he => by cases he) ho
    · refine ⟨.obey d (p d).mode, _, Or.inr ⟨_, rfl⟩, hkeep, rfl, ?_⟩
      simp only [Exchange.step, Sys.toSession, hr, Sys.ofSession, reduceCtorEq, if_false]
      exact shows_device h ((stopping_eq hr).2.trans (h.mode d)) (fun e text he => by cases he) ho
    · refine ⟨.obey d (p d).mode, _, Or.inr ⟨_, rfl⟩, hkeep, rfl, ?_⟩
      simp only [Exchange.step, Sys.toSession, hr, Sys.ofSession, reduceCtorEq, if_false]
      exact shows_device h (h.mode d) (fun e text he => by cases he) ho

/-! ### Players and the sweep -/

omit [DecidableEq ι] in
/-- The records stay as they are. -/
theorem Shows.of_record (h : Shows cwd name x p) {fs : Fs} {last : ι → Bytes}
    (hrec : ∀ e, record cwd fs (name e) = record cwd x.fs (name e)) :
    Shows cwd name { x with fs, last } p := by
  refine ⟨h.mode, fun e => ?_, fun e => ?_, h.told, h.heard⟩
  · rw [hrec]
    exact h.shown e
  · rw [storedAction, hrec]
    exact h.wanted e

/-- **A request** is answered what the panel answers. -/
theorem shows_request (hn : Proper name) (h : Shows cwd name x p) {d : ι} {str action : Bytes}
    (ha : field "action" str = some action) (hid : field "streamId" str = some (name d))
    (last : ι → Bytes) : ∃ f p', Presses (.request d str) f ∧ Panel.step name p f = some p' ∧
      Shows cwd name
        { x with fs := (exec (srvrSem cwd) (websocketWriteBack str) x.fs).2, last } p' ∧
      answers cwd x (.request d str) = Panel.answers name p f := by
  by_cases hq : action = lit "status"
  · subst hq
    obtain ⟨hmode, hst⟩ := h.shown d
    have hget := srvrSem_get cwd hst
    rw [getString_str (plain_modes hmode).1.notMem_zero] at hget
    refine ⟨.query d, p, ⟨_, ha, (if_pos rfl).symm⟩, rfl, ?_, ?_⟩
    · rw [websocketWriteBack_query hid ha, exec_call_some _ hget,
        exec_call_some _ (srvrSem_lwsWrite cwd _ _), exec_ret]
      refine h.of_record fun e => ?_
      by_cases hed : e = d
      · rw [hed, record_load_self]
      · rw [record_load_ne cwd x.fs (hn.path_ne hed)]
    · rw [answers, websocketWriteBack_query hid ha, exec_logged_some hget,
        exec_logged_some (srvrSem_lwsWrite cwd _ _)]
      rfl
  · have hset := srvrSem_set cwd x.fs (lit "action") action (name d)
    refine ⟨.command d action, _, ⟨_, ha, (if_neg hq).symm⟩, rfl, ?_, ?_⟩
    · rw [websocketWriteBack_command hid ha hq, exec_call_some _ hset,
        exec_call_some _ (srvrSem_lwsWrite cwd _ _), exec_ret]
      have hs := shows_store hn h (d := d) (c := { p d with wanted := asked action }) ⟨rfl, rfl⟩
        (o := add (record cwd x.fs (name d)) (lit "action") (.str action))
        ⟨(h.shown d).1, by rw [getEx_add_ne _ _ (by decide)]; exact (h.shown d).2⟩
        ⟨asked_ne action, by rw [getEx_add_self, asked_getD]; exact getString_str (notMem_field ha)⟩
      exact ⟨hs.mode, hs.shown, hs.wanted, hs.told, hs.heard⟩
    · rw [answers, websocketWriteBack_command hid ha hq, exec_logged_some hset,
        exec_logged_some (srvrSem_lwsWrite cwd _ _)]
      rfl

omit [DecidableEq ι] in
/-- **The sweep** clears what is shown. -/
theorem shows_sweep (hn : Proper name) (hi : Inv cwd name x) (h : Shows cwd name x p) :
    Shows cwd name { x with fs := (exec (fileSem cwd) trigger x.fs).2 }
      fun d => { p d with shown := lit "off" } := by
  obtain ⟨fs, hx, -, hrec⟩ := exec_trigger hn.short hi.tidy
  rw [hx]
  refine ⟨h.mode, fun e => ⟨(by decide : lit "off" ∈ modes), ?_⟩, fun e => ?_, h.told, h.heard⟩
  · rw [hrec _ ⟨e, rfl⟩]
    split_ifs with hp
    · rw [turnedOff, getEx_add_self]
    · -- a record that is not there is the default one
      rw [Present, Bool.not_eq_true, Option.isSome_eq_false_iff, Option.isNone_iff_eq_none] at hp
      rw [record_eq_defaults cwd hp]
      rfl
  · rw [storedAction_of_sweep (hrec _ ⟨e, rfl⟩)]
    exact h.wanted e

/-! ### The refinement -/

/-- **Every step of the server and its devices is its press on the panel**, with the same answer. -/
theorem simulates (hn : Proper name) : SimulatesBy (step cwd name) (answers cwd)
    (Panel.step name) (Panel.answers name) (fun x p => Inv cwd name x ∧ Shows cwd name x p)
    Presses := by
  rintro x p l x' ⟨hi, h⟩ hx
  have hi' := inv_step hn hi hx
  suffices ∃ f p', Presses l f ∧ Panel.step name p f = some p' ∧ Shows cwd name x' p' ∧
      answers cwd x l = Panel.answers name p f by
    obtain ⟨f, p', hl, hf, hs, ho⟩ := this
    exact ⟨f, p', hl, hf, ⟨hi', hs⟩, ho⟩
  cases l with
  | connect d =>
    simp only [step] at hx
    split at hx
    · next hs =>
      cases hx
      simp only [begin, Sys.ofSession, reduceCtorEq, if_false]
      refine ⟨.wait, p, rfl, rfl, shows_wait h (fun e text he => by cases he) fun e text he => ?_,
        rfl⟩
      rw [hs] at he
      cases he
    · cases hx
  | message k =>
    simp only [step] at hx
    split at hx
    · next d wire hs =>
      cases hx
      cases wire with
      | report text =>
        exact ⟨.report d, _, Or.inr ⟨d, Or.inl rfl⟩, rfl, shows_report hn hi h hs k, rfl⟩
      | reply text =>
        obtain ⟨f, p', hl, hf, ho, hs'⟩ := shows_reply hn hi h hs k
        exact ⟨f, p', hl.imp id fun hm => ⟨d, Or.inr hm⟩, hf, hs', ho.symm⟩
      | closed =>
        refine ⟨.wait, p, Or.inl rfl, rfl,
          shows_wait h (fun e text he => by cases he) fun e text he => ?_, rfl⟩
        rw [hs] at he
        cases he
      | lost =>
        refine ⟨.wait, p, Or.inl rfl, rfl,
          shows_wait h (fun e text he => by cases he) fun e text he => ?_, rfl⟩
        rw [hs] at he
        cases he
    · cases hx
  | request d str =>
    simp only [step] at hx
    split at hx
    · next action ha =>
      by_cases hid : field "streamId" str = some (name d)
      · rw [if_pos hid] at hx
        cases hx
        exact shows_request hn h ha hid _
      · rw [if_neg hid] at hx
        cases hx
    · cases hx
  | sweep =>
    cases hx
    exact ⟨.sweep, _, rfl, rfl, shows_sweep hn hi h, rfl⟩

end System

end LiveStreamer.Protocol.Remote
