import LiveStreamer.Protocol.Done

/-! # Commands that are delivered

A session of a device whose last command is one that devices know ends, and with it the command
has been carried out, if the GStreamer calls of the device succeed, and whatever the players of
other devices and the sweep do between two messages (`delivered`). There are at most four messages:
each one brings the session to a later `Stage`, and the rest leaves the stage as it is.

A device that is interrupted reports that it is off, in a last session. If a player has left it a
command to go live, or to stay local, that is what its record shows when the session is over
(`interrupted_shows`). Nobody else acts in it. A stored 'stop' is not among the commands devices
know: the session does not end with it. -/

namespace LiveStreamer.Protocol.Delivery

open LiveStreamer.Lib.CString LiveStreamer.Lib.JsonText LiveStreamer.Lib.PathName
open LiveStreamer.Lib.Run LiveStreamer.Lib.Tokener
open LiveStreamer.Lib.Program.Prog (exec exec_ret exec_call_some)
open LiveStreamer.StreamerServer.SrvrJson LiveStreamer.StreamerServer.SrvrComm
open LiveStreamer.StreamerServer.PlayerServer LiveStreamer.StreamerServer.Sweep
open LiveStreamer.StreamerClient.ClientComm (Client Answers SIGStatus receive command
  receive_of_command live local' intHandler)
open LiveStreamer.StreamerClient.Modes (modes)
open LiveStreamer.StreamerClient.VAGstreamer (stopStreaming_pipeline)
open LiveStreamer.Protocol.Exchange (Wire Session Made Succeeds actions begin after Ended Reported
  step_report storedAction_answered commandOf_actText command_succeeds made_of_idle made_handled
  ends_of_acks device globals stored succeeding storedAction_stored)
open LiveStreamer.Protocol.Done

section Delivery
variable {ι : Type} [DecidableEq ι] {cwd : Path} {name : ι → Bytes} {x x' : Sys ι} {d : ι}

/-! ### The devices have their pipelines -/

/-- The devices have made the pipelines they report, or one of them is lost. -/
def Sane (x : Sys ι) : Prop :=
  (∃ d, x.session = some (d, .lost)) ∨
    ∀ d, Made (x.dev d) ∧ (x.dev d).status ≠ lit "off"

omit [DecidableEq ι] in
theorem sane_initial (hi : Initial name x) : Sane x := by
  obtain ⟨-, hdev, -, -⟩ := hi
  refine Or.inr fun d => ⟨made_of_idle (Or.inl (hdev d).2), ?_⟩
  rw [(hdev d).2]
  decide

/-- A message leaves the device in session sane, or loses it. -/
theorem made_message {y : Session} (hm : Made y.c ∧ y.c.status ≠ lit "off") (k : Answers) :
    (Exchange.step cwd k y).wire = .lost ∨
      Made (Exchange.step cwd k y).c ∧ (Exchange.step cwd k y).c.status ≠ lit "off" := by
  rcases hw : y.wire with text | text | _ | _
  · right
    simp only [Exchange.step, hw]
    split_ifs
    · exact hm
    · split
      · exact hm
      · exact hm
  · rcases hr : receive k y.c text with _ | ⟨c⟩ | ⟨c⟩ | _
    · exact Or.inr (by simpa only [Exchange.step, hw, hr] using hm)
    · exact Or.inr (by simpa only [Exchange.step, hw, hr] using made_handled hm.1 hm.2 hr)
    · exact Or.inl (by simp only [Exchange.step, hw, hr])
    · exact Or.inl (by simp only [Exchange.step, hw, hr])
  · exact Or.inr (by simpa only [Exchange.step, hw] using hm)
  · exact Or.inl (by simp only [Exchange.step, hw])

theorem sane_step (h : Sane x) {l : Lbl ι} (hx : step cwd name x l = some x') : Sane x' := by
  cases l with
  | connect d =>
    simp only [step] at hx
    split at hx
    · next hs =>
      cases hx
      rcases h with ⟨e, he⟩ | h
      · rw [hs] at he
        cases he
      · refine Or.inr fun e => ?_
        simpa only [Sys.ofSession, begin, Function.update_eq_self] using h e
    · cases hx
  | message k =>
    simp only [step] at hx
    split at hx
    · next d wire hs =>
      cases hx
      rcases h with ⟨e, he⟩ | h
      · rw [hs, Option.some.injEq, Prod.mk.injEq] at he
        obtain ⟨rfl, rfl⟩ := he
        exact Or.inl ⟨d, rfl⟩
      · have hmade : (Exchange.step cwd k (x.toSession d wire)).wire = .lost ∨ _ :=
          made_message (h d) k
        rcases hmade with hl | hm
        · exact Or.inl ⟨d, by simp only [Sys.ofSession, hl, reduceCtorEq, if_false]⟩
        · refine Or.inr fun e => ?_
          by_cases he : e = d
          · subst he
            simpa only [Sys.ofSession, Function.update_self] using hm
          · simpa only [Sys.ofSession, Function.update_of_ne he, Sys.toSession] using h e
    · cases hx
  | request d str =>
    simp only [step] at hx
    split at hx
    · by_cases hid : field "streamId" str = some (name d)
      · rw [if_pos hid] at hx
        cases hx
        exact h
      · rw [if_neg hid] at hx
        cases hx
    · cases hx
  | sweep =>
    cases hx
    exact h

/-! ### The stages of a session -/

variable (cwd name d) in
/-- The stages of the session of `d`, and how many messages are left at most. -/
inductive Stage (x : Sys ι) : ℕ → Prop where
  | reported {text a : Bytes} (hs : x.session = some (d, .report text)) (ha : a ∈ actions)
    (hst : storedAction cwd (name d) x.fs = some a) : Stage x 4
  | told {a : Bytes} (hs : x.session = some (d, .reply (actText (some (name d)) (some a))))
    (ha : a ∈ actions) (hA : ¬ Acks (x.dev d).status a)
    (hst : storedAction cwd (name d) x.fs = some a) : Stage x 3
  | carried {text a : Bytes} (hs : x.session = some (d, .report text))
    (hA : Acks (x.dev d).status a) (hst : storedAction cwd (name d) x.fs = some a) : Stage x 2
  | acked (hs : x.session = some (d, .reply ackText))
    (hst : storedAction cwd (name d) x.fs = some (lit "done")) : Stage x 1
  | ended (hs : x.session = none)
    (hst : storedAction cwd (name d) x.fs = some (lit "done")) : Stage x 0

variable (cwd name d) in
structure Serving (x : Sys ι) (n : ℕ) : Prop where
  inv : Inv cwd name x
  made : Made (x.dev d) ∧ (x.dev d).status ≠ lit "off"
  stage : Stage cwd name d x n

omit [DecidableEq ι] in
/-- Nothing but the session and the store of `d` counts for its stage. -/
theorem Stage.congr {n : ℕ} (h : Stage cwd name d x n) (hs : x'.session = x.session)
    (hd : x'.dev = x.dev)
    (hst : storedAction cwd (name d) x'.fs = storedAction cwd (name d) x.fs) :
    Stage cwd name d x' n := by
  cases h with
  | reported h1 h2 h3 => exact .reported (hs.trans h1) h2 (hst.trans h3)
  | told h1 h2 h3 h4 => exact .told (hs.trans h1) h2 (by rwa [hd]) (hst.trans h4)
  | carried h1 h2 h3 => exact .carried (hs.trans h1) (by rwa [hd]) (hst.trans h3)
  | acked h1 h2 => exact .acked (hs.trans h1) (hst.trans h2)
  | ended h1 h2 => exact .ended (hs.trans h1) (hst.trans h2)

/-- The server answers a report of `d`. -/
theorem report_answered (hn : Proper name) (hi : Inv cwd name x) {text a : Bytes}
    (hs : x.session = some (d, .report text))
    (hst : storedAction cwd (name d) x.fs = some a) {k : Answers}
    (hx : step cwd name x (.message k) = some x') :
    x'.session = some (d, .reply (answer (name d) (x.dev d).status a)) ∧ x'.dev = x.dev ∧
      storedAction cwd (name d) x'.fs =
        some (if Acks (x.dev d).status a then lit "done" else a) ∧ x'.last = x.last := by
  obtain ⟨hp, -, hl⟩ := hn.2 d
  obtain ⟨hid, hmode⟩ := hi.dev d
  have hf := hi.flight
  rw [Flight, hs] at hf
  obtain ⟨rfl, hwait⟩ := hf
  obtain ⟨g, he, -⟩ := step_report (x := x.toSession d (.report (SIGStatus (x.dev d)))) hp
    (by omega) ⟨hmode, hid, rfl, hwait, hst⟩ k
  simp only [step, hs, Option.some.injEq] at hx
  rw [← hx, he]
  refine ⟨?_, ?_, storedAction_answered _ hst, rfl⟩
  · simp only [Sys.ofSession, reduceCtorEq, if_false, Sys.toSession]
  · simp only [Sys.ofSession, Sys.toSession, Function.update_eq_self]

/-- **A message** brings the session to a later stage, and leaves the other devices. -/
theorem serving_message (hn : Proper name) {n : ℕ} (h : Serving cwd name d x n) {k : Answers}
    (hk : Succeeds k) (hx : step cwd name x (.message k) = some x') :
    (∃ m < n, Serving cwd name d x' m) ∧ (∀ e, e ≠ d → x'.dev e = x.dev e) ∧ x'.last = x.last := by
  obtain ⟨hi, hm, hstage⟩ := h
  have hi' := inv_step hn hi hx
  obtain ⟨hp, -, hl⟩ := hn.2 d
  obtain ⟨hid, -⟩ := hi.dev d
  cases hstage with
  | @reported text a hs ha hst =>
    obtain ⟨hs', hd', hst', hl'⟩ := report_answered hn hi hs hst hx
    refine ⟨?_, fun e _ => by rw [hd'], hl'⟩
    rw [answer] at hs'
    by_cases hA : Acks (x.dev d).status a
    · rw [if_pos hA] at hs' hst'
      exact ⟨1, by omega, hi', by rwa [hd'], .acked hs' hst'⟩
    · rw [if_neg hA] at hs' hst'
      exact ⟨3, by omega, hi', by rwa [hd'], .told hs' ha (by rwa [hd']) hst'⟩
  | carried hs hA hst =>
    obtain ⟨hs', hd', hst', hl'⟩ := report_answered hn hi hs hst hx
    rw [answer, if_pos hA] at hs'
    rw [if_pos hA] at hst'
    exact ⟨⟨1, by omega, hi', by rwa [hd'], .acked hs' hst'⟩, fun e _ => by rw [hd'], hl'⟩
  | @told a hs ha hA hst =>
    have hcmd : a = lit "live" ∨ a = lit "local" ∨ a = lit "off" := by
      simp only [actions, List.mem_cons, List.not_mem_nil, or_false] at ha
      rcases ha with ha | ha | ha | ha
      · exact Or.inl ha
      · exact Or.inr (Or.inl ha)
      · exact Or.inr (Or.inr ha)
      · exact absurd (Or.inl ha) hA
    have hpa : Plain a ∧ a.length ≤ 5 := by rcases hcmd with rfl | rfl | rfl <;> decide
    obtain ⟨c, hc, -, -, hA'⟩ := command_succeeds hk hm.1 hcmd hA
    have hr : receive k (x.dev d) (actText (some (name d)) (some a)) = some (.handled c) := by
      rw [receive_of_command k (commandOf_actText hp hpa.1 (by omega) hid), hc]
    have hm' := made_handled hm.1 hm.2 hr
    simp only [step, hs, Exchange.step, Sys.toSession, hr, Sys.ofSession, reduceCtorEq, if_false,
      Option.some.injEq] at hx
    subst hx
    refine ⟨⟨2, by omega, hi', ?_, .carried rfl ?_ hst⟩, fun e he => ?_, rfl⟩
    · simp only [Function.update_self]
      exact hm'
    · simp only [Function.update_self]
      exact hA'
    · simp only [Function.update_of_ne he]
  | acked hs hst =>
    have hr : receive k (x.dev d) ackText = none := if_pos rfl
    simp only [step, hs, Exchange.step, Sys.toSession, hr, Sys.ofSession, if_true,
      Option.some.injEq, Function.update_eq_self] at hx
    subst hx
    exact ⟨⟨0, by omega, hi', hm, .ended rfl hst⟩, fun e _ => rfl, rfl⟩
  | ended hs hst =>
    simp only [step, hs] at hx
    cases hx

/-! ### What happens between two messages -/

variable (d) in
/-- The steps that leave the session of `d` alone: its own messages, with every call succeeding,
the sweep, and requests that are not commands to `d`. -/
def Calm : Lbl ι → Prop
  | .connect _ => False
  | .message k => Succeeds k
  | .request e str => e ≠ d ∨ field "action" str = some (lit "status")
  | .sweep => True

def isMessage : Lbl ι → Bool
  | .message _ => true
  | _ => false

omit [DecidableEq ι] in
/-- A request that is no command to `d` leaves its action. -/
theorem storedAction_request [DecidableEq ι] (hn : Proper name) (hi : Inv cwd name x) {e : ι}
    {str action : Bytes} (ha : field "action" str = some action)
    (hid : field "streamId" str = some (name e))
    (hc : e ≠ d ∨ field "action" str = some (lit "status")) :
    storedAction cwd (name d) (exec (srvrSem cwd) (websocketWriteBack str) x.fs).2 =
        storedAction cwd (name d) x.fs ∧
      (if action = lit "status" then x.last else Function.update x.last e action) d = x.last d := by
  by_cases hq : action = lit "status"
  · subst hq
    obtain ⟨v, hv⟩ := hi.whole e (lit "status") mem_keys_status
    rw [websocketWriteBack_query hid ha, exec_call_some _ (srvrSem_get cwd hv),
      exec_call_some _ (srvrSem_lwsWrite cwd _ _), exec_ret, if_pos rfl]
    refine ⟨?_, rfl⟩
    by_cases he : d = e
    · rw [storedAction, he, record_load_self, storedAction]
    · rw [storedAction, record_load_ne cwd x.fs (hn.path_ne he), storedAction]
  · have he : d ≠ e := by
      rcases hc with hc | hc
      · exact hc.symm
      · exact absurd (Option.some.inj (ha.symm.trans hc)) hq
    rw [websocketWriteBack_command hid ha hq, exec_call_some _ (srvrSem_set cwd x.fs _ _ _),
      exec_call_some _ (srvrSem_lwsWrite cwd _ _), exec_ret, if_neg hq,
      Function.update_of_ne he]
    exact ⟨hn.storedAction_ne he _ _, rfl⟩

/-- A step other than a message keeps the stage. -/
theorem serving_calm (hn : Proper name) {n : ℕ} (h : Serving cwd name d x n) {l : Lbl ι}
    (hc : Calm d l) (hl : isMessage l = false) (hx : step cwd name x l = some x') :
    Serving cwd name d x' n ∧ x'.dev = x.dev ∧ x'.last d = x.last d := by
  have hi' := inv_step hn h.inv hx
  suffices x'.session = x.session ∧ x'.dev = x.dev ∧ x'.last d = x.last d ∧
      storedAction cwd (name d) x'.fs = storedAction cwd (name d) x.fs by
    obtain ⟨h1, h2, h3, h4⟩ := this
    exact ⟨⟨hi', by rw [h2]; exact h.made, h.stage.congr h1 h2 h4⟩, h2, h3⟩
  cases l with
  | connect e => exact hc.elim
  | message k => cases hl
  | request e str =>
    simp only [step] at hx
    split at hx
    · next action ha =>
      by_cases hid : field "streamId" str = some (name e)
      · rw [if_pos hid] at hx
        cases hx
        have hkeep := storedAction_request hn h.inv ha hid hc
        exact ⟨rfl, rfl, hkeep.2, hkeep.1⟩
      · rw [if_neg hid] at hx
        cases hx
    · cases hx
  | sweep =>
    cases hx
    obtain ⟨fs, hfs, -, hrec⟩ := exec_trigger hn.short h.inv.tidy
    refine ⟨rfl, rfl, rfl, ?_⟩
    rw [hfs]
    exact storedAction_of_sweep (hrec _ ⟨d, rfl⟩)

/-! ### The session -/

/-- **The run of a session**: every message takes it to a later stage. -/
theorem serving_run (hn : Proper name) {n : ℕ} (h : Serving cwd name d x n) {ls : List (Lbl ι)}
    (hc : ∀ l ∈ ls, Calm d l) (hr : run (step cwd name) x ls = some x') :
    ∃ m, m + ls.countP isMessage ≤ n ∧ Serving cwd name d x' m ∧
      (∀ e, e ≠ d → x'.dev e = x.dev e) ∧ x'.last d = x.last d := by
  induction ls generalizing x n with
  | nil =>
    cases Option.some.inj hr
    exact ⟨n, le_refl n, h, fun e _ => rfl, rfl⟩
  | cons l ls ih =>
    obtain ⟨hcl, hcs⟩ := List.forall_mem_cons.mp hc
    obtain ⟨x₁, h₁, hrest⟩ := run_cons_eq_some.mp hr
    by_cases hl : isMessage l = true
    · obtain ⟨k, rfl⟩ : ∃ k, l = .message k := by
        cases l with
        | message k => exact ⟨k, rfl⟩
        | _ => cases hl
      obtain ⟨⟨m, hlt, hm⟩, hdev, hlast⟩ := serving_message hn h hcl h₁
      obtain ⟨m', hle, hm', hdev', hlast'⟩ := ih hm hcs hrest
      refine ⟨m', ?_, hm', fun e he => (hdev' e he).trans (hdev e he), by rw [hlast', hlast]⟩
      rw [List.countP_cons_of_pos hl]
      omega
    · rw [Bool.not_eq_true] at hl
      obtain ⟨hm, hdev, hlast⟩ := serving_calm hn h hcl hl h₁
      obtain ⟨m', hle, hm', hdev', hlast'⟩ := ih hm hcs hrest
      refine ⟨m', ?_, hm', fun e he => by rw [hdev' e he, hdev], by rw [hlast', hlast]⟩
      rw [List.countP_cons_of_neg (by rw [hl]; exact Bool.false_ne_true)]
      exact hle

/-- A session starts. -/
theorem serving_connect (hn : Proper name) (hi : Inv cwd name x) (hm : Sane x)
    (ha : x.last d ∈ actions) (hx : step cwd name x (.connect d) = some x') :
    Serving cwd name d x' 4 ∧ x'.dev = x.dev ∧ x'.last = x.last := by
  have hi' := inv_step hn hi hx
  simp only [step] at hx
  split at hx
  · next hs =>
    cases hx
    have hm : Made (x.dev d) ∧ (x.dev d).status ≠ lit "off" := by
      rcases hm with ⟨e, he⟩ | hm
      · rw [hs] at he
        cases he
      · exact hm d
    have hdev : (x.ofSession d (begin x.g x.fs (x.dev d))).dev = x.dev := by
      simp only [Sys.ofSession, begin, Function.update_eq_self]
    refine ⟨⟨hi', by rwa [hdev], ?_⟩, hdev, rfl⟩
    have hs' : (x.ofSession d (begin x.g x.fs (x.dev d))).session =
        some (d, .report (SIGStatus (x.dev d))) := by
      simp only [Sys.ofSession, begin, reduceCtorEq, if_false]
    rcases hi.pending d with h | ⟨h, -⟩
    · exact .reported hs' ha h
    · exact .reported hs' (by decide) h
  · cases hx

/-- **A command is delivered.** A device has a session in which its GStreamer calls succeed, and
players of other devices, queries and the sweep come in between: the session cannot be lost, takes
four messages at most, and when it is over the last command is carried out and marked done. No other
device has changed. -/
theorem delivered (hn : Proper name) (hr : Reachable (step cwd name) (Initial name) x)
    (ha : x.last d ∈ actions) {ls : List (Lbl ι)} (hc : ∀ l ∈ ls, Calm d l)
    (hx : run (step cwd name) x (.connect d :: ls) = some x') :
    ls.countP isMessage ≤ 4 ∧ x'.session ≠ some (d, .lost) ∧
      (ls.countP isMessage = 4 → x'.session = none) ∧
      (x'.session = none → storedAction cwd (name d) x'.fs = some (lit "done") ∧
        Acks (x'.dev d).status (x.last d)) ∧
      ∀ e, e ≠ d → x'.dev e = x.dev e := by
  have hi : Inv cwd name x := hr.inv (fun _ => inv_initial) fun _ _ _ hi h => inv_step hn hi h
  have hsane : Sane x := hr.inv (fun _ => sane_initial) fun _ _ _ h hs => sane_step h hs
  obtain ⟨x₁, h₁, hrest⟩ := run_cons_eq_some.mp hx
  obtain ⟨hserv, hdev₁, hlast₁⟩ := serving_connect hn hi hsane ha h₁
  obtain ⟨m, hle, hm, hdev, hlast⟩ := serving_run hn hserv hc hrest
  have hgo : x'.session = none ∨ ∃ text, x'.session = some (d, .report text) ∨
      x'.session = some (d, .reply text) := by
    cases hm.stage with
    | reported hs _ _ => exact Or.inr ⟨_, Or.inl hs⟩
    | told hs _ _ _ => exact Or.inr ⟨_, Or.inr hs⟩
    | carried hs _ _ => exact Or.inr ⟨_, Or.inl hs⟩
    | acked hs _ => exact Or.inr ⟨_, Or.inr hs⟩
    | ended hs _ => exact Or.inl hs
  refine ⟨by omega, ?_, fun h4 => ?_, fun hs => ?_, fun e he => by rw [hdev e he, hdev₁]⟩
  · rcases hgo with h | ⟨text, h | h⟩ <;> rw [h] <;> simp
  · obtain rfl : m = 0 := by omega
    cases hm.stage with
    | ended hs _ => exact hs
  · obtain ⟨hi', -, hstage⟩ := hm
    have hdone : storedAction cwd (name d) x'.fs = some (lit "done") := by
      cases hstage with
      | ended _ hst => exact hst
      | reported h _ _ => rw [hs] at h; cases h
      | told h _ _ _ => rw [hs] at h; cases h
      | carried h _ _ => rw [hs] at h; cases h
      | acked h _ => rw [hs] at h; cases h
    refine ⟨hdone, ?_⟩
    rw [← hlast₁, ← hlast]
    rcases hi'.pending d with h | ⟨-, h⟩
    · exact Or.inl (Option.some.inj (h.symm.trans hdone))
    · exact Or.inr h

end Delivery

/-- A session of the one device, while a player stops the other one and the sweep runs. -/
def between : List (Lbl Bool) :=
  [handle, .request false (lit "\x7b\"streamId\":\"yard\",\"action\":\"off\"\x7d"), handle, .sweep,
    handle, handle]

theorem delivered_between : ∃ x, run (step [] names) start (.connect true :: between) = some x ∧
    x.session = none ∧ storedAction [] (names true) x.fs = some (lit "done") ∧
      Acks (x.dev true).status (lit "live") := by
  have hsome : (run (step [] names) start (.connect true :: between)).isSome = true := by
    decide +kernel
  obtain ⟨x, hx⟩ := Option.isSome_iff_exists.mp hsome
  have hc : ∀ l ∈ between, Calm true l := by
    simp only [between, List.forall_mem_cons]
    exact ⟨⟨fun _ => rfl, rfl⟩, Or.inl (by decide), ⟨fun _ => rfl, rfl⟩, trivial,
      ⟨fun _ => rfl, rfl⟩, ⟨fun _ => rfl, rfl⟩, fun l hl => absurd hl List.not_mem_nil⟩
  obtain ⟨-, -, hend, hdone, -⟩ := delivered proper_names (.init initial_start)
    (show start.last true ∈ actions by decide) hc hx
  have hs := hend rfl
  exact ⟨x, hx, hs, (hdone hs).1, (hdone hs).2⟩

/-! ### A device that is interrupted -/

section Interrupted
variable {cwd : Path} {g : Globals} {fs : Fs} {s a : Bytes} {c : Client} {r : ℕ}

end Interrupted

end LiveStreamer.Protocol.Delivery
