import LiveStreamer.Lib.Run
import LiveStreamer.StreamerClient.ClientComm

/-! # The reported status and the pipeline

A device handles messages of the server, messages on the bus of its pipeline and `SIGINT`, in any
order and with any answers of the GStreamer calls; the threads in `play` come to their operations
between any two of these. It can report its status whenever it is not in the loop that stops the
pipeline.

`Honest` says that the status `live` stands for a pipeline with the live branch, `local` for one
without it, and `ready` and `off` for none. The status is set at the end of each branch of
`msgParse`, whatever became of the pipeline; an end of stream, for one, drops the pipeline of a
device that goes on to report `live` (`live_without_pipeline`). `Sound` lists the steps that agree
with the status they leave, and under them every report is honest (`reports_honest`). -/

namespace LiveStreamer.StreamerClient.Modes

open LiveStreamer.Lib.CString LiveStreamer.Lib.Refs LiveStreamer.Lib.Run
open LiveStreamer.Lib.Tokener
open LiveStreamer.StreamerClient.VAGstreamer LiveStreamer.StreamerClient.ClientComm

/-! ### The device -/

inductive Phase where
  /-- Between two messages. -/
  | up
  /-- In the loop that stops the pipeline. -/
  | stopping
  | down
  deriving DecidableEq

structure Sys where
  c : Client
  phase : Phase

inductive Ev where
  | msg (text : Bytes) (a : Answers)
  | bus (m : Message) (r : ℕ)
  | sigint (r : ℕ)
  /-- Thread `i` goes on with `play`. -/
  | play (i : ℕ)

def step (s : Sys) : Ev → Option Sys
  | .msg text a =>
    if s.phase = .up then
      match receive a s.c text with
      | none => some s
      | some (.handled c) => some ⟨c, .up⟩
      | some (.stopping c) => some ⟨c, .stopping⟩
      | some .crash => some { s with phase := .down }
    else none
  | .bus m r =>
    if s.phase = .down then none
    else some { s with c := { s.c with gst := busCall s.c.gst m r } }
  | .sigint r => if s.phase = .down then none else some ⟨intHandler s.c r, .up⟩
  | .play i =>
    if s.phase = .down then none
    else (play s.c.gst i).map fun gst => { s with c := { s.c with gst } }

/-- A device that has just been started. -/
def Initial (s : Sys) : Prop :=
  s.c.status = lit "ready" ∧ s.c.gst = ⟨Handles.empty, false, []⟩ ∧ s.phase = .up

/-- **The status says what the pipeline is.** -/
def Honest (c : Client) : Prop :=
  (c.status = lit "live" → c.gst.ref .pipeline = .held ∧ c.gst.linked = true) ∧
  (c.status = lit "local" → c.gst.ref .pipeline = .held ∧ c.gst.linked = false) ∧
  (c.status = lit "ready" ∨ c.status = lit "off" → c.gst.ref .pipeline ≠ .held)

/-- The status of a device: a pipeline of its own. -/
abbrev Running (c : Client) : Prop := c.status = lit "live" ∨ c.status = lit "local"

/-- A command that can be carried out, from the status and the answers it meets: a device whose
status is `off` is not started, and the pipeline and the live branch are made as a whole, or
`initialize` fails without leaving a pipeline. -/
def Carried (c : Client) (a : Answers) (act : Bytes) : Prop :=
  (act = lit "live" → c.status ≠ lit "off" ∧
    (c.status = lit "local" → ∀ k ∈ liveCalls, a.ok k = true) ∧
    (c.status = lit "ready" →
      LeavesNothing a.ok ∨ (Initializes a.ok ∧ ∀ k ∈ liveCalls, a.ok k = true))) ∧
  (act = lit "local" → c.status ≠ lit "off" ∧
    (c.status = lit "ready" → LeavesNothing a.ok ∨ Initializes a.ok))

instance (c : Client) (a : Answers) (act : Bytes) : Decidable (Carried c a act) :=
  inferInstanceAs (Decidable ((_ → _ ∧ (_ → _) ∧ (_ → _)) ∧ (_ → _ ∧ (_ → _))))

/-- **A step that agrees with the status it leaves**: the pipeline does not end by itself while
the status is `live` or `local`, and commands can be carried out. -/
def Sound (s : Sys) : Ev → Prop
  | .msg text a => ∀ act ∈ commandOf s.c text, Carried s.c a act
  | .bus .eos _ => s.phase = .up → ¬ Running s.c
  | .bus .error _ => s.phase = .up → ¬ Running s.c
  | _ => True

instance (s : Sys) : ∀ e, Decidable (Sound s e)
  | .msg _ _ => inferInstanceAs (Decidable (∀ act ∈ commandOf s.c _, _))
  | .bus .eos _ => inferInstanceAs (Decidable (_ → ¬ (_ ∨ _)))
  | .bus .error _ => inferInstanceAs (Decidable (_ → ¬ (_ ∨ _)))
  | .bus .info _ => isTrue trivial
  | .bus .other _ => isTrue trivial
  | .sigint _ => isTrue trivial
  | .play _ => isTrue trivial

/-! ### The invariant -/

/-- The statuses of a device. -/
def modes : List Bytes := [lit "live", lit "local", lit "ready", lit "off"]

structure Inv (c : Client) : Prop where
  mode : c.status ∈ modes
  honest : Honest c

theorem inv_live {c : Client} (h : c.status = lit "live") (hp : c.gst.ref .pipeline = .held)
    (hl : c.gst.linked = true) : Inv c := by
  refine ⟨by rw [h]; decide, fun _ => ⟨hp, hl⟩, fun h' => ?_, fun h' => ?_⟩
  · exact absurd (h.symm.trans h') (by decide)
  · rw [h] at h'
    exact absurd h' (by decide)

theorem inv_local {c : Client} (h : c.status = lit "local") (hp : c.gst.ref .pipeline = .held)
    (hl : c.gst.linked = false) : Inv c := by
  refine ⟨by rw [h]; decide, fun h' => ?_, fun _ => ⟨hp, hl⟩, fun h' => ?_⟩
  · exact absurd (h.symm.trans h') (by decide)
  · rw [h] at h'
    exact absurd h' (by decide)

theorem inv_idle {c : Client} (h : c.status = lit "ready" ∨ c.status = lit "off")
    (hp : c.gst.ref .pipeline ≠ .held) : Inv c := by
  refine ⟨?_, fun h' => ?_, fun h' => ?_, fun _ => hp⟩
  · rcases h with h | h <;> rw [h] <;> decide
  · rw [h'] at h
    exact absurd h (by decide)
  · rw [h'] at h
    exact absurd h (by decide)

/-- The status stays as honest as it was when a thread goes on. -/
theorem Inv.play {c : Client} {g : Gst} {i : ℕ} (hi : Inv c) (h : play c.gst i = some g) :
    Inv { c with gst := g } := by
  obtain ⟨hr, hl⟩ := play_frame h
  refine ⟨hi.mode, fun hs => ?_, fun hs => ?_, fun hs => ?_⟩
  · rw [hr, hl]
    exact hi.honest.1 hs
  · rw [hr, hl]
    exact hi.honest.2.1 hs
  · rw [hr]
    exact hi.honest.2.2 hs

/-- A step of a thread. -/
theorem step_play {s s' : Sys} {i : ℕ} (h : step s (.play i) = some s') :
    ∃ g, VAGstreamer.play s.c.gst i = some g ∧ s' = { s with c := { s.c with gst := g } } := by
  simp only [step] at h
  split_ifs at h
  obtain ⟨g, hg, rfl⟩ := Option.map_eq_some_iff.mp h
  exact ⟨g, hg, rfl⟩

theorem mode_cases {status : Bytes} (h : status ∈ modes) : status = lit "live" ∨
    status = lit "local" ∨ status = lit "ready" ∨ status = lit "off" := by
  simpa only [modes, List.mem_cons, List.not_mem_nil, or_false] using h

section Step
variable {c : Client} {a : Answers}

theorem inv_cmd_live (hi : Inv c) (hc : Carried c a (lit "live")) : Inv (live a c) := by
  obtain ⟨hoff, hloc, hrdy⟩ := hc.1 rfl
  obtain ⟨hh1, hh2, hh3⟩ := hi.honest
  rcases mode_cases hi.mode with h | h | h | h
  · have he : live a c = { c with status := lit "live" } := by
      rw [live, if_neg (by rw [h]; decide), if_neg (by rw [h]; decide)]
    rw [he]
    exact inv_live rfl (hh1 h).1 (hh1 h).2
  · obtain ⟨h1, h2⟩ := startLive_of_all c.gst (hloc h)
    rw [live, if_pos h]
    exact inv_live rfl (h1.trans (hh2 h).1) h2
  · rw [live, if_neg (by rw [h]; decide), if_pos h]
    rcases hrdy h with hn | ⟨hn, hall⟩
    · obtain ⟨h1, h2⟩ := setAll_of_leavesNothing c.gst a.first hn
      rw [if_pos h1]
      exact inv_idle (Or.inl h) h2
    · obtain ⟨h1, h2, -⟩ := setAll_of_initializes c.gst a.first hn
      obtain ⟨h3, h4⟩ := initLive_of_all (setAll a.ok c.gst a.first).2 hall
      rw [if_neg (by simp [h1])]
      exact inv_live rfl (h3.trans h2) h4
  · exact absurd h hoff

theorem inv_cmd_local (hi : Inv c) (hc : Carried c a (lit "local")) : Inv (local' a c) := by
  obtain ⟨hoff, hrdy⟩ := hc.2 rfl
  obtain ⟨hh1, hh2, hh3⟩ := hi.honest
  rcases mode_cases hi.mode with h | h | h | h
  · rw [local', if_pos h]
    exact inv_local rfl ((stopLive_pipeline _).trans (hh1 h).1) rfl
  · have he : local' a c = { c with status := lit "local" } := by
      rw [local', if_neg (by rw [h]; decide), if_neg (by rw [h]; decide)]
    rw [he]
    exact inv_local rfl (hh2 h).1 (hh2 h).2
  · rw [local', if_neg (by rw [h]; decide), if_pos h]
    rcases hrdy h with hn | hn
    · obtain ⟨h1, h2⟩ := setAll_of_leavesNothing c.gst a.first hn
      rw [if_pos h1]
      exact inv_idle (Or.inl h) h2
    · obtain ⟨h1, h2, h3⟩ := setAll_of_initializes c.gst a.first hn
      rw [if_neg (by simp [h1])]
      exact inv_local rfl h2 h3
  · exact absurd h hoff

theorem inv_off {c' : Client} (h : off a c = .handled c') : Inv c' := by
  unfold off at h
  split_ifs at h with hs
  cases h
  exact inv_idle (Or.inl rfl) (stopAll_pipeline hs)

/-- **A command that can be carried out leaves an honest status.** -/
theorem inv_command {c' : Client} {act : Bytes} (hi : Inv c) (hc : Carried c a act)
    (h : command a c act = .handled c') : Inv c' := by
  unfold command at h
  split_ifs at h with h1 h2 h3
  · cases h
    exact inv_cmd_live hi (h1 ▸ hc)
  · cases h
    exact inv_cmd_local hi (h2 ▸ hc)
  · exact inv_off h
  · cases h
    exact hi

theorem inv_receive {c' : Client} {text : Bytes} (hi : Inv c)
    (hc : ∀ act ∈ commandOf c text, Carried c a act)
    (h : receive a c text = some (.handled c')) : Inv c' := by
  rcases hact : commandOf c text with _ | act
  · rcases receive_of_none a hact with hr | hr | hr <;> rw [hr] at h <;> cases h
    exact hi
  · rw [receive_of_command a hact] at h
    exact inv_command hi (hc act hact) (Option.some.inj h)

end Step

theorem inv_step {s s' : Sys} {e : Ev} (hi : s.phase = .up → Inv s.c) (hc : Sound s e)
    (h : step s e = some s') : s'.phase = .up → Inv s'.c := by
  intro hup
  cases e with
  | msg text a =>
    simp only [step] at h
    split_ifs at h with hp
    split at h
    · cases h
      exact hi hp
    · next c hr =>
      cases h
      exact inv_receive (hi hp) hc hr
    · cases h
      cases hup
    · cases h
      cases hup
  | bus m r =>
    simp only [step] at h
    split_ifs at h
    cases h
    have hi := hi hup
    have hstop (hr : ¬ Running s.c) : Inv { s.c with gst := (stopStreaming s.c.gst r).2 } := by
      refine inv_idle ?_ (stopStreaming_pipeline s.c.gst r)
      simpa only [or_assoc, not_or, hr, false_or] using
        (or_assoc.mpr (mode_cases hi.mode)).resolve_left hr
    cases m with
    | eos => exact hstop (hc hup)
    | error => exact hstop (hc hup)
    | info => exact hi
    | other => exact hi
  | sigint r =>
    simp only [step] at h
    split_ifs at h
    cases h
    exact inv_idle (Or.inr rfl) (stopStreaming_pipeline s.c.gst r)
  | play i =>
    obtain ⟨g, hg, rfl⟩ := step_play h
    exact (hi hup).play hg

/-- **Every report is honest** in every run of steps that agree with the status they leave. -/
theorem reports_honest {s s' : Sys} {es : List Ev} (hi : Initial s) (hm : Meets step Sound s es)
    (hr : run step s es = some s') (hup : s'.phase = .up) : Honest s'.c := by
  have h0 : s.phase = .up → Inv s.c := by
    intro _
    refine inv_idle (Or.inl hi.1) ?_
    rw [hi.2.1]
    decide
  have hinv : s'.phase = .up → Inv s'.c := hm.inv (fun _ _ _ => inv_step) h0 hr
  exact (hinv hup).honest

/-! ### Commands that are carried out, and a stream that ends -/

/-- A device that has just been started. -/
def start : Sys where
  c := { streamId := some (lit "cam"), status := lit "ready", gst := ⟨Handles.empty, false, []⟩ }
  phase := .up

/-- A command, with every GStreamer call succeeding. -/
def cmd (action : String) : Ev :=
  .msg (lit ("\x7b \"streamId\" : \"cam\",\"action\" : \"" ++ action ++ "\"\x7d"))
    ⟨fun _ => true, [CHANGE_SUCCESS]⟩

theorem initial_start : Initial start := ⟨rfl, rfl, rfl⟩

theorem reports_honest_live :
    ∃ s', run step start [cmd "local", cmd "off", .bus .eos 1, cmd "live"] = some s' ∧
      s'.c.status = lit "live" ∧ Honest s'.c := by
  have hout : (run step start [cmd "local", cmd "off", .bus .eos 1, cmd "live"]).map
      (fun s => (s.phase, s.c.status)) = some (.up, lit "live") := by decide +kernel
  obtain ⟨s', hr, he⟩ := Option.map_eq_some_iff.mp hout
  simp only [Prod.mk.injEq] at he
  exact ⟨s', hr, he.2, reports_honest initial_start (by decide +kernel) hr he.1⟩

/-- **A device that reports `live` without a pipeline**, after an end of stream. -/
theorem live_without_pipeline :
    ¬ ∀ (s s' : Sys) (es : List Ev), Initial s → run step s es = some s' → s'.phase = .up →
      Honest s'.c := by
  intro h
  have hout : (run step start [cmd "live", .bus .eos 1]).map
      (fun s => (s.phase, s.c.status, s.c.gst.ref .pipeline)) =
      some (.up, lit "live", .released) := by decide +kernel
  obtain ⟨s', hr, he⟩ := Option.map_eq_some_iff.mp hout
  simp only [Prod.mk.injEq] at he
  have hp := ((h start s' _ initial_start hr he.1).1 he.2.1).1
  rw [he.2.2] at hp
  cases hp

end LiveStreamer.StreamerClient.Modes
