import LiveStreamer.Protocol.Messages
import LiveStreamer.StreamerClient.References

/-! # The session of a device with the server (`ClientComm.c`, `srvrComm.c`)

A device reports its status, the server answers, and the device carries out the answer and reports
again, until the answer is `ACK`. `step` is the handling of the message that is on its way; the
session is `Ended` when both loops have ended.

The server compares the stored action, which can be any string, with the status of the device,
which is one of `modes`. A device that is sent an action it does not know keeps its status, and
the exchange goes on for ever (`unknown_never_ends`). The session ends if and only if the action
is one of `live`, `local`, `off` and `done`, or the status of the device (`ends_iff`). -/

namespace LiveStreamer.Protocol.Exchange

open LiveStreamer.Lib.CString LiveStreamer.Lib.JsonText LiveStreamer.Lib.PathName
open LiveStreamer.Lib.Refs LiveStreamer.Lib.Run LiveStreamer.Lib.Tokener
open LiveStreamer.StreamerServer.SrvrJson (Fs storedAction storedAction_store record store defaults)
open LiveStreamer.StreamerServer.SrvrComm
open LiveStreamer.StreamerClient.VAGstreamer
open LiveStreamer.StreamerClient.ClientComm (Client Answers Outcome SIGStatus receive command
  commandOf receive_of_command receive_of_none live local' off)
open LiveStreamer.StreamerClient.References (initLive_pipeline stopStreaming_ref)
open LiveStreamer.StreamerClient.Modes (modes mode_cases Running)
open LiveStreamer.Protocol.Messages

/-! ### The exchange -/

/-- The message on its way. -/
inductive Wire where
  | report (text : Bytes)
  | reply (text : Bytes)
  /-- The device has received the `ACK`. -/
  | closed
  /-- One side has ended or does not come back. -/
  | lost
  deriving DecidableEq

structure Session where
  g : Globals
  fs : Fs
  c : Client
  wire : Wire

/-- `clientComm` of the server has set `ACK`, that of the device sends its first report. -/
def begin (g : Globals) (fs : Fs) (c : Client) : Session :=
  { g := { g with ACK := false }, fs, c, wire := .report (SIGStatus c) }

section Exchange
variable (cwd : Path)

/-- The message on its way is handled. The loop of the server ends with `ACK`. -/
def step (a : Answers) (x : Session) : Session :=
  match x.wire with
  | .report text =>
    if x.g.ACK then x
    else
      match serve cwd x.g x.fs text with
      | some ([reply], g, fs) => { x with g, fs, wire := .reply reply }
      | _ => { x with wire := .lost }
  | .reply text =>
    match receive a x.c text with
    | none => { x with wire := .closed }
    | some (.handled c) => { x with c, wire := .report (SIGStatus c) }
    | some (.stopping c) => { x with c, wire := .lost }
    | some .crash => { x with wire := .lost }
  | .closed => x
  | .lost => x

/-- The session after `n` messages, of which the `i`th meets the answers `ans i`. -/
def after (ans : ℕ → Answers) (x : Session) : ℕ → Session
  | 0 => x
  | n + 1 => after (fun i => ans (i + 1)) (step cwd (ans 0) x) n

/-- Both loops have ended. -/
def Ended (x : Session) : Prop := x.wire = .closed ∧ x.g.ACK = true

instance (x : Session) : Decidable (Ended x) := inferInstanceAs (Decidable (_ ∧ _))

/-- Every GStreamer call succeeds. -/
def Succeeds (a : Answers) : Prop := (∀ k, a.ok k = true) ∧ a.first = CHANGE_SUCCESS

/-- The actions that every device can carry out, and the one that stands for no action. -/
def actions : List Bytes := [lit "live", lit "local", lit "off", lit "done"]

/-! ### The device at the start of a session -/

/-- A device that can start a session: it is in a state of its main loop, or in the session that
`SIGINT` has started, where only its threads go on. -/
def AtSession (c : Client) : Prop :=
  ∃ x x' es, StreamerClient.Modes.Initial x ∧
    (∀ es1 r es2, es = es1 ++ .sigint r :: es2 → ∀ e ∈ es2, ∃ i, e = .play i) ∧
    run StreamerClient.Modes.step x es = some x' ∧ x'.phase = .up ∧ x'.c = c

end Exchange

/-! ### What a device does with its pipeline -/

/-- A device whose status is a pipeline of its own has made one. -/
structure Made (c : Client) : Prop where
  mode : c.status ∈ modes
  made : Running c → c.gst.ref .pipeline ≠ .null

section Made
variable {a : Answers} {c c' : Client}

theorem initLive_ne_null {k : Call → Bool} {g : Gst} (h : g.ref .pipeline ≠ .null) :
    (initLive k g).2.ref .pipeline ≠ .null := by
  rw [initLive_pipeline]
  split_ifs
  · exact h
  · exact Ref.noConfusion

theorem stopStreaming_ne_null {g : Gst} (r : ℕ) (h : g.ref .pipeline ≠ .null) :
    (stopStreaming g r).2.ref .pipeline ≠ .null := by
  rw [stopStreaming_ref]
  by_cases hp : g.ref .pipeline = .held <;> simp [hp, h]

theorem setAll_ne_null {k : Call → Bool} {g : Gst} {r : ℕ} (h : ¬ (setAll k g r).1 ≠ 0) :
    (setAll k g r).2.ref .pipeline ≠ .null := by
  have hi := (setAll_eq_zero g r).mp (not_not.mp h)
  rw [(setAll_of_initializes g r hi).2.1]
  exact Ref.noConfusion

theorem made_of_idle (h : c.status = lit "ready" ∨ c.status = lit "off") : Made c := by
  refine ⟨?_, fun hr => ?_⟩
  · rcases h with h | h <;> rw [h] <;> decide
  · rcases h with h | h <;> rw [Running, h] at hr <;> exact absurd hr (by decide)

theorem made_of_running (h : Running c) (hp : c.gst.ref .pipeline ≠ .null) : Made c := by
  refine ⟨?_, fun _ => hp⟩
  rcases h with h | h <;> rw [h] <;> decide

theorem made_live (hi : Made c) (hoff : c.status ≠ lit "off") : Made (live a c) := by
  unfold live
  rcases mode_cases hi.mode with h | h | h | h
  · rw [if_neg (by rw [h]; decide), if_neg (by rw [h]; decide)]
    exact made_of_running (Or.inl rfl) (hi.made (Or.inl h))
  · rw [if_pos h]
    exact made_of_running (Or.inl rfl) (initLive_ne_null (hi.made (Or.inr h)))
  · rw [if_neg (by rw [h]; decide), if_pos h]
    split_ifs with hz
    · exact made_of_idle (Or.inl h)
    · exact made_of_running (Or.inl rfl) (initLive_ne_null (setAll_ne_null hz))
  · exact absurd h hoff

theorem made_local (hi : Made c) (hoff : c.status ≠ lit "off") : Made (local' a c) := by
  unfold local'
  rcases mode_cases hi.mode with h | h | h | h
  · rw [if_pos h]
    refine made_of_running (Or.inr rfl) ?_
    rw [stopLive_pipeline]
    exact hi.made (Or.inl h)
  · rw [if_neg (by rw [h]; decide), if_neg (by rw [h]; decide)]
    exact made_of_running (Or.inr rfl) (hi.made (Or.inr h))
  · rw [if_neg (by rw [h]; decide), if_pos h]
    split_ifs with hz
    · exact made_of_idle (Or.inl h)
    · exact made_of_running (Or.inr rfl) (setAll_ne_null hz)
  · exact absurd h hoff

/-- What a handled message leaves of the name and the status of a device. -/
theorem handled_cases {text : Bytes} (h : receive a c text = some (.handled c')) :
    c'.streamId = c.streamId ∧ (c'.status = c.status ∨
      c'.status ∈ [lit "live", lit "local", lit "ready"]) := by
  rcases hact : commandOf c text with _ | act
  · rcases receive_of_none a hact with hr | hr | hr <;> rw [hr] at h <;> cases h
    exact ⟨rfl, Or.inl rfl⟩
  rw [receive_of_command a hact, Option.some.injEq, command] at h
  split_ifs at h with h1 h2 h3
  · cases h
    unfold live
    split_ifs <;> simp
  · cases h
    unfold local'
    split_ifs <;> simp
  · unfold off at h
    split_ifs at h
    cases h
    simp
  · cases h
    exact ⟨rfl, Or.inl rfl⟩

/-- A device that stops its pipeline keeps its status for so long. -/
theorem stopping_eq {text : Bytes} (h : receive a c text = some (.stopping c')) :
    c'.streamId = c.streamId ∧ c'.status = c.status := by
  rcases hact : commandOf c text with _ | act
  · rcases receive_of_none a hact with hr | hr | hr <;> rw [hr] at h <;> cases h
  rw [receive_of_command a hact, Option.some.injEq, command] at h
  split_ifs at h with h1 h2 h3
  unfold off at h
  split_ifs at h
  cases h
  exact ⟨rfl, rfl⟩

theorem mode_handled {text : Bytes} (hm : c.status ∈ modes)
    (h : receive a c text = some (.handled c')) : c'.status ∈ modes := by
  rcases (handled_cases h).2 with hs | hs
  · rwa [hs]
  · simp only [modes, List.mem_cons, List.not_mem_nil, or_false] at hs ⊢
    tauto

theorem made_handled {text : Bytes} (hi : Made c) (hoff : c.status ≠ lit "off")
    (h : receive a c text = some (.handled c')) : Made c' ∧ c'.status ≠ lit "off" := by
  have hne : c'.status ≠ lit "off" := by
    rcases (handled_cases h).2 with hs | hs
    · rwa [hs]
    · rintro he
      rw [he] at hs
      exact absurd hs (by decide)
  refine ⟨?_, hne⟩
  rcases hact : commandOf c text with _ | act
  · rcases receive_of_none a hact with hr | hr | hr <;> rw [hr] at h <;> cases h
    exact hi
  rw [receive_of_command a hact, Option.some.injEq, command] at h
  split_ifs at h with h1 h2 h3
  · cases h
    exact made_live hi hoff
  · cases h
    exact made_local hi hoff
  · unfold off at h
    split_ifs at h
    cases h
    exact made_of_idle (Or.inl rfl)
  · cases h
    exact hi

/-- A step other than `SIGINT`. -/
theorem made_step {x x' : StreamerClient.Modes.Sys} {e : StreamerClient.Modes.Ev}
    (hi : x.phase = .up → Made x.c ∧ x.c.status ≠ lit "off") (he : ∀ r, e ≠ .sigint r)
    (h : StreamerClient.Modes.step x e = some x') :
    x'.phase = .up → Made x'.c ∧ x'.c.status ≠ lit "off" := by
  intro hup
  cases e with
  | msg text a =>
    simp only [StreamerClient.Modes.step] at h
    split_ifs at h with hp
    split at h
    · cases h
      exact hi hp
    · next c hr =>
      cases h
      exact made_handled (hi hp).1 (hi hp).2 hr
    · cases h
      cases hup
    · cases h
      cases hup
  | bus m r =>
    simp only [StreamerClient.Modes.step] at h
    split_ifs at h
    cases h
    obtain ⟨hm, hoff⟩ := hi hup
    refine ⟨⟨hm.mode, fun hr => ?_⟩, hoff⟩
    cases m with
    | eos => exact stopStreaming_ne_null r (hm.made hr)
    | error => exact stopStreaming_ne_null r (hm.made hr)
    | info => exact hm.made hr
    | other => exact hm.made hr
  | sigint r => exact absurd rfl (he r)
  | play i =>
    obtain ⟨g, hg, rfl⟩ := StreamerClient.Modes.step_play h
    obtain ⟨hm, hoff⟩ := hi hup
    refine ⟨⟨hm.mode, fun hr => ?_⟩, hoff⟩
    rw [(play_frame hg).1]
    exact hm.made hr

theorem made_run {x x' : StreamerClient.Modes.Sys} {es : List StreamerClient.Modes.Ev}
    (hi : x.phase = .up → Made x.c ∧ x.c.status ≠ lit "off") (he : ∀ r, .sigint r ∉ es)
    (h : run StreamerClient.Modes.step x es = some x') :
    x'.phase = .up → Made x'.c ∧ x'.c.status ≠ lit "off" := by
  have hm : Meets StreamerClient.Modes.step (fun _ e => ∀ r, e ≠ .sigint r) x es :=
    meets_of_forall x fun e hmem _ r hr => he r (hr ▸ hmem)
  have hstep : ∀ x e x', (x.phase = .up → Made x.c ∧ x.c.status ≠ lit "off") →
      (∀ r, e ≠ .sigint r) → StreamerClient.Modes.step x e = some x' →
        (x'.phase = .up → Made x'.c ∧ x'.c.status ≠ lit "off") := fun _ _ _ => made_step
  exact hm.inv hstep hi h

/-- The threads leave the status alone. -/
theorem status_run_play {x x' : StreamerClient.Modes.Sys} {es : List StreamerClient.Modes.Ev}
    (he : ∀ e ∈ es, ∃ i, e = .play i) (h : run StreamerClient.Modes.step x es = some x') :
    x'.c.status = x.c.status := by
  induction es generalizing x with
  | nil =>
    rw [run_nil, Option.some.injEq] at h
    rw [h]
  | cons e es ih =>
    obtain ⟨x1, h1, h2⟩ := run_cons_eq_some.mp h
    obtain ⟨i, rfl⟩ := he e (List.mem_cons_self ..)
    obtain ⟨g, -, rfl⟩ := StreamerClient.Modes.step_play h1
    have hst := ih (fun e hmem => he e (List.mem_cons_of_mem _ hmem)) h2
    exact hst

/-- **A device that is live or local at the start of a session has made a pipeline.** -/
theorem made_of_atSession (h : AtSession c) : Made c := by
  obtain ⟨x, x', es, hi, hs, hr, hup, rfl⟩ := h
  have h0 : x.phase = .up → Made x.c ∧ x.c.status ≠ lit "off" := fun _ =>
    ⟨made_of_idle (Or.inl hi.1), by rw [hi.1]; decide⟩
  by_cases he : ∃ r, .sigint r ∈ es
  · -- after `SIGINT` the device is off, and stays off
    obtain ⟨r, hmem⟩ := he
    obtain ⟨es1, es2, rfl⟩ := List.append_of_mem hmem
    rw [run_append] at hr
    obtain ⟨x1, -, h2⟩ := Option.bind_eq_some_iff.mp hr
    obtain ⟨x2, h2, h3⟩ := run_cons_eq_some.mp h2
    have hplay := status_run_play (hs es1 r es2 rfl) h3
    simp only [StreamerClient.Modes.step] at h2
    split_ifs at h2
    cases h2
    exact made_of_idle (Or.inr hplay)
  · exact (made_run h0 (fun r hmem => he ⟨r, hmem⟩) hr hup).1

end Made

/-! ### One message -/

section Messages
variable {cwd : Path} {fs : Fs} {c : Client} {s a : Bytes}

theorem plain_modes {status : Bytes} (h : status ∈ modes) : Plain status ∧ status.length ≤ 5 := by
  rcases mode_cases h with rfl | rfl | rfl | rfl <;> decide

theorem reads_report (hs : Plain s) (hl : s.length ≤ 217) (hm : c.status ∈ modes)
    (hc : c.streamId = some s) : Reads .SIGStatus s c.status (SIGStatus c) := by
  obtain ⟨hp, hle⟩ := plain_modes hm
  have hf : Fits .SIGStatus s c.status := by
    have hb : (Writer.SIGStatus.blanks).length = 1 := rfl
    rw [Fits, length_full, hb, MAXDATASIZE]
    omega
  rw [SIGStatus, hc]
  exact reads_SIGStatus hs hp hf

/-- **The server answers the report of a device.** -/
theorem serve_SIGStatus (g : Globals) (hs : Plain s) (hl : s.length ≤ 217) (hm : c.status ∈ modes)
    (hc : c.streamId = some s) (ha : storedAction cwd s fs = some a) :
    ∃ g', serve cwd g fs (SIGStatus c) = some ([answer s c.status a], g',
        store cwd fs s (answered s c.status a (record cwd fs s))) ∧
      g'.ACK = (g.ACK || decide (Acks c.status a)) := by
  obtain ⟨-, hid, hst⟩ := reads_report hs hl hm hc
  obtain ⟨g', hg, hack, -⟩ := serve_report (streamOf_of_field hid) hst ha
  exact ⟨g', hg, hack⟩

theorem storedAction_answered (status : Bytes) (ha : storedAction cwd s fs = some a) :
    storedAction cwd s (store cwd fs s (answered s status a (record cwd fs s))) =
      some (if Acks status a then lit "done" else a) := by
  rw [storedAction_store, answered]
  split_ifs
  · rw [getEx_add_self]
    exact getString_str (by decide)
  · rw [reported, getEx_add_ne _ _ (by decide), getEx_add_ne _ _ (by decide)]
    exact ha

/-- **A device takes a command of plain strings for itself.** -/
theorem commandOf_actText (hs : Plain s) (ha : Plain a) (hl : s.length + a.length ≤ 222)
    (hc : c.streamId = some s) : commandOf c (actText (some s) (some a)) = some a := by
  have hf : Fits .SIGAct s a := by
    have hb : (Writer.SIGAct.blanks).length = 1 := rfl
    rw [Fits, length_full, hb, MAXDATASIZE]
    omega
  obtain ⟨-, hid, hact⟩ := reads_SIGAct hs ha hf
  rw [commandOf, if_pos]
  · exact hact
  · exact ⟨actText_ne_ack _ _, by rw [hc]; rfl, hc.trans hid.symm⟩

end Messages

/-! ### Sessions that end, and sessions that do not -/

section Ends
variable {cwd : Path} {s a : Bytes} {x : Session}

variable (cwd s a) in
/-- A device of the stream `s` has reported, and the server waits; the stored action is `a`. -/
structure Reported (x : Session) : Prop where
  mode : x.c.status ∈ modes
  name : x.c.streamId = some s
  wire : x.wire = .report (SIGStatus x.c)
  waits : x.g.ACK = false
  stored : storedAction cwd s x.fs = some a

/-- **The server handles a report**: it answers, and stores what it has answered. -/
theorem step_report (hs : Plain s) (hl : s.length ≤ 217) (h : Reported cwd s a x) (k : Answers) :
    ∃ g, step cwd k x = { x with
        g
        fs := store cwd x.fs s (answered s x.c.status a (record cwd x.fs s))
        wire := .reply (answer s x.c.status a) } ∧ g.ACK = decide (Acks x.c.status a) := by
  obtain ⟨g', hg, hack⟩ := serve_SIGStatus x.g hs hl h.mode h.name h.stored
  refine ⟨g', ?_, by rw [hack, h.waits, Bool.false_or]⟩
  simp only [step, h.wire, h.waits, hg, Bool.false_eq_true, if_false]

/-- An `ACK` ends the session. -/
theorem ends_of_acks (hs : Plain s) (hl : s.length ≤ 217) (h : Reported cwd s a x)
    (hA : Acks x.c.status a) (ans : ℕ → Answers) : Ended (after cwd ans x 2) := by
  obtain ⟨g, hx, hack⟩ := step_report hs hl h (ans 0)
  have hr (fs : Fs) : step cwd (ans 1) { x with g, fs, wire := .reply ackText } =
      { x with g, fs, wire := .closed } := rfl
  rw [answer, if_pos hA] at hx
  simp only [after, hx, hr]
  exact ⟨rfl, by rw [hack]; exact decide_eq_true hA⟩

/-- A device carries out `live`, `local` and `off`. -/
theorem command_succeeds {k : Answers} {c : Client} (hk : Succeeds k) (hm : Made c)
    (ha : a = lit "live" ∨ a = lit "local" ∨ a = lit "off") (hA : ¬ Acks c.status a) :
    ∃ c', command k c a = .handled c' ∧ c'.streamId = c.streamId ∧ c'.status ∈ modes ∧
      Acks c'.status a := by
  obtain ⟨hok, hfirst⟩ := hk
  have hset (g : Gst) : (setAll k.ok g k.first).1 = 0 :=
    (setAll_eq_zero g k.first).mpr ⟨fun c _ => hok c, hok _, hok _⟩
  rcases ha with rfl | rfl | rfl
  · have hst : (live k c).status = lit "live" ∧ (live k c).streamId = c.streamId := by
      unfold live
      split_ifs with h1 h2 h3
      · exact ⟨rfl, rfl⟩
      · exact absurd (hset c.gst) h3
      · exact ⟨rfl, rfl⟩
      · exact ⟨rfl, rfl⟩
    refine ⟨live k c, if_pos rfl, hst.2, by rw [hst.1]; decide, by rw [hst.1]; decide⟩
  · have hst : (local' k c).status = lit "local" ∧ (local' k c).streamId = c.streamId := by
      unfold local'
      split_ifs with h1 h2 h3
      · exact ⟨rfl, rfl⟩
      · exact absurd (hset c.gst) h3
      · exact ⟨rfl, rfl⟩
      · exact ⟨rfl, rfl⟩
    refine ⟨local' k c, ?_, hst.2, by rw [hst.1]; decide, by rw [hst.1]; decide⟩
    rw [command, if_neg (by decide), if_pos rfl]
  · -- the status is neither `ready` nor `off`, so there is a pipeline to stop
    have hrun : Running c := by
      rcases mode_cases hm.mode with h | h | h | h
      · exact Or.inl h
      · exact Or.inr h
      · exact absurd (Or.inr (Or.inr ⟨h, rfl⟩)) hA
      · exact absurd (Or.inr (Or.inl h)) hA
    have hstop : (stopAll c.gst k.setState).2 = true := by
      rcases hr : k.setState with _ | ⟨r, rs⟩
      · rw [Answers.first, hr] at hfirst
        cases hfirst
      · rw [Answers.first, hr] at hfirst
        rw [stopAll, if_pos]
        exact (if_neg (hm.made hrun)).trans hfirst
    refine ⟨{ c with gst := (stopAll c.gst k.setState).1, status := lit "ready" }, ?_, rfl,
      (by decide : lit "ready" ∈ modes), (by decide : Acks (lit "ready") (lit "off"))⟩
    rw [command, if_neg (by decide), if_neg (by decide), if_pos rfl, off, if_pos hstop]

/-- **A command that the device knows ends the session.** -/
theorem ends_of_mem (hs : Plain s) (hl : s.length ≤ 217) (h : Reported cwd s a x) (hm : Made x.c)
    {ans : ℕ → Answers} (hans : ∀ n, Succeeds (ans n)) (ha : a ∈ actions) :
    ∃ n, Ended (after cwd ans x n) := by
  by_cases hA : Acks x.c.status a
  · exact ⟨2, ends_of_acks hs hl h hA ans⟩
  have hcmd : a = lit "live" ∨ a = lit "local" ∨ a = lit "off" := by
    simp only [actions, List.mem_cons, List.not_mem_nil, or_false] at ha
    rcases ha with ha | ha | ha | ha
    · exact Or.inl ha
    · exact Or.inr (Or.inl ha)
    · exact Or.inr (Or.inr ha)
    · exact absurd (Or.inl ha) hA
  have hp : Plain a ∧ a.length ≤ 5 := by rcases hcmd with rfl | rfl | rfl <;> decide
  obtain ⟨g, hx, hack⟩ := step_report hs hl h (ans 0)
  have hst := storedAction_answered x.c.status h.stored
  obtain ⟨c', hc, hid, hmode, hA'⟩ := command_succeeds (hans 1) hm hcmd hA
  have hr : receive (ans 1) x.c (actText (some s) (some a)) = some (.handled c') := by
    rw [receive_of_command _ (commandOf_actText hs hp.1 (by omega) h.name), hc]
  have h2 (fs : Fs) :
      step cwd (ans 1) { x with g, fs, wire := .reply (actText (some s) (some a)) } =
        { x with g, fs, c := c', wire := .report (SIGStatus c') } := by
    simp only [step, hr]
  rw [answer, if_neg hA] at hx
  rw [if_neg hA] at hst
  have hrep : Reported cwd s a (step cwd (ans 1) (step cwd (ans 0) x)) := by
    rw [hx, h2]
    exact ⟨hmode, hid.trans h.name, rfl, by rw [hack]; exact decide_eq_false hA, hst⟩
  have hstatus : (step cwd (ans 1) (step cwd (ans 0) x)).c.status = c'.status := by rw [hx, h2]
  exact ⟨4, ends_of_acks hs hl hrep (hstatus ▸ hA') fun i => ans (i + 2)⟩

variable (cwd s a) in
/-- The session is still waiting for the device to report `a`. -/
structure Waiting (x : Session) : Prop where
  mode : x.c.status ∈ modes
  other : x.c.status ≠ a
  name : x.c.streamId = some s
  waits : x.g.ACK = false
  stored : storedAction cwd s x.fs = some a
  wire : x.wire = .report (SIGStatus x.c) ∨ x.wire = .reply (actText (some s) (some a))

/-- A device does not come to report an action that it does not know. -/
theorem handled_ne {k : Answers} {c c' : Client} (hs : Plain s) (hl : s.length ≤ 217)
    (hid : c.streamId = some s) (ha : a ∉ actions) (hm : c.status ∈ modes) (hne : c.status ≠ a)
    (h : receive k c (actText (some s) (some a)) = some (.handled c')) : c'.status ≠ a := by
  by_cases hr : a = lit "ready"
  · have hcmd : command k c a = .handled c := by
      rw [hr]
      rfl
    have hlen : a.length = 5 := by rw [hr]; rfl
    rw [receive_of_command _ (commandOf_actText hs (by rw [hr]; decide) (by omega) hid), hcmd,
      Option.some.injEq, Outcome.handled.injEq] at h
    rwa [← h]
  · rintro rfl
    rcases mode_cases (mode_handled hm h) with h' | h' | h' | h'
    · exact ha (by rw [h']; decide)
    · exact ha (by rw [h']; decide)
    · exact hr h'
    · exact ha (by rw [h']; decide)

/-- An action that the device does not know changes nothing. -/
theorem waiting_step (hs : Plain s) (hl : s.length ≤ 217) (ha : a ∉ actions)
    (h : Waiting cwd s a x) (k : Answers) :
    Waiting cwd s a (step cwd k x) ∨ (step cwd k x).wire = .lost := by
  have hne : ∀ b ∈ actions, a ≠ b := fun b hb he => ha (he ▸ hb)
  rcases h.wire with hw | hw
  · have hA : ¬ Acks x.c.status a := by
      rintro (h' | h' | h')
      · exact hne _ (by decide) h'
      · exact h.other h'
      · exact hne _ (by decide) h'.2
    obtain ⟨g, hx, hack⟩ := step_report hs hl ⟨h.mode, h.name, hw, h.waits, h.stored⟩ k
    have hst := storedAction_answered x.c.status h.stored
    rw [answer, if_neg hA] at hx
    rw [if_neg hA] at hst
    rw [hx]
    exact Or.inl ⟨h.mode, h.other, h.name, by rw [hack]; exact decide_eq_false hA, hst,
      Or.inr rfl⟩
  · rcases hr : receive k x.c (actText (some s) (some a)) with _ | ⟨c⟩ | ⟨c⟩ | _
    · rw [receive] at hr
      split_ifs at hr with hack
      exact absurd hack (actText_ne_ack _ _)
    · have hx : step cwd k x = { x with c, wire := .report (SIGStatus c) } := by
        simp only [step, hw, hr]
      rw [hx]
      exact Or.inl ⟨mode_handled h.mode hr, handled_ne hs hl h.name ha h.mode h.other hr,
        (handled_cases hr).1.trans h.name, h.waits, h.stored, Or.inl rfl⟩
    · right
      simp only [step, hw, hr]
    · right
      simp only [step, hw, hr]

/-- **A command that the device does not know never ends the session**, unless the device has
that status already. -/
theorem unknown_never_ends (hs : Plain s) (hl : s.length ≤ 217) (ha : a ∉ actions)
    (h : Waiting cwd s a x ∨ x.wire = .lost) (ans : ℕ → Answers) (n : ℕ) :
    ¬ Ended (after cwd ans x n) := by
  induction n generalizing x ans with
  | zero =>
    rintro ⟨hw, -⟩
    rcases h with h | h
    · rcases h.wire with h' | h' <;> rw [after, h'] at hw <;> cases hw
    · rw [after, h] at hw
      cases hw
  | succ n ih =>
    refine ih ?_ _
    rcases h with h | h
    · exact waiting_step hs hl ha h (ans 0)
    · right
      simp only [step, h]

/-- **When a session ends**: its stream is a plain string that fits the messages, the device is in
a state in which it can start a session, and every GStreamer call succeeds. -/
theorem ends_iff {g : Globals} {fs : Fs} {c : Client} {ans : ℕ → Answers} (hs : Plain s)
    (hl : s.length ≤ 217) (hid : c.streamId = some s) (hc : AtSession c)
    (ha : storedAction cwd s fs = some a) (hans : ∀ n, Succeeds (ans n)) :
    (∃ n, Ended (after cwd ans (begin g fs c) n)) ↔ a ∈ actions ∨ a = c.status := by
  have hm := made_of_atSession hc
  have hrep : Reported cwd s a (begin g fs c) := ⟨hm.mode, hid, rfl, rfl, ha⟩
  constructor
  · rintro ⟨n, hn⟩
    by_contra hno
    rw [not_or] at hno
    have hw : Waiting cwd s a (begin g fs c) :=
      ⟨hm.mode, fun h => hno.2 h.symm, hid, rfl, ha, Or.inl rfl⟩
    exact unknown_never_ends hs hl hno.1 (Or.inl hw) ans n hn
  · rintro (h | h)
    · exact ends_of_mem hs hl hrep hm hans h
    · exact ⟨2, ends_of_acks hs hl hrep (Or.inr (Or.inl h.symm)) ans⟩

/-! ### A session that ends, and one that does not -/

/-- A device that has just been started, and a server that has no record yet but for the action. -/
def device : Client := ⟨some (lit "cam"), lit "ready", ⟨Handles.empty, false, []⟩⟩

def globals : Globals := ⟨none, 4, false, []⟩

def stored (action : Bytes) : Fs :=
  store [] ∅ (lit "cam") (add (defaults (lit "cam")) (lit "action") (.str action))

/-- Every call succeeds. -/
def succeeding : Answers := ⟨fun _ => true, [CHANGE_SUCCESS]⟩

theorem succeeds_succeeding : Succeeds succeeding := ⟨fun _ => rfl, rfl⟩

theorem atSession_device : AtSession device :=
  ⟨⟨device, .up⟩, ⟨device, .up⟩, [], ⟨rfl, rfl, rfl⟩, by simp, rfl, rfl, rfl⟩

theorem storedAction_stored (action : Bytes) (h : (0 : UInt8) ∉ action) :
    storedAction [] (lit "cam") (stored action) = some action := by
  rw [stored, storedAction_store, getEx_add_self]
  exact getString_str h

theorem ends_iff_local :
    ∃ n, Ended (after [] (fun _ => succeeding) (begin globals (stored (lit "local")) device) n) :=
  (ends_iff (by decide) (by decide) rfl atSession_device
    (storedAction_stored _ (by decide)) fun _ => succeeds_succeeding).mpr (Or.inl (by decide))

/-- **A player's `stop`, which no device knows, keeps the two sides exchanging messages.** -/
theorem stop_never_ends : ¬ ∀ (cwd : Path) (s a : Bytes) (g : Globals) (fs : Fs) (c : Client)
    (ans : ℕ → Answers), Plain s → s.length ≤ 217 → c.streamId = some s → AtSession c →
      storedAction cwd s fs = some a → Fits .SIGAct s a → (∀ n, Succeeds (ans n)) →
        ∃ n, Ended (after cwd ans (begin g fs c) n) := by
  intro h
  obtain ⟨n, hn⟩ := h [] (lit "cam") (lit "stop") globals (stored (lit "stop")) device
    (fun _ => succeeding) (by decide) (by decide) rfl atSession_device
    (storedAction_stored _ (by decide)) (by decide) fun _ => succeeds_succeeding
  have hw : Waiting [] (lit "cam") (lit "stop") (begin globals (stored (lit "stop")) device) :=
    ⟨by decide, by decide, rfl, rfl, storedAction_stored _ (by decide), Or.inl rfl⟩
  exact unknown_never_ends (by decide) (by decide) (by decide) (Or.inl hw) _ n hn

end Ends

end LiveStreamer.Protocol.Exchange
