import LiveStreamer.StreamerClient.Modes

/-! # References of the pipeline

The references of a device are `Clean` as long as no operation met a released one: nothing is used
after its release, nothing is released twice, and the loop `while (stopStreaming() != 1)` does not
come back to a pipeline it has released. No function looks at whether a reference is still held:
every start begins with `stopStreaming` and `stopLive`, a stop that answers something else than
success is repeated, `initLive` drops the bus that `initialize` has dropped
(`bus_released_twice`), and a stop does not wait for the thread that a start has made
(`not_playable_stopStreaming`). The threads take their steps between the messages: a step amid the
handling of one is as clean as it would be before or after it.

`Careful` is the condition of a step on the references before it and on what the calls answer. The
references are clean after a run if and only if all its steps were careful (`clean_iff_careful`).
-/

namespace LiveStreamer.StreamerClient.References

open LiveStreamer.Lib.CString LiveStreamer.Lib.Refs LiveStreamer.Lib.Run
open LiveStreamer.StreamerClient.VAGstreamer LiveStreamer.StreamerClient.ClientComm
open LiveStreamer.StreamerClient.Modes

/-! ### What each function needs -/

section Functions
variable (a : Call → Bool) (g : Gst) (r : ℕ)

/-- The pipeline and the main loop are held, or were never made. -/
def Stoppable : Prop := g.ref .pipeline ≠ .released ∧ g.ref .loop ≠ .released

/-- No pipeline was ever made, and the others are held or were never made. -/
def Startable : Prop :=
  g.ref .pipeline = .null ∧ g.ref .loop ≠ .released ∧ g.ref .bin ≠ .released

/-- `initLive` fails before it does anything with the pipeline. -/
def BinFails : Prop :=
  a .bin = false ∨ a .qLive = false ∨ a .sinkLive = false ∨ a .liveProgres = false

/-- `initLive` links the two pads. -/
def BinLinks : Prop := a .liveTemplate = true ∧ a .liveLink = true

instance : Decidable (Stoppable g) := inferInstanceAs (Decidable (_ ∧ _))

instance : Decidable (Startable g) := inferInstanceAs (Decidable (_ ∧ _ ∧ _))

instance : Decidable (BinFails a) := inferInstanceAs (Decidable (_ ∨ _ ∨ _ ∨ _))

instance : Decidable (BinLinks a) := inferInstanceAs (Decidable (_ ∧ _))

theorem clean_stopStreaming : (stopStreaming g r).2.Clean ↔ Stoppable g ∧ g.Clean := by
  simp only [stopStreaming, Stoppable, Gst.clean_unref, Gst.clean_use, Gst.ref_use, Gst.ref_unref]
  by_cases hp : g.ref .pipeline = .released <;> simp [hp]

theorem clean_stopLive : (stopLive g).Clean ↔
    (g.ref .bin ≠ .released ∧ g.ref .pipeline ≠ .released) ∧ g.Clean := by
  simp only [stopLive, Gst.clean_setLinked, Gst.clean_unref, Gst.clean_use, Gst.ref_use]
  tauto

@[simp] theorem clean_startStreaming : (startStreaming g).Clean ↔ g.Clean := Iff.rfl

/-- What the next operation of a thread needs. -/
def ThreadNeeds : Thread → Prop
  | .made => g.ref .pipeline ≠ .released
  | .playing => g.ref .loop ≠ .released
  | .running => True

/-- Thread `i` can go on with `play`. -/
def Playable (i : ℕ) : Prop := ∀ t ∈ g.threads[i]?, ThreadNeeds g t

instance : ∀ t, Decidable (ThreadNeeds g t)
  | .made => inferInstanceAs (Decidable (_ ≠ _))
  | .playing => inferInstanceAs (Decidable (_ ≠ _))
  | .running => isTrue trivial

instance (i : ℕ) : Decidable (Playable g i) := inferInstanceAs (Decidable (∀ t ∈ _, _))

theorem clean_play {g g' : Gst} {i : ℕ} (h : play g i = some g') :
    g'.Clean ↔ Playable g i ∧ g.Clean := by
  unfold play at h
  unfold Playable
  rcases ht : g.threads[i]? with _ | t
  · rw [ht] at h
    cases h
  · rw [ht] at h
    cases t with
    | made =>
      cases h
      simp [ThreadNeeds]
    | playing =>
      cases h
      simp [ThreadNeeds]
    | running => cases h

/-- **A thread that has not come to its pipeline when a stop drops it** meets a released one. -/
theorem not_playable_stopStreaming {i : ℕ} (ht : g.threads[i]? = some .made)
    (hp : g.ref .pipeline ≠ .null) : ¬ Playable (stopStreaming g r).2 i := by
  intro h
  have hrel : (stopStreaming g r).2.ref .pipeline = .released := by
    rcases (g.ref .pipeline).cases with h0 | h0 | h0
    · exact absurd h0 hp
    · simp [stopStreaming, h0]
    · simp [stopStreaming, h0]
  exact h .made ht hrel

variable {g} in
theorem clean_initCamera (h : g.ref .pipeline ≠ .released) :
    (initCamera a g).2.Clean ↔ g.Clean := by
  unfold initCamera
  split_ifs <;> simp [h]

variable {g} in
theorem clean_initLocal (h : g.ref .pipeline ≠ .released) :
    (initLocal a g).2.Clean ↔ g.Clean := by
  unfold initLocal
  split_ifs <;> simp [h]

/-- `initialize` touches only what it makes. -/
theorem clean_initialize : (initializeGst a g).2.Clean ↔ g.Clean := by
  unfold initializeGst
  rcases hp : a .pipeline with _ | _
  · simp
  · set g1 := ((((((g.new .loop true).new .pipeline true).setLinked false).use .pipeline).new .bus
      true).use .bus).unref .bus with hg1
    have h1 : (g1.use .pipeline).ref .pipeline ≠ .released := by simp [hg1]
    have h2 : (initCamera a (g1.use .pipeline)).2.ref .pipeline ≠ .released := by
      rwa [initCamera_ref]
    have h3 : (g1.use .pipeline).Clean ↔ g.Clean := by simp [hg1]
    dsimp only
    split_ifs
    · simp
    · rw [clean_initCamera a h1, h3]
    · rw [clean_initLocal a h2, clean_initCamera a h1, h3]
    · rw [clean_initLocal a h2, clean_initCamera a h1, h3]

section InitLive
variable {a}

theorem initLive_of_binFails (h : BinFails a) : (initLive a g).2 = g.new .bin (a .bin) := by
  have hn : (!a .bin || !a .qLive || !a .sinkLive || !a .liveProgres) = true := by
    simpa [BinFails, or_assoc] using h
  simp [initLive, hn]

theorem made_of_not_binFails (h : ¬ BinFails a) :
    (a .bin = true ∧ a .qLive = true ∧ a .sinkLive = true ∧ a .liveProgres = true) := by
  simpa [BinFails, not_or] using h

theorem initLive_of_not_binLinks (hb : ¬ BinFails a) (hl : ¬ BinLinks a) :
    (initLive a g).2 = (g.new .bin true).unref .pipeline ∨ (initLive a g).2 =
      ((((g.new .bin true).use .pipeline).use .bin).use .bin).unref .pipeline := by
  obtain ⟨h1, h2, h3, h4⟩ := made_of_not_binFails hb
  rcases h5 : a .liveTemplate with _ | _
  · exact Or.inl (by simp [initLive, h1, h2, h3, h4, h5])
  · have h6 : a .liveLink = false := by
      by_contra h6
      exact hl ⟨h5, by simpa using h6⟩
    exact Or.inr (by simp [initLive, h1, h2, h3, h4, h5, h6])

theorem initLive_of_binLinks (hb : ¬ BinFails a) (hl : BinLinks a) :
    (initLive a g).2 = ((((((g.new .bin true).use .pipeline).use .bin).use .bin).use .bin).use
      .bin |>.setLinked (a .sinkLink && a .ghostPad && a .binLink)).unref .bus := by
  obtain ⟨h1, h2, h3, h4⟩ := made_of_not_binFails hb
  simp [initLive, h1, h2, h3, h4, hl.1, hl.2]

end InitLive

theorem clean_initLive : (initLive a g).2.Clean ↔
    (BinFails a ∨ (g.ref .pipeline ≠ .released ∧ (BinLinks a → g.ref .bus ≠ .released))) ∧
      g.Clean := by
  by_cases hb : BinFails a
  · simp [initLive_of_binFails g hb, hb]
  by_cases hl : BinLinks a
  · simp [initLive_of_binLinks g hb hl, hb, hl]
    tauto
  · rcases initLive_of_not_binLinks g hb hl with h | h <;> simp [h, hb, hl]

/-- What `initLive` leaves of the pipeline. -/
theorem initLive_pipeline : (initLive a g).2.ref .pipeline =
    if BinFails a ∨ BinLinks a ∨ g.ref .pipeline ≠ .held then g.ref .pipeline else .released := by
  by_cases hb : BinFails a
  · simp [initLive_of_binFails g hb, hb]
  by_cases hl : BinLinks a
  · simp [initLive_of_binLinks g hb hl, hl]
  · by_cases hp : g.ref .pipeline = .held <;>
      rcases initLive_of_not_binLinks g hb hl with h | h <;> simp [h, hb, hl, hp]

/-- What `startLive` needs: `initLive` gives up at once, or links a bin while the bus is not
released, or has no pipeline to drop. -/
def Switchable : Prop :=
  g.ref .pipeline ≠ .released ∧ (BinFails a ∨ (BinLinks a ∧ g.ref .bus ≠ .released) ∨
    (¬ BinLinks a ∧ g.ref .pipeline = .null))

instance : Decidable (Switchable a g) :=
  inferInstanceAs (Decidable (_ ∧ (_ ∨ (_ ∧ _) ∨ (_ ∧ _))))

theorem clean_startLive : (startLive a g).Clean ↔ Switchable a g ∧ g.Clean := by
  simp only [startLive, Switchable, Gst.clean_use, clean_initLive, initLive_pipeline, Gst.ref_use]
  by_cases hb : BinFails a
  · simp [hb]
  · by_cases hl : BinLinks a
    · simp [hb, hl]
      tauto
    · rcases (g.ref .pipeline).cases with hp | hp | hp <;> simp [hb, hl, hp]

/-- `setAll` releases the pipeline, if there is one, and goes on with it. -/
theorem clean_setAll : (setAll a g r).2.Clean ↔ Startable g ∧ g.Clean := by
  rw [setAll_snd, clean_initialize, clean_stopLive, clean_stopStreaming]
  have hb : (stopStreaming g r).2.ref .bin = g.ref .bin := by simp [stopStreaming]
  have hp : (stopStreaming g r).2.ref .pipeline =
      if g.ref .pipeline = .held then .released else g.ref .pipeline := by simp [stopStreaming]
  rw [hb, hp]
  rcases (g.ref .pipeline).cases with hp | hp | hp <;> simp [Stoppable, Startable, hp]
  tauto

/-- After a whole start nothing is released but the bus. -/
theorem setAll_refs {a : Call → Bool} (h : Initializes a) :
    (setAll a g r).2.ref .pipeline = .held ∧ (setAll a g r).2.ref .loop = .held ∧
      (setAll a g r).2.ref .bus = .released := by
  refine ⟨(setAll_of_initializes g r h).2.1, ?_⟩
  rw [setAll_snd]
  exact initialize_refs _ h

/-- A loop of stops that comes back to nothing it has released: it has been round once, or it ends
with the first stop, or there is nothing to stop. -/
def StopsOnce (rs : List ℕ) : Prop :=
  rs = [] ∨ (Stoppable g ∧ (rs.length = 1 ∨
    (g.ref .pipeline = .held ∧ rs.head? = some CHANGE_SUCCESS) ∨
      (g.ref .pipeline = .null ∧ g.ref .loop = .null)))

instance (rs : List ℕ) : Decidable (StopsOnce g rs) :=
  inferInstanceAs (Decidable (_ ∨ (_ ∧ (_ ∨ (_ ∧ _) ∨ (_ ∧ _)))))

theorem stopStreaming_ref (o : Obj) : (stopStreaming g r).2.ref o =
    if (o = .pipeline ∨ o = .loop) ∧ g.ref o = .held then .released else g.ref o := by
  cases o <;> simp [stopStreaming]

theorem stopAll_cons_of_success {r : ℕ} (rs : List ℕ)
    (h : (stopStreaming g r).1 = CHANGE_SUCCESS) :
    stopAll g (r :: rs) = ((stopStreaming g r).2, true) := by
  rw [stopAll, if_pos h]

theorem stopAll_cons_of_failure {r : ℕ} (rs : List ℕ)
    (h : (stopStreaming g r).1 ≠ CHANGE_SUCCESS) :
    stopAll g (r :: rs) = stopAll (stopStreaming g r).2 rs := by
  rw [stopAll, if_neg h]

theorem stopStreaming_fst : (stopStreaming g r).1 =
    if g.ref .pipeline = .null then CHANGE_FAILURE else r := rfl

theorem clean_stopAll (rs : List ℕ) : (stopAll g rs).1.Clean ↔ StopsOnce g rs ∧ g.Clean := by
  induction rs generalizing g with
  | nil => simp [stopAll, StopsOnce]
  | cons r rs ih =>
    have hr := stopStreaming_ref g r
    rcases (g.ref .pipeline).cases with hp | hp | hp
    · -- no pipeline: the loop goes on
      rw [stopAll_cons_of_failure g rs (by simp [stopStreaming_fst, hp]), ih, clean_stopStreaming]
      rcases (g.ref .loop).cases with hl | hl | hl <;> simp [StopsOnce, Stoppable, hr, hp, hl]
    · by_cases h1 : r = CHANGE_SUCCESS
      · rw [stopAll_cons_of_success g rs (by simpa [stopStreaming_fst, hp] using h1),
          clean_stopStreaming]
        simp [StopsOnce, hp, h1]
      · rw [stopAll_cons_of_failure g rs (by simpa [stopStreaming_fst, hp] using h1), ih,
          clean_stopStreaming]
        simp [StopsOnce, Stoppable, hr, hp, h1]
        tauto
    · have hs : ¬ Stoppable g := fun h => h.1 hp
      by_cases h1 : (stopStreaming g r).1 = CHANGE_SUCCESS
      · rw [stopAll_cons_of_success g rs h1, clean_stopStreaming]
        simp [StopsOnce, hs]
      · rw [stopAll_cons_of_failure g rs h1, ih, clean_stopStreaming]
        simp [StopsOnce, hs]

end Functions

/-! ### Careful steps -/

def CarefulLive (a : Answers) (c : Client) : Prop :=
  (c.status = lit "local" → Switchable a.ok c.gst) ∧
    (c.status = lit "ready" →
      Startable c.gst ∧ (Initializes a.ok → BinFails a.ok ∨ ¬ BinLinks a.ok))

def CarefulLocal (c : Client) : Prop :=
  (c.status = lit "live" → c.gst.ref .bin ≠ .released ∧ c.gst.ref .pipeline ≠ .released) ∧
    (c.status = lit "ready" → Startable c.gst)

/-- What a command needs. -/
def CarefulCmd (c : Client) (a : Answers) (act : Bytes) : Prop :=
  (act = lit "live" → CarefulLive a c) ∧ (act = lit "local" → CarefulLocal c) ∧
    (act = lit "off" → StopsOnce c.gst a.setState)

instance (a : Answers) (c : Client) : Decidable (CarefulLive a c) :=
  inferInstanceAs (Decidable ((_ → _) ∧ (_ → _ ∧ (_ → _))))

instance (c : Client) : Decidable (CarefulLocal c) :=
  inferInstanceAs (Decidable ((_ → _ ∧ _) ∧ (_ → _)))

instance (c : Client) (a : Answers) (act : Bytes) : Decidable (CarefulCmd c a act) :=
  inferInstanceAs (Decidable ((_ → _) ∧ (_ → _) ∧ (_ → _)))

/-- **What a step needs**, from the references before it and the answers: an end of stream, an
error and `SIGINT` need something that can be stopped, and a thread in `play` the object that it
comes to. -/
def Careful (s : Sys) : Ev → Prop
  | .msg text a => ∀ act ∈ commandOf s.c text, CarefulCmd s.c a act
  | .bus .eos _ => Stoppable s.c.gst
  | .bus .error _ => Stoppable s.c.gst
  | .bus .info _ => True
  | .bus .other _ => True
  | .sigint _ => Stoppable s.c.gst
  | .play i => Playable s.c.gst i

instance (s : Sys) : ∀ e, Decidable (Careful s e)
  | .msg _ _ => inferInstanceAs (Decidable (∀ act ∈ commandOf s.c _, _))
  | .bus .eos _ => inferInstanceAs (Decidable (Stoppable _))
  | .bus .error _ => inferInstanceAs (Decidable (Stoppable _))
  | .bus .info _ => isTrue trivial
  | .bus .other _ => isTrue trivial
  | .sigint _ => inferInstanceAs (Decidable (Stoppable _))
  | .play _ => inferInstanceAs (Decidable (Playable _ _))

section Commands
variable (a : Answers) (c : Client)

/-- After a whole start the bus is dropped: the live branch must not come to its end. -/
theorem clean_live_of_ready (hi : Initializes a.ok) :
    (startStreaming (initLive a.ok (setAll a.ok c.gst a.first).2).2).Clean ↔
      (BinFails a.ok ∨ ¬ BinLinks a.ok) ∧ Startable c.gst ∧ c.gst.Clean := by
  obtain ⟨hp, -, hb⟩ := setAll_refs c.gst a.first hi
  rw [clean_startStreaming, clean_initLive, clean_setAll, hp, hb]
  simp

theorem clean_live : (live a c).gst.Clean ↔ CarefulLive a c ∧ c.gst.Clean := by
  have hne : lit "ready" ≠ lit "local" := by decide
  unfold live CarefulLive
  by_cases hl : c.status = lit "local"
  · rw [if_pos hl, clean_startLive, hl]
    simp [hne.symm]
  by_cases hr : c.status = lit "ready"
  · rw [if_neg hl, if_pos hr, hr]
    by_cases hi : Initializes a.ok
    · rw [if_neg (by simpa using (setAll_eq_zero c.gst a.first).mpr hi), clean_live_of_ready a c hi]
      simp only [hne, hi, forall_const, false_imp_iff, true_and, and_assoc]
      exact and_left_comm
    · rw [if_pos (fun h => hi ((setAll_eq_zero c.gst a.first).mp h)), clean_setAll]
      simp [hne, hi]
  · rw [if_neg hl, if_neg hr]
    simp [hl, hr]

theorem clean_local : (local' a c).gst.Clean ↔ CarefulLocal c ∧ c.gst.Clean := by
  have hne : lit "ready" ≠ lit "live" := by decide
  unfold local' CarefulLocal
  by_cases hl : c.status = lit "live"
  · rw [if_pos hl, clean_stopLive, hl]
    simp [hne.symm]
  by_cases hr : c.status = lit "ready"
  · rw [if_neg hl, if_pos hr, hr]
    by_cases hi : Initializes a.ok
    · rw [if_neg (by simpa using (setAll_eq_zero c.gst a.first).mpr hi), clean_startStreaming,
        clean_setAll]
      simp [hne]
    · rw [if_pos (fun h => hi ((setAll_eq_zero c.gst a.first).mp h)), clean_setAll]
      simp [hne]
  · rw [if_neg hl, if_neg hr]
    simp [hl, hr]

variable {a c}

/-- **A command is clean if and only if it is careful.** -/
theorem clean_command {act : Bytes} {c' : Client}
    (h : command a c act = .handled c' ∨ command a c act = .stopping c') :
    c'.gst.Clean ↔ CarefulCmd c a act ∧ c.gst.Clean := by
  unfold command at h
  unfold CarefulCmd
  split_ifs at h with h1 h2 h3
  · obtain rfl : live a c = c' := by simpa using h
    rw [clean_live, h1]
    simp [show lit "live" ≠ lit "local" by decide, show lit "live" ≠ lit "off" by decide]
  · obtain rfl : local' a c = c' := by simpa using h
    rw [clean_local, h2]
    simp [show lit "local" ≠ lit "live" by decide, show lit "local" ≠ lit "off" by decide]
  · have hg : c'.gst = (stopAll c.gst a.setState).1 := by
      unfold off at h
      split_ifs at h <;> rcases h with h | h <;> cases h <;> rfl
    rw [hg, clean_stopAll, h3]
    simp [show lit "off" ≠ lit "live" by decide, show lit "off" ≠ lit "local" by decide]
  · obtain rfl : c = c' := by simpa using h
    simp [h1, h2, h3]

end Commands

/-- **A step is clean if and only if it is careful.** -/
theorem clean_step {s s' : Sys} {e : Ev} (h : step s e = some s') :
    s'.c.gst.Clean ↔ Careful s e ∧ s.c.gst.Clean := by
  cases e with
  | msg text a =>
    simp only [step] at h
    split_ifs at h with hp
    rcases hact : commandOf s.c text with _ | act
    · have hc : s'.c = s.c := by
        rcases receive_of_none a hact with hr | hr | hr <;> rw [hr] at h <;> cases h <;> rfl
      simp [hc, Careful, hact]
    · rw [receive_of_command a hact] at h
      have hc : command a s.c act = .handled s'.c ∨ command a s.c act = .stopping s'.c := by
        split at h
        · next hr => cases hr
        · next c hr =>
          cases h
          exact Or.inl (Option.some.inj hr)
        · next c hr =>
          cases h
          exact Or.inr (Option.some.inj hr)
        · next hr =>
          have := Option.some.inj hr
          unfold command off at this
          split_ifs at this
      rw [clean_command hc]
      simp [Careful, hact]
  | bus m r =>
    simp only [step] at h
    split_ifs at h
    cases h
    cases m with
    | eos => exact clean_stopStreaming s.c.gst r
    | error => exact clean_stopStreaming s.c.gst r
    | info => simp [Careful, busCall]
    | other => simp [Careful, busCall]
  | sigint r =>
    simp only [step] at h
    split_ifs at h
    cases h
    exact clean_stopStreaming s.c.gst r
  | play i =>
    obtain ⟨g, hg, rfl⟩ := step_play h
    exact clean_play hg

/-- **The references are clean after a run if and only if every step was careful.** -/
theorem clean_iff_careful {s s' : Sys} {es : List Ev} (hi : Initial s)
    (hr : run step s es = some s') : s'.c.gst.Clean ↔ Meets step Careful s es := by
  have hrun : ∀ (es : List Ev) (s : Sys), run step s es = some s' →
      (s'.c.gst.Clean ↔ Meets step Careful s es ∧ s.c.gst.Clean) := by
    intro es
    induction es with
    | nil =>
      intro s h
      simp only [run_nil, Option.some.injEq] at h
      simp [Meets, h]
    | cons e es ih =>
      intro s h
      obtain ⟨s1, h1, h2⟩ := run_cons_eq_some.mp h
      rw [ih s1 h2, clean_step h1]
      constructor
      · rintro ⟨hm, hc, hcl⟩
        exact ⟨⟨hc, fun s2 hs2 => Option.some.inj (h1.symm.trans hs2) ▸ hm⟩, hcl⟩
      · rintro ⟨⟨hc, hm⟩, hcl⟩
        exact ⟨hm s1 h1, hc, hcl⟩
  have h0 : s.c.gst.Clean := by
    rw [hi.2.1]
    exact Handles.clean_empty
  rw [hrun es s hr]
  exact and_iff_left h0

/-! ### A clean run, and one that is not -/

/-- A stream that is recorded, by a thread that comes to its loop, and turned off again. -/
theorem clean_iff_careful_local :
    ∃ s', run step start [cmd "local", .play 0, .play 0, .bus .info 0, cmd "off"] = some s' ∧
      s'.c.status = lit "ready" ∧ s'.c.gst.Clean := by
  have hst : (run step start [cmd "local", .play 0, .play 0, .bus .info 0, cmd "off"]).map
      (fun s => s.c.status) = some (lit "ready") := by decide +kernel
  obtain ⟨s', hr, he⟩ := Option.map_eq_some_iff.mp hst
  exact ⟨s', hr, he, (clean_iff_careful initial_start hr).mpr (by decide +kernel)⟩

/-- The stream is turned off before its thread comes to the pipeline. -/
example : (run step start [cmd "local", cmd "off", .play 0]).map (fun s => decide s.c.gst.Clean) =
    some false := by decide +kernel

/-- **The first command `live` releases the bus twice.** -/
theorem bus_released_twice :
    ¬ ∀ (s s' : Sys) (es : List Ev), Initial s → run step s es = some s' → s'.c.gst.Clean := by
  intro h
  have hout : (run step start [cmd "live"]).map (fun s => decide s.c.gst.Clean) = some false := by
    decide +kernel
  obtain ⟨s', hr, he⟩ := Option.map_eq_some_iff.mp hout
  exact of_decide_eq_false he (h start s' _ initial_start hr)

end LiveStreamer.StreamerClient.References
