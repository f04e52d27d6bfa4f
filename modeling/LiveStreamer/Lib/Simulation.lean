import LiveStreamer.Lib.Run
import Mathlib.Data.List.Forall2

/-! # Simulations with outputs

A step of a system may put something out. `Simulates R` says that every step of the first system
from related states is answered by a step of the second one that puts out the same and ends in
related states, and `SimulatesBy R L` that the labels of the two steps are related as well. Then so
is every run (`Simulates.run`, `SimulatesBy.run`). -/

namespace LiveStreamer.Lib.Simulation

open LiveStreamer.Lib.Run

variable {σ τ ι κ β : Type*}

/-- What the steps of a run put out. -/
def outputs (step : σ → ι → Option σ) (out : σ → ι → List β) : σ → List ι → List β
  | _, [] => []
  | s, e :: es =>
    match step s e with
    | some s' => out s e ++ outputs step out s' es
    | none => []

variable {step₁ : σ → ι → Option σ} {out₁ : σ → ι → List β}
  {step₂ : τ → κ → Option τ} {out₂ : τ → κ → List β} {R : σ → τ → Prop}

theorem outputs_cons {s s' : σ} {e : ι} (h : step₁ s e = some s') (es : List ι) :
    outputs step₁ out₁ s (e :: es) = out₁ s e ++ outputs step₁ out₁ s' es := by
  simp only [outputs, h]

variable (step₁ out₁ step₂ out₂ R) in
/-- **A forward simulation.** -/
def Simulates : Prop := ∀ s t e s', R s t → step₁ s e = some s' →
  ∃ f t', step₂ t f = some t' ∧ R s' t' ∧ out₁ s e = out₂ t f

variable (step₁ out₁ step₂ out₂ R) in
/-- A forward simulation whose labels are related. -/
def SimulatesBy (L : ι → κ → Prop) : Prop := ∀ s t e s', R s t → step₁ s e = some s' →
  ∃ f t', L e f ∧ step₂ t f = some t' ∧ R s' t' ∧ out₁ s e = out₂ t f

/-- **A simulation carries over to whole runs**: related labels, and the same outputs. -/
theorem SimulatesBy.run {L : ι → κ → Prop} (h : SimulatesBy step₁ out₁ step₂ out₂ R L)
    {es : List ι} {s s' : σ} {t : τ} (hR : R s t) (hr : run step₁ s es = some s') :
    ∃ fs t', List.Forall₂ L es fs ∧ run step₂ t fs = some t' ∧ R s' t' ∧
      outputs step₁ out₁ s es = outputs step₂ out₂ t fs := by
  induction es generalizing s t with
  | nil =>
    cases Option.some.inj hr
    exact ⟨[], t, .nil, rfl, hR, rfl⟩
  | cons e es ih =>
    obtain ⟨s₁, h₁, hrest⟩ := run_cons_eq_some.mp hr
    obtain ⟨f, t₁, hL, ht, hR₁, hout⟩ := h s t e s₁ hR h₁
    obtain ⟨fs, t', hLs, hrun, hR', houts⟩ := ih hR₁ hrest
    refine ⟨f :: fs, t', .cons hL hLs, run_cons_eq_some.mpr ⟨t₁, ht, hrun⟩, hR', ?_⟩
    rw [outputs_cons h₁, outputs_cons ht, hout, houts]

/-- The same for any labels: as many steps. -/
theorem Simulates.run (h : Simulates step₁ out₁ step₂ out₂ R) {es : List ι} {s s' : σ} {t : τ}
    (hR : R s t) (hr : run step₁ s es = some s') : ∃ fs t', fs.length = es.length ∧
      run step₂ t fs = some t' ∧ R s' t' ∧
        outputs step₁ out₁ s es = outputs step₂ out₂ t fs := by
  have hby : SimulatesBy step₁ out₁ step₂ out₂ R fun _ _ => True := by
    intro s t e s' hR hs
    obtain ⟨f, t', ht, hR', hout⟩ := h s t e s' hR hs
    exact ⟨f, t', trivial, ht, hR', hout⟩
  obtain ⟨fs, t', hL, hrest⟩ := hby.run hR hr
  exact ⟨fs, t', hL.length_eq.symm, hrest⟩

end LiveStreamer.Lib.Simulation
