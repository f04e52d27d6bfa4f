import Mathlib.Logic.Basic
import Mathlib.Tactic.Common

/-! # Runs of a labelled transition system

A system is a partial step function `step : σ → ι → Option σ`; `run` takes a list of labels.
`Meets ok` says that each label of a run is allowed by `ok` in the state it is taken from. An
invariant that every allowed step keeps holds after every run whose steps are all allowed
(`Meets.inv`); a state is `Reachable` if some run from an initial state ends in it. -/

namespace LiveStreamer.Lib.Run

variable {σ ι : Type*}

/-- Take the labels one after the other; no state if one cannot be taken. -/
def run (step : σ → ι → Option σ) (s : σ) : List ι → Option σ
  | [] => some s
  | e :: es => (step s e).bind fun s' => run step s' es

/-- Every label of the run is allowed in the state it is taken from. -/
def Meets (step : σ → ι → Option σ) (ok : σ → ι → Prop) (s : σ) : List ι → Prop
  | [] => True
  | e :: es => ok s e ∧ ∀ s', step s e = some s' → Meets step ok s' es

/-- Some run from an initial state ends in `s`. -/
def Reachable (step : σ → ι → Option σ) (init : σ → Prop) (s : σ) : Prop :=
  ∃ s₀ es, init s₀ ∧ run step s₀ es = some s

variable {step : σ → ι → Option σ}

@[simp] theorem run_nil (s : σ) : run step s [] = some s := rfl

theorem run_cons_eq_some {s s' : σ} {e : ι} {es : List ι} :
    run step s (e :: es) = some s' ↔ ∃ s1, step s e = some s1 ∧ run step s1 es = some s' := by
  simp only [run, Option.bind_eq_some_iff]

theorem run_append (s : σ) (es fs : List ι) :
    run step s (es ++ fs) = (run step s es).bind fun s' => run step s' fs := by
  induction es generalizing s with
  | nil => rfl
  | cons e es ih =>
    simp only [List.cons_append, run]
    rcases step s e with _ | s1
    · rfl
    · simpa using ih s1

/-- The first part of an allowed run is allowed. -/
theorem Meets.of_append {ok : σ → ι → Prop} {s : σ} {es fs : List ι}
    (h : Meets step ok s (es ++ fs)) :
    Meets step ok s es ∧ ∀ s', run step s es = some s' → Meets step ok s' fs := by
  induction es generalizing s with
  | nil => exact ⟨trivial, fun s' hs => Option.some.inj hs ▸ h⟩
  | cons e es ih =>
    obtain ⟨ho, hm⟩ := h
    refine ⟨⟨ho, fun s1 h1 => (ih (hm s1 h1)).1⟩, fun s' hs => ?_⟩
    obtain ⟨s1, h1, h2⟩ := run_cons_eq_some.mp hs
    exact (ih (hm s1 h1)).2 s' h2

/-- Labels that are allowed in every state. -/
theorem meets_of_forall {ok : σ → ι → Prop} (s : σ) {es : List ι} (h : ∀ e ∈ es, ∀ s, ok s e) :
    Meets step ok s es := by
  induction es generalizing s with
  | nil => trivial
  | cons e es ih =>
    exact ⟨h e (List.mem_cons_self ..) s, fun s' _ => ih s' fun e he => h e (.tail _ he)⟩

instance Meets.decidable (step : σ → ι → Option σ) (ok : σ → ι → Prop)
    [∀ s e, Decidable (ok s e)] : ∀ s es, Decidable (Meets step ok s es)
  | _, [] => isTrue trivial
  | s, e :: es =>
    match h : step s e with
    | none => decidable_of_iff (ok s e) ⟨fun ho => ⟨ho, by simp [h]⟩, And.left⟩
    | some s1 =>
      have := Meets.decidable step ok s1 es
      decidable_of_iff (ok s e ∧ Meets step ok s1 es)
        ⟨fun ⟨h1, h2⟩ => ⟨h1, fun s' hs => Option.some.inj (h.symm.trans hs) ▸ h2⟩,
          fun ⟨h1, h2⟩ => ⟨h1, h2 s1 h⟩⟩

/-- **The invariant rule**: what every allowed step keeps holds after every allowed run. -/
theorem Meets.inv {ok : σ → ι → Prop} {inv : σ → Prop}
    (hstep : ∀ s e s', inv s → ok s e → step s e = some s' → inv s') :
    ∀ {es : List ι} {s s' : σ}, Meets step ok s es → inv s → run step s es = some s' → inv s'
  | [], s, s', _, hs, hr => by
    simp only [run_nil, Option.some.injEq] at hr
    exact hr ▸ hs
  | e :: es, s, s', hm, hs, hr => by
    obtain ⟨s1, h1, h2⟩ := run_cons_eq_some.mp hr
    exact Meets.inv hstep (hm.2 s1 h1) (hstep s e s1 hs hm.1 h1) h2

/-- The invariant rule for a system whose steps are all allowed. -/
theorem inv_of_run {inv : σ → Prop} (hstep : ∀ s e s', inv s → step s e = some s' → inv s')
    {es : List ι} {s s' : σ} (hs : inv s) (hr : run step s es = some s') : inv s' := by
  have hm : Meets step (fun _ _ => True) s es := meets_of_forall s fun _ _ _ => trivial
  exact hm.inv (fun s e s' hs _ => hstep s e s' hs) hs hr

theorem Reachable.inv {init inv : σ → Prop} (h0 : ∀ s, init s → inv s)
    (hstep : ∀ s e s', inv s → step s e = some s' → inv s') {s : σ}
    (h : Reachable step init s) : inv s := by
  obtain ⟨s₀, es, hi, hr⟩ := h
  exact inv_of_run hstep (h0 s₀ hi) hr

theorem Reachable.init {init : σ → Prop} {s : σ} (h : init s) : Reachable step init s :=
  ⟨s, [], h, rfl⟩

theorem Reachable.next {init : σ → Prop} {s s' : σ} {e : ι} (h : Reachable step init s)
    (hs : step s e = some s') : Reachable step init s' := by
  obtain ⟨s₀, es, hi, hr⟩ := h
  refine ⟨s₀, es ++ [e], hi, ?_⟩
  rw [run_append, hr]
  simp [run, hs]

end LiveStreamer.Lib.Run
