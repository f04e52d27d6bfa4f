import Mathlib.Logic.Basic
import Mathlib.Tactic.Common

/-! # Programs over atomic operations

A program calls operations of an interface `Op`, where `o : Op` answers a `Ret o`, and may abort.
The same program has several meanings: `exec` runs it as one step against a state, and `step`
runs its next call only, so that programs of several threads can be interleaved.

* `exec_bind`: a sequence runs its parts one after the other.
* `exec_step`: one step does not change where a run without interference ends.
* `exec_congr`: a program depends on the operations it calls, and on no others.
* `exec_logged`: recording the operations called changes nothing else.
* `clean_iff`: what it takes for a run to complete with allowed calls only, call by call.
* `Wp.exec`: a program whose calls are all allowed, under allowed answers, ends without an abort
  and with the result that its weakest precondition `Wp` says. -/

namespace LiveStreamer.Lib.Program

/-- A program over the operations `Op`. -/
inductive Prog (Op : Type) (Ret : Op → Type) (α : Type) : Type where
  | ret (a : α)
  | call (o : Op) (k : Ret o → Prog Op Ret α)
  | abort

/-- The meaning of the operations on a state: no answer aborts the caller. -/
abbrev Sem (Op : Type) (Ret : Op → Type) (σ : Type) := (o : Op) → σ → Option (Ret o) × σ

namespace Prog

variable {Op : Type} {Ret : Op → Type} {α β σ : Type}

/-- Sequential composition. -/
def bind : Prog Op Ret α → (α → Prog Op Ret β) → Prog Op Ret β
  | ret a, f => f a
  | call o k, f => call o fun r => bind (k r) f
  | abort, _ => abort

instance : Monad (Prog Op Ret) where
  pure := ret
  bind := bind

/-- The program that calls `o` and answers what it answers. -/
def op (o : Op) : Prog Op Ret (Ret o) := call o ret

@[simp] theorem pure_eq (a : α) : (pure a : Prog Op Ret α) = ret a := rfl

@[simp] theorem ret_bind (a : α) (f : α → Prog Op Ret β) : (ret a >>= f) = f a := rfl

@[simp] theorem call_bind (o : Op) (k : Ret o → Prog Op Ret α) (f : α → Prog Op Ret β) :
    (call o k >>= f) = call o fun r => k r >>= f := rfl

@[simp] theorem abort_bind (f : α → Prog Op Ret β) :
    ((abort : Prog Op Ret α) >>= f) = abort := rfl

@[simp] theorem op_bind (o : Op) (f : Ret o → Prog Op Ret β) :
    ((op o : Prog Op Ret (Ret o)) >>= f) = call o f := rfl

instance : LawfulMonad (Prog Op Ret) := by
  refine LawfulMonad.mk' _ (fun p => ?_) (fun a f => rfl) (fun p f g => ?_)
  · induction p with
    | ret a => rfl
    | abort => rfl
    | call o k ih => exact congrArg (call o) (funext ih)
  · induction p with
    | ret a => rfl
    | abort => rfl
    | call o k ih => exact congrArg (call o) (funext ih)

/-! ### Running a program as one step -/

/-- Run a program to its end; no answer if it aborts. -/
def exec (sem : Sem Op Ret σ) : Prog Op Ret α → σ → Option α × σ
  | ret a, s => (some a, s)
  | abort, s => (none, s)
  | call o k, s =>
    match sem o s with
    | (some r, s') => exec sem (k r) s'
    | (none, s') => (none, s')

variable (sem : Sem Op Ret σ)

@[simp] theorem exec_ret (a : α) (s : σ) : exec sem (ret a : Prog Op Ret α) s = (some a, s) := rfl

@[simp] theorem exec_abort (s : σ) : exec sem (abort : Prog Op Ret α) s = (none, s) := rfl

theorem exec_call_some {o : Op} {k : Ret o → Prog Op Ret α} {s s' : σ} {r : Ret o}
    (h : sem o s = (some r, s')) : exec sem (call o k) s = exec sem (k r) s' := by
  simp only [exec, h]

theorem exec_call_none {o : Op} {k : Ret o → Prog Op Ret α} {s s' : σ}
    (h : sem o s = (none, s')) : exec sem (call o k) s = (none, s') := by
  simp only [exec, h]

theorem exec_op (o : Op) (s : σ) : exec sem (op o : Prog Op Ret (Ret o)) s = sem o s := by
  unfold op
  rcases h : sem o s with ⟨_ | r, s'⟩
  · rw [exec_call_none sem h]
  · rw [exec_call_some sem h, exec_ret]

/-- **A sequence runs its parts one after the other.** -/
theorem exec_bind (p : Prog Op Ret α) (f : α → Prog Op Ret β) (s : σ) :
    exec sem (p >>= f) s =
      match exec sem p s with
      | (some a, s') => exec sem (f a) s'
      | (none, s') => (none, s') := by
  induction p generalizing s with
  | ret a => rfl
  | abort => rfl
  | call o k ih =>
    rw [call_bind]
    rcases h : sem o s with ⟨_ | r, s'⟩
    · rw [exec_call_none sem h, exec_call_none sem h]
    · rw [exec_call_some sem h, exec_call_some sem h, ih]

theorem exec_bind_some {p : Prog Op Ret α} {f : α → Prog Op Ret β} {s s' : σ} {a : α}
    (h : exec sem p s = (some a, s')) : exec sem (p >>= f) s = exec sem (f a) s' := by
  rw [exec_bind, h]

/-! ### Running the next call only -/

/-- The operation a thread calls next. -/
def next : Prog Op Ret α → Option Op
  | call o _ => some o
  | _ => none

/-- One step of a thread: its next call, if it has one. -/
def step : Prog Op Ret α → σ → Option (Prog Op Ret α × σ)
  | ret _, _ => none
  | abort, _ => none
  | call o k, s =>
    match sem o s with
    | (some r, s') => some (k r, s')
    | (none, s') => some (abort, s')

theorem step_call_some {o : Op} {k : Ret o → Prog Op Ret α} {s s' : σ} {r : Ret o}
    (h : sem o s = (some r, s')) : step sem (call o k) s = some (k r, s') := by
  simp only [step, h]

theorem eq_of_step_call {o : Op} {k : Ret o → Prog Op Ret α} {p' : Prog Op Ret α} {s s' s1 : σ}
    {r : Ret o} (hs : step sem (call o k) s = some (p', s')) (h : sem o s = (some r, s1)) :
    p' = k r ∧ s' = s1 := by
  rw [step_call_some sem h] at hs
  cases hs
  exact ⟨rfl, rfl⟩

/-- What a step can do: it is a call, answered or aborting. -/
theorem step_cases {p p' : Prog Op Ret α} {s s' : σ} (h : step sem p s = some (p', s')) :
    ∃ o k, p = call o k ∧
      ((∃ r, sem o s = (some r, s') ∧ p' = k r) ∨ (sem o s = (none, s') ∧ p' = abort)) := by
  cases p with
  | ret a => simp [step] at h
  | abort => simp [step] at h
  | call o k =>
    refine ⟨o, k, rfl, ?_⟩
    rcases hs : sem o s with ⟨_ | r, s1⟩ <;> simp only [step, hs, Option.some.injEq,
      Prod.mk.injEq] at h
    · obtain ⟨rfl, rfl⟩ := h
      exact Or.inr ⟨rfl, rfl⟩
    · obtain ⟨rfl, rfl⟩ := h
      exact Or.inl ⟨r, rfl, rfl⟩

/-- The state after a step is the one its call leaves. -/
theorem step_snd {p p' : Prog Op Ret α} {s s' : σ} (h : step sem p s = some (p', s')) :
    ∃ o, p.next = some o ∧ (sem o s).2 = s' := by
  obtain ⟨o, k, rfl, ⟨r, hr, -⟩ | ⟨hr, -⟩⟩ := step_cases sem h
  · exact ⟨o, rfl, by rw [hr]⟩
  · exact ⟨o, rfl, by rw [hr]⟩

/-- A call can be taken. -/
theorem isSome_step {p : Prog Op Ret α} {o : Op} (h : p.next = some o) (s : σ) :
    (step sem p s).isSome = true := by
  cases p with
  | ret a => cases h
  | abort => cases h
  | call o k => rcases hs : sem o s with ⟨_ | r, s'⟩ <;> simp [step, hs]

/-! ### The calls of a program -/

/-- Every call of the program is allowed by `P`, whatever it is answered. -/
def Calls (P : Op → Prop) : Prog Op Ret α → Prop
  | ret _ => True
  | abort => True
  | call o k => P o ∧ ∀ r, Calls P (k r)

theorem Calls.bind {P : Op → Prop} {p : Prog Op Ret α} {f : α → Prog Op Ret β} (hp : Calls P p)
    (hf : ∀ a, Calls P (f a)) : Calls P (p >>= f) := by
  induction p with
  | ret a => exact hf a
  | abort => exact hp
  | call o k ih => exact ⟨hp.1, fun r => ih r (hp.2 r)⟩

/-- What is left after a step has no other calls. -/
theorem Calls.step {P : Op → Prop} {p p' : Prog Op Ret α} {s s' : σ} (hp : Calls P p)
    (h : Prog.step sem p s = some (p', s')) : Calls P p' := by
  obtain ⟨o, k, rfl, ⟨r, -, rfl⟩ | ⟨-, rfl⟩⟩ := step_cases sem h
  · exact hp.2 r
  · trivial

/-- **Two meanings that agree on the calls** of a program agree on the program. -/
theorem exec_congr {sem' : Sem Op Ret σ} {P : Op → Prop} (h : ∀ o s, P o → sem o s = sem' o s)
    {p : Prog Op Ret α} (hp : Calls P p) (s : σ) : exec sem p s = exec sem' p s := by
  induction p generalizing s with
  | ret a => rfl
  | abort => rfl
  | call o k ih =>
    obtain ⟨ho, hk⟩ := hp
    rcases hs : sem' o s with ⟨_ | r, s'⟩
    · rw [exec_call_none _ hs, exec_call_none _ ((h o s ho).trans hs)]
    · rw [exec_call_some _ hs, exec_call_some _ ((h o s ho).trans hs), ih r (hk r)]

/-! ### Recording the operations -/

/-- The meaning that also keeps the list of the operations called. -/
def logged (sem : Sem Op Ret σ) : Sem Op Ret (σ × List Op) := fun o s =>
  ((sem o s.1).1, (sem o s.1).2, s.2 ++ [o])

variable {sem} in
theorem exec_logged_some {o : Op} {k : Ret o → Prog Op Ret α} {s s' : σ} {r : Ret o}
    (h : sem o s = (some r, s')) (l : List Op) :
    exec (logged sem) (call o k) (s, l) = exec (logged sem) (k r) (s', l ++ [o]) := by
  have hl : logged sem o (s, l) = (some r, s', l ++ [o]) := by rw [logged, h]
  exact exec_call_some _ hl

/-- Recording the operations does not change what a program does. -/
theorem exec_logged (p : Prog Op Ret α) (s : σ) (l : List Op) :
    (exec (logged sem) p (s, l)).1 = (exec sem p s).1 ∧
      (exec (logged sem) p (s, l)).2.1 = (exec sem p s).2 := by
  induction p generalizing s l with
  | ret a => exact ⟨rfl, rfl⟩
  | abort => exact ⟨rfl, rfl⟩
  | call o k ih =>
    rcases h : sem o s with ⟨_ | r, s'⟩
    · have hl : logged sem o (s, l) = (none, s', l ++ [o]) := by rw [logged, h]
      rw [exec_call_none sem h, exec_call_none _ hl]
      exact ⟨rfl, rfl⟩
    · rw [exec_call_some sem h, exec_logged_some h]
      exact ih r s' _

/-- The calls are added to those recorded before. -/
theorem prefix_logged (p : Prog Op Ret α) (s : σ) (l : List Op) :
    l <+: (exec (logged sem) p (s, l)).2.2 := by
  induction p generalizing s l with
  | ret a => exact List.prefix_rfl
  | abort => exact List.prefix_rfl
  | call o k ih =>
    rcases h : sem o s with ⟨_ | r, s'⟩
    · have hl : logged sem o (s, l) = (none, s', l ++ [o]) := by rw [logged, h]
      rw [exec_call_none _ hl]
      exact List.prefix_append ..
    · rw [exec_logged_some h]
      exact (List.prefix_append l [o]).trans (ih r s' _)

/-! ### Runs with allowed calls only -/

/-- The run completes, `P` allows every call it makes, and `Q` holds of its result and the state
it leaves. -/
def Clean (P : Op → Prop) (Q : α → σ → Prop) : Prog Op Ret α → σ → Prop
  | ret a, s => Q a s
  | abort, _ => False
  | call o k, s => P o ∧
    match sem o s with
    | (some r, s') => Clean P Q (k r) s'
    | (none, _) => False

section Clean
variable {sem} {P : Op → Prop} {Q : α → σ → Prop} {o : Op} {k : Ret o → Prog Op Ret α} {s s' : σ}

theorem clean_call_some {r : Ret o} (h : sem o s = (some r, s')) :
    Clean sem P Q (call o k) s ↔ P o ∧ Clean sem P Q (k r) s' := by
  simp only [Clean, h]

theorem clean_call_none (h : sem o s = (none, s')) : ¬ Clean sem P Q (call o k) s := by
  simp only [Clean, h, and_false, not_false_eq_true]

/-- **Call by call**: the recorded run completes, and what is recorded is allowed. -/
theorem clean_iff {p : Prog Op Ret α} (l : List Op) : Clean sem P Q p s ↔
    ∃ a s' ops, exec (logged sem) p (s, l) = (some a, s', l ++ ops) ∧ (∀ o ∈ ops, P o) ∧
      Q a s' := by
  induction p generalizing s l with
  | ret a =>
    constructor
    · intro h
      exact ⟨a, s, [], by rw [List.append_nil]; rfl, fun o ho => absurd ho List.not_mem_nil, h⟩
    · rintro ⟨a', s', ops, hx, -, hQ⟩
      obtain ⟨ha, hs⟩ := Prod.mk.inj hx
      obtain ⟨rfl, -⟩ := Prod.mk.inj hs
      cases ha
      exact hQ
  | abort =>
    constructor
    · exact False.elim
    · rintro ⟨a', s', ops, hx, -⟩
      cases hx
  | call o k ih =>
    rcases h : sem o s with ⟨_ | r, s₁⟩
    · have hl : logged sem o (s, l) = (none, s₁, l ++ [o]) := by rw [logged, h]
      refine ⟨fun hc => absurd hc (clean_call_none h), ?_⟩
      rintro ⟨a, s', ops, hx, -⟩
      rw [exec_call_none _ hl] at hx
      cases hx
    · rw [clean_call_some h, exec_logged_some h, ih r (l ++ [o])]
      constructor
      · rintro ⟨ho, a, s', ops, hx, hP, hQ⟩
        refine ⟨a, s', o :: ops, ?_, List.forall_mem_cons.mpr ⟨ho, hP⟩, hQ⟩
        rw [hx, List.append_assoc]
        rfl
      · rintro ⟨a, s', ops, hx, hP, hQ⟩
        -- the call is the first one that is recorded
        obtain ⟨ops', hpre⟩ := prefix_logged sem (k r) s₁ (l ++ [o])
        rw [hx, List.append_assoc] at hpre
        obtain rfl : o :: ops' = ops := List.append_cancel_left hpre
        obtain ⟨ho, hP⟩ := List.forall_mem_cons.mp hP
        refine ⟨ho, a, s', ops', ?_, hP, hQ⟩
        rw [hx, List.append_assoc]
        rfl

end Clean

/-! ### Allowed calls and answers -/

variable {sem}

/-- Under answers allowed by `A`, every call of the program is allowed by `P`, it does not abort,
and `Q` holds of the calls made and the result. -/
def Wp (P : Op → Prop) (A : (o : Op) → Ret o → Prop) (Q : List Op → α → Prop) :
    Prog Op Ret α → List Op → Prop
  | ret a, ops => Q ops a
  | abort, _ => False
  | call o k, ops => P o ∧ ∀ r, A o r → Wp P A Q (k r) (ops ++ [o])

variable {P : Op → Prop} {A : (o : Op) → Ret o → Prop} {Q : List Op → α → Prop}

/-- **A program run in a state that gives allowed answers** ends as its weakest precondition
says, and keeps what every allowed operation keeps. -/
theorem Wp.exec {inv : σ → Prop}
    (hsem : ∀ o s, P o → inv s → ∃ r, (sem o s).1 = some r ∧ A o r ∧ inv (sem o s).2)
    {p : Prog Op Ret α} {s : σ} {l ops : List Op} (hs : inv s) (h : Wp P A Q p ops)
    (hP : ∀ o ∈ ops, P o) :
    ∃ a s' ops', exec (logged sem) p (s, l ++ ops) = (some a, s', l ++ ops') ∧ inv s' ∧
      Q ops' a ∧ ∀ o ∈ ops', P o := by
  induction p generalizing s ops with
  | ret a => exact ⟨a, s, ops, rfl, hs, h, hP⟩
  | abort => exact h.elim
  | call o k ih =>
    obtain ⟨ho, hk⟩ := h
    obtain ⟨r, hr, hA, hi⟩ := hsem o s ho hs
    have hlog : logged sem o (s, l ++ ops) = (some r, (sem o s).2, l ++ (ops ++ [o])) := by
      rw [logged, hr, List.append_assoc]
    rw [exec_call_some _ hlog]
    refine ih r hi (hk r hA) fun o' ho' => ?_
    rcases List.mem_append.mp ho' with h | h
    · exact hP o' h
    · rwa [List.mem_singleton.mp h]

/-- What is left after a step under allowed answers. -/
theorem Wp.step {p p' : Prog Op Ret α} {s s' : σ} {ops : List Op} (h : Wp P A Q p ops)
    (hsem : ∀ o, P o → ∃ r, (sem o s).1 = some r ∧ A o r) (hs : Prog.step sem p s = some (p', s')) :
    ∃ ops', Wp P A Q p' ops' := by
  obtain ⟨o, k, rfl, h'⟩ := step_cases sem hs
  obtain ⟨ho, hk⟩ := h
  obtain ⟨r, hr, hA⟩ := hsem o ho
  rcases h' with ⟨r', hr', rfl⟩ | ⟨hr', -⟩
  · rw [hr'] at hr
    cases hr
    exact ⟨_, hk _ hA⟩
  · rw [hr'] at hr
    cases hr

end Prog

end LiveStreamer.Lib.Program
