import LiveStreamer.Lib.Program
import LiveStreamer.Lib.Simulation

/-! # Threads over atomic operations

Requests come at any time, and each is served by a thread of its own, which runs a program. A step
takes the next operation of one thread; what it does may also depend on its environment. A thread
that aborts ends the process, and the process may be started anew at any time: then the threads are
gone, and the store is as they left it.

* `Guarantees P A Q`: a program whose operations are answered as `A` says calls only what `P`
  allows, and its result is as `Q` says.
* `inv_step`: an invariant of the store that the allowed operations keep, together with the answers
  it makes them give, is kept by the system.
* `Secure.step`: threads that are safe whatever the others do to the store in between stay so, and
  do not abort.
* `simulates`: if the operations over one store give the answers of those over another one, then
  so do the threads, in every interleaving. -/

namespace LiveStreamer.Lib.Threads

open LiveStreamer.Lib.Program LiveStreamer.Lib.Run LiveStreamer.Lib.Simulation

variable {Op : Type} {Ret : Op → Type} {α β σ τ ι κ Req : Type}

/-! ### Programs that rely on their answers -/

section Guarantees
variable {P : Op → Prop} {A : (o : Op) → Ret o → Prop} {Q : α → Prop} {R : β → Prop}

/-- Where its operations are answered as `A` says, the program calls only what `P` allows, and its
result is as `Q` says; it may abort. -/
def Guarantees (P : Op → Prop) (A : (o : Op) → Ret o → Prop) (Q : α → Prop) :
    Prog Op Ret α → Prop
  | .ret a => Q a
  | .abort => True
  | .call o k => P o ∧ ∀ r, A o r → Guarantees P A Q (k r)

theorem Guarantees.bind {p : Prog Op Ret α} {f : α → Prog Op Ret β} (hp : Guarantees P A Q p)
    (hf : ∀ a, Q a → Guarantees P A R (f a)) : Guarantees P A R (p >>= f) := by
  induction p with
  | ret a => exact hf a hp
  | abort => trivial
  | call o k ih => exact ⟨hp.1, fun r hr => ih r (hp.2 r hr)⟩

end Guarantees

/-! ### The system -/

/-- A store, and what is left of the program of each thread. -/
structure Sys (Op : Type) (Ret : Op → Type) (α σ : Type) where
  store : σ
  threads : List (Prog Op Ret α)

/-- The program has aborted. -/
def aborted : Prog Op Ret α → Bool
  | .abort => true
  | _ => false

/-- No thread has ended the process. -/
def Sys.up (s : Sys Op Ret α σ) : Bool := s.threads.all fun p => !aborted p

inductive Lbl (Req ι : Type) where
  | start (req : Req)
  /-- The next operation of a thread, in the environment `e`. -/
  | step (i : ℕ) (e : ι)
  | restart

/-- The same label in related environments. -/
inductive LblRel (E : ι → κ → Prop) : Lbl Req ι → Lbl Req κ → Prop where
  | start (req : Req) : LblRel E (.start req) (.start req)
  | step (i : ℕ) {e : ι} {f : κ} (h : E e f) : LblRel E (.step i e) (.step i f)
  | restart : LblRel E .restart .restart

theorem LblRel.eq {l m : Lbl Req ι} (h : LblRel Eq l m) : l = m := by
  cases h with
  | start req => rfl
  | step i h => rw [h]
  | restart => rfl

/-- What can be seen of a step: an operation of a thread is seen with its answer. -/
inductive Ev (Op : Type) (Ret : Op → Type) (Req : Type) where
  | started (req : Req)
  | called (i : ℕ) (o : Op) (r : Option (Ret o))
  | restarted

/-- What is left of a thread after its operation. -/
def resume {o : Op} (k : Ret o → Prog Op Ret α) : Option (Ret o) → Prog Op Ret α
  | some r => k r
  | none => .abort

section System
variable (sem : ι → Sem Op Ret σ) (prog : Req → Prog Op Ret α)

def step (s : Sys Op Ret α σ) : Lbl Req ι → Option (Sys Op Ret α σ)
  | .start req => if s.up then some { s with threads := s.threads ++ [prog req] } else none
  | .step i e =>
    if s.up then
      match s.threads[i]? with
      | some (.call o k) =>
        some ⟨(sem e o s.store).2, s.threads.set i (resume k (sem e o s.store).1)⟩
      | _ => none
    else none
  | .restart => some { s with threads := [] }

def out (s : Sys Op Ret α σ) : Lbl Req ι → List (Ev Op Ret Req)
  | .start req => [.started req]
  | .step i e =>
    match s.threads[i]? with
    | some (.call o _) => [.called i o (sem e o s.store).1]
    | _ => []
  | .restart => [.restarted]

end System

section Steps
variable {sem : ι → Sem Op Ret σ} {prog : Req → Prog Op Ret α} {s s' : Sys Op Ret α σ}

/-- **What a step can do.** -/
theorem step_cases {l : Lbl Req ι} (h : step sem prog s l = some s') :
    (∃ req, l = .start req ∧ s.up = true ∧ s' = ⟨s.store, s.threads ++ [prog req]⟩) ∨
      (∃ i e o k, l = .step i e ∧ s.up = true ∧ s.threads[i]? = some (.call o k) ∧
        s' = ⟨(sem e o s.store).2, s.threads.set i (resume k (sem e o s.store).1)⟩) ∨
      l = .restart ∧ s' = ⟨s.store, []⟩ := by
  cases l with
  | start req =>
    simp only [step, Option.ite_none_right_eq_some, Option.some.injEq] at h
    exact Or.inl ⟨req, rfl, h.1, h.2.symm⟩
  | step i e =>
    simp only [step, Option.ite_none_right_eq_some] at h
    obtain ⟨hup, h⟩ := h
    split at h
    · next o k hi =>
      cases h
      exact Or.inr (Or.inl ⟨i, e, o, k, rfl, hup, hi, rfl⟩)
    · cases h
  | restart =>
    cases h
    exact Or.inr (Or.inr ⟨rfl, rfl⟩)

/-- The next operation of a thread can be taken while the process is up. -/
theorem step_call {i : ℕ} (e : ι) {o : Op} {k : Ret o → Prog Op Ret α} (hup : s.up = true)
    (hi : s.threads[i]? = some (.call o k)) : step sem prog s (.step i e) =
      some ⟨(sem e o s.store).2, s.threads.set i (resume k (sem e o s.store).1)⟩ := by
  simp only [step, hup, if_true, hi]

theorem out_call {i : ℕ} (e : ι) {o : Op} {k : Ret o → Prog Op Ret α}
    (hi : s.threads[i]? = some (.call o k)) :
    out sem s (.step i e : Lbl Req ι) = [.called i o (sem e o s.store).1] := by
  simp only [out, hi]

variable {P : Op → Prop} {A : (o : Op) → Ret o → Prop} {Q : α → Prop}

/-- A thread after its operation. -/
theorem Guarantees.resume {o : Op} {k : Ret o → Prog Op Ret α} {r : Option (Ret o)}
    (h : Guarantees P A Q (.call o k)) (hr : ∀ a, r = some a → A o a) :
    Guarantees P A Q (resume k r) := by
  cases r with
  | none => trivial
  | some a => exact h.2 a (hr a rfl)

/-- The threads after the operation of one of them. -/
theorem guarantees_set {ps : List (Prog Op Ret α)} {p' : Prog Op Ret α}
    (h : ∀ p ∈ ps, Guarantees P A Q p) (h' : Guarantees P A Q p') (i : ℕ) :
    ∀ p ∈ ps.set i p', Guarantees P A Q p := by
  intro p hp
  rcases List.mem_or_eq_of_mem_set hp with hp | rfl
  · exact h p hp
  · exact h'

theorem guarantees_start {ps : List (Prog Op Ret α)} {p' : Prog Op Ret α}
    (h : ∀ p ∈ ps, Guarantees P A Q p) (h' : Guarantees P A Q p') :
    ∀ p ∈ ps ++ [p'], Guarantees P A Q p := by
  intro p hp
  rcases List.mem_append.mp hp with hp | hp
  · exact h p hp
  · rwa [List.mem_singleton.mp hp]

/-! ### Invariants -/

variable {J : σ → Prop}

variable (P A J) in
/-- The store keeps `J`, and the threads their guarantees. -/
structure Inv (s : Sys Op Ret α σ) : Prop where
  store : J s.store
  threads : ∀ p ∈ s.threads, Guarantees P A (fun _ => True) p

/-- **What the allowed operations keep** is kept by every step whose request, if it starts one,
keeps its guarantees. -/
theorem inv_step (hsem : ∀ e o s, J s → P o → J (sem e o s).2 ∧ ∀ r, (sem e o s).1 = some r → A o r)
    {l : Lbl Req ι} (hprog : ∀ req, l = .start req → Guarantees P A (fun _ => True) (prog req))
    (hi : Inv P A J s) (hs : step sem prog s l = some s') : Inv P A J s' := by
  rcases step_cases hs with ⟨req, rfl, -, rfl⟩ | ⟨i, e, o, k, rfl, -, ht, rfl⟩ | ⟨-, rfl⟩
  · exact ⟨hi.store, guarantees_start hi.threads (hprog req rfl)⟩
  · have hp := hi.threads _ (List.mem_of_getElem? ht)
    obtain ⟨hJ, hA⟩ := hsem e o s.store hi.store hp.1
    exact ⟨hJ, guarantees_set hi.threads (hp.resume hA) i⟩
  · exact ⟨hi.store, fun p hp => absurd hp List.not_mem_nil⟩

/-! ### Simulation -/

variable {sem₂ : κ → Sem Op Ret τ} {R : σ → τ → Prop} {E : ι → κ → Prop}

variable (P A R) in
/-- The same threads over related stores. -/
structure Related (s : Sys Op Ret α σ) (t : Sys Op Ret α τ) : Prop where
  store : R s.store t.store
  threads : t.threads = s.threads
  guarantees : ∀ p ∈ s.threads, Guarantees P A (fun _ => True) p

/-- **The same answers, the same threads.** -/
theorem simulates (hsem : ∀ e o s t, R s t → P o → ∃ f, E e f ∧ (sem₂ f o t).1 = (sem e o s).1 ∧
      R (sem e o s).2 (sem₂ f o t).2 ∧ ∀ r, (sem e o s).1 = some r → A o r)
    (hprog : ∀ req, Guarantees P A (fun _ => True) (prog req)) :
    SimulatesBy (step sem prog) (out sem) (step sem₂ prog) (out sem₂) (Related P A R)
      (LblRel E) := by
  rintro s t l s' ⟨hR, hthreads, hguar⟩ hs
  have hup : t.up = s.up := by rw [Sys.up, Sys.up, hthreads]
  rcases step_cases hs with ⟨req, rfl, hu, rfl⟩ | ⟨i, e, o, k, rfl, hu, ht, rfl⟩ | ⟨rfl, rfl⟩
  · refine ⟨.start req, ⟨t.store, t.threads ++ [prog req]⟩, .start req, ?_,
      ⟨hR, by rw [hthreads], ?_⟩, rfl⟩
    · rw [step, hup, hu, if_pos rfl]
    · exact guarantees_start hguar (hprog req)
  · have hp := hguar _ (List.mem_of_getElem? ht)
    obtain ⟨f, hE, hans, hR', hA⟩ := hsem e o s.store t.store hR hp.1
    rw [← hthreads] at ht
    refine ⟨.step i f, _, .step i hE, step_call f (hup.trans hu) ht, ⟨hR', ?_, ?_⟩, ?_⟩
    · rw [hans, hthreads]
    · exact guarantees_set hguar (hp.resume hA) i
    · rw [out_call f ht, hans]
      exact out_call e (hthreads ▸ ht)
  · exact ⟨.restart, ⟨t.store, []⟩, .restart, rfl,
      ⟨hR, rfl, fun p hp => absurd hp List.not_mem_nil⟩, rfl⟩

end Steps

/-! ### Threads that do not abort -/

section Safe
variable {sem : ι → Sem Op Ret σ} {prog : Req → Prog Op Ret α} {J : σ → Prop}
  {le : σ → σ → Prop} {ok : ι → Op → σ → Prop} {Q : α → σ → Prop} {R : β → σ → Prop}

variable (sem J le ok) in
/-- From every later store that keeps `J`, where its operations come when `ok` allows them, the
program is answered, keeps `J`, and does not abort; `Q` holds of its result and the store at its
end. -/
def Safe (Q : α → σ → Prop) : Prog Op Ret α → σ → Prop
  | .ret a, s => Q a s
  | .abort, _ => False
  | .call o k, s => ∀ e s', le s s' → J s' → ok e o s' → ∃ r, (sem e o s').1 = some r ∧
      J (sem e o s').2 ∧ le s' (sem e o s').2 ∧ Safe Q (k r) (sem e o s').2

theorem Safe.bind {p : Prog Op Ret α} {f : α → Prog Op Ret β} {s : σ}
    (hp : Safe sem J le ok Q p s) (hf : ∀ a s', Q a s' → Safe sem J le ok R (f a) s') :
    Safe sem J le ok R (p >>= f) s := by
  induction p generalizing s with
  | ret a => exact hf a s hp
  | abort => exact hp.elim
  | call o k ih =>
    intro e s' hle hJ hok
    obtain ⟨r, hr, hJ', hle', hk⟩ := hp e s' hle hJ hok
    exact ⟨r, hr, hJ', hle', ih r hk⟩

/-- A safe program stays safe while others work. -/
theorem Safe.later (htrans : ∀ a b c, le a b → le b c → le a c) {p : Prog Op Ret α} {s s' : σ}
    (hp : Safe sem J le ok (fun _ _ => True) p s) (hle : le s s') :
    Safe sem J le ok (fun _ _ => True) p s' := by
  cases p with
  | ret a => trivial
  | abort => exact hp.elim
  | call o k => exact fun e s'' hle' => hp e s'' (htrans _ _ _ hle hle')

variable (sem J le ok) in
/-- The store keeps `J`, and all threads are safe. -/
structure Secure (s : Sys Op Ret α σ) : Prop where
  store : J s.store
  threads : ∀ p ∈ s.threads, Safe sem J le ok (fun _ _ => True) p s.store

theorem Secure.up {s : Sys Op Ret α σ} (h : Secure sem J le ok s) : s.up = true := by
  refine List.all_eq_true.mpr fun p hp => ?_
  have hsafe := h.threads p hp
  cases p with
  | abort => exact hsafe.elim
  | _ => rfl

/-- **Safe threads stay safe** if their operations come when they are allowed. -/
theorem Secure.step (hrefl : ∀ a, le a a) (htrans : ∀ a b c, le a b → le b c → le a c)
    {s s' : Sys Op Ret α σ} {l : Lbl Req ι}
    (hprog : ∀ req, l = .start req → Safe sem J le ok (fun _ _ => True) (prog req) s.store)
    (hok : ∀ i e o k, l = .step i e → s.threads[i]? = some (.call o k) → ok e o s.store)
    (h : Secure sem J le ok s) (hs : step sem prog s l = some s') :
    Secure sem J le ok s' ∧ le s.store s'.store := by
  rcases step_cases hs with ⟨req, rfl, -, rfl⟩ | ⟨i, e, o, k, rfl, -, ht, rfl⟩ | ⟨-, rfl⟩
  · refine ⟨⟨h.store, fun p hp => ?_⟩, hrefl _⟩
    rcases List.mem_append.mp hp with hp | hp
    · exact h.threads p hp
    · rw [List.mem_singleton.mp hp]
      exact hprog req rfl
  · obtain ⟨r, hr, hJ, hle, hk⟩ := h.threads _ (List.mem_of_getElem? ht) e s.store (hrefl _)
      h.store (hok i e o k rfl ht)
    refine ⟨⟨hJ, fun p hp => ?_⟩, hle⟩
    rcases List.mem_or_eq_of_mem_set hp with hp | rfl
    · have hsafe := h.threads p hp
      exact hsafe.later htrans hle
    · rw [hr]
      exact hk
  · exact ⟨⟨h.store, fun p hp => absurd hp List.not_mem_nil⟩, hrefl _⟩

end Safe

end LiveStreamer.Lib.Threads
