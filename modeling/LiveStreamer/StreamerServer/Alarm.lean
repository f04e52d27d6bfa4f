import LiveStreamer.StreamerServer.Records

/-! # When the sweep runs (`main` of `main.c`)

After a first sweep `main` sets `trig`, asks for an alarm in half a minute, and sleeps until `trig`
is 0 again; the handler of `SIGALRM` is the sweep, which sets `trig` to 0 when it has closed the
directory. The loop, the alarm and the handlers of the server take their steps in any order; the
sleep may end at any time.

The loop and the alarm go through the stages of `Stage` (`at_step`), so no sweep begins before the
last one has ended (`one_sweep`). A sweep that cannot open the directory returns with `trig` at 1,
and there is no sweep after it; without such a failure the next one can always come, if the
operations of the store are whole and do not fail (`sweeps_iff`). `SIGINT` ends the process and is
left out. -/

namespace LiveStreamer.StreamerServer.Alarm

open LiveStreamer.Lib.CString LiveStreamer.Lib.PathName LiveStreamer.Lib.Program
open LiveStreamer.Lib.Program.Prog LiveStreamer.Lib.Run LiveStreamer.Lib.Tokener
open LiveStreamer.StreamerServer.SrvrJson LiveStreamer.StreamerServer.Handlers
open LiveStreamer.StreamerServer.Records

/-! ### The loop -/

/-- Where `main` is. -/
inductive Pc where
  /-- Before `trig = 1`. -/
  | trig
  | signal
  | alarm
  /-- Before the test of `while (trig)`. -/
  | wait
  | sleep
  deriving DecidableEq

structure Sys where
  pc : Pc
  trig : Bool
  /-- `signal` has been called. -/
  handled : Bool
  /-- An alarm is pending. -/
  alarm : Bool
  /-- The handler that is the sweep of the last alarm, until it has closed the directory. -/
  sweeping : Option ℕ
  server : Handlers.Sys

inductive Lbl where
  /-- The next statement of the loop. -/
  | main
  /-- The signal comes, and `opendir` succeeds or not. -/
  | alarm (opened : Bool)
  /-- The sweep has read the last entry. -/
  | closedir
  | server (l : Handlers.Lbl)

/-- After the first sweep, of an empty directory. -/
def init : Sys := ⟨.trig, false, false, false, none, .init⟩

section System
variable (sem : Sem FileOp FileRet Fs)

/-- A statement of the loop. -/
def main (s : Sys) : Sys :=
  match s.pc with
  | .trig => { s with pc := .signal, trig := true }
  | .signal => { s with pc := .alarm, handled := true }
  | .alarm => { s with pc := .wait, alarm := true }
  | .wait => { s with pc := if s.trig then .sleep else .trig }
  | .sleep => { s with pc := .wait }

def step (s : Sys) : Lbl → Option Sys
  | .main => some (main s)
  | .alarm opened =>
    if s.alarm = true ∧ s.handled = true then
      if opened then
        (Handlers.step sem s.server .sweep).map fun server =>
          { s with alarm := false, sweeping := some s.server.handlers.length, server }
      -- `trigger` returns, and `trig` is still 1
      else some { s with alarm := false }
    else none
  | .closedir =>
    match s.sweeping.bind fun i => s.server.handlers[i]? with
    | some (.sweep []) => some { s with trig := false, sweeping := none }
    | _ => none
  | .server .sweep => none
  | .server l => (Handlers.step sem s.server l).map fun server => { s with server }

end System

/-- The labels of the server that a label stands for. -/
def serverLbls : Lbl → List Handlers.Lbl
  | .alarm true => [.sweep]
  | .server l => [l]
  | _ => []

/-! ### The stages -/

/-- What the loop and the alarm do for one another. -/
inductive Stage where
  /-- The loop is on its way to the alarm. -/
  | arming
  | armed
  | sweeping
  /-- `trig` is 0, and the loop has not seen it. -/
  | swept
  /-- Nothing will set `trig` to 0 again. -/
  | lost
  deriving DecidableEq

/-- The loop waits for `trig` to be 0. -/
def Waits (s : Sys) : Prop := s.pc = .wait ∨ s.pc = .sleep

def At (s : Sys) : Stage → Prop
  | .arming => s.alarm = false ∧ s.sweeping = none ∧
      (s.pc = .trig ∨ s.pc = .signal ∧ s.trig = true ∨
        s.pc = .alarm ∧ s.trig = true ∧ s.handled = true)
  | .armed => s.alarm = true ∧ s.sweeping = none ∧ s.trig = true ∧ s.handled = true ∧ Waits s
  | .sweeping => s.alarm = false ∧ s.sweeping.isSome = true ∧ s.trig = true ∧ Waits s
  | .swept => s.alarm = false ∧ s.sweeping = none ∧ s.trig = false ∧ Waits s
  | .lost => s.alarm = false ∧ s.sweeping = none ∧ s.trig = true ∧ Waits s

/-- Where a label leads from a stage. -/
def Stage.Next : Stage → Lbl → Stage → Prop
  | .arming, .main, g => g = .arming ∨ g = .armed
  | .swept, .main, g => g = .swept ∨ g = .arming
  | .armed, .alarm opened, g => g = if opened then .sweeping else .lost
  | .sweeping, .closedir, g => g = .swept
  | g, .main, g' => g' = g
  | g, .server _, g' => g' = g
  | _, .alarm _, _ => False
  | _, .closedir, _ => False

section Stages
variable {sem : Sem FileOp FileRet Fs} {s s' : Sys} {g : Stage} {l : Lbl}

theorem step_server {l : Handlers.Lbl} (hs : step sem s (.server l) = some s') :
    l ≠ .sweep ∧ ∃ server, Handlers.step sem s.server l = some server ∧ s' = { s with server } := by
  cases l with
  | sweep => cases hs
  | report g msg =>
    cases hs
    exact ⟨by simp, _, rfl, rfl⟩
  | request str =>
    cases hs
    exact ⟨by simp, _, rfl, rfl⟩
  | step i =>
    simp only [step] at hs
    obtain ⟨server, hx, rfl⟩ := Option.map_eq_some_iff.mp hs
    exact ⟨by simp, server, hx, rfl⟩

theorem at_init : At init .arming := ⟨rfl, rfl, Or.inl rfl⟩

/-- A statement of the loop in a stage. -/
theorem at_main (h : At s g) : ∃ g', At (main s) g' ∧ g.Next .main g' := by
  cases g with
  | arming =>
    obtain ⟨ha, hs, hpc | ⟨hpc, ht⟩ | ⟨hpc, ht, hh⟩⟩ := h
    · exact ⟨.arming, by simp [main, hpc, At, ha, hs], Or.inl rfl⟩
    · exact ⟨.arming, by simp [main, hpc, At, ha, hs, ht], Or.inl rfl⟩
    · exact ⟨.armed, by simp [main, hpc, At, hs, ht, hh, Waits], Or.inr rfl⟩
  | armed =>
    obtain ⟨ha, hs, ht, hh, hpc | hpc⟩ := h <;>
      exact ⟨.armed, by simp [main, hpc, At, ha, hs, ht, hh, Waits], rfl⟩
  | sweeping =>
    obtain ⟨ha, hs, ht, hpc | hpc⟩ := h <;>
      exact ⟨.sweeping, by simp [main, hpc, At, ha, hs, ht, Waits], rfl⟩
  | swept =>
    obtain ⟨ha, hs, ht, hpc | hpc⟩ := h
    · exact ⟨.arming, by simp [main, hpc, At, ha, hs, ht], Or.inr rfl⟩
    · exact ⟨.swept, by simp [main, hpc, At, ha, hs, ht, Waits], Or.inl rfl⟩
  | lost =>
    obtain ⟨ha, hs, ht, hpc | hpc⟩ := h <;>
      exact ⟨.lost, by simp [main, hpc, At, ha, hs, ht, Waits], rfl⟩

@[simp] theorem server_main (s : Sys) : (main s).server = s.server := by
  unfold main
  split <;> rfl

@[simp] theorem sweeping_main (s : Sys) : (main s).sweeping = s.sweeping := by
  unfold main
  split <;> rfl

/-- What the server does is no matter for the stage. -/
theorem at_server (h : At s g) (server : Handlers.Sys) : At { s with server } g := by
  cases g <;> exact h

/-- Only an armed alarm comes. -/
theorem armed_of_alarm (h : At s g) (ha : s.alarm = true) : g = .armed := by
  cases g with
  | armed => rfl
  | arming => exact absurd (ha.symm.trans h.1) (by decide)
  | sweeping => exact absurd (ha.symm.trans h.1) (by decide)
  | swept => exact absurd (ha.symm.trans h.1) (by decide)
  | lost => exact absurd (ha.symm.trans h.1) (by decide)

theorem sweeping_of_isSome (h : At s g) (hs : s.sweeping.isSome = true) : g = .sweeping := by
  cases g with
  | sweeping => rfl
  | arming => simp [h.2.1] at hs
  | armed => simp [h.2.1] at hs
  | swept => simp [h.2.1] at hs
  | lost => simp [h.2.1] at hs

/-- **The loop and the alarm go from stage to stage.** -/
theorem at_step (h : At s g) (hs : step sem s l = some s') : ∃ g', At s' g' ∧ g.Next l g' := by
  cases l with
  | main =>
    cases hs
    exact at_main h
  | alarm opened =>
    simp only [step] at hs
    split_ifs at hs with ha hopen
    · obtain rfl := armed_of_alarm h ha.1
      obtain ⟨-, -, ht, -, hw⟩ := h
      obtain ⟨server, -, rfl⟩ := Option.map_eq_some_iff.mp hs
      exact ⟨.sweeping, ⟨rfl, rfl, ht, hw⟩, (if_pos hopen).symm⟩
    · obtain rfl := armed_of_alarm h ha.1
      obtain ⟨-, hn, ht, -, hw⟩ := h
      cases hs
      exact ⟨.lost, ⟨rfl, hn, ht, hw⟩, (if_neg hopen).symm⟩
  | closedir =>
    simp only [step] at hs
    split at hs
    · next hi =>
      cases hs
      have hsome : s.sweeping.isSome = true := by
        rcases hn : s.sweeping with _ | i
        · rw [hn] at hi
          cases hi
        · rfl
      obtain rfl := sweeping_of_isSome h hsome
      exact ⟨.swept, ⟨h.1, rfl, rfl, h.2.2.2⟩, rfl⟩
    · cases hs
  | server l =>
    obtain ⟨-, server, -, rfl⟩ := step_server hs
    exact ⟨g, at_server h server, by cases g <;> rfl⟩

/-- Nothing comes after a failure. -/
theorem lost_next {g : Stage} (h : Stage.lost.Next l g) :
    g = .lost ∧ ∀ opened, l ≠ .alarm opened := by
  cases l with
  | main => exact ⟨h, fun _ he => by cases he⟩
  | server => exact ⟨h, fun _ he => by cases he⟩
  | alarm => exact absurd h id
  | closedir => exact absurd h id

theorem lost_run {ls : List Lbl} (h : At s .lost) (hr : run (step sem) s ls = some s') :
    At s' .lost ∧ ∀ opened, .alarm opened ∉ ls := by
  induction ls generalizing s with
  | nil =>
    cases hr
    exact ⟨h, fun _ => List.not_mem_nil⟩
  | cons l ls ih =>
    obtain ⟨s1, h1, h2⟩ := run_cons_eq_some.mp hr
    obtain ⟨g, hg, hn⟩ := at_step h h1
    obtain ⟨rfl, hl⟩ := lost_next hn
    obtain ⟨hlost, hno⟩ := ih hg h2
    refine ⟨hlost, fun opened hm => ?_⟩
    rcases List.mem_cons.mp hm with he | hm
    · exact hl opened he.symm
    · exact hno opened hm

/-- The loop is lost by an `opendir` that fails, and by nothing else. -/
theorem next_lost {g g' : Stage} (hg : g ≠ .lost) (h : g.Next l g') :
    g' = .lost ↔ l = .alarm false := by
  cases l with
  | main => cases g <;> simp_all [Stage.Next] <;> rcases h with rfl | rfl <;> simp
  | server => cases g <;> simp_all [Stage.Next]
  | closedir => cases g <;> simp_all [Stage.Next]
  | alarm opened => cases g <;> cases opened <;> simp_all [Stage.Next]

theorem stage_of_run {ls : List Lbl} (h : At s g) (hg : g ≠ .lost)
    (hr : run (step sem) s ls = some s') :
    ∃ g', At s' g' ∧ (g' = .lost ↔ .alarm false ∈ ls) := by
  induction ls generalizing s g with
  | nil =>
    cases hr
    exact ⟨g, h, iff_of_false hg List.not_mem_nil⟩
  | cons l ls ih =>
    obtain ⟨s1, h1, h2⟩ := run_cons_eq_some.mp hr
    obtain ⟨g1, hg1, hn⟩ := at_step h h1
    by_cases hl : l = .alarm false
    · obtain rfl := (next_lost hg hn).mpr hl
      exact ⟨.lost, (lost_run hg1 h2).1, iff_of_true rfl (hl ▸ List.mem_cons_self ..)⟩
    · obtain ⟨g', hg', hiff⟩ := ih hg1 (mt (next_lost hg hn).mp hl) h2
      refine ⟨g', hg', hiff.trans ⟨List.mem_cons_of_mem _, fun hm => ?_⟩⟩
      exact (List.mem_cons.mp hm).resolve_left (Ne.symm hl)

end Stages

/-! ### One sweep at a time -/

/-- The handler is a sweep with entries to read. -/
def Runs (s : Sys) (i : ℕ) : Prop := ∃ e es, s.server.handlers[i]? = some (.sweep (e :: es))

section Sweeps
variable {sem : Sem FileOp FileRet Fs} {s s' : Sys} {l : Lbl}

/-- The handler at a place after a step of the server: it was there, has taken the step, or is
new. -/
theorem handler_at {v v' : Handlers.Sys} {l : Handlers.Lbl} (hs : Handlers.step sem v l = some v')
    {i : ℕ} {h : Handler} (hi : v'.handlers[i]? = some h) :
    v.handlers[i]? = some h ∨
      (∃ h0, v.handlers[i]? = some h0 ∧ h0.step sem v.strmID v.fs = some (h, v'.fs)) ∨
      arrived sem v l = some h ∧ i = v.handlers.length := by
  have hnew {h0 : Handler} (ha : arrived sem v l = some h0)
      (hi : (v.handlers ++ [h0])[i]? = some h) : v.handlers[i]? = some h ∨
        (∃ h0, v.handlers[i]? = some h0 ∧ h0.step sem v.strmID v.fs = some (h, v'.fs)) ∨
        arrived sem v l = some h ∧ i = v.handlers.length := by
    rw [List.getElem?_append, List.getElem?_singleton] at hi
    split_ifs at hi with hlt hz
    · exact Or.inl hi
    · cases hi
      exact Or.inr (Or.inr ⟨ha, by omega⟩)
  cases l with
  | report g msg =>
    cases hs
    exact hnew rfl hi
  | request str =>
    cases hs
    exact hnew rfl hi
  | sweep =>
    cases hs
    exact hnew rfl hi
  | step j =>
    simp only [Handlers.step] at hs
    split at hs
    · next h0 hj =>
      obtain ⟨⟨h1, fs1⟩, hx, rfl⟩ := Option.map_eq_some_iff.mp hs
      rw [List.getElem?_set] at hi
      split_ifs at hi with hij hlt
      · cases hi
        exact Or.inr (Or.inl ⟨h0, hij ▸ hj, hx⟩)
      · exact Or.inl hi
    · cases hs

/-- A sweep has begun before, or it has just come. -/
theorem runs_server {server : Handlers.Sys} {l : Handlers.Lbl}
    (hs : Handlers.step sem s.server l = some server) {i : ℕ} (hi : Runs { s with server } i) :
    Runs s i ∨ l = .sweep ∧ i = s.server.handlers.length := by
  obtain ⟨e, es, hi⟩ := hi
  rcases handler_at hs hi with hi | ⟨h0, hi, hx⟩ | ⟨ha, rfl⟩
  · exact Or.inl ⟨e, es, hi⟩
  · obtain ⟨e0, rfl⟩ := step_sweep hx
    exact Or.inl ⟨e0, e :: es, hi⟩
  · cases l with
    | sweep => exact Or.inr ⟨rfl, rfl⟩
    | report => cases ha
    | request => cases ha
    | step => cases ha

/-- The sweep that runs is the one of the last alarm. -/
def Single (s : Sys) : Prop := ∀ i, Runs s i → s.sweeping = some i

theorem single_step {g : Stage} (h : At s g) (hone : Single s) (hs : step sem s l = some s') :
    Single s' := by
  cases l with
  | main =>
    cases hs
    intro i hi
    rw [Runs, server_main] at hi
    exact (sweeping_main s).trans (hone i hi)
  | alarm opened =>
    simp only [step] at hs
    split_ifs at hs with ha hopen
    · obtain rfl := armed_of_alarm h ha.1
      obtain ⟨server, hx, rfl⟩ := Option.map_eq_some_iff.mp hs
      intro i hi
      rcases runs_server hx hi with hi | ⟨-, rfl⟩
      · exact absurd ((hone i hi).symm.trans h.2.1) (Option.some_ne_none i)
      · rfl
    · cases hs
      exact hone
  | closedir =>
    simp only [step] at hs
    split at hs
    · next hi =>
      cases hs
      rintro j ⟨e, es, hj⟩
      rw [hone j ⟨e, es, hj⟩, Option.bind_some, hj] at hi
      cases hi
    · cases hs
  | server l =>
    obtain ⟨hl, server, hx, rfl⟩ := step_server hs
    intro i hi
    rcases runs_server hx hi with hi | ⟨rfl, -⟩
    · exact hone i hi
    · exact absurd rfl hl

/-- **One sweep at a time**: no sweep begins, and no alarm is set, before the last sweep has read
all of its entries. -/
theorem one_sweep {ls : List Lbl} (hr : run (step sem) init ls = some s) :
    (∀ i j, Runs s i → Runs s j → i = j) ∧ ((∃ i, Runs s i) → s.alarm = false) := by
  have hinv : (∃ g, At s g) ∧ Single s := by
    have hstep : ∀ s l s', (∃ g, At s g) ∧ Single s → step sem s l = some s' →
        (∃ g, At s' g) ∧ Single s' := by
      rintro s l s' ⟨⟨g, hg⟩, hone⟩ hs
      obtain ⟨g', hg', -⟩ := at_step hg hs
      exact ⟨⟨g', hg'⟩, single_step hg hone hs⟩
    refine inv_of_run hstep ⟨⟨.arming, at_init⟩, ?_⟩ hr
    rintro i ⟨e, es, hi⟩
    cases hi
  obtain ⟨⟨g, hg⟩, hone⟩ := hinv
  refine ⟨fun i j hi hj => Option.some.inj ((hone i hi).symm.trans (hone j hj)), ?_⟩
  rintro ⟨i, hi⟩
  have hsome : s.sweeping.isSome = true := by
    rw [hone i hi]
    rfl
  obtain rfl := sweeping_of_isSome hg hsome
  exact hg.1

/-- The loop is asleep, and the sweep has two entries to read. -/
theorem one_sweep_first : ∃ s,
    run (step (fileSem [])) init [.main, .main, .main, .alarm true, .main] = some s ∧
      Runs s 0 ∧ s.alarm = false := by
  have hsome : (run (step (fileSem [])) init
      [.main, .main, .main, .alarm true, .main]).isSome = true := by decide +kernel
  obtain ⟨s, hr⟩ := Option.isSome_iff_exists.mp hsome
  have hruns : Runs s 0 := by
    cases hr
    exact ⟨_, _, rfl⟩
  exact ⟨s, hr, hruns, (one_sweep hr).2 ⟨0, hruns⟩⟩

end Sweeps

/-! ### The next sweep -/

/-- The server gets no message. -/
def Own : Lbl → Prop
  | .server (.report _ _) => False
  | .server (.request _) => False
  | _ => True

/-- On its own the server comes to a state with `P`. -/
def Leads (sem : Sem FileOp FileRet Fs) (s : Sys) (P : Sys → Prop) : Prop :=
  ∃ ls s', (∀ l ∈ ls, Own l) ∧ run (step sem) s ls = some s' ∧ P s'

section Next
variable {sem : Sem FileOp FileRet Fs} {s s' : Sys} {P Q : Sys → Prop}

theorem Leads.here (h : P s) : Leads sem s P :=
  ⟨[], s, fun _ hl => absurd hl List.not_mem_nil, rfl, h⟩

theorem Leads.cons {l : Lbl} (hl : Own l) (hs : step sem s l = some s') (h : Leads sem s' P) :
    Leads sem s P := by
  obtain ⟨ls, s1, hls, hr, hp⟩ := h
  exact ⟨l :: ls, s1, List.forall_mem_cons.mpr ⟨hl, hls⟩, run_cons_eq_some.mpr ⟨s', hs, hr⟩, hp⟩

theorem Leads.trans (h : Leads sem s P) (hq : ∀ s', P s' → Leads sem s' Q) : Leads sem s Q := by
  obtain ⟨ls, s1, hls, hr, hp⟩ := h
  obtain ⟨ls', s2, hls', hr', hq⟩ := hq s1 hp
  refine ⟨ls ++ ls', s2, List.forall_mem_append.mpr ⟨hls, hls'⟩, ?_, hq⟩
  rw [run_append, hr, Option.bind_some, hr']

/-- The loop sets the next alarm. -/
theorem arming_leads (h : At s .arming) : Leads sem s (At · .armed) := by
  have halarm {s : Sys} (hs : s.sweeping = none) (hpc : s.pc = .alarm) (ht : s.trig = true)
      (hh : s.handled = true) : Leads sem s (At · .armed) :=
    .cons (l := .main) trivial rfl (.here (by simp [main, hpc, At, hs, ht, hh, Waits]))
  have hsignal {s : Sys} (hs : s.sweeping = none) (hpc : s.pc = .signal) (ht : s.trig = true) :
      Leads sem s (At · .armed) :=
    .cons (l := .main) trivial rfl (halarm (by simp [main, hpc, hs]) (by simp [main, hpc])
      (by simp [main, hpc, ht]) (by simp [main, hpc]))
  obtain ⟨-, hs, hpc | ⟨hpc, ht⟩ | ⟨hpc, ht, hh⟩⟩ := h
  · exact .cons (l := .main) trivial rfl (hsignal (by simp [main, hpc, hs]) (by simp [main, hpc])
      (by simp [main, hpc]))
  · exact hsignal hs hpc ht
  · exact halarm hs hpc ht hh

/-- The loop sees that the sweep has ended. -/
theorem swept_leads (h : At s .swept) : Leads sem s (At · .armed) := by
  have hwait {s : Sys} (ha : s.alarm = false) (hs : s.sweeping = none) (ht : s.trig = false)
      (hpc : s.pc = .wait) : Leads sem s (At · .armed) :=
    .cons (l := .main) trivial rfl (arming_leads ⟨by simp [main, hpc, ha], by simp [main, hpc, hs],
      Or.inl (by simp [main, hpc, ht])⟩)
  obtain ⟨ha, hs, ht, hpc | hpc⟩ := h
  · exact hwait ha hs ht hpc
  · exact .cons (l := .main) trivial rfl (hwait (by simp [main, hpc, ha]) (by simp [main, hpc, hs])
      (by simp [main, hpc, ht]) (by simp [main, hpc]))

end Next

section Messages
variable {cwd : Path} {s s' : Sys} {ls : List Lbl}

/-- The labels of a run are a run of the server. -/
theorem run_server {sem : Sem FileOp FileRet Fs} (hr : run (step sem) s ls = some s') :
    run (Handlers.step sem) s.server (ls.flatMap serverLbls) = some s'.server := by
  induction ls generalizing s with
  | nil =>
    cases hr
    rfl
  | cons l ls ih =>
    obtain ⟨s1, h1, h2⟩ := run_cons_eq_some.mp hr
    have hone : run (Handlers.step sem) s.server (serverLbls l) = some s1.server := by
      cases l with
      | main =>
        cases h1
        exact congrArg some (server_main s).symm
      | alarm opened =>
        simp only [step] at h1
        split_ifs at h1 with ha hopen
        · obtain ⟨server, hx, rfl⟩ := Option.map_eq_some_iff.mp h1
          rw [hopen]
          exact run_cons_eq_some.mpr ⟨server, hx, rfl⟩
        · rw [Bool.eq_false_iff.mpr hopen]
          cases h1
          rfl
      | closedir =>
        simp only [step] at h1
        split at h1
        · cases h1
          rfl
        · cases h1
      | server l =>
        obtain ⟨-, server, hx, rfl⟩ := step_server h1
        exact run_cons_eq_some.mpr ⟨server, hx, rfl⟩
    rw [List.flatMap_cons, run_append, hone, Option.bind_some, ih h2]

/-- The messages of a run are well-formed. -/
def WellFormed (ls : List Lbl) : Prop := ∀ l, .server l ∈ ls → Records.WellFormed l

theorem WellFormed.server (h : WellFormed ls) :
    ∀ l ∈ ls.flatMap serverLbls, Records.WellFormed l := by
  intro l hl
  obtain ⟨l', hl', hmem⟩ := List.mem_flatMap.mp hl
  cases l' with
  | alarm opened =>
    cases opened
    · cases hmem
    · rw [List.mem_singleton.mp hmem]
      trivial
  | server l' =>
    rw [List.mem_singleton.mp hmem]
    exact h l' hl'
  | main => cases hmem
  | closedir => cases hmem

variable (cwd) in
/-- The handlers go on to their end. -/
def Sound (v : Handlers.Sys) : Prop := WholeFiles v.fs ∧ Named cwd v ∧ Safe cwd v

theorem Sound.step {v v' : Handlers.Sys} {i : ℕ} (h : Sound cwd v)
    (hs : Handlers.step (fileSem cwd) v (.step i) = some v') : Sound cwd v' := by
  obtain ⟨hw, hn, hsafe⟩ := h
  have hs' := hs
  rw [fileSem_eq] at hs'
  exact ⟨(step_wrote hw hs').whole hw, hn.step (l := .step i) hw trivial hs',
    hsafe.step (l := .step i) hw hn trivial hs⟩

/-- A sweep reads its next entry. -/
theorem sweep_next {v : Handlers.Sys} (h : Sound cwd v) {i : ℕ} {e : Bytes × Bool}
    {es : List (Bytes × Bool)} (hi : v.handlers[i]? = some (.sweep (e :: es))) :
    ∃ v', Handlers.step (fileSem cwd) v (.step i) = some v' ∧
      v'.handlers[i]? = some (.sweep es) := by
  have hlt : i < v.handlers.length := (List.getElem?_eq_some_iff.mp hi).1
  obtain ⟨dName, dir⟩ := e
  cases dir with
  | true =>
    exact ⟨{ v with handlers := v.handlers.set i (.sweep es) },
      by simp only [Handlers.step, hi]; rfl, List.getElem?_set_self hlt⟩
  | false =>
    obtain ⟨fs', hx⟩ := exec_triggerFile_of_mem h.1
      (h.2.2.sweep _ (List.mem_of_getElem? hi) dName (List.mem_cons_self ..))
    refine ⟨{ v with fs := fs', handlers := v.handlers.set i (.sweep es) }, ?_,
      List.getElem?_set_self hlt⟩
    simp only [Handlers.step, hi, Handler.step, hx]
    rfl

/-- A sweep reads all of its entries and closes the directory. -/
theorem sweeping_leads {es : List (Bytes × Bool)} {i : ℕ} (h : At s .sweeping)
    (hs : s.sweeping = some i) (hsound : Sound cwd s.server)
    (hi : s.server.handlers[i]? = some (.sweep es)) :
    Leads (fileSem cwd) s (At · .swept) := by
  induction es generalizing s with
  | nil =>
    have hclose : step (fileSem cwd) s .closedir =
        some { s with trig := false, sweeping := none } := by
      simp only [step, hs, Option.bind_some, hi]
    exact .cons (l := .closedir) trivial hclose (.here ⟨h.1, rfl, rfl, h.2.2.2⟩)
  | cons e es ih =>
    obtain ⟨server, hx, hi'⟩ := sweep_next hsound hi
    have hnext : step (fileSem cwd) s (.server (.step i)) = some { s with server } := by
      simp only [step, hx, Option.map_some]
    exact .cons (l := .server (.step i)) trivial hnext (ih (at_server h server) hs (hsound.step hx) hi')

/-- A handler that is there stays there. -/
theorem handler_stays {sem : Sem FileOp FileRet Fs} {v v' : Handlers.Sys} {l : Handlers.Lbl}
    (hs : Handlers.step sem v l = some v') {i : ℕ} {h : Handler} (hi : v.handlers[i]? = some h) :
    ∃ h', v'.handlers[i]? = some h' ∧ (h' = h ∨ h.step sem v.strmID v.fs = some (h', v'.fs)) := by
  have hlt : i < v.handlers.length := (List.getElem?_eq_some_iff.mp hi).1
  have hnew (h0 : Handler) : (v.handlers ++ [h0])[i]? = some h :=
    (List.getElem?_append_left hlt).trans hi
  cases l with
  | report g msg =>
    cases hs
    exact ⟨h, hnew _, Or.inl rfl⟩
  | request str =>
    cases hs
    exact ⟨h, hnew _, Or.inl rfl⟩
  | sweep =>
    cases hs
    exact ⟨h, hnew _, Or.inl rfl⟩
  | step j =>
    simp only [Handlers.step] at hs
    split at hs
    · next h0 hj =>
      obtain ⟨⟨h1, fs1⟩, hx, rfl⟩ := Option.map_eq_some_iff.mp hs
      by_cases hij : j = i
      · subst hij
        obtain rfl := Option.some.inj (hj.symm.trans hi)
        exact ⟨h1, List.getElem?_set_self hlt, Or.inr hx⟩
      · exact ⟨h, (List.getElem?_set_ne hij).trans hi, Or.inl rfl⟩
    · cases hs

/-- A sweep, or what is left of one. -/
def Sweeps : Handler → Prop
  | .sweep _ => True
  | .crashed => True
  | _ => False

theorem sweeps_step {sem : Sem FileOp FileRet Fs} {strmID : Option Bytes} {fs fs' : Fs}
    {h h' : Handler} (hh : Sweeps h) (hs : h.step sem strmID fs = some (h', fs')) : Sweeps h' := by
  unfold Handler.step at hs
  split at hs
  · exact absurd hh id
  · exact absurd hh id
  · cases hs
  · cases hs
    trivial
  · split at hs <;> cases hs <;> trivial
  · cases hs

/-- The sweep of the last alarm is one of the handlers. -/
def Kept (s : Sys) : Prop :=
  ∀ i, s.sweeping = some i → ∃ h, s.server.handlers[i]? = some h ∧ Sweeps h

theorem kept_step {sem : Sem FileOp FileRet Fs} {l : Lbl} (hk : Kept s)
    (hs : step sem s l = some s') : Kept s' := by
  cases l with
  | main =>
    cases hs
    rw [Kept, server_main, sweeping_main]
    exact hk
  | alarm opened =>
    simp only [step] at hs
    split_ifs at hs
    · obtain ⟨server, hx, rfl⟩ := Option.map_eq_some_iff.mp hs
      cases hx
      rintro i hi
      cases hi
      exact ⟨_, List.getElem?_concat_length, trivial⟩
    · cases hs
      exact hk
  | closedir =>
    simp only [step] at hs
    split at hs
    · cases hs
      exact fun i hi => absurd hi.symm (Option.some_ne_none i)
    · cases hs
  | server l =>
    obtain ⟨-, server, hx, rfl⟩ := step_server hs
    intro i hi
    obtain ⟨h, hh, hsw⟩ := hk i hi
    obtain ⟨h', hh', rfl | hx'⟩ := handler_stays hx hh
    · exact ⟨h', hh', hsw⟩
    · exact ⟨h', hh', sweeps_step hsw hx'⟩

/-- From any stage but `lost` the server comes to the next alarm on its own. -/
theorem stage_leads {g : Stage} (h : At s g) (hg : g ≠ .lost) (hk : Kept s)
    (hsound : Sound cwd s.server) : Leads (fileSem cwd) s (At · .armed) := by
  cases g with
  | arming => exact arming_leads h
  | armed => exact .here h
  | swept => exact swept_leads h
  | lost => exact absurd rfl hg
  | sweeping =>
    obtain ⟨i, hi⟩ := Option.isSome_iff_exists.mp h.2.1
    obtain ⟨hd, hh, hsw⟩ := hk i hi
    cases hd with
    | sweep es => exact (sweeping_leads h hi hsound hh).trans fun _ => swept_leads
    | crashed => exact absurd (List.mem_of_getElem? hh) hsound.2.2.crashed
    | device p => exact absurd hsw id
    | player p => exact absurd hsw id

/-- **The sweeps go on** if and only if no `opendir` of an alarm has failed: until then the server
can come to the next sweep without any message, whatever state its handlers are in, and afterwards
`trig` stays 1 and there is no alarm, whatever happens. -/
theorem sweeps_iff (cwd : Path) {ls : List Lbl} {s : Sys} (hls : WellFormed ls)
    (hr : run (step (fileSem cwd)) init ls = some s) :
    (.alarm false ∉ ls → ∃ more s', (∀ l ∈ more, Own l) ∧
      run (step (fileSem cwd)) s more = some s' ∧ .alarm true ∈ more) ∧
    (.alarm false ∈ ls → ∀ more s', run (step (fileSem cwd)) s more = some s' →
      s'.trig = true ∧ s'.alarm = false ∧ ∀ opened, .alarm opened ∉ more) := by
  obtain ⟨g, hg, hlost⟩ := stage_of_run at_init (by decide) hr
  refine ⟨fun hno => ?_, fun hfail more s' hm => ?_⟩
  · have hk : Kept s := inv_of_run (fun s l s' => kept_step)
      (fun i hi => absurd hi.symm (Option.some_ne_none i)) hr
    have hsound : Sound cwd s.server := safe_of_run hls.server (run_server hr)
    obtain ⟨more, s1, hown, hr1, h1⟩ := stage_leads hg (mt hlost.mp hno) hk hsound
    obtain ⟨ha, -, -, hh, -⟩ := h1
    obtain ⟨s2, h2⟩ : ∃ s2, step (fileSem cwd) s1 (.alarm true) = some s2 :=
      ⟨_, by simp only [step, ha, hh, and_self, if_true, Handlers.step, Option.map_some]; rfl⟩
    refine ⟨more ++ [.alarm true], s2, ?_, ?_, List.mem_append_right _ (List.mem_singleton_self _)⟩
    · exact List.forall_mem_append.mpr ⟨hown, fun l hl => List.mem_singleton.mp hl ▸ trivial⟩
    · rw [run_append, hr1, Option.bind_some]
      exact run_cons_eq_some.mpr ⟨s2, h2, rfl⟩
  · obtain rfl := hlost.mpr hfail
    obtain ⟨⟨halarm, -, htrig, -⟩, hno⟩ := lost_run hg hm
    exact ⟨htrig, halarm, hno⟩

/-- The first alarm, and a report that comes while the sweep runs. -/
def firstAlarm : List Lbl :=
  [.main, .main, .main, .alarm true, .main,
    .server (.report fresh (lit "\x7b \"streamId\" : \"a\", \"status\" : \"live\"\x7d")),
    .server (.step 1)]

theorem sweeps_iff_firstAlarm : (∃ s, run (step (fileSem [])) init firstAlarm = some s ∧
    ∃ more s', (∀ l ∈ more, Own l) ∧ run (step (fileSem [])) s more = some s' ∧
      .alarm true ∈ more) ∧
    ∃ s, run (step (fileSem [])) init [.main, .main, .main, .alarm false] = some s ∧
      s.trig = true := by
  constructor
  · have hsome : (run (step (fileSem [])) init firstAlarm).isSome = true := by decide +kernel
    obtain ⟨s, hr⟩ := Option.isSome_iff_exists.mp hsome
    refine ⟨s, hr, (sweeps_iff [] ?_ hr).1 (by simp [firstAlarm])⟩
    intro l hl
    simp only [firstAlarm, List.mem_cons, reduceCtorEq, Lbl.server.injEq, List.not_mem_nil,
      or_false, false_or] at hl
    rcases hl with rfl | rfl
    · exact ⟨lit "a", lit "live", by decide +kernel⟩
    · trivial
  · have hsome : (run (step (fileSem [])) init
        [.main, .main, .main, .alarm false]).isSome = true := by decide +kernel
    obtain ⟨s, hr⟩ := Option.isSome_iff_exists.mp hsome
    exact ⟨s, hr, ((sweeps_iff [] (fun l hl => by simp at hl) hr).2 (by simp) [] s rfl).1⟩

end Messages

end LiveStreamer.StreamerServer.Alarm
