import LiveStreamer.Lib.JsonText
import Mathlib.Algebra.Group.Nat.Defs

/-! # What a string costs in a text

A string is read byte by byte (`ScanStep`, `scan_cases`). Every byte of it takes at least one byte
of the text it is read from, and a byte that is not plain at least two (`scan_cost`). A string that
is read from its own bytes between quotes is therefore plain (`plain_of_scan`): a quote in it would
end the reading too early, and a backslash makes the reading shorter than the string, or takes in
the closing quote. -/

namespace LiveStreamer.Lib.JsonStrings

open LiveStreamer.Lib.CString LiveStreamer.Lib.Tokener LiveStreamer.Lib.JsonText

/-! ### The cost of a string -/

/-- The bytes of text that a string takes at least. -/
def cost : Bytes → ℕ
  | [] => 0
  | c :: s => (if PlainByte c then 1 else 2) + cost s

theorem cost_append (s t : Bytes) : cost (s ++ t) = cost s + cost t := by
  induction s with
  | nil => simp [cost]
  | cons c s ih =>
    rw [List.cons_append, cost, cost, ih]
    omega

theorem length_le_cost (s : Bytes) : s.length ≤ cost s := by
  induction s with
  | nil => exact Nat.le_refl 0
  | cons c s ih =>
    rw [List.length_cons, cost]
    split_ifs <;> omega

theorem cost_le (s : Bytes) : cost s ≤ 2 * s.length := by
  induction s with
  | nil => exact Nat.le_refl 0
  | cons c s ih =>
    rw [List.length_cons, cost]
    split_ifs <;> omega

/-- A string that takes no more bytes than it has is plain. -/
theorem plain_of_cost_le {s : Bytes} (h : cost s ≤ s.length) : Plain s := by
  induction s with
  | nil => exact plain_nil
  | cons c s ih =>
    have hle := length_le_cost s
    rw [List.length_cons, cost] at h
    split_ifs at h with hc
    · exact List.forall_mem_cons.mpr ⟨hc, ih (by omega)⟩
    · omega

/-- Before its first zero byte a string costs less. -/
theorem cost_cstr (s : Bytes) : cost (cstr s) ≤ cost s ∧
    ((0 : UInt8) ∈ s → cost (cstr s) + 2 ≤ cost s) := by
  induction s with
  | nil => exact ⟨Nat.le_refl 0, fun h => absurd h List.not_mem_nil⟩
  | cons c s ih =>
    by_cases hc : c = 0
    · subst hc
      have hz : cstr (0 :: s) = [] := rfl
      have h2 : cost (0 :: s) = 2 + cost s := rfl
      rw [hz, h2]
      exact ⟨Nat.zero_le _, fun _ => Nat.le_add_right ..⟩
    · have hz : cstr (c :: s) = c :: cstr s := by simp [cstr, hc]
      rw [hz, cost, cost]
      refine ⟨by omega, fun h => ?_⟩
      have := ih.2 (by simpa [Ne.symm hc] using h)
      omega

theorem cstr_append_of_notMem {s : Bytes} (h : (0 : UInt8) ∉ s) (t : Bytes) :
    cstr (s ++ t) = s ++ cstr t := by
  unfold cstr
  refine List.takeWhile_append_of_pos fun c hc => ?_
  simp only [ne_eq, decide_not, Bool.not_eq_eq_eq_not, Bool.not_true, decide_eq_false_iff_not]
  rintro rfl
  exact h hc

theorem cstr_append_of_mem {s : Bytes} (h : (0 : UInt8) ∈ s) (t : Bytes) :
    cstr (s ++ t) = cstr s := by
  induction s with
  | nil => exact absurd h List.not_mem_nil
  | cons c s ih =>
    by_cases hc : c = 0
    · subst hc
      rfl
    · have hz (r : Bytes) : cstr (c :: r) = c :: cstr r := by simp [cstr, hc]
      rw [List.cons_append, hz, hz, ih (by simpa [Ne.symm hc] using h)]

/-! ### What is written -/

/-- The bytes that a pending high surrogate can still write. -/
def owed (hi : Option ℕ) : ℕ := if hi.isSome then 3 else 0

/-- The bytes of an escape sequence that have been read. -/
def begun : Esc → ℕ
  | .plain => 0
  | .esc => 1
  | .hex k _ => 6 - k

theorem cost_flush (hi : Option ℕ) : cost (flush hi) = owed hi := by
  unfold flush owed
  split_ifs <;> decide

theorem cost_utf8 {u : ℕ} (h : u < 0x10000) : cost (utf8 u) ≤ 6 := by
  have hc := cost_le (utf8 u)
  have hl : (utf8 u).length ≤ 3 := by
    unfold utf8
    split_ifs
    · exact (by decide : 1 ≤ 3)
    · exact (by decide : 2 ≤ 3)
    · exact Nat.le_refl 3
  omega

theorem cost_loneUnit {u : ℕ} (h : u < 0x10000) :
    cost (loneUnit u).1 + owed (loneUnit u).2 ≤ 6 := by
  have hu := cost_utf8 h
  unfold loneUnit
  split_ifs
  · exact (by decide : 0 + 3 ≤ 6)
  · rw [cost_flush]
    exact (by decide : 3 + 0 ≤ 6)
  · exact hu

/-- A code unit writes at most what its escape sequence takes. -/
theorem cost_codeUnit (hi : Option ℕ) {u : ℕ} (h : u < 0x10000) :
    cost (codeUnit hi u).1 + owed (codeUnit hi u).2 ≤ owed hi + 6 := by
  have hl := cost_loneUnit h
  rcases hi with _ | v
  · exact hl
  · have ho : owed (some v) = 3 := rfl
    unfold codeUnit
    split_ifs
    · have hc := cost_le (utf8 (0x10000 + (v - 0xd800) * 0x400 + (u - 0xdc00)))
      have hlen : (utf8 (0x10000 + (v - 0xd800) * 0x400 + (u - 0xdc00))).length ≤ 4 := by
        unfold utf8
        split_ifs
        · exact (by decide : 1 ≤ 4)
        · exact (by decide : 2 ≤ 4)
        · exact (by decide : 3 ≤ 4)
        · exact Nat.le_refl 4
      have hn : owed none = 0 := rfl
      dsimp only
      omega
    · rw [cost_append, cost_flush]
      dsimp only
      omega

theorem hexVal_lt {c : UInt8} {d : ℕ} (h : hexVal c = some d) : d < 16 := by
  unfold hexVal at h
  simp only [UInt8.le_iff_toNat_le] at h
  split_ifs at h with h1 h2 h3
  · have h9 : (0x39 : UInt8).toNat = 57 := rfl
    simp only [Option.some.injEq] at h
    omega
  · have hF : (0x46 : UInt8).toNat = 70 := rfl
    simp only [Option.some.injEq] at h
    omega
  · have hf : (0x66 : UInt8).toNat = 102 := rfl
    simp only [Option.some.injEq] at h
    omega

theorem emit_eq_some {out x r : Bytes} {p : Option (Bytes × Bytes)}
    (h : emit out p = some (x, r)) : ∃ x', p = some (x', r) ∧ x = out ++ x' := by
  rcases p with _ | ⟨x', r'⟩
  · cases h
  · cases h
    exact ⟨x', rfl, rfl⟩

/-- An escape sequence stays below 2^16. -/
def EscOk : Esc → Prop
  | .plain => True
  | .esc => True
  | .hex k acc => 1 ≤ k ∧ (acc + 1) * 16 ^ k ≤ 0x10000

/-! ### One byte of a string -/

/-- The reader takes the byte `c`, writes `out` and is in the state `hi'`, `e'` after it. -/
inductive ScanStep : Option ℕ → Esc → UInt8 → Option ℕ → Esc → Bytes → Prop where
  | esc {hi : Option ℕ} : ScanStep hi .plain 0x5c hi .esc []
  | byte {hi : Option ℕ} {c : UInt8} (h : PlainByte c) :
      ScanStep hi .plain c none .plain (flush hi ++ [c])
  | unicode {hi : Option ℕ} : ScanStep hi .esc 0x75 hi (.hex 4 0) []
  | unescape {hi : Option ℕ} {c d : UInt8} (h : unescape c = some d) :
      ScanStep hi .esc c none .plain (flush hi ++ [d])
  | digit {hi : Option ℕ} {k acc d : ℕ} {c : UInt8} (h : hexVal c = some d) (hk : ¬ k ≤ 1) :
      ScanStep hi (.hex k acc) c hi (.hex (k - 1) (acc * 16 + d)) []
  | last {hi : Option ℕ} {k acc d : ℕ} {c : UInt8} (h : hexVal c = some d) (hk : k ≤ 1) :
      ScanStep hi (.hex k acc) c (codeUnit hi (acc * 16 + d)).2 .plain
        (codeUnit hi (acc * 16 + d)).1

/-- **The first byte of a string** closes it, or the reader goes on after it. -/
theorem scan_cases {hi : Option ℕ} {e : Esc} {c : UInt8} {t x r : Bytes}
    (h : scan hi e (c :: t) = some (x, r)) :
    (e = .plain ∧ c = 0x22 ∧ x = flush hi ∧ r = t) ∨
      ∃ hi' e' out x', ScanStep hi e c hi' e' out ∧ scan hi' e' t = some (x', r) ∧
        x = out ++ x' := by
  cases e with
  | plain =>
    rw [scan] at h
    split_ifs at h with h1 h2 h3
    · cases h
      exact Or.inl ⟨rfl, h1, rfl, rfl⟩
    · subst h2
      exact Or.inr ⟨_, _, _, x, .esc, h, rfl⟩
    · obtain ⟨x', hs, rfl⟩ := emit_eq_some h
      exact Or.inr ⟨_, _, _, x', .byte ⟨h1, h2, UInt8.not_lt.mp h3⟩, hs, rfl⟩
  | esc =>
    rw [scan] at h
    split_ifs at h with h1
    · subst h1
      exact Or.inr ⟨_, _, _, x, .unicode, h, rfl⟩
    · split at h
      · next d hd =>
        obtain ⟨x', hs, rfl⟩ := emit_eq_some h
        exact Or.inr ⟨_, _, _, x', .unescape hd, hs, rfl⟩
      · cases h
  | hex k acc =>
    rw [scan] at h
    split at h
    · next d hd =>
      split_ifs at h with hk
      · obtain ⟨x', hs, rfl⟩ := emit_eq_some h
        exact Or.inr ⟨_, _, _, x', .last hd hk, hs, rfl⟩
      · exact Or.inr ⟨_, _, _, x, .digit hd hk, h, rfl⟩
    · cases h

section Step
variable {hi hi' : Option ℕ} {e e' : Esc} {c : UInt8} {out : Bytes}

theorem ScanStep.escOk (h : ScanStep hi e c hi' e' out) (he : EscOk e) : EscOk e' := by
  cases h with
  | esc => trivial
  | byte _ => trivial
  | unicode => exact ⟨by decide, by decide⟩
  | unescape _ => trivial
  | last _ _ => trivial
  | @digit k acc d _ hd hk =>
    obtain ⟨hk1, hacc⟩ := he
    have hd16 := hexVal_lt hd
    have hpow : 16 ^ k = 16 ^ (k - 1) * 16 := by
      rw [← Nat.pow_succ, Nat.succ_eq_add_one, Nat.sub_add_cancel hk1]
    refine ⟨by omega, le_trans ?_ hacc⟩
    rw [hpow]
    calc (acc * 16 + d + 1) * 16 ^ (k - 1)
        ≤ ((acc + 1) * 16) * 16 ^ (k - 1) := Nat.mul_le_mul_right _ (by omega)
      _ = (acc + 1) * (16 ^ (k - 1) * 16) := by rw [Nat.mul_assoc, Nat.mul_comm 16]

/-- A byte writes no more than it adds to what has been read. -/
theorem ScanStep.cost_le (h : ScanStep hi e c hi' e' out) (he : EscOk e) :
    cost out + (owed hi' + begun e') ≤ 1 + (owed hi + begun e) := by
  have hnone : owed none = 0 := rfl
  cases h with
  | esc =>
    simp only [cost, begun]
    omega
  | byte hc =>
    have h1 : cost [c] = 1 := by
      rw [cost, if_pos hc]
      rfl
    rw [cost_append, cost_flush, h1]
    omega
  | unicode =>
    simp only [cost, begun]
    omega
  | @unescape _ d _ =>
    have h2 := JsonStrings.cost_le [d]
    rw [cost_append, cost_flush]
    simp only [begun, List.length_singleton] at h2 ⊢
    omega
  | digit _ hk =>
    simp only [cost, begun]
    have hk1 := he.1
    omega
  | @last k acc d _ hd hk =>
    obtain ⟨hk1, hacc⟩ := he
    have hd16 := hexVal_lt hd
    obtain rfl : k = 1 := by omega
    have hu := cost_codeUnit hi (u := acc * 16 + d) (by omega)
    simp only [begun]
    omega

/-- A quote that is passed is written. -/
theorem ScanStep.quote (h : ScanStep hi e 0x22 hi' e' out) : (0x22 : UInt8) ∈ out := by
  cases h with
  | byte hc => exact absurd rfl hc.1
  | unescape hd =>
    cases hd
    exact List.mem_append_right _ (List.mem_singleton_self _)
  | digit hd _ => cases hd
  | last hd _ => cases hd

/-- No escape sequence has a comma. -/
theorem ScanStep.comma (h : ScanStep hi e 0x2c hi' e' out) : e' = .plain := by
  cases h with
  | byte _ => rfl
  | unescape hd => cases hd
  | digit hd _ => cases hd
  | last hd _ => cases hd

end Step

/-! ### A whole string -/

/-- What is known of a reading at a split of the text `w ++ y`: it ends before the split, or goes on
after it; what it has written costs no more than what it has read, and has all the quotes it has
passed. -/
def AtSplit (hi : Option ℕ) (e : Esc) (w y x r : Bytes) : Prop :=
  (∃ u w', w = u ++ 0x22 :: w' ∧ r = w' ++ y ∧ cost x ≤ u.length + (owed hi + begun e)) ∨
  ∃ x₁ x₂ hi' e', scan hi' e' y = some (x₂, r) ∧ x = x₁ ++ x₂ ∧
    cost x₁ + (owed hi' + begun e') ≤ w.length + (owed hi + begun e) ∧
    w.count 0x22 ≤ x₁.count 0x22

/-- A byte that writes `out`. -/
theorem AtSplit.push {hi hi' : Option ℕ} {e e' : Esc} {w y x r out : Bytes} {c : UInt8}
    (h : AtSplit hi' e' w y x r)
    (hcost : cost out + (owed hi' + begun e') ≤ 1 + (owed hi + begun e))
    (hc : c = 0x22 → (0x22 : UInt8) ∈ out) : AtSplit hi e (c :: w) y (out ++ x) r := by
  rcases h with ⟨u, w', rfl, rfl, hx⟩ | ⟨x₁, x₂, hi₂, e₂, hs, rfl, hx, hq⟩
  · refine Or.inl ⟨c :: u, w', rfl, rfl, ?_⟩
    rw [cost_append, List.length_cons]
    omega
  · refine Or.inr ⟨out ++ x₁, x₂, hi₂, e₂, hs, (List.append_assoc ..).symm, ?_, ?_⟩
    · rw [cost_append, List.length_cons]
      omega
    · rw [List.count_cons, List.count_append]
      by_cases h22 : c = 0x22
      · have := List.count_pos_iff.mpr (hc h22)
        rw [h22]
        simp only [beq_self_eq_true, if_true]
        omega
      · simp only [beq_iff_eq, h22, if_false]
        omega

/-- **A reading splits with its text.** -/
theorem scan_split {hi : Option ℕ} {e : Esc} {w y x r : Bytes} (he : EscOk e)
    (h : scan hi e (w ++ y) = some (x, r)) : AtSplit hi e w y x r := by
  induction w generalizing hi e x with
  | nil => exact Or.inr ⟨[], x, hi, e, h, rfl, by simp [cost], Nat.le_refl 0⟩
  | cons c w ih =>
    rcases scan_cases h with ⟨rfl, rfl, rfl, rfl⟩ | ⟨hi', e', out, x', hs, hx, rfl⟩
    · refine Or.inl ⟨[], w, rfl, rfl, ?_⟩
      rw [cost_flush]
      exact Nat.le_add_left ..
    · refine (ih (hs.escOk he) hx).push (hs.cost_le he) ?_
      rintro rfl
      exact hs.quote

/-- **A string costs what its text has.** -/
theorem scan_cost {t x r : Bytes} (h : scan none .plain t = some (x, r)) :
    ∃ u, t = u ++ 0x22 :: r ∧ cost x ≤ u.length := by
  rw [← List.append_nil t] at h
  rcases scan_split (e := .plain) trivial h with ⟨u, w', rfl, rfl, hx⟩ | ⟨_, _, _, _, hs, -⟩
  · exact ⟨u, by rw [List.append_nil], hx⟩
  · cases ‹Esc› <;> simp [scan] at hs

/-! ### Strings in quotes -/

/-- **A string that is read from its own bytes is plain.** -/
theorem plain_of_scan {s t x r : Bytes} (h : scan none .plain (s ++ 0x22 :: t) = some (x, r))
    (hx : cstr x = s) : Plain s := by
  have hsplit : s ++ 0x22 :: t = (s ++ [0x22]) ++ t := by simp
  have hcost := cost_cstr x
  rw [hx] at hcost
  rw [hsplit] at h
  rcases scan_split (e := .plain) trivial h with ⟨u, w', hw, -, hu⟩ |
    ⟨x₁, x₂, hi, e, -, rfl, hx₁, hq⟩
  · have hlen := congrArg List.length hw
    simp only [List.length_append, List.length_cons, List.length_nil] at hlen
    simp only [owed, begun, Option.isSome_none, Bool.false_eq_true, if_false] at hu
    exact plain_of_cost_le (by omega)
  · -- the closing quote is part of what has been written
    simp only [owed, begun, Option.isSome_none, Bool.false_eq_true, if_false, List.length_append,
      List.length_singleton] at hx₁
    have hle := length_le_cost s
    by_cases h0 : (0 : UInt8) ∈ x₁
    · have h1 := (cost_cstr x₁).2 h0
      rw [cstr_append_of_mem h0] at hx
      rw [hx] at h1
      omega
    · rw [cstr_append_of_notMem h0] at hx
      have hcount := congrArg (List.count 0x22) hx
      rw [List.count_append] at hcount
      rw [List.count_append, List.count_singleton_self] at hq
      omega

/-- **A reading does not pass a comma and a quote.** -/
theorem scan_comma {hi : Option ℕ} {e : Esc} {w y x r : Bytes}
    (h : scan hi e (w ++ 0x2c :: 0x22 :: y) = some (x, r)) :
    r = y ∨ ∃ w', r = w' ++ 0x2c :: 0x22 :: y := by
  induction w generalizing hi e x with
  | nil =>
    rcases scan_cases h with ⟨-, hc, -⟩ | ⟨hi', e', out, x', hs, hx, -⟩
    · exact absurd hc (by decide)
    · rw [hs.comma, scan, if_pos rfl] at hx
      cases hx
      exact Or.inl rfl
  | cons c w ih =>
    rcases scan_cases h with ⟨-, -, -, rfl⟩ | ⟨hi', e', out, x', -, hx, -⟩
    · exact Or.inr ⟨w, rfl⟩
    · exact ih hx

end LiveStreamer.Lib.JsonStrings
