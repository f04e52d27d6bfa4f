import LiveStreamer.Lib.JsonFound

/-! # What is printed reads back

`Printed d j`: the text that is printed for `j` is read as `j`, whatever blank or separator comes
next. It is so for every kind of value, if it is so for the parts (`printed_number`, `printed_str`,
`printed_word`, `printed_arr`, `printed_obj`). Integers are printed without a leading zero
(`digits`) and are in 64 bits, other numbers are printed as they were read, and the keys of an
object are distinct.

What holds of the kinds of values in this way holds of every value that is read (`value_rule`). -/

namespace LiveStreamer.Lib.JsonPrint

open LiveStreamer.Lib.CString LiveStreamer.Lib.Tokener LiveStreamer.Lib.JsonText
open LiveStreamer.Lib.JsonStrings LiveStreamer.Lib.JsonLex LiveStreamer.Lib.JsonTokens
open LiveStreamer.Lib.JsonFound

/-- The token before ends here. -/
def Ends (e : Bytes) : Prop := ∀ c ∈ e.head?, isSep c = true

theorem ends_nil : Ends [] := fun _ hc => nomatch hc

theorem ends_cons {c : UInt8} (hc : isSep c = true) (e : Bytes) : Ends (c :: e) := fun x hx => by
  cases hx
  exact hc

/-- **The printed text of a value reads back.** -/
structure Printed (d : ℕ) (j : Json) : Prop where
  reads : ∀ e, Ends e → value d (print j ++ e) = some (j, e)
  clean : (0 : UInt8) ∉ print j

/-! ### Digits -/

/-- Digits only. -/
def Digits (u : Bytes) : Prop := ∀ c ∈ u, isDigit c = true

/-- A text that does not go on with a digit. -/
def Stops (t : Bytes) : Prop := ∀ c ∈ t.head?, isDigit c = false

/-- The bytes that can follow a token. -/
theorem mem_of_isSep {c : UInt8} (hc : isSep c = true) :
    c ∈ ([0x20, 0x09, 0x0a, 0x0d, 0x2c, 0x3a, 0x5d, 0x7d] : Bytes) := by
  simpa [isSep, isWs, or_assoc] using hc

theorem Ends.stops {e : Bytes} (he : Ends e) : Stops e := by
  have hsep : ∀ c ∈ ([0x20, 0x09, 0x0a, 0x0d, 0x2c, 0x3a, 0x5d, 0x7d] : Bytes),
      isDigit c = false := by decide +kernel
  exact fun c hc => hsep c (mem_of_isSep (he c hc))

theorem stops_cons {c : UInt8} (hc : isDigit c = false) (t : Bytes) : Stops (c :: t) := by
  intro x hx
  cases hx
  exact hc

theorem takeWhile_digits {u t : Bytes} (hu : Digits u) (ht : Stops t) :
    (u ++ t).takeWhile isDigit = u ∧ (u ++ t).dropWhile isDigit = t := by
  rw [List.takeWhile_append_of_pos hu, List.dropWhile_append_of_pos hu]
  rcases t with _ | ⟨c, t⟩
  · simp
  · have hc := ht c rfl
    simp [hc]

/-- The digits of a number. -/
def digits (n : ℕ) : Bytes := lit (toString n)

theorem digits_eq (n : ℕ) : digits n = (Nat.toDigits 10 n).map fun c => c.toNat.toUInt8 := by
  unfold digits lit
  rw [← Nat.toList_repr]
  rfl

/-- A digit of a number, as a byte. -/
theorem toNat_of_isDigit {c : Char} (hc : c.isDigit = true) :
    c.toNat.toUInt8.toNat = c.toNat ∧ 48 ≤ c.toNat ∧ c.toNat ≤ 57 := by
  have hlt : 48 ≤ c.toNat ∧ c.toNat ≤ 57 := by
    simpa [Char.isDigit, UInt32.le_iff_toNat_le] using hc
  refine ⟨?_, hlt⟩
  rw [Nat.toUInt8, UInt8.toNat_ofNat']
  exact Nat.mod_eq_of_lt (by omega)

theorem isDigit_toDigits {n : ℕ} {c : Char} (hc : c ∈ Nat.toDigits 10 n) : c.isDigit = true :=
  Nat.isDigit_of_mem_toDigits (by decide) (by decide) hc

theorem digits_digits (n : ℕ) : Digits (digits n) := by
  intro b hb
  rw [digits_eq] at hb
  obtain ⟨c, hc, rfl⟩ := List.mem_map.mp hb
  obtain ⟨h, h1, h2⟩ := toNat_of_isDigit (isDigit_toDigits hc)
  have hlo : (0x30 : UInt8) ≤ c.toNat.toUInt8 := by
    rw [UInt8.le_iff_toNat_le, h]
    exact h1
  have hhi : c.toNat.toUInt8 ≤ (0x39 : UInt8) := by
    rw [UInt8.le_iff_toNat_le, h]
    exact h2
  simp [isDigit, hlo, hhi]

theorem digits_ne_nil (n : ℕ) : digits n ≠ [] := by
  rw [digits_eq, ne_eq, List.map_eq_nil_iff]
  exact Nat.toDigits_ne_nil

theorem decimal_digits (n : ℕ) : decimal (digits n) = n := by
  have hfold : ∀ (l : List Char) (m : ℕ), (∀ c ∈ l, c.isDigit = true) →
      (l.map fun c => c.toNat.toUInt8).foldl (fun n c => n * 10 + (c.toNat - 0x30)) m =
        Nat.ofDigitChars 10 l m := by
    intro l
    induction l with
    | nil => exact fun m _ => rfl
    | cons c l ih =>
      intro m hl
      obtain ⟨hc, hl⟩ := List.forall_mem_cons.mp hl
      have hstep : m * 10 + (c.toNat.toUInt8.toNat - 0x30) = 10 * m + (c.toNat - '0'.toNat) := by
        rw [(toNat_of_isDigit hc).1, Nat.mul_comm]
        rfl
      rw [List.map_cons, List.foldl_cons, hstep, ih _ hl, Nat.ofDigitChars_cons]
  rw [decimal, digits_eq, hfold _ 0 fun c hc => isDigit_toDigits hc]
  exact Nat.ofDigitChars_ten_toDigits

/-- No leading zero. -/
theorem digits_head (n : ℕ) (h : (digits n).head? = some 0x30) : (digits n).length = 1 := by
  have hzero : ∀ n, 0 < n → (Nat.toDigits 10 n).head? ≠ some '0' := by
    intro n
    induction n using Nat.strong_induction_on with
    | _ n ih =>
      intro hn
      by_cases h10 : n < 10
      · rw [Nat.toDigits_of_lt_base h10]
        have hall : ∀ n < 10, 0 < n → n.digitChar ≠ '0' := by decide
        simpa using hall n h10 hn
      · rw [Nat.toDigits_of_base_le (by decide) (by omega),
          List.head?_append_of_ne_nil _ Nat.toDigits_ne_nil]
        exact ih (n / 10) (by omega) (by omega)
  rw [digits_eq] at h ⊢
  rw [List.head?_map, Option.map_eq_some_iff] at h
  obtain ⟨c, hc, h30⟩ := h
  have hmem : c ∈ Nat.toDigits 10 n := List.mem_of_mem_head? hc
  have hdig := toNat_of_isDigit (isDigit_toDigits hmem)
  have h0 : c = '0' := by
    have hval : c.toNat = 48 := by rw [← hdig.1, h30]; rfl
    exact Char.toNat_inj.mp hval
  have hn : n = 0 := by
    by_contra hne
    exact hzero n (by omega) (by rw [hc, h0])
  rw [hn]
  rfl

/-! ### Numbers -/

/-- A number is read by `number`. -/
theorem value_number (d : ℕ) {c : UInt8} {t : Bytes} (hc : c = 0x2d ∨ isDigit c = true) :
    value (d + 1) (c :: t) = number (c :: t) := by
  have hne : ∀ x ∈ ([0x20, 0x09, 0x0a, 0x0d, 0x22, 0x7b, 0x5b, 0x74, 0x66, 0x6e] : Bytes),
      c ≠ x := by
    rintro x hx rfl
    rcases hc with rfl | hc
    · exact absurd hx (by decide)
    · have hno : ∀ x ∈ ([0x20, 0x09, 0x0a, 0x0d, 0x22, 0x7b, 0x5b, 0x74, 0x66, 0x6e] : Bytes),
          isDigit x = false := by decide +kernel
      rw [hno c hx] at hc
      cases hc
  simp only [List.forall_mem_cons] at hne
  obtain ⟨h1, h2, h3, h4, h5, h6, h7, h8, h9, h10, -⟩ := hne
  have hws : isWs c = false := by simp [isWs, h1, h2, h3, h4]
  have hskip : skipWs (c :: t) = c :: t := skipWs_blank blank_nil hws t
  rw [value, hskip]
  dsimp only
  rw [if_neg h5, if_neg h6, if_neg h7, if_neg h8, if_neg h9, if_neg h10]

/-- The digits of a number without a leading zero. -/
structure Whole (ds : Bytes) : Prop where
  digits : Digits ds
  ne_nil : ds ≠ []
  lead : ds.head? = some 0x30 → ds.length = 1

theorem whole_digits (n : ℕ) : Whole (digits n) :=
  ⟨digits_digits n, digits_ne_nil n, digits_head n⟩

/-- A fraction, or nothing. -/
def IsFraction (f : Bytes) : Prop := f = [] ∨ ∃ ds, Digits ds ∧ ds ≠ [] ∧ f = 0x2e :: ds

/-- An exponent, or nothing. -/
def IsExponent (e : Bytes) : Prop :=
  e = [] ∨ ∃ c s ds, (c = 0x65 ∨ c = 0x45) ∧ (s = [] ∨ s = [0x2b] ∨ s = [0x2d]) ∧
    Digits ds ∧ ds ≠ [] ∧ e = c :: (s ++ ds)

theorem digits_takeWhile (t : Bytes) : Digits (t.takeWhile isDigit) := fun _ hc =>
  List.mem_takeWhile_imp hc

theorem isFraction_of_fraction {t f r : Bytes} (h : fraction t = some (f, r)) : IsFraction f := by
  unfold fraction at h
  split at h
  · next c t' =>
    split_ifs at h with hc hd
    · cases h
      rw [hc]
      exact Or.inr ⟨_, digits_takeWhile t', hd, rfl⟩
    · cases h
      exact Or.inl rfl
  · cases h
    exact Or.inl rfl

theorem isExponent_of_exponent {t e r : Bytes} (h : exponent t = some (e, r)) : IsExponent e := by
  unfold exponent at h
  split at h
  · next c t' =>
    split_ifs at h with hc hd
    · cases h
      refine Or.inr ⟨c, (sign t').1, _, hc, ?_, digits_takeWhile _, hd, rfl⟩
      unfold sign
      split
      · split_ifs with hs
        · rcases hs with rfl | rfl
          · exact Or.inr (Or.inl rfl)
          · exact Or.inr (Or.inr rfl)
        · exact Or.inl rfl
      · exact Or.inl rfl
    · cases h
      exact Or.inl rfl
  · cases h
    exact Or.inl rfl

theorem exponent_append {x e : Bytes} (hx : IsExponent x) (he : Ends e) :
    exponent (x ++ e) = some (x, e) ∧ Stops (x ++ e) ∧ (x ++ e).head? ≠ some 0x2e := by
  rcases hx with rfl | ⟨c, s, ds, hc, hs, hds, hne, rfl⟩
  · rw [List.nil_append]
    refine ⟨?_, he.stops, fun h => absurd (he _ h) (by decide)⟩
    rcases e with _ | ⟨c, e⟩
    · rfl
    · have hsep := he c rfl
      have hne : ¬ (c = 0x65 ∨ c = 0x45) := by
        rintro (rfl | rfl) <;> exact absurd hsep (by decide)
      rw [exponent, if_neg hne]
  · have htake := takeWhile_digits hds he.stops
    have hsign : sign (s ++ (ds ++ e)) = (s, ds ++ e) := by
      rcases hs with rfl | rfl | rfl
      · obtain ⟨d, ds, rfl⟩ := List.exists_cons_of_ne_nil hne
        have hd := hds d (List.mem_cons_self ..)
        have hn : ¬ (d = 0x2b ∨ d = 0x2d) := by
          rintro (rfl | rfl) <;> cases hd
        simp [sign, hn]
      · rfl
      · rfl
    refine ⟨?_, ?_, ?_⟩
    · rw [List.cons_append, List.append_assoc, exponent, if_pos hc, hsign]
      dsimp only
      rw [htake.1, htake.2, if_neg hne]
      rfl
    · rcases hc with rfl | rfl <;> exact stops_cons rfl _
    · rcases hc with rfl | rfl <;> simp

theorem fraction_append {f t : Bytes} (hf : IsFraction f) (ht : Stops t)
    (hdot : t.head? ≠ some 0x2e) : fraction (f ++ t) = some (f, t) ∧ Stops (f ++ t) := by
  rcases hf with rfl | ⟨ds, hds, hne, rfl⟩
  · refine ⟨?_, ht⟩
    rw [List.nil_append]
    rcases t with _ | ⟨c, t⟩
    · rfl
    · have hc : ¬ c = 0x2e := fun h => hdot (by rw [h]; rfl)
      rw [fraction, if_neg hc]
  · obtain ⟨h1, h2⟩ := takeWhile_digits hds ht
    refine ⟨?_, stops_cons rfl _⟩
    rw [List.cons_append, fraction, if_pos rfl, h1, h2, if_neg hne]

/-- **A number reads back from its parts.** -/
theorem unsigned_append {ds f x e : Bytes} (hds : Whole ds) (hf : IsFraction f)
    (hx : IsExponent x) (he : Ends e) (s : Bytes) :
    unsigned s (ds ++ (f ++ (x ++ e))) =
      some (if f = [] ∧ x = [] then .int (int64 (if s = [] then decimal ds else -decimal ds))
        else .double (s ++ ds ++ f ++ x), e) := by
  obtain ⟨hexp, hstop, hdot⟩ := exponent_append hx he
  obtain ⟨hfrac, hstop'⟩ := fraction_append hf hstop hdot
  obtain ⟨htake, hdrop⟩ := takeWhile_digits hds.digits hstop'
  have hok : ¬ (ds = [] ∨ (ds.head? = some 0x30 ∧ ds.length ≠ 1)) := by
    rintro (h | ⟨h1, h2⟩)
    · exact hds.ne_nil h
    · exact h2 (hds.lead h1)
  rw [unsigned]
  simp only [htake, hdrop, hok, if_false, hfrac, Option.bind_some, hexp, Option.map_some]
  split_ifs <;> rfl

/-- The parts a number is read from. -/
theorem unsigned_parts {s t r : Bytes} {j : Json} (h : unsigned s t = some (j, r)) :
    ∃ ds f x, Whole ds ∧ IsFraction f ∧ IsExponent x ∧
      j = if f = [] ∧ x = [] then .int (int64 (if s = [] then decimal ds else -decimal ds))
        else .double (s ++ ds ++ f ++ x) := by
  rw [unsigned] at h
  split at h
  · cases h
  next hok =>
  simp only [not_or, not_and, not_not] at hok
  obtain ⟨⟨f, t₁⟩, hf, h⟩ := Option.bind_eq_some_iff.mp h
  obtain ⟨⟨x, t₂⟩, hx, h⟩ := Option.map_eq_some_iff.mp h
  refine ⟨_, f, x, ⟨digits_takeWhile t, hok.1, hok.2⟩, isFraction_of_fraction hf,
    isExponent_of_exponent hx, ?_⟩
  dsimp only at h
  by_cases hint : f = [] ∧ x = []
  · rw [if_pos hint] at h ⊢
    cases h
    rfl
  · rw [if_neg hint] at h ⊢
    cases h
    rfl

theorem int64_int64 (i : ℤ) : int64 (int64 i) = int64 i := by
  unfold int64
  split_ifs <;> omega

/-- The digits of an integer with their sign. -/
theorem lit_toString (i : ℤ) : lit (toString i) =
    if 0 ≤ i then digits i.toNat else 0x2d :: digits (-i).toNat := by
  cases i with
  | ofNat n => rfl
  | negSucc n =>
    show lit ("-" ++ toString (n + 1)) = _
    rw [lit, String.toList_append]
    rfl

/-- What starts as a number is read by `number`. -/
theorem value_of_number (d : ℕ) {t : Bytes} {p : Json × Bytes} (h : number t = some p) :
    value (d + 1) t = some p := by
  rcases t with _ | ⟨c, t⟩
  · cases h
  · rw [← h]
    refine value_number d ?_
    by_cases hc : c = 0x2d
    · exact Or.inl hc
    · rw [number, if_neg hc, unsigned] at h
      by_contra hno
      rw [not_or, Bool.not_eq_true] at hno
      have hnil : (c :: t).takeWhile isDigit = [] := by simp [hno.2]
      simp [hnil] at h

/-- **A number reads back with its sign.** -/
theorem number_append {s ds f x e : Bytes} (hs : s = [] ∨ s = [0x2d]) (hds : Whole ds)
    (hf : IsFraction f) (hx : IsExponent x) (he : Ends e) :
    number (s ++ (ds ++ (f ++ (x ++ e)))) =
      some (if f = [] ∧ x = [] then .int (int64 (if s = [] then decimal ds else -decimal ds))
        else .double (s ++ ds ++ f ++ x), e) := by
  rw [← unsigned_append hds hf hx he s]
  rcases hs with rfl | rfl
  · obtain ⟨c, u, rfl⟩ := List.exists_cons_of_ne_nil hds.ne_nil
    have hc : isDigit c = true := hds.digits c (List.mem_cons_self ..)
    have hsign : c ≠ 0x2d := by
      rintro rfl
      cases hc
    rw [List.nil_append, List.cons_append, number, if_neg hsign]
  · rw [List.cons_append, List.nil_append, number, if_pos rfl]

/-- **An integer reads back.** -/
theorem number_int {i : ℤ} (hi : int64 i = i) {e : Bytes} (he : Ends e) :
    number (print (.int i) ++ e) = some (.int i, e) := by
  have hun {s : Bytes} (hs : s = [] ∨ s = [0x2d]) (n : ℕ) : number (s ++ (digits n ++ e)) =
      some (.int (int64 (if s = [] then (n : ℤ) else -n)), e) := by
    have h := number_append hs (whole_digits n) (Or.inl rfl) (Or.inl rfl) he
    simpa [decimal_digits] using h
  rw [print, lit_toString]
  split_ifs with h0
  · have hnat : (i.toNat : ℤ) = i := Int.toNat_of_nonneg h0
    rw [← List.nil_append (digits _ ++ e), hun (Or.inl rfl), if_pos rfl, hnat, hi]
  · have hneg : (-((-i).toNat : ℤ)) = i := by omega
    rw [List.cons_append, ← List.singleton_append, hun (Or.inr rfl),
      if_neg (List.cons_ne_nil _ _), hneg, hi]

/-- A number that is no integer reads back. -/
theorem number_double {s ds f x e : Bytes} (hs : s = [] ∨ s = [0x2d]) (hds : Whole ds)
    (hf : IsFraction f) (hx : IsExponent x) (hne : ¬ (f = [] ∧ x = [])) (he : Ends e) :
    number (print (.double (s ++ ds ++ f ++ x)) ++ e) = some (.double (s ++ ds ++ f ++ x), e) := by
  have htext : print (.double (s ++ ds ++ f ++ x)) ++ e = s ++ (ds ++ (f ++ (x ++ e))) := by
    simp [print]
  rw [htext, number_append hs hds hf hx he, if_neg hne]

/-- The parts a number is read from, with its sign. -/
theorem number_parts {t r : Bytes} {j : Json} (h : number t = some (j, r)) :
    ∃ s ds f x, (s = [] ∨ s = [0x2d]) ∧ Whole ds ∧ IsFraction f ∧ IsExponent x ∧
      j = if f = [] ∧ x = [] then .int (int64 (if s = [] then decimal ds else -decimal ds))
        else .double (s ++ ds ++ f ++ x) := by
  unfold number at h
  split at h
  · split_ifs at h with hc
    · rw [hc] at h
      obtain ⟨ds, f, x, hparts⟩ := unsigned_parts h
      exact ⟨[0x2d], ds, f, x, Or.inr rfl, hparts⟩
    · obtain ⟨ds, f, x, hparts⟩ := unsigned_parts h
      exact ⟨[], ds, f, x, Or.inl rfl, hparts⟩
  · cases h

/-- A number is an integer or kept as written. -/
theorem number_kinds {t r : Bytes} {j : Json} (h : number t = some (j, r)) :
    (∃ i, j = .int i) ∨ ∃ raw, j = .double raw := by
  obtain ⟨s, ds, f, x, -, -, -, -, hj⟩ := number_parts h
  by_cases hint : f = [] ∧ x = []
  · exact Or.inl ⟨_, hj.trans (if_pos hint)⟩
  · exact Or.inr ⟨_, hj.trans (if_neg hint)⟩

/-- **A number that was read reads back.** -/
theorem number_print {t r : Bytes} {j : Json} (h : number t = some (j, r)) {e : Bytes}
    (he : Ends e) : number (print j ++ e) = some (j, e) := by
  obtain ⟨s, ds, f, x, hs, hds, hf, hx, rfl⟩ := number_parts h
  by_cases hint : f = [] ∧ x = []
  · rw [if_pos hint]
    exact number_int (int64_int64 _) he
  · rw [if_neg hint]
    exact number_double hs hds hf hx hint he

theorem printed_number (d : ℕ) {t r : Bytes} {j : Json} (h : number t = some (j, r)) :
    Printed (d + 1) j := by
  refine ⟨fun e he => value_of_number d (number_print h he), ?_⟩
  obtain ⟨u, -, hatom⟩ := number_atom h
  exact hatom.2.1.notMem_zero

/-! ### Strings -/

theorem hexVal_hexDigit : ∀ n < 16, hexVal (hexDigit n) = some n := by decide

/-- A byte that is printed is read as itself. -/
theorem scan_escape (c : UInt8) (t : Bytes) :
    scan none .plain (escape c ++ t) = emit [c] (scan none .plain t) := by
  have hpair {x : UInt8} (hx : unescape x = some c) (h75 : x ≠ 0x75) :
      scan none .plain (0x5c :: x :: t) = emit [c] (scan none .plain t) := by
    rw [scan, if_neg (by decide), if_pos rfl, scan, if_neg h75, hx]
    rfl
  unfold escape
  split_ifs with h1 h2 h3 h4 h5 h6 h7
  · refine hpair ?_ ?_
    · simp [unescape, h1]
    · rintro rfl
      exact absurd h1 (by decide)
  · exact hpair (by rw [h2]; rfl) (by decide)
  · exact hpair (by rw [h3]; rfl) (by decide)
  · exact hpair (by rw [h4]; rfl) (by decide)
  · exact hpair (by rw [h5]; rfl) (by decide)
  · exact hpair (by rw [h6]; rfl) (by decide)
  · -- a control character is printed as a code unit
    have hlt : c.toNat < 32 := UInt8.lt_iff_toNat_lt.mp h7
    have hhi := hexVal_hexDigit (c.toNat / 16) (by omega)
    have hlo := hexVal_hexDigit (c.toNat % 16) (by omega)
    have h0 : hexVal 0x30 = some 0 := rfl
    have hval : (0 * 16 + 0) * 16 + 0 = 0 := rfl
    have hcode : codeUnit none (((0 * 16 + 0) * 16 + c.toNat / 16) * 16 + c.toNat % 16) =
        ([c], none) := by
      have hn : ((0 * 16 + 0) * 16 + c.toNat / 16) * 16 + c.toNat % 16 = c.toNat := by omega
      rw [hn]
      have h80 : c.toNat < 0x80 := by omega
      have hs1 : ¬ (0xd800 ≤ c.toNat ∧ c.toNat < 0xdc00) := by omega
      have hs2 : ¬ (0xdc00 ≤ c.toNat ∧ c.toNat < 0xe000) := by omega
      simp [codeUnit, loneUnit, hs1, hs2, utf8, h80]
    have htext : lit "\\u00" ++ [hexDigit (c.toNat / 16), hexDigit (c.toNat % 16)] ++ t =
        0x5c :: 0x75 :: 0x30 :: 0x30 :: hexDigit (c.toNat / 16) :: hexDigit (c.toNat % 16) :: t := by
      rfl
    rw [htext, scan, if_neg (by decide), if_pos rfl, scan, if_pos rfl, scan, h0]
    dsimp only
    rw [if_neg (by decide), scan, h0]
    dsimp only
    rw [if_neg (by decide), scan, hhi]
    dsimp only
    rw [if_neg (by decide), scan, hlo]
    dsimp only
    rw [if_pos (by decide), hcode]
  · simp only [not_or] at h1
    rw [List.singleton_append, scan, if_neg h1.1, if_neg h1.2.1, if_neg h7]
    rfl

/-- **A string that is printed is read as itself.** -/
theorem scan_printed (s t : Bytes) :
    scan none .plain (s.flatMap escape ++ 0x22 :: t) = some (s, t) := by
  induction s with
  | nil => rfl
  | cons c s ih =>
    rw [List.flatMap_cons, List.append_assoc, scan_escape, ih]
    rfl

/-- A printed string with its opening quote taken. -/
theorem printStr_append (s t : Bytes) :
    printStr s ++ t = 0x22 :: (s.flatMap escape ++ 0x22 :: t) := by
  simp [printStr]

theorem notMem_zero_printStr (s : Bytes) : (0 : UInt8) ∉ printStr s := by
  have hescape (c : UInt8) : (0 : UInt8) ∉ escape c := by
    have hhex : ∀ n < 16, hexDigit n ≠ 0 := by decide
    unfold escape
    split_ifs with h1 h2 h3 h4 h5 h6 h7
    · rcases h1 with rfl | rfl | rfl <;> decide
    · decide
    · decide
    · decide
    · decide
    · decide
    · have hlt := c.toNat_lt
      have hu : (0 : UInt8) ∉ lit "\\u00" := by decide
      simp only [List.mem_append, List.mem_cons, List.not_mem_nil, or_false, not_or]
      exact ⟨hu, (hhex _ (by omega)).symm, (hhex _ (by omega)).symm⟩
    · intro h0
      rw [← List.mem_singleton.mp h0] at h7
      exact h7 (by decide)
  simp only [printStr, List.mem_append, List.mem_singleton, List.mem_flatMap, not_or, not_exists,
    not_and]
  exact ⟨⟨by decide, fun c _ => hescape c⟩, by decide⟩

theorem printed_str (d : ℕ) (s : Bytes) : Printed (d + 1) (.str s) := by
  refine ⟨fun e _ => ?_, notMem_zero_printStr s⟩
  rw [print, printStr_append, ← List.nil_append (0x22 :: _), value_str d blank_nil, scan_printed]
  rfl

/-! ### Words -/

theorem word_self (w t : Bytes) : word w (w ++ t) = some t := by
  induction w with
  | nil => rfl
  | cons c w ih => rw [List.cons_append, word, if_pos rfl, ih]

theorem printed_word (d : ℕ) {j : Json} (hj : j = .null ∨ ∃ b, j = .bool b) :
    Printed (d + 1) j := by
  have hw (c : UInt8) (hc : isWs c = false) (t : Bytes) : skipWs (c :: t) = c :: t :=
    skipWs_blank blank_nil hc t
  rcases hj with rfl | ⟨b, rfl⟩
  · refine ⟨fun e _ => ?_, by decide⟩
    have htext : print .null ++ e = 0x6e :: (lit "ull" ++ e) := rfl
    rw [htext, value, hw _ (by decide)]
    simp [word_self]
  · cases b with
    | true =>
      refine ⟨fun e _ => ?_, by decide⟩
      have htext : print (.bool true) ++ e = 0x74 :: (lit "rue" ++ e) := rfl
      rw [htext, value, hw _ (by decide)]
      simp [word_self]
    | false =>
      refine ⟨fun e _ => ?_, by decide⟩
      have htext : print (.bool false) ++ e = 0x66 :: (lit "alse" ++ e) := rfl
      rw [htext, value, hw _ (by decide)]
      simp [word_self]

/-! ### Arrays -/

theorem value_blank (d : ℕ) {b : Bytes} (hb : Blank b) (t : Bytes) :
    value d (b ++ t) = value d t := by
  rcases d with _ | d
  · rfl
  · have hskip : skipWs (b ++ t) = skipWs t := List.dropWhile_append_of_pos hb
    rw [value, value, hskip]

theorem blank_space : Blank [0x20] := by decide

/-- No value starts with a closing bracket. -/
theorem value_closing (d : ℕ) (t : Bytes) : value d (0x5d :: t) = none := by
  rcases d with _ | d
  · rfl
  · have hskip : skipWs (0x5d :: t) = 0x5d :: t := skipWs_blank blank_nil rfl t
    rw [value, hskip]
    rfl

/-- What comes next is no closing bracket, if a value is read. -/
theorem expect_closing {d : ℕ} {t : Bytes} (h : value d t ≠ none) : expect 0x5d t = none := by
  rcases he : expect 0x5d t with _ | r
  · rfl
  · obtain ⟨b, hb, rfl⟩ := expect_eq_some he
    rw [value_blank d hb, value_closing] at h
    exact absurd rfl h

theorem printElements_cons (j : Json) {l : List Json} (hl : l ≠ []) :
    printElements (j :: l) = print j ++ lit ", " ++ printElements l := by
  rw [printElements]
  exact hl

theorem length_le_printElements (l : List Json) : l.length ≤ (printElements l).length := by
  induction l with
  | nil => exact Nat.zero_le _
  | cons j l ih =>
    rcases eq_or_ne l [] with rfl | hl
    · have h1 : (lit " ").length = 1 := rfl
      rw [printElements, List.length_append, h1]
      simp
    · have h2 : (lit ", ").length = 2 := rfl
      rw [printElements_cons j hl]
      simp only [List.length_append, List.length_cons, h2]
      omega

theorem elements_printed {d n : ℕ} {l : List Json} (h : ∀ j ∈ l, Printed d j) (hne : l ≠ [])
    (hn : l.length ≤ n) {b : Bytes} (hb : Blank b) (e : Bytes) :
    elements (value d) n (b ++ (printElements l ++ 0x5d :: e)) = some (l, e) := by
  induction l generalizing n b with
  | nil => exact absurd rfl hne
  | cons j l ih =>
    obtain ⟨hj, hl⟩ := List.forall_mem_cons.mp h
    obtain ⟨n, rfl⟩ : ∃ m, n = m + 1 := ⟨n - 1, by rw [List.length_cons] at hn; omega⟩
    rcases eq_or_ne l [] with rfl | hlne
    · have hv : value d (b ++ (printElements [j] ++ 0x5d :: e)) = some (j, 0x20 :: 0x5d :: e) := by
        rw [value_blank d hb, printElements, List.append_assoc]
        exact hj.reads _ (ends_cons (by decide) _)
      have hcomma : expect 0x2c (0x20 :: 0x5d :: e) = none :=
        expect_ne blank_space rfl (by decide) e
      have hclose : expect 0x5d (0x20 :: 0x5d :: e) = some e := expect_self blank_space rfl e
      rw [elements, hv, Option.bind_some, hcomma, hclose]
      rfl
    · have hv : value d (b ++ (printElements (j :: l) ++ 0x5d :: e)) =
          some (j, 0x2c :: ([0x20] ++ (printElements l ++ 0x5d :: e))) := by
        rw [value_blank d hb, printElements_cons j hlne, List.append_assoc, List.append_assoc]
        exact hj.reads _ (ends_cons (by decide) _)
      have hcomma (t : Bytes) : expect 0x2c (0x2c :: t) = some t := expect_self blank_nil rfl t
      rw [elements, hv, Option.bind_some, hcomma]
      dsimp only
      rw [ih hl hlne (by rw [List.length_cons] at hn; omega) blank_space]
      rfl

theorem printed_arr {d : ℕ} {l : List Json} (h : ∀ j ∈ l, Printed d j) :
    Printed (d + 1) (.arr l) := by
  have hskip (t : Bytes) : skipWs (0x5b :: t) = 0x5b :: t := skipWs_blank blank_nil rfl t
  constructor
  · intro e _
    have htext : print (.arr l) ++ e = 0x5b :: ([0x20] ++ (printElements l ++ 0x5d :: e)) := by
      simp [print, lit]
    rw [htext, value, hskip]
    dsimp only
    rw [if_neg (by decide), if_neg (by decide), if_pos rfl]
    rcases eq_or_ne l [] with rfl | hne
    · have hclose : expect 0x5d ([0x20] ++ (printElements [] ++ 0x5d :: e)) = some e :=
        expect_self blank_space rfl e
      rw [hclose]
    · have hlen : l.length ≤ ([0x20] ++ (printElements l ++ 0x5d :: e)).length := by
        have := length_le_printElements l
        simp only [List.length_append, List.length_cons]
        omega
      have hel := elements_printed h hne hlen blank_space e
      have hval : value d ([0x20] ++ (printElements l ++ 0x5d :: e)) ≠ none := by
        intro hnone
        obtain ⟨n, hn⟩ : ∃ m, ([0x20] ++ (printElements l ++ 0x5d :: e)).length = m + 1 :=
          ⟨_, rfl⟩
        rw [hn, elements, hnone] at hel
        cases hel
      rw [expect_closing hval, hel]
      rfl
  · have hl : ∀ l : List Json, (∀ j ∈ l, Printed d j) → (0 : UInt8) ∉ printElements l := by
      intro l
      induction l with
      | nil => exact fun _ => List.not_mem_nil
      | cons j l ih =>
        intro h
        obtain ⟨hj, hl⟩ := List.forall_mem_cons.mp h
        have h1 : (0 : UInt8) ∉ lit " " := by decide
        have h2 : (0 : UInt8) ∉ lit ", " := by decide
        rcases eq_or_ne l [] with rfl | hlne
        · simp [printElements, hj.clean, h1]
        · simp [printElements_cons j hlne, hj.clean, h2, ih hl]
    have h1 : (0 : UInt8) ∉ lit "[ " := by decide
    have h2 : (0 : UInt8) ∉ lit "]" := by decide
    simp [print, hl l h, h1, h2]

/-! ### Objects -/

/-- The keys of an object are distinct C strings. -/
structure Keys (o : Obj) : Prop where
  nodup : (o.map Prod.fst).Nodup
  clean : ∀ p ∈ o, (0 : UInt8) ∉ p.1

theorem keys_nil : Keys [] := ⟨List.nodup_nil, fun _ hp => absurd hp List.not_mem_nil⟩

theorem add_of_notMem {o : Obj} {k : Bytes} (h : k ∉ o.map Prod.fst) (j : Json) :
    add o k j = o ++ [(k, j)] := by
  induction o with
  | nil => rfl
  | cons p o ih =>
    obtain ⟨k', j'⟩ := p
    simp only [List.map_cons, List.mem_cons, not_or] at h
    rw [add, if_neg (Ne.symm h.1), ih h.2]
    rfl

theorem mem_keys_add {o : Obj} {k l : Bytes} {j : Json} (h : l ∈ (add o k j).map Prod.fst) :
    l ∈ o.map Prod.fst ∨ l = k := by
  induction o with
  | nil => exact Or.inr (List.mem_singleton.mp h)
  | cons p o ih =>
    obtain ⟨k', j'⟩ := p
    unfold add at h
    split_ifs at h with hk
    · rcases List.mem_cons.mp h with h | h
      · exact Or.inr h
      · exact Or.inl (.tail _ h)
    · rcases List.mem_cons.mp h with h | h
      · exact Or.inl (by rw [h]; exact .head _)
      · exact (ih h).imp (.tail _) id

theorem nodup_keys_add {o : Obj} (h : (o.map Prod.fst).Nodup) (k : Bytes) (j : Json) :
    ((add o k j).map Prod.fst).Nodup := by
  induction o with
  | nil => simp [add]
  | cons p o ih =>
    obtain ⟨k', j'⟩ := p
    obtain ⟨hk', ho⟩ := List.nodup_cons.mp h
    unfold add
    split_ifs with hk
    · rw [List.map_cons, List.nodup_cons, ← hk]
      exact ⟨hk', ho⟩
    · rw [List.map_cons, List.nodup_cons]
      refine ⟨fun hm => ?_, ih ho⟩
      rcases mem_keys_add hm with hm | hm
      · exact hk' hm
      · exact hk hm

theorem Keys.add {o : Obj} (h : Keys o) {k : Bytes} (hk : (0 : UInt8) ∉ k) (j : Json) :
    Keys (add o k j) := by
  refine ⟨nodup_keys_add h.nodup k j, fun p hp => ?_⟩
  rcases mem_keys_add (List.mem_map_of_mem hp) with hm | hm
  · obtain ⟨q, hq, he⟩ := List.mem_map.mp hm
    rw [← he]
    exact h.clean q hq
  · rw [hm]
    exact hk

theorem printMembers_cons (k : Bytes) (j : Json) {o : Obj} (ho : o ≠ []) :
    printMembers ((k, j) :: o) =
      printStr k ++ lit ": " ++ print j ++ lit ", " ++ printMembers o := by
  rw [printMembers]
  exact ho

theorem length_le_printMembers (o : Obj) : o.length ≤ (printMembers o).length := by
  induction o with
  | nil => exact Nat.zero_le _
  | cons p o ih =>
    obtain ⟨k, j⟩ := p
    rcases eq_or_ne o [] with rfl | ho
    · have h1 : (lit " ").length = 1 := rfl
      rw [printMembers, List.length_append, h1]
      simp
    · have h2 : (lit ", ").length = 2 := rfl
      rw [printMembers_cons k j ho]
      simp only [List.length_append, List.length_cons, h2]
      omega

theorem members_printed {d n : ℕ} {acc o : Obj} (h : ∀ p ∈ o, Printed d p.2)
    (hkeys : Keys (acc ++ o)) (hne : o ≠ []) (hn : o.length ≤ n) {b : Bytes} (hb : Blank b)
    (e : Bytes) :
    members (value d) n acc (b ++ (printMembers o ++ 0x7d :: e)) = some (acc ++ o, e) := by
  induction o generalizing n b acc with
  | nil => exact absurd rfl hne
  | cons p o ih =>
    obtain ⟨k, j⟩ := p
    obtain ⟨hj, ho⟩ := List.forall_mem_cons.mp h
    obtain ⟨n, rfl⟩ : ∃ m, n = m + 1 := ⟨n - 1, by rw [List.length_cons] at hn; omega⟩
    have hk : cstr k = k := cstr_of_notMem (hkeys.clean (k, j) (by simp))
    have hadd : add acc k j = acc ++ [(k, j)] := by
      refine add_of_notMem (fun hm => ?_) j
      have hnd := hkeys.nodup
      rw [List.map_append, List.nodup_append] at hnd
      exact hnd.2.2 k hm k (by simp) rfl
    have hcolon (t : Bytes) : expect 0x3a (lit ": " ++ t) = some ([0x20] ++ t) :=
      expect_self blank_nil rfl _
    rcases eq_or_ne o [] with rfl | hone
    · have htext : printMembers [(k, j)] ++ 0x7d :: e =
          printStr k ++ (lit ": " ++ (print j ++ (0x20 :: 0x7d :: e))) := by
        simp [printMembers, lit]
      have hcomma : expect 0x2c (0x20 :: 0x7d :: e) = none :=
        expect_ne blank_space rfl (by decide) e
      have hclose : expect 0x7d (0x20 :: 0x7d :: e) = some e := expect_self blank_space rfl e
      rw [htext, members, printStr_append, expect_self hb rfl, Option.bind_some, scan_printed,
        Option.bind_some, hcolon, Option.bind_some, value_blank d blank_space,
        hj.reads _ (ends_cons (by decide) _), Option.bind_some]
      dsimp only
      rw [hcomma, hclose, hk, hadd]
      rfl
    · have htext : printMembers ((k, j) :: o) ++ 0x7d :: e = printStr k ++ (lit ": " ++
          (print j ++ (0x2c :: ([0x20] ++ (printMembers o ++ 0x7d :: e))))) := by
        simp [printMembers_cons k j hone, lit]
      have hcomma (t : Bytes) : expect 0x2c (0x2c :: t) = some t := expect_self blank_nil rfl t
      have hkeys' : Keys ((acc ++ [(k, j)]) ++ o) := by simpa using hkeys
      rw [htext, members, printStr_append, expect_self hb rfl, Option.bind_some, scan_printed,
        Option.bind_some, hcolon, Option.bind_some, value_blank d blank_space,
        hj.reads _ (ends_cons (by decide) _), Option.bind_some]
      dsimp only
      rw [hcomma, hk, hadd]
      dsimp only
      rw [ih ho hkeys' hone (by rw [List.length_cons] at hn; omega) blank_space]
      simp

theorem printed_obj {d : ℕ} {o : Obj} (h : ∀ p ∈ o, Printed d p.2) (hkeys : Keys o) :
    Printed (d + 1) (.obj o) := by
  have hskip (t : Bytes) : skipWs (0x7b :: t) = 0x7b :: t := skipWs_blank blank_nil rfl t
  constructor
  · intro e _
    have htext : print (.obj o) ++ e = 0x7b :: ([0x20] ++ (printMembers o ++ 0x7d :: e)) := by
      simp [print, lit]
    rw [htext, value, hskip]
    dsimp only
    rw [if_neg (by decide), if_pos rfl]
    rcases eq_or_ne o [] with rfl | hne
    · have hclose : expect 0x7d ([0x20] ++ (printMembers [] ++ 0x7d :: e)) = some e :=
        expect_self blank_space rfl e
      rw [hclose]
    · have hlen : o.length ≤ ([0x20] ++ (printMembers o ++ 0x7d :: e)).length := by
        have := length_le_printMembers o
        simp only [List.length_append, List.length_cons]
        omega
      have hkeys' : Keys ([] ++ o) := hkeys
      have hmem := members_printed h hkeys' hne hlen blank_space e
      have hopen : expect 0x7d ([0x20] ++ (printMembers o ++ 0x7d :: e)) = none := by
        rcases o with _ | ⟨⟨k, j⟩, o⟩
        · exact absurd rfl hne
        · obtain ⟨t, ht⟩ : ∃ t, printMembers ((k, j) :: o) ++ 0x7d :: e = 0x22 :: t := by
            rcases eq_or_ne o [] with rfl | hone
            · exact ⟨_, by rw [printMembers, List.append_assoc, List.append_assoc,
                List.append_assoc, printStr_append]⟩
            · exact ⟨_, by rw [printMembers_cons k j hone, List.append_assoc, List.append_assoc,
                List.append_assoc, List.append_assoc, printStr_append]⟩
          rw [ht]
          exact expect_ne blank_space rfl (by decide) t
      rw [hopen, hmem]
      rfl
  · have ho : ∀ o : Obj, (∀ p ∈ o, Printed d p.2) → (0 : UInt8) ∉ printMembers o := by
      intro o
      induction o with
      | nil => exact fun _ => List.not_mem_nil
      | cons p o ih =>
        obtain ⟨k, j⟩ := p
        intro h
        obtain ⟨hj, ho⟩ := List.forall_mem_cons.mp h
        have h1 : (0 : UInt8) ∉ lit " " := by decide
        have h2 : (0 : UInt8) ∉ lit ", " := by decide
        have h3 : (0 : UInt8) ∉ lit ": " := by decide
        have hk := notMem_zero_printStr k
        rcases eq_or_ne o [] with rfl | hone
        · simp [printMembers, hj.clean, h1, h3, hk]
        · simp [printMembers_cons k j hone, hj.clean, h2, h3, hk, ih ho]
    have h1 : (0 : UInt8) ∉ lit "\x7b " := by decide
    have h2 : (0 : UInt8) ∉ lit "\x7d" := by decide
    simp [print, ho o h, h1, h2]

/-! ### What is read is printed so -/

section
variable {pv : Bytes → Option (Json × Bytes)} {P : Json → Prop}
  (hpv : ∀ {t j r}, pv t = some (j, r) → P j)

include hpv

theorem elements_ok {n : ℕ} {l : List Json} {t r : Bytes} (h : elements pv n t = some (l, r)) :
    ∀ j ∈ l, P j := by
  induction n generalizing l t with
  | zero => cases h
  | succ n ih =>
    obtain ⟨j, t₁, hj, ⟨t₂, l', -, hl, rfl⟩ | ⟨-, rfl⟩⟩ := elements_cases h
    · exact List.forall_mem_cons.mpr ⟨hpv hj, ih hl⟩
    · intro j' hj'
      rw [List.mem_singleton.mp hj']
      exact hpv hj

theorem members_ok {n : ℕ} {o o' : Obj} {t r : Bytes} (h : members pv n o t = some (o', r))
    (ho : ∀ p ∈ o, P p.2) (hkeys : Keys o) : (∀ p ∈ o', P p.2) ∧ Keys o' := by
  induction n generalizing o t with
  | zero => cases h
  | succ n ih =>
    obtain ⟨k, j, t₁, hm, hrest⟩ := members_cases h
    obtain ⟨_, _, x, _, _, _, _, _, rfl, _, hj⟩ := hm
    have hadd : ∀ p ∈ add o (cstr x) j, P p.2 := by
      intro p hp
      rcases mem_add hp with hp | hp
      · exact ho p hp
      · rw [hp]
        exact hpv hj
    have hkeys' : Keys (add o (cstr x) j) := hkeys.add (notMem_cstr x) j
    rcases hrest with ⟨t₂, -, hrest⟩ | ⟨-, rfl⟩
    · exact ih hrest hadd hkeys'
    · exact ⟨hadd, hkeys'⟩

end

/-- **What holds of every value that is read**, it holds of numbers, strings and words, and of an
array and an object if it holds of what is in them. -/
theorem value_rule {P : ℕ → Json → Prop}
    (hnumber : ∀ {d t j r}, number t = some (j, r) → P (d + 1) j)
    (hstr : ∀ d x, P (d + 1) (.str x))
    (hword : ∀ d {j}, (j = .null ∨ ∃ b, j = .bool b) → P (d + 1) j)
    (harr : ∀ {d l}, (∀ j ∈ l, P d j) → P (d + 1) (.arr l))
    (hobj : ∀ {d o}, (∀ p ∈ o, P d p.2) → Keys o → P (d + 1) (.obj o))
    (d : ℕ) {t r : Bytes} {j : Json} (h : value d t = some (j, r)) : P d j := by
  induction d generalizing t j r with
  | zero => cases h
  | succ d ih =>
    rw [value] at h
    split at h
    · cases h
    · split_ifs at h with h1 h2 h3 h4 h5 h6
      · obtain ⟨⟨x, r'⟩, -, h⟩ := Option.map_eq_some_iff.mp h
        cases h
        exact hstr d x
      · split at h
        · cases h
          exact hobj (fun p hp => absurd hp List.not_mem_nil) keys_nil
        · obtain ⟨⟨o, r'⟩, ho, h⟩ := Option.map_eq_some_iff.mp h
          cases h
          obtain ⟨hall, hkeys⟩ := members_ok ih ho (fun p hp => absurd hp List.not_mem_nil) keys_nil
          exact hobj hall hkeys
      · split at h
        · cases h
          exact harr fun j hj => absurd hj List.not_mem_nil
        · obtain ⟨⟨l, r'⟩, hl, h⟩ := Option.map_eq_some_iff.mp h
          cases h
          exact harr (elements_ok ih hl)
      · obtain ⟨r', -, h⟩ := Option.map_eq_some_iff.mp h
        cases h
        exact hword d (Or.inr ⟨true, rfl⟩)
      · obtain ⟨r', -, h⟩ := Option.map_eq_some_iff.mp h
        cases h
        exact hword d (Or.inr ⟨false, rfl⟩)
      · obtain ⟨r', -, h⟩ := Option.map_eq_some_iff.mp h
        cases h
        exact hword d (Or.inl rfl)
      · exact hnumber h

/-! ### What is read of a text -/

/-- The value of a member was there before, or is read from some end of the text. -/
theorem members_read {d n : ℕ} {o o' : Obj} {t r k : Bytes} {j : Json}
    (h : members (value d) n o t = some (o', r)) (hj : getEx o' k = some j) :
    getEx o k = some j ∨ ∃ t' r', t' <:+ t ∧ value d t' = some (j, r') := by
  induction n generalizing o t with
  | zero => cases h
  | succ n ih =>
    obtain ⟨k₁, j₁, t₁, hm, hrest⟩ := members_cases h
    obtain ⟨b, y, x, t₂, t₃, -, rfl, hx, -, ht₃, hv⟩ := hm
    obtain ⟨u, rfl, -⟩ := scan_cost hx
    obtain ⟨b', -, rfl⟩ := expect_eq_some ht₃
    have hsuf : t₃ <:+ b ++ 0x22 :: (u ++ 0x22 :: (b' ++ 0x3a :: t₃)) :=
      ⟨b ++ 0x22 :: (u ++ 0x22 :: (b' ++ [0x3a])), by simp⟩
    have hnow (hadd : getEx (add o k₁ j₁) k = some j) : getEx o k = some j ∨
        ∃ t' r', t' <:+ b ++ 0x22 :: (u ++ 0x22 :: (b' ++ 0x3a :: t₃)) ∧
          value d t' = some (j, r') := by
      by_cases hk : k₁ = k
      · rw [hk, getEx_add_self, Option.some.injEq] at hadd
        rw [hadd] at hv
        exact Or.inr ⟨t₃, t₁, hsuf, hv⟩
      · exact Or.inl (by rwa [getEx_add_ne o j₁ hk] at hadd)
    rcases hrest with ⟨t₄, ht₄, hrest⟩ | ⟨-, rfl⟩
    · rcases ih hrest with hadd | ⟨t', r', ht', hv'⟩
      · exact hnow hadd
      · obtain ⟨⟨w, rfl, -⟩, -⟩ := value_isRead d hv
        obtain ⟨b'', -, rfl⟩ := expect_eq_some ht₄
        have hsuf' : t₄ <:+ w ++ (b'' ++ 0x2c :: t₄) := ⟨w ++ (b'' ++ [0x2c]), by simp⟩
        exact Or.inr ⟨t', r', (ht'.trans hsuf').trans hsuf, hv'⟩
    · exact hnow hj

/-- A string that is read inside of `V`, or after it, is shorter than `V`. -/
theorem cost_of_suffix {d : ℕ} {V tail t r x : Bytes} (hq : (0x22 : UInt8) ∉ tail)
    (ht : t <:+ V ++ tail) (h : value d t = some (.str x, r)) : cost x + 2 ≤ V.length := by
  rcases d with _ | d
  · cases h
  obtain ⟨b, t', -, rfl, hr⟩ := value_cases h
  cases hr with
  | str hs =>
    obtain ⟨u, rfl, hu⟩ := scan_cost hs
    -- the closing quote is no part of the tail
    have hclose : tail.length ≤ r.length := by
      by_contra hlt
      have hend : 0x22 :: r <:+ V ++ tail :=
        List.IsSuffix.trans ⟨b ++ 0x22 :: u, by simp⟩ ht
      have hin : 0x22 :: r <:+ tail :=
        List.suffix_of_suffix_length_le hend (List.suffix_append V tail)
          (by rw [List.length_cons]; omega)
      exact hq (hin.subset (List.mem_cons_self ..))
    have hlen := ht.length_le
    simp only [List.length_append, List.length_cons] at hlen
    omega
  | atom ha => exact absurd rfl (ha.2.2 x)

end LiveStreamer.Lib.JsonPrint
