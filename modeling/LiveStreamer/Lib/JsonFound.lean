import LiveStreamer.Lib.JsonTokens

/-! # Where the members of an object are found

The text a value is read from is a sequence of tokens, and so is what is printed for the value
(`value_isRead`): both have their quotes in pairs.

In a text that is inside of a string at its start, the members of an object are found after commas,
outside of all strings (`Found`, `members_found`). A value that reads as the C string `z` is either
a string, whose text costs as much as `z`, or `z` begins what is printed for it (`value_kinds`). In
the second case `z` cannot have the member itself inside (`notLexed`). -/

namespace LiveStreamer.Lib.JsonFound

open LiveStreamer.Lib.CString LiveStreamer.Lib.Tokener LiveStreamer.Lib.JsonText
open LiveStreamer.Lib.JsonStrings LiveStreamer.Lib.JsonLex LiveStreamer.Lib.JsonTokens

/-! ### What is printed -/

theorem lex_escape (c : UInt8) : lex .str (escape c) = some .str := by
  have hhex : ∀ n < 16, PlainByte (hexDigit n) := by decide
  have hpair (e : UInt8) : lex .str [0x5c, e] = some .str := rfl
  unfold escape
  split_ifs with h1 h2 h3 h4 h5 h6 h7
  · exact hpair c
  · exact hpair _
  · exact hpair _
  · exact hpair _
  · exact hpair _
  · exact hpair _
  · have hc := c.toNat_lt
    have hu : lex .str (lit "\\u00") = some .str := rfl
    have hd : Plain [hexDigit (c.toNat / 16), hexDigit (c.toNat % 16)] := by
      refine List.forall_mem_cons.mpr ⟨hhex _ (by omega), List.forall_mem_cons.mpr
        ⟨hhex _ (by omega), plain_nil⟩⟩
    rw [lex_append_some hu, (lex_plain hd).2]
  · simp only [not_or] at h1
    simp [lex, Lex.next, h1]

theorem lex_printStr (s : Bytes) : lex .out (printStr s) = some .shut := by
  have hs : lex .str (s.flatMap escape) = some .str := by
    induction s with
    | nil => rfl
    | cons c s ih => rw [List.flatMap_cons, lex_append_some (lex_escape c), ih]
  rw [printStr, List.append_assoc]
  exact lex_quoted blank_nil hs

theorem tokens_printStr (s : Bytes) : Tokens (printStr s) := ⟨.shut, lex_printStr s, Or.inr rfl⟩

/-- What is printed between values. -/
theorem Tokens.lex_lit {u : Bytes} (h : Tokens u) :
    lex .out (u ++ lit " ") = some .out ∧ lex .out (u ++ lit ", ") = some .out ∧
      lex .out (u ++ lit ": ") = some .out := by
  obtain ⟨l, hl, rfl | rfl⟩ := h <;> simp only [lex_append_some hl] <;> decide

theorem lex_printElements {l : List Json} (h : ∀ j ∈ l, Tokens (print j)) :
    lex .out (printElements l) = some .out := by
  induction l with
  | nil => rfl
  | cons j l ih =>
    obtain ⟨hj, hl⟩ := List.forall_mem_cons.mp h
    rcases l with _ | ⟨j', l⟩
    · rw [printElements]
      exact (Tokens.lex_lit hj).1
    · rw [printElements]
      · exact lex_out_append (Tokens.lex_lit hj).2.1 (ih hl)
      · exact List.cons_ne_nil _ _

theorem lex_printMembers {o : Obj} (h : ∀ p ∈ o, Tokens (print p.2)) :
    lex .out (printMembers o) = some .out := by
  induction o with
  | nil => rfl
  | cons p o ih =>
    obtain ⟨k, j⟩ := p
    obtain ⟨hj, ho⟩ := List.forall_mem_cons.mp h
    have hk := (Tokens.lex_lit (tokens_printStr k)).2.2
    rcases o with _ | ⟨p', o⟩
    · rw [printMembers, List.append_assoc]
      exact lex_out_append hk (Tokens.lex_lit hj).1
    · rw [printMembers, List.append_assoc, List.append_assoc, ← List.append_assoc (print j)]
      · exact lex_out_append hk (lex_out_append (Tokens.lex_lit hj).2.1 (ih ho))
      · exact List.cons_ne_nil _ _

theorem tokens_arr {l : List Json} (h : ∀ j ∈ l, Tokens (print j)) : Tokens (print (.arr l)) := by
  refine ⟨.out, ?_, Or.inl rfl⟩
  rw [print, List.append_assoc]
  have hin : lex .out (printElements l ++ lit "]") = some .out :=
    lex_out_append (lex_printElements h) rfl
  exact lex_out_append rfl hin

theorem tokens_obj {o : Obj} (h : ∀ p ∈ o, Tokens (print p.2)) : Tokens (print (.obj o)) := by
  refine ⟨.out, ?_, Or.inl rfl⟩
  rw [print, List.append_assoc]
  have hin : lex .out (printMembers o ++ lit "\x7d") = some .out :=
    lex_out_append (lex_printMembers h) rfl
  exact lex_out_append rfl hin

/-! ### What is read -/

/-- A value that is read from tokens, and is printed as tokens. -/
structure IsRead (t : Bytes) (j : Json) (r : Bytes) : Prop where
  split : ∃ u, t = u ++ r ∧ Tokens u
  printed : Tokens (print j)

section

variable {pv : Bytes → Option (Json × Bytes)}
  (hpv : ∀ {t j r}, pv t = some (j, r) → IsRead t j r)

include hpv

theorem isMember_tokens {t k r : Bytes} {j : Json} (h : IsMember pv t k j r) :
    ∃ u, t = u ++ r ∧ Tokens u := by
  obtain ⟨b, y, x, t₁, t₂, hb, rfl, hx, -, ht₁, hj⟩ := h
  obtain ⟨u, rfl, hu⟩ := lex_scan hx
  obtain ⟨b', hb', rfl⟩ := expect_eq_some ht₁
  obtain ⟨⟨v, rfl, l, hl, ho⟩, -⟩ := hpv hj
  refine ⟨(b ++ 0x22 :: (u ++ [0x22])) ++ ((b' ++ [0x3a]) ++ v), by simp, l, ?_, ho⟩
  rw [lex_append_some (lex_quoted hb hu), lex_append_some (lex_blank (Or.inr rfl) hb' rfl), hl]

/-- The text between an opening bracket and the closing one. -/
theorem elements_tokens {n : ℕ} {l : List Json} {t r : Bytes}
    (h : elements pv n t = some (l, r)) :
    (∃ u, t = u ++ 0x5d :: r ∧ lex .out (u ++ [0x5d]) = some .out) ∧
      ∀ j ∈ l, Tokens (print j) := by
  induction n generalizing l t with
  | zero => cases h
  | succ n ih =>
    obtain ⟨j, t₁, hj, ⟨t₂, l', ht₂, hl, rfl⟩ | ⟨hr, rfl⟩⟩ := elements_cases h
    · obtain ⟨⟨u, rfl, hu⟩, hp⟩ := hpv hj
      obtain ⟨b, hb, rfl⟩ := expect_eq_some ht₂
      obtain ⟨⟨v, rfl, hv⟩, hps⟩ := ih hl
      refine ⟨⟨u ++ (b ++ [0x2c]) ++ v, by simp, ?_⟩, List.forall_mem_cons.mpr ⟨hp, hps⟩⟩
      rw [List.append_assoc]
      exact lex_out_append (hu.lex_blank hb rfl) hv
    · obtain ⟨⟨u, rfl, hu⟩, hp⟩ := hpv hj
      obtain ⟨b, hb, rfl⟩ := expect_eq_some hr
      refine ⟨⟨u ++ b, by simp, ?_⟩, fun j' hj' => by rwa [List.mem_singleton.mp hj']⟩
      rw [List.append_assoc]
      exact hu.lex_blank hb rfl

omit hpv in
theorem mem_add {o : Obj} {k : Bytes} {j : Json} {p : Bytes × Json} (h : p ∈ add o k j) :
    p ∈ o ∨ p.2 = j := by
  induction o with
  | nil => exact Or.inr (by rw [List.mem_singleton.mp h])
  | cons p' o ih =>
    unfold add at h
    split_ifs at h
    · rcases List.mem_cons.mp h with rfl | h
      · exact Or.inr rfl
      · exact Or.inl (.tail _ h)
    · rcases List.mem_cons.mp h with rfl | h
      · exact Or.inl (.head _)
      · exact (ih h).imp (.tail _) id

/-- The text between an opening brace and the closing one. -/
theorem members_tokens {n : ℕ} {o o' : Obj} {t r : Bytes}
    (h : members pv n o t = some (o', r)) (ho : ∀ p ∈ o, Tokens (print p.2)) :
    (∃ u, t = u ++ 0x7d :: r ∧ lex .out (u ++ [0x7d]) = some .out) ∧
      ∀ p ∈ o', Tokens (print p.2) := by
  induction n generalizing o t with
  | zero => cases h
  | succ n ih =>
    obtain ⟨k, j, t₁, hm, hrest⟩ := members_cases h
    obtain ⟨u, rfl, hu⟩ := isMember_tokens hpv hm
    have hadd : ∀ p ∈ add o k j, Tokens (print p.2) := by
      intro p hp
      obtain ⟨_, _, _, _, _, _, _, _, _, _, hj⟩ := hm
      rcases mem_add hp with hp | hp
      · exact ho p hp
      · rw [hp]
        exact (hpv hj).printed
    rcases hrest with ⟨t₂, ht₂, hrest⟩ | ⟨hr, rfl⟩
    · obtain ⟨b, hb, rfl⟩ := expect_eq_some ht₂
      obtain ⟨⟨v, rfl, hv⟩, hl⟩ := ih hrest hadd
      refine ⟨⟨u ++ (b ++ [0x2c]) ++ v, by simp, ?_⟩, hl⟩
      rw [List.append_assoc]
      exact lex_out_append (hu.lex_blank hb rfl) hv
    · obtain ⟨b, hb, rfl⟩ := expect_eq_some hr
      refine ⟨⟨u ++ b, by simp, ?_⟩, hadd⟩
      rw [List.append_assoc]
      exact hu.lex_blank hb rfl

end

/-- Blanks before a value. -/
theorem IsRead.blank {b t r : Bytes} {j : Json} (h : IsRead t j r) (hb : Blank b) :
    IsRead (b ++ t) j r := by
  obtain ⟨⟨u, rfl, l, hl, ho⟩, hp⟩ := h
  have hbu : lex .out (b ++ u) = some l := lex_out_append (lex_out_blank hb) hl
  exact ⟨⟨b ++ u, (List.append_assoc ..).symm, l, hbu, ho⟩, hp⟩

/-- A value in brackets. -/
theorem IsRead.of_out {u r : Bytes} {j : Json} (c : UInt8) (hc : Lex.next .out c = some .out)
    (hu : lex .out u = some .out) (hp : Tokens (print j)) : IsRead (c :: (u ++ r)) j r := by
  refine ⟨⟨c :: u, rfl, .out, ?_, Or.inl rfl⟩, hp⟩
  rw [lex, hc]
  exact hu

/-- **Values are read from tokens and printed as tokens.** -/
theorem value_isRead (d : ℕ) {t r : Bytes} {j : Json} (h : value d t = some (j, r)) :
    IsRead t j r := by
  have hnil {u : Bytes} {c : UInt8} {r' : Bytes} : u ++ c :: r' = (u ++ [c]) ++ r' := by simp
  induction d generalizing t j r with
  | zero => cases h
  | succ d ih =>
    obtain ⟨b, t', hb, rfl, hr⟩ := value_cases h
    refine IsRead.blank ?_ hb
    cases hr with
    | str h =>
      obtain ⟨u, rfl, hu⟩ := lex_scan h
      have hq := lex_quoted blank_nil hu
      exact ⟨⟨0x22 :: (u ++ [0x22]), by simp, .shut, hq, Or.inr rfl⟩, tokens_printStr _⟩
    | empty h =>
      obtain ⟨b', hb', rfl⟩ := expect_eq_some h
      rw [hnil]
      exact .of_out _ rfl (lex_blank (Or.inl rfl) hb' rfl)
        (tokens_obj fun p hp => absurd hp List.not_mem_nil)
    | obj h =>
      obtain ⟨⟨u, rfl, hu⟩, ho⟩ := members_tokens ih h fun p hp => absurd hp List.not_mem_nil
      rw [hnil]
      exact .of_out _ rfl hu (tokens_obj ho)
    | nil h =>
      obtain ⟨b', hb', rfl⟩ := expect_eq_some h
      rw [hnil]
      exact .of_out _ rfl (lex_blank (Or.inl rfl) hb' rfl)
        (tokens_arr fun p hp => absurd hp List.not_mem_nil)
    | arr h =>
      obtain ⟨⟨u, rfl, hu⟩, hl⟩ := elements_tokens ih h
      rw [hnil]
      exact .of_out _ rfl hu (tokens_arr hl)
    | atom ha => exact ⟨⟨_, rfl, tokens_of_plain ha.1⟩, tokens_of_plain ha.2.1⟩

/-! ### Members in a text -/

/-- The C string `z` is that of the value, which is a string, or `z` begins what is printed for
it. -/
def Shows (j : Json) (z : Bytes) : Prop :=
  match j with
  | .str x => cstr x = z
  | _ => Lexed z

/-- What begins a sequence of tokens. -/
theorem lexed_cstr {u : Bytes} (h : Tokens u) : Lexed (cstr u) := by
  obtain ⟨l, hl, -⟩ := h
  obtain ⟨v, hv⟩ : cstr u <+: u := List.takeWhile_prefix _
  rw [← hv] at hl
  obtain ⟨m, hm, -⟩ := lex_of_append hl
  exact ⟨m, hm⟩

/-- **The C string of a value that is read.** -/
theorem shows_of_getString {d : ℕ} {t r z : Bytes} {j : Json} (h : value d t = some (j, r))
    (hz : getString j = some z) : Shows j z := by
  have hl := lexed_cstr (value_isRead d h).printed
  cases j with
  | null => cases hz
  | str x => exact Option.some.inj hz
  | _ =>
    cases hz
    exact hl

/-- The member `k` with the C string `z`: `q` is the text before the opening quote of the key, `y`
the text after it. -/
structure FoundAt (d : ℕ) (k z q y : Bytes) : Prop where
  outside : lex .str q = some .out
  comma : ∃ p b, Blank b ∧ q = p ++ 0x2c :: b
  member : ∃ x t₁ t₂ j r, scan none .plain y = some (x, t₁) ∧ cstr x = k ∧
    expect 0x3a t₁ = some t₂ ∧ value d t₂ = some (j, r) ∧ Shows j z

/-- The text has the member `k` with the C string `z`. -/
def Found (d : ℕ) (S k z : Bytes) : Prop := ∃ q y, S = q ++ 0x22 :: y ∧ FoundAt d k z q y

/-- **Every member is found after a comma**, outside of all strings. -/
theorem members_found {d n : ℕ} {o o' : Obj} {p t r k z : Bytes} {j : Json}
    (h : members (value d) n o t = some (o', r)) (hp : lex .str (p ++ [0x2c]) = some .out)
    (hj : getEx o' k = some j) (hz : ∀ {t r}, value d t = some (j, r) → Shows j z) :
    getEx o k = some j ∨ Found d (p ++ 0x2c :: t) k z := by
  induction n generalizing o t p with
  | zero => cases h
  | succ n ih =>
    obtain ⟨k₁, j₁, t₁, hm, hrest⟩ := members_cases h
    -- the member that is read now
    have hnow (hadd : getEx (add o k₁ j₁) k = some j) :
        getEx o k = some j ∨ Found d (p ++ 0x2c :: t) k z := by
      by_cases hk : k₁ = k
      · subst hk
        rw [getEx_add_self, Option.some.injEq] at hadd
        subst hadd
        obtain ⟨b, y, x, u, t₂, hb, rfl, hx, hk, ht₂, hv⟩ := hm
        refine Or.inr ⟨p ++ 0x2c :: b, y, by simp, ?_, ⟨p, b, hb, rfl⟩,
          x, u, t₂, j₁, t₁, hx, hk, ht₂, hv, hz hv⟩
        rw [show p ++ 0x2c :: b = p ++ [0x2c] ++ b by simp, lex_append_some hp, lex_out_blank hb]
      · exact Or.inl (by rwa [getEx_add_ne o j₁ hk] at hadd)
    obtain ⟨u, rfl, hu⟩ := isMember_tokens (value_isRead d) hm
    rcases hrest with ⟨t₂, ht₂, hrest⟩ | ⟨-, rfl⟩
    · obtain ⟨b, hb, rfl⟩ := expect_eq_some ht₂
      have hnext : lex .str ((p ++ 0x2c :: (u ++ b)) ++ [0x2c]) = some .out := by
        rw [show (p ++ 0x2c :: (u ++ b)) ++ [0x2c] = (p ++ [0x2c]) ++ (u ++ (b ++ [0x2c])) by simp,
          lex_append_some hp, hu.lex_blank hb rfl]
      have hsame : p ++ 0x2c :: (u ++ (b ++ 0x2c :: t₂)) =
          (p ++ 0x2c :: (u ++ b)) ++ 0x2c :: t₂ := by simp
      rcases ih hrest hnext with hadd | hlater
      · exact hnow hadd
      · rw [hsame]
        exact Or.inr hlater
    · exact hnow hj

/-! ### The kinds of values -/

/-- A string member, from after the opening quote of its key. -/
def IsStrMember (y k z r : Bytes) : Prop :=
  ∃ x t₁ t₂ y₁ x₁, scan none .plain y = some (x, t₁) ∧ cstr x = k ∧ expect 0x3a t₁ = some t₂ ∧
    expect 0x22 t₂ = some y₁ ∧ scan none .plain y₁ = some (x₁, r) ∧ cstr x₁ = z

theorem getString_cases {j : Json} {z : Bytes} (h : getString j = some z) :
    (∃ x, j = .str x ∧ cstr x = z) ∨ cstr (print j) = z := by
  cases j with
  | null => cases h
  | str x => exact Or.inl ⟨x, rfl, Option.some.inj h⟩
  | bool b => exact Or.inr (Option.some.inj h)
  | int i => exact Or.inr (Option.some.inj h)
  | double raw => exact Or.inr (Option.some.inj h)
  | arr l => exact Or.inr (Option.some.inj h)
  | obj o => exact Or.inr (Option.some.inj h)

/-- **A value is a string, or it begins what is printed for it.** -/
theorem FoundAt.kinds {d : ℕ} {k z q y : Bytes} (h : FoundAt d k z q y) :
    Lexed z ∨ ∃ r, IsStrMember y k z r := by
  obtain ⟨x, t₁, t₂, j, r, hx, hk, ht₂, hj, hz⟩ := h.member
  cases j with
  | str x₁ =>
    right
    rcases d with _ | d
    · cases hj
    obtain ⟨b, t', hb, rfl, hr⟩ := value_cases hj
    cases hr with
    | str hs => exact ⟨r, x, t₁, _, _, x₁, hx, hk, ht₂, expect_self hb rfl _, hs, hz⟩
    | atom ha => exact absurd rfl (ha.2.2 x₁)
  | _ => exact Or.inl hz

/-- A string member takes its text. -/
theorem IsStrMember.length {y k z r : Bytes} (h : IsStrMember y k z r) :
    k.length + cost z + r.length + 4 ≤ y.length := by
  obtain ⟨x, t₁, t₂, y₁, x₁, hx, rfl, ht₂, hy₁, hx₁, rfl⟩ := h
  obtain ⟨u, rfl, hu⟩ := scan_cost hx
  obtain ⟨b, -, rfl⟩ := expect_eq_some ht₂
  obtain ⟨b₁, -, rfl⟩ := expect_eq_some hy₁
  obtain ⟨u₁, rfl, hu₁⟩ := scan_cost hx₁
  have hk := (cost_cstr x).1
  have hz := (cost_cstr x₁).1
  have hl := length_le_cost (cstr x)
  simp only [List.length_append, List.length_cons]
  omega

/-- A token other than a comma is not passed over a comma. -/
theorem expect_comma {c : UInt8} {w y r : Bytes} (h : expect c (w ++ 0x2c :: y) = some r)
    (hc : c ≠ 0x2c) : ∃ w', r = w' ++ 0x2c :: y := by
  obtain ⟨b, hb, he⟩ := expect_eq_some h
  rcases List.append_eq_append_iff.mp he with ⟨a, rfl, ha⟩ | ⟨a, rfl, ha⟩
  · rcases a with _ | ⟨x, a⟩
    · exact absurd (List.cons.inj ha).1.symm hc
    · obtain rfl : 0x2c = x := (List.cons.inj ha).1
      exact absurd (hb 0x2c (by simp)) (by decide)
  · rcases a with _ | ⟨x, a⟩
    · exact absurd (List.cons.inj ha).1 hc
    · exact ⟨a, (List.cons.inj ha).2⟩

/-- A string member does not pass the start of another one. -/
theorem IsStrMember.comma {w k z r y : Bytes} {c : UInt8}
    (h : IsStrMember (w ++ 0x2c :: 0x22 :: c :: y) k z r) (hc : isWs c = false) (h3a : c ≠ 0x3a) :
    c :: y <:+ r := by
  obtain ⟨x, t₁, t₂, y₁, x₁, hx, -, ht₂, hy₁, hx₁, -⟩ := h
  rcases scan_comma hx with rfl | ⟨w₁, rfl⟩
  · have hnone : expect 0x3a (c :: y) = none := expect_ne blank_nil hc h3a y
    rw [hnone] at ht₂
    cases ht₂
  · obtain ⟨w₂, rfl⟩ := expect_comma ht₂ (by decide)
    obtain ⟨w₃, rfl⟩ := expect_comma hy₁ (by decide)
    rcases scan_comma hx₁ with rfl | ⟨w₄, rfl⟩
    · exact List.suffix_rfl
    · exact ⟨w₄ ++ [0x2c, 0x22], by simp⟩

/-- **A text that begins what is printed for a value does not have a member inside**: the text `z`
ends with `e`, that of the members goes on with `w`. -/
theorem FoundAt.not_lexed {d : ℕ} {q₀ q y e w k v z : Bytes} (h : FoundAt d k v q₀ (y ++ w))
    (hq : lex .str q = some .out) (hz : z = q ++ 0x22 :: (y ++ e))
    (hw : w.head?.getD 0x22 = 0x22) (hk : k.head?.map isSep = some false) : ¬ Lexed z := by
  rintro hm
  obtain ⟨x, t₁, -, -, -, hx, rfl, -⟩ := h.member
  subst hz
  rcases y with _ | ⟨c, y⟩
  · -- the key is empty
    rcases w with _ | ⟨c, w⟩
    · cases hx
    · obtain rfl : c = 0x22 := hw
      cases hx
      cases hk
  · have hsep := opening_sep hq hm
    obtain ⟨h22, h5c⟩ := isSep_ne hsep
    rw [List.cons_append, scan, if_neg h22, if_neg h5c] at hx
    split_ifs at hx
    obtain ⟨x', -, rfl⟩ := emit_eq_some hx
    have h0 : c ≠ 0 := by
      rintro rfl
      exact absurd hsep (by decide)
    have hcons : cstr (c :: x') = c :: cstr x' := by simp [cstr, h0]
    rw [show flush none ++ [c] ++ x' = c :: x' from rfl, hcons, List.head?_cons, Option.map_some,
      hsep] at hk
    cases hk

end LiveStreamer.Lib.JsonFound
