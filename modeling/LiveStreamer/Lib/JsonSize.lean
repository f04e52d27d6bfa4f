import LiveStreamer.Lib.JsonPrint

/-! # How long the strings of an object are

A string has at most as many bytes as its text, and members with different keys are read from
different parts of a text. So the strings of an object, with their keys, quotes, colons and commas,
are no longer than the text that it is read from (`object_size`).

`weigh` adds up what the members of an object take (`members_weigh`, `weigh_lookup`), and
`memberSize` is what a string takes. A library is `Economical` if this holds of what it parses. -/

namespace LiveStreamer.Lib.JsonSize

open LiveStreamer.Lib.CString LiveStreamer.Lib.Tokener LiveStreamer.Lib.JsonText
open LiveStreamer.Lib.JsonStrings LiveStreamer.Lib.JsonTokens LiveStreamer.Lib.JsonFound
open LiveStreamer.Lib.JsonPrint

/-! ### Members -/

/-- What the members of an object take, where `w` is what each of them takes. -/
def weigh (w : Bytes → Json → ℕ) : Obj → ℕ
  | [] => 0
  | (k, j) :: o => w k j + weigh w o

theorem weigh_cons (w : Bytes → Json → ℕ) (k : Bytes) (j : Json) (o : Obj) :
    weigh w ((k, j) :: o) = w k j + weigh w o := rfl

theorem weigh_add_le (w : Bytes → Json → ℕ) (o : Obj) (k : Bytes) (j : Json) :
    weigh w (add o k j) ≤ weigh w o + w k j := by
  induction o with
  | nil => exact le_of_eq (Nat.add_comm ..)
  | cons p o ih =>
    obtain ⟨k', j'⟩ := p
    rw [add]
    split_ifs with hk <;> rw [weigh_cons, weigh_cons] <;> omega

/-- The member with a key, and the others. -/
theorem weigh_lookup (w : Bytes → Json → ℕ) (o : Obj) (k : Bytes) :
    ∃ o', (getEx o k).elim 0 (w k) + weigh w o' ≤ weigh w o ∧
      ∀ l, l ≠ k → getEx o' l = getEx o l := by
  induction o with
  | nil => exact ⟨[], Nat.le_refl 0, fun l _ => rfl⟩
  | cons p o ih =>
    obtain ⟨k', j'⟩ := p
    rw [getEx]
    split_ifs with hk
    · subst hk
      exact ⟨o, Nat.le_refl _, fun l hl => by rw [getEx, if_neg (Ne.symm hl)]⟩
    · obtain ⟨o', hw, hget⟩ := ih
      refine ⟨(k', j') :: o', ?_, fun l hl => ?_⟩
      · rw [weigh_cons, weigh_cons]
        omega
      · rw [getEx, getEx, hget l hl]

theorem length_of_expect {c : UInt8} {t r : Bytes} (h : expect c t = some r) :
    r.length + 1 ≤ t.length := by
  obtain ⟨b, -, rfl⟩ := expect_eq_some h
  rw [List.length_append, List.length_cons]
  exact Nat.le_add_left ..

/-- **The members of an object are paid for by their text**, if each of them is paid for by its text
and the comma or brace after it. -/
theorem members_weigh {w : Bytes → Json → ℕ} {pv : Bytes → Option (Json × Bytes)} {n : ℕ}
    {t r : Bytes} {o o' : Obj}
    (hw : ∀ t k j r, IsMember pv t k j r → w k j + r.length ≤ t.length + 1)
    (h : members pv n o t = some (o', r)) : weigh w o' + r.length ≤ weigh w o + t.length := by
  induction n generalizing o t with
  | zero => cases h
  | succ n ih =>
    obtain ⟨k, j, t₁, hmem, h⟩ := members_cases h
    have hadd := weigh_add_le w o k j
    have hone := hw t k j t₁ hmem
    rcases h with ⟨t₂, hcomma, h⟩ | ⟨hbrace, rfl⟩
    · have hrest := ih h
      have hlen := length_of_expect hcomma
      omega
    · have hlen := length_of_expect hbrace
      omega

/-! ### Strings -/

/-- The text that a string takes as a member, with the comma or brace after it. -/
def memberSize (k : Bytes) (j : Json) : ℕ :=
  match j with
  | .str s => k.length + s.length + 6
  | _ => 0

/-- A string is no longer than its text. -/
theorem scan_size {t x r : Bytes} (h : scan none .plain t = some (x, r)) :
    x.length + (r.length + 1) ≤ t.length := by
  obtain ⟨u, rfl, hu⟩ := scan_cost h
  have hx := length_le_cost x
  rw [List.length_append, List.length_cons]
  omega

theorem value_size {d : ℕ} {t r : Bytes} {j : Json} (h : value d t = some (j, r)) :
    r.length ≤ t.length ∧ ∀ s, j = .str s → s.length + 2 + r.length ≤ t.length := by
  constructor
  · obtain ⟨⟨u, rfl, -⟩, -⟩ := value_isRead d h
    rw [List.length_append]
    exact Nat.le_add_left ..
  · rintro s rfl
    rcases d with _ | d
    · cases h
    obtain ⟨b, t', -, rfl, hr⟩ := value_cases h
    cases hr with
    | str hs =>
      have hx := scan_size hs
      rw [List.length_append, List.length_cons]
      omega
    | atom ha => exact absurd rfl (ha.2.2 s)

theorem memberSize_le {d : ℕ} (t k : Bytes) (j : Json) (r : Bytes)
    (h : IsMember (value d) t k j r) : memberSize k j + r.length ≤ t.length + 1 := by
  obtain ⟨b, y, x, t₁, t₂, -, rfl, hx, rfl, hcolon, hj⟩ := h
  have hkey := scan_size hx
  have hcut : (cstr x).length ≤ x.length := (List.takeWhile_prefix _).length_le
  have hlen := length_of_expect hcolon
  obtain ⟨hrest, hstr⟩ := value_size hj
  rw [List.length_append, List.length_cons]
  cases j with
  | str s =>
    have hs := hstr s rfl
    rw [memberSize]
    omega
  | _ =>
    show 0 + r.length ≤ _
    omega

/-! ### Objects -/

/-- An object has no members, or they are read after its brace. -/
theorem value_obj_cases {d : ℕ} {t r : Bytes} {o : Obj} (h : value d t = some (.obj o, r)) :
    o = [] ∨ ∃ d' n b t', t = b ++ 0x7b :: t' ∧ members (value d') n [] t' = some (o, r) := by
  by_cases hne : o = []
  · exact Or.inl hne
  right
  cases d with
  | zero => cases h
  | succ d =>
    obtain ⟨b, t', -, rfl, hread⟩ := value_cases h
    cases hread with
    | empty _ => exact absurd rfl hne
    | @obj n t' _ _ ho => exact ⟨d, n, b, t', rfl, ho⟩
    | atom ha =>
      -- the quotes of a key are not plain
      obtain ⟨⟨k, j⟩, o', rfl⟩ := List.exists_cons_of_ne_nil hne
      have hkey : (0x22 : UInt8) ∈ printStr k := by simp [printStr]
      have hquote : (0x22 : UInt8) ∈ print (.obj ((k, j) :: o')) := by
        rw [print]
        rcases eq_or_ne o' [] with rfl | ho
        · rw [printMembers]
          simp [hkey]
        · rw [printMembers_cons k j ho]
          simp [hkey]
      exact absurd rfl (ha.2.1 _ hquote).1

/-- **The strings of an object are read from different parts of its text**, after the brace. -/
theorem object_size {d : ℕ} {t r : Bytes} {o : Obj} (h : value d t = some (.obj o, r)) :
    weigh memberSize o ≤ t.length - 1 := by
  rcases value_obj_cases h with rfl | ⟨d', n, b, t', rfl, ho⟩
  · exact Nat.zero_le _
  · have hw := members_weigh memberSize_le ho
    rw [weigh, Nat.zero_add] at hw
    rw [List.length_append, List.length_cons]
    omega

/-- A library that makes no more bytes of strings than their text has. -/
def Economical [JsonC] : Prop :=
  ∀ {t : Bytes} {o : Obj}, JsonC.parse t = some (.obj o) → weigh memberSize o ≤ t.length - 1

theorem economical_strict : Economical := by
  intro t o h
  obtain ⟨⟨j, r⟩, hv, rfl⟩ := Option.map_eq_some_iff.mp h
  exact object_size hv

end LiveStreamer.Lib.JsonSize
