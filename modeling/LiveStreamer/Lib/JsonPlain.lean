import LiveStreamer.Lib.JsonPrint

/-! # Plain texts of objects with string members

`printPlain` writes a value without blanks. The plain text of an object whose members are strings
(`Flat`) reads back as the object, whatever comes after it (`tokenerParse_plain`), and no part of
the text that ends before its closing brace is read as a value (`tokenerParse_torn`). So what is
left of a longer text that was written over does no harm, and a text that was not written to its
end is noticed. -/

namespace LiveStreamer.Lib.JsonPlain

open LiveStreamer.Lib.CString LiveStreamer.Lib.Tokener LiveStreamer.Lib.JsonText
open LiveStreamer.Lib.JsonStrings LiveStreamer.Lib.JsonTokens LiveStreamer.Lib.JsonPrint

mutual

/-- A value without blanks. -/
def printPlain : Json → Bytes
  | .null => lit "null"
  | .bool b => lit (if b then "true" else "false")
  | .int i => lit (toString i)
  | .double raw => raw
  | .str s => printStr s
  | .arr l => lit "[" ++ plainElements l ++ lit "]"
  | .obj o => lit "\x7b" ++ plainMembers o ++ lit "\x7d"

def plainElements : List Json → Bytes
  | [] => []
  | [j] => printPlain j
  | j :: l => printPlain j ++ lit "," ++ plainElements l

def plainMembers : List (Bytes × Json) → Bytes
  | [] => []
  | [(k, j)] => printStr k ++ lit ":" ++ printPlain j
  | (k, j) :: o => printStr k ++ lit ":" ++ printPlain j ++ lit "," ++ plainMembers o

end

/-! ### Reading with more text behind -/

/-- A string that is closed is read the same with more text behind it. -/
theorem scan_append {hi : Option ℕ} {e : Esc} {t x r : Bytes} (h : scan hi e t = some (x, r))
    (y : Bytes) : scan hi e (t ++ y) = some (x, r ++ y) := by
  induction t generalizing hi e x with
  | nil => cases e <;> cases h
  | cons c t ih =>
    rw [List.cons_append]
    cases e with
    | plain =>
      rw [scan] at h ⊢
      split_ifs at h ⊢ with h1 h2 h3
      · cases h
        rfl
      · exact ih h
      · obtain ⟨x', hs, rfl⟩ := emit_eq_some h
        rw [ih hs]
        rfl
    | esc =>
      rw [scan] at h ⊢
      split_ifs at h ⊢ with h1
      · exact ih h
      · split at h
        · obtain ⟨x', hs, rfl⟩ := emit_eq_some h
          rw [ih hs]
          rfl
        · cases h
    | hex k acc =>
      rw [scan] at h ⊢
      split at h
      · split_ifs at h ⊢ with hk
        · obtain ⟨x', hs, rfl⟩ := emit_eq_some h
          rw [ih hs]
          rfl
        · exact ih h
      · cases h

/-- A token that is found at the start of a text is what the text starts with. -/
theorem expect_start {c a : UInt8} {t r y T : Bytes} (h : expect c t = some r)
    (ht : t ++ y = a :: T) (ha : isWs a = false) : c = a ∧ r ++ y = T := by
  obtain ⟨b, hb, rfl⟩ := expect_eq_some h
  rcases b with _ | ⟨b₀, b⟩
  · obtain ⟨hc, hr⟩ := List.cons.inj ht
    exact ⟨hc, hr⟩
  · have hw : isWs b₀ = true := hb b₀ (List.mem_cons_self ..)
    obtain ⟨rfl, -⟩ := List.cons.inj ht
    rw [ha] at hw
    cases hw

/-- The text of a string that is read from the start of a longer text. -/
theorem scan_start {t x r y s T : Bytes} (h : scan none .plain t = some (x, r))
    (ht : t ++ y = s.flatMap escape ++ 0x22 :: T) : r ++ y = T := by
  have hs := scan_append h y
  rw [ht, scan_printed] at hs
  exact (Prod.mk.inj (Option.some.inj hs)).2.symm

/-! ### The members -/

/-- An object whose members are strings, with distinct keys. -/
structure Flat (o : Obj) : Prop where
  keys : Keys o
  strs : ∀ p ∈ o, ∃ s, p.2 = .str s

theorem Flat.add {o : Obj} (h : Flat o) {k : Bytes} (hk : (0 : UInt8) ∉ k) (s : Bytes) :
    Flat (add o k (.str s)) := by
  refine ⟨h.keys.add hk _, fun p hp => ?_⟩
  rcases JsonFound.mem_add hp with hp | hp
  · exact h.strs p hp
  · exact ⟨s, hp⟩

/-- What comes after a member. -/
def afterMember (o : Obj) (x : Bytes) : Bytes :=
  if o = [] then 0x7d :: x else 0x2c :: (plainMembers o ++ 0x7d :: x)

/-- The text of the first member, token by token. -/
theorem plainMembers_str (k v : Bytes) (o : Obj) (x : Bytes) :
    plainMembers ((k, .str v) :: o) ++ 0x7d :: x =
      0x22 :: (k.flatMap escape ++ 0x22 :: 0x3a :: 0x22 :: (v.flatMap escape ++
        0x22 :: afterMember o x)) := by
  rcases o with _ | ⟨p, o⟩ <;> simp [plainMembers, printPlain, afterMember, printStr, lit]

theorem length_le_plainMembers (o : Obj) (h : ∀ p ∈ o, ∃ s, p.2 = .str s) :
    o.length ≤ (plainMembers o).length := by
  induction o with
  | nil => exact Nat.zero_le _
  | cons p o ih =>
    obtain ⟨k, j⟩ := p
    obtain ⟨⟨v, rfl⟩, ho⟩ := List.forall_mem_cons.mp h
    have hlen := ih ho
    have htext := congrArg List.length (plainMembers_str k v o [])
    rcases eq_or_ne o [] with rfl | hne
    · simp only [afterMember, if_true, List.length_append, List.length_cons,
        List.length_nil] at htext ⊢
      omega
    · rw [afterMember, if_neg hne] at htext
      simp only [List.length_append, List.length_cons] at htext ⊢
      omega

/-- **The members read back.** -/
theorem members_plain {d n : ℕ} {acc o : Obj} (h : ∀ p ∈ o, ∃ s, p.2 = .str s)
    (hkeys : Keys (acc ++ o)) (hne : o ≠ []) (hn : o.length ≤ n) (x : Bytes) :
    members (value (d + 1)) n acc (plainMembers o ++ 0x7d :: x) = some (acc ++ o, x) := by
  induction o generalizing n acc with
  | nil => exact absurd rfl hne
  | cons p o ih =>
    obtain ⟨k, j⟩ := p
    obtain ⟨⟨v, rfl⟩, ho⟩ := List.forall_mem_cons.mp h
    obtain ⟨n, rfl⟩ : ∃ m, n = m + 1 := ⟨n - 1, by rw [List.length_cons] at hn; omega⟩
    have hk : cstr k = k := cstr_of_notMem (hkeys.clean (k, .str v) (by simp))
    have hadd : add acc k (.str v) = acc ++ [(k, .str v)] := by
      refine add_of_notMem (fun hm => ?_) _
      have hnd := hkeys.nodup
      rw [List.map_append, List.nodup_append] at hnd
      exact hnd.2.2 k hm k (by simp) rfl
    have htoken {c : UInt8} (hc : isWs c = false) (t : Bytes) : expect c (c :: t) = some t :=
      expect_self blank_nil hc t
    have hval (t : Bytes) : value (d + 1) (0x22 :: (v.flatMap escape ++ 0x22 :: t)) =
        some (.str v, t) := by
      have hv := value_str d blank_nil (v.flatMap escape ++ 0x22 :: t)
      rw [scan_printed] at hv
      exact hv
    rw [plainMembers_str, members, htoken rfl, Option.bind_some, scan_printed, Option.bind_some,
      htoken rfl, Option.bind_some, hval, Option.bind_some]
    dsimp only
    rw [hk, hadd]
    rcases eq_or_ne o [] with rfl | hone
    · have hcomma : expect 0x2c (0x7d :: x) = none := expect_ne blank_nil rfl (by decide) x
      rw [afterMember, if_pos rfl, hcomma, htoken rfl]
      rfl
    · have hkeys' : Keys ((acc ++ [(k, .str v)]) ++ o) := by simpa using hkeys
      rw [afterMember, if_neg hone, htoken rfl]
      dsimp only
      rw [ih ho hkeys' hone (by rw [List.length_cons] at hn; omega)]
      simp

/-- **Members that are read** from the start of a longer text are read up to the brace. -/
theorem members_start {d n : ℕ} {acc o o' : Obj} {u y x r : Bytes}
    (h : ∀ p ∈ o, ∃ s, p.2 = .str s) (hne : o ≠ [])
    (hu : u ++ y = plainMembers o ++ 0x7d :: x)
    (hm : members (value d) n acc u = some (o', r)) : r ++ y = x := by
  induction o generalizing n acc u with
  | nil => exact absurd rfl hne
  | cons p o ih =>
    obtain ⟨k, j⟩ := p
    obtain ⟨⟨v, rfl⟩, ho⟩ := List.forall_mem_cons.mp h
    rcases n with _ | n
    · cases hm
    rw [plainMembers_str] at hu
    obtain ⟨k', j', t₃, ⟨b, t, s, t₁, t₂, hb, rfl, hs, -, ht₂, hj⟩, hrest⟩ := members_cases hm
    have hquote : expect 0x22 (b ++ 0x22 :: t) = some t := expect_self hb rfl t
    have h₁ := scan_start hs (expect_start hquote hu rfl).2
    have h₂ := (expect_start ht₂ h₁ rfl).2
    -- the value is the string
    have h₃ : t₃ ++ y = afterMember o x := by
      rcases d with _ | d
      · cases hj
      rcases t₂ with _ | ⟨c, t₂⟩
      · cases hj
      obtain ⟨rfl, hstr⟩ := List.cons.inj h₂
      have hv := value_str d blank_nil t₂
      rw [List.nil_append, hj] at hv
      obtain ⟨⟨x', r'⟩, hx, hr⟩ := Option.map_eq_some_iff.mp hv.symm
      cases hr
      exact scan_start hx hstr
    rcases eq_or_ne o [] with rfl | hone
    · rw [afterMember, if_pos rfl] at h₃
      rcases hrest with ⟨t₄, ht₄, -⟩ | ⟨ht₄, -⟩
      · exact absurd (expect_start ht₄ h₃ rfl).1 (by decide)
      · exact (expect_start ht₄ h₃ rfl).2
    · rw [afterMember, if_neg hone] at h₃
      rcases hrest with ⟨t₄, ht₄, hm⟩ | ⟨ht₄, -⟩
      · exact ih ho hone (expect_start ht₄ h₃ rfl).2 hm
      · exact absurd (expect_start ht₄ h₃ rfl).1 (by decide)

/-! ### The object -/

/-- The text of an object after its first brace. -/
theorem printPlain_obj (o : Obj) (x : Bytes) :
    printPlain (.obj o) ++ x = 0x7b :: (plainMembers o ++ 0x7d :: x) := by
  simp [printPlain, lit]

/-- **The plain text of an object reads back**, whatever comes after it. -/
theorem tokenerParse_plain {o : Obj} (h : Flat o) (x : Bytes) :
    tokenerParse (printPlain (.obj o) ++ x) = some (.obj o) := by
  have hskip (t : Bytes) : skipWs (0x7b :: t) = 0x7b :: t := skipWs_blank blank_nil rfl t
  rw [printPlain_obj, tokenerParse, maxDepth, value, hskip]
  dsimp only
  rw [if_neg (by decide), if_pos rfl]
  rcases eq_or_ne o [] with rfl | hne
  · have hclose : expect 0x7d (plainMembers [] ++ 0x7d :: x) = some x := expect_self blank_nil rfl x
    rw [hclose]
    rfl
  · have hlen : o.length ≤ (plainMembers o ++ 0x7d :: x).length := by
      have := length_le_plainMembers o h.strs
      rw [List.length_append]
      omega
    have hopen : expect 0x7d (plainMembers o ++ 0x7d :: x) = none := by
      obtain ⟨⟨k, j⟩, o', rfl⟩ := List.exists_cons_of_ne_nil hne
      obtain ⟨⟨v, rfl⟩, -⟩ := List.forall_mem_cons.mp h.strs
      rw [plainMembers_str]
      exact expect_ne blank_nil rfl (by decide) _
    have hkeys : Keys ([] ++ o) := h.keys
    have hmem : members (value 31) (plainMembers o ++ 0x7d :: x).length []
        (plainMembers o ++ 0x7d :: x) = some ([] ++ o, x) :=
      members_plain h.strs hkeys hne hlen x
    rw [hopen, hmem]
    rfl

/-- **A text that ends before its brace** is not read. -/
theorem tokenerParse_torn {o : Obj} (h : ∀ p ∈ o, ∃ s, p.2 = .str s) {u y : Bytes}
    (hu : u ++ y = printPlain (.obj o)) (hy : y ≠ []) : tokenerParse u = none := by
  have hskip (t : Bytes) : skipWs (0x7b :: t) = 0x7b :: t := skipWs_blank blank_nil rfl t
  have hbrace := printPlain_obj o []
  rw [List.append_nil, ← hu] at hbrace
  rcases u with _ | ⟨c, u⟩
  · rfl
  obtain ⟨rfl, hu'⟩ := List.cons.inj hbrace
  -- what is read would have to go up to the brace
  have hend {r : Bytes} (hr : r ++ y = []) : False := hy (List.append_eq_nil_iff.mp hr).2
  rw [tokenerParse, maxDepth, value, hskip]
  dsimp only
  rw [if_neg (by decide), if_pos rfl]
  rcases hc : expect 0x7d u with _ | r
  · dsimp only
    rcases hm : members (value 31) u.length [] u with _ | ⟨o', r⟩
    · rfl
    · rcases eq_or_ne o [] with rfl | hne
      · -- there is no key
        rcases hn : u.length with _ | n
        · rw [hn] at hm
          cases hm
        · rw [hn] at hm
          obtain ⟨k, j, t₃, ⟨b, t, s, t₁, t₂, hb, rfl, -⟩, -⟩ := members_cases hm
          have hquote : expect 0x22 (b ++ 0x22 :: t) = some t := expect_self hb rfl t
          exact absurd (expect_start hquote hu' rfl).1 (by decide)
      · exact (hend (members_start h hne hu' hm)).elim
  · exfalso
    rcases o with _ | ⟨⟨k, j⟩, o⟩
    · exact hend (expect_start hc hu' rfl).2
    · obtain ⟨⟨v, rfl⟩, -⟩ := List.forall_mem_cons.mp h
      rw [plainMembers_str] at hu'
      exact absurd (expect_start hc hu' rfl).1 (by decide)

end LiveStreamer.Lib.JsonPlain
