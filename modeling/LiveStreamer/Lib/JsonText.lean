import LiveStreamer.Lib.Tokener

/-! # Texts of objects with string members

`memberText b k v t` is the text of a string member before the text `t`: its key and value are
pasted between quotes as they are, and `b` are the blanks around the colon. Where the strings are
`Plain` (no quote, no backslash, no control character), an object that begins with such members is
read up to what comes after them (`value_strMembers`), and the text `pairText b k₁ v₁ k₂ v₂` of an
object with two of them reads back as the object (`value_pairText`). -/

namespace LiveStreamer.Lib.JsonText

open LiveStreamer.Lib.CString LiveStreamer.Lib.Tokener

/-- A byte that stands for itself in a string. -/
def PlainByte (c : UInt8) : Prop := c ≠ 0x22 ∧ c ≠ 0x5c ∧ 0x20 ≤ c

instance (c : UInt8) : Decidable (PlainByte c) := inferInstanceAs (Decidable (_ ∧ _ ∧ _))

/-- A string without a quote, a backslash or a control character. -/
def Plain (s : Bytes) : Prop := ∀ c ∈ s, PlainByte c

instance (s : Bytes) : Decidable (Plain s) := List.decidableBAll _ s

theorem plain_nil : Plain [] := fun _ hc => absurd hc List.not_mem_nil

theorem plain_append {u v : Bytes} (hu : Plain u) (hv : Plain v) : Plain (u ++ v) := fun c hc =>
  (List.mem_append.mp hc).elim (hu c) (hv c)

/-- The start of a plain string is plain. -/
theorem Plain.mono {s t : Bytes} (hs : Plain s) (h : t <+: s) : Plain t := fun c hc =>
  hs c (h.subset hc)

theorem Plain.notMem_zero {s : Bytes} (h : Plain s) : (0 : UInt8) ∉ s := fun hm =>
  absurd (h 0 hm).2.2 (by decide)

/-- Blanks only. -/
def Blank (b : Bytes) : Prop := ∀ c ∈ b, isWs c = true

instance (b : Bytes) : Decidable (Blank b) := List.decidableBAll _ b

theorem blank_nil : Blank [] := fun _ hc => absurd hc List.not_mem_nil

/-- The text of a string member, before the text `t`. -/
def memberText (b k v t : Bytes) : Bytes :=
  0x22 :: (k ++ 0x22 :: (b ++ 0x3a :: (b ++ 0x22 :: (v ++ 0x22 :: t))))

/-- The text of an object with two string members. -/
def pairText (b k₁ v₁ k₂ v₂ : Bytes) : Bytes :=
  0x7b :: (b ++ memberText b k₁ v₁ (0x2c :: memberText b k₂ v₂ [0x7d]))

/-! ### Tokens -/

theorem skipWs_blank {b : Bytes} (hb : Blank b) {c : UInt8} (hc : isWs c = false) (t : Bytes) :
    skipWs (b ++ c :: t) = c :: t := by
  rw [skipWs, List.dropWhile_append_of_pos hb, List.dropWhile_cons_of_neg (by simp [hc])]

theorem expect_self {b : Bytes} (hb : Blank b) {c : UInt8} (hc : isWs c = false) (t : Bytes) :
    expect c (b ++ c :: t) = some t := by
  rw [expect, skipWs_blank hb hc]
  exact if_pos rfl

theorem expect_ne {b : Bytes} (hb : Blank b) {c x : UInt8} (hx : isWs x = false) (hne : x ≠ c)
    (t : Bytes) : expect c (b ++ x :: t) = none := by
  rw [expect, skipWs_blank hb hx]
  exact if_neg hne

/-- Plain bytes are read as they are. -/
theorem scan_plain {s : Bytes} (h : Plain s) (t : Bytes) :
    scan none .plain (s ++ t) = emit s (scan none .plain t) := by
  induction s with
  | nil =>
    rw [List.nil_append, emit]
    rcases scan none .plain t with _ | p <;> rfl
  | cons c s ih =>
    obtain ⟨h1, h2, h3⟩ := h c (List.mem_cons_self ..)
    rw [List.cons_append, scan, if_neg h1, if_neg h2, if_neg (UInt8.not_lt.mpr h3),
      ih fun c hc => h c (.tail _ hc)]
    rcases scan none .plain t with _ | p <;> rfl

/-- A plain string is read up to its closing quote. -/
theorem scan_closed {s : Bytes} (h : Plain s) (t : Bytes) :
    scan none .plain (s ++ 0x22 :: t) = some (s, t) := by
  rw [scan_plain h, scan]
  simp [emit, flush]

theorem value_str (d : ℕ) {b : Bytes} (hb : Blank b) (t : Bytes) :
    value (d + 1) (b ++ 0x22 :: t) = (scan none .plain t).map fun p => (.str p.1, p.2) := by
  rw [value, skipWs_blank hb (by decide)]
  exact if_pos rfl

/-! ### The object -/

/-- The reading of a member whose key is plain and whose value is a plain string. -/
theorem members_str (d n : ℕ) (o : Obj) {b₀ b k v : Bytes} (hb₀ : Blank b₀) (hb : Blank b)
    (hk : Plain k) (hv : Plain v) (t : Bytes) :
    members (value (d + 1)) (n + 1) o (b₀ ++ memberText b k v t) =
      match expect 0x2c t with
      | some t' => members (value (d + 1)) n (add o k (.str v)) t'
      | none => (expect 0x7d t).map fun t' => (add o k (.str v), t') := by
  rw [members, memberText, expect_self hb₀ rfl, Option.bind_some, scan_closed hk,
    Option.bind_some, expect_self hb rfl, Option.bind_some, value_str d hb, scan_closed hv,
    cstr_of_notMem hk.notMem_zero]
  rfl

/-- String members, each with a comma after it, before the text `t`. -/
def strMembers (b : Bytes) : List (Bytes × Bytes) → Bytes → Bytes
  | [], t => t
  | (k, v) :: l, t => memberText b k v (0x2c :: strMembers b l t)

/-- The members are added to an object. -/
def addStrs (o : Obj) (l : List (Bytes × Bytes)) : Obj :=
  l.foldl (fun o p => add o p.1 (.str p.2)) o

/-- The members and the text after them are longer than the text. -/
theorem length_strMembers (b : Bytes) (l : List (Bytes × Bytes)) (t : Bytes) :
    t.length + l.length ≤ (strMembers b l t).length := by
  induction l with
  | nil => exact Nat.le_refl _
  | cons p l ih =>
    obtain ⟨k, v⟩ := p
    simp only [strMembers, memberText, List.length_append, List.length_cons]
    omega

/-- A member with a comma after it is read, and then the others. -/
theorem members_comma (d n : ℕ) (o : Obj) {b₀ b k v : Bytes} (hb₀ : Blank b₀) (hb : Blank b)
    (hk : Plain k) (hv : Plain v) (t : Bytes) :
    members (value (d + 1)) (n + 1) o (b₀ ++ memberText b k v (0x2c :: t)) =
      members (value (d + 1)) n (add o k (.str v)) t := by
  have hcomma : expect 0x2c (0x2c :: t) = some t := expect_self blank_nil rfl t
  rw [members_str d n o hb₀ hb hk hv, hcomma]

theorem members_strMembers (d n : ℕ) {b : Bytes} (hb : Blank b) {l : List (Bytes × Bytes)}
    (hl : ∀ p ∈ l, Plain p.1 ∧ Plain p.2) (o : Obj) (t : Bytes) :
    members (value (d + 1)) (n + l.length) o (strMembers b l t) =
      members (value (d + 1)) n (addStrs o l) t := by
  induction l generalizing o with
  | nil => rfl
  | cons p l ih =>
    obtain ⟨⟨hk, hv⟩, hl⟩ := List.forall_mem_cons.mp hl
    have hfirst := members_comma d (n + l.length) o blank_nil hb hk hv (strMembers b l t)
    rw [List.nil_append] at hfirst
    exact hfirst.trans (ih hl _)

/-- **An object that begins with string members** is read up to what comes after them. -/
theorem value_strMembers (d : ℕ) {b₀ b k v : Bytes} (hb₀ : Blank b₀) (hb : Blank b) (hk : Plain k)
    (hv : Plain v) {l : List (Bytes × Bytes)} (hl : ∀ p ∈ l, Plain p.1 ∧ Plain p.2) (t : Bytes) :
    ∃ n, t.length ≤ n ∧ value (d + 2) (0x7b :: (b₀ ++ strMembers b ((k, v) :: l) t)) =
      (members (value (d + 1)) n (addStrs [] ((k, v) :: l)) t).map fun p => (.obj p.1, p.2) := by
  have hw (t : Bytes) : skipWs (0x7b :: t) = 0x7b :: t := skipWs_blank blank_nil rfl t
  have hopen : expect 0x7d (b₀ ++ strMembers b ((k, v) :: l) t) = none :=
    expect_ne hb₀ rfl (by decide) _
  -- there is room for the members
  have hlen := length_strMembers b ((k, v) :: l) t
  rw [List.length_cons] at hlen
  have hle : l.length + 1 ≤ (b₀ ++ strMembers b ((k, v) :: l) t).length := by
    rw [List.length_append]
    omega
  obtain ⟨n, hn⟩ := Nat.exists_eq_add_of_le' hle
  refine ⟨n, ?_, ?_⟩
  · rw [List.length_append] at hn
    omega
  · rw [value, hw]
    dsimp only
    rw [if_neg (by decide), if_pos rfl, hopen, hn, ← Nat.add_assoc]
    dsimp only
    rw [strMembers, members_comma d (n + l.length) [] hb₀ hb hk hv,
      members_strMembers d n hb hl]
    rfl

/-- **A pair of plain strings reads back.** -/
theorem value_pairText (d : ℕ) {b k₁ v₁ k₂ v₂ : Bytes} (hb : Blank b) (hk₁ : Plain k₁)
    (hv₁ : Plain v₁) (hk₂ : Plain k₂) (hv₂ : Plain v₂) (hne : k₁ ≠ k₂) :
    value (d + 2) (pairText b k₁ v₁ k₂ v₂) = some (.obj [(k₁, .str v₁), (k₂, .str v₂)], []) := by
  obtain ⟨n, hn, hread⟩ := value_strMembers d hb hb hk₁ hv₁
    (fun p hp => absurd hp List.not_mem_nil) (memberText b k₂ v₂ [0x7d])
  obtain ⟨n, rfl⟩ : ∃ m, n = m + 1 := by
    rw [memberText, List.length_cons] at hn
    exact ⟨n - 1, by omega⟩
  have hlast := members_str d n (addStrs [] [(k₁, v₁)]) blank_nil hb hk₂ hv₂ [0x7d]
  have hadd : add (addStrs [] [(k₁, v₁)]) k₂ (.str v₂) = [(k₁, .str v₁), (k₂, .str v₂)] := by
    simp [addStrs, add, hne]
  rw [List.nil_append, hadd] at hlast
  rw [hlast] at hread
  exact hread

end LiveStreamer.Lib.JsonText
