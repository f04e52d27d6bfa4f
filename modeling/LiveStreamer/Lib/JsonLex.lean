import LiveStreamer.Lib.JsonStrings

/-! # Quotes in the text of a value

`lex` follows a text from quote to quote: it is outside of strings (`out`), right after a closing
quote (`shut`), where only a blank or a separator can follow, inside a string (`str`), or after a
backslash in a string (`esc`). What is read as a value, and what is printed for it, are sequences
of tokens (`Tokens`).

A text that is followed both from inside and from outside of a string is at each place inside for
the one and outside for the other (`lex_opposite`). So where the printed text of a value is read
as the inside of a string, every quote that opens a string for the reader closes one for the
printer, and a blank or a separator comes next (`opening_sep`). -/

namespace LiveStreamer.Lib.JsonLex

open LiveStreamer.Lib.CString LiveStreamer.Lib.Tokener LiveStreamer.Lib.JsonText
open LiveStreamer.Lib.JsonStrings

/-! ### The automaton -/

inductive Lex where
  | out
  | shut
  | str
  | esc
  deriving DecidableEq

/-- A byte that can follow a string. -/
def isSep (c : UInt8) : Bool := isWs c ∨ c = 0x2c ∨ c = 0x3a ∨ c = 0x5d ∨ c = 0x7d

def Lex.next : Lex → UInt8 → Option Lex
  | .out, c => if c = 0x22 then some .str else if c = 0x5c then none else some .out
  | .shut, c => if isSep c then some .out else none
  | .str, c => if c = 0x22 then some .shut else if c = 0x5c then some .esc else some .str
  | .esc, _ => some .str

/-- Outside of strings. -/
def Outside (l : Lex) : Prop := l = .out ∨ l = .shut

/-- Follow a text. -/
def lex : Lex → Bytes → Option Lex
  | l, [] => some l
  | l, c :: t => (l.next c).bind fun l' => lex l' t

theorem lex_append (l : Lex) (u v : Bytes) : lex l (u ++ v) = (lex l u).bind fun l' => lex l' v := by
  induction u generalizing l with
  | nil => rfl
  | cons c u ih =>
    rw [List.cons_append, lex, lex]
    rcases l.next c with _ | l'
    · rfl
    · exact ih l'

theorem lex_append_some {l l' : Lex} {u v : Bytes} (h : lex l u = some l') :
    lex l (u ++ v) = lex l' v := by
  rw [lex_append, h, Option.bind_some]

/-- A text that can be followed can be followed up to any place. -/
theorem lex_of_append {l l' : Lex} {u v : Bytes} (h : lex l (u ++ v) = some l') :
    ∃ m, lex l u = some m ∧ lex m v = some l' := by
  rw [lex_append] at h
  exact Option.bind_eq_some_iff.mp h

/-- Bytes that are no quotes and no backslashes leave the inside and the outside. -/
theorem lex_plain {u : Bytes} (h : Plain u) :
    lex .out u = some .out ∧ lex .str u = some .str := by
  induction u with
  | nil => exact ⟨rfl, rfl⟩
  | cons c u ih =>
    obtain ⟨⟨h1, h2, -⟩, hu⟩ := List.forall_mem_cons.mp h
    obtain ⟨ho, hs⟩ := ih hu
    simp [lex, Lex.next, h1, h2, ho, hs]

/-- A plain text does not lead out of a string. -/
theorem not_plain_of_out {u : Bytes} (h : lex .str u = some .out) : ¬ Plain u := by
  intro hu
  rw [(lex_plain hu).2] at h
  cases h

theorem isSep_ne {c : UInt8} (h : isSep c = true) : c ≠ 0x22 ∧ c ≠ 0x5c := by
  constructor <;> rintro rfl <;> exact absurd h (by decide)

/-- Blanks and separators lead outside. -/
theorem lex_seps {l : Lex} (hl : Outside l) {u : Bytes} (h : ∀ c ∈ u, isSep c = true)
    (hne : u ≠ []) : lex l u = some .out := by
  have hout : ∀ {u : Bytes}, (∀ c ∈ u, isSep c = true) → lex .out u = some .out := by
    intro u h
    induction u with
    | nil => rfl
    | cons c u ih =>
      obtain ⟨hc, hu⟩ := List.forall_mem_cons.mp h
      simp [lex, Lex.next, isSep_ne hc, ih hu]
  obtain ⟨c, u, rfl⟩ := List.exists_cons_of_ne_nil hne
  obtain ⟨hc, hu⟩ := List.forall_mem_cons.mp h
  rcases hl with rfl | rfl
  · exact hout h
  · simp [lex, Lex.next, hc, hout hu]

/-- Blanks and then a separator. -/
theorem lex_blank {l : Lex} (hl : Outside l) {b : Bytes} (hb : Blank b) {c : UInt8}
    (hc : isSep c = true) : lex l (b ++ [c]) = some .out := by
  refine lex_seps hl (fun x hx => ?_) (by simp)
  rcases List.mem_append.mp hx with hx | hx
  · simp [isSep, hb x hx]
  · rw [List.mem_singleton.mp hx]
    exact hc

/-! ### Two ways to follow a text -/

/-- One is inside of a string, the other outside. -/
def Opposite (l m : Lex) : Prop := (l = .str ∧ Outside m) ∨ (Outside l ∧ m = .str)

theorem Opposite.symm {l m : Lex} (h : Opposite l m) : Opposite m l := by
  rcases h with ⟨hl, hm⟩ | ⟨hl, hm⟩
  · exact Or.inr ⟨hm, hl⟩
  · exact Or.inl ⟨hm, hl⟩

/-- A quote swaps the two. -/
theorem Opposite.next {l m l' m' : Lex} {c : UInt8} (h : Opposite l m) (hl : l.next c = some l')
    (hm : m.next c = some m') : Opposite l' m' := by
  -- it is enough to look at the one that starts inside
  have key : ∀ {m l' m' : Lex}, Outside m → Lex.next .str c = some l' → m.next c = some m' →
      Opposite l' m' := by
    intro m l' m' ho hl hm
    by_cases h22 : c = 0x22
    · subst h22
      rcases ho with rfl | rfl
      · cases hl
        cases hm
        exact Or.inr ⟨Or.inr rfl, rfl⟩
      · simp [Lex.next, isSep, isWs] at hm
    · by_cases h5c : c = 0x5c
      · subst h5c
        rcases ho with rfl | rfl <;> simp [Lex.next, isSep, isWs] at hm
      · have hl' : l' = .str := by simpa [Lex.next, h22, h5c] using hl.symm
        have hm' : m' = .out := by
          rcases ho with rfl | rfl
          · simpa [Lex.next, h22, h5c] using hm.symm
          · simp only [Lex.next] at hm
            split_ifs at hm
            exact (Option.some.inj hm).symm
        exact Or.inl ⟨hl', Or.inl hm'⟩
  rcases h with ⟨rfl, ho⟩ | ⟨ho, rfl⟩
  · exact key ho hl hm
  · exact (key ho hm hl).symm

/-- **Inside for the one, outside for the other.** -/
theorem lex_opposite {u : Bytes} {l m l' m' : Lex} (h : Opposite l m) (hl : lex l u = some l')
    (hm : lex m u = some m') : Opposite l' m' := by
  induction u generalizing l m with
  | nil =>
    cases hl
    cases hm
    exact h
  | cons c u ih =>
    obtain ⟨l₁, hl₁, hl⟩ := Option.bind_eq_some_iff.mp hl
    obtain ⟨m₁, hm₁, hm⟩ := Option.bind_eq_some_iff.mp hm
    exact ih (h.next hl₁ hm₁) hl hm

/-- A text that can be followed from outside of strings. -/
def Lexed (z : Bytes) : Prop := ∃ m, lex .out z = some m

/-- **A quote that opens a string for the reader closes one for the printer**: what comes next is a
blank or a separator. -/
theorem opening_sep {q y : Bytes} {c : UInt8} (hq : lex .str q = some .out)
    (h : Lexed (q ++ 0x22 :: c :: y)) : isSep c = true := by
  obtain ⟨m, hm⟩ := h
  obtain ⟨m₁, hm₁, hm⟩ := lex_of_append hm
  rcases lex_opposite (Or.inl ⟨rfl, Or.inl rfl⟩) hq hm₁ with ⟨h, -⟩ | ⟨-, rfl⟩
  · cases h
  · by_contra hc
    simp [lex, Lex.next, hc] at hm

end LiveStreamer.Lib.JsonLex
