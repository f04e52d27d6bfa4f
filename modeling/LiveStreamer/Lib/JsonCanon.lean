import LiveStreamer.Lib.JsonPrint
import Mathlib.Data.List.DropRight

/-! # Numbers that are printed canonically

JSON does not say how a number that is no integer is printed. `canonize canon` is a value in which
each of these numbers is replaced by the number that `canon` makes of its text, and a library for
which `Prints canon` holds reads JSON and keeps such values: it prints a number as `canon` has it.
One that prints numbers as they were written is a case of this (`prints_strict`), and one that
leaves out the zeros at the end is another (`canon_trim`).

What is printed for such a value reads back as the same value (`canonize_read`). So a text for
which it is printed is the text of a value that stays as it is (`reads_of_getString`). -/

namespace LiveStreamer.Lib.JsonCanon

open LiveStreamer.Lib.CString LiveStreamer.Lib.Tokener LiveStreamer.Lib.JsonText
open LiveStreamer.Lib.JsonStrings LiveStreamer.Lib.JsonLex LiveStreamer.Lib.JsonTokens
open LiveStreamer.Lib.JsonFound LiveStreamer.Lib.JsonPrint

/-! ### Canonical values -/

section Canonize
variable (canon : Bytes → Json)

mutual

def canonize : Json → Json
  | .null => .null
  | .bool b => .bool b
  | .int i => .int i
  | .double raw => canon raw
  | .str s => .str s
  | .arr l => .arr (canonizeElements l)
  | .obj o => .obj (canonizeMembers o)

def canonizeElements : List Json → List Json
  | [] => []
  | j :: l => canonize j :: canonizeElements l

def canonizeMembers : List (Bytes × Json) → List (Bytes × Json)
  | [] => []
  | (k, j) :: o => (k, canonize j) :: canonizeMembers o

end

theorem canonizeElements_eq (l : List Json) :
    canonizeElements canon l = l.map (canonize canon) := by
  induction l with
  | nil => rfl
  | cons j l ih => rw [canonizeElements, ih, List.map_cons]

theorem canonizeMembers_eq (o : Obj) :
    canonizeMembers canon o = o.map fun p => (p.1, canonize canon p.2) := by
  induction o with
  | nil => rfl
  | cons p o ih => rw [canonizeMembers, ih, List.map_cons]

theorem getEx_canonizeMembers (o : Obj) (k : Bytes) :
    getEx (canonizeMembers canon o) k = (getEx o k).map (canonize canon) := by
  induction o with
  | nil => rfl
  | cons p o ih =>
    obtain ⟨k', j⟩ := p
    rw [canonizeMembers, getEx, getEx, ih]
    split_ifs <;> rfl

/-- The numbers that `canon` makes are printed as texts that are read as them, and stay as they
are. -/
structure Canon : Prop where
  number : ∀ {t r raw}, number t = some (.double raw, r) →
    number (print (canon raw)) = some (canon raw, [])
  idem : ∀ {t r raw}, Tokener.number t = some (.double raw, r) →
    canonize canon (canon raw) = canon raw

/-- The library reads JSON, and prints numbers as `canon` makes them. -/
structure Prints [JsonC] : Prop extends Canon canon where
  parse : ∀ t, JsonC.parse t = (tokenerParse t).map (canonize canon)

end Canonize

/-! ### What is printed for a canonical value -/

section Printing
variable {canon : Bytes → Json} {d : ℕ} {t r : Bytes} {j : Json}

/-- **A canonical value reads back**, and stays as it is. -/
theorem canonize_read (hc : Canon canon) (h : value d t = some (j, r)) :
    Printed d (canonize canon j) ∧ canonize canon (canonize canon j) = canonize canon j := by
  refine value_rule (P := fun d j => Printed d (canonize canon j) ∧
    canonize canon (canonize canon j) = canonize canon j) ?_ ?_ ?_ ?_ ?_ d h
  · intro d t j r h
    rcases number_kinds h with ⟨i, rfl⟩ | ⟨raw, rfl⟩
    · exact ⟨printed_number d h, rfl⟩
    · exact ⟨printed_number d (hc.number h), hc.idem h⟩
  · exact fun d x => ⟨printed_str d x, rfl⟩
  · rintro d j (rfl | ⟨b, rfl⟩)
    · exact ⟨printed_word d (Or.inl rfl), rfl⟩
    · exact ⟨printed_word d (Or.inr ⟨b, rfl⟩), rfl⟩
  · intro d l hl
    rw [canonize, canonizeElements_eq]
    refine ⟨printed_arr fun j hj => ?_, ?_⟩
    · obtain ⟨j', hj', rfl⟩ := List.mem_map.mp hj
      exact (hl j' hj').1
    · rw [canonize, canonizeElements_eq, List.map_map]
      exact congrArg Json.arr (List.map_congr_left fun j hj => (hl j hj).2)
  · intro d o ho hkeys
    rw [canonize, canonizeMembers_eq]
    refine ⟨printed_obj (fun p hp => ?_) ⟨?_, fun p hp => ?_⟩, ?_⟩
    · obtain ⟨p', hp', rfl⟩ := List.mem_map.mp hp
      exact (ho p' hp').1
    · rw [List.map_map]
      exact hkeys.nodup
    · obtain ⟨p', hp', rfl⟩ := List.mem_map.mp hp
      exact hkeys.clean p' hp'
    · rw [canonize, canonizeMembers_eq, List.map_map]
      refine congrArg Json.obj (List.map_congr_left fun p hp => ?_)
      exact congrArg (Prod.mk p.1) (ho p hp).2

/-- Only a string becomes a string. -/
theorem canonize_eq_str (hc : Canon canon) (h : value d t = some (j, r)) {x : Bytes}
    (hx : canonize canon j = .str x) : j = .str x := by
  revert hx
  refine value_rule (P := fun _ j => canonize canon j = .str x → j = .str x) ?_ ?_ ?_ ?_ ?_ d h
  · intro d t j r h hx
    rcases number_kinds h with ⟨i, rfl⟩ | ⟨raw, rfl⟩
    · exact hx
    · rw [canonize] at hx
      rcases number_kinds (hc.number h) with ⟨i, hi⟩ | ⟨raw', hraw⟩
      · exact absurd (hi.symm.trans hx) Json.noConfusion
      · exact absurd (hraw.symm.trans hx) Json.noConfusion
  · exact fun d x => id
  · rintro d j (rfl | ⟨b, rfl⟩) <;> exact id
  · intro d l _ hx
    cases hx
  · intro d o _ _ hx
    cases hx

/-- The C string of a canonical value. -/
theorem shows_canonize (hc : Canon canon) (h : value d t = some (j, r)) {z : Bytes}
    (hz : getString (canonize canon j) = some z) : Shows j z := by
  have hread := (canonize_read hc h).1.reads [] ends_nil
  have hshows := shows_of_getString hread hz
  have hstr := fun x => canonize_eq_str hc h (x := x)
  cases j with
  | str x => exact hshows
  | _ =>
    revert hshows hstr
    generalize canonize canon _ = j'
    cases j' with
    | str x => exact fun _ hstr => absurd (hstr x rfl) Json.noConfusion
    | _ => exact fun hshows _ => hshows

/-- **A value that is its own text**: if what is printed for a value in `V ++ tail` is `V`, then `V`
is the text of a canonical value, whatever follows. -/
theorem reads_of_getString (hc : Canon canon) {V tail : Bytes} (hq : (0x22 : UInt8) ∉ tail)
    (ht : t <:+ V ++ tail) (h : value d t = some (j, r))
    (hz : getString (canonize canon j) = some V) :
    ∃ j', canonize canon j' = j' ∧ getString j' = some V ∧
      ∀ e, Ends e → value d (V ++ e) = some (j', e) := by
  obtain ⟨hp, hidem⟩ := canonize_read hc h
  have hprint : V = print (canonize canon j) := by
    rcases getString_cases hz with ⟨x, hx, hxV⟩ | hz
    · rw [canonize_eq_str hc h hx] at h
      have hcost := cost_of_suffix hq ht h
      have hle := length_le_cost (cstr x)
      have hcstr := (cost_cstr x).1
      rw [hxV] at hle hcstr
      omega
    · rw [← hz, cstr_of_notMem hp.clean]
  refine ⟨canonize canon j, hidem, hz, ?_⟩
  rw [hprint]
  exact hp.reads

/-- **The members of an object**, by their C strings. -/
theorem Prints.memberString [JsonC] (hj : Prints canon) {o : Option Obj}
    (h : tokenerParse t = o.map Json.obj) (k : Bytes) :
    memberString k (JsonC.parse t) =
      o.bind fun o => (getEx o k).bind fun j => getString (canonize canon j) := by
  rw [hj.parse, h]
  rcases o with _ | o
  · rfl
  · show (getEx (canonizeMembers canon o) k).bind getString = _
    rw [getEx_canonizeMembers, Option.bind_map]
    rfl

end Printing

/-! ### Libraries -/

/-- A library whose numbers are as `canon` makes them. -/
@[reducible] def canonical (canon : Bytes → Json) : JsonC :=
  ⟨fun t => (tokenerParse t).map (canonize canon)⟩

theorem Canon.prints {canon : Bytes → Json} (hc : Canon canon) :
    @Prints canon (canonical canon) :=
  @Prints.mk canon (canonical canon) hc fun _ => rfl

/-- With numbers as they are written, every value is canonical. -/
theorem canonize_double {d : ℕ} {t r : Bytes} {j : Json} (h : value d t = some (j, r)) :
    canonize Json.double j = j := by
  refine value_rule (P := fun _ j => canonize Json.double j = j) ?_ ?_ ?_ ?_ ?_ d h
  · intro d t j r h
    rcases number_kinds h with ⟨i, rfl⟩ | ⟨raw, rfl⟩ <;> rfl
  · exact fun d x => rfl
  · rintro d j (rfl | ⟨b, rfl⟩) <;> rfl
  · intro d l hl
    rw [canonize, canonizeElements_eq]
    exact congrArg Json.arr ((List.map_congr_left hl).trans (List.map_id l))
  · intro d o ho _
    rw [canonize, canonizeMembers_eq]
    refine congrArg Json.obj ((List.map_congr_left fun p hp => ?_).trans (List.map_id o))
    exact congrArg (Prod.mk p.1) (ho p hp)

/-- **Numbers may be printed as they were written.** -/
theorem prints_strict : Prints Json.double := by
  refine ⟨⟨fun h => ?_, fun _ => rfl⟩, fun t => ?_⟩
  · have hread := number_print h ends_nil
    rwa [List.append_nil] at hread
  · show tokenerParse t = (tokenerParse t).map (canonize Json.double)
    rcases hj : tokenerParse t with _ | j
    · rfl
    · obtain ⟨⟨j', r⟩, hv, rfl⟩ := Option.map_eq_some_iff.mp hj
      exact congrArg some (canonize_double hv).symm

/-- A fraction without the zeros at its end; one digit is kept. -/
def trimFraction (ds : Bytes) : Bytes :=
  if ds.rdropWhile (· = 0x30) = [] then [0x30] else ds.rdropWhile (· = 0x30)

/-- A number without the zeros at the end of its fraction. One with an exponent stays as it is. -/
def trim (raw : Bytes) : Json :=
  if 0x65 ∈ raw ∨ 0x45 ∈ raw then .double raw
  else .double (raw.takeWhile (· ≠ 0x2e) ++ 0x2e ::
    trimFraction ((raw.dropWhile (· ≠ 0x2e)).drop 1))

theorem trimFraction_trimFraction (ds : Bytes) :
    trimFraction (trimFraction ds) = trimFraction ds := by
  unfold trimFraction
  by_cases h : ds.rdropWhile (· = 0x30) = []
  · rw [if_pos h]
    decide
  · rw [if_neg h, List.rdropWhile_idempotent, if_neg h]

theorem digits_trimFraction {ds : Bytes} (h : Digits ds) : Digits (trimFraction ds) := by
  unfold trimFraction
  split_ifs
  · intro c hc
    rw [List.mem_singleton.mp hc]
    rfl
  · exact fun c hc => h c ((List.rdropWhile_prefix _ ds).subset hc)

theorem trimFraction_ne_nil (ds : Bytes) : trimFraction ds ≠ [] := by
  unfold trimFraction
  split_ifs with h
  · exact List.cons_ne_nil _ _
  · exact h

/-- A digit is no point, and begins no exponent. -/
theorem ne_of_digits {u : Bytes} (h : Digits u) : ∀ c ∈ u, c ≠ 0x2e ∧ c ≠ 0x65 ∧ c ≠ 0x45 := by
  intro c hc
  have hd := h c hc
  refine ⟨?_, ?_, ?_⟩ <;> rintro rfl <;> cases hd

section Trim
variable {s ds f x : Bytes}

theorem trim_fraction (hs : s = [] ∨ s = [0x2d]) (hds : Whole ds) {fs : Bytes} (hfs : Digits fs) :
    trim (s ++ ds ++ 0x2e :: fs ++ []) = .double (s ++ ds ++ 0x2e :: trimFraction fs ++ []) := by
  have hhead : ∀ c ∈ s ++ ds, c ≠ 0x2e ∧ c ≠ 0x65 ∧ c ≠ 0x45 := by
    intro c hc
    rcases List.mem_append.mp hc with hc | hc
    · rcases hs with rfl | rfl
      · cases hc
      · rw [List.mem_singleton.mp hc]
        decide
    · exact ne_of_digits hds.digits c hc
  have hdot : ∀ c ∈ s ++ ds, decide (c ≠ 0x2e) = true := fun c hc =>
    decide_eq_true (hhead c hc).1
  have hexp : ¬ (0x65 ∈ s ++ ds ++ 0x2e :: fs ∨ 0x45 ∈ s ++ ds ++ 0x2e :: fs) := by
    simp only [List.mem_append (t := 0x2e :: fs), List.mem_cons]
    rintro ((h | h | h) | h | h | h)
    · exact (hhead _ h).2.1 rfl
    · cases h
    · exact (ne_of_digits hfs _ h).2.1 rfl
    · exact (hhead _ h).2.2 rfl
    · cases h
    · exact (ne_of_digits hfs _ h).2.2 rfl
  rw [List.append_nil, List.append_nil, trim, if_neg hexp,
    List.takeWhile_append_of_pos hdot, List.dropWhile_append_of_pos hdot]
  simp

theorem trim_exponent {c : UInt8} (hc : c = 0x65 ∨ c = 0x45) (s e : Bytes) :
    trim (s ++ c :: e) = .double (s ++ c :: e) := by
  refine if_pos ?_
  rcases hc with rfl | rfl
  · exact Or.inl (by simp)
  · exact Or.inr (by simp)

/-- The parts of a number that is trimmed. -/
theorem trim_parts (hs : s = [] ∨ s = [0x2d]) (hds : Whole ds) (hf : IsFraction f)
    (hx : IsExponent x) (hne : ¬ (f = [] ∧ x = [])) :
    ∃ f', IsFraction f' ∧ ¬ (f' = [] ∧ x = []) ∧
      trim (s ++ ds ++ f ++ x) = .double (s ++ ds ++ f' ++ x) ∧
      trim (s ++ ds ++ f' ++ x) = .double (s ++ ds ++ f' ++ x) := by
  rcases hx with rfl | ⟨c, s', e, hc, -, -, -, rfl⟩
  · -- without an exponent there is a fraction
    rcases hf with rfl | ⟨fs, hfs, hfsne, rfl⟩
    · exact absurd ⟨rfl, rfl⟩ hne
    · refine ⟨0x2e :: trimFraction fs,
        Or.inr ⟨_, digits_trimFraction hfs, trimFraction_ne_nil fs, rfl⟩,
        fun h => absurd h.1 (List.cons_ne_nil _ _), trim_fraction hs hds hfs, ?_⟩
      rw [trim_fraction hs hds (digits_trimFraction hfs), trimFraction_trimFraction]
  · exact ⟨f, hf, hne, trim_exponent hc _ _, trim_exponent hc _ _⟩

end Trim

/-- **Numbers may be printed without the zeros at the end.** -/
theorem canon_trim : Canon trim := by
  have hparts {t r raw : Bytes} (h : number t = some (.double raw, r)) :
      ∃ s ds f x, (s = [] ∨ s = [0x2d]) ∧ Whole ds ∧ IsFraction f ∧ IsExponent x ∧
        ¬ (f = [] ∧ x = []) ∧ raw = s ++ ds ++ f ++ x := by
    obtain ⟨s, ds, f, x, hs, hds, hf, hx, hraw⟩ := number_parts h
    by_cases hint : f = [] ∧ x = []
    · rw [if_pos hint] at hraw
      cases hraw
    · rw [if_neg hint] at hraw
      exact ⟨s, ds, f, x, hs, hds, hf, hx, hint, Json.double.inj hraw⟩
  constructor
  · intro t r raw h
    obtain ⟨s, ds, f, x, hs, hds, hf, hx, hne, rfl⟩ := hparts h
    obtain ⟨f', hf', hne', htrim, -⟩ := trim_parts hs hds hf hx hne
    have hread := number_double hs hds hf' hx hne' ends_nil
    rwa [List.append_nil, ← htrim] at hread
  · intro t r raw h
    obtain ⟨s, ds, f, x, hs, hds, hf, hx, hne, rfl⟩ := hparts h
    obtain ⟨f', -, -, htrim, hagain⟩ := trim_parts hs hds hf hx hne
    rw [htrim, canonize, hagain]

example : getString (canonize trim (.double (lit "1.50"))) = some (lit "1.5") := by decide

end LiveStreamer.Lib.JsonCanon
