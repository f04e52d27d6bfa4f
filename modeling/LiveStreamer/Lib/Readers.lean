import LiveStreamer.Lib.Simulation

/-! # A feed and its readers

Items are added to a feed. A reader is sent the newest item, which it takes some time later, or
never. What is on its way to a reader is newer than what it has taken last, so what a reader takes
is a part of the feed, in the order of the feed (`taken_sublist`). -/

namespace LiveStreamer.Lib.Readers

open LiveStreamer.Lib.Run LiveStreamer.Lib.Simulation

variable {ι ν : Type}

/-- A feed. A position counts the items up to one of them. -/
structure Feed (ι ν : Type) where
  items : List ν
  /-- The position of the item a reader has taken last; 0 if there is none. -/
  pos : ι → ℕ
  /-- The position of the item on its way to a reader. -/
  sent : ι → Option ℕ

inductive Move (ι ν : Type) where
  | add (v : ν)
  | send (d : ι)
  | take (d : ι)
  | drop (d : ι)
  | wait

/-- The item at a position. -/
def itemAt (items : List ν) (k : ℕ) : Option ν := if k = 0 then none else items[k - 1]?

/-- An item keeps its position. -/
theorem itemAt_mono {l l' : List ν} {k : ℕ} {v : ν} (h : l <+: l') (hi : itemAt l k = some v) :
    itemAt l' k = some v := by
  unfold itemAt at hi ⊢
  split_ifs at hi ⊢ with h0
  have hlt : k - 1 < l.length := (List.getElem?_eq_some_iff.mp hi).1
  rw [List.prefix_iff_getElem?.mp h _ hlt, ← hi, List.getElem?_eq_getElem hlt]

theorem itemAt_eq_mono {l l' : List ν} {k : ℕ} (h : l <+: l') (hk : k ≤ l.length) :
    itemAt l' k = itemAt l k := by
  unfold itemAt
  split_ifs with h0
  · rfl
  · have hlt : k - 1 < l.length := by omega
    rw [List.prefix_iff_getElem?.mp h _ hlt, List.getElem?_eq_getElem hlt]

/-- The newest item. -/
theorem itemAt_length {l : List ν} (h : l ≠ []) : itemAt l l.length = l.getLast? := by
  rw [itemAt, if_neg (mt List.length_eq_zero_iff.mp h), List.getLast?_eq_getElem?]

/-- The positions are in order. -/
structure Feed.Ordered (f : Feed ι ν) : Prop where
  pos : ∀ d, f.pos d ≤ f.items.length
  sent : ∀ d k, f.sent d = some k → f.pos d < k ∧ k ≤ f.items.length

variable [DecidableEq ι]

def Feed.step (f : Feed ι ν) : Move ι ν → Option (Feed ι ν)
  | .add v => some { f with items := f.items ++ [v] }
  | .send d =>
    if f.pos d < f.items.length then
      some { f with sent := Function.update f.sent d (some f.items.length) }
    else none
  | .take d =>
    match f.sent d with
    | some k =>
      some { f with pos := Function.update f.pos d k, sent := Function.update f.sent d none }
    | none => none
  | .drop d => some { f with sent := Function.update f.sent d none }
  | .wait => some f

/-- What is taken, and by whom. -/
def Feed.out (f : Feed ι ν) : Move ι ν → List (ι × ν)
  | .take d => (((f.sent d).bind (itemAt f.items)).map fun v => (d, v)).toList
  | _ => []

/-- What the reader `d` has taken. -/
def takenBy (d : ι) (l : List (ι × ν)) : List ν := (l.filter fun p => p.1 = d).map Prod.snd

@[simp] theorem takenBy_nil (d : ι) : takenBy d ([] : List (ι × ν)) = [] := rfl

theorem takenBy_append (d : ι) (l m : List (ι × ν)) :
    takenBy d (l ++ m) = takenBy d l ++ takenBy d m := by
  rw [takenBy, List.filter_append, List.map_append, takenBy, takenBy]

variable {f f' : Feed ι ν} {m : Move ι ν}

/-- A move keeps the order, adds to the feed at its end, and takes a reader forward. -/
theorem step_cases (h : f.Ordered) (hs : f.step m = some f') :
    f'.Ordered ∧ f.items <+: f'.items ∧ ∀ d, (f'.pos d = f.pos d ∧ takenBy d (f.out m) = []) ∨
      ∃ v, f.pos d < f'.pos d ∧ itemAt f.items (f'.pos d) = some v ∧ takenBy d (f.out m) = [v] := by
  cases m with
  | add v =>
    cases hs
    refine ⟨⟨fun d => ?_, fun d k hk => ?_⟩, List.prefix_append .., fun d => Or.inl ⟨rfl, rfl⟩⟩
    · have := h.pos d
      simp only [List.length_append, List.length_singleton]
      omega
    · obtain ⟨h1, h2⟩ := h.sent d k hk
      simp only [List.length_append, List.length_singleton]
      exact ⟨h1, by omega⟩
  | send d =>
    simp only [Feed.step] at hs
    split_ifs at hs with hlt
    cases hs
    refine ⟨⟨h.pos, fun e k hk => ?_⟩, List.prefix_rfl, fun e => Or.inl ⟨rfl, rfl⟩⟩
    by_cases he : e = d
    · subst he
      simp only [Function.update_self, Option.some.injEq] at hk
      subst hk
      exact ⟨hlt, Nat.le_refl _⟩
    · simp only [Function.update_of_ne he] at hk
      exact h.sent e k hk
  | take d =>
    simp only [Feed.step] at hs
    split at hs
    · next k hk =>
      cases hs
      obtain ⟨h1, h2⟩ := h.sent d k hk
      refine ⟨⟨fun e => ?_, fun e k' hk' => ?_⟩, List.prefix_rfl, fun e => ?_⟩
      · by_cases he : e = d
        · subst he
          simpa only [Function.update_self] using h2
        · simpa only [Function.update_of_ne he] using h.pos e
      · by_cases he : e = d
        · subst he
          simp only [Function.update_self, reduceCtorEq] at hk'
        · simp only [Function.update_of_ne he] at hk' ⊢
          exact h.sent e k' hk'
      · have hlt : k - 1 < f.items.length := by omega
        have hitem : itemAt f.items k = some f.items[k - 1] := by
          rw [itemAt, if_neg (by omega), List.getElem?_eq_getElem hlt]
        have hout : f.out (.take d) = [(d, f.items[k - 1])] := by
          rw [Feed.out, hk, Option.bind_some, hitem]
          rfl
        rw [hout]
        by_cases he : e = d
        · subst he
          refine Or.inr ⟨f.items[k - 1], ?_, ?_, by simp [takenBy]⟩
          · simpa only [Function.update_self] using h1
          · simpa only [Function.update_self] using hitem
        · refine Or.inl ⟨?_, ?_⟩
          · simp only [Function.update_of_ne he]
          · simp [takenBy, Ne.symm he]
    · cases hs
  | drop d =>
    cases hs
    refine ⟨⟨h.pos, fun e k hk => ?_⟩, List.prefix_rfl, fun e => Or.inl ⟨rfl, rfl⟩⟩
    by_cases he : e = d
    · subst he
      simp only [Function.update_self, reduceCtorEq] at hk
    · simp only [Function.update_of_ne he] at hk
      exact h.sent e k hk
  | wait =>
    cases hs
    exact ⟨h, List.prefix_rfl, fun d => Or.inl ⟨rfl, rfl⟩⟩

/-- **What a reader takes** in a run is a part of what comes after its first position, and ends
with the item at its last one. -/
theorem taken_sublist {ms : List (Move ι ν)} (h : f.Ordered) (hr : run Feed.step f ms = some f')
    (d : ι) : f'.Ordered ∧ f.items <+: f'.items ∧
      (takenBy d (outputs Feed.step Feed.out f ms)).Sublist (f'.items.drop (f.pos d)) ∧
      itemAt f'.items (f'.pos d) =
        (takenBy d (outputs Feed.step Feed.out f ms)).getLast?.or (itemAt f.items (f.pos d)) := by
  induction ms generalizing f with
  | nil =>
    cases Option.some.inj hr
    exact ⟨h, List.prefix_rfl, List.nil_sublist _, rfl⟩
  | cons m ms ih =>
    obtain ⟨f₁, h₁, hrest⟩ := run_cons_eq_some.mp hr
    obtain ⟨ho, hpre, hd⟩ := step_cases h h₁
    obtain ⟨ho', hpre', hsub, hlast⟩ := ih ho hrest
    rw [outputs_cons h₁, takenBy_append]
    refine ⟨ho', hpre.trans hpre', ?_⟩
    rcases hd d with ⟨hpos, hnone⟩ | ⟨v, hlt, hitem, hv⟩
    · rw [hnone, List.nil_append, ← hpos, ← itemAt_eq_mono hpre (hpos ▸ h.pos d)]
      exact ⟨hsub, hlast⟩
    · have hitem₁ := itemAt_mono hpre hitem
      have hitem' := itemAt_mono hpre' hitem₁
      obtain ⟨k, hk⟩ : ∃ k, f₁.pos d = k + 1 := ⟨f₁.pos d - 1, by omega⟩
      rw [hk] at hsub hlast hitem₁ hitem' hlt
      have hget : f'.items[k]? = some v := by simpa [itemAt] using hitem'
      obtain ⟨hlt', hget⟩ := List.getElem?_eq_some_iff.mp hget
      have hdrop : f'.items.drop k = v :: f'.items.drop (k + 1) := by
        rw [List.drop_eq_getElem_cons hlt', hget]
      rw [hv, List.singleton_append]
      constructor
      · refine List.Sublist.trans ?_ (List.drop_sublist_drop_left f'.items (by omega : f.pos d ≤ k))
        rw [hdrop]
        exact hsub.cons_cons v
      · rw [hlast, hitem₁, List.getLast?_cons]
        rcases (takenBy d (outputs Feed.step Feed.out f₁ ms)).getLast? with _ | w
        · rfl
        · rfl

end LiveStreamer.Lib.Readers
