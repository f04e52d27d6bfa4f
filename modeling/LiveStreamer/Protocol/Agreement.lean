import LiveStreamer.Lib.JsonFound
import LiveStreamer.Protocol.Messages

/-! # What the readers make of a message

The writers paste their strings into the templates as they are, and cut the text to the buffer,
while the readers are a full JSON reader. They agree on a stream and a value if and only if both are
plain and the text fits (`agree_iff`).

Behind the opening quote of the stream, a text that is read as one object is inside of a string.
It has to pass the text `gap` between the two strings, and both fields are either read from where
they were written, and then the strings are plain, or found in one of the strings (`Found`). A field
that is found in a string cannot have the value of that string, and the two cannot be found in each
other: either is too long for the other, or has no place for its key. -/

namespace LiveStreamer.Protocol.Agreement

open LiveStreamer.Lib.CString LiveStreamer.Lib.JsonFound LiveStreamer.Lib.JsonLex
open LiveStreamer.Lib.JsonStrings LiveStreamer.Lib.JsonText LiveStreamer.Lib.JsonTokens
open LiveStreamer.Lib.Program LiveStreamer.Lib.Program.Prog LiveStreamer.Lib.Tokener
open LiveStreamer.StreamerServer.SrvrJson (Fs getJsonValueFromObj storedAction storedAction_set)
open LiveStreamer.StreamerServer.SrvrComm (MAXDATASIZE field srvrSem srvrSem_set srvrSem_lwsWrite)
open LiveStreamer.StreamerServer.PlayerServer (websocketWriteBack websocketWriteBack_command)
open LiveStreamer.Protocol.Messages LiveStreamer.Protocol.Messages.Writer

/-! ### The parts of a text -/

/-- The text before the stream. -/
def head (w : Writer) : Bytes :=
  0x7b :: (w.blanks ++ 0x22 :: (lit "streamId" ++ 0x22 :: (w.blanks ++ 0x3a ::
    (w.blanks ++ [0x22]))))

/-- The text between the stream and the value. -/
def gap (w : Writer) : Bytes :=
  0x22 :: 0x2c :: 0x22 :: (w.key ++ 0x22 :: (w.blanks ++ 0x3a :: (w.blanks ++ [0x22])))

/-- The text after the opening quote of the stream. -/
def rest (w : Writer) (s v : Bytes) : Bytes := s ++ (gap w ++ (v ++ [0x22, 0x7d]))

theorem full_eq (w : Writer) (s v : Bytes) : w.full s v = head w ++ rest w s v := by
  simp [full, pairText, memberText, head, rest, gap]

/-- What is sent is the start of the template, and all of it only if it fits. -/
theorem text_eq_some {w : Writer} {s v msg : Bytes} (h : w.text s v = some msg) :
    ∃ S, msg = head w ++ S ∧ S <+: rest w s v ∧ (S = rest w s v → Fits w s v) := by
  have hcut : msg = snprintf MAXDATASIZE (w.full s v) := by
    cases w with
    | SIGStatus =>
      rw [← statusText_eq]
      exact (Option.some.inj h).symm
    | SIGAct =>
      rw [← actText_eq]
      exact (Option.some.inj h).symm
    | writeBack =>
      rw [text] at h
      split_ifs at h with hlt
      rw [← statusReply_eq, snprintf_of_fits hlt]
      exact (Option.some.inj h).symm
  have hhead : (head w).length ≤ MAXDATASIZE - 1 := by
    cases w <;> decide
  refine ⟨(rest w s v).take (MAXDATASIZE - 1 - (head w).length), ?_, List.take_prefix _ _, ?_⟩
  · rw [hcut, snprintf, full_eq, List.take_append, List.take_of_length_le hhead]
  · intro hall
    have hlen := congrArg List.length hall
    rw [List.length_take] at hlen
    have hfull : (w.full s v).length = (head w).length + (rest w s v).length := by
      rw [full_eq, List.length_append]
    have hmax : MAXDATASIZE = 255 := rfl
    unfold Fits
    omega

/-! ### The first member -/

/-- A text that is one object is read from the stream on. -/
theorem first_member {w : Writer} {S : Bytes} {o : Obj}
    (h : value maxDepth (head w ++ S) = some (.obj o, [])) :
    ∃ x X, scan none .plain S = some (x, X) ∧
      ((expect 0x7d X = some [] ∧ o = [(lit "streamId", .str x)]) ∨
        ∃ X' n, expect 0x2c X = some X' ∧
          members (value 31) n [(lit "streamId", .str x)] X' = some (o, [])) := by
  have hb := blank_blanks w
  have hw (t : Bytes) : skipWs (0x7b :: t) = 0x7b :: t := skipWs_blank blank_nil rfl t
  have hhead : head w ++ S = 0x7b :: (w.blanks ++ 0x22 :: (lit "streamId" ++ 0x22 ::
      (w.blanks ++ 0x3a :: (w.blanks ++ 0x22 :: S)))) := by simp [head]
  have hfirst (t : Bytes) : expect 0x7d (w.blanks ++ 0x22 :: t) = none :=
    expect_ne hb rfl (by decide) t
  rw [hhead, show maxDepth = 31 + 1 from rfl, value, hw] at h
  dsimp only at h
  rw [if_neg (by decide), if_pos rfl, hfirst] at h
  dsimp only at h
  obtain ⟨⟨o', r⟩, hm, ho⟩ := Option.map_eq_some_iff.mp h
  cases ho
  generalize (w.blanks ++ 0x22 :: (lit "streamId" ++ 0x22 ::
      (w.blanks ++ 0x3a :: (w.blanks ++ 0x22 :: S)))).length = n at hm
  rcases n with _ | n
  · cases hm
  have hk : Plain (lit "streamId") := by decide
  rw [members, expect_self hb rfl, Option.bind_some, scan_closed hk, Option.bind_some,
    expect_self hb rfl, Option.bind_some, show 31 = 30 + 1 from rfl, value_str 30 hb] at hm
  obtain ⟨⟨j, X₁⟩, hj, hm⟩ := Option.bind_eq_some_iff.mp hm
  obtain ⟨⟨x, X⟩, hx, hxj⟩ := Option.map_eq_some_iff.mp hj
  cases hxj
  rw [cstr_of_notMem hk.notMem_zero] at hm
  refine ⟨x, X, hx, ?_⟩
  split at hm
  · next X' hX' => exact Or.inr ⟨X', n, hX', hm⟩
  · obtain ⟨t, ht, hm⟩ := Option.map_eq_some_iff.mp hm
    cases hm
    exact Or.inl ⟨ht, rfl⟩

/-- What the readers tell about the text `S` after the opening quote of the stream. -/
structure Read (w : Writer) (s v S : Bytes) : Prop where
  closed : ∃ P, S = P ++ [0x7d]
  outside : lex .str S = some .out
  stream : (∃ x X, scan none .plain S = some (x, X) ∧ cstr x = s) ∨ Found 31 S (lit "streamId") s
  value : Found 31 S w.key v

theorem read_of_reads {w : Writer} {s v S : Bytes} (h : Reads w s v (head w ++ S)) :
    Read w s v S := by
  obtain ⟨⟨o, ho⟩, hs, hv⟩ := h
  obtain ⟨x, X, hx, hrest⟩ := first_member ho
  rw [getJsonValueFromObj, tokenerParse, ho, Option.map_some, memberString] at hs hv
  obtain ⟨j, hj, hjs⟩ := Option.bind_eq_some_iff.mp hs
  obtain ⟨j', hj', hjv⟩ := Option.bind_eq_some_iff.mp hv
  have hne : getEx [(lit "streamId", .str x)] w.key = none := by
    rw [getEx, if_neg (streamId_ne_key w), getEx]
  obtain ⟨u, rfl, hu⟩ := lex_scan hx
  have hstr : lex .str u = some .str := hu
  have hshut : lex .str (u ++ [0x22]) = some .shut := by
    rw [lex_append_some hstr]
    rfl
  rcases hrest with ⟨-, rfl⟩ | ⟨X', n, hX', hm⟩
  · -- the value is missing
    rw [hne] at hj'
    cases hj'
  · obtain ⟨b, hb, rfl⟩ := expect_eq_some hX'
    have hcomma : lex .str ((u ++ 0x22 :: b) ++ [0x2c]) = some .out := by
      rw [show (u ++ 0x22 :: b) ++ [0x2c] = (u ++ [0x22]) ++ (b ++ [0x2c]) by simp,
        lex_append_some hshut, lex_blank (Or.inr rfl) hb rfl]
    have hS : u ++ 0x22 :: (b ++ 0x2c :: X') = (u ++ 0x22 :: b) ++ 0x2c :: X' := by simp
    obtain ⟨⟨z, rfl, hz⟩, -⟩ := members_tokens (value_isRead 31) hm fun p hp => by
      rw [List.mem_singleton.mp hp]
      exact tokens_printStr x
    refine ⟨⟨(u ++ 0x22 :: b) ++ 0x2c :: z, by simp⟩, ?_, ?_, ?_⟩
    · rw [hS, show (u ++ 0x22 :: b) ++ 0x2c :: (z ++ [0x7d]) =
        ((u ++ 0x22 :: b) ++ [0x2c]) ++ (z ++ [0x7d]) by simp, lex_append_some hcomma, hz]
    · rcases members_found hm hcomma hj fun hv => shows_of_getString hv hjs with hfirst | hfound
      · rw [getEx, if_pos rfl, Option.some.injEq] at hfirst
        subst hfirst
        exact Or.inl ⟨x, _, hx, Option.some.inj hjs⟩
      · rw [hS]
        exact Or.inr hfound
    · rcases members_found hm hcomma hj' fun hv => shows_of_getString hv hjv with hfirst | hfound
      · rw [hne] at hfirst
        cases hfirst
      · rw [hS]
        exact hfound

/-! ### Where a field can be -/

/-- Between the strings, one is inside of a string before and after. -/
theorem lex_gap {w : Writer} {l m : Lex} (h : lex l (gap w) = some m) : l = .str ∧ m = .str := by
  revert h
  cases w <;> cases l <;> decide +revert

/-- The quotes between the strings that open one for the reader. -/
theorem gap_quote (w : Writer) : ∀ i < (gap w).length, (gap w)[i]? = some 0x22 →
    lex .str ((gap w).take i) = some .out → i = 2 ∨ i + 1 = (gap w).length := by
  cases w <;> decide

/-- The last byte before blanks. -/
theorem before_blank {p p' b b' : Bytes} {c c' : UInt8} (h : p ++ c :: b = p' ++ c' :: b')
    (hb : Blank b) (hb' : Blank b') (hc : isWs c = false) (hc' : isWs c' = false) : c = c' := by
  rcases List.append_eq_append_iff.mp h with ⟨a, rfl, ha⟩ | ⟨a, rfl, ha⟩
  · rcases a with _ | ⟨x, a⟩
    · exact (List.cons.inj ha).1
    · rw [(List.cons.inj ha).2] at hb
      rw [hb c' (by simp)] at hc'
      cases hc'
  · rcases a with _ | ⟨x, a⟩
    · exact (List.cons.inj ha).1.symm
    · rw [(List.cons.inj ha).2] at hb'
      rw [hb' c (by simp)] at hc
      cases hc

/-- A string that is read from where it was written is plain. -/
theorem plain_of_own {z S x X : Bytes} (hS : S <+: z ∨ ∃ t, S = z ++ 0x22 :: t)
    (h : scan none .plain S = some (x, X)) (hx : cstr x = z) : Plain z := by
  rcases hS with hS | ⟨t, rfl⟩
  · -- the closing quote would be part of the string
    obtain ⟨u, rfl, hu⟩ := scan_cost h
    have hlen := hS.length_le
    have hz := length_le_cost z
    have hcost := (cost_cstr x).1
    rw [hx] at hcost
    rw [List.length_append, List.length_cons] at hlen
    omega
  · exact plain_of_scan h hx

section Places
variable {w : Writer} {s v V k z q y : Bytes}

/-- A key that is opened between the strings is that of the template: the other quotes close a
string, or come after a colon. -/
theorem template_of_gap {a c : Bytes} (hgap : gap w = a ++ 0x22 :: c)
    (hout : lex .str a = some .out) (hcomma : ∃ p b, Blank b ∧ s ++ a = p ++ 0x2c :: b) :
    c = w.key ++ 0x22 :: (w.blanks ++ 0x3a :: (w.blanks ++ [0x22])) := by
  have hlt : a.length < (gap w).length := by
    rw [hgap, List.length_append, List.length_cons]
    omega
  have hat : (gap w)[a.length]? = some 0x22 := by
    rw [hgap, List.getElem?_append_right (Nat.le_refl _), Nat.sub_self]
    rfl
  have htake : (gap w).take a.length = a := by rw [hgap, List.take_left]
  rcases gap_quote w a.length hlt hat (by rwa [htake]) with h2 | hlast
  · have ha : a = [0x22, 0x2c] := by
      rw [← htake, h2, gap]
      rfl
    rw [ha, gap] at hgap
    simpa using hgap.symm
  · exfalso
    have hcolon : a = (0x22 :: 0x2c :: 0x22 :: (w.key ++ [0x22]) ++ w.blanks) ++
        0x3a :: w.blanks := by
      rw [← htake, show a.length = (gap w).length - 1 by omega, ← List.dropLast_eq_take]
      cases w <;> rfl
    obtain ⟨p, b, hb, hp⟩ := hcomma
    rw [hcolon, ← List.append_assoc] at hp
    exact absurd (before_blank hp (blank_blanks w) hb rfl rfl) (by decide)

/-- A member is found in the stream, between the strings, or in the value. -/
theorem found_cases (hs : lex .str s = some .str) (h : Found 31 (s ++ (gap w ++ V)) k z) :
    (∃ q y, s = q ++ 0x22 :: y ∧ FoundAt 31 k z q (y ++ (gap w ++ V))) ∨
      (∃ q, FoundAt 31 k z q (w.key ++ 0x22 :: (w.blanks ++ 0x3a :: (w.blanks ++ 0x22 :: V)))) ∨
      ∃ q y, V = q ++ 0x22 :: y ∧ lex .str q = some .out ∧
        FoundAt 31 k z (s ++ (gap w ++ q)) y := by
  obtain ⟨q, y, hS, hf⟩ := h
  have hq := hf.outside
  have hgap : lex .str (gap w) = some .str := by
    cases w <;> decide
  rcases List.append_eq_append_iff.mp hS with ⟨a, rfl, ha⟩ | ⟨a, rfl, ha⟩
  · rw [lex_append_some hs] at hq
    rcases List.append_eq_append_iff.mp ha with ⟨a', rfl, ha'⟩ | ⟨a', ha', hy⟩
    · rw [lex_append_some hgap] at hq
      exact Or.inr (Or.inr ⟨a', y, ha', hq, hf⟩)
    · rcases a' with _ | ⟨c, a'⟩
      · rw [List.append_nil] at ha'
        rw [← ha', hgap] at hq
        cases hq
      · obtain ⟨rfl, rfl⟩ := List.cons.inj hy
        rw [template_of_gap ha' hq hf.comma] at hf
        exact Or.inr (Or.inl ⟨s ++ a, by simpa using hf⟩)
  · rcases a with _ | ⟨c, a⟩
    · rw [List.append_nil] at hs
      rw [hs] at hq
      cases hq
    · obtain ⟨rfl, rfl⟩ := List.cons.inj ha
      exact Or.inl ⟨q, a, rfl, hf⟩

/-- A member that is found in the stream: its value is too short to be the stream. -/
theorem found_stream (hk : k.head?.map isSep = some false) (hs : s = q ++ 0x22 :: y)
    (h : FoundAt 31 k z q (y ++ (gap w ++ V))) :
    ¬ Lexed s ∧ (Lexed z ∨ cost z < s.length) := by
  refine ⟨h.not_lexed (e := []) h.outside (by rw [hs, List.append_nil]) rfl hk, ?_⟩
  refine h.kinds.imp id ?_
  rintro ⟨r, hr⟩
  have hlen := hr.length
  -- the string ends before the key of the template
  have hend : (gap w).length + V.length ≤ r.length + 3 := by
    obtain ⟨c, k', hkey, hc, h3a⟩ : ∃ c k', w.key = c :: k' ∧ isWs c = false ∧ c ≠ 0x3a := by
      cases w <;> exact ⟨_, _, rfl, by decide, by decide⟩
    have hcomma : y ++ (gap w ++ V) = (y ++ [0x22]) ++ 0x2c :: 0x22 :: c ::
        (k' ++ 0x22 :: (w.blanks ++ 0x3a :: (w.blanks ++ 0x22 :: V))) := by simp [gap, hkey]
    rw [hcomma] at hr
    have hsuf := (hr.comma hc h3a).length_le
    simp only [gap, List.length_cons, List.length_append, List.length_nil, hkey] at hsuf ⊢
    omega
  have hs' := congrArg List.length hs
  simp only [List.length_cons, List.length_append] at hlen hs'
  omega

/-- A member that is found in the value: its value is too short to be the value. -/
theorem found_value (hk : k.head?.map isSep = some false) {q₀ : Bytes}
    (hV : V = v ++ [0x22, 0x7d] ∨ V <+: v) (hy : V = q ++ 0x22 :: y)
    (hq : lex .str q = some .out) (h : FoundAt 31 k z q₀ y) :
    ¬ Lexed v ∧ (Lexed z ∨ cost z < v.length) := by
  constructor
  · rcases hV with rfl | ⟨e, rfl⟩
    · -- the closing quote opens no key
      have hclosing : ¬ FoundAt 31 k z q₀ [0x7d] := by
        rintro hc
        obtain ⟨_, _, _, _, _, hx, -⟩ := hc.member
        cases hx
      rcases List.append_eq_append_iff.mp hy with ⟨a, rfl, ha⟩ | ⟨a, rfl, ha⟩
      · rcases a with _ | ⟨c, _ | ⟨c', a⟩⟩
        · obtain ⟨-, rfl⟩ := List.cons.inj ha
          exact absurd h hclosing
        · cases ha
        · simp at ha
      · rcases a with _ | ⟨c, a⟩
        · obtain ⟨-, rfl⟩ := List.cons.inj ha
          exact absurd h hclosing
        · obtain ⟨rfl, rfl⟩ := List.cons.inj ha
          exact h.not_lexed (e := []) hq (by rw [List.append_nil]) rfl hk
    · rw [← List.append_nil y] at h
      exact h.not_lexed (e := e) hq (by simp [hy]) rfl hk
  · refine h.kinds.imp id ?_
    rintro ⟨r, hr⟩
    have hlen := hr.length
    have hy' := congrArg List.length hy
    have hle : V.length ≤ v.length + 2 := by
      rcases hV with rfl | hV
      · rw [List.length_append]
        rfl
      · have := hV.length_le
        omega
    simp only [List.length_cons, List.length_append] at hy'
    omega

/-- The value of the template is read from its opening quote on. -/
theorem template_value (h : FoundAt 31 w.key z q
    (w.key ++ 0x22 :: (w.blanks ++ 0x3a :: (w.blanks ++ 0x22 :: V)))) :
    ∃ p, scan none .plain V = some p ∧ cstr p.1 = z := by
  obtain ⟨x, t₁, t₂, j, r, hx, -, ht₂, hj, hz⟩ := h.member
  rw [scan_closed (plain_key w)] at hx
  cases hx
  rw [expect_self (blank_blanks w) rfl] at ht₂
  cases ht₂
  rw [show 31 = 30 + 1 from rfl, value_str 30 (blank_blanks w)] at hj
  obtain ⟨p, hp, hpj⟩ := Option.map_eq_some_iff.mp hj
  cases hpj
  exact ⟨p, hp, hz⟩

end Places

/-! ### The whole text -/

/-- A text that is cut in the stream is not read. -/
theorem Read.not_cut {w : Writer} {s v S : Bytes} (h : Read w s v S) : ¬ S <+: s := by
  rintro hS
  rcases h.stream with ⟨x, X, hx, hxs⟩ | ⟨q, y, hq, hf⟩
  · have hs := plain_of_own (Or.inl hS) hx hxs
    exact not_plain_of_out h.outside (hs.mono hS)
  · obtain ⟨hno, hkind⟩ := found_value (v := s) (by decide) (Or.inr hS) hq
      hf.outside hf
    have hle := length_le_cost s
    rcases hkind with hlex | hlt
    · exact hno hlex
    · omega

/-- A text that is read ends in the value, or after it. -/
theorem Read.split {w : Writer} {s v S : Bytes} (h : Read w s v S) (hS : S <+: rest w s v) :
    ∃ V, S = s ++ (gap w ++ V) ∧ (V = v ++ [0x22, 0x7d] ∨ V <+: v) := by
  obtain ⟨P, hP⟩ := h.closed
  have hlast {a : Bytes} {c : UInt8} (ha : S = a ++ [c]) : c = 0x7d := by
    rw [hP] at ha
    exact (List.cons.inj (List.append_inj_right' ha rfl)).1.symm
  obtain ⟨e, he⟩ := hS
  rcases List.append_eq_append_iff.mp he with ⟨a, hs, -⟩ | ⟨a, rfl, ha⟩
  · exact absurd ⟨a, hs.symm⟩ h.not_cut
  rcases List.append_eq_append_iff.mp ha with ⟨V, rfl, hV⟩ | ⟨a', hgap, -⟩
  · refine ⟨V, rfl, ?_⟩
    rcases List.append_eq_append_iff.mp hV with ⟨z, rfl, hz⟩ | ⟨z, hz, -⟩
    · rcases z with _ | ⟨c, _ | ⟨c', z⟩⟩
      · exact Or.inr (by simp)
      · obtain ⟨rfl, -⟩ := List.cons.inj hz
        exact absurd (hlast (a := s ++ (gap w ++ v)) (c := 0x22) (by simp)) (by decide)
      · obtain ⟨rfl, hz₁⟩ := List.cons.inj hz
        obtain ⟨rfl, hz₂⟩ := List.cons.inj hz₁
        rw [(List.append_eq_nil_iff.mp hz₂.symm).1]
        exact Or.inl rfl
    · exact Or.inr ⟨z, hz.symm⟩
  · -- there is no closing brace between the strings
    exfalso
    rcases List.eq_nil_or_concat a with rfl | ⟨a₁, c, rfl⟩
    · exact h.not_cut (by simp)
    · have hc : c = 0x7d := hlast (a := s ++ a₁) (by simp)
      have hmem : c ∈ gap w := by simp [hgap]
      rw [hc] at hmem
      revert hmem
      cases w <;> decide

/-- **A text that reads back is made of plain strings, and is whole.** -/
theorem Read.plain {w : Writer} {s v S : Bytes} (h : Read w s v S) (hS : S <+: rest w s v) :
    Plain s ∧ Plain v ∧ S = rest w s v := by
  obtain ⟨V, rfl, hV⟩ := h.split hS
  obtain ⟨l, hl, hgap⟩ := lex_of_append h.outside
  obtain ⟨m, hm, hout⟩ := lex_of_append hgap
  obtain ⟨rfl, rfl⟩ := lex_gap hm
  have hs := length_le_cost s
  have hv := length_le_cost v
  have hlexed {z : Bytes} (hz : Plain z) : Lexed z := ⟨.out, (lex_plain hz).1⟩
  have hkey : w.key.head?.map isSep = some false := by
    cases w <;> decide
  -- the stream is where it was written, or in the value
  have hstream : Plain s ∨ ¬ Lexed v ∧ (Lexed s ∨ cost s < v.length) := by
    rcases h.stream with ⟨x, X, hx, hxs⟩ | hf
    · exact Or.inl (plain_of_own (Or.inr ⟨_, rfl⟩) hx hxs)
    · rcases found_cases hl hf with ⟨q, y, hq, hf⟩ | ⟨q, hf⟩ | ⟨q, y, hy, hq, hf⟩
      · obtain ⟨hno, hlex | hlt⟩ := found_stream (by decide) hq hf
        · exact absurd hlex hno
        · omega
      · -- the template has another key there
        obtain ⟨x, t, -, -, -, hx, hk, -⟩ := hf.member
        rw [scan_closed (plain_key w)] at hx
        cases hx
        rw [cstr_of_notMem (plain_key w).notMem_zero] at hk
        exact absurd hk.symm (streamId_ne_key w)
      · exact Or.inr (found_value (by decide) hV hy hq hf)
  -- the value is where it was written, or in the stream
  have hvalue : Plain v ∨ ¬ Lexed s ∧ (Lexed v ∨ cost v < s.length) := by
    rcases found_cases hl h.value with ⟨q, y, hq, hf⟩ | ⟨q, hf⟩ | ⟨q, y, hy, hq, hf⟩
    · exact Or.inr (found_stream hkey hq hf)
    · have hown : V <+: v ∨ ∃ t, V = v ++ 0x22 :: t :=
        hV.symm.imp id fun hw => ⟨_, hw⟩
      obtain ⟨x, hx, hxv⟩ := template_value hf
      exact Or.inl (plain_of_own hown hx hxv)
    · obtain ⟨hno, hlex | hlt⟩ := found_value hkey hV hy hq hf
      · exact absurd hlex hno
      · omega
  have hplain : Plain s ∧ Plain v := by
    rcases hstream with hs' | ⟨hnv, hs'⟩ <;> rcases hvalue with hv' | ⟨hns, hv'⟩
    · exact ⟨hs', hv'⟩
    · exact absurd (hlexed hs') hns
    · exact absurd (hlexed hv') hnv
    · -- each would be too long for the other
      have h1 := hs'.resolve_left hns
      have h2 := hv'.resolve_left hnv
      omega
  refine ⟨hplain.1, hplain.2, ?_⟩
  rcases hV with rfl | hV
  · rfl
  · exact absurd (hplain.2.mono hV) (not_plain_of_out hout)

/-- The readers take back what was written only if it is plain and fits. -/
theorem plain_of_reads {w : Writer} {s v msg : Bytes} (hmsg : w.text s v = some msg)
    (hr : Reads w s v msg) : Plain s ∧ Plain v ∧ Fits w s v := by
  obtain ⟨S, rfl, hS, hfits⟩ := text_eq_some hmsg
  obtain ⟨hs, hv, hall⟩ := (read_of_reads hr).plain hS
  exact ⟨hs, hv, hfits hall⟩

/-- **Writers and readers agree on plain strings that fit**, and on no others. -/
theorem agree_iff (w : Writer) (s v : Bytes) :
    (∃ msg, w.text s v = some msg ∧ Reads w s v msg) ↔ Plain s ∧ Plain v ∧ Fits w s v := by
  constructor
  · rintro ⟨msg, hmsg, hr⟩
    exact plain_of_reads hmsg hr
  · rintro ⟨hs, hv, hf⟩
    exact ⟨w.full s v, text_of_fits hf, reads_full hs hv⟩

/-- **An action with quotes is accepted and stored, but no device reads it**: the readers take out
the escapes, and the writers do not put them back. -/
theorem quotes_lost :
    ¬ ∀ (w : Writer) (m s v : Bytes) (fs : Fs),
      field "streamId" m = some s → field "action" m = some v →
      exec (srvrSem []) (websocketWriteBack m) ∅ = (some (), fs) →
      storedAction [] s fs = some v →
      ∃ msg, w.text s v = some msg ∧ Reads w s v msg := by
  intro h
  have hid : field "streamId" (lit "\x7b\"streamId\":\"cam\",\"action\":\"say \\\"hi\\\"\"\x7d") =
      some (lit "cam") := by decide +kernel
  have ha : field "action" (lit "\x7b\"streamId\":\"cam\",\"action\":\"say \\\"hi\\\"\"\x7d") =
      some (lit "say \"hi\"") := by decide +kernel
  have hrun := websocketWriteBack_command hid ha (by decide)
  have hset := srvrSem_set [] ∅ (lit "action") (lit "say \"hi\"") (lit "cam")
  obtain ⟨msg, hmsg, hr⟩ := h .SIGAct _ _ _ _ hid ha
    (by rw [hrun, exec_call_some _ hset, exec_call_some _ (srvrSem_lwsWrite ..), exec_ret])
    (storedAction_set [] (by decide))
  exact absurd (plain_of_reads hmsg hr).2.1 (by decide)

end LiveStreamer.Protocol.Agreement
