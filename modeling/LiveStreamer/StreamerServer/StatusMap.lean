import LiveStreamer.StreamerServer.Handlers

/-! # The status directory as a map (`srvrJson.c`)

`MapLike s t` says that the status directory behaves as a map for the streams `s` and `t`, in every
store that whole calls have made of the empty directory: a value can be set and got again, setting
it changes no other field of `s` and no field of `t`, and the calls on `s` touch one file of their
own, directly inside `status/`.

The directories of the file system are those of a `Tree`, and no call makes one. The file of a
stream is the one that the first 56 bytes of `s.json` open from inside `status/` (`Tree.file`),
whatever is in the name: a name with `..` leaves the directory, one that goes through a directory
that is not there opens nothing, so that the first call on it ends the process, and two names can
open the same file (`not_a_map`). The directory is a map for `s` and `t` if and only if the name of
`s` opens an entry of the directory, and that of `t` none or another one (`mapLike_iff`); so it is
for names without a slash of at most 51 bytes (`mapLike_of_short`). -/

namespace LiveStreamer.StreamerServer.StatusMap

open LiveStreamer.Lib.CString LiveStreamer.Lib.PathName LiveStreamer.Lib.Program
open LiveStreamer.Lib.Program.Prog LiveStreamer.Lib.Run LiveStreamer.Lib.Tokener
open LiveStreamer.StreamerServer.SrvrJson LiveStreamer.StreamerServer.Directory
open LiveStreamer.StreamerServer.Sweep (fileName)
open LiveStreamer.StreamerServer.Handlers

/-! ### The files that names open -/

/-- The directories that are there: `status/`, which holds no other, and any others. -/
structure Tree (cwd : Path) where
  isDir : Path → Bool
  up : ∀ dir name, isDir (dir ++ [name]) = true → isDir dir = true
  status : isDir (statusDir cwd) = true
  flat : ∀ name, isDir (statusDir cwd ++ [name]) = false

/-- A call on the record of a stream. -/
inductive Call where
  | set (jKey value : Bytes)
  | get (jKey : Bytes)

/-- The calls on fields of records. -/
def OnField : Call → Prop
  | .set jKey _ => jKey ∈ keys
  | .get jKey => jKey ∈ keys

namespace Tree

variable {cwd : Path} (T : Tree cwd)

/-- The file that the name of a stream opens from inside the directory. -/
def file (s : Bytes) : Option Path := find T.isDir (statusDir cwd) (split (fileName s))

/-- The names that can be opened. -/
def opens (fn : Bytes) : Bool := (locate T.isDir cwd fn).isSome

/-- The store after a program that has come to its end. -/
def done {α : Type} (p : FileProg α) (fs : Fs) : Option Fs :=
  (exec (dirSem cwd T.opens) p fs).1.map fun _ => (exec (dirSem cwd T.opens) p fs).2

/-- The store after a call. -/
def after (fs : Fs) (s : Bytes) : Call → Option Fs
  | .set jKey value => T.done (setJsonValue jKey (some value) (some s)) fs
  | .get jKey => T.done (getJsonValueFromFile jKey (some s)) fs

/-- What `getJsonValueFromFile` returns, if it does. -/
def got (fs : Fs) (jKey s : Bytes) : Option (Option Bytes) :=
  (exec (dirSem cwd T.opens) (getJsonValueFromFile jKey (some s)) fs).1

/-- A completed call, on a stream whose name is a C string. -/
def step (fs : Fs) (l : Bytes × Call) : Option Fs := T.after fs l.1 l.2

/-- A store that completed calls have made of an empty status directory. -/
def Made (fs : Fs) : Prop := ∃ (fs₀ : Fs) (ls : List (Bytes × Call)),
  (∀ p ∈ fs₀, ¬ statusDir cwd <+: p) ∧ (∀ l ∈ ls, (0 : UInt8) ∉ l.1 ∧ OnField l.2) ∧
    run T.step fs₀ ls = some fs

/-! ### A map -/

/-- The calls on `s` touch one file directly inside the directory, which the calls on `t` do not
touch. -/
def OwnFile (s t : Bytes) : Prop := ∃ name, ∀ fs, T.Made fs → ∀ call, OnField call →
  (∀ fs', T.after fs s call = some fs' →
    ∀ p, p ≠ statusDir cwd ++ [name] → fs'.lookup p = fs.lookup p) ∧
  (s ≠ t → ∀ fs', T.after fs t call = some fs' →
    fs'.lookup (statusDir cwd ++ [name]) = fs.lookup (statusDir cwd ++ [name]))

/-- **The directory is a map** for the streams `s` and `t`. -/
def MapLike (s t : Bytes) : Prop :=
  (∀ fs, T.Made fs → ∀ k ∈ keys, ∀ v, (0 : UInt8) ∉ v →
    ∃ fs', T.after fs s (.set k v) = some fs' ∧ T.got fs' k s = some (some v) ∧
      ∀ l ∈ keys, s ≠ t ∨ k ≠ l → T.got fs' l t = T.got fs l t) ∧
  T.OwnFile s t

/-! ### The file of a stream -/

theorem locate_eq (s : Bytes) : locate T.isDir cwd (jsonFileWithAddr (some s)) = T.file s := by
  rw [jsonFileWithAddr_eq,
    locate_under _ (by decide) (by decide) (by decide) (by decide) T.status]
  rfl

theorem file_of_notMem {s : Bytes} (h : slash ∉ s) :
    T.file s = some (statusDir cwd ++ [fileName s]) := by
  rw [file, fileName, split_fileName h]
  exact find_single (fileName_ne s (by decide)) (fileName_ne s (by decide))
    (fileName_ne s (by decide)) (T.flat _)

theorem made_empty : T.Made ∅ := ⟨∅, [], by simp, by simp, rfl⟩

section Calls
variable {T} {s t : Bytes} {p : Path} {fs : Fs} {k v : Bytes}

/-- The file that a name opens is that of the record. -/
theorem recordPath_of_file (h : T.file s = some p) : recordPath cwd s = p :=
  resolve_of_locate ((T.locate_eq s).trans h)

theorem opens_iff (s : Bytes) : T.opens (jsonFileWithAddr (some s)) = (T.file s).isSome := by
  rw [opens, locate_eq]

theorem loads_of_file (h : T.file s = some p) :
    loads cwd T.opens fs (some s) = some (record cwd fs s) :=
  loads_of_opens (by rw [opens_iff, h, Option.isSome_some])

theorem loads_of_file_none (h : T.file s = none) : loads cwd T.opens fs (some s) = none := by
  rw [loads, if_neg (by simp [opens_iff, h])]

/-- The record depends on its file alone. -/
theorem record_congr {fs' : Fs} (h : T.file s = some p) (hl : fs'.lookup p = fs.lookup p) :
    record cwd fs' s = record cwd fs s := by
  rw [record, record, objAt, objAt, ← recordPath, recordPath_of_file h, hl]

/-! ### What the calls do -/

theorem after_set (h : T.file s = some p) : T.after fs s (.set k v) =
    some (store cwd fs s (add (record cwd fs s) k (.str v))) := by
  rw [after, done, exec_set (loads_of_file h)]
  rfl

/-- A call on a name that opens nothing ends the process. -/
theorem after_set_none (h : T.file s = none) : T.after fs s (.set k v) = none := by
  rw [after, done, exec_set_of_none (loads_of_file_none h)]
  rfl

/-- **What is read** of a record. -/
theorem got_of_file (h : T.file s = some p) :
    T.got fs k s = some ((getEx (record cwd fs s) k).bind getString) := by
  rcases hj : getEx (record cwd fs s) k with _ | j
  · rw [got, exec_get_missing (loads_of_file h) hj, Option.bind_none]
  · rw [got, exec_get (loads_of_file h) hj, Option.bind_some]

theorem got_none (h : T.file s = none) : T.got fs k s = none := by
  rw [got, exec_get_of_none (loads_of_file_none h)]

theorem lookup_store (h : T.file s = some p) {q : Path} (hq : q ≠ p) (o : Obj) :
    (store cwd fs s o).lookup q = fs.lookup q := by
  rw [store, recordPath_of_file h, AList.lookup_insert_ne hq]

/-- **A call writes no file but the one its name opens.** -/
theorem lookup_after {call : Call} {fs' : Fs} (hx : T.after fs s call = some fs') {q : Path}
    (hq : T.file s ≠ some q) : fs'.lookup q = fs.lookup q := by
  rcases h : T.file s with _ | p
  · cases call with
    | set k v =>
      rw [after_set_none h] at hx
      cases hx
    | get k =>
      rw [after, done, exec_get_of_none (loads_of_file_none h)] at hx
      cases hx
  have hqp : q ≠ p := fun he => hq (he ▸ h)
  cases call with
  | set k v =>
    rw [after_set h] at hx
    cases hx
    exact lookup_store h hqp _
  | get k =>
    rcases hj : getEx (record cwd fs s) k with _ | j
    · rw [after, done, exec_get_missing (loads_of_file h) hj] at hx
      cases hx
      exact lookup_store h hqp _
    · rw [after, done, exec_get (loads_of_file h) hj] at hx
      cases hx
      rw [loaded]
      split_ifs
      · rw [Option.map_some, Option.getD_some, load]
        split_ifs
        · rfl
        · exact lookup_store h hqp _
      · rfl

/-! ### When the directory is a map -/

/-- What a store leaves of the other fields, and of the other records. -/
theorem got_after_set (h : T.file s = some p) {l : Bytes} (hne : s ≠ t ∨ k ≠ l)
    (hst : s ≠ t → T.file t ≠ T.file s) :
    T.got (store cwd fs s (add (record cwd fs s) k (.str v))) l t = T.got fs l t := by
  by_cases he : s = t
  · subst he
    rw [got_of_file h, got_of_file h, record_store_self,
      getEx_add_ne _ _ (hne.resolve_left (not_not.mpr rfl))]
  rcases ht : T.file t with _ | q
  · rw [got_none ht, got_none ht]
  · have hqp : q ≠ p := by
      rintro rfl
      exact hst he (ht.trans h.symm)
    rw [got_of_file ht, got_of_file ht, record_congr ht (lookup_store h hqp _)]

theorem mapLike_of_file {name : Bytes} (h : T.file s = some (statusDir cwd ++ [name]))
    (hst : s ≠ t → T.file t ≠ T.file s) : T.MapLike s t := by
  refine ⟨fun fs _ k _ v hv => ⟨_, after_set h, ?_, fun l _ hne => got_after_set h hne hst⟩,
    name, fun fs _ call _ => ⟨fun fs' hx p hp => ?_, fun hne fs' hx => ?_⟩⟩
  · rw [got_of_file h, record_store_self, getEx_add_self, Option.bind_some, getString_str hv]
  · refine lookup_after hx ?_
    rw [h]
    exact fun he => hp (Option.some.inj he).symm
  · exact lookup_after hx (h ▸ hst hne)

/-- Storing a value makes the file of the stream. -/
theorem file_of_mapLike (h : T.MapLike s t) :
    ∃ name, T.file s = some (statusDir cwd ++ [name]) := by
  obtain ⟨hset, name, hown⟩ := h
  obtain ⟨fs', hx, -⟩ := hset ∅ T.made_empty _ mem_keys_action [] List.not_mem_nil
  rcases hf : T.file s with _ | p
  · rw [after_set_none hf] at hx
    cases hx
  refine ⟨name, ?_⟩
  by_contra hne
  have hp : p ≠ statusDir cwd ++ [name] := fun he => hne (he ▸ rfl)
  have hl := (hown ∅ T.made_empty (.set (lit "action") []) mem_keys_action).1 fs' hx p hp
  rw [after_set hf] at hx
  cases hx
  rw [store, recordPath_of_file hf, AList.lookup_insert] at hl
  simp at hl

/-- Two streams with one file read each other's action. -/
theorem file_ne_of_mapLike (h : T.MapLike s t) (hst : s ≠ t) : T.file t ≠ T.file s := by
  intro he
  obtain ⟨name, hs⟩ := file_of_mapLike h
  have ht := he.trans hs
  obtain ⟨fs', hx, -, hkeep⟩ := h.1 ∅ T.made_empty _ mem_keys_action (lit "off") (by decide)
  have hgot := hkeep _ mem_keys_action (Or.inl hst)
  rw [after_set hs] at hx
  cases hx
  have hrec : record cwd (store cwd ∅ s (add (record cwd ∅ s) (lit "action") (.str (lit "off")))) t =
      add (record cwd ∅ s) (lit "action") (.str (lit "off")) := by
    rw [record, objAt, ← recordPath, recordPath_of_file ht, store, recordPath_of_file hs,
      AList.lookup_insert, Option.getD_some]
  have hlive : getEx (record cwd ∅ t) (lit "action") = some (.str (lit "live")) := by
    rw [record_eq_defaults cwd rfl]
    rfl
  rw [got_of_file ht, got_of_file ht, hrec, getEx_add_self, hlive] at hgot
  exact absurd hgot (by decide)

end Calls

/-- **When the directory is a map**: the name of `s` opens an entry of it, and the name of `t` opens
no file or another one. -/
theorem mapLike_iff (s t : Bytes) : T.MapLike s t ↔
    (∃ name, T.file s = some (statusDir cwd ++ [name])) ∧ (s ≠ t → T.file t ≠ T.file s) :=
  ⟨fun h => ⟨file_of_mapLike h, file_ne_of_mapLike h⟩,
    fun ⟨⟨_, h⟩, hst⟩ => mapLike_of_file h hst⟩

/-- Short names without a slash make a map. -/
theorem mapLike_of_short {s t : Bytes} (hs : slash ∉ s) (ht : slash ∉ t) (hls : s.length ≤ 51)
    (hlt : t.length ≤ 51) : T.MapLike s t := by
  refine mapLike_of_file (T.file_of_notMem hs) fun hne he => hne ?_
  rw [T.file_of_notMem hs, T.file_of_notMem ht, Option.some.injEq, fileName, fileName,
    ← entryPath_of_notMem cwd hs, ← entryPath_of_notMem cwd ht] at he
  exact entryPath_inj cwd hs ht hls hlt he.symm

end Tree

/-- The root directory with the directory of the records. -/
def root : Tree [] where
  isDir p := decide (p = [] ∨ p = [lit "status"])
  up dir name h := by
    rcases of_decide_eq_true h with h | h
    · simp at h
    · exact decide_eq_true (Or.inl (List.append_eq_singleton_iff.mp h |>.elim (·.1) (by simp)))
  status := by decide
  flat name := by
    refine decide_eq_false ?_
    simp [statusDir]

/-- A directory that is not there cannot be left again. -/
example : root.file (lit "a/../b") = none := by decide +kernel

/-- **Two names of one record.** -/
theorem not_a_map : ¬ ∀ (cwd : Path) (T : Tree cwd) (s t : Bytes), (0 : UInt8) ∉ s →
    (0 : UInt8) ∉ t → T.MapLike s t := by
  intro h
  have hm := h [] root (lit "a") (lit "./a") (by decide) (by decide)
  exact Tree.file_ne_of_mapLike hm (by decide) (by decide +kernel)

end LiveStreamer.StreamerServer.StatusMap
