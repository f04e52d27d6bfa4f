import LiveStreamer.StreamerServer.Disk
import LiveStreamer.StreamerServer.Sweep

/-! # Reads that wait for saves (`srvrJson.c`, `main.c`)

A save truncates a file and then writes it. In between, a thread that reads the file finds nothing:
a load takes the record for a missing one and makes a new one over it, a load that has just made one
gives NULL, and so does the read of the sweep, and the thread that goes on with NULL ends the
process.

A run is `Calm` if nothing fails, no read of a file comes while a thread is amid a save of it, and
the process is not started anew amid a save. Then the process stays up, and every file that is there
holds a record whenever no thread is amid a save of it (`calm_keeps`). The threads may still overlap
in any other way: of two threads that have not found a file, the second may make it anew after the
first has stored a value there. -/

namespace LiveStreamer.StreamerServer.Saves

open LiveStreamer.Lib.CString LiveStreamer.Lib.PathName LiveStreamer.Lib.Program
open LiveStreamer.Lib.Program.Prog LiveStreamer.Lib.Run LiveStreamer.Lib.Tokener
open LiveStreamer.Lib.JsonPlain LiveStreamer.Lib.Threads
open LiveStreamer.StreamerServer.SrvrJson LiveStreamer.StreamerServer.Main
open LiveStreamer.StreamerServer.Directory LiveStreamer.StreamerServer.Sweep
open LiveStreamer.StreamerServer.Disk

/-! ### Saves -/

/-- The file that a thread is amid a save of: it has truncated it, and writes it next. -/
def saving {α : Type} : FileProg α → Option Bytes
  | .call (.writeAll fn _) _ => some fn
  | _ => none

/-- Every truncation is followed by a write of the same file. -/
def Paired {α : Type} : FileProg α → Prop
  | .ret _ => True
  | .abort => True
  | .call (.openTrunc fn) k => saving (k true) = some fn ∧ ∀ r, Paired (k r)
  | .call (.fromFile _) k => ∀ r, Paired (k r)
  | .call (.writeAll _ _) k => ∀ r, Paired (k r)
  | .call (.listDir _) k => ∀ r, Paired (k r)

section Paired
variable {α β : Type}

theorem saving_bind {p : FileProg α} {fn : Bytes} (h : saving p = some fn) (f : α → FileProg β) :
    saving (p >>= f) = some fn := by
  cases p with
  | ret a => cases h
  | abort => cases h
  | call o k => cases o <;> exact h

theorem Paired.bind {p : FileProg α} {f : α → FileProg β} (hp : Paired p)
    (hf : ∀ a, Paired (f a)) : Paired (p >>= f) := by
  induction p with
  | ret a => exact hf a
  | abort => trivial
  | call o k ih =>
    cases o with
    | fromFile fn => exact fun r => ih r (hp r)
    | openTrunc fn => exact ⟨saving_bind hp.1 f, fun r => ih r (hp.2 r)⟩
    | writeAll fn o => exact fun r => ih r (hp r)
    | listDir dir => exact fun r => ih r (hp r)

theorem paired_objectToFile (fn : Bytes) (o : Obj) : Paired (objectToFile fn o) := by
  refine ⟨rfl, fun ok => ?_⟩
  cases ok with
  | false => trivial
  | true => exact fun _ => trivial

theorem paired_newString (s : Option Bytes) : Paired (newString s) := by
  cases s <;> trivial

theorem paired_objectAdd (o : Option Obj) (jKey : Bytes) (v : Json) :
    Paired (objectAdd o jKey v) := by
  cases o <;> trivial

theorem paired_jsonFromFile (file : Option Bytes) : Paired (jsonFromFile file) := by
  intro r
  rcases r with _ | o
  · refine (paired_newString file).bind fun v => ?_
    exact (paired_objectToFile _ _).bind fun _ _ => trivial
  · trivial

theorem paired_triggerEntries (es : List (Bytes × Bool)) : Paired (triggerEntries es) := by
  induction es with
  | nil => trivial
  | cons e es ih =>
    obtain ⟨dName, isDir⟩ := e
    cases isDir with
    | true => exact ih
    | false =>
      refine Paired.bind (fun o => ?_) fun _ => ih
      exact (paired_newString _).bind fun v => (paired_objectAdd o _ v).bind fun o =>
        paired_objectToFile _ o

theorem paired_prog (req : Req) : Paired req.prog := by
  cases req with
  | set jKey value file =>
    refine Paired.bind ((paired_jsonFromFile file).bind fun o => ?_) fun _ => trivial
    exact (paired_newString value).bind fun v => (paired_objectAdd o _ v).bind fun o =>
      paired_objectToFile _ o
  | get jKey file =>
    refine (paired_jsonFromFile file).bind fun o => ?_
    split
    · trivial
    · exact (paired_objectAdd o _ _).bind fun o => (paired_objectToFile _ o).bind fun _ => trivial
  | sweep =>
    refine Paired.bind (fun es => ?_) fun _ => trivial
    rcases es with _ | es
    · trivial
    · exact paired_triggerEntries es

end Paired

/-! ### What it takes not to abort -/

section Safe
variable (cwd : Path)

/-- Every file is the record of a stream, by its name. -/
def Named (d : Texts) : Prop := ∀ p ∈ d, ∃ s, slash ∉ s ∧ recordPath cwd s = p

/-- No file is lost. -/
def Grows (d d' : Texts) : Prop := ∀ p ∈ d, p ∈ d'

/-- The file holds a record, if it is there. -/
def Readable (d : Texts) (p : Path) : Prop := ∀ t, d.lookup p = some t → (objOf t).isSome = true

/-- Nothing fails, and a read finds the record if there is a file. -/
def Clear (e : Env) (o : FileOp) (d : Texts) : Prop :=
  e = .fine ∧ ∀ fn, o = .fromFile fn → Readable d (resolve cwd fn)

/-- A program that does not abort if its reads are clear. -/
abbrev SafeProg {α : Type} (Q : α → Texts → Prop) : FileProg α → Texts → Prop :=
  Safe (diskSem cwd) (Named cwd) Grows (Clear cwd) Q

variable {cwd} {α : Type} {d₀ : Texts} {Q : α → Texts → Prop}

theorem grows_insert (d : Texts) (p : Path) (t : Bytes) : Grows d (d.insert p t) := fun _ hq =>
  (AList.mem_insert d).mpr (Or.inr hq)

theorem Named.insert {d : Texts} (h : Named cwd d) {s : Bytes} (hs : slash ∉ s) (t : Bytes) :
    Named cwd (d.insert (recordPath cwd s) t) := by
  intro p hp
  rcases (AList.mem_insert d).mp hp with rfl | hp
  · exact ⟨s, hs, rfl⟩
  · exact h p hp

/-- **A read** finds nothing only if there is no file. -/
theorem safe_fromFile {fn : Bytes} {k : Option Obj → FileProg α}
    (h : ∀ d r, Grows d₀ d → (r = none → resolve cwd fn ∉ d) → SafeProg cwd Q (k r) d) :
    SafeProg cwd Q (.call (.fromFile fn) k) d₀ := by
  rintro e d hle hJ ⟨rfl, hread⟩
  refine ⟨_, rfl, hJ, fun _ hp => hp, h d _ hle fun hnone => ?_⟩
  rw [← AList.lookup_eq_none]
  rcases hl : d.lookup (resolve cwd fn) with _ | t
  · rfl
  · obtain ⟨o, ho⟩ := Option.isSome_iff_exists.mp (hread fn rfl t hl)
    rw [hl] at hnone
    simp [Env.fine, ho] at hnone

/-- **A save** leaves the file. -/
theorem safe_objectToFile {fn s : Bytes} {o : Obj} (hs : slash ∉ s)
    (hfn : resolve cwd fn = recordPath cwd s) {Q : Unit → Texts → Prop}
    (hQ : ∀ d, Grows d₀ d → recordPath cwd s ∈ d → Q () d) :
    SafeProg cwd Q (objectToFile fn o) d₀ := by
  have hopen (d : Texts) : (diskSem cwd .fine (.openTrunc fn) d).2 =
      d.insert (recordPath cwd s) [] := by rw [← hfn]; rfl
  have hwrite (d : Texts) : ∃ t, (diskSem cwd .fine (.writeAll fn o) d).2 =
      d.insert (recordPath cwd s) t := by
    rw [← hfn]
    exact ⟨_, rfl⟩
  rintro e d hle hJ ⟨rfl, -⟩
  rw [hopen]
  refine ⟨true, rfl, hJ.insert hs [], grows_insert d _ _, ?_⟩
  rintro e d' hle' hJ' ⟨rfl, -⟩
  obtain ⟨t, ht⟩ := hwrite d'
  rw [ht]
  refine ⟨(), rfl, hJ'.insert hs t, grows_insert d' _ _, hQ _ (fun p hp => ?_) ?_⟩
  · exact grows_insert d' _ _ p (hle' p (grows_insert d _ _ p (hle p hp)))
  · exact (AList.mem_insert d').mpr (Or.inl rfl)

/-- **A load** of a stream gives a record. -/
theorem safe_jsonFromFile {s : Bytes} (hs : slash ∉ s) :
    SafeProg cwd (fun r _ => r.isSome = true) (jsonFromFile (some s)) d₀ := by
  refine safe_fromFile fun d r _ _ => ?_
  rcases r with _ | o
  · simp only [newJsonFile, newString, ret_bind, jsonToFile, defaults_eq]
    have hsave : SafeProg cwd (fun _ d => recordPath cwd s ∈ d)
        (objectToFile (jsonFileWithAddr (some s)) (defaults s)) d :=
      safe_objectToFile hs rfl fun d _ hd => hd
    refine hsave.bind fun _ d hd => ?_
    -- the file that has just been written is there
    refine safe_fromFile fun d' r hle hr => ?_
    rcases r with _ | o
    · exact absurd (hle _ hd) (hr rfl)
    · rfl
  · rfl

theorem safe_set {s : Bytes} (hs : slash ∉ s) (jKey v : Bytes) :
    SafeProg cwd (fun _ _ => True) (setJsonValue jKey (some v) (some s)) d₀ := by
  refine (safe_jsonFromFile hs).bind fun r d hr => ?_
  obtain ⟨o, rfl⟩ := Option.isSome_iff_exists.mp hr
  exact safe_objectToFile hs rfl fun _ _ _ => trivial

theorem safe_get {s : Bytes} (hs : slash ∉ s) (jKey : Bytes) :
    SafeProg cwd (fun _ _ => True) (getJsonValueFromFile jKey (some s)) d₀ := by
  refine (safe_jsonFromFile hs).bind fun r d hr => ?_
  obtain ⟨o, rfl⟩ := Option.isSome_iff_exists.mp hr
  rw [Option.bind_some]
  rcases getEx o jKey with _ | j
  · have hsave : SafeProg cwd (fun _ _ => True) (objectToFile (jsonFileWithAddr (some s))
        (add o (lit "action") (.str (lit "off")))) d :=
      safe_objectToFile hs rfl fun _ _ _ => trivial
    exact hsave.bind fun _ _ _ => trivial
  · trivial

/-- The entry of a record that is there. -/
def Listed (cwd : Path) (d : Texts) (dName : Bytes) : Prop :=
  ∃ s, slash ∉ s ∧ dName = fileName s ∧ recordPath cwd s ∈ d

theorem safe_triggerFile {dName : Bytes} (h : Listed cwd d₀ dName) :
    SafeProg cwd (fun _ d => Grows d₀ d) (triggerFile dName) d₀ := by
  obtain ⟨s, hs, rfl, hmem⟩ := h
  refine safe_fromFile fun d r hle hr => ?_
  rw [resolve_entryAddr] at hr
  rcases r with _ | o
  · exact absurd (hle _ hmem) (hr rfl)
  · refine safe_objectToFile hs (resolve_entryAddr cwd s) fun d' hle' _ p hp => ?_
    exact hle' p (hle p hp)

theorem safe_triggerEntries {es : List (Bytes × Bool)}
    (h : ∀ dName, (dName, false) ∈ es → Listed cwd d₀ dName) :
    SafeProg cwd (fun _ _ => True) (triggerEntries es) d₀ := by
  induction es generalizing d₀ with
  | nil => trivial
  | cons e es ih =>
    obtain ⟨dName, isDir⟩ := e
    cases isDir with
    | true => exact ih fun dName hd => h dName (.tail _ hd)
    | false =>
      refine (safe_triggerFile (h dName (.head _))).bind fun _ d hle => ih fun dName hd => ?_
      obtain ⟨s, hs, hname, hmem⟩ := h dName (.tail _ hd)
      exact ⟨s, hs, hname, hle _ hmem⟩

/-- The sweep lists records that are there. -/
theorem listed_listing {d : Texts} (hJ : Named cwd d) {dName : Bytes}
    (h : (dName, false) ∈ listing (resolve cwd (lit "status/")) d.keys) : Listed cwd d dName := by
  simp only [listing, List.mem_cons, Prod.mk.injEq, Bool.false_eq_true, and_false, false_or,
    List.mem_map, List.mem_filterMap, and_true, exists_eq_right] at h
  obtain ⟨p, hp, hentry⟩ := h
  obtain ⟨s, hs, rfl⟩ := hJ p (AList.mem_keys.mpr hp)
  rw [resolve_statusDir, entryOf_recordPath cwd hs, Option.some.injEq] at hentry
  exact ⟨s, hs, hentry.symm, AList.mem_keys.mpr hp⟩

theorem safe_trigger : SafeProg cwd (fun _ _ => True) trigger d₀ := by
  rintro e d - hJ ⟨rfl, -⟩
  refine ⟨_, rfl, hJ, fun _ hp => hp, ?_⟩
  exact safe_triggerEntries fun dName hd => listed_listing hJ hd

/-- The strings of a request are there, and its stream has no slash in its name. -/
def Proper : Req → Prop
  | .set _ value file => value.isSome = true ∧ ∃ s ∈ file, slash ∉ s
  | .get _ file => ∃ s ∈ file, slash ∉ s
  | .sweep => True

instance : ∀ req, Decidable (Proper req)
  | .set _ value file => inferInstanceAs (Decidable (value.isSome = true ∧ ∃ s ∈ file, slash ∉ s))
  | .get _ file => inferInstanceAs (Decidable (∃ s ∈ file, slash ∉ s))
  | .sweep => isTrue trivial

theorem safe_prog {req : Req} (h : Proper req) : SafeProg cwd (fun _ _ => True) req.prog d₀ := by
  cases req with
  | set jKey value file =>
    obtain ⟨hv, s, rfl, hs⟩ := h
    obtain ⟨v, rfl⟩ := Option.isSome_iff_exists.mp hv
    exact (safe_set hs _ v).bind fun _ _ _ => trivial
  | get jKey file =>
    obtain ⟨s, rfl, hs⟩ := h
    exact safe_get hs _
  | sweep => exact safe_trigger.bind fun _ _ _ => trivial

end Safe

/-! ### Calm runs -/

section Calm
variable (cwd : Path)

/-- A server over bytes. -/
abbrev Server := Sys FileOp FileRet (Option Bytes) Texts

/-- A thread is amid a save of the file at `p`. -/
def Amid (s : Server) (p : Path) : Prop :=
  ∃ q ∈ s.threads, (saving q).map (resolve cwd) = some p

instance (s : Server) (p : Path) : Decidable (Amid cwd s p) :=
  inferInstanceAs (Decidable (∃ q ∈ s.threads, _))

/-- The file that a thread reads next. -/
def reading : FileProg (Option Bytes) → Option Bytes
  | .call (.fromFile fn) _ => some fn
  | _ => none

/-- Nothing fails, and reads and restarts wait for the saves. -/
def Calm (s : Server) : Lbl Req Env → Prop
  | .start req => Proper req
  | .step i e => e = .fine ∧ ∀ fn ∈ s.threads[i]?.bind reading, ¬ Amid cwd s (resolve cwd fn)
  | .restart => ∀ q ∈ s.threads, saving q = none

instance (s : Server) : ∀ l, Decidable (Calm cwd s l)
  | .start req => inferInstanceAs (Decidable (Proper req))
  | .step _ _ => inferInstanceAs (Decidable (_ ∧ _))
  | .restart => inferInstanceAs (Decidable (∀ q ∈ s.threads, saving q = none))

/-- **Every file** holds a record, or a thread is amid a save of it. -/
def Saved (s : Server) : Prop := ∀ p, Readable s.store p ∨ Amid cwd s p

variable {cwd}

theorem readable_insert {d : Texts} {p q : Path} {t : Bytes} (h : Readable d q)
    (ht : p = q → (objOf t).isSome = true) : Readable (d.insert p t) q := by
  intro u hu
  by_cases hq : q = p
  · subst hq
    rw [AList.lookup_insert] at hu
    cases hu
    exact ht rfl
  · rw [AList.lookup_insert_ne hq] at hu
    exact h u hu

/-- A file that has just been written is readable. -/
theorem readable_written {d : Texts} {p : Path} {t : Bytes} (h : (objOf t).isSome = true) :
    Readable (d.insert p t) p := by
  intro u hu
  rw [AList.lookup_insert] at hu
  cases hu
  exact h

/-- The other threads go on with their saves. -/
theorem amid_set {s : Server} {p : Path} {i : ℕ} {o : FileOp}
    {k : FileRet o → FileProg (Option Bytes)} (hi : s.threads[i]? = some (.call o k))
    (h : Amid cwd s p) (ho : (saving (.call o k)).map (resolve cwd) ≠ some p)
    (d : Texts) (q' : FileProg (Option Bytes)) : Amid cwd ⟨d, s.threads.set i q'⟩ p := by
  obtain ⟨q, hq, hp⟩ := h
  obtain ⟨j, hj⟩ := List.getElem?_of_mem hq
  have hne : i ≠ j := by
    rintro rfl
    rw [hi, Option.some.injEq] at hj
    rw [← hj] at hp
    exact ho hp
  refine ⟨q, List.mem_of_getElem? (i := j) ?_, hp⟩
  rw [List.getElem?_set_ne hne]
  exact hj

/-- **A file operation** keeps the files saved. -/
theorem saved_step {s : Server} {i : ℕ} {o : FileOp} {k : FileRet o → FileProg (Option Bytes)}
    (hi : s.threads[i]? = some (.call o k)) (hpair : Paired (.call o k))
    (hw : ∀ fn r, o = .writeAll fn r → Flat r) (h : Saved cwd s) :
    Saved cwd ⟨(diskSem cwd .fine o s.store).2,
      s.threads.set i (resume k (diskSem cwd .fine o s.store).1)⟩ := by
  intro p
  cases o with
  | fromFile fn => exact (h p).imp id fun hp => amid_set hi hp (by simp [saving]) _ _
  | listDir dir => exact (h p).imp id fun hp => amid_set hi hp (by simp [saving]) _ _
  | openTrunc fn =>
    by_cases hp : p = resolve cwd fn
    · right
      have hlt := (List.getElem?_eq_some_iff.mp hi).1
      refine ⟨_, List.mem_set hlt _, ?_⟩
      have hs : saving (k true) = some fn := hpair.1
      rw [hp]
      simp [diskSem, Env.fine, resume, hs]
    · refine (h p).imp (fun hr => ?_) fun hp => amid_set hi hp (by simp [saving]) _ _
      exact readable_insert hr fun he => absurd he.symm hp
  | writeAll fn r =>
    have hread : (objOf (overwrite Env.fine.room ((s.store.lookup (resolve cwd fn)).getD [])
        (printPlain (.obj r)))).isSome = true := by
      rw [objOf_overwrite (hw fn r rfl)]
      rfl
    by_cases hp : p = resolve cwd fn
    · rw [hp]
      exact Or.inl (readable_written hread)
    · refine (h p).imp (fun hr => ?_) fun ha => amid_set hi ha ?_ _ _
      · exact readable_insert hr fun _ => hread
      · simp [saving, Ne.symm hp]

theorem Paired.resume {o : FileOp} {k : FileRet o → FileProg (Option Bytes)}
    (h : Paired (.call o k)) (r : Option (FileRet o)) : Paired (resume k r) := by
  cases r with
  | none => trivial
  | some r =>
    cases o with
    | openTrunc fn => exact h.2 r
    | fromFile fn => exact h r
    | writeAll fn o => exact h r
    | listDir dir => exact h r

variable (cwd) in
/-- What calm steps keep. -/
structure CalmInv (s : Server) : Prop where
  good : Inv (Writes cwd fun _ => True) (Finds cwd fun _ => True) (AllGood cwd fun _ => True) s
  secure : Secure (diskSem cwd) (Named cwd) Grows (Clear cwd) s
  paired : ∀ q ∈ s.threads, Paired q
  saved : Saved cwd s

theorem calmInv_start : CalmInv cwd ⟨∅, []⟩ where
  good := ⟨allGood_empty, fun _ hq => absurd hq List.not_mem_nil⟩
  secure := ⟨fun _ hp => absurd hp (AList.notMem_empty _), fun _ hq => absurd hq List.not_mem_nil⟩
  paired := fun _ hq => absurd hq List.not_mem_nil
  saved := fun p => Or.inl fun t ht => by
    rw [AList.lookup_empty] at ht
    cases ht

/-- A calm operation is clear. -/
theorem clear_of_calm {s : Server} {i : ℕ} {e : Env} {o : FileOp}
    {k : FileRet o → FileProg (Option Bytes)} (h : Saved cwd s) (hc : Calm cwd s (.step i e))
    (hi : s.threads[i]? = some (.call o k)) : Clear cwd e o s.store := by
  refine ⟨hc.1, fun fn ho => ?_⟩
  subst ho
  refine (h (resolve cwd fn)).resolve_right (hc.2 fn ?_)
  rw [hi]
  rfl

theorem calmInv_step {s s' : Server} {l : Lbl Req Env} (h : CalmInv cwd s) (hc : Calm cwd s l)
    (hs : diskStep cwd s l = some s') : CalmInv cwd s' := by
  obtain ⟨hsecure, -⟩ := h.secure.step (fun _ _ hp => hp)
    (fun _ _ _ hab hbc p hp => hbc p (hab p hp))
    (fun req hl => by subst hl; exact safe_prog hc)
    (fun i e o k hl hi => by subst hl; exact clear_of_calm h.saved hc hi) hs
  have hgood : Inv (Writes cwd fun _ => True) (Finds cwd fun _ => True)
      (AllGood cwd fun _ => True) s' :=
    inv_step (fun e o d hd hw => allGood_diskSem e hd hw) (fun req _ => guarantees_prog trivial)
      h.good hs
  rcases step_cases hs with ⟨req, rfl, -, rfl⟩ | ⟨i, e, o, k, rfl, -, hi, rfl⟩ | ⟨rfl, rfl⟩
  · refine ⟨hgood, hsecure, fun q hq => ?_, fun p => (h.saved p).imp id fun hp => ?_⟩
    · rcases List.mem_append.mp hq with hq | hq
      · exact h.paired q hq
      · rw [List.mem_singleton.mp hq]
        exact paired_prog req
    · obtain ⟨q, hq, hp⟩ := hp
      exact ⟨q, List.mem_append_left _ hq, hp⟩
  · obtain ⟨rfl, -⟩ := hc
    have hmem := List.mem_of_getElem? hi
    have hpair := h.paired _ hmem
    have hw := (h.good.threads _ hmem).1
    refine ⟨hgood, hsecure, fun q hq => ?_, saved_step hi hpair (fun fn r ho => ?_) h.saved⟩
    · rcases List.mem_or_eq_of_mem_set hq with hq | rfl
      · exact h.paired q hq
      · exact hpair.resume _
    · subst ho
      exact hw.flat
  · refine ⟨hgood, hsecure, fun q hq => absurd hq List.not_mem_nil, fun p => Or.inl ?_⟩
    refine (h.saved p).resolve_right ?_
    rintro ⟨q, hq, hp⟩
    rw [hc q hq] at hp
    cases hp

/-- **Where reads wait for saves** and nothing fails, the process stays up in every run, and every
file that is there holds a record whenever no thread is amid a save of it. -/
theorem calm_keeps {es : List (Lbl Req Env)} {s : Server}
    (hm : Meets (diskStep cwd) (Calm cwd) ⟨∅, []⟩ es) (hr : run (diskStep cwd) ⟨∅, []⟩ es = some s) :
    s.up = true ∧ ∀ p t, s.store.lookup p = some t → ¬ Amid cwd s p → ∃ o, objOf t = some o := by
  have hinv : CalmInv cwd s :=
    hm.inv (fun s l s' hi hc hs => calmInv_step hi hc hs) calmInv_start hr
  refine ⟨hinv.secure.up, fun p t ht hp => ?_⟩
  exact Option.isSome_iff_exists.mp ((hinv.saved p).resolve_right hp t ht)

theorem calm_keeps_overlapping : ∃ s, run (diskStep []) ⟨∅, []⟩ overlapping = some s ∧
    s.up = true ∧ ∀ p t, s.store.lookup p = some t → ¬ Amid [] s p → ∃ o, objOf t = some o := by
  have hrun : (run (diskStep []) ⟨∅, []⟩ overlapping).isSome = true := by decide +kernel
  obtain ⟨s, hs⟩ := Option.isSome_iff_exists.mp hrun
  exact ⟨s, hs, calm_keeps (by decide +kernel) hs⟩

/-- A load reads the record it has just made amid the save of another thread. -/
def hasty : List (Lbl Req Env) :=
  let cam := some (lit "cam")
  let next i := Lbl.step i Env.fine
  [.start (.get .status cam), .start (.set .action (some (lit "local")) cam),
    next 0, next 0, next 0, next 1, next 1, next 0]

-- it finds nothing, and ends the process
example : (run (diskStep []) ⟨∅, []⟩ hasty).map Sys.up = some false := by decide +kernel

end Calm

end LiveStreamer.StreamerServer.Saves
