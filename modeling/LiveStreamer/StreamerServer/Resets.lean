import LiveStreamer.StreamerServer.Records

/-! # The sweep resets every stream and nothing else (`main.c`)

The sweep is handed the names of the files, and every other function the streams. In a store of
streams without a slash both lead to the same files, whatever the length of the names: a name that
is cut is cut before it becomes the name of a file. So the sweep turns every file off and touches
nothing else (`exec_trigger_files`), also where several streams share a file. -/

namespace LiveStreamer.StreamerServer.Resets

open LiveStreamer.Lib.CString LiveStreamer.Lib.PathName LiveStreamer.Lib.Program
open LiveStreamer.Lib.Program.Prog LiveStreamer.Lib.Run LiveStreamer.Lib.Tokener
open LiveStreamer.StreamerServer.SrvrJson LiveStreamer.StreamerServer.Main
open LiveStreamer.StreamerServer.SrvrComm (field)
open LiveStreamer.StreamerServer.Directory (statusDir got got_eq)
open LiveStreamer.StreamerServer.Sweep LiveStreamer.StreamerServer.Handlers
open LiveStreamer.StreamerServer.Records

/-- A file after the sweep. -/
def turnOff : File → File
  | .bad => .bad
  | .obj o => .obj (turnedOff o)

theorem turnedOff_turnedOff (o : Obj) : turnedOff (turnedOff o) = turnedOff o := by
  rw [turnedOff, turnedOff, add_add]

theorem turnOff_turnOff (f : File) : turnOff (turnOff f) = turnOff f := by
  cases f with
  | bad => rfl
  | obj o => rw [turnOff, turnOff, turnedOff_turnedOff]

section Resets
variable {cwd : Path} {fs : Fs}

/-! ### The loop over the entries -/

variable (cwd) in
/-- One of the entries leads to the file. -/
def Listed (es : List (Bytes × Bool)) (p : Path) : Prop :=
  ∃ dName, (dName, false) ∈ es ∧ resolve cwd (entryAddr dName) = p

theorem not_listed_nil (p : Path) : ¬ Listed cwd [] p := by
  rintro ⟨dName, h, -⟩
  exact absurd h List.not_mem_nil

theorem listed_dir {n : Bytes} {es : List (Bytes × Bool)} {p : Path} :
    Listed cwd ((n, true) :: es) p ↔ Listed cwd es p := by
  constructor
  · rintro ⟨dName, h, he⟩
    rcases List.mem_cons.mp h with h | h
    · cases h
    · exact ⟨dName, h, he⟩
  · rintro ⟨dName, h, he⟩
    exact ⟨dName, .tail _ h, he⟩

theorem listed_cons {n : Bytes} {es : List (Bytes × Bool)} {p : Path} :
    Listed cwd ((n, false) :: es) p ↔ p = resolve cwd (entryAddr n) ∨ Listed cwd es p := by
  constructor
  · rintro ⟨dName, h, rfl⟩
    rcases List.mem_cons.mp h with h | h
    · cases h
      exact Or.inl rfl
    · exact Or.inr ⟨dName, h, rfl⟩
  · rintro (rfl | ⟨dName, h, rfl⟩)
    · exact ⟨n, List.mem_cons_self .., rfl⟩
    · exact ⟨dName, .tail _ h, rfl⟩

/-- A file that is there is turned off. -/
theorem exec_triggerFile_file (hw : WholeFiles fs) {n : Bytes}
    (h : resolve cwd (entryAddr n) ∈ fs) : ∃ fs',
    exec (fileSem cwd) (triggerFile n) fs = (some (), fs') ∧ WholeFiles fs' ∧
      fs'.lookup (resolve cwd (entryAddr n)) =
        (fs.lookup (resolve cwd (entryAddr n))).map turnOff ∧
      ∀ p, p ≠ resolve cwd (entryAddr n) → fs'.lookup p = fs.lookup p := by
  obtain ⟨o, ho⟩ := hw.objAt_of_mem h
  have hl := objAt_eq_some_iff.mp ho
  refine ⟨fs.insert (resolve cwd (entryAddr n)) (.obj (turnedOff o)), ?_,
    hw.insert _ ((hw.objAt ho).add _ _), ?_, fun p hp => AList.lookup_insert_ne hp⟩
  · rw [fileSem_eq]
    exact exec_triggerFile_open rfl ho
  · rw [AList.lookup_insert, hl]
    rfl

/-- **The loop of the sweep** turns off the files that are listed, and leaves the others alone. -/
theorem exec_triggerEntries_files {es : List (Bytes × Bool)} (hw : WholeFiles fs)
    (hes : ∀ p, Listed cwd es p → p ∈ fs) : ∃ fs',
    exec (fileSem cwd) (triggerEntries es) fs = (some (), fs') ∧ WholeFiles fs' ∧
      (∀ p, Listed cwd es p → fs'.lookup p = (fs.lookup p).map turnOff) ∧
      ∀ p, ¬ Listed cwd es p → fs'.lookup p = fs.lookup p := by
  induction es generalizing fs with
  | nil => exact ⟨fs, rfl, hw, fun p hp => absurd hp (not_listed_nil p), fun p _ => rfl⟩
  | cons e es ih =>
    obtain ⟨n, _ | _⟩ := e
    · obtain ⟨fs1, hx, hw1, hself, hne⟩ :=
        exec_triggerFile_file hw (hes _ (listed_cons.mpr (Or.inl rfl)))
      -- the files of the other entries are still there
      have hes1 : ∀ p, Listed cwd es p → p ∈ fs1 := by
        intro p hp
        rw [← AList.lookup_isSome]
        by_cases he : p = resolve cwd (entryAddr n)
        · rw [he, hself, Option.isSome_map, AList.lookup_isSome]
          exact hes _ (listed_cons.mpr (Or.inl rfl))
        · rw [hne p he, AList.lookup_isSome]
          exact hes p (listed_cons.mpr (Or.inr hp))
      obtain ⟨fs', hx', hw', hin, hout⟩ := ih hw1 hes1
      refine ⟨fs', ?_, hw', fun p hp => ?_, fun p hp => ?_⟩
      · rw [triggerEntries, exec_bind_some _ hx, hx']
      · by_cases he : p = resolve cwd (entryAddr n)
        · by_cases hr : Listed cwd es p
          · rw [hin p hr, he, hself, Option.map_map]
            congr 1
            funext f
            exact turnOff_turnOff f
          · rw [hout p hr, he, hself]
        · rw [hin p ((listed_cons.mp hp).resolve_left he), hne p he]
      · have hn := fun h => hp (listed_cons.mpr h)
        rw [hout p fun h => hn (Or.inr h), hne p fun h => hn (Or.inl h)]
    · obtain ⟨fs', hx, hw', hin, hout⟩ := ih hw fun p hp => hes p (listed_dir.mpr hp)
      exact ⟨fs', hx, hw', fun p hp => hin p (listed_dir.mp hp),
        fun p hp => hout p fun h => hp (listed_dir.mpr h)⟩

/-! ### The sweep -/

/-- The files of the directory are those that are listed. -/
theorem listed_entries (hn : ∀ p ∈ fs, ∃ id, slash ∉ id ∧ p = recordPath cwd id) (p : Path) :
    Listed cwd (entries (statusDir cwd) fs) p ↔ p ∈ fs := by
  constructor
  · rintro ⟨dName, h, rfl⟩
    simp only [entries, List.mem_cons, Prod.mk.injEq, Bool.false_eq_true, and_false, false_or,
      List.mem_map, and_true, exists_eq_right, List.mem_filterMap] at h
    obtain ⟨q, hq, he⟩ := h
    obtain ⟨id, hs, rfl⟩ := hn q (AList.mem_keys.mpr hq)
    rw [entryOf_recordPath cwd hs] at he
    cases he
    rw [resolve_entryAddr]
    exact AList.mem_keys.mpr hq
  · intro hp
    obtain ⟨id, hs, rfl⟩ := hn p hp
    refine ⟨fileName id, ?_, resolve_entryAddr cwd id⟩
    simp only [entries, List.mem_cons, Prod.mk.injEq, Bool.false_eq_true, and_false, false_or,
      List.mem_map, and_true, exists_eq_right, List.mem_filterMap]
    exact ⟨_, AList.mem_keys.mp hp, entryOf_recordPath cwd hs⟩

/-- **The sweep** turns every file off. -/
theorem exec_trigger_files (hw : WholeFiles fs)
    (hn : ∀ p ∈ fs, ∃ id, slash ∉ id ∧ p = recordPath cwd id) : ∃ fs',
    exec (fileSem cwd) trigger fs = (some (), fs') ∧ WholeFiles fs' ∧
      ∀ p, fs'.lookup p = (fs.lookup p).map turnOff := by
  have hlist : fileSem cwd (.listDir (lit "status/")) fs =
      (some (some (entries (statusDir cwd) fs)), fs) := by
    rw [fileSem, resolve_statusDir]
  obtain ⟨fs', hx, hw', hin, hout⟩ :=
    exec_triggerEntries_files hw fun p hp => (listed_entries hn p).mp hp
  refine ⟨fs', ?_, hw', fun p => ?_⟩
  · rw [trigger, op_bind, exec_call_some _ hlist]
    exact hx
  · by_cases hp : p ∈ fs
    · exact hin p ((listed_entries hn p).mpr hp)
    · rw [hout p (mt (listed_entries hn p).mp hp), AList.lookup_eq_none.mpr hp]
      rfl

/-! ### The records after the sweep -/

section Swept
variable {fs' : Fs} (hl : ∀ p, fs'.lookup p = (fs.lookup p).map turnOff)
include hl

theorem objAt_swept (fn : Bytes) : objAt cwd fs' fn = (objAt cwd fs fn).map turnedOff := by
  rw [objAt, hl, objAt]
  rcases fs.lookup (resolve cwd fn) with _ | (_ | o) <;> rfl

theorem mem_swept (p : Path) : p ∈ fs' ↔ p ∈ fs := by
  rw [← AList.lookup_isSome, hl, Option.isSome_map, AList.lookup_isSome]

theorem record_swept (id : Bytes) : record cwd fs' id =
    if Present cwd fs id then turnedOff (record cwd fs id) else record cwd fs id := by
  by_cases hp : Present cwd fs id
  · obtain ⟨o, ho⟩ := Option.isSome_iff_exists.mp hp
    rw [if_pos hp, record, record, objAt_swept hl, ho]
    rfl
  · have ho : objAt cwd fs (jsonFileWithAddr (some id)) = none := by
      simpa [Present] using hp
    rw [if_neg hp, record, record, objAt_swept hl, ho]
    rfl

/-- The other fields stay. -/
theorem getEx_swept (id : Bytes) {jKey : Bytes} (h : lit "status" ≠ jKey) :
    getEx (record cwd fs' id) jKey = getEx (record cwd fs id) jKey := by
  rw [record_swept hl]
  split_ifs
  · rw [turnedOff, getEx_add_ne _ _ h]
  · rfl

theorem got_status_swept {id : Bytes} (hp : Present cwd fs id) :
    got cwd fs' (lit "status") id = some (some (lit "off")) := by
  have hs : getEx (record cwd fs' id) (lit "status") = some (.str (lit "off")) := by
    rw [record_swept hl, if_pos hp, turnedOff, getEx_add_self]
  rw [got_eq hs]
  rfl

end Swept

/-! ### After a run -/

variable (cwd) in
/-- At some time of the run the stream had a record. -/
def EverStored (ls : List Lbl) (id : Bytes) : Prop :=
  ∃ ls1 ls2 s, ls = ls1 ++ ls2 ∧ run (Handlers.step (fileSem cwd)) .init ls1 = some s ∧
    Present cwd s.fs id

/-- Files stay where they are. -/
theorem mem_of_run {s s' : Sys} {ls : List Lbl} (hw : WholeFiles s.fs)
    (hr : run (Handlers.step (fileSem cwd)) s ls = some s') {p : Path} (hp : p ∈ s.fs) :
    p ∈ s'.fs := by
  rw [fileSem_eq] at hr
  have hstep : ∀ s l s', WholeFiles s.fs ∧ p ∈ s.fs →
      Handlers.step (dirSem cwd fun _ => true) s l = some s' → WholeFiles s'.fs ∧ p ∈ s'.fs :=
    fun s l s' ⟨hw, hp⟩ h => ⟨(step_wrote hw h).whole hw, (step_wrote hw h).mem hp⟩
  exact (inv_of_run hstep ⟨hw, hp⟩ hr).2

theorem present_iff_mem (hw : WholeFiles fs) (id : Bytes) :
    Present cwd fs id ↔ recordPath cwd id ∈ fs := by
  constructor
  · intro h
    obtain ⟨o, ho⟩ := Option.isSome_iff_exists.mp h
    rw [← AList.lookup_isSome, recordPath, objAt_eq_some_iff.mp ho]
    rfl
  · intro h
    obtain ⟨o, ho⟩ := hw.objAt_of_mem h
    rw [Present, ho]
    rfl

/-- A record that was there once is there. -/
theorem present_of_everStored {ls : List Lbl} {s : Sys} {id : Bytes} (hw : WholeFiles s.fs)
    (hr : run (Handlers.step (fileSem cwd)) .init ls = some s) (h : EverStored cwd ls id) :
    Present cwd s.fs id := by
  obtain ⟨ls1, ls2, s1, rfl, hr1, hp⟩ := h
  rw [run_append, hr1] at hr
  have hw1 : WholeFiles s1.fs := by
    rw [fileSem_eq] at hr1
    exact whole_of_run hr1
  have hmem := mem_of_run hw1 hr ((present_iff_mem hw1 id).mp hp)
  exact (present_iff_mem hw id).mpr hmem

/-- **The sweep resets every stream and nothing else**: after any run on streams without a slash,
every stream that was ever stored reads `off`, the actions and the stored streams are what they
were, the same records are there, and a second sweep changes nothing. -/
theorem sweep_resets (cwd : Path) {ls : List Lbl} {s : Sys} (hls : ∀ l ∈ ls, NoSlash l)
    (hr : run (Handlers.step (fileSem cwd)) .init ls = some s) : ∃ fs',
    exec (fileSem cwd) trigger s.fs = (some (), fs') ∧
      (∀ id, EverStored cwd ls id → got cwd fs' (lit "status") id = some (some (lit "off"))) ∧
      (∀ id, got cwd fs' (lit "action") id = got cwd s.fs (lit "action") id ∧
        getEx (record cwd fs' id) (lit "streamId") =
          getEx (record cwd s.fs id) (lit "streamId")) ∧
      (∀ p, p ∈ fs' ↔ p ∈ s.fs) ∧
      ∃ fs'', exec (fileSem cwd) trigger fs' = (some (), fs'') ∧
        ∀ p, fs''.lookup p = fs'.lookup p := by
  have hr' := hr
  rw [fileSem_eq] at hr'
  have hw := whole_of_run hr'
  have hn := (named_of_run hls hr').files
  obtain ⟨fs', hx, hw', hl⟩ := exec_trigger_files hw hn
  have hmem := mem_swept hl
  obtain ⟨fs'', hx', -, hl'⟩ := exec_trigger_files hw' fun p hp => hn p ((hmem p).mp hp)
  refine ⟨fs', hx, fun id hid => ?_, fun id => ⟨?_, ?_⟩, hmem, fs'', hx', fun p => ?_⟩
  · exact got_status_swept hl (present_of_everStored hw hr hid)
  · obtain ⟨v, hv⟩ : ∃ v, getEx (record cwd s.fs id) (lit "action") = some (.str v) :=
      hw.wholeStore id _ mem_keys_action
    have hv' : getEx (record cwd fs' id) (lit "action") = some (.str v) :=
      (getEx_swept hl id (by decide)).trans hv
    rw [got_eq hv, got_eq hv']
  · exact getEx_swept hl id (by decide)
  · rw [hl', hl, Option.map_map]
    congr 1
    funext f
    exact turnOff_turnOff f

end Resets

/-- Reports of two streams with names of 61 bytes that differ in the last one. -/
def longReport (c : UInt8) : Lbl :=
  .report fresh (lit "\x7b \"streamId\" : \"" ++ List.replicate 60 0x61 ++ [c] ++
    lit "\", \"status\" : \"live\"\x7d")

def shared : List Lbl := [longReport 0x62, .step 0, .step 0, longReport 0x63, .step 1, .step 1]

theorem sweep_resets_shared : ∃ s fs', run (Handlers.step (fileSem [])) .init shared = some s ∧
    s.fs.keys.length = 1 ∧ exec (fileSem []) trigger s.fs = (some (), fs') ∧
    ∀ id, EverStored [] shared id → got [] fs' (lit "status") id = some (some (lit "off")) := by
  have hlen : (run (Handlers.step (fileSem [])) .init shared).map (fun s => s.fs.keys.length) =
      some 1 := by decide +kernel
  obtain ⟨s, hr, hl⟩ := Option.map_eq_some_iff.mp hlen
  have hmsg : ∀ l ∈ shared, NoSlash l := by
    have hlong : ∀ c ∈ [0x62, 0x63], NoSlash (longReport c) := by
      intro c hc id hid
      simp only [List.mem_cons, List.not_mem_nil, or_false] at hc
      have hf : field "streamId" (lit "\x7b \"streamId\" : \"" ++ List.replicate 60 0x61 ++ [c] ++
          lit "\", \"status\" : \"live\"\x7d") = some (List.replicate 60 0x61 ++ [c]) := by
        obtain rfl | rfl := hc <;> decide +kernel
      rw [hf] at hid
      cases hid
      obtain rfl | rfl := hc <;> decide
    simp only [shared, List.forall_mem_cons, List.not_mem_nil, false_imp_iff, implies_true,
      and_true]
    exact ⟨hlong _ (by decide), trivial, trivial, hlong _ (by decide), trivial, trivial⟩
  obtain ⟨fs', hx, hoff, -⟩ := sweep_resets [] hmsg hr
  exact ⟨s, fs', hr, hl, hx, hoff⟩

end LiveStreamer.StreamerServer.Resets
