import LiveStreamer.StreamerServer.Directory
import LiveStreamer.StreamerServer.Main

/-! # What the sweep does to the records (`main.c`)

A store is `Tidy` for some streams if every file is the record of one of them. The sweep of a tidy
store turns every record to `off` and changes nothing else (`exec_trigger`). -/

namespace LiveStreamer.StreamerServer.Sweep

open LiveStreamer.Lib.CString LiveStreamer.Lib.PathName LiveStreamer.Lib.Program
open LiveStreamer.Lib.Program.Prog LiveStreamer.Lib.Tokener
open LiveStreamer.StreamerServer.SrvrJson LiveStreamer.StreamerServer.Main
open LiveStreamer.StreamerServer.Directory

section Sweep
variable (cwd : Path)

/-! ### The file of a record -/

/-- The name of the file of a stream. -/
def fileName (s : Bytes) : Bytes := (s ++ lit ".json").take 56

/-- A stream with a file of its own in the directory. -/
def Short (s : Bytes) : Prop := slash ∉ s ∧ s.length ≤ 51

/-- The record of the stream is there. -/
def Present (fs : Fs) (s : Bytes) : Prop := (objAt cwd fs (jsonFileWithAddr (some s))).isSome = true

instance (fs : Fs) (s : Bytes) : Decidable (Present cwd fs s) := inferInstanceAs (Decidable (_ = _))

theorem recordPath_of_notMem {s : Bytes} (h : slash ∉ s) :
    recordPath cwd s = statusDir cwd ++ [fileName s] := by
  rw [recordPath_eq, entryPath_of_notMem cwd h, fileName]

theorem recordPath_inj {s t : Bytes} (hs : Short s) (ht : Short t)
    (h : recordPath cwd s = recordPath cwd t) : s = t := by
  rw [recordPath_eq, recordPath_eq] at h
  exact entryPath_inj cwd hs.1 ht.1 hs.2 ht.2 h

/-- The sweep opens the record under its own name. -/
theorem resolve_entryAddr (s : Bytes) :
    resolve cwd (entryAddr (fileName s)) = recordPath cwd s := by
  have h5 : (lit ".json").length = 5 := rfl
  have h7 : (lit "status/").length = 7 := rfl
  have hl : (fileName s).length ≤ 56 := by
    rw [fileName, List.length_take]
    omega
  have haddr : entryAddr (fileName s) = lit "status" ++ slash :: fileName s := by
    rw [entryAddr, snprintf_of_fits (by rw [List.length_append, h7]; omega)]
    rfl
  rw [haddr, resolve_under cwd _ (by decide) (by decide) (by decide) (by decide), recordPath_eq]
  rfl

theorem resolve_statusDir : resolve cwd (lit "status/") = statusDir cwd := by
  have h : lit "status/" = lit "status" ++ slash :: [] := rfl
  rw [h, resolve_under cwd _ (by decide) (by decide) (by decide) (by decide)]
  rfl

theorem entryOf_recordPath {s : Bytes} (h : slash ∉ s) :
    entryOf (statusDir cwd) (recordPath cwd s) = some (fileName s) := by
  rw [recordPath_of_notMem cwd h, entryOf, if_pos List.dropLast_concat, List.getLast?_concat]

/-! ### The sweep of one record -/

/-- A record that is turned off. -/
def turnedOff (o : Obj) : Obj := add o (lit "status") (.str (lit "off"))

theorem exec_triggerFile {fs : Fs} {s : Bytes} (hp : Present cwd fs s) :
    exec (fileSem cwd) (triggerFile (fileName s)) fs =
      (some (), store cwd fs s (turnedOff (record cwd fs s))) := by
  obtain ⟨o, ho⟩ := Option.isSome_iff_exists.mp hp
  have hread : fileSem cwd (.fromFile (entryAddr (fileName s))) fs = (some (some o), fs) := by
    have hobj : objAt cwd fs (entryAddr (fileName s)) = some o := by
      rw [objAt, resolve_entryAddr]
      exact ho
    rw [fileSem, hobj]
  have hrec : record cwd fs s = o := by rw [record, ho, Option.getD_some]
  simp only [triggerFile, objectFromFile, op_bind]
  rw [exec_call_some _ hread]
  simp only [newString, ret_bind, objectAdd]
  rw [exec_objectToFile, resolve_entryAddr, hrec]
  rfl

/-! ### The sweep of the directory -/

/-- Every file is the record of one of the streams. -/
def Tidy (ids : Set Bytes) (fs : Fs) : Prop :=
  ∀ p ∈ fs.keys, ∃ s ∈ ids, p = recordPath cwd s ∧ Present cwd fs s

variable {cwd} {ids : Set Bytes} {fs : Fs}

theorem tidy_empty : Tidy cwd ids ∅ := fun p hp => absurd hp (AList.notMem_empty p)

theorem present_store_self (fs : Fs) (s : Bytes) (o : Obj) : Present cwd (store cwd fs s o) s := by
  rw [Present, objAt_store_self, Option.isSome_some]

theorem present_store_ne {s t : Bytes} (o : Obj) (h : recordPath cwd t ≠ recordPath cwd s) :
    Present cwd (store cwd fs s o) t ↔ Present cwd fs t := by
  rw [Present, objAt_store_ne cwd fs o h, Present]

theorem Tidy.store (hids : ∀ s ∈ ids, Short s) (h : Tidy cwd ids fs) {s : Bytes} (hs : s ∈ ids)
    (o : Obj) : Tidy cwd ids (store cwd fs s o) := by
  intro p hp
  rw [SrvrJson.store, ← AList.mem_keys, AList.mem_insert] at hp
  rcases hp with rfl | hp
  · exact ⟨s, hs, rfl, present_store_self fs s o⟩
  · obtain ⟨t, ht, rfl, hpt⟩ := h p (AList.mem_keys.mp hp)
    refine ⟨t, ht, rfl, ?_⟩
    by_cases he : recordPath cwd t = recordPath cwd s
    · rw [recordPath_inj cwd (hids t ht) (hids s hs) he]
      exact present_store_self fs s o
    · exact (present_store_ne o he).mpr hpt

theorem Tidy.load (hids : ∀ s ∈ ids, Short s) (h : Tidy cwd ids fs) {s : Bytes} (hs : s ∈ ids) :
    Tidy cwd ids (load cwd fs s) := by
  unfold SrvrJson.load
  split_ifs
  · exact h
  · exact h.store hids hs _

/-- **The loop of the sweep**: the records of the streams are turned off. -/
theorem exec_triggerEntries (hids : ∀ s ∈ ids, Short s) {ss : List Bytes} (hss : ∀ s ∈ ss, s ∈ ids)
    (hp : ∀ s ∈ ss, Present cwd fs s) (ht : Tidy cwd ids fs) :
    ∃ fs', exec (fileSem cwd) (triggerEntries ((ss.map fileName).map fun n => (n, false))) fs =
        (some (), fs') ∧ Tidy cwd ids fs' ∧ ∀ t ∈ ids, record cwd fs' t =
          if t ∈ ss then turnedOff (record cwd fs t) else record cwd fs t := by
  induction ss generalizing fs with
  | nil => exact ⟨fs, rfl, ht, fun t _ => by simp⟩
  | cons s ss ih =>
    obtain ⟨hs, hss⟩ := List.forall_mem_cons.mp hss
    obtain ⟨hps, hp⟩ := List.forall_mem_cons.mp hp
    have hne : ∀ t ∈ ids, t ≠ s → recordPath cwd t ≠ recordPath cwd s := fun t ht hts he =>
      hts (recordPath_inj cwd (hids t ht) (hids s hs) he)
    set fs1 := SrvrJson.store cwd fs s (turnedOff (record cwd fs s)) with hfs1
    have hp1 : ∀ t ∈ ss, Present cwd fs1 t := by
      intro t hts
      by_cases he : t = s
      · rw [he]
        exact present_store_self fs s _
      · exact (present_store_ne _ (hne t (hss t hts) he)).mpr (hp t hts)
    obtain ⟨fs', hx, htidy, hrec⟩ := ih hss hp1 (ht.store hids hs _)
    refine ⟨fs', ?_, htidy, fun t htid => ?_⟩
    · rw [List.map_cons, List.map_cons, triggerEntries,
        exec_bind_some _ (exec_triggerFile cwd hps)]
      exact hx
    rw [hrec t htid]
    by_cases he : t = s
    · subst he
      rw [hfs1, record_store_self, turnedOff, turnedOff, add_add]
      simp
    · rw [hfs1, record_store_ne cwd fs _ (hne t htid he)]
      simp [he]

/-- The files of a tidy store are the records of a list of streams. -/
theorem Tidy.streams (h : Tidy cwd ids fs) : ∃ ss : List Bytes, fs.keys = ss.map (recordPath cwd) ∧
    ∀ s ∈ ss, s ∈ ids ∧ Present cwd fs s := by
  unfold Tidy at h
  generalize fs.keys = ps at h
  induction ps with
  | nil => exact ⟨[], rfl, fun s hs => absurd hs List.not_mem_nil⟩
  | cons p ps ih =>
    obtain ⟨⟨s, hs, rfl, hp⟩, hps⟩ := List.forall_mem_cons.mp h
    obtain ⟨ss, rfl, hss⟩ := ih hps
    exact ⟨s :: ss, rfl, List.forall_mem_cons.mpr ⟨⟨hs, hp⟩, hss⟩⟩

/-- **The sweep** turns the records of a tidy store off. -/
theorem exec_trigger (hids : ∀ s ∈ ids, Short s) (h : Tidy cwd ids fs) :
    ∃ fs', exec (fileSem cwd) trigger fs = (some (), fs') ∧ Tidy cwd ids fs' ∧
      ∀ t ∈ ids, record cwd fs' t =
        if Present cwd fs t then turnedOff (record cwd fs t) else record cwd fs t := by
  obtain ⟨ss, hkeys, hss⟩ := h.streams
  have hnames : fs.keys.filterMap (entryOf (statusDir cwd)) = ss.map fileName := by
    rw [hkeys, List.filterMap_map, ← List.filterMap_eq_map]
    refine List.filterMap_congr fun s hs => ?_
    exact entryOf_recordPath cwd (hids s (hss s hs).1).1
  have hlist : fileSem cwd (.listDir (lit "status/")) fs =
      (some (some (entries (statusDir cwd) fs)), fs) := by
    rw [fileSem, resolve_statusDir]
  obtain ⟨fs', hx, htidy, hrec⟩ := exec_triggerEntries hids (fun s hs => (hss s hs).1)
    (fun s hs => (hss s hs).2) h
  refine ⟨fs', ?_, htidy, fun t ht => ?_⟩
  · rw [trigger, op_bind, exec_call_some _ hlist]
    simp only [entries, triggerEntries, hnames]
    exact hx
  rw [hrec t ht]
  -- a record that is there is one of those swept
  have hiff : t ∈ ss ↔ Present cwd fs t := by
    constructor
    · exact fun hm => (hss t hm).2
    · intro hp
      have hmem : recordPath cwd t ∈ fs.keys := by
        obtain ⟨o, ho⟩ := Option.isSome_iff_exists.mp hp
        rw [← AList.mem_keys, ← AList.lookup_isSome]
        rw [objAt] at ho
        unfold recordPath
        split at ho
        · next hl => rw [hl, Option.isSome_some]
        · cases ho
      rw [hkeys, List.mem_map] at hmem
      obtain ⟨s, hs, he⟩ := hmem
      rw [← recordPath_inj cwd (hids s (hss s hs).1) (hids t ht) he]
      exact hs
  by_cases hp : Present cwd fs t
  · rw [if_pos hp, if_pos (hiff.mpr hp)]
  · rw [if_neg hp, if_neg (mt hiff.mp hp)]

/-- The sweep keeps the actions. -/
theorem storedAction_of_sweep {fs' : Fs} {t : Bytes} (h : record cwd fs' t =
    if Present cwd fs t then turnedOff (record cwd fs t) else record cwd fs t) :
    storedAction cwd t fs' = storedAction cwd t fs := by
  rw [storedAction, storedAction, h]
  split_ifs
  · rw [turnedOff, getEx_add_ne _ _ (by decide)]
  · rfl

end Sweep

end LiveStreamer.StreamerServer.Sweep
