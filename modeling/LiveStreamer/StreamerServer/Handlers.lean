import LiveStreamer.Lib.Run
import LiveStreamer.StreamerServer.PlayerServer
import LiveStreamer.StreamerServer.Sweep

/-! # The handlers of the server, interleaved

Any number of device messages, player requests and sweeps are handled at once. A step is the
arrival of one of them, or the next store operation of a handler, run as a whole; the sweep of one
file counts as one. The device threads name the stream of all their operations by the global
`strmID`, which the message that arrived last has set.

`dirSem` is the meaning of the file operations where only some names can be opened: the names
in `opens`, whose directories are there. A load finds a record, makes one, or gives NULL (`loads`),
and a step of a handler writes at most one file, with a whole record (`wrote_step`). -/

namespace LiveStreamer.StreamerServer.Handlers

open LiveStreamer.Lib.CString LiveStreamer.Lib.PathName LiveStreamer.Lib.Program
open LiveStreamer.Lib.Program.Prog LiveStreamer.Lib.Run LiveStreamer.Lib.Tokener
open LiveStreamer.StreamerServer.SrvrJson LiveStreamer.StreamerServer.SrvrComm
open LiveStreamer.StreamerServer.PlayerServer LiveStreamer.StreamerServer.Main
open LiveStreamer.StreamerServer.Sweep

/-! ### The operations -/

/-- Each store operation runs as one step, over any meaning of the file operations. -/
def storeSem {σ : Type} (sem : Sem FileOp FileRet σ) : Sem SrvrOp SrvrRet σ
  | .set jKey value file, s => exec sem (setJsonValue jKey value file) s
  | .get jKey file, s => exec sem (getJsonValueFromFile jKey file) s
  | .send _ _, s => (some (), s)
  | .lwsWrite _, s => (some (), s)

/-- The operations of a device thread, which take the stream from the global variable. -/
def deviceSem {σ : Type} (sem : Sem SrvrOp SrvrRet σ) (strmID : Option Bytes) :
    Sem SrvrOp SrvrRet σ
  | .set jKey value _, s =>
    sem (.set jKey (if jKey = lit "streamId" then strmID else value) strmID) s
  | .get jKey _, s => sem (.get jKey strmID) s
  | .send sock text, s => sem (.send sock text) s
  | .lwsWrite text, s => sem (.lwsWrite text) s

/-- The file operations when the names in `opens` can be opened, and no others. -/
def dirSem (cwd : Path) (opens : Bytes → Bool) : Sem FileOp FileRet Fs
  | .fromFile fn, fs => (some (if opens fn then objAt cwd fs fn else none), fs)
  | .openTrunc fn, fs =>
    (some (opens fn), if opens fn then fs.insert (resolve cwd fn) .bad else fs)
  | .writeAll fn o, fs => fileSem cwd (.writeAll fn o) fs
  | .listDir dir, fs => fileSem cwd (.listDir dir) fs

/-! ### The system -/

/-- What is left of the handling of a message, of a request or of a sweep. -/
inductive Handler where
  | device (p : SrvrProg Globals)
  | player (p : SrvrProg Unit)
  | sweep (es : List (Bytes × Bool))
  /-- A sweep that has ended the process. -/
  | crashed

structure Sys where
  strmID : Option Bytes
  fs : Fs
  handlers : List Handler

/-- No stream has been named, and the directory is empty. -/
def Sys.init : Sys := ⟨none, ∅, []⟩

inductive Lbl where
  /-- A message of a device; `g` holds the globals of its thread apart from `strmID`. -/
  | report (g : Globals) (msg : Bytes)
  | request (str : Bytes)
  | sweep
  /-- The next operation of a handler. -/
  | step (i : ℕ)

section System
variable (sem : Sem FileOp FileRet Fs)

/-- The next operation of a handler. -/
def Handler.step (strmID : Option Bytes) : Handler → Fs → Option (Handler × Fs)
  | .device p, fs =>
    (Prog.step (deviceSem (storeSem sem) strmID) p fs).map fun r => (.device r.1, r.2)
  | .player p, fs => (Prog.step (storeSem sem) p fs).map fun r => (.player r.1, r.2)
  | .sweep [], _ => none
  | .sweep ((_, true) :: es), fs => some (.sweep es, fs)
  | .sweep ((dName, false) :: es), fs =>
    match exec sem (triggerFile dName) fs with
    | (some _, fs') => some (.sweep es, fs')
    | (none, fs') => some (.crashed, fs')
  | .crashed, _ => none

/-- The entries that a sweep goes through. -/
def swept (fs : Fs) : List (Bytes × Bool) :=
  match sem (.listDir (lit "status/")) fs with
  | (some (some es), _) => es
  | _ => []

/-- The globals of a device thread. -/
def Sys.globals (s : Sys) (g : Globals) : Globals := { g with strmID := s.strmID }

def step (s : Sys) : Lbl → Option Sys
  | .report g msg =>
    some { s with
      strmID := streamOf (s.globals g) (tokenerParse msg)
      handlers := s.handlers ++ [.device (msgParse (s.globals g) msg)] }
  | .request str => some { s with handlers := s.handlers ++ [.player (websocketWriteBack str)] }
  | .sweep => some { s with handlers := s.handlers ++ [.sweep (swept sem s.fs)] }
  | .step i =>
    match s.handlers[i]? with
    | some h =>
      (h.step sem s.strmID s.fs).map fun r => { s with fs := r.2, handlers := s.handlers.set i r.1 }
    | none => none

end System

/-! ### The handlers after a step -/

section Steps
variable {sem : Sem FileOp FileRet Fs} {strmID : Option Bytes} {fs fs' : Fs} {h : Handler}

theorem step_device {p' : SrvrProg Globals} (hs : h.step sem strmID fs = some (.device p', fs')) :
    ∃ p, h = .device p ∧ Prog.step (deviceSem (storeSem sem) strmID) p fs = some (p', fs') := by
  unfold Handler.step at hs
  split at hs
  · next p =>
    obtain ⟨⟨p1, fs1⟩, hp, he⟩ := Option.map_eq_some_iff.mp hs
    cases he
    exact ⟨p, rfl, hp⟩
  · obtain ⟨r, -, he⟩ := Option.map_eq_some_iff.mp hs
    cases he
  · cases hs
  · cases hs
  · split at hs <;> cases hs
  · cases hs

theorem step_player {p' : SrvrProg Unit} (hs : h.step sem strmID fs = some (.player p', fs')) :
    ∃ p, h = .player p ∧ Prog.step (storeSem sem) p fs = some (p', fs') := by
  unfold Handler.step at hs
  split at hs
  · obtain ⟨r, -, he⟩ := Option.map_eq_some_iff.mp hs
    cases he
  · next p =>
    obtain ⟨⟨p1, fs1⟩, hp, he⟩ := Option.map_eq_some_iff.mp hs
    cases he
    exact ⟨p, rfl, hp⟩
  · cases hs
  · cases hs
  · split at hs <;> cases hs
  · cases hs

theorem step_sweep {es : List (Bytes × Bool)}
    (hs : h.step sem strmID fs = some (.sweep es, fs')) : ∃ e, h = .sweep (e :: es) := by
  unfold Handler.step at hs
  split at hs
  · obtain ⟨r, -, he⟩ := Option.map_eq_some_iff.mp hs
    cases he
  · obtain ⟨r, -, he⟩ := Option.map_eq_some_iff.mp hs
    cases he
  · cases hs
  · cases hs
    exact ⟨_, rfl⟩
  · split at hs
    · cases hs
      exact ⟨_, rfl⟩
    · cases hs
  · cases hs

theorem step_crashed (hs : h.step sem strmID fs = some (.crashed, fs')) :
    ∃ dName es, h = .sweep ((dName, false) :: es) ∧
      exec sem (triggerFile dName) fs = (none, fs') := by
  unfold Handler.step at hs
  split at hs
  · obtain ⟨r, -, he⟩ := Option.map_eq_some_iff.mp hs
    cases he
  · obtain ⟨r, -, he⟩ := Option.map_eq_some_iff.mp hs
    cases he
  · cases hs
  · cases hs
  · split at hs
    · cases hs
    · next hx =>
      cases hs
      exact ⟨_, _, rfl, hx⟩
  · cases hs

/-- The handler that a message brings. -/
def arrived (sem : Sem FileOp FileRet Fs) (s : Sys) : Lbl → Option Handler
  | .report g msg => some (.device (msgParse (s.globals g) msg))
  | .request str => some (.player (websocketWriteBack str))
  | .sweep => some (.sweep (swept sem s.fs))
  | .step _ => none

/-- **A handler after a step** was there, has just arrived, or has taken the step. -/
theorem handler_of_step {s s' : Sys} {l : Lbl} (hs : step sem s l = some s') {h' : Handler}
    (hh : h' ∈ s'.handlers) : h' ∈ s.handlers ∨ arrived sem s l = some h' ∨
      ∃ h ∈ s.handlers, h.step sem s.strmID s.fs = some (h', s'.fs) := by
  have hnew {h₀ : Handler} (h₀' : arrived sem s l = some h₀) (hmem : h' ∈ s.handlers ++ [h₀]) :
      h' ∈ s.handlers ∨ arrived sem s l = some h' ∨
        ∃ h ∈ s.handlers, h.step sem s.strmID s.fs = some (h', s'.fs) := by
    rcases List.mem_append.mp hmem with hmem | hmem
    · exact Or.inl hmem
    · rw [List.mem_singleton.mp hmem]
      exact Or.inr (Or.inl h₀')
  cases l with
  | report g msg =>
    cases hs
    exact hnew rfl hh
  | request str =>
    cases hs
    exact hnew rfl hh
  | sweep =>
    cases hs
    exact hnew rfl hh
  | step i =>
    simp only [step] at hs
    split at hs
    · next hd hi =>
      obtain ⟨⟨hd', fs1⟩, hx, he⟩ := Option.map_eq_some_iff.mp hs
      cases he
      rcases List.mem_or_eq_of_mem_set hh with hh | rfl
      · exact Or.inl hh
      · exact Or.inr (Or.inr ⟨hd, List.mem_of_getElem? hi, hx⟩)
    · cases hs

/-- Only the arrival of a device message names another stream. -/
theorem strmID_of_step {s s' : Sys} {l : Lbl} (hs : step sem s l = some s') :
    s'.strmID = s.strmID ∨
      ∃ g msg, l = .report g msg ∧ s'.strmID = streamOf (s.globals g) (tokenerParse msg) := by
  cases l with
  | report g msg =>
    cases hs
    exact Or.inr ⟨g, msg, rfl, rfl⟩
  | request str =>
    cases hs
    exact Or.inl rfl
  | sweep =>
    cases hs
    exact Or.inl rfl
  | step i =>
    simp only [step] at hs
    split at hs
    · obtain ⟨r, -, he⟩ := Option.map_eq_some_iff.mp hs
      cases he
      exact Or.inl rfl
    · cases hs

end Steps

/-! ### What a store operation does -/

section Ops
variable (cwd : Path) (opens : Bytes → Bool)

/-- The record that a load finds or makes. -/
def loads (fs : Fs) (file : Option Bytes) : Option Obj :=
  if opens (jsonFileWithAddr file) then
    (objAt cwd fs (jsonFileWithAddr file)).or (file.map defaults)
  else none

/-- The store after a load. -/
def loaded (fs : Fs) (file : Option Bytes) : Fs :=
  if opens (jsonFileWithAddr file) then (file.map (load cwd fs)).getD fs else fs

theorem dirSem_eq_fileSem (o : FileOp) (fs : Fs) :
    dirSem cwd (fun _ => true) o fs = fileSem cwd o fs := by
  cases o <;> rfl

theorem fileSem_eq : fileSem cwd = dirSem cwd fun _ => true :=
  funext fun o => funext fun fs => (dirSem_eq_fileSem cwd o fs).symm

variable {cwd opens} {fs : Fs} {file : Option Bytes}

/-- A name that cannot be opened is not created. -/
theorem exec_objectToFile_closed {fn : Bytes} (h : opens fn = false) (o : Obj) :
    exec (dirSem cwd opens) (objectToFile fn o) fs = (some (), fs) := by
  have hopen : dirSem cwd opens (.openTrunc fn) fs = (some false, fs) := by simp [dirSem, h]
  rw [objectToFile, exec_call_some _ hopen]
  rfl

theorem exec_objectToFile_open {fn : Bytes} (h : opens fn = true) (o : Obj) :
    exec (dirSem cwd opens) (objectToFile fn o) fs =
      (some (), fs.insert (resolve cwd fn) (.obj o)) := by
  have hopen : dirSem cwd opens (.openTrunc fn) fs =
      (some true, fs.insert (resolve cwd fn) .bad) := by simp [dirSem, h]
  rw [objectToFile, exec_call_some _ hopen, if_pos rfl, exec_op]
  simp [dirSem, fileSem]

theorem exec_objectFromFile (fn : Bytes) : exec (dirSem cwd opens) (objectFromFile fn) fs =
    (some (if opens fn then objAt cwd fs fn else none), fs) := by
  rw [objectFromFile, exec_op]
  rfl

variable (cwd opens fs file) in
/-- **A load** gives the record, or NULL, and aborts where it has no name for a new one. -/
theorem exec_jsonFromFile : exec (dirSem cwd opens) (jsonFromFile file) fs =
    (if file = none ∧ loads cwd opens fs file = none then none
      else some (loads cwd opens fs file), loaded cwd opens fs file) := by
  unfold jsonFromFile
  rw [exec_bind_some _ (exec_objectFromFile _)]
  rcases ho : opens (jsonFileWithAddr file) with _ | _
  · -- the file cannot be opened
    have hn : loads cwd opens fs file = none := by simp [loads, ho]
    have hl : loaded cwd opens fs file = fs := by simp [loaded, ho]
    simp only [if_neg Bool.false_ne_true, hn, hl, and_true]
    rcases file with _ | s
    · rfl
    · rw [newJsonFile, newString, ret_bind]
      simp only [jsonToFile]
      rw [exec_bind_some _ (exec_objectToFile_closed ho _), exec_objectFromFile, ho]
      rfl
  · rcases hr : objAt cwd fs (jsonFileWithAddr file) with _ | o
    · rcases file with _ | s
      · have hn : loads cwd opens fs none = none := by simp [loads, hr]
        simp only [hn, and_self]
        simp [newJsonFile, newString, loaded]
      · have hl : loads cwd opens fs (some s) = some (defaults s) := by simp [loads, ho, hr]
        have hs : loaded cwd opens fs (some s) = store cwd fs s (defaults s) := by
          simp [loaded, ho, load, hr]
        simp only [if_pos, hl, hs]
        rw [newJsonFile, newString, ret_bind]
        simp only [jsonToFile, defaults_eq]
        rw [exec_bind_some _ (exec_objectToFile_open ho _), exec_objectFromFile, ho, if_pos rfl,
          objAt_insert_self]
        simp [store, recordPath]
    · have hl : loads cwd opens fs file = some o := by simp [loads, ho, hr]
      have hs : loaded cwd opens fs file = fs := by
        rcases file with _ | s
        · simp [loaded, ho]
        · simp [loaded, ho, load, hr]
      simp [hl, hs]

theorem opens_of_loads {o : Obj} (h : loads cwd opens fs file = some o) :
    opens (jsonFileWithAddr file) = true := by
  unfold loads at h
  split_ifs at h with ho
  exact ho

theorem loaded_of_none (h : loads cwd opens fs file = none) : loaded cwd opens fs file = fs := by
  unfold loads at h
  unfold loaded
  split_ifs at h ⊢
  · rcases file with _ | s
    · rfl
    · simp at h
  · rfl

/-- A stream that is named and can be opened has a record. -/
theorem loads_of_opens {s : Bytes} (h : opens (jsonFileWithAddr (some s)) = true) :
    loads cwd opens fs (some s) = some (record cwd fs s) := by
  rw [loads, if_pos h, record]
  cases objAt cwd fs (jsonFileWithAddr (some s)) <;> rfl

/-- A write after a load. -/
theorem insert_loaded (o : Obj) :
    (loaded cwd opens fs file).insert (resolve cwd (jsonFileWithAddr file)) (.obj o) =
      store cwd fs (percentS file) o := by
  unfold loaded
  split_ifs
  · rcases file with _ | s
    · rfl
    · exact store_load cwd fs s o
  · rfl

section Set
variable {jKey : Bytes} {value : Option Bytes}

theorem exec_set {v : Bytes} {o : Obj} (h : loads cwd opens fs file = some o) :
    exec (dirSem cwd opens) (setJsonValue jKey (some v) file) fs =
      (some (), store cwd fs (percentS file) (add o jKey (.str v))) := by
  have hload := exec_jsonFromFile cwd opens fs file
  rw [h, if_neg (by simp)] at hload
  unfold setJsonValue
  rw [exec_bind_some _ hload]
  simp only [newString, objectAdd, ret_bind, jsonToFile]
  rw [exec_objectToFile_open (opens_of_loads h), insert_loaded]

/-- A store without a record aborts. -/
theorem exec_set_of_none (h : loads cwd opens fs file = none) :
    exec (dirSem cwd opens) (setJsonValue jKey value file) fs = (none, fs) := by
  have hload := exec_jsonFromFile cwd opens fs file
  rw [h, loaded_of_none h] at hload
  unfold setJsonValue
  rw [exec_bind, hload]
  by_cases hf : file = none
  · rw [if_pos ⟨hf, rfl⟩]
  · rw [if_neg fun h => hf h.1]
    rcases value with _ | v <;> rfl

/-- A store of no value aborts after the load. -/
theorem exec_set_null : exec (dirSem cwd opens) (setJsonValue jKey none file) fs =
    (none, loaded cwd opens fs file) := by
  unfold setJsonValue
  rw [exec_bind, exec_jsonFromFile]
  by_cases hf : file = none ∧ loads cwd opens fs file = none
  · rw [if_pos hf]
  · rw [if_neg hf]
    rfl

theorem exec_get {o : Obj} {j : Json} (h : loads cwd opens fs file = some o)
    (hj : getEx o jKey = some j) :
    exec (dirSem cwd opens) (getJsonValueFromFile jKey file) fs =
      (some (getString j), loaded cwd opens fs file) := by
  have hload := exec_jsonFromFile cwd opens fs file
  rw [h, if_neg (by simp)] at hload
  unfold getJsonValueFromFile
  rw [exec_bind_some _ hload]
  simp [hj]

/-- The branch for a key that is missing. -/
theorem exec_get_missing {o : Obj} (h : loads cwd opens fs file = some o)
    (hj : getEx o jKey = none) :
    exec (dirSem cwd opens) (getJsonValueFromFile jKey file) fs =
      (some none, store cwd fs (percentS file) (add o (lit "action") (.str (lit "off")))) := by
  have hload := exec_jsonFromFile cwd opens fs file
  rw [h, if_neg (by simp)] at hload
  unfold getJsonValueFromFile
  rw [exec_bind_some _ hload]
  simp only [Option.bind_some, hj, objectAdd, ret_bind, jsonToFile]
  rw [exec_bind_some _ (exec_objectToFile_open (opens_of_loads h) _), exec_ret, insert_loaded]

theorem exec_get_of_none (h : loads cwd opens fs file = none) :
    exec (dirSem cwd opens) (getJsonValueFromFile jKey file) fs = (none, fs) := by
  have hload := exec_jsonFromFile cwd opens fs file
  rw [h, loaded_of_none h] at hload
  unfold getJsonValueFromFile
  rw [exec_bind, hload]
  by_cases hf : file = none
  · rw [if_pos ⟨hf, rfl⟩]
  · rw [if_neg fun h => hf h.1]
    rfl

end Set

end Ops

/-! ### Whole files -/

/-- Every file holds a whole record. -/
def WholeFiles (fs : Fs) : Prop := ∀ p f, fs.lookup p = some f → ∃ o, f = .obj o ∧ Whole o

theorem wholeFiles_empty : WholeFiles ∅ := by
  intro p f h
  simp at h

theorem WholeFiles.insert {fs : Fs} (hw : WholeFiles fs) (p : Path) {o : Obj} (ho : Whole o) :
    WholeFiles (fs.insert p (.obj o)) := by
  intro q f hf
  by_cases he : q = p
  · subst he
    rw [AList.lookup_insert] at hf
    cases hf
    exact ⟨o, rfl, ho⟩
  · rw [AList.lookup_insert_ne he] at hf
    exact hw q f hf

section Writes
variable {cwd : Path} {opens : Bytes → Bool} {fs fs' : Fs}

theorem WholeFiles.objAt (hw : WholeFiles fs) {fn : Bytes} {o : Obj}
    (h : objAt cwd fs fn = some o) : Whole o := by
  obtain ⟨o', he, ho⟩ := hw _ _ (objAt_eq_some_iff.mp h)
  cases he
  exact ho

/-- Where every file is whole, a record is there if its file is. -/
theorem WholeFiles.objAt_of_mem (hw : WholeFiles fs) {fn : Bytes} (h : resolve cwd fn ∈ fs) :
    ∃ o, SrvrJson.objAt cwd fs fn = some o := by
  obtain ⟨f, hf⟩ := Option.isSome_iff_exists.mp (AList.lookup_isSome.mpr h)
  obtain ⟨o, rfl, -⟩ := hw _ _ hf
  exact ⟨o, objAt_eq_some_iff.mpr hf⟩

theorem WholeFiles.loads (hw : WholeFiles fs) {file : Option Bytes} {o : Obj}
    (h : loads cwd opens fs file = some o) : Whole o := by
  unfold Handlers.loads at h
  split_ifs at h
  rcases Option.or_eq_some_iff.mp h with h | ⟨-, h⟩
  · exact hw.objAt h
  · obtain ⟨s, -, rfl⟩ := Option.map_eq_some_iff.mp h
    exact whole_defaults s

theorem WholeFiles.wholeStore (hw : WholeFiles fs) : WholeStore cwd fs := by
  intro s
  have hl : Handlers.loads cwd (fun _ => true) fs (some s) = some (record cwd fs s) :=
    loads_of_opens rfl
  exact hw.loads hl

/-- The stream of a store operation. -/
def fileOf : SrvrOp → Option (Option Bytes)
  | .set _ _ file => some file
  | .get _ file => some file
  | _ => none

variable (cwd opens fs) in
/-- A load writes nothing, or a new record. -/
theorem loaded_writes (file : Option Bytes) : loaded cwd opens fs file = fs ∨
    ∃ o, Whole o ∧ loaded cwd opens fs file = store cwd fs (percentS file) o := by
  unfold loaded
  split_ifs
  · rcases file with _ | s
    · exact Or.inl rfl
    · rw [Option.map_some, Option.getD_some, load]
      split_ifs
      · exact Or.inl rfl
      · exact Or.inr ⟨_, whole_defaults s, rfl⟩
  · exact Or.inl rfl

variable (cwd opens) in
/-- **A store operation** writes nothing, or a whole record to the file of its stream. -/
theorem storeSem_writes (hw : WholeFiles fs) (o : SrvrOp) :
    (storeSem (dirSem cwd opens) o fs).2 = fs ∨ ∃ file r, fileOf o = some file ∧ Whole r ∧
      (storeSem (dirSem cwd opens) o fs).2 = store cwd fs (percentS file) r := by
  have hload : ∀ file, loaded cwd opens fs file = fs ∨ ∃ file' r, some file = some file' ∧
      Whole r ∧ loaded cwd opens fs file = store cwd fs (percentS file') r := by
    intro file
    rcases loaded_writes cwd opens fs file with h | ⟨r, hr, h⟩
    · exact Or.inl h
    · exact Or.inr ⟨file, r, rfl, hr, h⟩
  cases o with
  | set jKey value file =>
    simp only [storeSem, fileOf]
    rcases hl : loads cwd opens fs file with _ | r
    · rw [exec_set_of_none hl]
      exact Or.inl rfl
    · rcases value with _ | v
      · rw [exec_set_null]
        exact hload file
      · rw [exec_set hl]
        exact Or.inr ⟨file, _, rfl, (hw.loads hl).add jKey v, rfl⟩
  | get jKey file =>
    simp only [storeSem, fileOf]
    rcases hl : loads cwd opens fs file with _ | r
    · rw [exec_get_of_none hl]
      exact Or.inl rfl
    · rcases hj : getEx r jKey with _ | j
      · rw [exec_get_missing hl hj]
        exact Or.inr ⟨file, _, rfl, (hw.loads hl).add _ _, rfl⟩
      · rw [exec_get hl hj]
        exact hload file
  | send sock text => exact Or.inl rfl
  | lwsWrite text => exact Or.inl rfl

/-- The sweep of a file that is there turns it off. -/
theorem exec_triggerFile_open {dName : Bytes} {o : Obj} (hopen : opens (entryAddr dName) = true)
    (ho : objAt cwd fs (entryAddr dName) = some o) :
    exec (dirSem cwd opens) (triggerFile dName) fs =
      (some (), fs.insert (resolve cwd (entryAddr dName)) (.obj (turnedOff o))) := by
  unfold triggerFile
  dsimp only
  rw [exec_bind_some _ (exec_objectFromFile _), hopen, if_pos rfl, ho]
  simp only [newString, ret_bind, objectAdd]
  rw [exec_objectToFile_open hopen]
  rfl

variable (cwd opens fs) in
/-- The sweep of a file: it is turned off, or cannot be read and ends the process. -/
theorem exec_triggerFile_cases (dName : Bytes) :
    exec (dirSem cwd opens) (triggerFile dName) fs = (none, fs) ∨
    ∃ o, objAt cwd fs (entryAddr dName) = some o ∧
      exec (dirSem cwd opens) (triggerFile dName) fs =
        (some (), fs.insert (resolve cwd (entryAddr dName)) (.obj (turnedOff o))) := by
  have hnull (h : (if opens (entryAddr dName) then objAt cwd fs (entryAddr dName) else none) =
      none) : exec (dirSem cwd opens) (triggerFile dName) fs = (none, fs) := by
    unfold triggerFile
    dsimp only
    rw [exec_bind_some _ (exec_objectFromFile _), h]
    rfl
  rcases hopen : opens (entryAddr dName) with _ | _
  · exact Or.inl (hnull (by rw [hopen]; rfl))
  · rcases ho : objAt cwd fs (entryAddr dName) with _ | o
    · exact Or.inl (hnull (by rw [hopen, ho]; rfl))
    · exact Or.inr ⟨o, rfl, exec_triggerFile_open hopen ho⟩

/-- The streams whose files the next operation of a handler can write. -/
def Handler.Names (strmID : Option Bytes) : Handler → Option Bytes → Prop
  | .device _, file => file = strmID
  | .player p, file => ∃ o, p.next = some o ∧ fileOf o = some file
  | _, _ => False

variable (cwd fs) in
/-- The step to `fs'` writes nothing, or a whole record: to a file that is there, or to the file of
a stream among `names`. -/
def Wrote (names : Option Bytes → Prop) (fs' : Fs) : Prop :=
  fs' = fs ∨ ∃ p o, Whole o ∧ fs' = fs.insert p (.obj o) ∧
    (p ∈ fs ∨ ∃ file, names file ∧ p = recordPath cwd (percentS file))

theorem wrote_storeSem (hw : WholeFiles fs) {names : Option Bytes → Prop} (o : SrvrOp)
    (hn : ∀ file, fileOf o = some file → names file) :
    Wrote cwd fs names (storeSem (dirSem cwd opens) o fs).2 := by
  rcases storeSem_writes cwd opens hw o with he | ⟨file, r, hf, hr, he⟩
  · exact Or.inl he
  · exact Or.inr ⟨_, r, hr, he, Or.inr ⟨file, hn file hf, rfl⟩⟩

/-- A device thread works on the file of the stream named last. -/
theorem wrote_deviceSem (hw : WholeFiles fs) (strmID : Option Bytes) (o : SrvrOp) :
    Wrote cwd fs (· = strmID) (deviceSem (storeSem (dirSem cwd opens)) strmID o fs).2 := by
  cases o with
  | set jKey value file =>
    exact wrote_storeSem hw (.set jKey (if jKey = lit "streamId" then strmID else value) strmID)
      fun file hf => (Option.some.inj hf).symm
  | get jKey file =>
    exact wrote_storeSem hw (.get jKey strmID) fun file hf => (Option.some.inj hf).symm
  | send sock text => exact Or.inl rfl
  | lwsWrite text => exact Or.inl rfl

variable (cwd opens) in
theorem wrote_triggerFile (hw : WholeFiles fs) (dName : Bytes) (names : Option Bytes → Prop) :
    Wrote cwd fs names (exec (dirSem cwd opens) (triggerFile dName) fs).2 := by
  rcases exec_triggerFile_cases cwd opens fs dName with
    he | ⟨o, ho, he⟩
  · exact Or.inl (by rw [he])
  · refine Or.inr ⟨_, turnedOff o, (hw.objAt ho).add _ _, by rw [he], Or.inl ?_⟩
    rw [← AList.lookup_isSome, objAt_eq_some_iff.mp ho, Option.isSome_some]

/-- **A step of a handler** writes at most one whole record. -/
theorem wrote_step {h h' : Handler} {strmID : Option Bytes} (hw : WholeFiles fs)
    (hs : h.step (dirSem cwd opens) strmID fs = some (h', fs')) :
    Wrote cwd fs (h.Names strmID) fs' := by
  cases h with
  | device p =>
    obtain ⟨⟨p', fs1⟩, hp, he⟩ := Option.map_eq_some_iff.mp hs
    cases he
    obtain ⟨o, -, rfl⟩ := step_snd _ hp
    exact wrote_deviceSem hw strmID o
  | player p =>
    obtain ⟨⟨p', fs1⟩, hp, he⟩ := Option.map_eq_some_iff.mp hs
    cases he
    obtain ⟨o, ho, rfl⟩ := step_snd _ hp
    exact wrote_storeSem hw o fun file hf => ⟨o, ho, hf⟩
  | sweep es =>
    rcases es with _ | ⟨⟨dName, _ | _⟩, es⟩
    · cases hs
    · have hx := wrote_triggerFile cwd opens hw dName
        (Handler.Names strmID (.sweep ((dName, false) :: es)))
      simp only [Handler.step] at hs
      rcases he : exec (dirSem cwd opens) (triggerFile dName) fs with ⟨_ | _, fs1⟩ <;>
        rw [he] at hs hx <;> cases hs <;> exact hx
    · cases hs
      exact Or.inl rfl
  | crashed => cases hs

theorem Wrote.whole {names : Option Bytes → Prop} (h : Wrote cwd fs names fs')
    (hw : WholeFiles fs) : WholeFiles fs' := by
  obtain rfl | ⟨p, o, ho, rfl, -⟩ := h
  · exact hw
  · exact hw.insert p ho

/-- No file is removed. -/
theorem Wrote.mem {names : Option Bytes → Prop} (h : Wrote cwd fs names fs') {p : Path}
    (hp : p ∈ fs) : p ∈ fs' := by
  obtain rfl | ⟨q, o, ho, rfl, -⟩ := h
  · exact hp
  · exact AList.mem_insert _ |>.mpr (Or.inr hp)

/-- A step of the system writes at most one whole record. -/
theorem step_wrote {s s' : Sys} {l : Lbl} (hw : WholeFiles s.fs)
    (h : step (dirSem cwd opens) s l = some s') :
    Wrote cwd s.fs (fun file => ∃ h ∈ s.handlers, h.Names s.strmID file) s'.fs := by
  cases l with
  | report g msg =>
    cases h
    exact Or.inl rfl
  | request str =>
    cases h
    exact Or.inl rfl
  | sweep =>
    cases h
    exact Or.inl rfl
  | step i =>
    simp only [step] at h
    split at h
    · next hd hi =>
      obtain ⟨⟨hd', fs1⟩, hs, he⟩ := Option.map_eq_some_iff.mp h
      cases he
      rcases wrote_step hw hs with h | ⟨p, o, ho, hp, h⟩
      · exact Or.inl h
      · refine Or.inr ⟨p, o, ho, hp, h.imp_right ?_⟩
        rintro ⟨file, hn, hpath⟩
        exact ⟨file, ⟨hd, List.mem_of_getElem? hi, hn⟩, hpath⟩
    · cases h

/-- **Every file is whole**, in every run. -/
theorem whole_of_run {s : Sys} {ls : List Lbl}
    (hr : run (step (dirSem cwd opens)) .init ls = some s) : WholeFiles s.fs := by
  have hstep : ∀ s l s', WholeFiles s.fs → step (dirSem cwd opens) s l = some s' →
      WholeFiles s'.fs := fun s l s' hw h => (step_wrote hw h).whole hw
  exact inv_of_run hstep wholeFiles_empty hr

end Writes

end LiveStreamer.StreamerServer.Handlers
