import LiveStreamer.Lib.PathName
import LiveStreamer.Lib.Program
import LiveStreamer.Lib.Tokener
import Mathlib.Data.List.AList

/-! # The records of StreamerServer (`srvrJson.c`)

A record is a JSON object in a file of the directory `status/`. The functions are programs over
the file operations of json-c: read a whole file as an object, open it with truncation, write an
object into it. `fileSem` is their meaning when they succeed: a file holds the object that was
written last, or something that is no object (`bad`, as right after the truncation). -/

namespace LiveStreamer.StreamerServer.SrvrJson

open LiveStreamer.Lib.CString LiveStreamer.Lib.PathName LiveStreamer.Lib.Program
open LiveStreamer.Lib.Program.Prog LiveStreamer.Lib.Tokener

/-- What a file holds, as `json_object_from_file` sees it. -/
inductive File where
  | bad
  | obj (o : Obj)

/-- The files, each under the names that lead to it. -/
abbrev Fs := AList fun _ : Path => File

/-- The file operations. -/
inductive FileOp where
  /-- `json_object_from_file`: the object in the file, or NULL. -/
  | fromFile (fn : Bytes)
  /-- The `open` of `json_object_to_file`, which truncates; false if it fails. -/
  | openTrunc (fn : Bytes)
  /-- The `write` of `json_object_to_file`. -/
  | writeAll (fn : Bytes) (o : Obj)
  /-- `opendir` and `readdir`: names, and whether they are directories; none if it fails. -/
  | listDir (dir : Bytes)

/-- What the file operations answer. -/
@[reducible] def FileRet : FileOp → Type
  | .fromFile _ => Option Obj
  | .openTrunc _ => Bool
  | .writeAll _ _ => Unit
  | .listDir _ => Option (List (Bytes × Bool))

abbrev FileProg := Prog FileOp FileRet

/-- `json_object_from_file`. -/
def objectFromFile (fn : Bytes) : FileProg (Option Obj) := op (FileOp.fromFile fn)

/-- `json_object_to_file`. -/
def objectToFile (fn : Bytes) (jobj : Obj) : FileProg Unit :=
  call (FileOp.openTrunc fn) fun ok => if ok then op (FileOp.writeAll fn jobj) else ret ()

/-! ### The functions -/

/-- `json_object_new_string`, which takes the length of its argument. -/
def newString : Option Bytes → FileProg Json
  | some s => ret (.str s)
  | none => abort

/-- `json_object_object_add`, which needs an object. -/
def objectAdd (o : Option Obj) (jKey : Bytes) (v : Json) : FileProg Obj :=
  match o with
  | some o => ret (add o jKey v)
  | none => abort

def jsonFileWithAddr (file : Option Bytes) : Bytes :=
  snprintf 64 (lit "status/" ++ percentS file ++ lit ".json")

def jsonToFile (jobj : Obj) (file : Option Bytes) : FileProg Unit :=
  objectToFile (jsonFileWithAddr file) jobj

def newJsonFile (file : Option Bytes) : FileProg (Option Obj) := do
  let newEntry ← newString file
  let tempObj := add [] (lit "streamId") newEntry
  let tempObj := add tempObj (lit "status") (.str (lit "off"))
  let tempObj := add tempObj (lit "action") (.str (lit "live"))
  jsonToFile tempObj file
  objectFromFile (jsonFileWithAddr file)

def jsonFromFile (file : Option Bytes) : FileProg (Option Obj) := do
  match ← objectFromFile (jsonFileWithAddr file) with
  | none => newJsonFile file
  | some temp => ret (some temp)

def setJsonValue (jKey : Bytes) (value file : Option Bytes) : FileProg Unit := do
  let tempJson ← jsonFromFile file
  let newEntry ← newString value
  let tempJson ← objectAdd tempJson jKey newEntry
  jsonToFile tempJson file

def getJsonValueFromFile (jKey : Bytes) (file : Option Bytes) : FileProg (Option Bytes) := do
  let tempJson ← jsonFromFile file
  match tempJson.bind fun o => getEx o jKey with
  | some jValue => ret (getString jValue)
  | none => do
    let tempJson ← objectAdd tempJson (lit "action") (.str (lit "off"))
    jsonToFile tempJson file
    ret none

def getJsonValueFromObj (jKey : Bytes) (tempJson : Option Json) : Option Bytes :=
  memberString jKey tempJson

/-! ### The file operations that succeed -/

section Sem
variable (cwd : Path)

/-- The object a file name leads to. -/
def objAt (fs : Fs) (fn : Bytes) : Option Obj :=
  match fs.lookup (resolve cwd fn) with
  | some (.obj o) => some o
  | _ => none

/-- The name of a file as an entry of a directory. -/
def entryOf (dir file : Path) : Option Bytes :=
  if file.dropLast = dir then file.getLast? else none

/-- The entries of a directory of files. -/
def entries (dir : Path) (fs : Fs) : List (Bytes × Bool) :=
  (lit ".", true) :: (lit "..", true) ::
    (fs.keys.filterMap (entryOf dir)).map fun n => (n, false)

/-- The file operations when they succeed. -/
def fileSem : Sem FileOp FileRet Fs
  | .fromFile fn, fs => (some (objAt cwd fs fn), fs)
  | .openTrunc fn, fs => (some true, fs.insert (resolve cwd fn) .bad)
  | .writeAll fn o, fs => (some (), fs.insert (resolve cwd fn) (.obj o))
  | .listDir dir, fs => (some (some (entries (resolve cwd dir) fs)), fs)

/-- Where the record of a stream is. -/
def recordPath (s : Bytes) : Path := resolve cwd (jsonFileWithAddr (some s))

/-- The record a new file is given. -/
def defaults (s : Bytes) : Obj :=
  [(lit "streamId", .str s), (lit "status", .str (lit "off")), (lit "action", .str (lit "live"))]

/-- The record of a stream; one that is not there counts as holding the defaults. -/
def record (fs : Fs) (s : Bytes) : Obj := (objAt cwd fs (jsonFileWithAddr (some s))).getD (defaults s)

/-- Store a record. -/
def store (fs : Fs) (s : Bytes) (o : Obj) : Fs := fs.insert (recordPath cwd s) (.obj o)

variable {cwd} in
theorem objAt_eq_some_iff {fs : Fs} {fn : Bytes} {o : Obj} :
    objAt cwd fs fn = some o ↔ fs.lookup (resolve cwd fn) = some (.obj o) := by
  unfold objAt
  rcases fs.lookup (resolve cwd fn) with _ | (_ | o') <;> simp

variable {cwd} in
/-- Names of one file. -/
theorem objAt_congr {fn fn' : Bytes} (h : resolve cwd fn = resolve cwd fn') (fs : Fs) :
    objAt cwd fs fn = objAt cwd fs fn' := by
  rw [objAt, objAt, h]

theorem objAt_insert_self (fs : Fs) (fn : Bytes) (o : Obj) :
    objAt cwd (fs.insert (resolve cwd fn) (.obj o)) fn = some o := by
  simp [objAt, AList.lookup_insert]

theorem exec_objectToFile (fs : Fs) (fn : Bytes) (o : Obj) :
    exec (fileSem cwd) (objectToFile fn o) fs =
      (some (), fs.insert (resolve cwd fn) (.obj o)) := by
  show (_, (fs.insert (resolve cwd fn) .bad).insert (resolve cwd fn) (.obj o)) = _
  rw [AList.insert_insert]

theorem defaults_eq (s : Bytes) :
    add (add (add [] (lit "streamId") (.str s)) (lit "status") (.str (lit "off"))) (lit "action")
      (.str (lit "live")) = defaults s := by
  rw [show add [] (lit "streamId") (.str s) = [(lit "streamId", .str s)] from rfl]
  rfl

/-- What a load leaves: a new record where there was none. -/
def load (fs : Fs) (s : Bytes) : Fs :=
  if (objAt cwd fs (jsonFileWithAddr (some s))).isSome then fs else store cwd fs s (defaults s)

theorem exec_jsonFromFile (fs : Fs) (s : Bytes) :
    exec (fileSem cwd) (jsonFromFile (some s)) fs =
      (some (some (record cwd fs s)), load cwd fs s) := by
  have hread : fileSem cwd (.fromFile (jsonFileWithAddr (some s))) fs =
      (some (objAt cwd fs (jsonFileWithAddr (some s))), fs) := rfl
  unfold jsonFromFile objectFromFile
  rw [op_bind, exec_call_some _ hread]
  rcases h : objAt cwd fs (jsonFileWithAddr (some s)) with _ | o
  · simp only [newJsonFile, newString, ret_bind, jsonToFile, defaults_eq]
    rw [exec_bind_some _ (exec_objectToFile cwd fs _ _), objectFromFile, exec_op]
    simp [fileSem, objAt_insert_self, record, h, load, store, recordPath]
  · simp [record, load, h]

theorem store_load (fs : Fs) (s : Bytes) (o : Obj) :
    store cwd (load cwd fs s) s o = store cwd fs s o := by
  unfold load
  split_ifs
  · rfl
  · rw [store, store, store, AList.insert_insert]

/-- **`setJsonValue`** stores the record with the one field changed. -/
theorem exec_setJsonValue (fs : Fs) (jKey v s : Bytes) :
    exec (fileSem cwd) (setJsonValue jKey (some v) (some s)) fs =
      (some (), store cwd fs s (add (record cwd fs s) jKey (.str v))) := by
  unfold setJsonValue
  rw [exec_bind_some _ (exec_jsonFromFile cwd fs s)]
  simp only [newString, objectAdd, ret_bind, jsonToFile]
  rw [exec_objectToFile, ← store_load]
  rfl

/-- **`getJsonValueFromFile`** of a field that is there reads it. -/
theorem exec_getJsonValueFromFile {fs : Fs} {jKey s : Bytes} {j : Json}
    (h : getEx (record cwd fs s) jKey = some j) :
    exec (fileSem cwd) (getJsonValueFromFile jKey (some s)) fs =
      (some (getString j), load cwd fs s) := by
  unfold getJsonValueFromFile
  rw [exec_bind_some _ (exec_jsonFromFile cwd fs s)]
  simp [h]

/-- `getJsonValueFromFile` of a field that is missing sets the action to `off`. -/
theorem exec_getJsonValueFromFile_none {fs : Fs} {jKey s : Bytes}
    (h : getEx (record cwd fs s) jKey = none) :
    exec (fileSem cwd) (getJsonValueFromFile jKey (some s)) fs =
      (some none, store cwd fs s (add (record cwd fs s) (lit "action") (.str (lit "off")))) := by
  unfold getJsonValueFromFile
  rw [exec_bind_some _ (exec_jsonFromFile cwd fs s)]
  simp only [Option.bind_some, h, objectAdd, ret_bind, jsonToFile]
  rw [exec_bind_some _ (exec_objectToFile cwd _ _ _), exec_ret, ← store_load]
  rfl

/-! ### Records after an operation -/

theorem objAt_store_self (fs : Fs) (s : Bytes) (o : Obj) :
    objAt cwd (store cwd fs s o) (jsonFileWithAddr (some s)) = some o :=
  objAt_insert_self cwd fs _ o

theorem objAt_store_ne (fs : Fs) {s : Bytes} {fn : Bytes} (o : Obj)
    (h : resolve cwd fn ≠ recordPath cwd s) :
    objAt cwd (store cwd fs s o) fn = objAt cwd fs fn := by
  simp only [objAt, store]
  rw [AList.lookup_insert_ne h]

@[simp] theorem record_store_self (fs : Fs) (s : Bytes) (o : Obj) :
    record cwd (store cwd fs s o) s = o := by
  rw [record, objAt_store_self, Option.getD_some]

theorem record_store_ne (fs : Fs) {s t : Bytes} (o : Obj)
    (h : recordPath cwd t ≠ recordPath cwd s) :
    record cwd (store cwd fs s o) t = record cwd fs t := by
  rw [record, objAt_store_ne cwd fs o h, record]

theorem record_eq_defaults {fs : Fs} {s : Bytes}
    (h : objAt cwd fs (jsonFileWithAddr (some s)) = none) : record cwd fs s = defaults s := by
  rw [record, h, Option.getD_none]

@[simp] theorem record_load_self (fs : Fs) (s : Bytes) :
    record cwd (load cwd fs s) s = record cwd fs s := by
  unfold load
  split_ifs with h
  · rfl
  · rw [record_store_self, record_eq_defaults cwd (by simpa using h)]

theorem record_load_ne (fs : Fs) {s t : Bytes} (h : recordPath cwd t ≠ recordPath cwd s) :
    record cwd (load cwd fs s) t = record cwd fs t := by
  unfold load
  split_ifs
  · rfl
  · rw [record_store_ne cwd fs _ h]

/-! ### The stored action -/

variable (s : Bytes) in
/-- The stored action of a stream. -/
def storedAction (fs : Fs) : Option Bytes :=
  (getEx (record cwd fs s) (lit "action")).bind getString

theorem storedAction_store (fs : Fs) (s : Bytes) (o : Obj) :
    storedAction cwd s (store cwd fs s o) = (getEx o (lit "action")).bind getString := by
  rw [storedAction, record_store_self]

/-- Storing another field keeps the action. -/
theorem storedAction_set_other {fs : Fs} {jKey s : Bytes} (v : Bytes) (hk : jKey ≠ lit "action") :
    storedAction cwd s (store cwd fs s (add (record cwd fs s) jKey (.str v))) =
      storedAction cwd s fs := by
  rw [storedAction_store, getEx_add_ne _ _ hk, storedAction]

theorem storedAction_set {fs : Fs} {s v : Bytes} (h0 : (0 : UInt8) ∉ v) :
    storedAction cwd s (store cwd fs s (add (record cwd fs s) (lit "action") (.str v))) =
      some v := by
  rw [storedAction_store, getEx_add_self]
  exact getString_str h0

/-- A load finds what has just been stored. -/
@[simp] theorem load_store (fs : Fs) (s : Bytes) (o : Obj) :
    load cwd (store cwd fs s o) s = store cwd fs s o := by
  rw [load, objAt_store_self, Option.isSome_some, if_pos rfl]

@[simp] theorem store_store (fs : Fs) (s : Bytes) (o o' : Obj) :
    store cwd (store cwd fs s o) s o' = store cwd fs s o' := by
  rw [store, store, store, AList.insert_insert]

end Sem

/-! ### Whole records -/

/-- The fields of a record. -/
def keys : List Bytes := [lit "streamId", lit "status", lit "action"]

theorem mem_keys_status : lit "status" ∈ keys := by decide

theorem mem_keys_action : lit "action" ∈ keys := by decide

/-- Every field is there, and is a string. -/
def Whole (o : Obj) : Prop := ∀ k ∈ keys, ∃ v, getEx o k = some (.str v)

theorem whole_defaults (s : Bytes) : Whole (defaults s) := by
  intro k hk
  simp only [keys, List.mem_cons, List.not_mem_nil, or_false] at hk
  obtain rfl | rfl | rfl := hk
  · exact ⟨s, rfl⟩
  · exact ⟨lit "off", rfl⟩
  · exact ⟨lit "live", rfl⟩

theorem Whole.add {o : Obj} (h : Whole o) (jKey v : Bytes) : Whole (add o jKey (.str v)) := by
  intro k hk
  by_cases he : jKey = k
  · subst he
    exact ⟨v, getEx_add_self o jKey _⟩
  · rw [getEx_add_ne o _ he]
    exact h k hk

/-- Every record of the store is whole or not there. -/
def WholeStore (cwd : Path) (fs : Fs) : Prop := ∀ s, Whole (record cwd fs s)

theorem wholeStore_empty (cwd : Path) : WholeStore cwd ∅ := whole_defaults

theorem WholeStore.store {cwd : Path} {fs : Fs} (h : WholeStore cwd fs) (s : Bytes) {o : Obj}
    (ho : Whole o) : WholeStore cwd (store cwd fs s o) := by
  intro t
  by_cases hp : recordPath cwd t = recordPath cwd s
  · have : objAt cwd (SrvrJson.store cwd fs s o) (jsonFileWithAddr (some t)) = some o := by
      simp only [objAt, SrvrJson.store]
      rw [← hp, recordPath, AList.lookup_insert]
    rw [record, this]
    exact ho
  · rw [record_store_ne cwd fs o hp]
    exact h t

theorem WholeStore.load {cwd : Path} {fs : Fs} (h : WholeStore cwd fs) (s : Bytes) :
    WholeStore cwd (load cwd fs s) := by
  unfold SrvrJson.load
  split_ifs
  · exact h
  · exact h.store s (whole_defaults s)

end LiveStreamer.StreamerServer.SrvrJson
