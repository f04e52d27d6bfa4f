import LiveStreamer.StreamerServer.PlayerReply

/-! # Loads and saves that fail (`srvrJson.c`, `PlayerServer.c`)

`faultSem` is the meaning of the file operations when some of them fail: each operation takes the
next fault of a list. A read that fails gives NULL, whether the file cannot be opened, read or
parsed; an open that fails leaves the file; a write that fails leaves it truncated.

A load of a record that is there takes a NULL for a missing record and makes a new one over it
(`loadOf`), and no save is looked at (`saveOf`). So one failed read replaces the stored action by
`live`, and one failed write loses the record (`load_resets_record`); `honest_iff` says which
faults leave the stored fields and the answer to the player as they should be. -/

namespace LiveStreamer.StreamerServer.Failures

open LiveStreamer.Lib.CString LiveStreamer.Lib.PathName LiveStreamer.Lib.Program
open LiveStreamer.Lib.Program.Prog LiveStreamer.Lib.Tokener
open LiveStreamer.StreamerServer.SrvrJson LiveStreamer.StreamerServer.SrvrComm
open LiveStreamer.StreamerServer.PlayerServer
open LiveStreamer.StreamerServer.Handlers (storeSem)
open LiveStreamer.StreamerServer.Malformed LiveStreamer.StreamerServer.PlayerReply

/-! ### The file operations with faults -/

/-- The next operation fails; there are no more faults after the last. -/
abbrev fails (faults : List Bool) : Bool := faults.headD false

/-- The file operations, each of which takes the next fault. -/
def faultSem (cwd : Path) : Sem FileOp FileRet (Fs × List Bool)
  | .fromFile fn, (fs, faults) =>
    (some (if fails faults then none else objAt cwd fs fn), fs, faults.tail)
  | .openTrunc fn, (fs, faults) =>
    if fails faults then (some false, fs, faults.tail)
    else (some true, fs.insert (resolve cwd fn) .bad, faults.tail)
  | .writeAll fn o, (fs, faults) =>
    (some (), if fails faults then fs else fs.insert (resolve cwd fn) (.obj o), faults.tail)
  | .listDir dir, (fs, faults) => (some (some (entries (resolve cwd dir) fs)), fs, faults)

/-- What a save leaves of the file. -/
inductive Save where
  /-- The open fails. -/
  | untouched
  /-- The write fails after the truncation. -/
  | torn
  | saved
  deriving DecidableEq

/-- What becomes of a save, and the faults after it. -/
def saveOf (faults : List Bool) : Save × List Bool :=
  if fails faults then (.untouched, faults.tail)
  else if fails faults.tail then (.torn, faults.tail.tail)
  else (.saved, faults.tail.tail)

/-- What the load of a record that is there finds. -/
inductive Load where
  | found
  /-- NULL, and the record is as it was. -/
  | unread
  /-- NULL, and the record is lost. -/
  | torn
  /-- A new record in its place. -/
  | reset
  /-- NULL, and a new record in its place. -/
  | resetUnread
  deriving DecidableEq

/-- What becomes of a load, and the faults after it: if the read fails, a new record is saved and
the file is read again. -/
def loadOf (faults : List Bool) : Load × List Bool :=
  if fails faults then
    match (saveOf faults.tail).1, fails (saveOf faults.tail).2 with
    | .untouched, false => (.found, (saveOf faults.tail).2.tail)
    | .untouched, true => (.unread, (saveOf faults.tail).2.tail)
    | .torn, _ => (.torn, (saveOf faults.tail).2.tail)
    | .saved, false => (.reset, (saveOf faults.tail).2.tail)
    | .saved, true => (.resetUnread, (saveOf faults.tail).2.tail)
  else (.found, faults.tail)

/-! ### Honesty -/

/-- The fields of a record are the ones it had, apart from one that is to be set. -/
def Kept (o o' : Obj) (new : Option (Bytes × Bytes)) : Prop :=
  ∀ l ∈ keys, getEx o' l = getEx o l ∨ ∃ v, new = some (l, v) ∧ getEx o' l = some (.str v)

section Honest
variable (cwd : Path)

/-- Once the faults have passed, the record can be read and its fields are kept. -/
def Readable (fs : Fs) (s : Bytes) (o : Obj) (new : Option (Bytes × Bytes)) : Prop :=
  ∃ o', objAt cwd fs (jsonFileWithAddr (some s)) = some o' ∧ Kept o o' new

/-- What a save of a record leaves readable. -/
def SaveHonest (o before after : Obj) (new : Option (Bytes × Bytes)) : Save → Prop
  | .untouched => Kept o before new
  | .torn => False
  | .saved => Kept o after new

/-- **A store keeps the record**: its file is not torn, and no new record takes its place, or one
with the same fields. -/
def SetHonest (s jKey v : Bytes) (o : Obj) (faults : List Bool) : Prop :=
  match loadOf faults with
  | (.found, rest) => (saveOf rest).1 ≠ .torn
  | (.unread, _) => True
  | (.torn, _) => False
  | (.reset, rest) =>
    SaveHonest o (defaults s) (add (defaults s) jKey (.str v)) (some (jKey, v)) (saveOf rest).1
  | (.resetUnread, _) => Kept o (defaults s) (some (jKey, v))

/-- **A read keeps the record.** -/
def GetHonest (s : Bytes) (o : Obj) (faults : List Bool) : Prop :=
  match (loadOf faults).1 with
  | .found => True
  | .unread => True
  | .torn => False
  | .reset => Kept o (defaults s) none
  | .resetUnread => Kept o (defaults s) none

/-- The save that is acknowledged takes place, or the record in the file has the action. -/
def AckHonest (action : Bytes) (o : Obj) (faults : List Bool) : Prop :=
  match loadOf faults with
  | (.found, rest) =>
    (saveOf rest).1 = .untouched → getEx o (lit "action") = some (.str action)
  | (.reset, rest) => (saveOf rest).1 = .untouched → action = lit "live"
  | _ => True

/-- **A request keeps the record** of the stream, and its answer is right. -/
def RequestHonest (s str : Bytes) (o : Obj) (faults : List Bool) : Prop :=
  match field "action" str with
  | none => True
  | some action =>
    if action = lit "status" then GetHonest s o faults
    else SetHonest s (lit "action") action o faults ∧ AckHonest action o faults

/-- The field that a request sets. -/
def newField (str : Bytes) : Option (Bytes × Bytes) :=
  match field "action" str with
  | none => none
  | some action => if action = lit "status" then none else some (lit "action", action)

/-- What the handling of a request leaves: the stored fields, and an `ACK` only if the action is
stored. -/
def Answered (fs : Fs) (s str : Bytes) (o : Obj) (faults : List Bool) : Prop :=
  let r := exec (logged (storeSem (faultSem cwd))) (websocketWriteBack str) ((fs, faults), [])
  Readable cwd r.2.1.1 s o (newField str) ∧
    (lit "ACK" ∈ written r.2.2 → ∃ o' action, field "action" str = some action ∧
      objAt cwd r.2.1.1 (jsonFileWithAddr (some s)) = some o' ∧
      getEx o' (lit "action") = some (.str action))

/-! ### Loads and saves -/

/-- The store after a save. -/
def saveTo (fs : Fs) (fn : Bytes) (o : Obj) : Save → Fs
  | .untouched => fs
  | .torn => fs.insert (resolve cwd fn) .bad
  | .saved => fs.insert (resolve cwd fn) (.obj o)

/-- The store after the load of a record. -/
def loadTo (fs : Fs) (s : Bytes) : Load → Fs
  | .found => fs
  | .unread => fs
  | .torn => fs.insert (recordPath cwd s) .bad
  | .reset => store cwd fs s (defaults s)
  | .resetUnread => store cwd fs s (defaults s)

/-- The object that a load gives. -/
def loadedObj (s : Bytes) (o : Obj) : Load → Option Obj
  | .found => some o
  | .reset => some (defaults s)
  | _ => none

variable {cwd} {fs : Fs} {s : Bytes} {o : Obj} {faults : List Bool}

theorem objAt_insert_bad (fn : Bytes) : objAt cwd (fs.insert (resolve cwd fn) .bad) fn = none := by
  simp [objAt, AList.lookup_insert]

theorem exec_save (fn : Bytes) (r : Obj) :
    exec (faultSem cwd) (objectToFile fn r) (fs, faults) =
      (some (), saveTo cwd fs fn r (saveOf faults).1, (saveOf faults).2) := by
  unfold objectToFile saveOf
  rcases hf : fails faults with _ | _
  · have hopen : faultSem cwd (.openTrunc fn) (fs, faults) =
        (some true, fs.insert (resolve cwd fn) .bad, faults.tail) := by
      simp only [faultSem, hf]
      rfl
    rw [exec_call_some _ hopen, if_pos rfl, exec_op]
    rcases hf' : fails faults.tail with _ | _ <;>
      simp only [faultSem, hf', Bool.false_eq_true, if_false, if_true, saveTo, AList.insert_insert]
  · have hopen : faultSem cwd (.openTrunc fn) (fs, faults) = (some false, fs, faults.tail) := by
      simp only [faultSem, hf]
      rfl
    rw [exec_call_some _ hopen]
    rfl

theorem exec_read (fn : Bytes) : exec (faultSem cwd) (objectFromFile fn) (fs, faults) =
    (some (if fails faults then none else objAt cwd fs fn), fs, faults.tail) := by
  rw [objectFromFile, exec_op]
  rfl

variable (cwd fs) in
theorem objAt_saveTo (fn : Bytes) (r : Obj) (sv : Save) : objAt cwd (saveTo cwd fs fn r sv) fn =
    match sv with
    | .untouched => objAt cwd fs fn
    | .torn => none
    | .saved => some r := by
  cases sv with
  | untouched => rfl
  | torn => exact objAt_insert_bad fn
  | saved => exact objAt_insert_self cwd fs fn r

/-- **The load of a record that is there.** -/
theorem exec_load (ho : objAt cwd fs (jsonFileWithAddr (some s)) = some o) :
    exec (faultSem cwd) (jsonFromFile (some s)) (fs, faults) =
      (some (loadedObj s o (loadOf faults).1), loadTo cwd fs s (loadOf faults).1,
        (loadOf faults).2) := by
  unfold jsonFromFile loadOf
  rw [exec_bind_some _ (exec_read _)]
  rcases hf : fails faults with _ | _
  · rw [if_neg Bool.false_ne_true, if_neg Bool.false_ne_true, ho]
    rfl
  · rw [if_pos rfl, if_pos rfl]
    simp only [newJsonFile, newString, ret_bind, jsonToFile, defaults_eq]
    rw [exec_bind_some _ (exec_save _ _), exec_read, objAt_saveTo]
    rcases hs : (saveOf faults.tail).1 with _ | _ | _ <;>
      rcases hr : fails (saveOf faults.tail).2 with _ | _ <;>
      simp [saveTo, loadedObj, loadTo, ho, store, recordPath]

theorem objAt_loadTo (ho : objAt cwd fs (jsonFileWithAddr (some s)) = some o) (l : Load) :
    objAt cwd (loadTo cwd fs s l) (jsonFileWithAddr (some s)) =
      match l with
      | .found => some o
      | .unread => some o
      | .torn => none
      | .reset => some (defaults s)
      | .resetUnread => some (defaults s) := by
  cases l with
  | found => exact ho
  | unread => exact ho
  | torn => exact objAt_insert_bad _
  | reset => exact objAt_store_self cwd fs s _
  | resetUnread => exact objAt_store_self cwd fs s _

/-- A store of a field under faults: without an object it aborts. -/
theorem exec_set_faults (ho : objAt cwd fs (jsonFileWithAddr (some s)) = some o) (jKey v : Bytes) :
    exec (faultSem cwd) (setJsonValue jKey (some v) (some s)) (fs, faults) =
      match loadedObj s o (loadOf faults).1 with
      | some r => (some (), saveTo cwd (loadTo cwd fs s (loadOf faults).1)
          (jsonFileWithAddr (some s)) (add r jKey (.str v)) (saveOf (loadOf faults).2).1,
          (saveOf (loadOf faults).2).2)
      | none => (none, loadTo cwd fs s (loadOf faults).1, (loadOf faults).2) := by
  unfold setJsonValue
  rw [exec_bind_some _ (exec_load ho)]
  rcases loadedObj s o (loadOf faults).1 with _ | r
  · rfl
  · simp only [newString, objectAdd, ret_bind, jsonToFile]
    rw [exec_save]

/-- A read of a field under faults. -/
theorem exec_get_faults (ho : objAt cwd fs (jsonFileWithAddr (some s)) = some o) (hw : Whole o)
    {jKey : Bytes} (hk : jKey ∈ keys) :
    exec (faultSem cwd) (getJsonValueFromFile jKey (some s)) (fs, faults) =
      (match loadedObj s o (loadOf faults).1 with
        | some r => (getEx r jKey).map getString
        | none => none, loadTo cwd fs s (loadOf faults).1, (loadOf faults).2) := by
  unfold getJsonValueFromFile
  rw [exec_bind_some _ (exec_load ho)]
  rcases hl : loadedObj s o (loadOf faults).1 with _ | r
  · rfl
  · have hr : Whole r := by
      cases h : (loadOf faults).1 <;> rw [h] at hl <;> cases hl
      · exact hw
      · exact whole_defaults s
    obtain ⟨u, hu⟩ := hr jKey hk
    simp [hu]

/-! ### What the calls keep -/

theorem kept_self (o : Obj) (new : Option (Bytes × Bytes)) : Kept o o new := fun _ _ => Or.inl rfl

theorem kept_add (o : Obj) (jKey v : Bytes) : Kept o (add o jKey (.str v)) (some (jKey, v)) := by
  intro l _
  by_cases he : jKey = l
  · subst he
    exact Or.inr ⟨v, rfl, getEx_add_self ..⟩
  · exact Or.inl (getEx_add_ne _ _ he)

theorem readable_of_some {o' : Obj} {new : Option (Bytes × Bytes)}
    (h : objAt cwd fs (jsonFileWithAddr (some s)) = some o') :
    Readable cwd fs s o new ↔ Kept o o' new := by
  constructor
  · rintro ⟨o1, h1, hk⟩
    rw [h] at h1
    cases h1
    exact hk
  · exact fun hk => ⟨o', h, hk⟩

theorem readable_of_none {new : Option (Bytes × Bytes)}
    (h : objAt cwd fs (jsonFileWithAddr (some s)) = none) : ¬ Readable cwd fs s o new := by
  rintro ⟨o1, h1, -⟩
  rw [h] at h1
  cases h1

/-- The record after a save over the object `r`. -/
theorem readable_saveTo {r r' : Obj} {new : Option (Bytes × Bytes)}
    (h : objAt cwd fs (jsonFileWithAddr (some s)) = some r) (sv : Save) :
    Readable cwd (saveTo cwd fs (jsonFileWithAddr (some s)) r' sv) s o new ↔
      SaveHonest o r r' new sv := by
  have hobj := objAt_saveTo cwd fs (jsonFileWithAddr (some s)) r' sv
  cases sv with
  | untouched => exact readable_of_some h
  | torn => exact iff_of_false (readable_of_none hobj) id
  | saved => exact readable_of_some hobj

/-- A save over the record itself keeps it unless the file is torn. -/
theorem saveHonest_iff (o : Obj) (jKey v : Bytes) (sv : Save) :
    SaveHonest o o (add o jKey (.str v)) (some (jKey, v)) sv ↔ sv ≠ .torn := by
  cases sv with
  | untouched => exact iff_of_true (kept_self o _) (by decide)
  | torn => exact iff_of_false id (by decide)
  | saved => exact iff_of_true (kept_add o jKey v) (by decide)

variable (faults) in
/-- **When a store keeps the record.** -/
theorem readable_set_iff (ho : objAt cwd fs (jsonFileWithAddr (some s)) = some o) (jKey v : Bytes) :
    Readable cwd (exec (faultSem cwd) (setJsonValue jKey (some v) (some s)) (fs, faults)).2.1 s o
      (some (jKey, v)) ↔ SetHonest s jKey v o faults := by
  have hload := objAt_loadTo ho (loadOf faults).1
  rw [exec_set_faults ho, SetHonest]
  rcases hl : loadOf faults with ⟨_ | _ | _ | _ | _, rest⟩ <;> rw [hl] at hload
  · -- the record is read
    exact (readable_saveTo hload _).trans (saveHonest_iff o jKey v _)
  · exact iff_of_true ((readable_of_some hload).mpr (kept_self o _)) trivial
  · exact iff_of_false (readable_of_none hload) id
  · exact readable_saveTo hload _
  · exact readable_of_some hload

variable (faults) in
/-- **When a read keeps the record.** -/
theorem readable_get_iff (ho : objAt cwd fs (jsonFileWithAddr (some s)) = some o) (hw : Whole o)
    {jKey : Bytes} (hk : jKey ∈ keys) :
    Readable cwd (exec (faultSem cwd) (getJsonValueFromFile jKey (some s)) (fs, faults)).2.1 s o
      none ↔ GetHonest s o faults := by
  have hload := objAt_loadTo ho (loadOf faults).1
  rw [exec_get_faults ho hw hk, GetHonest]
  rcases hl : (loadOf faults).1 with _ | _ | _ | _ | _ <;> rw [hl] at hload
  · exact iff_of_true ((readable_of_some hload).mpr (kept_self o _)) trivial
  · exact iff_of_true ((readable_of_some hload).mpr (kept_self o _)) trivial
  · exact iff_of_false (readable_of_none hload) id
  · exact readable_of_some hload
  · exact readable_of_some hload

/-! ### What a request leaves -/

/-- The answer to a status query is no `ACK`. -/
theorem statusReply_ne_ack (strmID status : Option Bytes) :
    statusReply strmID status ≠ lit "ACK" := by
  intro h
  have hhead := congrArg List.head? h
  simp [statusReply, lit] at hhead

/-- A request without an action does nothing. -/
theorem answered_null {str : Bytes} (ho : objAt cwd fs (jsonFileWithAddr (some s)) = some o)
    (ha : field "action" str = none) : Answered cwd fs s str o faults := by
  unfold Answered
  rw [websocketWriteBack_null ha]
  exact ⟨(readable_of_some ho).mpr (kept_self o _), fun h => absurd h List.not_mem_nil⟩

/-- A status query. -/
theorem answered_query_iff {str : Bytes} (ho : objAt cwd fs (jsonFileWithAddr (some s)) = some o)
    (hw : Whole o) (hid : field "streamId" str = some s)
    (ha : field "action" str = some (lit "status")) :
    Answered cwd fs s str o faults ↔ GetHonest s o faults := by
  have hnew : newField str = none := by simp [newField, ha]
  have hget : storeSem (faultSem cwd) (.get (lit "status") (some s)) (fs, faults) =
      exec (faultSem cwd) (getJsonValueFromFile (lit "status") (some s)) (fs, faults) := rfl
  have hiff := readable_get_iff faults ho hw mem_keys_status
  rw [← hiff, Answered, hnew, websocketWriteBack_status ha, hid]
  rcases hx : exec (faultSem cwd) (getJsonValueFromFile (lit "status") (some s)) (fs, faults) with
    ⟨_ | r, st⟩
  · have hlog : logged (storeSem (faultSem cwd)) (.get (lit "status") (some s))
        ((fs, faults), []) = (none, st, [.get (lit "status") (some s)]) := by
      rw [logged, hget, hx]
      rfl
    rw [exec_call_none _ hlog]
    exact and_iff_left fun h => absurd h List.not_mem_nil
  · have hwrite : ∀ t st', storeSem (faultSem cwd) (.lwsWrite t) st' = (some (), st') :=
      fun t st' => rfl
    rw [exec_logged_some (hget.trans hx), exec_logged_some (hwrite _ _), exec_ret]
    refine and_iff_left fun h => ?_
    exact absurd (List.mem_singleton.mp h).symm (statusReply_ne_ack _ _)

/-- The action of the record after a save that sets it. -/
theorem stored_saveTo {r : Obj} (action : Bytes) {sv : Save}
    (h : objAt cwd fs (jsonFileWithAddr (some s)) = some r) (hsv : sv ≠ .torn) :
    (∃ o', objAt cwd (saveTo cwd fs (jsonFileWithAddr (some s))
        (add r (lit "action") (.str action)) sv) (jsonFileWithAddr (some s)) = some o' ∧
        getEx o' (lit "action") = some (.str action)) ↔
      (sv = .untouched → getEx r (lit "action") = some (.str action)) := by
  rw [objAt_saveTo]
  cases sv with
  | untouched =>
    constructor
    · rintro ⟨o', ho', hact⟩ -
      rw [h] at ho'
      cases ho'
      exact hact
    · exact fun hact => ⟨r, h, hact rfl⟩
  | torn => exact absurd rfl hsv
  | saved => exact iff_of_true ⟨_, rfl, getEx_add_self ..⟩ fun h => nomatch h

/-- A command. -/
theorem answered_command_iff {str action : Bytes}
    (ho : objAt cwd fs (jsonFileWithAddr (some s)) = some o)
    (hid : field "streamId" str = some s) (ha : field "action" str = some action)
    (hne : action ≠ lit "status") : Answered cwd fs s str o faults ↔
      SetHonest s (lit "action") action o faults ∧ AckHonest action o faults := by
  have hnew : newField str = some (lit "action", action) := by simp [newField, ha, hne]
  have hset : storeSem (faultSem cwd) (.set (lit "action") (some action) (some s)) (fs, faults) =
      exec (faultSem cwd) (setJsonValue (lit "action") (some action) (some s)) (fs, faults) := rfl
  have hiff := readable_set_iff faults ho (lit "action") action
  have hload := objAt_loadTo ho (loadOf faults).1
  rw [← hiff, Answered, hnew, websocketWriteBack_set ha hne, hid]
  rw [exec_set_faults ho] at hset hiff ⊢
  rcases hl : loadedObj s o (loadOf faults).1 with _ | r
  · -- the process ends before the answer
    rw [hl] at hset
    have hlog : logged (storeSem (faultSem cwd)) (.set (lit "action") (some action) (some s))
        ((fs, faults), []) = (none, (loadTo cwd fs s (loadOf faults).1, (loadOf faults).2),
          [.set (lit "action") (some action) (some s)]) := by
      rw [logged, hset]
      rfl
    rw [exec_call_none _ hlog]
    refine and_congr_right fun _ => iff_of_true (fun h => absurd h List.not_mem_nil) ?_
    unfold AckHonest
    split
    · next he =>
      rw [he] at hl
      cases hl
    · next he =>
      rw [he] at hl
      cases hl
    · trivial
  · rw [hl] at hset hiff
    have hwrite : ∀ t st', storeSem (faultSem cwd) (.lwsWrite t) st' = (some (), st') :=
      fun t st' => rfl
    rw [exec_logged_some hset, exec_logged_some (hwrite _ _), exec_ret]
    refine and_congr_right fun hread => ?_
    have hobj : objAt cwd (loadTo cwd fs s (loadOf faults).1) (jsonFileWithAddr (some s)) =
        some r := by
      rw [hload]
      rcases hk : (loadOf faults).1 with _ | _ | _ | _ | _ <;> rw [hk] at hl <;> cases hl <;> rfl
    have hsv : (saveOf (loadOf faults).2).1 ≠ .torn := by
      intro ht
      have hs := (readable_saveTo hobj _).mp hread
      rw [ht] at hs
      exact hs
    have hstored := stored_saveTo action hobj hsv
    have hmem : lit "ACK" ∈ written ([] ++ [.set (lit "action") (some action) (some s)] ++
        [.lwsWrite (lit "ACK")]) := List.mem_singleton_self _
    have hack : AckHonest action o faults ↔
        ((saveOf (loadOf faults).2).1 = .untouched →
          getEx r (lit "action") = some (.str action)) := by
      unfold AckHonest
      rcases hk : loadOf faults with ⟨_ | _ | _ | _ | _, rest⟩ <;> rw [hk] at hl <;> cases hl
      · exact Iff.rfl
      · -- a new record has the action `live`
        refine imp_congr_right fun _ => ?_
        constructor
        · rintro rfl
          rfl
        · intro h
          cases h
          rfl
    rw [hack, ← hstored]
    constructor
    · intro h
      obtain ⟨o', action', hf, h1, h2⟩ := h hmem
      rw [ha] at hf
      cases hf
      exact ⟨o', h1, h2⟩
    · rintro ⟨o', h1, h2⟩ -
      exact ⟨o', action, ha, h1, h2⟩

variable (cwd) in
/-- **When failing loads and saves leave the record and the answer honest**: no write fails after its
truncation, and the record is read, or cannot be replaced, or is replaced by one with the same
fields; and the save that is acknowledged takes place. -/
theorem honest_iff (ho : objAt cwd fs (jsonFileWithAddr (some s)) = some o) (hw : Whole o)
    (faults : List Bool) :
    (∀ jKey v, Readable cwd
        (exec (faultSem cwd) (setJsonValue jKey (some v) (some s)) (fs, faults)).2.1 s o
        (some (jKey, v)) ↔ SetHonest s jKey v o faults) ∧
    (∀ jKey ∈ keys, Readable cwd
        (exec (faultSem cwd) (getJsonValueFromFile jKey (some s)) (fs, faults)).2.1 s o none ↔
          GetHonest s o faults) ∧
    ∀ str, field "streamId" str = some s →
      (Answered cwd fs s str o faults ↔ RequestHonest s str o faults) := by
  refine ⟨readable_set_iff faults ho, fun jKey hk => readable_get_iff faults ho hw hk,
    fun str hid => ?_⟩
  unfold RequestHonest
  split
  · next ha => exact iff_of_true (answered_null ho ha) trivial
  · next action ha =>
    split_ifs with hq
    · subst hq
      exact answered_query_iff ho hw hid ha
    · exact answered_command_iff ho hid ha hq

end Honest

/-- The record of a live stream that a player has turned off. -/
def turning : Obj :=
  [(lit "streamId", .str (lit "a")), (lit "status", .str (lit "live")),
    (lit "action", .str (lit "off"))]

theorem whole_turning : Whole turning := by
  intro k hk
  simp only [keys, List.mem_cons, List.not_mem_nil, or_false] at hk
  obtain rfl | rfl | rfl := hk
  · exact ⟨lit "a", rfl⟩
  · exact ⟨lit "live", rfl⟩
  · exact ⟨lit "off", rfl⟩

theorem objAt_turning :
    objAt [] (store [] ∅ (lit "a") turning) (jsonFileWithAddr (some (lit "a"))) = some turning :=
  objAt_store_self [] ∅ _ turning

/-- Neither the read nor the open that follows it succeeds: the record stays, and is read again. -/
theorem honest_iff_turning : Readable [] (exec (faultSem [])
    (setJsonValue (lit "status") (some (lit "local")) (some (lit "a")))
      (store [] ∅ (lit "a") turning, [true, true])).2.1 (lit "a") turning
        (some (lit "status", lit "local")) := by
  have hload : loadOf [true, true] = (.found, []) := rfl
  have hsave : (saveOf []).1 = .saved := rfl
  refine ((honest_iff [] objAt_turning whole_turning [true, true]).1 _ _).mpr ?_
  rw [SetHonest, hload]
  show (saveOf []).1 ≠ .torn
  rw [hsave]
  decide

/-- **One failed read resets a record**: the stored action is replaced by `live`. -/
theorem load_resets_record :
    ¬ ∀ (cwd : Path) (fs : Fs) (s : Bytes) (o : Obj) (faults : List Bool),
      objAt cwd fs (jsonFileWithAddr (some s)) = some o → Whole o →
        (∀ jKey v, Readable cwd
          (exec (faultSem cwd) (setJsonValue jKey (some v) (some s)) (fs, faults)).2.1 s o
          (some (jKey, v))) ∧
        (∀ jKey ∈ keys, Readable cwd
          (exec (faultSem cwd) (getJsonValueFromFile jKey (some s)) (fs, faults)).2.1 s o none) ∧
        ∀ str, field "streamId" str = some s → Answered cwd fs s str o faults := by
  intro h
  have hget := (h [] _ _ _ [true] objAt_turning whole_turning).2.1 _ mem_keys_action
  have hload : (loadOf [true]).1 = .reset := rfl
  rw [readable_get_iff [true] objAt_turning whole_turning mem_keys_action, GetHonest, hload] at hget
  rcases hget _ mem_keys_action with hk | ⟨v, hv, -⟩
  · have h1 : getEx (defaults (lit "a")) (lit "action") = some (.str (lit "live")) := rfl
    have h2 : getEx turning (lit "action") = some (.str (lit "off")) := rfl
    rw [h1, h2] at hk
    simp only [Option.some.injEq, Json.str.injEq] at hk
    exact absurd hk (by decide)
  · cases hv

end LiveStreamer.StreamerServer.Failures
