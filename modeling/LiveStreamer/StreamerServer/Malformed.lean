import LiveStreamer.StreamerServer.Records

/-! # Malformed messages (`srvrComm.c`, `PlayerServer.c`, `srvrJson.c`)

A field that is missing is a NULL. `Tolerates` says that a handler comes to its end all the same,
and that it changes no file when a field it needs is missing. A reply that is too long for the
buffers of the player thread has no end (`bufferSem`). The handlers look at no field before they
use it: a message without a status ends the process, also the empty one that stands for the end of
a connection (`closed_ends_server`), and a message without a stream is taken for one of the stream
named last. `tolerates_iff` says which messages are tolerated. -/

namespace LiveStreamer.StreamerServer.Malformed

open LiveStreamer.Lib.CString LiveStreamer.Lib.PathName LiveStreamer.Lib.Program
open LiveStreamer.Lib.Program.Prog LiveStreamer.Lib.Run LiveStreamer.Lib.Tokener
open LiveStreamer.StreamerServer.SrvrJson LiveStreamer.StreamerServer.SrvrComm
open LiveStreamer.StreamerServer.PlayerServer LiveStreamer.StreamerServer.Sweep
open LiveStreamer.StreamerServer.Handlers LiveStreamer.StreamerServer.Records

section Malformed
variable (cwd : Path) (opens : Bytes → Bool)

/-- A handler runs to its end, and if a field is missing it leaves every file as it was. -/
def Tolerates {α : Type} (sem : Sem SrvrOp SrvrRet Fs) (fs : Fs) (missing : Prop)
    (p : SrvrProg α) : Prop :=
  (exec sem p fs).1.isSome = true ∧ (missing → ∀ q, (exec sem p fs).2.lookup q = fs.lookup q)

/-- The operations with the buffers of the player thread: a text that `tempBufP` and `out` do not
hold is written over what comes after them. -/
def bufferSem (sem : Sem SrvrOp SrvrRet Fs) : Sem SrvrOp SrvrRet Fs
  | .lwsWrite text, fs => if FitsBuffer text then sem (.lwsWrite text) fs else (none, fs)
  | .set jKey value file, fs => sem (.set jKey value file) fs
  | .get jKey file, fs => sem (.get jKey file) fs
  | .send sock text, fs => sem (.send sock text) fs

/-- The message of a device is tolerated. -/
def DeviceTolerates (s : Sys) (g : Globals) (msg : Bytes) : Prop :=
  Tolerates (storeSem (dirSem cwd opens)) s.fs
    (field "streamId" msg = none ∨ field "status" msg = none) (msgParse (s.globals g) msg)

/-- The request of a player is tolerated. -/
def PlayerTolerates (s : Sys) (str : Bytes) : Prop :=
  Tolerates (bufferSem (storeSem (dirSem cwd opens))) s.fs
    (field "streamId" str = none ∨ field "action" str = none) (websocketWriteBack str)

/-- The record can be loaded: its file can be opened, and the file of a NULL, which is that of the
stream `(null)`, is there. -/
def Loads (fs : Fs) (file : Option Bytes) : Prop :=
  opens (jsonFileWithAddr file) = true ∧ (file = none → Present cwd fs (lit "(null)"))

/-- The record holds what the report of a status would store. -/
def Holds (fs : Fs) (id status : Bytes) : Prop :=
  Present cwd fs id ∧ getEx (record cwd fs id) (lit "streamId") = some (.str id) ∧
    getEx (record cwd fs id) (lit "status") = some (.str status) ∧
    ∀ a, getEx (record cwd fs id) (lit "action") = some (.str a) → Acks status (cstr a) →
      a = lit "done"

/-- A message with a status, of a stream whose record can be loaded: the one it names, or the one
named last, and then one whose record stays as it is. -/
def DeviceGood (s : Sys) (msg : Bytes) : Prop :=
  ∃ id status, (field "streamId" msg).or s.strmID = some id ∧ field "status" msg = some status ∧
    opens (jsonFileWithAddr (some id)) = true ∧
    (field "streamId" msg = none → Holds cwd s.fs id status)

/-- The stored status of a stream. -/
def storedStatus (fs : Fs) (id : Bytes) : Option Bytes :=
  (getEx (record cwd fs id) (lit "status")).bind getString

/-- The name of the stream that a request prints and its stored status leave the reply to a status
query within its buffer. -/
def ReplyFits (fs : Fs) (str : Bytes) : Prop :=
  ∀ status, storedStatus cwd fs (percentS (field "streamId" str)) = some status →
    (percentS (field "streamId" str)).length + status.length ≤ 227

/-- A request with an action, on a record that can be loaded: if it asks for the status, the reply
fits; without a stream, it asks for the status, or its action is the stored one. -/
def PlayerGood (s : Sys) (str : Bytes) : Prop :=
  ∃ action, field "action" str = some action ∧ Loads cwd opens s.fs (field "streamId" str) ∧
    (action = lit "status" → ReplyFits cwd s.fs str) ∧
    (field "streamId" str = none → action = lit "status" ∨
      getEx (record cwd s.fs (lit "(null)")) (lit "action") = some (.str action))

variable {cwd opens} {fs : Fs}

/-! ### Stores that change nothing -/

theorem add_eq_self {o : Obj} {k : Bytes} {v : Json} (h : getEx o k = some v) : add o k v = o := by
  induction o with
  | nil => cases h
  | cons p o ih =>
    obtain ⟨k', v'⟩ := p
    unfold getEx at h
    unfold add
    split_ifs at h ⊢ with he
    · cases h
      rw [he]
    · rw [ih h]

/-- A store of a record changes no file if the record is there. -/
theorem store_unchanged {id : Bytes} {o : Obj} :
    (∀ q, (store cwd fs id o).lookup q = fs.lookup q) ↔
      objAt cwd fs (jsonFileWithAddr (some id)) = some o := by
  rw [objAt_eq_some_iff, ← recordPath]
  constructor
  · intro h
    have hp := h (recordPath cwd id)
    rw [store, AList.lookup_insert] at hp
    exact hp.symm
  · intro h q
    by_cases he : q = recordPath cwd id
    · rw [he, store, AList.lookup_insert, h]
    · rw [store, AList.lookup_insert_ne he]

theorem objAt_eq_some {id : Bytes} {o : Obj} :
    objAt cwd fs (jsonFileWithAddr (some id)) = some o ↔
      Present cwd fs id ∧ record cwd fs id = o := by
  unfold Present record
  rcases objAt cwd fs (jsonFileWithAddr (some id)) with _ | o' <;> simp

/-! ### The fields after a report -/

section Fields
variable (id status a : Bytes) (o : Obj)

theorem getEx_answered_streamId :
    getEx (answered id status a o) (lit "streamId") = some (.str id) := by
  have hr : getEx (reported id status o) (lit "streamId") = some (.str id) := by
    rw [reported, getEx_add_ne _ _ (by decide), getEx_add_self]
  unfold answered
  split_ifs
  · rw [getEx_add_ne _ _ (by decide), hr]
  · exact hr

theorem getEx_answered_action (h : Acks status a) :
    getEx (answered id status a o) (lit "action") = some (.str (lit "done")) := by
  rw [answered, if_pos h, getEx_add_self]

variable {id status a o}

/-- A report of what is stored leaves the record as it is. -/
theorem answered_eq_self (h1 : getEx o (lit "streamId") = some (.str id))
    (h2 : getEx o (lit "status") = some (.str status))
    (h3 : Acks status a → getEx o (lit "action") = some (.str (lit "done"))) :
    answered id status a o = o := by
  have hr : reported id status o = o := by
    rw [reported, add_eq_self h1, add_eq_self h2]
  rw [answered, hr]
  split_ifs with h
  · exact add_eq_self (h3 h)
  · rfl

end Fields

/-- A report leaves the record it finds if it holds all that is stored. -/
theorem holds_iff {id status a : Bytes}
    (ha : getEx (record cwd fs id) (lit "action") = some (.str a)) :
    objAt cwd fs (jsonFileWithAddr (some id)) =
      some (answered id status (cstr a) (record cwd fs id)) ↔ Holds cwd fs id status := by
  rw [objAt_eq_some]
  constructor
  · rintro ⟨hp, he⟩
    refine ⟨hp, ?_, ?_, fun a' ha' hA => ?_⟩
    · rw [he]
      exact getEx_answered_streamId ..
    · rw [he]
      exact getEx_answered_status ..
    · have haa : a' = a := by
        rw [ha] at ha'
        cases ha'
        rfl
      rw [haa] at hA ha'
      rw [he, getEx_answered_action _ _ _ _ hA] at ha'
      rw [haa]
      cases ha'
      rfl
  · rintro ⟨hp, h1, h2, h3⟩
    refine ⟨hp, (answered_eq_self h1 h2 fun hA => ?_).symm⟩
    rw [ha, h3 a ha hA]

/-! ### The handling of a device message -/

/-- Everything a device handler does is done to the stream of its message. -/
theorem calls_msgParse {g : Globals} {msg id status : Bytes}
    (hid : streamOf g (tokenerParse msg) = some id) (hst : field "status" msg = some status)
    {P : SrvrOp → Prop} (h : ∀ o, (∀ file, fileOf o = some file → file = some id) → P o) :
    Calls P (msgParse g msg) := by
  have hset : ∀ k v, P (.set k v (some id)) := fun k v =>
    h _ fun file hf => (Option.some.inj hf).symm
  have hget : ∀ k, P (.get k (some id)) := fun k => h _ fun file hf => (Option.some.inj hf).symm
  have hsend : ∀ sock t, P (.send sock t) := fun sock t => h _ fun file hf => nomatch hf
  have hack : Calls P (SIGAck { g with strmID := some id }) :=
    ⟨hsend _ _, fun _ => ⟨hset _ _, fun _ => trivial⟩⟩
  have hact : Calls P (SIGAct { g with strmID := some id }) :=
    ⟨hget _, fun _ => ⟨hsend _ _, fun _ => trivial⟩⟩
  have hwith : ∀ k, (∀ a, Calls P (k a)) → Calls P (withAction { g with strmID := some id } k) := by
    intro k hk
    refine ⟨hget _, fun r => ?_⟩
    rcases r with _ | a
    · trivial
    · exact hk a
  have hcmp : Calls P (compareStatus { g with strmID := some id } status) :=
    hwith _ fun a => by split_ifs <;> assumption
  rw [msgParse_eq g hid hst]
  refine ⟨hset _ _, fun _ => ⟨hset _ _, fun _ => ⟨hget _, fun _ => hwith _ fun a => ?_⟩⟩⟩
  split_ifs
  · exact hack
  · exact hwith _ fun a => by split_ifs <;> assumption
  · exact hcmp

/-- A store operation on a file that can be opened. -/
theorem storeSem_of_opens {o : SrvrOp}
    (h : ∀ file, fileOf o = some file → opens (jsonFileWithAddr file) = true) (fs : Fs) :
    storeSem (dirSem cwd opens) o fs = srvrSem cwd o fs := by
  have hl : ∀ file, opens (jsonFileWithAddr file) = true →
      loads cwd opens fs file = loads cwd (fun _ => true) fs file := by
    intro file ho
    simp [loads, ho]
  have hld : ∀ file, opens (jsonFileWithAddr file) = true →
      loaded cwd opens fs file = loaded cwd (fun _ => true) fs file := by
    intro file ho
    simp [loaded, ho]
  cases o with
  | set jKey value file =>
    have ho := h file rfl
    simp only [storeSem, srvrSem, fileSem_eq]
    rcases hr : loads cwd opens fs file with _ | r
    · rw [exec_set_of_none hr, exec_set_of_none (hl file ho ▸ hr)]
    · rcases value with _ | v
      · rw [exec_set_null, exec_set_null, hld file ho]
      · rw [exec_set hr, exec_set (hl file ho ▸ hr)]
  | get jKey file =>
    have ho := h file rfl
    simp only [storeSem, srvrSem, fileSem_eq]
    rcases hr : loads cwd opens fs file with _ | r
    · rw [exec_get_of_none hr, exec_get_of_none (hl file ho ▸ hr)]
    · rcases hj : getEx r jKey with _ | j
      · rw [exec_get_missing hr hj, exec_get_missing (hl file ho ▸ hr) hj]
      · rw [exec_get hr hj, exec_get (hl file ho ▸ hr) hj, hld file ho]
  | send sock text => rfl
  | lwsWrite text => rfl

/-- **A report with a status**, of a stream whose record can be loaded, is handled to its end. -/
theorem exec_msgParse_report {g : Globals} {msg id status a : Bytes}
    (hid : streamOf g (tokenerParse msg) = some id) (hst : field "status" msg = some status)
    (ho : opens (jsonFileWithAddr (some id)) = true)
    (ha : getEx (record cwd fs id) (lit "action") = some (.str a)) :
    ∃ g', exec (storeSem (dirSem cwd opens)) (msgParse g msg) fs =
      (some g', store cwd fs id (answered id status (cstr a) (record cwd fs id))) := by
  have hact : storedAction cwd id fs = some (cstr a) := storedAction_eq_some.mpr ⟨_, ha, rfl⟩
  obtain ⟨g', hs, -⟩ := serve_report hid hst hact
  refine ⟨g', ?_⟩
  have hcalls : Calls (fun o => ∀ file, fileOf o = some file →
      opens (jsonFileWithAddr file) = true) (msgParse g msg) :=
    calls_msgParse hid hst fun o hf file h => by rw [hf file h, ho]
  rw [exec_congr _ (fun o fs h => storeSem_of_opens h fs) hcalls]
  obtain ⟨h1, h2⟩ := exec_logged (srvrSem cwd) (msgParse g msg) fs []
  unfold serve at hs
  split at hs
  · next g1 fs1 ops hx =>
    rw [hx] at h1 h2
    simp only [Option.some.injEq, Prod.mk.injEq] at hs
    obtain ⟨-, rfl, rfl⟩ := hs
    exact Prod.ext h1.symm h2.symm
  · cases hs

/-- The handling of a message starts with two stores. -/
theorem msgParse_stores (g : Globals) (msg : Bytes) : ∃ k, msgParse g msg =
    call (SrvrOp.set (lit "streamId") (streamOf g (tokenerParse msg))
      (streamOf g (tokenerParse msg))) fun _ =>
    call (SrvrOp.set (lit "status") (field "status" msg) (streamOf g (tokenerParse msg))) k :=
  ⟨_, rfl⟩

/-- A message without a stream, before any has been named, ends the process. -/
theorem exec_msgParse_unnamed {g : Globals} {msg : Bytes}
    (hid : streamOf g (tokenerParse msg) = none) :
    (exec (storeSem (dirSem cwd opens)) (msgParse g msg) fs).1 = none := by
  obtain ⟨k, hk⟩ := msgParse_stores g msg
  have hset : storeSem (dirSem cwd opens) (.set (lit "streamId") none none) fs =
      (none, loaded cwd opens fs none) := exec_set_null
  rw [hk, hid, exec_call_none _ hset]

/-- So does a message of a stream whose record cannot be loaded. -/
theorem exec_msgParse_closed {g : Globals} {msg id : Bytes}
    (hid : streamOf g (tokenerParse msg) = some id)
    (ho : opens (jsonFileWithAddr (some id)) = false) :
    (exec (storeSem (dirSem cwd opens)) (msgParse g msg) fs).1 = none := by
  obtain ⟨k, hk⟩ := msgParse_stores g msg
  have hl : loads cwd opens fs (some id) = none := by simp [loads, ho]
  have hset : storeSem (dirSem cwd opens) (.set (lit "streamId") (some id) (some id)) fs =
      (none, fs) := exec_set_of_none hl
  rw [hk, hid, exec_call_none _ hset]

/-- So does a message without a status. -/
theorem exec_msgParse_null {g : Globals} {msg : Bytes} (hst : field "status" msg = none) :
    (exec (storeSem (dirSem cwd opens)) (msgParse g msg) fs).1 = none := by
  obtain ⟨k, hk⟩ := msgParse_stores g msg
  rw [hk, hst]
  rcases h : storeSem (dirSem cwd opens) (.set (lit "streamId") (streamOf g (tokenerParse msg))
    (streamOf g (tokenerParse msg))) fs with ⟨_ | r, fs1⟩
  · rw [exec_call_none _ h]
  · have hset : storeSem (dirSem cwd opens) (.set (lit "status") none
        (streamOf g (tokenerParse msg))) fs1 =
        (none, loaded cwd opens fs1 (streamOf g (tokenerParse msg))) := exec_set_null
    rw [exec_call_some _ h, exec_call_none _ hset]

theorem streamOf_globals (s : Sys) (g : Globals) (msg : Bytes) :
    streamOf (s.globals g) (tokenerParse msg) = (field "streamId" msg).or s.strmID := by
  rcases h : field "streamId" msg with _ | id
  · rw [streamOf_of_none h, Option.none_or]
    rfl
  · rw [streamOf_of_field h, Option.some_or]

/-- A message that is handled to its end names a status, and a stream whose record can be
loaded. -/
theorem exec_msgParse_isSome {s : Sys} {g : Globals} {msg : Bytes}
    (h : (exec (storeSem (dirSem cwd opens)) (msgParse (s.globals g) msg) s.fs).1.isSome = true) :
    ∃ id status, (field "streamId" msg).or s.strmID = some id ∧ field "status" msg = some status ∧
      opens (jsonFileWithAddr (some id)) = true := by
  have hid := streamOf_globals s g msg
  rcases hst : field "status" msg with _ | status
  · rw [exec_msgParse_null hst] at h
    cases h
  rcases hf : (field "streamId" msg).or s.strmID with _ | id
  · rw [exec_msgParse_unnamed (hid.trans hf)] at h
    cases h
  rcases ho : opens (jsonFileWithAddr (some id)) with _ | _
  · rw [exec_msgParse_closed (hid.trans hf) ho] at h
    cases h
  · exact ⟨id, status, rfl, rfl, ho⟩

/-- **When the message of a device is tolerated.** -/
theorem deviceTolerates_iff {s : Sys} (hw : WholeFiles s.fs) (g : Globals) (msg : Bytes) :
    DeviceTolerates cwd opens s g msg ↔ DeviceGood cwd opens s msg := by
  have hrun : ∀ id status, (field "streamId" msg).or s.strmID = some id →
      field "status" msg = some status → opens (jsonFileWithAddr (some id)) = true →
      ∃ g' a, getEx (record cwd s.fs id) (lit "action") = some (.str a) ∧
        exec (storeSem (dirSem cwd opens)) (msgParse (s.globals g) msg) s.fs =
          (some g', store cwd s.fs id (answered id status (cstr a) (record cwd s.fs id))) := by
    intro id status hf hst ho
    obtain ⟨a, ha⟩ : ∃ a, getEx (record cwd s.fs id) (lit "action") = some (.str a) :=
      hw.wholeStore id _ mem_keys_action
    obtain ⟨g', hx⟩ := exec_msgParse_report ((streamOf_globals s g msg).trans hf) hst ho ha
    exact ⟨g', a, ha, hx⟩
  constructor
  · rintro ⟨hend, hkeep⟩
    obtain ⟨id, status, hf, hst, ho⟩ := exec_msgParse_isSome hend
    refine ⟨id, status, hf, hst, ho, fun hnone => ?_⟩
    obtain ⟨g', a, ha, hx⟩ := hrun id status hf hst ho
    rw [hx] at hkeep
    exact (holds_iff ha).mp (store_unchanged.mp (hkeep (Or.inl hnone)))
  · rintro ⟨id, status, hf, hst, ho, hholds⟩
    obtain ⟨g', a, ha, hx⟩ := hrun id status hf hst ho
    unfold DeviceTolerates Tolerates
    rw [hx]
    refine ⟨rfl, fun hmiss => ?_⟩
    have hnone : field "streamId" msg = none := hmiss.resolve_right (by rw [hst]; simp)
    exact store_unchanged.mpr ((holds_iff ha).mpr (hholds hnone))

/-! ### The handling of a request -/

theorem loads_isSome_iff {file : Option Bytes} :
    (∃ o, loads cwd opens fs file = some o) ↔ Loads cwd opens fs file := by
  constructor
  · rintro ⟨o, h⟩
    refine ⟨opens_of_loads h, ?_⟩
    rintro rfl
    unfold loads at h
    split_ifs at h
    rw [Option.map_none, Option.or_none] at h
    exact Option.isSome_iff_exists.mpr ⟨o, h⟩
  · rintro ⟨ho, hp⟩
    rcases file with _ | id
    · obtain ⟨o, h⟩ := Option.isSome_iff_exists.mp (hp rfl)
      refine ⟨o, ?_⟩
      rw [loads, if_pos ho, Option.map_none, Option.or_none]
      exact h
    · exact ⟨_, loads_of_opens ho⟩

/-- The record that a NULL loads is the one of the stream `(null)`. -/
theorem loads_none {o : Obj} (h : loads cwd opens fs none = some o) :
    objAt cwd fs (jsonFileWithAddr (some (lit "(null)"))) = some o := by
  unfold loads at h
  split_ifs at h
  rwa [Option.map_none, Option.or_none] at h

theorem websocketWriteBack_null {str : Bytes} (ha : field "action" str = none) :
    websocketWriteBack str = abort := by
  unfold field at ha
  unfold websocketWriteBack
  dsimp only
  rw [ha]
  rfl

/-- A request for the status. -/
theorem websocketWriteBack_status {str : Bytes} (ha : field "action" str = some (lit "status")) :
    websocketWriteBack str = call (SrvrOp.get (lit "status") (field "streamId" str)) fun status =>
      call (SrvrOp.lwsWrite (statusReply (field "streamId" str) status)) ret := by
  unfold field at ha
  simp only [websocketWriteBack, ha, strEq_some, ret_bind, decide_true, if_true]
  rfl

/-- Any other request. -/
theorem websocketWriteBack_set {str action : Bytes} (ha : field "action" str = some action)
    (hne : action ≠ lit "status") :
    websocketWriteBack str =
      call (SrvrOp.set (lit "action") (some action) (field "streamId" str)) fun _ =>
        call (SrvrOp.lwsWrite (lit "ACK")) ret := by
  unfold field at ha
  simp only [websocketWriteBack, ha, strEq_some, ret_bind, decide_eq_true_eq]
  rw [if_neg hne]
  rfl

/-- The record that a load gives is the stored one. -/
theorem record_of_loads {file : Option Bytes} {o : Obj} (h : loads cwd opens fs file = some o) :
    record cwd fs (percentS file) = o := by
  rcases file with _ | id
  · exact (objAt_eq_some.mp (loads_none h)).2
  · rw [loads_of_opens (opens_of_loads h)] at h
    exact Option.some.inj h

/-- A request is handled to its end only on a record that can be loaded. -/
theorem exec_websocketWriteBack_none {str : Bytes}
    (hl : loads cwd opens fs (field "streamId" str) = none) :
    (exec (bufferSem (storeSem (dirSem cwd opens))) (websocketWriteBack str) fs).1 = none := by
  rcases ha : field "action" str with _ | action
  · rw [websocketWriteBack_null ha]
    rfl
  by_cases hq : action = lit "status"
  · subst hq
    have hget : bufferSem (storeSem (dirSem cwd opens))
        (.get (lit "status") (field "streamId" str)) fs = (none, fs) := exec_get_of_none hl
    rw [websocketWriteBack_status ha, exec_call_none _ hget]
  · have hset : bufferSem (storeSem (dirSem cwd opens))
        (.set (lit "action") (some action) (field "streamId" str)) fs = (none, fs) :=
      exec_set_of_none hl
    rw [websocketWriteBack_set ha hq, exec_call_none _ hset]

/-- **A status query is handled to its end if the reply fits.** -/
theorem exec_websocketWriteBack_status (hw : WholeFiles fs) {str : Bytes} {o : Obj}
    (hl : loads cwd opens fs (field "streamId" str) = some o)
    (ha : field "action" str = some (lit "status")) :
    ((exec (bufferSem (storeSem (dirSem cwd opens))) (websocketWriteBack str) fs).1.isSome = true ↔
      ReplyFits cwd fs str) ∧
      (exec (bufferSem (storeSem (dirSem cwd opens))) (websocketWriteBack str) fs).2 =
        loaded cwd opens fs (field "streamId" str) := by
  obtain ⟨v, hv⟩ := hw.loads hl _ mem_keys_status
  have hget : bufferSem (storeSem (dirSem cwd opens))
      (.get (lit "status") (field "streamId" str)) fs =
      (some (some (cstr v)), loaded cwd opens fs (field "streamId" str)) := exec_get hl hv
  have hfits : ReplyFits cwd fs str ↔
      FitsBuffer (statusReply (field "streamId" str) (some (cstr v))) := by
    have hst : storedStatus cwd fs (percentS (field "streamId" str)) = some (cstr v) := by
      rw [storedStatus, record_of_loads hl, hv]
      rfl
    rw [ReplyFits, hst, fitsBuffer_statusReply]
    simp
  rw [websocketWriteBack_status ha, exec_call_some _ hget, hfits]
  by_cases hf : FitsBuffer (statusReply (field "streamId" str) (some (cstr v)))
  · have hwrite : bufferSem (storeSem (dirSem cwd opens))
        (.lwsWrite (statusReply (field "streamId" str) (some (cstr v))))
        (loaded cwd opens fs (field "streamId" str)) =
        (some (), loaded cwd opens fs (field "streamId" str)) := by
      rw [bufferSem, if_pos hf]
      rfl
    rw [exec_call_some _ hwrite]
    exact ⟨iff_of_true rfl hf, rfl⟩
  · have hwrite : bufferSem (storeSem (dirSem cwd opens))
        (.lwsWrite (statusReply (field "streamId" str) (some (cstr v))))
        (loaded cwd opens fs (field "streamId" str)) =
        (none, loaded cwd opens fs (field "streamId" str)) := by rw [bufferSem, if_neg hf]
    rw [exec_call_none _ hwrite]
    exact ⟨iff_of_false Bool.false_ne_true hf, rfl⟩

theorem exec_websocketWriteBack_set {str action : Bytes} {o : Obj}
    (hl : loads cwd opens fs (field "streamId" str) = some o)
    (ha : field "action" str = some action) (hne : action ≠ lit "status") :
    exec (bufferSem (storeSem (dirSem cwd opens))) (websocketWriteBack str) fs =
      (some (), store cwd fs (percentS (field "streamId" str))
        (add o (lit "action") (.str action))) := by
  have hset : bufferSem (storeSem (dirSem cwd opens))
      (.set (lit "action") (some action) (field "streamId" str)) fs =
      (some (), store cwd fs (percentS (field "streamId" str))
        (add o (lit "action") (.str action))) := exec_set hl
  rw [websocketWriteBack_set ha hne, exec_call_some _ hset]
  rfl

/-- **When the request of a player is tolerated.** -/
theorem playerTolerates_iff {s : Sys} (hw : WholeFiles s.fs) (str : Bytes) :
    PlayerTolerates cwd opens s str ↔ PlayerGood cwd opens s str := by
  constructor
  · rintro ⟨hend, hkeep⟩
    rcases ha : field "action" str with _ | action
    · rw [websocketWriteBack_null ha] at hend
      cases hend
    rcases hl : loads cwd opens s.fs (field "streamId" str) with _ | o
    · rw [exec_websocketWriteBack_none hl] at hend
      cases hend
    refine ⟨action, ha, loads_isSome_iff.mp ⟨o, hl⟩, fun hq => ?_, fun hnone => ?_⟩
    · exact (exec_websocketWriteBack_status hw hl (hq ▸ ha)).1.mp hend
    by_cases hq : action = lit "status"
    · exact Or.inl hq
    · rw [exec_websocketWriteBack_set hl ha hq, hnone] at hkeep
      have ho : record cwd s.fs (lit "(null)") = add o (lit "action") (.str action) :=
        (objAt_eq_some.mp (store_unchanged.mp (hkeep (Or.inl rfl)))).2
      exact Or.inr (by rw [ho, getEx_add_self])
  · rintro ⟨action, ha, hL, hfits, hnull⟩
    obtain ⟨o, hl⟩ := loads_isSome_iff.mpr hL
    unfold PlayerTolerates Tolerates
    by_cases hq : action = lit "status"
    · obtain ⟨hend, hstore⟩ := exec_websocketWriteBack_status hw hl (hq ▸ ha)
      refine ⟨hend.mpr (hfits hq), fun hmiss q => ?_⟩
      have hnone : field "streamId" str = none := hmiss.resolve_right (by rw [ha]; simp)
      rw [hstore, hnone, loaded]
      split_ifs <;> rfl
    · rw [exec_websocketWriteBack_set hl ha hq]
      refine ⟨rfl, fun hmiss => ?_⟩
      have hnone : field "streamId" str = none := hmiss.resolve_right (by rw [ha]; simp)
      rw [hnone] at hl ⊢
      have hobj := loads_none hl
      have hrec := (objAt_eq_some.mp hobj).2
      have hself : add o (lit "action") (.str action) = o := by
        refine add_eq_self ?_
        rw [← hrec]
        exact (hnull hnone).resolve_left hq
      refine store_unchanged.mpr ?_
      rw [hself]
      exact hobj

variable (cwd opens)

/-- **When malformed input is tolerated**, in every state of every run: a device message if it has
a status and names a stream that can be opened, or leaves as it is the record of the stream named
last; a request if it has an action, names a stream that can be opened, or leaves as it is the
record of the stream `(null)`, and is answered with a text that fits the buffers. -/
theorem tolerates_iff {ls : List Lbl} {s : Sys}
    (hr : run (Handlers.step (dirSem cwd opens)) .init ls = some s) :
    (∀ g msg, DeviceTolerates cwd opens s g msg ↔ DeviceGood cwd opens s msg) ∧
      ∀ str, PlayerTolerates cwd opens s str ↔ PlayerGood cwd opens s str :=
  ⟨deviceTolerates_iff (whole_of_run hr), playerTolerates_iff (whole_of_run hr)⟩

/-- After a report of the stream `a`, a message without a stream that repeats it is tolerated, and
so is a status query for a name of no stream. -/
theorem tolerates_iff_repeated : ∃ s, run (Handlers.step (dirSem [] fun _ => true)) .init
      [.report fresh (lit "\x7b \"streamId\" : \"a\", \"status\" : \"off\"\x7d"), .step 0,
        .step 0] = some s ∧
    DeviceTolerates [] (fun _ => true) s fresh (lit "\x7b \"status\" : \"off\"\x7d") ∧
      PlayerTolerates [] (fun _ => true) s
        (lit "\x7b \"streamId\" : \"b\", \"action\" : \"status\"\x7d") := by
  obtain ⟨s, hr, hid, hrec, hp, hb⟩ : ∃ s, run (Handlers.step (dirSem [] fun _ => true)) .init
      [.report fresh (lit "\x7b \"streamId\" : \"a\", \"status\" : \"off\"\x7d"), .step 0,
        .step 0] = some s ∧ s.strmID = some (lit "a") ∧ record [] s.fs (lit "a") = defaults (lit "a") ∧
      Present [] s.fs (lit "a") ∧ storedStatus [] s.fs (lit "b") = some (lit "off") :=
    ⟨_, rfl, by decide +kernel, rfl, by decide +kernel, by decide +kernel⟩
  have hno : field "streamId" (lit "\x7b \"status\" : \"off\"\x7d") = none := by decide +kernel
  have hf : field "streamId" (lit "\x7b \"streamId\" : \"b\", \"action\" : \"status\"\x7d") =
      some (lit "b") := by decide +kernel
  obtain ⟨hd, hplayer⟩ := tolerates_iff [] (fun _ => true) hr
  refine ⟨s, hr, (hd fresh _).mpr ⟨lit "a", lit "off", by rw [hno, hid, Option.none_or],
    by decide +kernel, rfl, fun _ => ⟨hp, by rw [hrec]; rfl, by rw [hrec]; rfl, fun a ha hA => ?_⟩⟩,
    (hplayer _).mpr ⟨lit "status", by decide +kernel, ⟨rfl, fun h => ?_⟩, fun _ status hs => ?_,
      fun _ => Or.inl rfl⟩⟩
  · have hlive : getEx (defaults (lit "a")) (lit "action") = some (.str (lit "live")) := rfl
    rw [hrec, hlive] at ha
    cases ha
    exact absurd hA (by decide)
  · rw [hf] at h
    cases h
  · rw [hf, percentS, Option.getD_some, hb] at hs
    rw [hf, ← Option.some.inj hs]
    decide

/-- **The end of a connection ends the server**: the empty message is handled with no stream and no
status. -/
theorem closed_ends_server :
    ¬ ∀ (cwd : Path) (opens : Bytes → Bool) (ls : List Lbl) (s : Sys),
      run (Handlers.step (dirSem cwd opens)) .init ls = some s →
        (∀ g msg, msg.length ≤ 254 → DeviceTolerates cwd opens s g msg) ∧
          ∀ str, PlayerTolerates cwd opens s str := by
  intro h
  have hd := ((h [] (fun _ => true) [] .init rfl).1 fresh [] (by decide)).1
  rw [exec_msgParse_null (by decide)] at hd
  cases hd

end Malformed

end LiveStreamer.StreamerServer.Malformed
