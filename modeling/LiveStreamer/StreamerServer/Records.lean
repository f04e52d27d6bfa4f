import LiveStreamer.StreamerServer.Handlers
import LiveStreamer.StreamerServer.Sessions

/-! # Every record stays complete (`srvrJson.c`, `srvrComm.c`, `PlayerServer.c`, `main.c`)

Device reports, player requests, status queries and sweeps are handled at once, with each store
operation run as a whole. A record is written when it is made, by a report, by an acknowledgement,
by a player and by the sweep, and all of them keep its three fields (`whole_of_run`). A read of
the status or of the action then answers a string and leaves the record alone, and no handler of
a well-formed message uses a NULL (`records_complete`).

The files are named by streams without a slash, so that the sweep finds every one of them under
its own name (`Named`). -/

namespace LiveStreamer.StreamerServer.Records

open LiveStreamer.Lib.CString LiveStreamer.Lib.PathName LiveStreamer.Lib.Program
open LiveStreamer.Lib.Program.Prog LiveStreamer.Lib.Run LiveStreamer.Lib.Tokener
open LiveStreamer.StreamerServer.SrvrJson LiveStreamer.StreamerServer.SrvrComm
open LiveStreamer.StreamerServer.PlayerServer LiveStreamer.StreamerServer.Main
open LiveStreamer.StreamerServer.Directory LiveStreamer.StreamerServer.Sweep
open LiveStreamer.StreamerServer.Sessions (Answerable Answers)
open LiveStreamer.StreamerServer.Handlers

/-! ### Messages -/

/-- The stream of a message, if it names one, is without a slash. -/
def NoSlash : Lbl → Prop
  | .report _ msg => ∀ id, field "streamId" msg = some id → slash ∉ id
  | .request str => ∀ id, field "streamId" str = some id → slash ∉ id
  | _ => True

/-- A report names a stream without a slash and a status, a request a stream without a slash and
an action. -/
def WellFormed : Lbl → Prop
  | .report _ msg => ∃ id status, field "streamId" msg = some id ∧ slash ∉ id ∧
      field "status" msg = some status
  | .request str => ∃ id action, field "streamId" str = some id ∧ slash ∉ id ∧
      field "action" str = some action
  | _ => True

theorem WellFormed.noSlash {l : Lbl} (h : WellFormed l) : NoSlash l := by
  cases l with
  | report g msg =>
    obtain ⟨id, -, hid, hs, -⟩ := h
    intro id' hid'
    rw [hid] at hid'
    exact Option.some.inj hid' ▸ hs
  | request str =>
    obtain ⟨id, -, hid, hs, -⟩ := h
    intro id' hid'
    rw [hid] at hid'
    exact Option.some.inj hid' ▸ hs
  | sweep => trivial
  | step i => trivial

/-! ### The names of the files -/

section Names
variable (cwd : Path)

/-- The operation works on the file of a stream without a slash. -/
def OnStream (o : SrvrOp) : Prop := ∀ file, fileOf o = some file → slash ∉ percentS file

/-- **Every file is the record of a stream without a slash**, and the handlers work on such files. -/
structure Named (s : Sys) : Prop where
  files : ∀ p ∈ s.fs, ∃ id, slash ∉ id ∧ p = recordPath cwd id
  strm : slash ∉ percentS s.strmID
  player : ∀ p, .player p ∈ s.handlers → Calls OnStream p

variable {cwd}

theorem named_init : Named cwd .init := by
  refine ⟨fun p hp => ?_, by decide, fun p hp => ?_⟩
  · exact absurd hp (AList.notMem_empty p)
  · exact absurd hp List.not_mem_nil

/-- What a request does is done to the stream it names. -/
theorem calls_websocketWriteBack {str : Bytes} {P : SrvrOp → Prop}
    (h : ∀ o, (∀ file, fileOf o = some file → file = field "streamId" str) → P o) :
    Calls P (websocketWriteBack str) := by
  have hset : ∀ k v, P (.set k v (field "streamId" str)) := fun k v =>
    h _ fun file hf => (Option.some.inj hf).symm
  have hget : ∀ k, P (.get k (field "streamId" str)) := fun k =>
    h _ fun file hf => (Option.some.inj hf).symm
  have hwrite : ∀ t, P (.lwsWrite t) := fun t => h _ fun file hf => nomatch hf
  unfold websocketWriteBack
  refine Calls.bind ?_ fun b => ?_
  · unfold strEq
    split <;> trivial
  · rcases b with _ | _
    · exact ⟨hset _ _, fun _ => ⟨hwrite _, fun _ => trivial⟩⟩
    · exact ⟨hget _, fun _ => ⟨hwrite _, fun _ => trivial⟩⟩

theorem slash_field {str : Bytes} (h : ∀ id, field "streamId" str = some id → slash ∉ id) :
    slash ∉ percentS (field "streamId" str) := by
  rcases hf : field "streamId" str with _ | id
  · decide
  · exact h id hf

/-- The file of a new record is that of a stream without a slash. -/
theorem Named.wrote {s : Sys} {fs' : Fs} (hn : Named cwd s)
    (hw : Wrote cwd s.fs (fun file => ∃ h ∈ s.handlers, h.Names s.strmID file) fs') :
    ∀ p ∈ fs', ∃ id, slash ∉ id ∧ p = recordPath cwd id := by
  obtain rfl | ⟨q, o, -, rfl, hq⟩ := hw
  · exact hn.files
  intro p hp
  rcases AList.mem_insert _ |>.mp hp with rfl | hp
  · rcases hq with hq | ⟨file, ⟨h, hh, hname⟩, rfl⟩
    · exact hn.files p hq
    · refine ⟨percentS file, ?_, rfl⟩
      cases h with
      | device p =>
        obtain rfl : file = s.strmID := hname
        exact hn.strm
      | player p =>
        obtain ⟨o, ho, hf⟩ := hname
        have hc := hn.player p hh
        cases p with
        | call o' k =>
          cases ho
          exact hc.1 file hf
        | ret a => cases ho
        | abort => cases ho
      | sweep es => exact hname.elim
      | crashed => exact hname.elim
  · exact hn.files p hp

theorem slash_streamOf {s : Sys} (hn : Named cwd s) (g : Globals) {msg : Bytes}
    (h : ∀ id, field "streamId" msg = some id → slash ∉ id) :
    slash ∉ percentS (streamOf (s.globals g) (tokenerParse msg)) := by
  rcases hf : field "streamId" msg with _ | id
  · rw [streamOf_of_none hf]
    exact hn.strm
  · rw [streamOf_of_field hf]
    exact h id hf

/-- **The names of the files** are kept. -/
theorem Named.step {opens : Bytes → Bool} {s s' : Sys} {l : Lbl} (hw : WholeFiles s.fs)
    (hn : Named cwd s) (hl : NoSlash l) (h : Handlers.step (dirSem cwd opens) s l = some s') :
    Named cwd s' := by
  refine ⟨hn.wrote (step_wrote hw h), ?_, fun p hp => ?_⟩
  · rcases strmID_of_step h with he | ⟨g, msg, rfl, he⟩
    · rw [he]
      exact hn.strm
    · rw [he]
      exact slash_streamOf hn g hl
  · rcases handler_of_step h hp with hp | ha | ⟨h0, hh, hs⟩
    · exact hn.player p hp
    · cases l with
      | request str =>
        cases ha
        refine calls_websocketWriteBack fun o ho file hf => ?_
        rw [ho file hf]
        exact slash_field hl
      | report g msg => cases ha
      | sweep => cases ha
      | step i => cases ha
    · obtain ⟨p0, rfl, hx⟩ := step_player hs
      exact (hn.player p0 hh).step _ hx

theorem named_of_run {opens : Bytes → Bool} {ls : List Lbl} {s : Sys} (hls : ∀ l ∈ ls, NoSlash l)
    (hr : run (Handlers.step (dirSem cwd opens)) .init ls = some s) : Named cwd s := by
  have hm : Meets (Handlers.step (dirSem cwd opens)) (fun _ l => NoSlash l) .init ls :=
    meets_of_forall _ fun l hl _ => hls l hl
  have hstep : ∀ s l s', WholeFiles s.fs ∧ Named cwd s → NoSlash l →
      Handlers.step (dirSem cwd opens) s l = some s' → WholeFiles s'.fs ∧ Named cwd s' :=
    fun s l s' ⟨hw, hn⟩ hl h => ⟨(step_wrote hw h).whole hw, hn.step hw hl h⟩
  exact (Meets.inv hstep hm ⟨wholeFiles_empty, named_init⟩ hr).2

end Names

/-! ### No handler uses a NULL -/

section Safe
variable {cwd : Path} {fs : Fs}

/-- An operation on a record that is named answers. -/
theorem storeSem_answers (hw : WholeFiles fs) {o : SrvrOp} (ha : Answerable o)
    (hf : ∀ file, fileOf o = some file → file.isSome = true) :
    ∃ r, (storeSem (fileSem cwd) o fs).1 = some r ∧ Answers o r := by
  rw [fileSem_eq]
  cases o with
  | set jKey value file =>
    obtain ⟨s, rfl⟩ := Option.isSome_iff_exists.mp (hf file rfl)
    obtain ⟨v, rfl⟩ := Option.isSome_iff_exists.mp ha
    have hl : loads cwd (fun _ => true) fs (some s) = some (record cwd fs s) :=
      loads_of_opens rfl
    exact ⟨(), by rw [storeSem, exec_set hl], trivial⟩
  | get jKey file =>
    obtain ⟨s, rfl⟩ := Option.isSome_iff_exists.mp (hf file rfl)
    have hl : loads cwd (fun _ => true) fs (some s) = some (record cwd fs s) :=
      loads_of_opens rfl
    obtain ⟨v, hv⟩ := hw.wholeStore s jKey ha
    exact ⟨some (cstr v), by rw [storeSem, exec_get hl hv]; rfl, _, rfl⟩
  | send sock text => exact ⟨(), rfl, trivial⟩
  | lwsWrite text => exact ⟨(), rfl, trivial⟩

/-- So does an operation of a device thread, once a stream is named. -/
theorem deviceSem_answers (hw : WholeFiles fs) (id : Bytes) {o : SrvrOp} (ha : Answerable o) :
    ∃ r, (deviceSem (storeSem (fileSem cwd)) (some id) o fs).1 = some r ∧ Answers o r := by
  cases o with
  | set jKey value file =>
    refine storeSem_answers hw (o := .set jKey _ (some id)) ?_ fun file hf => ?_
    · simp only [Answerable]
      split_ifs
      · rfl
      · exact ha
    · cases hf
      rfl
  | get jKey file =>
    refine storeSem_answers hw (o := .get jKey (some id)) ha fun file hf => ?_
    cases hf
    rfl
  | send sock text => exact ⟨(), rfl, trivial⟩
  | lwsWrite text => exact ⟨(), rfl, trivial⟩

/-- Under answers to its reads the program does not abort. -/
abbrev Goes {α : Type} (P : SrvrOp → Prop) (p : SrvrProg α) (ops : List SrvrOp) : Prop :=
  Wp P Answers (fun _ _ => True) p ops

theorem goes_SIGAck (g : Globals) (ops : List SrvrOp) : Goes Answerable (SIGAck g) ops :=
  ⟨trivial, fun _ _ => ⟨rfl, fun _ _ => trivial⟩⟩

theorem goes_SIGAct (g : Globals) (ops : List SrvrOp) : Goes Answerable (SIGAct g) ops :=
  ⟨mem_keys_action, fun _ _ => ⟨trivial, fun _ _ => trivial⟩⟩

theorem goes_withAction {g : Globals} {k : Bytes → SrvrProg Globals}
    (hk : ∀ a ops, Goes Answerable (k a) ops) (ops : List SrvrOp) :
    Goes Answerable (withAction g k) ops := by
  refine ⟨mem_keys_action, fun r hr => ?_⟩
  obtain ⟨a, rfl⟩ := hr
  exact hk a _

theorem goes_compareAction (g : Globals) (status : Bytes) (ops : List SrvrOp) :
    Goes Answerable (compareAction g status) ops :=
  compareAction_rule (P := fun p => ∀ ops, Goes Answerable p ops) (fun _ => goes_withAction)
    (goes_SIGAck g) (goes_SIGAct g) status ops

/-- A report that names its stream and its status is handled without an abort. -/
theorem goes_msgParse (g : Globals) {msg id status : Bytes} (hid : field "streamId" msg = some id)
    (hst : field "status" msg = some status) : Goes Answerable (msgParse g msg) [] := by
  rw [msgParse_eq g (streamOf_of_field hid) hst]
  exact ⟨rfl, fun _ _ => ⟨rfl, fun _ _ => ⟨mem_keys_status, fun _ _ =>
    goes_compareAction _ status _⟩⟩⟩

/-- An operation on a stream that is named. -/
def OnNamed (o : SrvrOp) : Prop := Answerable o ∧ ∀ file, fileOf o = some file → file.isSome = true

theorem goes_websocketWriteBack {str id action : Bytes} (hid : field "streamId" str = some id)
    (ha : field "action" str = some action) : Goes OnNamed (websocketWriteBack str) [] := by
  have hfile : ∀ file, some (some id) = some file → file.isSome = true := by
    rintro file ⟨⟩
    rfl
  have hwrite : ∀ t, OnNamed (.lwsWrite t) := fun t => ⟨trivial, fun file hf => nomatch hf⟩
  by_cases hq : action = lit "status"
  · subst hq
    rw [websocketWriteBack_query hid ha]
    exact ⟨⟨mem_keys_status, hfile⟩, fun _ _ => ⟨hwrite _, fun _ _ => trivial⟩⟩
  · rw [websocketWriteBack_command hid ha hq]
    exact ⟨⟨rfl, hfile⟩, fun _ _ => ⟨hwrite _, fun _ _ => trivial⟩⟩

variable (cwd) in
/-- The handlers go on to their end. -/
structure Safe (s : Sys) : Prop where
  device : ∀ p, .device p ∈ s.handlers → s.strmID.isSome = true ∧ ∃ ops, Goes Answerable p ops
  player : ∀ p, .player p ∈ s.handlers → ∃ ops, Goes OnNamed p ops
  sweep : ∀ es, .sweep es ∈ s.handlers → ∀ dName, (dName, false) ∈ es →
    resolve cwd (entryAddr dName) ∈ s.fs
  crashed : .crashed ∉ s.handlers

theorem safe_init : Safe cwd .init := by
  refine ⟨fun p hp => ?_, fun p hp => ?_, fun es hes => ?_, List.not_mem_nil⟩
  · exact absurd hp List.not_mem_nil
  · exact absurd hp List.not_mem_nil
  · exact absurd hes List.not_mem_nil

/-- The entries of a sweep lead to files that are there. -/
theorem mem_of_swept {s : Sys} (hn : Named cwd s) {dName : Bytes}
    (h : (dName, false) ∈ swept (fileSem cwd) s.fs) : resolve cwd (entryAddr dName) ∈ s.fs := by
  have hsw : swept (fileSem cwd) s.fs = entries (statusDir cwd) s.fs := by
    rw [← resolve_statusDir]
    rfl
  rw [hsw] at h
  simp only [entries, List.mem_cons, Prod.mk.injEq, Bool.false_eq_true, and_false, false_or,
    List.mem_map, and_true, exists_eq_right, List.mem_filterMap] at h
  obtain ⟨p, hp, he⟩ := h
  obtain ⟨id, hs, rfl⟩ := hn.files p (AList.mem_keys.mpr hp)
  rw [entryOf_recordPath cwd hs] at he
  cases he
  rw [resolve_entryAddr]
  exact AList.mem_keys.mpr hp

/-- A sweep goes on to its next file. -/
theorem exec_triggerFile_of_mem (hw : WholeFiles fs) {dName : Bytes}
    (h : resolve cwd (entryAddr dName) ∈ fs) :
    ∃ fs', exec (fileSem cwd) (triggerFile dName) fs = (some (), fs') := by
  obtain ⟨o, ho⟩ := hw.objAt_of_mem h
  rw [fileSem_eq]
  exact ⟨_, exec_triggerFile_open rfl ho⟩

/-- **The handlers go on to their end.** -/
theorem Safe.step {s s' : Sys} {l : Lbl} (hw : WholeFiles s.fs) (hn : Named cwd s)
    (hi : Safe cwd s) (hl : WellFormed l) (h : Handlers.step (fileSem cwd) s l = some s') :
    Safe cwd s' := by
  have hmem : ∀ p, p ∈ s.fs → p ∈ s'.fs := by
    rw [fileSem_eq] at h
    exact fun p => (step_wrote hw h).mem
  refine ⟨fun p hp => ?_, fun p hp => ?_, fun es hes dName hd => ?_, fun hc => ?_⟩
  · -- a message names its stream, and no other step forgets it
    have hid : s.strmID.isSome = true → s'.strmID.isSome = true := by
      intro hs
      rcases strmID_of_step h with he | ⟨g, msg, rfl, he⟩
      · rwa [he]
      · obtain ⟨id, -, hid, -⟩ := hl
        rw [he, streamOf_of_field hid]
        rfl
    rcases handler_of_step h hp with hp | ha | ⟨h0, hh, hs⟩
    · exact ⟨hid (hi.device p hp).1, (hi.device p hp).2⟩
    · cases l with
      | report g msg =>
        cases ha
        obtain ⟨id, status, hf, -, hst⟩ := hl
        cases h
        refine ⟨?_, [], goes_msgParse _ hf hst⟩
        show (streamOf _ _).isSome = true
        rw [streamOf_of_field hf]
        rfl
      | request str => cases ha
      | sweep => cases ha
      | step i => cases ha
    · obtain ⟨p0, rfl, hx⟩ := step_device hs
      obtain ⟨hsome, ops, hg⟩ := hi.device p0 hh
      obtain ⟨id, hsid⟩ := Option.isSome_iff_exists.mp hsome
      rw [hsid] at hx
      exact ⟨hid hsome, hg.step (fun o ho => deviceSem_answers hw id ho) hx⟩
  · rcases handler_of_step h hp with hp | ha | ⟨h0, hh, hs⟩
    · exact hi.player p hp
    · cases l with
      | request str =>
        cases ha
        obtain ⟨id, action, hf, -, hact⟩ := hl
        exact ⟨[], goes_websocketWriteBack hf hact⟩
      | report g msg => cases ha
      | sweep => cases ha
      | step i => cases ha
    · obtain ⟨p0, rfl, hx⟩ := step_player hs
      obtain ⟨ops, hg⟩ := hi.player p0 hh
      exact hg.step (fun o ho => storeSem_answers hw ho.1 ho.2) hx
  · refine hmem _ ?_
    rcases handler_of_step h hes with hes | ha | ⟨h0, hh, hs⟩
    · exact hi.sweep es hes dName hd
    · cases l with
      | sweep =>
        cases ha
        exact mem_of_swept hn hd
      | report g msg => cases ha
      | request str => cases ha
      | step i => cases ha
    · obtain ⟨e, rfl⟩ := step_sweep hs
      exact hi.sweep _ hh dName (.tail _ hd)
  · rcases handler_of_step h hc with hc | ha | ⟨h0, hh, hs⟩
    · exact hi.crashed hc
    · cases l <;> cases ha
    · obtain ⟨dName, es, rfl, hx⟩ := step_crashed hs
      obtain ⟨fs', hx'⟩ := exec_triggerFile_of_mem hw
        (hi.sweep _ hh dName (List.mem_cons_self ..))
      rw [hx] at hx'
      cases hx'

theorem safe_of_run {ls : List Lbl} {s : Sys} (hls : ∀ l ∈ ls, WellFormed l)
    (hr : run (Handlers.step (fileSem cwd)) .init ls = some s) :
    WholeFiles s.fs ∧ Named cwd s ∧ Safe cwd s := by
  have hm : Meets (Handlers.step (fileSem cwd)) (fun _ l => WellFormed l) .init ls :=
    meets_of_forall _ fun l hl _ => hls l hl
  have hstep : ∀ s l s', WholeFiles s.fs ∧ Named cwd s ∧ Safe cwd s → WellFormed l →
      Handlers.step (fileSem cwd) s l = some s' →
      WholeFiles s'.fs ∧ Named cwd s' ∧ Safe cwd s' := by
    rintro s l s' ⟨hw, hn, hs⟩ hl h
    refine ⟨?_, ?_, hs.step hw hn hl h⟩ <;> rw [fileSem_eq] at h
    · exact (step_wrote hw h).whole hw
    · exact hn.step hw hl.noSlash h
  exact Meets.inv hstep hm ⟨wholeFiles_empty, named_init, safe_init⟩ hr

end Safe

/-! ### The records of a run -/

/-- The handler has ended the process by the use of a NULL. -/
def Crashed : Handler → Prop
  | .device .abort => True
  | .player .abort => True
  | .crashed => True
  | _ => False

/-- **Every record stays complete**: after any run of well-formed messages and sweeps every file
holds a record whose three fields are strings, a read of the status or of the action answers a
string from a record that has the field and does no more than the load, and no handler has used a
NULL. -/
theorem records_complete (cwd : Path) {ls : List Lbl} {s : Sys} (hls : ∀ l ∈ ls, WellFormed l)
    (hr : run (Handlers.step (fileSem cwd)) .init ls = some s) :
    (∀ p f, s.fs.lookup p = some f → ∃ o, f = .obj o ∧ Whole o) ∧
    (∀ jKey ∈ [lit "status", lit "action"], ∀ id, ∃ o v fs',
      exec (fileSem cwd) (jsonFromFile (some id)) s.fs = (some (some o), fs') ∧
      (getEx o jKey).isSome = true ∧
      exec (fileSem cwd) (getJsonValueFromFile jKey (some id)) s.fs = (some (some v), fs')) ∧
    ∀ h ∈ s.handlers, ¬ Crashed h := by
  obtain ⟨hw, -, hs⟩ := safe_of_run hls hr
  refine ⟨hw, fun jKey hk id => ?_, fun h hh hc => ?_⟩
  · have hkeys : jKey ∈ keys := by
      simp only [List.mem_cons, List.not_mem_nil, or_false] at hk
      obtain rfl | rfl := hk
      · exact mem_keys_status
      · exact mem_keys_action
    obtain ⟨v, hv⟩ := hw.wholeStore id jKey hkeys
    exact ⟨record cwd s.fs id, cstr v, load cwd s.fs id, exec_jsonFromFile cwd s.fs id,
      by rw [hv]; rfl, exec_getJsonValueFromFile cwd hv⟩
  · cases h with
    | device p =>
      obtain ⟨-, ops, hg⟩ := hs.device p hh
      cases p with
      | abort => exact hg
      | ret a => exact hc
      | call o k => exact hc
    | player p =>
      obtain ⟨ops, hg⟩ := hs.player p hh
      cases p with
      | abort => exact hg
      | ret a => exact hc
      | call o k => exact hc
    | sweep es => exact hc
    | crashed => exact hs.crashed hh

/-- The globals of a device thread that has just started. -/
def fresh : Globals := { strmID := none, clntSock := 4, ACK := false, tempBufS := [] }

/-- A report, a command and a status query for two streams, and a sweep, one in another. -/
def busy : List Lbl :=
  [.report fresh (lit "\x7b \"streamId\" : \"a\", \"status\" : \"live\"\x7d"), .step 0,
    .request (lit "\x7b \"streamId\" : \"b\", \"action\" : \"off\"\x7d"), .step 0, .step 1,
    .sweep, .step 0, .step 2, .step 2, .step 2, .step 0, .step 2, .step 0,
    .request (lit "\x7b \"streamId\" : \"a\", \"action\" : \"status\"\x7d"), .step 3]

theorem records_complete_busy : ∃ s, run (Handlers.step (fileSem [])) .init busy = some s ∧
    s.fs.keys.length = 2 ∧ (∀ p f, s.fs.lookup p = some f → ∃ o, f = .obj o ∧ Whole o) ∧
    ∀ h ∈ s.handlers, ¬ Crashed h := by
  have hlen : (run (Handlers.step (fileSem [])) .init busy).map (fun s => s.fs.keys.length) =
      some 2 := by decide +kernel
  obtain ⟨s, hr, hl⟩ := Option.map_eq_some_iff.mp hlen
  have hmsg : ∀ l ∈ busy, WellFormed l := by
    simp only [busy, List.forall_mem_cons, List.not_mem_nil, false_imp_iff, implies_true, and_true,
      WellFormed, true_and]
    refine ⟨⟨lit "a", lit "live", ?_⟩, ⟨lit "b", lit "off", ?_⟩, lit "a", lit "status", ?_⟩ <;>
      decide +kernel
  obtain ⟨h1, -, h3⟩ := records_complete [] hmsg hr
  exact ⟨s, hr, hl, h1, h3⟩

end LiveStreamer.StreamerServer.Records
