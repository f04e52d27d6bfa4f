import LiveStreamer.Protocol.Exchange
import LiveStreamer.StreamerClient.Replies
import LiveStreamer.StreamerServer.Handlers
import LiveStreamer.StreamerServer.PlayerCommands

/-! # A session while others write the record (`ClientComm.c`, `srvrComm.c`, `PlayerServer.c`)

The two programs of a session with a queue in each direction. The server takes each store operation
and each `send` of `msgParse` as a step of its own; between two of them a player stores an action
or asks for the status, and the sweep turns a record off. The log keeps what the two have sent.

`InStep` says what a session is meant to keep: at most one message is on its way, reports and
replies take turns, a report carries the status that the last reply has led to, and the two leave
their loops with the same `ACK`. A device that is sent `off` when it has no pipeline does not come
back from it. The server reads the action anew for each comparison and for the reply, so a player
can bring this about (`off_between_reads`). The session keeps in step if and only if no `off` finds
a device that cannot stop (`inStep_iff`). -/

namespace LiveStreamer.Protocol.Lockstep

open LiveStreamer.Lib.CString LiveStreamer.Lib.JsonText LiveStreamer.Lib.PathName
open LiveStreamer.Lib.Program LiveStreamer.Lib.Program.Prog LiveStreamer.Lib.Refs
open LiveStreamer.Lib.Run LiveStreamer.Lib.Tokener
open LiveStreamer.StreamerServer.SrvrJson LiveStreamer.StreamerServer.SrvrComm
open LiveStreamer.StreamerServer.PlayerServer LiveStreamer.StreamerServer.Main
open LiveStreamer.StreamerServer.Handlers (exec_triggerFile_cases fileSem_eq)
open LiveStreamer.StreamerServer.PlayerCommands (markDone)
open LiveStreamer.StreamerClient.VAGstreamer (CHANGE_SUCCESS stopAll)
open LiveStreamer.StreamerClient.ClientComm (Client Answers Outcome SIGStatus receive command
  commandOf receive_of_command off)
open LiveStreamer.StreamerClient.Modes (modes)
open LiveStreamer.StreamerClient.Replies (stopAll_ends command_handled_iff)
open LiveStreamer.Protocol.Messages
open LiveStreamer.Protocol.Exchange (reads_report commandOf_actText mode_handled handled_cases
  device globals succeeding)

/-! ### The two programs -/

/-- `clientComm` of the server. -/
inductive Srvr where
  /-- In `receiveData`. -/
  | waiting (g : Globals)
  /-- What is left of `msgParse`. -/
  | handling (p : SrvrProg Globals)
  /-- The loop has ended, and the socket is closed. -/
  | closed
  | crashed

/-- `clientComm` of the device. -/
inductive Dev where
  /-- Before `SIGStatus`. -/
  | reporting
  /-- In `receiveData`. -/
  | waiting
  /-- The loop has ended. -/
  | left
  /-- In the loop that stops the pipeline, with no answer that ends it. -/
  | stopping
  | crashed
  deriving DecidableEq

/-- The messages that have been sent; a report with the device that sends it. -/
inductive Ev where
  | report (c : Client) (text : Bytes)
  | reply (text : Bytes)

structure Sys where
  fs : Fs
  c : Client
  srvr : Srvr
  dev : Dev
  /-- The messages on their way, oldest first. -/
  toSrvr : List Bytes
  toDev : List Bytes
  /-- Newest first. -/
  log : List Ev

inductive Lbl where
  | SIGStatus
  /-- The server takes a message. -/
  | recv
  /-- The next operation of `msgParse`. -/
  | op
  /-- The device takes a message and carries it out; its GStreamer calls answer `a`. -/
  | receive (a : Answers)
  /-- A player stores an action, or asks for the status. -/
  | request (str : Bytes)
  /-- The sweep of an entry of the directory. -/
  | sweep (dName : Bytes)

/-- A step of the server's or of the device's loop. -/
def Lbl.own : Lbl → Bool
  | .request _ => false
  | .sweep _ => false
  | _ => true

/-- The loop of the server: `while (!ACK)`, and `close` after it. -/
def loop : SrvrProg Globals → Srvr
  | .ret g => if g.ACK then .closed else .waiting g
  | .abort => .crashed
  | p => .handling p

/-- An action without a character to escape, which fits a reply. -/
def Clean (s a : Bytes) : Prop := Plain a ∧ Fits .SIGAct s a

instance (s a : Bytes) : Decidable (Clean s a) := inferInstanceAs (Decidable (_ ∧ _))

section System
variable (cwd : Path) (s : Bytes)

/-- A step of the session of the stream `s`, or of a third party. Loads and saves succeed, and
players store clean actions, for any stream. -/
def step (x : Sys) : Lbl → Option Sys
  | .SIGStatus =>
    if x.dev = .reporting then
      some { x with
        dev := .waiting
        toSrvr := x.toSrvr ++ [SIGStatus x.c]
        log := .report x.c (SIGStatus x.c) :: x.log }
    else none
  | .recv =>
    match x.srvr, x.toSrvr with
    | .waiting g, text :: texts =>
      match receiveData g (some text) with
      | some g => some { x with srvr := loop (msgParse g g.tempBufS), toSrvr := texts }
      | none => some { x with srvr := .crashed, toSrvr := texts }
    | _, _ => none
  | .op =>
    match x.srvr with
    | .handling p =>
      (p.step (srvrSem cwd) x.fs).map fun r =>
        { x with
          srvr := loop r.1
          fs := r.2
          toDev := x.toDev ++ sent p.next.toList
          log := (sent p.next.toList).map .reply ++ x.log }
    | _ => none
  | .receive a =>
    match x.dev, x.toDev with
    | .waiting, text :: texts =>
      match receive a x.c text with
      | none => some { x with dev := .left, toDev := texts }
      | some (.handled c) => some { x with c, dev := .reporting, toDev := texts }
      | some (.stopping c) => some { x with c, dev := .stopping, toDev := texts }
      | some .crash => some { x with dev := .crashed, toDev := texts }
    | _, _ => none
  | .request str =>
    match field "streamId" str, field "action" str with
    | some _, some action =>
      if action = lit "status" ∨ Clean s action then
        some { x with fs := (exec (srvrSem cwd) (websocketWriteBack str) x.fs).2 }
      else none
    | _, _ => none
  | .sweep dName =>
    if (dName, false) ∈ entries (resolve cwd (lit "status/")) x.fs then
      match exec (fileSem cwd) (triggerFile dName) x.fs with
      | (some _, fs) => some { x with fs }
      | (none, _) => none
    else none

/-! ### Keeping in step -/

/-- A record with its fields, whose action is clean. -/
def Sound (o : Obj) : Prop := Whole o ∧ ∀ a, getEx o (lit "action") = some (.str a) → Clean s a

/-- The record of the stream, if it is there, is sound. -/
def Good (fs : Fs) : Prop := ∀ o, objAt cwd fs (jsonFileWithAddr (some s)) = some o → Sound s o

/-- The start of a session: the server waits, and the device is about to report. -/
structure Initial (x : Sys) : Prop where
  good : Good cwd s x.fs
  name : x.c.streamId = some s
  mode : x.c.status ∈ modes
  srvr : ∃ g, x.srvr = .waiting g ∧ g.ACK = false
  dev : x.dev = .reporting
  quiet : x.toSrvr = [] ∧ x.toDev = [] ∧ x.log = []

/-- **Reports and replies take turns**, newest first. A reply is an `ACK` or a command for the
stream of the report. A report carries the status of the device after it has carried out the reply
before; none follows an `ACK`, which is not carried out. -/
inductive Conversation (c₀ : Client) : List Ev → Prop
  | start : Conversation c₀ []
  | first : Conversation c₀ [.report c₀ (SIGStatus c₀)]
  | reply {c : Client} {text r : Bytes} {log : List Ev}
      (h : Conversation c₀ (.report c text :: log))
      (hr : r = ackText ∨ ∃ a, r = actText c.streamId (some a)) :
      Conversation c₀ (.reply r :: .report c text :: log)
  | report {c c' : Client} {text r : Bytes} {log : List Ev} {k : Answers}
      (h : Conversation c₀ (.reply r :: .report c text :: log))
      (hr : receive k c r = some (.handled c')) :
      Conversation c₀ (.report c' (SIGStatus c') :: .reply r :: .report c text :: log)

/-- Both loops have ended. -/
def Ended (x : Sys) : Prop := x.srvr = .closed ∧ x.dev = .left

/-- The server has sent the `ACK` that ends its loop. -/
def Leaving (x : Sys) : Prop :=
  x.srvr = .closed ∨ ∃ p, x.srvr = .handling p ∧ p.next = some (markDone s)

/-- **The two keep in step.** -/
structure InStep (c₀ : Client) (x : Sys) : Prop where
  single : x.toSrvr.length + x.toDev.length ≤ 1
  turns : Conversation c₀ x.log
  /-- The server leaves with the `ACK`, and so does the device. -/
  closes : Leaving s x ↔ x.log.head? = some (.reply ackText)
  leaves : x.dev = .left ∨ (x.dev = .waiting ∧ x.toDev = [ackText]) ↔
    x.log.head? = some (.reply ackText)
  /-- One of the two goes on until both have ended. -/
  moves : Ended x ∨ ∃ l, l.own = true ∧ (step cwd s x l).isSome = true
  /-- With more than nine steps of the two, there is another message. -/
  answers : ∀ ls x', run (step cwd s) x ls = some x' → 9 < ls.countP Lbl.own →
    x.log.length < x'.log.length

/-- A device that is sent `off` has made a pipeline, be it released since, and a change of its
state succeeds. -/
def CanStop (x : Sys) : Lbl → Prop
  | .receive a => x.dev = .waiting → ∀ text ∈ x.toDev.head?,
    commandOf x.c text = some (lit "off") →
      x.c.gst.ref .pipeline ≠ .null ∧ CHANGE_SUCCESS ∈ a.setState
  | _ => True

instance (x : Sys) : ∀ l, Decidable (CanStop x l)
  | .receive _ => inferInstanceAs (Decidable (_ → _))
  | .SIGStatus => isTrue trivial
  | .recv => isTrue trivial
  | .op => isTrue trivial
  | .request _ => isTrue trivial
  | .sweep _ => isTrue trivial

end System

/-! ### The record -/

section Record
variable {cwd : Path} {s : Bytes} {fs : Fs} {o : Obj}

theorem clean_of_short (hl : s.length ≤ 217) {a : Bytes} (ha : Plain a) (h5 : a.length ≤ 5) :
    Clean s a := by
  have hb : (Writer.SIGAct.blanks).length = 1 := rfl
  refine ⟨ha, ?_⟩
  rw [Fits, length_full, hb, MAXDATASIZE]
  omega

theorem sound_defaults (hl : s.length ≤ 217) (t : Bytes) : Sound s (defaults t) := by
  refine ⟨whole_defaults t, fun a ha => ?_⟩
  have hlive : getEx (defaults t) (lit "action") = some (.str (lit "live")) := rfl
  rw [hlive] at ha
  cases ha
  exact clean_of_short hl (by decide) (by decide)

theorem Sound.add (h : Sound s o) {jKey v : Bytes} (hv : jKey = lit "action" → Clean s v) :
    Sound s (add o jKey (.str v)) := by
  refine ⟨h.1.add jKey v, fun a ha => ?_⟩
  by_cases hk : jKey = lit "action"
  · rw [hk, getEx_add_self] at ha
    cases ha
    exact hv hk
  · rw [getEx_add_ne _ _ hk] at ha
    exact h.2 a ha

/-- A file that is written is another one, or a sound record. -/
theorem good_insert (h : Good cwd s fs) {p : Path} (ho : p = recordPath cwd s → Sound s o) :
    Good cwd s (fs.insert p (.obj o)) := by
  intro o' ho'
  by_cases hp : p = recordPath cwd s
  · rw [hp, recordPath, objAt_insert_self] at ho'
    cases ho'
    exact ho hp
  · refine h o' ?_
    have hne : resolve cwd (jsonFileWithAddr (some s)) ≠ p := Ne.symm hp
    rw [← ho', objAt, objAt, AList.lookup_insert_ne hne]

/-- What is read as a record under the path of the stream. -/
theorem good_record (h : Good cwd s fs) (hl : s.length ≤ 217) {t : Bytes}
    (ht : recordPath cwd t = recordPath cwd s) : Sound s (record cwd fs t) := by
  rw [record, objAt_congr ht]
  rcases hr : objAt cwd fs (jsonFileWithAddr (some s)) with _ | o
  · exact sound_defaults hl t
  · exact h o hr

theorem good_load (h : Good cwd s fs) (hl : s.length ≤ 217) (t : Bytes) :
    Good cwd s (load cwd fs t) := by
  unfold load
  split_ifs
  · exact h
  · exact good_insert h fun _ => sound_defaults hl t

theorem good_set (h : Good cwd s fs) (hl : s.length ≤ 217) (t : Bytes) {jKey v : Bytes}
    (hv : jKey = lit "action" → Clean s v) :
    Good cwd s (srvrSem cwd (.set jKey (some v) (some t)) fs).2 := by
  rw [srvrSem_set]
  exact good_insert h fun ht => (good_record h hl ht).add hv

theorem good_get (h : Good cwd s fs) (hl : s.length ≤ 217) (jKey t : Bytes) :
    Good cwd s (srvrSem cwd (.get jKey (some t)) fs).2 := by
  rcases hj : getEx (record cwd fs t) jKey with _ | j
  · have hx : srvrSem cwd (.get jKey (some t)) fs = (some none, store cwd fs t
        (add (record cwd fs t) (lit "action") (.str (lit "off")))) :=
      exec_getJsonValueFromFile_none cwd hj
    rw [hx]
    exact good_insert h fun ht => (good_record h hl ht).add fun _ =>
      clean_of_short hl (by decide) (by decide)
  · rw [srvrSem_get cwd hj]
    exact good_load h hl t

/-- **A field of a good record is read**, and an action is a clean one. -/
theorem good_read (h : Good cwd s fs) (hl : s.length ≤ 217) {jKey : Bytes} (hk : jKey ∈ keys) :
    ∃ v, srvrSem cwd (.get jKey (some s)) fs = (some (some v), load cwd fs s) ∧
      (jKey = lit "action" → Clean s v) := by
  have hs := good_record h hl rfl
  obtain ⟨v, hv⟩ := hs.1 jKey hk
  refine ⟨cstr v, srvrSem_get cwd hv, ?_⟩
  rintro rfl
  have hc := hs.2 v hv
  rwa [cstr_of_notMem hc.1.notMem_zero]

/-- The sweep of a file that can be read. -/
theorem good_sweep (h : Good cwd s fs) {dName : Bytes} {fs' : Fs}
    (hx : exec (fileSem cwd) (triggerFile dName) fs = (some (), fs')) : Good cwd s fs' := by
  rw [fileSem_eq] at hx
  rcases exec_triggerFile_cases cwd (fun _ => true) fs dName with hx' | ⟨o, ho, hx'⟩
  · rw [hx] at hx'
    cases hx'
  · rw [hx] at hx'
    cases hx'
    refine good_insert h fun hp => ?_
    have hat : objAt cwd fs (jsonFileWithAddr (some s)) = some o := by
      rw [← objAt_congr hp]
      exact ho
    exact (h o hat).add fun hk => absurd hk (by decide)

/-- **The request of a player** keeps the record good. -/
theorem good_request (h : Good cwd s fs) (hl : s.length ≤ 217) {str t action : Bytes}
    (hid : field "streamId" str = some t) (ha : field "action" str = some action)
    (hc : action = lit "status" ∨ Clean s action) :
    Good cwd s (exec (srvrSem cwd) (websocketWriteBack str) fs).2 := by
  by_cases hst : action = lit "status"
  · rw [hst] at ha
    rw [websocketWriteBack_query hid ha]
    have hg := good_get h hl (lit "status") t
    rcases hx : srvrSem cwd (.get (lit "status") (some t)) fs with ⟨_ | r, fs1⟩
    · rw [exec_call_none _ hx]
      rwa [hx] at hg
    · rw [exec_call_some _ hx, exec_call_some _ (srvrSem_lwsWrite cwd fs1 _)]
      rwa [hx] at hg
  · rw [websocketWriteBack_command hid ha hst]
    have hset := srvrSem_set cwd fs (lit "action") action t
    have hg : Good cwd s (srvrSem cwd (.set (lit "action") (some action) (some t)) fs).2 :=
      good_set h hl t fun _ => hc.resolve_left hst
    rw [exec_call_some _ hset, exec_call_some _ (srvrSem_lwsWrite cwd _ _)]
    rwa [hset] at hg

end Record

/-! ### What is left of the handling of a report -/

section Handling
variable (s : Bytes)

/-- What is left of `SIGAck` after its `send`. -/
def Closing (p : SrvrProg Globals) : Prop :=
  ∃ g, p = .call (markDone s) (fun _ => .ret g) ∧ g.ACK = true

/-- What is left after the reply `text`: the loop goes on after a command, and ends after an
`ACK`. -/
def Replied (text : Bytes) (p : SrvrProg Globals) : Prop :=
  (text = ackText ∧ Closing s p) ∨
    ∃ a g, text = actText (some s) (some a) ∧ Clean s a ∧ p = .ret g ∧ g.ACK = false

/-- Whatever clean actions are read, a reply is sent with one of the next `n` operations. -/
def Replying : ℕ → SrvrProg Globals → Prop
  | n + 1, .call (.set jKey value file) k =>
    jKey ≠ lit "action" ∧ (∃ v, value = some v) ∧ file = some s ∧ Replying n (k ())
  | n + 1, .call (.get jKey file) k =>
    jKey ∈ keys ∧ file = some s ∧
      ∀ v, (jKey = lit "action" → Clean s v) → Replying n (k (some v))
  | _ + 1, .call (.send _ text) k => Replied s text (k ())
  | _, _ => False

variable {s} {g : Globals}

theorem replying_SIGAck (hs : g.strmID = some s) (n : ℕ) : Replying s (n + 1) (SIGAck g) := by
  have hprog : SIGAck g = call (SrvrOp.send g.clntSock ackText) fun _ =>
      call (SrvrOp.set (lit "action") (some (lit "done")) g.strmID) fun _ =>
        ret { g with tempBufS := ackText, ACK := true } := rfl
  rw [hprog, hs]
  exact Or.inl ⟨rfl, _, rfl, rfl⟩

/-- A read of the action takes one operation more. -/
theorem replying_withAction (hs : g.strmID = some s) {n : ℕ} {k : Bytes → SrvrProg Globals}
    (h : ∀ a, Clean s a → Replying s n (k a)) : Replying s (n + 1) (withAction g k) :=
  ⟨mem_keys_action, hs, fun a ha => h a (ha rfl)⟩

theorem replying_SIGAct (hs : g.strmID = some s) (hA : g.ACK = false) (n : ℕ) :
    Replying s (n + 2) (SIGAct g) := by
  have hprog : SIGAct g = call (SrvrOp.get (lit "action") g.strmID) fun action =>
      call (SrvrOp.send g.clntSock (actText g.strmID action)) fun _ =>
        ret { g with tempBufS := actText g.strmID action } := rfl
  rw [hprog, hs]
  refine ⟨mem_keys_action, rfl, fun a ha => Or.inr ⟨a, _, rfl, ha rfl, rfl, hA⟩⟩

theorem replying_compareStatus (hs : g.strmID = some s) (hA : g.ACK = false) (status : Bytes)
    (n : ℕ) : Replying s (n + 3) (compareStatus g status) := by
  refine replying_withAction hs fun a ha => ?_
  by_cases he : status = a
  · rw [if_pos he]
    exact replying_SIGAck hs (n + 1)
  · rw [if_neg he]
    exact replying_SIGAct hs hA n

/-- The comparison reads the action up to three times, and once more for a command. -/
theorem replying_compareAction (hs : g.strmID = some s) (hA : g.ACK = false) (status : Bytes) :
    Replying s 5 (compareAction g status) := by
  refine replying_withAction hs fun a ha => ?_
  by_cases hd : a = lit "done"
  · rw [if_pos hd]
    exact replying_SIGAck hs 3
  rw [if_neg hd]
  by_cases hr : status = lit "ready"
  · rw [if_pos hr]
    refine replying_withAction hs fun b hb => ?_
    by_cases ho : b = lit "off"
    · rw [if_pos ho]
      exact replying_SIGAck hs 2
    · rw [if_neg ho]
      exact replying_compareStatus hs hA status 0
  · rw [if_neg hr]
    exact replying_compareStatus hs hA status 1

/-- **The handling of a report comes to a reply**, whatever it reads. -/
theorem replying_msgParse {msg status : Bytes} (hs : streamOf g (tokenerParse msg) = some s)
    (hst : field "status" msg = some status) (hA : g.ACK = false) :
    Replying s 8 (msgParse g msg) := by
  rw [msgParse_eq g hs hst]
  refine ⟨by decide, ⟨s, rfl⟩, rfl, by decide, ⟨status, rfl⟩, rfl, mem_keys_status, rfl, ?_⟩
  intro v _
  exact replying_compareAction (g := { g with strmID := some s }) rfl hA status

theorem loop_of_replying {n : ℕ} {p : SrvrProg Globals} (h : Replying s n p) :
    loop p = .handling p := by
  cases p with
  | ret g => cases n <;> exact h.elim
  | abort => cases n <;> exact h.elim
  | call o k => rfl

/-- **An operation of the handling**: it does not abort, and sends the reply or leaves less to
do. -/
theorem step_replying {cwd : Path} {fs fs' : Fs} {n : ℕ} {p p' : SrvrProg Globals}
    (hg : Good cwd s fs) (hl : s.length ≤ 217) (h : Replying s n p)
    (hx : p.step (srvrSem cwd) fs = some (p', fs')) :
    Good cwd s fs' ∧ ((sent p.next.toList = [] ∧ ∃ m, Replying s m p' ∧ m + 1 = n) ∨
      ∃ text, sent p.next.toList = [text] ∧ Replied s text p') := by
  rcases n with _ | n
  · cases p <;> exact h.elim
  cases p with
  | ret g => exact h.elim
  | abort => exact h.elim
  | call o k =>
    cases o with
    | set jKey value file =>
      obtain ⟨hk, ⟨v, rfl⟩, rfl, h⟩ := h
      obtain ⟨rfl, rfl⟩ := eq_of_step_call _ hx (srvrSem_set cwd fs jKey v s)
      refine ⟨?_, Or.inl ⟨rfl, n, h, rfl⟩⟩
      have hset := good_set (v := v) hg hl s fun he => absurd he hk
      rwa [srvrSem_set] at hset
    | get jKey file =>
      obtain ⟨hk, rfl, h⟩ := h
      obtain ⟨v, hv, hc⟩ := good_read hg hl hk
      obtain ⟨rfl, rfl⟩ := eq_of_step_call _ hx hv
      exact ⟨good_load hg hl s, Or.inl ⟨rfl, n, h v hc, rfl⟩⟩
    | send sock text =>
      obtain ⟨rfl, rfl⟩ := eq_of_step_call _ hx (srvrSem_send cwd fs sock text)
      exact ⟨hg, Or.inr ⟨text, rfl, h⟩⟩
    | lwsWrite text => exact h.elim

end Handling

/-! ### Whose turn it is -/

section Turns
variable (s : Bytes) (c₀ : Client)

/-- The device has carried out the last reply, if there has been one. -/
def Due (c : Client) (log : List Ev) : Prop :=
  (log = [] ∧ c = c₀) ∨ ∃ c' text r k log', log = .reply r :: .report c' text :: log' ∧
    receive k c' r = some (.handled c)

/-- What the server does after its `ACK`, in so many steps. -/
inductive Closes : ℕ → Srvr → Prop
  | closing {p : SrvrProg Globals} (hp : Closing s p) : Closes 1 (.handling p)
  | closed : Closes 0 .closed

/-- What the device does with an `ACK` that has been sent, in so many steps. -/
inductive Leaves : ℕ → Dev → List Bytes → Prop
  | waiting : Leaves 1 .waiting [ackText]
  | left : Leaves 0 .left []

/-- Whose turn it is; the next message is sent, or the session ends, with at most `n` steps of the
two. -/
inductive Turn : ℕ → Sys → Prop
  | reporting {fs : Fs} {c : Client} {g : Globals} {log : List Ev} (hg : g.ACK = false)
      (hc : Due c₀ c log) : Turn 1 ⟨fs, c, .waiting g, .reporting, [], [], log⟩
  | asked {fs : Fs} {c : Client} {g : Globals} {text : Bytes} {log : List Ev}
      (hg : g.ACK = false) :
      Turn 9 ⟨fs, c, .waiting g, .waiting, [SIGStatus c], [], .report c text :: log⟩
  | handling {fs : Fs} {c : Client} {p : SrvrProg Globals} {n : ℕ} {text : Bytes} {log : List Ev}
      (hp : Replying s n p) :
      Turn n ⟨fs, c, .handling p, .waiting, [], [], .report c text :: log⟩
  | commanded {fs : Fs} {c : Client} {g : Globals} {a text : Bytes} {log : List Ev}
      (hg : g.ACK = false) (ha : Clean s a) :
      Turn 2 ⟨fs, c, .waiting g, .waiting, [], [actText (some s) (some a)],
        .reply (actText (some s) (some a)) :: .report c text :: log⟩
  | acked {fs : Fs} {c : Client} {srvr : Srvr} {dev : Dev} {toDev : List Bytes} {m n : ℕ}
      {log : List Ev} (hs : Closes s m srvr) (hd : Leaves n dev toDev) :
      Turn (m + n) ⟨fs, c, srvr, dev, [], toDev, .reply ackText :: log⟩
  /-- The device does not come back from its loop. -/
  | stuck {fs : Fs} {c : Client} {g : Globals} {r : Bytes} {log : List Ev} (hr : r ≠ ackText) :
      Turn 0 ⟨fs, c, .waiting g, .stopping, [], [], .reply r :: log⟩

variable (cwd : Path)

structure Inv (n : ℕ) (x : Sys) : Prop where
  good : Good cwd s x.fs
  name : x.c.streamId = some s
  mode : x.c.status ∈ modes
  talk : Conversation c₀ x.log
  turn : Turn s c₀ n x
  soon : n ≤ 9

/-- What a step leaves: there is another message, or less to do for the two. -/
def Goes (n : ℕ) (x : Sys) (l : Lbl) (x' : Sys) : Prop :=
  ∃ m, Inv s c₀ cwd m x' ∧
    (x.log.length < x'.log.length ∨
      (x'.log = x.log ∧ m ≤ n ∧ (l.own = true → m < n)))

variable {s c₀ cwd} {n : ℕ} {x x' : Sys}

theorem inv_initial (hi : Initial cwd s x) : Inv s x.c cwd 1 x := by
  obtain ⟨hgood, hname, hmode, ⟨g, hsrvr, hg⟩, hdev, hquiet⟩ := hi
  obtain ⟨fs, c, srvr, dev, toSrvr, toDev, log⟩ := x
  simp only at hsrvr hdev hquiet
  obtain ⟨rfl, rfl, rfl⟩ := hquiet
  subst hsrvr hdev
  exact ⟨hgood, hname, hmode, .start, .reporting hg (Or.inl ⟨rfl, rfl⟩), by omega⟩

/-- A third party changes the record only. -/
theorem goes_of_good (hi : Inv s c₀ cwd n x) {fs : Fs} (hg : Good cwd s fs) {l : Lbl}
    (hl : l.own = false) : Goes s c₀ cwd n x l { x with fs } := by
  have hturn : Turn s c₀ n { x with fs } := by
    cases hi.turn with
    | reporting hg hc => exact .reporting hg hc
    | asked hg => exact .asked hg
    | handling hp => exact .handling hp
    | commanded hg ha => exact .commanded hg ha
    | acked hs hd => exact .acked hs hd
    | stuck hr => exact .stuck hr
  refine ⟨n, ⟨hg, hi.name, hi.mode, hi.talk, hturn, hi.soon⟩, Or.inr ⟨rfl, le_refl n, ?_⟩⟩
  intro hown
  rw [hl] at hown
  cases hown

/-- **The device reports.** -/
theorem goes_SIGStatus (hi : Inv s c₀ cwd n x) (h : step cwd s x .SIGStatus = some x') :
    Goes s c₀ cwd n x .SIGStatus x' := by
  obtain ⟨hgood, hname, hmode, htalk, hturn, -⟩ := hi
  simp only [step] at h
  split_ifs at h with hdev
  cases h
  cases hturn with
  | reporting hg hc =>
    refine ⟨9, ⟨hgood, hname, hmode, ?_, .asked hg, by omega⟩, Or.inl (by simp)⟩
    rcases hc with ⟨rfl, rfl⟩ | ⟨c', text, r, k, log', rfl, hr⟩
    · exact .first
    · exact .report htalk hr
  | asked hg => cases hdev
  | handling hp => cases hdev
  | commanded hg ha => cases hdev
  | acked hs hd =>
    cases hd with
    | waiting => cases hdev
    | left => cases hdev
  | stuck hr => cases hdev

/-- **The server takes a report.** -/
theorem goes_recv (hs : Plain s) (hl : s.length ≤ 217) (hi : Inv s c₀ cwd n x)
    (h : step cwd s x .recv = some x') : Goes s c₀ cwd n x .recv x' := by
  obtain ⟨hgood, hname, hmode, htalk, hturn, -⟩ := hi
  cases hturn with
  | @asked fs c g text log hg =>
    obtain ⟨-, hid, hst⟩ := reads_report hs hl hmode hname
    have htake : (SIGStatus c).take (MAXDATASIZE - 1) = SIGStatus c := by
      refine List.take_of_length_le ?_
      rw [SIGStatus, StreamerClient.ClientComm.statusText, length_snprintf]
      exact min_le_left _ _
    have hp : Replying s 8 (msgParse { g with tempBufS := SIGStatus c } (SIGStatus c)) :=
      replying_msgParse (streamOf_of_field hid) hst hg
    simp only [step, receiveData, Option.map_some, htake, loop_of_replying hp] at h
    cases h
    exact ⟨8, ⟨hgood, hname, hmode, htalk, .handling hp, by omega⟩,
      Or.inr ⟨rfl, by omega, fun _ => by omega⟩⟩
  | reporting hg hc => cases h
  | handling hp => cases h
  | commanded hg ha => cases h
  | acked hs hd =>
    cases hs with
    | closing hp => cases h
    | closed => cases h
  | stuck hr => cases h

/-- **The server takes an operation of the handling.** -/
theorem goes_op (hl : s.length ≤ 217) (hi : Inv s c₀ cwd n x)
    (h : step cwd s x .op = some x') : Goes s c₀ cwd n x .op x' := by
  obtain ⟨hgood, hname, hmode, htalk, hturn, hsoon⟩ := hi
  cases hturn with
  | @handling fs c p n text log hp =>
    obtain ⟨⟨p', fs'⟩, hx, he⟩ := Option.map_eq_some_iff.mp h
    cases he
    obtain ⟨hgood', ⟨hout, m, hp', rfl⟩ | ⟨r, hout, hr⟩⟩ := step_replying hgood hl hp hx
    · simp only [hout, loop_of_replying hp']
      exact ⟨m, ⟨hgood', hname, hmode, htalk, .handling hp', by omega⟩,
        Or.inr ⟨rfl, by omega, fun _ => by omega⟩⟩
    · simp only [hout]
      rcases hr with ⟨rfl, hclose⟩ | ⟨a, g, rfl, ha, rfl, hg⟩
      · have hloop : loop p' = .handling p' := by
          obtain ⟨g, rfl, -⟩ := hclose
          rfl
        rw [hloop]
        exact ⟨2, ⟨hgood', hname, hmode, .reply htalk (Or.inl rfl),
          .acked (.closing hclose) .waiting, by omega⟩, Or.inl (by simp)⟩
      · have hloop : loop (.ret g) = .waiting g := by rw [loop, hg, if_neg Bool.false_ne_true]
        rw [hloop]
        exact ⟨2, ⟨hgood', hname, hmode, .reply htalk (Or.inr ⟨a, by rw [hname]⟩),
          .commanded hg ha, by omega⟩, Or.inl (by simp)⟩
  | @acked fs c srvr dev toDev m n log hs hd =>
    cases hs with
    | closing hp =>
      -- what is left is to mark the action as done
      obtain ⟨g, rfl, hg⟩ := hp
      obtain ⟨⟨p', fs'⟩, hx, he⟩ := Option.map_eq_some_iff.mp h
      cases he
      obtain ⟨rfl, rfl⟩ := eq_of_step_call _ hx (srvrSem_set cwd _ _ _ _)
      have hloop : loop (.ret g) = .closed := by rw [loop, hg, if_pos rfl]
      have hgood' : Good cwd s (srvrSem cwd (markDone s) fs).2 := good_set hgood hl s fun _ =>
        clean_of_short hl (by decide) (by decide)
      rw [srvrSem_set] at hgood'
      have hsent : sent (some (markDone s)).toList = [] := rfl
      simp only [hloop, Prog.next, hsent, List.append_nil, List.map_nil, List.nil_append]
      exact ⟨_, ⟨hgood', hname, hmode, htalk, .acked .closed hd, by omega⟩,
        Or.inr ⟨rfl, by omega, fun _ => by omega⟩⟩
    | closed => cases h
  | reporting hg hc => cases h
  | asked hg => cases h
  | commanded hg ha => cases h
  | stuck hr => cases h

/-- **What a device makes of a command**: it carries it out, or does not come back from stopping
its pipeline. -/
theorem receive_actText {c : Client} {a : Bytes} (hs : Plain s) (ha : Clean s a)
    (hname : c.streamId = some s) (k : Answers) :
    commandOf c (actText (some s) (some a)) = some a ∧
      ((∃ c', receive k c (actText (some s) (some a)) = some (.handled c')) ∨
        ∃ c', receive k c (actText (some s) (some a)) = some (.stopping c') ∧
          c'.streamId = c.streamId ∧ c'.status = c.status) := by
  have hfit : s.length + a.length ≤ 222 := by
    have hf := ha.2
    have hb : (Writer.SIGAct.blanks).length = 1 := rfl
    rw [Fits, length_full, hb, MAXDATASIZE] at hf
    omega
  have hcmd := commandOf_actText hs ha.1 hfit hname
  refine ⟨hcmd, ?_⟩
  rw [receive_of_command k hcmd]
  unfold command
  split_ifs with h1 h2 h3
  · exact Or.inl ⟨_, rfl⟩
  · exact Or.inl ⟨_, rfl⟩
  · unfold off
    split_ifs with hstop
    · exact Or.inl ⟨_, rfl⟩
    · exact Or.inr ⟨_, rfl, rfl, rfl⟩
  · exact Or.inl ⟨_, rfl⟩

/-- **The device takes a reply.** -/
theorem goes_receive (hs : Plain s) {k : Answers} (hi : Inv s c₀ cwd n x)
    (h : step cwd s x (.receive k) = some x') : Goes s c₀ cwd n x (.receive k) x' := by
  obtain ⟨hgood, hname, hmode, htalk, hturn, hsoon⟩ := hi
  cases hturn with
  | @commanded fs c g a text log hg ha =>
    obtain ⟨-, ⟨c', hr⟩ | ⟨c', hr, hid, hst⟩⟩ := receive_actText hs ha hname k
    · simp only [step, hr] at h
      cases h
      refine ⟨1, ⟨hgood, (handled_cases hr).1.trans hname, mode_handled hmode hr, htalk,
        .reporting hg (Or.inr ⟨c, text, _, k, log, rfl, hr⟩), by omega⟩,
        Or.inr ⟨rfl, by omega, fun _ => by omega⟩⟩
    · simp only [step, hr] at h
      cases h
      exact ⟨0, ⟨hgood, hid.trans hname, by rw [hst]; exact hmode, htalk,
        .stuck (actText_ne_ack _ _), by omega⟩, Or.inr ⟨rfl, by omega, fun _ => by omega⟩⟩
  | acked hs hd =>
    cases hd with
    | waiting =>
      cases h
      exact ⟨_, ⟨hgood, hname, hmode, htalk, .acked hs .left, by omega⟩,
        Or.inr ⟨rfl, by omega, fun _ => by omega⟩⟩
    | left => cases h
  | reporting hg hc => cases h
  | asked hg => cases h
  | handling hp => cases h
  | stuck hr => cases h

/-- **What a step leaves.** -/
theorem goes_step (hs : Plain s) (hl : s.length ≤ 217) (hi : Inv s c₀ cwd n x) {l : Lbl}
    (h : step cwd s x l = some x') : Goes s c₀ cwd n x l x' := by
  cases l with
  | SIGStatus => exact goes_SIGStatus hi h
  | recv => exact goes_recv hs hl hi h
  | op => exact goes_op hl hi h
  | receive k => exact goes_receive hs hi h
  | request str =>
    simp only [step] at h
    split at h
    · next t action hid ha =>
      split_ifs at h with hc
      cases h
      exact goes_of_good hi (good_request hi.good hl hid ha hc) rfl
    · cases h
  | sweep dName =>
    simp only [step] at h
    split_ifs at h
    split at h
    · next hx =>
      cases h
      exact goes_of_good hi (good_sweep hi.good hx) rfl
    · cases h

/-- **What a run leaves.** -/
theorem goes_run (hs : Plain s) (hl : s.length ≤ 217) {ls : List Lbl}
    (hi : Inv s c₀ cwd n x) (hr : run (step cwd s) x ls = some x') :
    ∃ m, Inv s c₀ cwd m x' ∧ (x.log.length < x'.log.length ∨
      (x'.log = x.log ∧ ls.countP Lbl.own + m ≤ n)) := by
  induction ls generalizing n x with
  | nil =>
    cases hr
    exact ⟨n, hi, Or.inr ⟨rfl, by simp⟩⟩
  | cons l ls ih =>
    obtain ⟨x1, h1, h2⟩ := run_cons_eq_some.mp hr
    obtain ⟨m1, hi1, hgo1⟩ := goes_step hs hl hi h1
    obtain ⟨m, hi', hgo⟩ := ih hi1 h2
    refine ⟨m, hi', ?_⟩
    rcases hgo1 with hlt | ⟨hlog, hle, hown⟩
    · rcases hgo with hgo | ⟨hgo, -⟩
      · exact Or.inl (by omega)
      · exact Or.inl (by rw [hgo]; exact hlt)
    · rcases hgo with hgo | ⟨hgo, hm⟩
      · exact Or.inl (by rw [← hlog]; exact hgo)
      · refine Or.inr ⟨hgo.trans hlog, ?_⟩
        rw [List.countP_cons]
        split_ifs with ho
        · have := hown ho
          omega
        · omega

end Turns

/-! ### Keeping in step, and falling out of it -/

section InStep
variable {cwd : Path} {s : Bytes} {c₀ : Client} {n : ℕ} {x x' : Sys}

/-- A device that has carried out a reply has not had an `ACK`. -/
theorem head_of_due {c : Client} {log : List Ev} (h : Due c₀ c log) :
    log.head? ≠ some (.reply ackText) := by
  rcases h with ⟨rfl, -⟩ | ⟨c', text, r, k, log', rfl, hr⟩
  · simp
  · rintro he
    cases he
    cases hr

/-- Before the reply the action is not marked as done. -/
theorem next_of_replying {p : SrvrProg Globals} (h : Replying s n p) :
    p.next ≠ some (markDone s) := by
  rcases n with _ | n
  · cases p <;> exact h.elim
  cases p with
  | ret g => exact h.elim
  | abort => exact h.elim
  | call o k =>
    rintro he
    cases he
    exact h.1 rfl

theorem next_isSome_of_replying {p : SrvrProg Globals} (h : Replying s n p) :
    ∃ o, p.next = some o := by
  cases p with
  | ret g => cases n <;> exact h.elim
  | abort => cases n <;> exact h.elim
  | call o k => exact ⟨o, rfl⟩

theorem single_of_inv (hi : Inv s c₀ cwd n x) : x.toSrvr.length + x.toDev.length ≤ 1 := by
  cases hi.turn with
  | acked hs hd => cases hd <;> simp
  | _ => simp

/-- Who has had its turn goes on, unless the device is stuck. -/
theorem moves_of_inv (hi : Inv s c₀ cwd n x) (hd : x.dev ≠ .stopping) :
    Ended x ∨ ∃ l, l.own = true ∧ (step cwd s x l).isSome = true := by
  cases hi.turn with
  | reporting hg hc => exact Or.inr ⟨.SIGStatus, rfl, rfl⟩
  | asked hg => exact Or.inr ⟨.recv, rfl, rfl⟩
  | handling hp =>
    obtain ⟨o, ho⟩ := next_isSome_of_replying hp
    refine Or.inr ⟨.op, rfl, ?_⟩
    rw [step, Option.isSome_map]
    exact isSome_step _ ho _
  | @commanded fs c g a text log hg ha =>
    refine Or.inr ⟨.receive ⟨fun _ => true, []⟩, rfl, ?_⟩
    unfold step
    dsimp only
    split <;> rfl
  | acked hclose hleave =>
    cases hclose with
    | closing hp =>
      obtain ⟨g, rfl, -⟩ := hp
      refine Or.inr ⟨.op, rfl, ?_⟩
      rw [step, Option.isSome_map]
      exact isSome_step _ rfl _
    | closed =>
      cases hleave with
      | waiting => exact Or.inr ⟨.receive ⟨fun _ => true, []⟩, rfl, rfl⟩
      | left => exact Or.inl ⟨rfl, rfl⟩
  | stuck hr => exact absurd rfl hd

/-- The server leaves its loop with the `ACK` it has sent last. -/
theorem closes_of_inv (hi : Inv s c₀ cwd n x) :
    Leaving s x ↔ x.log.head? = some (.reply ackText) := by
  have hno {g : Globals} : ¬ (Srvr.waiting g = .closed ∨
      ∃ p, Srvr.waiting g = .handling p ∧ p.next = some (markDone s)) := by
    rintro (h | ⟨p, h, -⟩) <;> cases h
  cases hi.turn with
  | reporting hg hc => exact iff_of_false hno (head_of_due hc)
  | asked hg => exact iff_of_false hno (by simp)
  | handling hp =>
    refine iff_of_false ?_ (by simp)
    rintro (h | ⟨p, h, hnext⟩) <;> cases h
    exact next_of_replying hp hnext
  | @commanded fs c g a text log hg ha =>
    refine iff_of_false hno fun h => ?_
    exact actText_ne_ack (some s) (some a) (by simpa using h)
  | acked hclose hleave =>
    refine iff_of_true ?_ rfl
    cases hclose with
    | closing hp =>
      obtain ⟨g, rfl, -⟩ := hp
      exact Or.inr ⟨_, rfl, rfl⟩
    | closed => exact Or.inl rfl
  | stuck hr => exact iff_of_false hno (by simpa using hr)

/-- The device leaves its loop with the `ACK` that was sent last. -/
theorem leaves_of_inv (hi : Inv s c₀ cwd n x) :
    (x.dev = .left ∨ (x.dev = .waiting ∧ x.toDev = [ackText])) ↔
      x.log.head? = some (.reply ackText) := by
  cases hi.turn with
  | reporting hg hc => exact iff_of_false (by simp) (head_of_due hc)
  | asked hg => exact iff_of_false (by simp) (by simp)
  | handling hp => exact iff_of_false (by simp) (by simp)
  | @commanded fs c g a text log hg ha =>
    have hne := actText_ne_ack (some s) (some a)
    exact iff_of_false (by simpa using hne) (by simpa using hne)
  | acked hclose hleave =>
    refine iff_of_true ?_ rfl
    cases hleave with
    | waiting => exact Or.inr ⟨rfl, rfl⟩
    | left => exact Or.inl rfl
  | stuck hr => exact iff_of_false (by simp) (by simpa using hr)

/-- **A session whose device is not stuck is in step.** -/
theorem inStep_of_inv (hs : Plain s) (hl : s.length ≤ 217) (hi : Inv s c₀ cwd n x)
    (hd : x.dev ≠ .stopping) : InStep cwd s c₀ x where
  single := single_of_inv hi
  turns := hi.talk
  closes := closes_of_inv hi
  leaves := leaves_of_inv hi
  moves := moves_of_inv hi hd
  answers := by
    intro ls x' hr hown
    obtain ⟨m, -, hlt | ⟨-, hle⟩⟩ := goes_run hs hl hi hr
    · exact hlt
    · have := hi.soon
      omega

/-- A device that is stuck waits for no message, and has none sent. -/
theorem not_inStep_of_stopping (hi : Inv s c₀ cwd n x) (hd : x.dev = .stopping) :
    ¬ InStep cwd s c₀ x := by
  intro h
  cases hi.turn with
  | stuck hr =>
    rcases h.moves with ⟨hsrvr, -⟩ | ⟨l, hown, hl⟩
    · cases hsrvr
    · cases l <;> cases hown <;> cases hl
  | acked hclose hleave => cases hleave <;> cases hd
  | _ => cases hd

/-- **A command is carried out** if it is not `off`, or there is a pipeline to stop. -/
theorem receive_handled_iff {c : Client} {a : Bytes} (hs : Plain s) (ha : Clean s a)
    (hname : c.streamId = some s) (k : Answers) :
    (∃ c', receive k c (actText (some s) (some a)) = some (.handled c')) ↔
      (commandOf c (actText (some s) (some a)) = some (lit "off") →
        c.gst.ref .pipeline ≠ .null ∧ CHANGE_SUCCESS ∈ k.setState) := by
  have hcmd := (receive_actText hs ha hname k).1
  rw [receive_of_command k hcmd, hcmd, Option.some.injEq, ← command_handled_iff]
  simp

/-- **A device gets stuck** with a step that finds it unable to stop, and with no other. -/
theorem stopping_iff (hs : Plain s) (hi : Inv s c₀ cwd n x) (hd : x.dev ≠ .stopping) {l : Lbl}
    (h : step cwd s x l = some x') : x'.dev = .stopping ↔ ¬ CanStop x l := by
  have hother {dev : Dev} (hdev : dev ≠ .stopping) : dev = .stopping ↔ ¬ True :=
    iff_of_false hdev (not_not.mpr trivial)
  cases l with
  | SIGStatus =>
    simp only [step] at h
    split_ifs at h
    cases h
    exact hother (by simp)
  | recv =>
    simp only [step] at h
    split at h
    · cases h
      exact hother hd
    · cases h
  | op =>
    simp only [step] at h
    split at h
    · obtain ⟨r, -, he⟩ := Option.map_eq_some_iff.mp h
      cases he
      exact hother hd
    · cases h
  | receive k =>
    cases hi.turn with
    | @commanded fs c g a text log hg ha =>
      have hiff := receive_handled_iff hs ha hi.name k
      have hcan : CanStop ⟨fs, c, .waiting g, .waiting, [], [actText (some s) (some a)],
          .reply (actText (some s) (some a)) :: .report c text :: log⟩ (.receive k) ↔
          (commandOf c (actText (some s) (some a)) = some (lit "off") →
            c.gst.ref .pipeline ≠ .null ∧ CHANGE_SUCCESS ∈ k.setState) := by
        simp [CanStop]
      rw [hcan, ← hiff]
      rcases (receive_actText hs ha hi.name k).2 with ⟨c', hr⟩ | ⟨c', hr, -⟩
      · simp only [step, hr] at h
        cases h
        exact iff_of_false (by simp) (not_not.mpr ⟨c', hr⟩)
      · simp only [step, hr] at h
        cases h
        refine iff_of_true rfl ?_
        rintro ⟨c'', hr'⟩
        rw [hr] at hr'
        cases hr'
    | acked hclose hleave =>
      cases hleave with
      | waiting =>
        cases h
        refine iff_of_false (by simp) (not_not.mpr ?_)
        intro _ text ht hcmd
        cases ht
        exact absurd hcmd (by simp [commandOf])
      | left => cases h
    | _ => cases h
  | request str =>
    simp only [step] at h
    split at h
    · split_ifs at h
      cases h
      exact hother hd
    · cases h
  | sweep dName =>
    simp only [step] at h
    split_ifs at h
    split at h
    · cases h
      exact hother hd
    · cases h

/-- A step that finds the device unable to stop can be taken. -/
theorem step_of_not_canStop {l : Lbl} (h : ¬ CanStop x l) : ∃ x', step cwd s x l = some x' := by
  cases l with
  | receive k =>
    obtain ⟨fs, c, srvr, dev, toSrvr, toDev, log⟩ := x
    simp only [CanStop, Classical.not_imp, not_forall] at h
    obtain ⟨rfl, text, ht, -⟩ := h
    obtain ⟨texts, rfl⟩ : ∃ texts, toDev = text :: texts := by
      rcases toDev with _ | ⟨t, texts⟩
      · cases ht
      · cases ht
        exact ⟨texts, rfl⟩
    rw [← Option.isSome_iff_exists]
    simp only [step]
    split <;> rfl
  | _ => exact absurd trivial h

/-- A session that is in step all along has never found the device unable to stop. -/
theorem meets_of_inStep (hs : Plain s) (hl : s.length ≤ 217) {ls : List Lbl}
    (hi : Inv s c₀ cwd n x) (hd : x.dev ≠ .stopping)
    (h : ∀ ls', ls' <+: ls → ∀ x', run (step cwd s) x ls' = some x' → InStep cwd s c₀ x') :
    Meets (step cwd s) CanStop x ls := by
  induction ls generalizing n x with
  | nil => trivial
  | cons l ls ih =>
    have hcan : CanStop x l := by
      by_contra hno
      obtain ⟨x1, h1⟩ : ∃ x1, step cwd s x l = some x1 := step_of_not_canStop hno
      obtain ⟨m, hi1, -⟩ := goes_step hs hl hi h1
      have hrun : run (step cwd s) x [l] = some x1 := run_cons_eq_some.mpr ⟨x1, h1, rfl⟩
      exact not_inStep_of_stopping hi1 ((stopping_iff hs hi hd h1).mpr hno)
        (h [l] (by simp) x1 hrun)
    refine ⟨hcan, fun x1 h1 => ?_⟩
    obtain ⟨m, hi1, -⟩ := goes_step hs hl hi h1
    refine ih hi1 (fun hst => (stopping_iff hs hi hd h1).mp hst hcan) fun ls' hp x' hr => ?_
    exact h (l :: ls') (List.cons_prefix_cons.mpr ⟨rfl, hp⟩) x'
      (run_cons_eq_some.mpr ⟨x1, h1, hr⟩)

/-- **When a session keeps in step**: in every state of a run if no step of it finds the device
unable to stop, and in no other run. -/
theorem inStep_iff (hs : Plain s) (hl : s.length ≤ 217) (hi : Initial cwd s x) (ls : List Lbl) :
    (∀ ls', ls' <+: ls → ∀ x', run (step cwd s) x ls' = some x' → InStep cwd s x.c x') ↔
      Meets (step cwd s) CanStop x ls := by
  have hinv := inv_initial hi
  have hdev : x.dev ≠ .stopping := by
    rw [hi.dev]
    exact Dev.noConfusion
  refine ⟨meets_of_inStep hs hl hinv hdev, ?_⟩
  rintro hm ls' ⟨ls'', rfl⟩ x' hr
  have hkeep : ∀ y l y', (∃ m, Inv s x.c cwd m y) ∧ y.dev ≠ .stopping → CanStop y l →
      step cwd s y l = some y' → (∃ m, Inv s x.c cwd m y') ∧ y'.dev ≠ .stopping := by
    rintro y l y' ⟨⟨m, hy⟩, hd⟩ hcan hstep
    obtain ⟨m', hy', -⟩ := goes_step hs hl hy hstep
    exact ⟨⟨m', hy'⟩, fun h => (stopping_iff hs hy hd hstep).mp h hcan⟩
  obtain ⟨⟨m, hx'⟩, hd⟩ := (hm.of_append).1.inv hkeep ⟨⟨1, hinv⟩, hdev⟩ hr
  exact inStep_of_inv hs hl hx' hd

end InStep

/-! ### A command that is carried out, and one that is not -/

/-- A device that has just been started, and a server without a record. -/
def start : Sys where
  fs := ∅
  c := device
  srvr := .waiting globals
  dev := .reporting
  toSrvr := []
  toDev := []
  log := []

/-- The device is told to go live, and reports that it is. -/
def carriedOut : List Lbl :=
  [.SIGStatus, .recv] ++ List.replicate 8 .op ++ [.receive succeeding, .SIGStatus]

/-- The player turns the stream off between the second and the third read of the action. -/
def raced : List Lbl :=
  [.SIGStatus, .recv] ++ List.replicate 5 .op ++
    [.request (lit "\x7b\"streamId\":\"cam\",\"action\":\"off\"\x7d"), .op, .op, .op,
      .receive succeeding]

theorem initial_start : Initial [] (lit "cam") start where
  good := fun o h => by cases h
  name := rfl
  mode := by decide
  srvr := ⟨_, rfl, rfl⟩
  dev := rfl
  quiet := ⟨rfl, rfl, rfl⟩

theorem inStep_iff_live : ∃ x, run (step [] (lit "cam")) start carriedOut = some x ∧
    x.c.status = lit "live" ∧ InStep [] (lit "cam") start.c x := by
  have hrun : ((run (step [] (lit "cam")) start carriedOut).map fun x => x.c.status) =
      some (lit "live") := by decide +kernel
  obtain ⟨x, hr, hst⟩ := Option.map_eq_some_iff.mp hrun
  exact ⟨x, hr, hst, (inStep_iff (by decide) (by decide) initial_start carriedOut).mpr
    (by decide +kernel) carriedOut (List.prefix_refl _) x hr⟩

/-- **A player that turns off a stream that is about to go live**: the server has not found `off`
in its test for a device that is ready, and sends it in its reply. -/
theorem off_between_reads : ¬ ∀ (cwd : Path) (s : Bytes) (x x' : Sys) (ls : List Lbl), Plain s →
    s.length ≤ 217 → Initial cwd s x → run (step cwd s) x ls = some x' →
      InStep cwd s x.c x' := by
  intro h
  have hrun : ((run (step [] (lit "cam")) start raced).map fun x => x.dev) =
      some .stopping := by decide +kernel
  obtain ⟨x, hr, hst⟩ := Option.map_eq_some_iff.mp hrun
  obtain ⟨m, hi, -⟩ := goes_run (by decide) (by decide) (inv_initial initial_start) hr
  exact not_inStep_of_stopping hi hst
    (h [] (lit "cam") start x raced (by decide) (by decide) initial_start hr)

end LiveStreamer.Protocol.Lockstep
