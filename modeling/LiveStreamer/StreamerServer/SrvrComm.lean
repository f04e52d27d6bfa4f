import LiveStreamer.StreamerServer.SrvrJson

/-! # The device threads of StreamerServer (`srvrComm.c`)

The handling of a message is a program over the operations a thread does on what it shares with
the others: store or read a field of a record, send a buffer to a socket. The global variables of
the file are passed along. `srvrSem` runs each store operation as one step. -/

namespace LiveStreamer.StreamerServer.SrvrComm

open LiveStreamer.Lib.CString LiveStreamer.Lib.PathName LiveStreamer.Lib.Program
open LiveStreamer.Lib.Program.Prog LiveStreamer.Lib.Tokener
open LiveStreamer.StreamerServer.SrvrJson

/-- The size of the message buffers. -/
def MAXDATASIZE : ℕ := 255

/-- The operations on what the threads share. -/
inductive SrvrOp where
  | set (jKey : Bytes) (value file : Option Bytes)
  | get (jKey : Bytes) (file : Option Bytes)
  /-- `send` of a message buffer holding `text` to a device's socket. -/
  | send (sock : ℕ) (text : Bytes)
  /-- `lws_write` of a text to the player. -/
  | lwsWrite (text : Bytes)
  deriving DecidableEq

@[reducible] def SrvrRet : SrvrOp → Type
  | .set _ _ _ => Unit
  | .get _ _ => Option Bytes
  | .send _ _ => Unit
  | .lwsWrite _ => Unit

abbrev SrvrProg := Prog SrvrOp SrvrRet

/-- Each store operation runs as one step. -/
def srvrSem (cwd : Path) : Sem SrvrOp SrvrRet Fs
  | .set jKey value file, fs => exec (fileSem cwd) (setJsonValue jKey value file) fs
  | .get jKey file, fs => exec (fileSem cwd) (getJsonValueFromFile jKey file) fs
  | .send _ _, fs => (some (), fs)
  | .lwsWrite _, fs => (some (), fs)

theorem srvrSem_set (cwd : Path) (fs : Fs) (jKey v s : Bytes) :
    srvrSem cwd (.set jKey (some v) (some s)) fs =
      (some (), store cwd fs s (add (record cwd fs s) jKey (.str v))) :=
  exec_setJsonValue cwd fs jKey v s

theorem srvrSem_get (cwd : Path) {fs : Fs} {jKey s : Bytes} {j : Json}
    (h : getEx (record cwd fs s) jKey = some j) :
    srvrSem cwd (.get jKey (some s)) fs = (some (getString j), load cwd fs s) :=
  exec_getJsonValueFromFile cwd h

theorem srvrSem_send (cwd : Path) (fs : Fs) (sock : ℕ) (text : Bytes) :
    srvrSem cwd (.send sock text) fs = (some (), fs) := rfl

theorem srvrSem_lwsWrite (cwd : Path) (fs : Fs) (text : Bytes) :
    srvrSem cwd (.lwsWrite text) fs = (some (), fs) := rfl

def setValue (jKey : Bytes) (value file : Option Bytes) : SrvrProg Unit :=
  op (SrvrOp.set jKey value file)

def getValue (jKey : Bytes) (file : Option Bytes) : SrvrProg (Option Bytes) :=
  op (SrvrOp.get jKey file)

/-- `strcmp(a, b) == 0`, which needs two strings. -/
def strEq (a b : Option Bytes) : SrvrProg Bool :=
  match a, b with
  | some a, some b => ret (a = b)
  | _, _ => abort

/-- The global variables. -/
structure Globals where
  strmID : Option Bytes
  clntSock : ℕ
  ACK : Bool
  tempBufS : Bytes

def sendData (g : Globals) : SrvrProg Unit := op (SrvrOp.send g.clntSock g.tempBufS)

/-- The text of a command to a device. -/
def actText (strmID action : Option Bytes) : Bytes :=
  snprintf MAXDATASIZE (lit "\x7b \"streamId\" : \"" ++ percentS strmID ++
    lit "\",\"action\" : \"" ++ percentS action ++ lit "\"\x7d")

/-- The text of an acknowledgement. -/
abbrev ackText : Bytes := lit "ACK"

def SIGAct (g : Globals) : SrvrProg Globals := do
  let action ← getValue (lit "action") g.strmID
  let g := { g with tempBufS := actText g.strmID action }
  sendData g
  ret g

def SIGAck (g : Globals) : SrvrProg Globals := do
  let g := { g with tempBufS := snprintf MAXDATASIZE (lit "ACK") }
  sendData g
  let g := { g with ACK := true }
  setValue (lit "action") (some (lit "done")) g.strmID
  ret g

/-- The stream a message names; the last one, if it names none. -/
def streamOf (g : Globals) (jobj : Option Json) : Option Bytes :=
  match getJsonValueFromObj (lit "streamId") jobj with
  | some strmIDLcl => some strmIDLcl
  | none => g.strmID

def msgParse (g : Globals) (tempStr : Bytes) : SrvrProg Globals := do
  let jobj := tokenerParse tempStr
  let g := { g with strmID := streamOf g jobj }
  setValue (lit "streamId") g.strmID g.strmID
  setValue (lit "status") (getJsonValueFromObj (lit "status") jobj) g.strmID
  let _ ← getValue (lit "status") g.strmID
  let action ← getValue (lit "action") g.strmID
  if ← strEq action (some (lit "done")) then
    SIGAck g
  else
    -- `&&` reads the action again only if the status is ready
    let off ← do
      if ← strEq (getJsonValueFromObj (lit "status") jobj) (some (lit "ready")) then
        let action ← getValue (lit "action") g.strmID
        strEq action (some (lit "off"))
      else ret false
    if off then
      SIGAck g
    else
      let action ← getValue (lit "action") g.strmID
      if ← strEq (getJsonValueFromObj (lit "status") jobj) action then
        SIGAck g
      else
        SIGAct g

theorem actText_ne_ack (strmID action : Option Bytes) : actText strmID action ≠ ackText := by
  intro h
  have := congrArg List.head? h
  simp [actText, snprintf, MAXDATASIZE, lit] at this

/-- `receiveData` after a `recv`: the buffer holds what came; an error ends the process. -/
def receiveData (g : Globals) (data : Option Bytes) : Option Globals :=
  data.map fun d => { g with tempBufS := d.take (MAXDATASIZE - 1) }

/-! ### A message whose stream and status are known -/

/-- A field of a message. -/
def field (jKey : String) (msg : Bytes) : Option Bytes :=
  getJsonValueFromObj (lit jKey) (tokenerParse msg)

theorem notMem_field {jKey : String} {msg v : Bytes} (h : field jKey msg = some v) :
    (0 : UInt8) ∉ v := notMem_memberString h

theorem strEq_some (a b : Bytes) : strEq (some a) (some b) = ret (decide (a = b)) := rfl

theorem streamOf_of_field {g : Globals} {msg s : Bytes} (h : field "streamId" msg = some s) :
    streamOf g (tokenerParse msg) = some s := by
  unfold streamOf
  unfold field at h
  rw [h]

theorem streamOf_of_none {g : Globals} {msg : Bytes} (h : field "streamId" msg = none) :
    streamOf g (tokenerParse msg) = g.strmID := by
  unfold streamOf
  unfold field at h
  rw [h]

/-- Read the action and go on with it; a missing one ends the process. -/
def withAction (g : Globals) (k : Bytes → SrvrProg Globals) : SrvrProg Globals :=
  call (SrvrOp.get (lit "action") g.strmID) fun r =>
    match r with
    | some action => k action
    | none => abort

/-- The last comparison of `msgParse`. -/
def compareStatus (g : Globals) (status : Bytes) : SrvrProg Globals :=
  withAction g fun action => if status = action then SIGAck g else SIGAct g

/-- The comparison of a report with the stored action. -/
def compareAction (g : Globals) (status : Bytes) : SrvrProg Globals :=
  withAction g fun action =>
    if action = lit "done" then SIGAck g
    else if status = lit "ready" then
      withAction g fun action => if action = lit "off" then SIGAck g else compareStatus g status
    else compareStatus g status

/-- **The handling of a report**: its stream and its status are stored, and the status is compared
with the stored action. -/
theorem msgParse_eq (g : Globals) {msg s status : Bytes}
    (hs : streamOf g (tokenerParse msg) = some s) (hst : field "status" msg = some status) :
    msgParse g msg =
      call (SrvrOp.set (lit "streamId") (some s) (some s)) fun _ =>
        call (SrvrOp.set (lit "status") (some status) (some s)) fun _ =>
          call (SrvrOp.get (lit "status") (some s)) fun _ =>
            compareAction { g with strmID := some s } status := by
  have hcmp : (call (SrvrOp.get (lit "action") (some s)) fun r =>
      strEq (some status) r >>= fun b => if b = true then SIGAck { g with strmID := some s }
        else SIGAct { g with strmID := some s }) =
      compareStatus { g with strmID := some s } status := by
    unfold compareStatus withAction
    congr 1
    funext r
    rcases r with _ | a
    · rfl
    · simp [strEq_some]
  unfold field at hst
  simp only [msgParse, setValue, getValue, op_bind]
  rw [hs, hst]
  congr 1; funext _; congr 1; funext _; congr 1; funext _
  unfold compareAction withAction
  congr 1
  funext r
  rcases r with _ | a
  · rfl
  · simp only [strEq_some, ret_bind, decide_eq_true_eq]
    by_cases hd : a = lit "done"
    · rw [if_pos hd, if_pos hd]
    · rw [if_neg hd, if_neg hd]
      by_cases hr : status = lit "ready"
      · rw [if_pos hr, if_pos hr]
        congr 1
        funext r
        rcases r with _ | a
        · rfl
        · simp only [strEq_some, ret_bind, decide_eq_true_eq]
          by_cases ho : a = lit "off"
          · rw [if_pos ho, if_pos ho]
          · rw [if_neg ho, if_neg ho]
            exact hcmp
      · rw [if_neg hr, if_neg hr]
        exact hcmp

/-- **The rule of the comparison**: what the two replies have, and what a read of the action
keeps, the comparison has. -/
theorem compareAction_rule {P : SrvrProg Globals → Prop} {g : Globals}
    (hread : ∀ k, (∀ a, P (k a)) → P (withAction g k)) (hack : P (SIGAck g)) (hact : P (SIGAct g))
    (status : Bytes) : P (compareAction g status) := by
  have hcmp : P (compareStatus g status) := by
    refine hread _ fun a => ?_
    split_ifs
    · exact hack
    · exact hact
  refine hread _ fun a => ?_
  split_ifs
  · exact hack
  · refine hread _ fun b => ?_
    split_ifs
    · exact hack
    · exact hcmp
  · exact hcmp

/-! ### The handling of a message as one step -/

/-- The report of a status satisfies an action. -/
def Satisfies (status action : Bytes) : Prop :=
  status = action ∨ (status = lit "ready" ∧ action = lit "off")

instance (status action : Bytes) : Decidable (Satisfies status action) :=
  inferInstanceAs (Decidable (_ ∨ _))

/-- The report of a status is acknowledged. -/
def Acks (status action : Bytes) : Prop := action = lit "done" ∨ Satisfies status action

instance (status action : Bytes) : Decidable (Acks status action) :=
  inferInstanceAs (Decidable (_ ∨ _))

/-- The reply to the report of a status. -/
def answer (s status action : Bytes) : Bytes :=
  if Acks status action then ackText else actText (some s) (some action)

/-- A record after the report of a status. -/
def reported (s status : Bytes) (o : Obj) : Obj :=
  add (add o (lit "streamId") (.str s)) (lit "status") (.str status)

/-- A record after the reply to a report. -/
def answered (s status action : Bytes) (o : Obj) : Obj :=
  if Acks status action then add (reported s status o) (lit "action") (.str (lit "done"))
  else reported s status o

theorem getEx_answered_status (s status action : Bytes) (o : Obj) :
    getEx (answered s status action o) (lit "status") = some (.str status) := by
  unfold answered reported
  split_ifs
  · rw [getEx_add_ne _ _ (by decide), getEx_add_self]
  · rw [getEx_add_self]

/-- The texts that operations send to a device. -/
def sent (ops : List SrvrOp) : List Bytes :=
  ops.filterMap fun
    | .send _ text => some text
    | _ => none

section Serve
variable (cwd : Path)

/-- The handling of a message: what it sends, and the globals and the store after it; nothing if it
ends the process. -/
def serve (g : Globals) (fs : Fs) (msg : Bytes) : Option (List Bytes × Globals × Fs) :=
  match exec (logged (srvrSem cwd)) (msgParse g msg) (fs, []) with
  | (some g', fs', ops) => some (sent ops, g', fs')
  | (none, _) => none

variable {cwd} {g : Globals} {fs : Fs} {s a : Bytes}

theorem storedAction_eq_some : storedAction cwd s fs = some a ↔
    ∃ j, getEx (record cwd fs s) (lit "action") = some j ∧ getString j = some a :=
  Option.bind_eq_some_iff

theorem sent_append (ops ops' : List SrvrOp) : sent (ops ++ ops') = sent ops ++ sent ops' :=
  List.filterMap_append ..

variable (cwd g fs s a) in
/-- The program `p`, run on the store `fs`, answers the report of `status` for the stored action
`a`. -/
def Answering (status : Bytes) (p : SrvrProg Globals) : Prop :=
  ∀ ops, ∃ g' ops', exec (logged (srvrSem cwd)) p (fs, ops) = (some g', if Acks status a then
      store cwd fs s (add (record cwd fs s) (lit "action") (.str (lit "done"))) else fs, ops') ∧
    sent ops' = sent ops ++ [answer s status a] ∧
    g'.ACK = (g.ACK || decide (Acks status a)) ∧ g'.strmID = some s

theorem answering_SIGAck {status : Bytes} (hs : g.strmID = some s) (hA : Acks status a) :
    Answering cwd g fs s a status (SIGAck g) := by
  intro ops
  have hprog : SIGAck g = call (SrvrOp.send g.clntSock ackText) fun _ =>
      call (SrvrOp.set (lit "action") (some (lit "done")) g.strmID) fun _ =>
        ret { g with tempBufS := ackText, ACK := true } := rfl
  refine ⟨{ g with tempBufS := ackText, ACK := true }, ops ++ [.send g.clntSock ackText] ++
    [.set (lit "action") (some (lit "done")) (some s)], ?_, ?_, by simp [hA], hs⟩
  · rw [hprog, hs, exec_logged_some (srvrSem_send cwd fs _ _),
      exec_logged_some (srvrSem_set cwd fs _ _ _), exec_ret, if_pos hA]
  · rw [sent_append, sent_append, answer, if_pos hA, List.append_assoc]
    rfl

theorem answering_SIGAct {status : Bytes} (hs : g.strmID = some s)
    (ha : storedAction cwd s fs = some a) (hl : load cwd fs s = fs) (hA : ¬ Acks status a) :
    Answering cwd g fs s a status (SIGAct g) := by
  intro ops
  obtain ⟨j, hj, hv⟩ := storedAction_eq_some.mp ha
  have hget := srvrSem_get cwd hj
  rw [hv, hl] at hget
  have hprog : SIGAct g = call (SrvrOp.get (lit "action") g.strmID) fun action =>
      call (SrvrOp.send g.clntSock (actText g.strmID action)) fun _ =>
        ret { g with tempBufS := actText g.strmID action } := rfl
  refine ⟨{ g with tempBufS := actText (some s) (some a) }, ops ++ [.get (lit "action") (some s)] ++
    [.send g.clntSock (actText (some s) (some a))], ?_, ?_, by simp [hA], hs⟩
  · rw [hprog, hs, exec_logged_some hget, exec_logged_some (srvrSem_send cwd fs _ _), exec_ret,
      if_neg hA]
  · rw [sent_append, sent_append, answer, if_neg hA, List.append_assoc]
    rfl

/-- A read of the action goes on with the stored one. -/
theorem answering_withAction {status : Bytes} {k : Bytes → SrvrProg Globals}
    (hs : g.strmID = some s) (ha : storedAction cwd s fs = some a) (hl : load cwd fs s = fs)
    (h : Answering cwd g fs s a status (k a)) : Answering cwd g fs s a status (withAction g k) := by
  intro ops
  obtain ⟨j, hj, hv⟩ := storedAction_eq_some.mp ha
  have hget := srvrSem_get cwd hj
  rw [hv, hl] at hget
  obtain ⟨g', ops', hx, hops, hrest⟩ := h (ops ++ [.get (lit "action") (some s)])
  refine ⟨g', ops', ?_, ?_, hrest⟩
  · rw [withAction, hs, exec_logged_some hget, hx]
  · have hget0 : sent [.get (lit "action") (some s)] = [] := rfl
    rw [hops, sent_append, hget0, List.append_nil]

/-- The comparison of a report with the stored action. -/
theorem answering_compareAction (hs : g.strmID = some s) (ha : storedAction cwd s fs = some a)
    (hl : load cwd fs s = fs) (status : Bytes) :
    Answering cwd g fs s a status (compareAction g status) := by
  refine answering_withAction hs ha hl ?_
  by_cases hd : a = lit "done"
  · rw [if_pos hd]
    exact answering_SIGAck hs (Or.inl hd)
  have hcmp (hr : ¬ (status = lit "ready" ∧ a = lit "off")) :
      Answering cwd g fs s a status (compareStatus g status) := by
    refine answering_withAction hs ha hl ?_
    by_cases he : status = a
    · rw [if_pos he]
      exact answering_SIGAck hs (Or.inr (Or.inl he))
    · rw [if_neg he]
      exact answering_SIGAct hs ha hl fun h => h.elim hd fun h => h.elim he hr
  rw [if_neg hd]
  by_cases hr : status = lit "ready"
  · rw [if_pos hr]
    refine answering_withAction hs ha hl ?_
    by_cases ho : a = lit "off"
    · rw [if_pos ho]
      exact answering_SIGAck hs (Or.inr (Or.inr ⟨hr, ho⟩))
    · rw [if_neg ho]
      exact hcmp fun h => ho h.2
  · rw [if_neg hr]
    exact hcmp fun h => hr h.1

/-- **The handling of a report**: it is stored, and answered by an `ACK` or by the stored action. -/
theorem serve_report {msg status : Bytes} (hs : streamOf g (tokenerParse msg) = some s)
    (hst : field "status" msg = some status) (ha : storedAction cwd s fs = some a) :
    ∃ g', serve cwd g fs msg = some ([answer s status a], g',
        store cwd fs s (answered s status a (record cwd fs s))) ∧
      g'.ACK = (g.ACK || decide (Acks status a)) ∧ g'.strmID = some s := by
  set fs1 := store cwd fs s (add (record cwd fs s) (lit "streamId") (.str s)) with hfs1
  set fs2 := store cwd fs s (reported s status (record cwd fs s)) with hfs2
  have h2 : srvrSem cwd (.set (lit "status") (some status) (some s)) fs1 = (some (), fs2) := by
    rw [srvrSem_set, hfs1, record_store_self, store_store]
    rfl
  have h3 : srvrSem cwd (.get (lit "status") (some s)) fs2 =
      (some (getString (.str status)), fs2) := by
    rw [srvrSem_get cwd (j := .str status), load_store]
    rw [record_store_self]
    exact getEx_add_self _ _ _
  have ha2 : storedAction cwd s fs2 = some a := by
    rw [storedAction_store, reported, getEx_add_ne _ _ (by decide), getEx_add_ne _ _ (by decide)]
    exact ha
  obtain ⟨g', ops, hx, hops, hack, hid⟩ := answering_compareAction
    (g := { g with strmID := some s }) rfl ha2 (load_store cwd _ _ _) status
    [.set (lit "streamId") (some s) (some s), .set (lit "status") (some status) (some s),
      .get (lit "status") (some s)]
  refine ⟨g', ?_, hack, hid⟩
  have hrun : exec (logged (srvrSem cwd)) (msgParse g msg) (fs, []) = (some g',
      store cwd fs s (answered s status a (record cwd fs s)), ops) := by
    rw [msgParse_eq g hs hst, exec_logged_some (srvrSem_set cwd fs _ _ _), exec_logged_some h2,
      exec_logged_some h3]
    refine hx.trans ?_
    rw [hfs2, record_store_self, store_store, answered]
    split_ifs <;> rfl
  rw [serve, hrun]
  dsimp only
  rw [hops]
  rfl

end Serve

end LiveStreamer.StreamerServer.SrvrComm
