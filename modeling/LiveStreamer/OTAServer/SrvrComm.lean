import LiveStreamer.Lib.Program
import LiveStreamer.Lib.Tokener

/-! # A request to OTAServer (`srvrComm.c`, `server.c`, `srvrJson.c`)

A thread receives one request, answers it and closes the socket. How it parses the request is left
to the library (`JsonC`). The descriptor `clntSock` and the buffer `tempBuff` are global variables
of the process, so a thread is a program over the uses of them. `connSem` is what these uses do for
a thread that has set `clntSock` to the socket of its client and is not disturbed. The file
`status.json` of the server is never written. -/

namespace LiveStreamer.OTAServer.SrvrComm

open LiveStreamer.Lib.CString LiveStreamer.Lib.Program LiveStreamer.Lib.Program.Prog
open LiveStreamer.Lib.Tokener

def MAXDATASIZE : ℕ := 255

/-! ### The store (`srvrJson.c`) -/

/-- What is in `status.json`: there may be no file, or no object in it. -/
abbrev StatusFile := Option (Option Obj)

def jsonFromFile : StatusFile → Option Obj
  | none => some []
  | some jobj => jobj

def getJsonValueFromFile (file : StatusFile) (jKey : Bytes) : Option Bytes :=
  ((jsonFromFile file).bind fun tempJson => getEx tempJson jKey).bind getString

def getJsonValueFromObj (tempJson : Option Json) (jKey : Bytes) : Option Bytes :=
  memberString jKey tempJson

/-- A field of a message. -/
def field [JsonC] (jKey : String) (msg : Bytes) : Option Bytes :=
  getJsonValueFromObj (JsonC.parse msg) (lit jKey)

/-! ### The thread of a client -/

/-- The uses of the global variables. -/
inductive SrvrOp where
  /-- `clntSock = sock`. -/
  | setSock (sock : ℕ)
  /-- `recv` from `clntSock` into `tempBuff`; false if it fails. -/
  | recv
  /-- The text in `tempBuff`. -/
  | readBuff
  /-- `snprintf` of a text into `tempBuff`. -/
  | format (text : Bytes)
  /-- `send` of `tempBuff` to `clntSock`. -/
  | send
  /-- `close` of `clntSock`. -/
  | close
  deriving DecidableEq

@[reducible] def SrvrRet : SrvrOp → Type
  | .setSock _ => Unit
  | .recv => Bool
  | .readBuff => Bytes
  | .format _ => Unit
  | .send => Unit
  | .close => Unit

abbrev SrvrProg := Prog SrvrOp SrvrRet

/-- `strcmp(a, b) == 0`, which needs two strings. -/
def strEq (a b : Option Bytes) : SrvrProg Bool :=
  match a, b with
  | some a, some b => ret (a = b)
  | _, _ => abort

def sendData : SrvrProg Unit := op SrvrOp.send

/-- A failed `recv` ends the process. -/
def receiveData : SrvrProg Unit := do
  if ← op SrvrOp.recv then ret () else abort

/-- The text that tells a client that it has the latest version. -/
def updatedText : Bytes := lit "\x7b \"status\" : \"updated\" \x7d\n"

/-- The text that offers a client the package; the version stands in it without quotes. -/
def availableText (version : Option Bytes) : Bytes :=
  lit "\x7b \"status\" : \"available\"," ++
    lit "\"addr\" : \"http://103.226.217.136/UpdatePackage.tar.xz\"" ++
    lit ",\"package\" : \"UpdatePackage.tar.xz\",\"version\" : " ++ percentS version ++
    lit " \x7d\n"

section Thread
variable [JsonC] (file : StatusFile)

def SIGUpdated : SrvrProg Unit := do
  op (SrvrOp.format updatedText)
  sendData

def SIGAvailable : SrvrProg Unit := do
  op (SrvrOp.format (availableText (getJsonValueFromFile file (lit "version"))))
  sendData

/-- The text of the message is in the global buffer until it is parsed. -/
def msgParse : SrvrProg Unit := do
  let tempStr ← op SrvrOp.readBuff
  let jobj := JsonC.parse tempStr
  let act := getJsonValueFromObj jobj (lit "action")
  if ← strEq act (some (lit "update")) then
    let verTrgt := getJsonValueFromObj jobj (lit "version")
    let verLatest := getJsonValueFromFile file (lit "version")
    if ← strEq verTrgt verLatest then SIGUpdated else SIGAvailable file
  else ret ()

def receive : SrvrProg Unit := do
  receiveData
  msgParse file

def handleTCPClient (clntSockAddr : ℕ) : SrvrProg Unit := do
  op (SrvrOp.setSock clntSockAddr)
  receive file
  op SrvrOp.close

/-- A thread that has set the socket. -/
def handling : SrvrProg Unit := do
  receive file
  op SrvrOp.close

theorem handleTCPClient_eq (sock : ℕ) :
    handleTCPClient file sock = call (SrvrOp.setSock sock) fun _ => handling file := rfl

end Thread

/-! ### A connection -/

/-- What happens on the connection of a client. -/
inductive Event where
  | request (msg : Bytes)
  | reply (text : Bytes)
  | closed
  deriving DecidableEq

/-- A connection: its socket, the message that waits in it, and what has happened on it. -/
structure Conn where
  sock : ℕ
  inbox : Option Bytes
  log : List Event

namespace Conn

def Open (c : Conn) : Prop := Event.closed ∉ c.log

instance (c : Conn) : Decidable c.Open := inferInstanceAs (Decidable (_ ∉ _))

def push (e : Event) (c : Conn) : Conn := { c with log := c.log ++ [e] }

def taken (c : Conn) : Conn := { c with inbox := none }

@[simp] theorem push_sock (e : Event) (c : Conn) : (c.push e).sock = c.sock := rfl

@[simp] theorem push_inbox (e : Event) (c : Conn) : (c.push e).inbox = c.inbox := rfl

@[simp] theorem push_log (e : Event) (c : Conn) : (c.push e).log = c.log ++ [e] := rfl

@[simp] theorem taken_sock (c : Conn) : c.taken.sock = c.sock := rfl

@[simp] theorem taken_inbox (c : Conn) : c.taken.inbox = none := rfl

@[simp] theorem taken_log (c : Conn) : c.taken.log = c.log := rfl

end Conn

/-- A `snprintf` into `tempBuff`. -/
def formatted (text : Bytes) : Bytes := snprintf MAXDATASIZE text

/-- What a `recv` puts into `tempBuff`. -/
def received (msg : Bytes) : Bytes := msg.take (MAXDATASIZE - 1)

/-- The operations of a thread that has the global variables for itself, on its connection and
`tempBuff`, until it has closed its socket. -/
def connSem : Sem SrvrOp SrvrRet (Conn × Bytes) := fun o v =>
  if v.1.Open then
    match o with
    | .setSock _ => (none, v)
    | .recv =>
      match v.1.inbox with
      | some msg => (some true, v.1.taken, received msg)
      | none => (none, v)
    | .readBuff => (some v.2, v)
    | .format text => (some (), v.1, formatted text)
    | .send => (some (), v.1.push (.reply v.2), v.2)
    | .close => (some (), v.1.push .closed, v.2)
  else (none, v)

theorem strEq_some (a b : Bytes) : strEq (some a) (some b) = ret (decide (a = b)) := rfl

theorem connSem_open {v : Conn × Bytes} (h : v.1.Open) :
    connSem .readBuff v = (some v.2, v) ∧
    (∀ text, connSem (.format text) v = (some (), v.1, formatted text)) ∧
    connSem .send v = (some (), v.1.push (.reply v.2), v.2) ∧
    connSem .close v = (some (), v.1.push .closed, v.2) := by
  simp [connSem, h]

theorem connSem_recv {v : Conn × Bytes} (h : v.1.Open) {msg : Bytes} (hm : v.1.inbox = some msg) :
    connSem .recv v = (some true, v.1.taken, received msg) := by
  simp [connSem, h, hm]

theorem log_connSem (o : SrvrOp) (v : Conn × Bytes) : v.1.log <+: (connSem o v).2.1.log := by
  unfold connSem
  split_ifs
  · cases o with
    | recv => rcases v.1.inbox with _ | msg <;> exact List.prefix_rfl
    | setSock sock => exact List.prefix_rfl
    | readBuff => exact List.prefix_rfl
    | format text => exact List.prefix_rfl
    | send => exact List.prefix_append ..
    | close => exact List.prefix_append ..
  · exact List.prefix_rfl

theorem sock_connSem (o : SrvrOp) (v : Conn × Bytes) : (connSem o v).2.1.sock = v.1.sock := by
  unfold connSem
  split_ifs
  · cases o with
    | recv => rcases v.1.inbox with _ | msg <;> rfl
    | _ => rfl
  · rfl

/-- A thread only adds to what has happened on its connection. -/
theorem log_exec (p : SrvrProg Unit) (v : Conn × Bytes) :
    v.1.log <+: (exec connSem p v).2.1.log := by
  induction p generalizing v with
  | ret a => exact List.prefix_rfl
  | abort => exact List.prefix_rfl
  | call o k ih =>
    have hstep := log_connSem o v
    rcases h : connSem o v with ⟨_ | r, v'⟩
    · rw [exec_call_none _ h]
      rwa [h] at hstep
    · rw [exec_call_some _ h]
      rw [h] at hstep
      exact hstep.trans (ih r v')

/-- After it has closed its socket a thread is at its end. -/
theorem eq_ret_of_closed {p : SrvrProg Unit} {v v' : Conn × Bytes} (hc : ¬ v.1.Open)
    (h : exec connSem p v = (some (), v')) : p = ret () ∧ v' = v := by
  cases p with
  | ret a =>
    cases h
    exact ⟨rfl, rfl⟩
  | abort => cases h
  | call o k =>
    have hs : connSem o v = (none, v) := if_neg hc
    rw [exec_call_none _ hs] at h
    cases h

/-! ### The answer to a request -/

section Serve
variable [JsonC] {file : StatusFile} {V : Bytes}

/-- A message that no thread fails on: it has an action, and an update request has a version. -/
def Harmless (msg : Bytes) : Prop :=
  ∃ act, field "action" (received msg) = some act ∧
    (act = lit "update" → ∃ v, field "version" (received msg) = some v)

instance (msg : Bytes) : Decidable (Harmless msg) :=
  match h : field "action" (received msg) with
  | none => isFalse fun ⟨_, ha, _⟩ => nomatch h.symm.trans ha
  | some act =>
    decidable_of_iff (act = lit "update" → (field "version" (received msg)).isSome = true) (by
      simp only [Harmless, h, Option.some.injEq, exists_eq_left', Option.isSome_iff_exists])

/-- The text that answers the request of a client with version `v`. -/
def answerText (V v : Bytes) : Bytes := if v = V then updatedText else availableText (some V)

/-- What the server sends for a message. -/
def replies (V msg : Bytes) : List Event :=
  match field "action" (received msg), field "version" (received msg) with
  | some act, some v =>
    if act = lit "update" then [.reply (formatted (answerText V v))] else []
  | _, _ => []

/-- What happens on a connection. -/
def expected (V msg : Bytes) : List Event := .request msg :: replies V msg ++ [.closed]

/-- Without an action nothing is sent, and neither for another action than `update`. -/
theorem replies_of_ne {msg act : Bytes} (ha : field "action" (received msg) = some act)
    (h : act ≠ lit "update") : replies V msg = [] := by
  unfold replies
  rw [ha]
  split
  · next hact _ =>
    cases hact
    rw [if_neg h]
  · rfl

theorem replies_of_update {msg v : Bytes} (ha : field "action" (received msg) = some (lit "update"))
    (hv : field "version" (received msg) = some v) :
    replies V msg = [.reply (formatted (answerText V v))] := by
  unfold replies
  rw [ha, hv]
  exact if_pos rfl

omit [JsonC] in
/-- The answer to a request. -/
theorem exec_answer (hV : getJsonValueFromFile file (lit "version") = some V) {c : Conn}
    (hc : c.Open) (v buff : Bytes) :
    exec connSem (if v = V then SIGUpdated else SIGAvailable file) (c, buff) =
      (some (), c.push (.reply (formatted (answerText V v))), formatted (answerText V v)) := by
  have hsend : ∀ text, exec connSem (do op (SrvrOp.format text); sendData) (c, buff) =
      (some (), c.push (.reply (formatted text)), formatted text) := by
    intro text
    have hf := (connSem_open (v := (c, buff)) hc).2.1 text
    have hs := (connSem_open (v := (c, formatted text)) hc).2.2.1
    rw [op_bind, exec_call_some _ hf, sendData, exec_op, hs]
  unfold answerText
  by_cases h : v = V
  · rw [if_pos h, if_pos h]
    exact hsend _
  · rw [if_neg h, if_neg h, SIGAvailable, hV]
    exact hsend _

/-- The answer to a message. -/
theorem exec_msgParse (hV : getJsonValueFromFile file (lit "version") = some V) {c : Conn}
    (hc : c.Open) {msg : Bytes} (hm : Harmless msg) :
    ∃ buff, exec connSem (msgParse file) (c, received msg) =
      (some (), { c with log := c.log ++ replies V msg }, buff) := by
  obtain ⟨act, ha, hver⟩ := hm
  have hread := (connSem_open (v := (c, received msg)) hc).1
  unfold msgParse
  rw [op_bind, exec_call_some _ hread]
  by_cases hact : act = lit "update"
  · obtain ⟨v, hv⟩ := hver hact
    rw [hact] at ha
    rw [replies_of_update ha hv]
    unfold field at ha hv
    refine ⟨formatted (answerText V v), ?_⟩
    simp only [ha, hv, hV, strEq_some, ret_bind, decide_true, if_true, decide_eq_true_eq]
    exact exec_answer hV hc v _
  · rw [replies_of_ne ha hact]
    unfold field at ha
    refine ⟨received msg, ?_⟩
    simp [ha, strEq_some, hact]

/-- **A thread that is not disturbed** answers its client and closes the socket. -/
theorem exec_handling (hV : getJsonValueFromFile file (lit "version") = some V) {c : Conn}
    {msg : Bytes} (hin : c.inbox = some msg) (hlog : c.log = [.request msg]) (hm : Harmless msg)
    (buff : Bytes) : ∃ c' buff', exec connSem (handling file) (c, buff) = (some (), c', buff') ∧
      c'.log = expected V msg := by
  have ho : c.Open := by simp [Conn.Open, hlog]
  have hrecv : exec connSem receiveData (c, buff) = (some (), c.taken, received msg) := by
    unfold receiveData
    rw [op_bind, exec_call_some _ (connSem_recv (v := (c, buff)) ho hin)]
    rfl
  obtain ⟨buff', hparse⟩ := exec_msgParse hV (c := c.taken) ho hm
  have hrep : Event.closed ∉ replies V msg := by
    unfold replies
    split
    · split_ifs <;> simp
    · simp
  have ho' : Conn.Open { c.taken with log := c.taken.log ++ replies V msg } := by
    show Event.closed ∉ c.log ++ replies V msg
    simp [hlog, hrep]
  have hclose := (connSem_open (v := (_, buff')) ho').2.2.2
  refine ⟨Conn.push .closed { c.taken with log := c.taken.log ++ replies V msg }, buff', ?_, ?_⟩
  · unfold handling receive
    rw [bind_assoc, exec_bind_some _ hrecv, exec_bind_some _ hparse, exec_op]
    exact hclose
  · show c.log ++ replies V msg ++ [.closed] = expected V msg
    rw [hlog]
    rfl

end Serve

end LiveStreamer.OTAServer.SrvrComm
