import LiveStreamer.Lib.StringCalls
import LiveStreamer.OTAServer.SrvrComm

/-! # The strings that OTAServer passes on (`srvrComm.c`)

`msgParse` with its calls of `strcmp` and of the functions with a `%s`, which `SrvrComm.msgParse`
leaves out (`erase_msgParse`). The action and the versions may be NULL. A `printf` of `tempBuff`,
which is an array, is not among the calls.

A message is harmless if and only if it has an action, and an update request has a version and so
has the file of the server (`harmless_iff_ready`). -/

namespace LiveStreamer.OTAServer.NullStrings

open LiveStreamer.Lib.CString LiveStreamer.Lib.Program LiveStreamer.Lib.Program.Prog
open LiveStreamer.Lib.StringCalls LiveStreamer.Lib.Tokener
open LiveStreamer.OTAServer.SrvrComm (SrvrOp SrvrRet SrvrProg StatusFile Conn Event Harmless
  connSem connSem_open field formatted received getJsonValueFromFile getJsonValueFromObj
  updatedText availableText strEq)

/-! ### The handling of a message -/

abbrev StrProg := Prog (StrOp SrvrOp) (StrRet SrvrRet)

def sendData : StrProg Unit := own SrvrOp.send

theorem erase_strEq (a b : Option Bytes) :
    erase (strcmp a b : StrProg Bool) = strEq a b := by
  rcases a with _ | a
  · rfl
  · rcases b with _ | b <;> rfl

theorem erase_ite (b : Bool) (p q : StrProg Unit) :
    erase (if b = true then p else q) = if b = true then erase p else erase q := by
  cases b <;> rfl

section Thread
variable [JsonC] (file : StatusFile)

def SIGUpdated : StrProg Unit := do
  own (SrvrOp.format updatedText)
  sendData

def SIGAvailable : StrProg Unit := do
  let version := getJsonValueFromFile file (lit "version")
  format [version]
  own (SrvrOp.format (availableText version))
  sendData

def msgParse : StrProg Unit := do
  let tempStr ← own SrvrOp.readBuff
  let jobj := JsonC.parse tempStr
  let act := getJsonValueFromObj jobj (lit "action")
  if ← strcmp act (some (lit "update")) then
    let verTrgt := getJsonValueFromObj jobj (lit "version")
    let verLatest := getJsonValueFromFile file (lit "version")
    format [verTrgt, verLatest]
    if ← strcmp verTrgt verLatest then SIGUpdated else SIGAvailable file
  else ret ()

/-- **Without the calls this is the thread of the server.** -/
theorem erase_msgParse : erase (msgParse file) = SrvrComm.msgParse file := by
  unfold msgParse SrvrComm.msgParse
  rw [erase_bind]
  refine congrArg (call SrvrOp.readBuff) (funext fun tempStr => ?_)
  show erase (strcmp _ _ >>= _) = (strEq _ _ >>= _)
  rw [erase_bind, erase_strEq]
  refine congrArg (strEq _ _ >>= ·) (funext fun hact => ?_)
  rw [erase_ite]
  cases hact with
  | false => rfl
  | true =>
    rw [if_pos rfl, if_pos rfl, erase_bind, erase_bind, erase_strEq]
    refine congrArg (strEq _ _ >>= ·) (funext fun hver => ?_)
    cases hver <;> rfl

end Thread

/-! ### Harmless messages -/

/-- The message is an update request with a version. -/
def UpdateRequest [JsonC] (str : Bytes) : Prop :=
  field "action" str = some (lit "update") ∧ field "version" str ≠ none

section Messages
variable [JsonC] (file : StatusFile)

/-- **The handling of a message completes**, gives NULL to no call, and sends nothing unless the
message is an update request with a version. -/
def SrvrHarmless (str : Bytes) : Prop :=
  ∀ c : Conn, c.Open → ∃ c' buff ops,
    exec (logged (withStrings connSem)) (msgParse file) ((c, str), []) =
      (some (), (c', buff), ops) ∧ (∀ o ∈ ops, NoNull o) ∧ (¬ UpdateRequest str → c'.log = c.log)

/-- The message has an action; and an update request has a version, as has the file. -/
def SrvrReady (str : Bytes) : Prop :=
  ∃ act, field "action" str = some act ∧ (act = lit "update" →
    field "version" str ≠ none ∧ getJsonValueFromFile file (lit "version") ≠ none)

variable {file} {str : Bytes}

/-- For a server with a version these are the messages that no thread fails on. -/
theorem ready_iff_harmless (hV : getJsonValueFromFile file (lit "version") ≠ none) (msg : Bytes) :
    SrvrReady file (received msg) ↔ Harmless msg := by
  refine exists_congr fun act => and_congr_right fun _ => ?_
  rw [and_iff_left hV, Option.ne_none_iff_exists']

theorem harmless_iff_clean : SrvrHarmless file str ↔ ∀ c : Conn, c.Open → CleanRun connSem
    (fun _ v => ¬ UpdateRequest str → v.1.log = c.log) (msgParse file) (c, str) := by
  refine forall_congr' fun c => imp_congr_right fun _ => ?_
  rw [CleanRun, clean_iff []]
  constructor
  · rintro ⟨c', buff, ops, hx, hP, hQ⟩
    exact ⟨(), (c', buff), ops, hx, hP, hQ⟩
  · rintro ⟨_, ⟨c', buff⟩, ops, hx, hP, hQ⟩
    exact ⟨c', buff, ops, hx, hP, hQ⟩

omit [JsonC] in
/-- An answer gives NULL to no call, if the file has a version. -/
theorem clean_answer (hV : getJsonValueFromFile file (lit "version") ≠ none)
    {Q : Unit → Conn × Bytes → Prop} (hQ : ∀ v, Q () v) {c : Conn} (hc : c.Open) (buff : Bytes)
    (b : Bool) :
    CleanRun connSem Q (if b = true then SIGUpdated else SIGAvailable file) (c, buff) := by
  have hsend (text : Bytes) : CleanRun connSem Q
      (do own (SrvrOp.format text); sendData) (c, buff) := by
    have hf := (connSem_open (v := (c, buff)) hc).2.1 text
    have hs := (connSem_open (v := (c, formatted text)) hc).2.2.1
    rw [clean_own hf, sendData, ← bind_pure (own SrvrOp.send), clean_own hs]
    exact hQ _
  cases b with
  | true => exact hsend updatedText
  | false =>
    show CleanRun connSem Q (SIGAvailable file) (c, buff)
    unfold SIGAvailable
    rw [clean_format]
    exact ⟨by simpa using hV.symm, hsend _⟩

/-- **Which messages are harmless.** -/
theorem harmless_iff_ready : SrvrHarmless file str ↔ SrvrReady file str := by
  rw [harmless_iff_clean]
  constructor
  · intro h
    have ho : Conn.Open ⟨0, none, []⟩ := List.not_mem_nil
    have hrun := h _ ho
    unfold msgParse at hrun
    rw [clean_own (connSem_open (v := (_, str)) ho).1, clean_strcmp] at hrun
    obtain ⟨act, _, hact, hup, hrun⟩ := hrun
    cases hup
    refine ⟨act, hact, fun he => ?_⟩
    -- the two versions are printed before they are compared
    rw [decide_eq_true he, if_pos rfl, clean_format] at hrun
    have hmem := hrun.1
    simp only [List.mem_cons, List.not_mem_nil, or_false, not_or] at hmem
    exact ⟨fun h => hmem.1 h.symm, fun h => hmem.2 h.symm⟩
  · rintro ⟨act, hact, hup⟩ c ho
    unfold msgParse
    rw [clean_own (connSem_open (v := (c, str)) ho).1, clean_strcmp]
    refine ⟨act, lit "update", hact, rfl, ?_⟩
    by_cases he : act = lit "update"
    · obtain ⟨hv, hV⟩ := hup he
      obtain ⟨v, hv'⟩ := Option.ne_none_iff_exists'.mp hv
      obtain ⟨V, hV'⟩ := Option.ne_none_iff_exists'.mp hV
      have hrequest : UpdateRequest str := ⟨he ▸ hact, hv⟩
      rw [decide_eq_true he, if_pos rfl, clean_format, clean_strcmp]
      refine ⟨?_, v, V, hv', hV', clean_answer hV (fun _ hno => absurd hrequest hno) ho _ _⟩
      simp only [List.mem_cons, List.not_mem_nil, or_false, not_or]
      exact ⟨fun h => hv h.symm, fun h => hV h.symm⟩
    · rw [decide_eq_false he, if_neg Bool.false_ne_true]
      exact fun _ => rfl

end Messages

end LiveStreamer.OTAServer.NullStrings
