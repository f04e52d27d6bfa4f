import LiveStreamer.Lib.StringCalls
import LiveStreamer.OTAClient.Commands

/-! # The strings that OTAClient passes on (`clientComm.c`, `clientJson.c`)

`msgParse` as a program: its calls of `strcmp`, of `puts`, of the functions with a `%s` and of
`json_object_new_string`, and between them the `sprintf` into `tempBuff`, the shell and the file. A
`printf` of `tempBuff`, which is an array, is not among the calls. Where the script fits `tempBuff`
it does what `ClientComm.msgParse` says (`exec_msgParse`).

The status is compared, the package is put out, the address is printed, and the version is stored
after the script has run; each of them may be NULL. A message is harmless if and only if it has a
status, and an offer has all three fields and a script that fits, and there is an object in the
file (`harmless_iff_ready`). -/

namespace LiveStreamer.OTAClient.NullStrings

open LiveStreamer.Lib.CString LiveStreamer.Lib.Program LiveStreamer.Lib.Program.Prog
open LiveStreamer.Lib.StringCalls LiveStreamer.Lib.Tokener
open LiveStreamer.OTAClient.ClientComm (MAXDATASIZE StatusFile commandOf field getJsonValueFromObj
  getVersion msgParse_of_none msgParse_of_some scriptOf scriptOf_eq_some scriptOf_of_ne
  updateCommand)
open LiveStreamer.OTAClient.Commands (FieldsFit fits_iff)

/-! ### The handling of a message -/

/-- The operations of the client beside its calls. -/
inductive ClntOp where
  /-- `sprintf` of a text into `tempBuff`. -/
  | sprintf (text : Bytes)
  /-- `system(tempBuff)`. -/
  | system
  | fromFile
  | toFile (tempJson : Obj)

@[reducible] def ClntRet : ClntOp → Type
  | .sprintf _ => Unit
  | .system => Unit
  | .fromFile => Option Obj
  | .toFile _ => Unit

abbrev StrProg := Prog (StrOp ClntOp) (StrRet ClntRet)

def setJsonValue (jKey : Bytes) (value : Option Bytes) : StrProg Unit := do
  let tempJson ← own ClntOp.fromFile
  let newEntry ← newString value
  match tempJson with
  | some tempJson => own (ClntOp.toFile (add tempJson jKey (.str newEntry)))
  -- there is no object to add to
  | none => abort

def msgParse [JsonC] (tempStr : Bytes) : StrProg Unit := do
  let jobj := JsonC.parse tempStr
  if ← strcmp (getJsonValueFromObj jobj (lit "status")) (some (lit "available")) then
    let package := getJsonValueFromObj jobj (lit "package")
    puts package
    let addr := getJsonValueFromObj jobj (lit "addr")
    format [addr, package, package]
    own (ClntOp.sprintf (updateCommand addr package))
    own ClntOp.system
    let version := getJsonValueFromObj jobj (lit "version")
    setJsonValue (lit "version") version
    format [version]
  else ret ()

/-- The buffer, the file, and the commands that were given to the shell. -/
structure Clnt where
  tempBuff : Bytes
  file : StatusFile
  commands : List Bytes

/-- The operations. A text that does not fit `tempBuff` is written over the memory behind it, and
the client goes on from any state, or ends: `wild` is what becomes of it. -/
def clntSem (wild : Option Clnt) : Sem ClntOp ClntRet Clnt
  | .sprintf text, s =>
    if text.length < MAXDATASIZE then (some (), { s with tempBuff := text })
    else
      match wild with
      | some s' => (some (), s')
      | none => (none, s)
  | .system, s => (some (), { s with commands := s.commands ++ [s.tempBuff] })
  | .fromFile, s => (some s.file, s)
  | .toFile tempJson, s => (some (), { s with file := some tempJson })

section Ops
variable {wild : Option Clnt} {str : Bytes} {Q : Unit → Clnt → Prop}

theorem clntSem_sprintf {text : Bytes} (h : text.length < MAXDATASIZE) (s : Clnt) :
    clntSem wild (.sprintf text) s = (some (), { s with tempBuff := text }) := if_pos h

theorem clntSem_system (s : Clnt) : clntSem wild .system s =
    (some (), { s with commands := s.commands ++ [s.tempBuff] }) := rfl

/-- A text that does not fit may end the client. -/
theorem clntSem_overflow {text : Bytes} (h : ¬ text.length < MAXDATASIZE) (s : Clnt) :
    clntSem none (.sprintf text) s = (none, s) := if_neg h

/-- A value is stored if there is one, and an object to add it to. -/
theorem clean_setJsonValue (jKey : Bytes) (value : Option Bytes) (k : Unit → StrProg Unit)
    (s : Clnt) : CleanRun (clntSem wild) Q (setJsonValue jKey value >>= k) s ↔
      ∃ v o, value = some v ∧ s.file = some o ∧
        CleanRun (clntSem wild) Q (k ()) { s with file := some (add o jKey (.str v)) } := by
  have hfrom : clntSem wild .fromFile s = (some s.file, s) := rfl
  rw [setJsonValue, bind_assoc, clean_own hfrom, bind_assoc, clean_newString]
  refine exists_congr fun v => ?_
  rcases hfile : s.file with _ | o
  · refine ⟨fun h => h.2.elim, ?_⟩
    rintro ⟨o, -, ho, -⟩
    cases ho
  · have hto : clntSem wild (.toFile (add o jKey (.str v))) s =
        (some (), { s with file := some (add o jKey (.str v)) }) := rfl
    dsimp only
    rw [clean_own hto]
    constructor
    · rintro ⟨hv, hk⟩
      exact ⟨o, hv, rfl, hk⟩
    · rintro ⟨o', hv, ho, hk⟩
      cases ho
      exact ⟨hv, hk⟩

end Ops

/-! ### The two ways to say what a message does -/

section Messages
variable [JsonC]

/-- The handling in the words of the fields. -/
theorem msgParse_eq (str : Bytes) : msgParse str = (do
    if ← strcmp (field "status" str) (some (lit "available")) then
      puts (field "package" str)
      format [field "addr" str, field "package" str, field "package" str]
      own (ClntOp.sprintf (commandOf str))
      own ClntOp.system
      setJsonValue (lit "version") (field "version" str)
      format [field "version" str]
    else ret ()) := rfl

/-- What is left of an offer with a package without its calls. -/
theorem erase_offer {str package : Bytes} (h : field "status" str = some (lit "available"))
    (hp : field "package" str = some package) :
    erase (msgParse str) = call (ClntOp.sprintf (commandOf str)) fun _ =>
      call ClntOp.system fun _ =>
        erase (setJsonValue (lit "version") (field "version" str) >>= fun _ =>
          format [field "version" str]) := by
  rw [msgParse_eq, h, hp, erase_strcmp, decide_eq_true rfl]
  rfl

/-- A message without a script does nothing, but may end the client. -/
theorem erase_of_none {str : Bytes} (h : scriptOf str = none) :
    erase (msgParse str) = ret () ∨ erase (msgParse str) = abort := by
  rw [msgParse_eq]
  rcases hst : field "status" str with _ | status
  · exact Or.inr rfl
  · rw [erase_strcmp]
    by_cases hav : status = lit "available"
    · rcases hp : field "package" str with _ | package
      · rw [decide_eq_true hav]
        exact Or.inr rfl
      · have hsome : scriptOf str = some (commandOf str) := scriptOf_eq_some.mpr
          ⟨⟨hav ▸ hst, Option.ne_none_iff_exists'.mpr ⟨package, hp⟩⟩, rfl⟩
        rw [h] at hsome
        cases hsome
    · rw [decide_eq_false hav]
      exact Or.inl rfl

/-- **Where its script fits, a message does what the pure handler says.** -/
theorem exec_msgParse {str : Bytes} {file : StatusFile} {wild : Option Clnt}
    (h : ∀ script ∈ scriptOf str, script.length < MAXDATASIZE) (buff : Bytes) (w : StatusFile) :
    (exec (withStrings (clntSem wild)) (msgParse str) ⟨buff, file, []⟩).2.commands =
        (ClientComm.msgParse file str w).1.toList ∧
      (exec (withStrings (clntSem wild)) (msgParse str) ⟨buff, file, []⟩).2.file =
        (ClientComm.msgParse file str w).2 := by
  rw [← exec_erase]
  rcases hs : scriptOf str with _ | script
  · rw [msgParse_of_none hs]
    rcases erase_of_none hs with he | he <;> rw [he] <;> exact ⟨rfl, rfl⟩
  · have hfit := h script hs
    rw [msgParse_of_some hs hfit]
    obtain ⟨⟨hav, hp⟩, rfl⟩ := scriptOf_eq_some.mp hs
    obtain ⟨package, hp⟩ := Option.ne_none_iff_exists'.mp hp
    rw [erase_offer hav hp, exec_call_some _ (clntSem_sprintf hfit _)]
    rcases file with _ | o <;> rcases field "version" str with _ | v <;> exact ⟨rfl, rfl⟩

/-! ### Harmless messages -/

/-- The message is an offer with all its fields. -/
def Offer (str : Bytes) : Prop :=
  field "status" str = some (lit "available") ∧ field "addr" str ≠ none ∧
    field "package" str ≠ none ∧ field "version" str ≠ none

variable (file : StatusFile)

/-- **The handling of a message completes**, gives NULL to no call, and runs no command and keeps
the stored version unless the message is an offer with all its fields. -/
def ClntHarmless (str : Bytes) : Prop :=
  ∀ wild, ∃ s' ops,
    exec (logged (withStrings (clntSem wild))) (msgParse str) (⟨str, file, []⟩, []) =
      (some (), s', ops) ∧ (∀ o ∈ ops, NoNull o) ∧
      (¬ Offer str → s'.commands = [] ∧ getVersion s'.file = getVersion file)

/-- The message has a status; and an offer has all its fields, its script fits, and there is an
object in the file. -/
def ClntReady (str : Bytes) : Prop :=
  ∃ status, field "status" str = some status ∧ (status = lit "available" →
    field "addr" str ≠ none ∧ field "package" str ≠ none ∧ field "version" str ≠ none ∧
      FieldsFit str ∧ file ≠ none)

variable {file} {str : Bytes}

theorem harmless_iff_clean : ClntHarmless file str ↔ ∀ wild, CleanRun (clntSem wild)
    (fun _ s' => ¬ Offer str → s'.commands = [] ∧ getVersion s'.file = getVersion file)
    (msgParse str) ⟨str, file, []⟩ := by
  refine forall_congr' fun wild => ?_
  rw [CleanRun, clean_iff []]
  constructor
  · rintro ⟨s', ops, hx, hP, hQ⟩
    exact ⟨(), s', ops, hx, hP, hQ⟩
  · rintro ⟨_, s', ops, hx, hP, hQ⟩
    exact ⟨s', ops, hx, hP, hQ⟩

/-- **Which messages are harmless.** -/
theorem harmless_iff_ready : ClntHarmless file str ↔ ClntReady file str := by
  rw [harmless_iff_clean]
  constructor
  · intro h
    have hrun := h none
    rw [msgParse_eq, clean_strcmp] at hrun
    obtain ⟨status, _, hstatus, hav, hrun⟩ := hrun
    cases hav
    refine ⟨status, hstatus, fun he => ?_⟩
    rw [decide_eq_true he, if_pos rfl, clean_puts, clean_format] at hrun
    obtain ⟨hpackage, hargs, hrun⟩ := hrun
    simp only [List.mem_cons, List.not_mem_nil, or_false, not_or] at hargs
    obtain ⟨haddr, -⟩ := hargs
    -- a script that does not fit ends the client
    by_cases hfits : (commandOf str).length < MAXDATASIZE
    · rw [clean_own (clntSem_sprintf hfits _), clean_own (clntSem_system _),
        clean_setJsonValue] at hrun
      obtain ⟨v, o, hv, ho, -⟩ := hrun
      refine ⟨fun h => haddr h.symm, hpackage, ?_, ?_, ?_⟩
      · exact Option.ne_none_iff_exists'.mpr ⟨v, hv⟩
      · exact (fits_iff str).mp (Nat.le_sub_one_of_lt hfits)
      · exact Option.ne_none_iff_exists'.mpr ⟨o, ho⟩
    · rw [clean_own_none (clntSem_overflow hfits _)] at hrun
      exact hrun.elim
  · rintro ⟨status, hstatus, hoffer⟩ wild
    rw [msgParse_eq, clean_strcmp]
    refine ⟨status, lit "available", hstatus, rfl, ?_⟩
    by_cases he : status = lit "available"
    · obtain ⟨haddr, hpackage, hversion, hfits, hfile⟩ := hoffer he
      obtain ⟨v, hv⟩ := Option.ne_none_iff_exists'.mp hversion
      obtain ⟨o, ho⟩ := Option.ne_none_iff_exists'.mp hfile
      have hlt : (commandOf str).length < MAXDATASIZE :=
        Nat.lt_of_le_pred (by decide) ((fits_iff str).mpr hfits)
      have hall : Offer str := ⟨he ▸ hstatus, haddr, hpackage, hversion⟩
      rw [decide_eq_true he, if_pos rfl, clean_puts, clean_format]
      refine ⟨hpackage, ?_, ?_⟩
      · simpa using ⟨haddr.symm, hpackage.symm⟩
      · rw [clean_own (clntSem_sprintf hlt _), clean_own (clntSem_system _), clean_setJsonValue]
        refine ⟨v, o, hv, ho, ?_⟩
        rw [← bind_pure (format _), clean_format]
        exact ⟨by simpa using hversion.symm, fun hno => absurd hall hno⟩
    · rw [decide_eq_false he, if_neg Bool.false_ne_true]
      exact fun _ => ⟨rfl, rfl⟩

end Messages

end LiveStreamer.OTAClient.NullStrings
