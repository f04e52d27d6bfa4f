import LiveStreamer.Lib.Tokener

/-! # A run of OTAClient (`clientComm.c`, `client.c`, `clientJson.c`)

The client asks the server whether there is an update (`SIGCheckUpdate`). If there is one it gives
a script to the shell and then stores the version that the reply announces (`msgParse`). How a
reply is parsed is left to the library (`JsonC`). -/

namespace LiveStreamer.OTAClient.ClientComm

open LiveStreamer.Lib.CString LiveStreamer.Lib.Tokener

def MAXDATASIZE : ℕ := 255

/-! ### The store (`clientJson.c`) -/

/-- The object in `status.json`, if there is one. -/
abbrev StatusFile := Option Obj

def getJsonValueFromFile (file : StatusFile) (jKey : Bytes) : Option Bytes :=
  (file.bind fun tempJson => getEx tempJson jKey).bind getString

def getJsonValueFromObj (tempJson : Option Json) (jKey : Bytes) : Option Bytes :=
  memberString jKey tempJson

/-- A missing object and a missing value end the process: the file stays as it is. -/
def setJsonValue (file : StatusFile) (jKey : Bytes) (value : Option Bytes) : StatusFile :=
  match file, value with
  | some tempJson, some value => some (add tempJson jKey (.str value))
  | _, _ => file

/-- A field of a message. -/
def field [JsonC] (jKey : String) (msg : Bytes) : Option Bytes :=
  getJsonValueFromObj (JsonC.parse msg) (lit jKey)

/-! ### The messages -/

section Messages
variable (file : StatusFile)

def getStreamId : Option Bytes := getJsonValueFromFile file (lit "streamId")

def getVersion : Option Bytes := getJsonValueFromFile file (lit "version")

/-- The text of an update request. -/
def checkUpdateText (streamId version : Option Bytes) : Bytes :=
  lit "\x7b \"streamId\" : \"" ++ percentS streamId ++ lit "\",\"version\" : \"" ++
    percentS version ++ lit "\",\"action\" : \"update\"\x7d"

/-- The message that is sent. -/
def SIGCheckUpdate : Bytes :=
  snprintf MAXDATASIZE (checkUpdateText (getStreamId file) (getVersion file))

end Messages

/-- The script that installs a package. -/
def updateCommand (addr package : Option Bytes) : Bytes :=
  lit "#!/bin/bash\nmkdir /root/update\ncd /root/update\nwget " ++ percentS addr ++
    lit "\ntar -xJf " ++ percentS package ++ lit "\nrm -rf " ++ percentS package ++
    lit "\nsh update.sh\nexit\n"

/-- The script has 89 bytes of its own. -/
theorem length_updateCommand (addr package : Option Bytes) :
    (updateCommand addr package).length =
      89 + (percentS addr).length + 2 * (percentS package).length := by
  have h1 : (lit "#!/bin/bash\nmkdir /root/update\ncd /root/update\nwget ").length = 52 := by
    decide +kernel
  have h2 : (lit "\ntar -xJf ").length = 10 := by decide +kernel
  have h3 : (lit "\nrm -rf ").length = 8 := by decide +kernel
  have h4 : (lit "\nsh update.sh\nexit\n").length = 19 := by decide +kernel
  unfold updateCommand
  simp only [List.length_append, h1, h2, h3, h4]
  omega

section Parse
variable [JsonC]

/-- The script for the package of a reply. -/
def commandOf (tempStr : Bytes) : Bytes :=
  updateCommand (field "addr" tempStr) (field "package" tempStr)

/-- The script that is written into `tempBuff`. A reply without a status ends the client at the
`strcmp`, and an offer without a package at the `puts` of the package. -/
def scriptOf (tempStr : Bytes) : Option Bytes :=
  if field "status" tempStr = some (lit "available") ∧ field "package" tempStr ≠ none then
    some (commandOf tempStr)
  else none

/-- What the handling of a reply leaves: the script that was given to the shell, and the file.
The result of the script is not used. A script that does not fit `tempBuff` is written over the
memory behind it; `wild` is the file after that. -/
def msgParse (file : StatusFile) (tempStr : Bytes) (wild : StatusFile) :
    Option Bytes × StatusFile :=
  match scriptOf tempStr with
  | some script =>
    if script.length < MAXDATASIZE then
      (some script, setJsonValue file (lit "version") (field "version" tempStr))
    else (none, wild)
  | none => (none, file)

/-- The text in `tempBuff` after a `recv`. -/
def receiveData (data : Bytes) : Bytes := cstr (data.take (MAXDATASIZE - 1))

def receive (file : StatusFile) (data : Bytes) (wild : StatusFile) : Option Bytes × StatusFile :=
  msgParse file (receiveData data) wild

end Parse

/-! ### What a reply does -/

theorem getVersion_add {tempJson : Obj} {v : Bytes} (h : (0 : UInt8) ∉ v) :
    getVersion (some (add tempJson (lit "version") (.str v))) = some v := by
  simp [getVersion, getJsonValueFromFile, getString, cstr_of_notMem h]

theorem setJsonValue_eq_none {file : StatusFile} {jKey : Bytes} {value : Option Bytes} :
    setJsonValue file jKey value = none ↔ file = none := by
  unfold setJsonValue
  split <;> simp_all

section Reply
variable [JsonC] {file : StatusFile} {str : Bytes}

theorem notMem_field {jKey : String} {v : Bytes} (h : field jKey str = some v) :
    (0 : UInt8) ∉ v := notMem_memberString h

theorem scriptOf_eq_some {script : Bytes} : scriptOf str = some script ↔
    (field "status" str = some (lit "available") ∧ field "package" str ≠ none) ∧
      commandOf str = script := by
  unfold scriptOf
  by_cases h : field "status" str = some (lit "available") ∧ field "package" str ≠ none
  · rw [if_pos h, Option.some.injEq, and_iff_right h]
  · rw [if_neg h]
    exact ⟨fun he => absurd he.symm (Option.some_ne_none script), fun he => absurd he.1 h⟩

theorem scriptOf_of_ne (h : field "status" str ≠ some (lit "available")) : scriptOf str = none :=
  if_neg fun hav => h hav.1

/-- Only a script changes anything. -/
theorem msgParse_of_none (h : scriptOf str = none) (wild : StatusFile) :
    msgParse file str wild = (none, file) := by
  unfold msgParse
  rw [h]

/-- **A script that fits** is carried out, and the version is stored. -/
theorem msgParse_of_some {script : Bytes} (h : scriptOf str = some script)
    (hf : script.length < MAXDATASIZE) (wild : StatusFile) :
    msgParse file str wild =
      (some script, setJsonValue file (lit "version") (field "version" str)) := by
  unfold msgParse
  rw [h]
  exact if_pos hf

/-- The version after an offer. -/
theorem getVersion_setJsonValue {tempJson : Obj} {v : Bytes} (h : field "version" str = some v) :
    getVersion (setJsonValue (some tempJson) (lit "version") (field "version" str)) = some v := by
  rw [h]
  exact getVersion_add (notMem_field h)

end Reply

end LiveStreamer.OTAClient.ClientComm
