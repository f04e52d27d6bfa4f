import LiveStreamer.Lib.Tokener
import LiveStreamer.StreamerClient.VAGstreamer

/-! # The session of a device (`ClientComm.c`, `Client.c`, `PropJson.c`)

A device reports its status (`SIGStatus`) and carries out the commands it is answered
(`msgParse`), until the answer is `ACK`. What is modelled of `properties.json` is the stream id. -/

namespace LiveStreamer.StreamerClient.ClientComm

open LiveStreamer.Lib.CString LiveStreamer.Lib.Tokener LiveStreamer.Lib.Refs
open LiveStreamer.StreamerClient.VAGstreamer

/-- The size of the message buffers. -/
def MAXDATASIZE : ℕ := 255

def getJsonValueFromObj (jKey : Bytes) (tempJson : Option Json) : Option Bytes :=
  memberString jKey tempJson

structure Client where
  /-- What `getJsonValueFromFile("streamId")` answers. -/
  streamId : Option Bytes
  status : Bytes
  gst : Gst

/-- What the GStreamer calls of a step answer: those that can fail, and one after the other the
changes of the pipeline's state to NULL. -/
structure Answers where
  ok : Call → Bool
  setState : List ℕ

/-- How the handling of a message ends. -/
inductive Outcome where
  | handled (c : Client)
  /-- Still in the loop that stops the pipeline. -/
  | stopping (c : Client)
  /-- The use of a NULL has ended the process. -/
  | crash

/-- The text of a report. -/
def statusText (streamId : Option Bytes) (status : Bytes) : Bytes :=
  snprintf MAXDATASIZE (lit "\x7b \"streamId\" : \"" ++ percentS streamId ++
    lit "\",\"status\" : \"" ++ status ++ lit "\"\x7d")

/-- The report that `SIGStatus` sends. -/
def SIGStatus (c : Client) : Bytes := statusText c.streamId c.status

section Commands
variable (a : Answers) (c : Client)

/-- The return value of the one change of the state that a step makes. -/
def Answers.first : ℕ := a.setState.headD CHANGE_FAILURE

def live : Client :=
  if c.status = lit "local" then { c with gst := startLive a.ok c.gst, status := lit "live" }
  else if c.status = lit "ready" then
    if (setAll a.ok c.gst a.first).1 ≠ 0 then { c with gst := (setAll a.ok c.gst a.first).2 }
    else
      { c with
        gst := startStreaming (initLive a.ok (setAll a.ok c.gst a.first).2).2
        status := lit "live" }
  else { c with status := lit "live" }

/-- The branch `local`. -/
def local' : Client :=
  if c.status = lit "live" then { c with gst := stopLive c.gst, status := lit "local" }
  else if c.status = lit "ready" then
    if (setAll a.ok c.gst a.first).1 ≠ 0 then { c with gst := (setAll a.ok c.gst a.first).2 }
    else { c with gst := startStreaming (setAll a.ok c.gst a.first).2, status := lit "local" }
  else { c with status := lit "local" }

def off : Outcome :=
  if (stopAll c.gst a.setState).2 then
    .handled { c with gst := (stopAll c.gst a.setState).1, status := lit "ready" }
  else .stopping { c with gst := (stopAll c.gst a.setState).1 }

/-- The branches of `msgParse` on the action of a message for this device. -/
def command (actRecv : Bytes) : Outcome :=
  if actRecv = lit "live" then .handled (live a c)
  else if actRecv = lit "local" then .handled (local' a c)
  else if actRecv = lit "off" then off a c
  else .handled c

def msgParse (tempStr : Bytes) : Outcome :=
  let jobj := tokenerParse tempStr
  match c.streamId, getJsonValueFromObj (lit "streamId") jobj with
  | some own, some id =>
    if own = id then
      match getJsonValueFromObj (lit "action") jobj with
      | some actRecv => command a c actRecv
      | none => .crash
    else .handled c
  | _, _ => .crash

/-- `intHandler` up to its session. -/
def intHandler (r : ℕ) : Client :=
  { c with gst := (stopStreaming c.gst r).2, status := lit "off" }

end Commands

/-- The text of an acknowledgement. -/
abbrev ackText : Bytes := lit "ACK"

/-- `receive` of a message: nothing if it is the `ACK` that ends the session. -/
def receive (a : Answers) (c : Client) (str : Bytes) : Option Outcome :=
  if str = ackText then none else some (msgParse a c str)

/-! ### Messages that are commands for the device -/

/-- The action of a message for this device. -/
def commandOf (c : Client) (text : Bytes) : Option Bytes :=
  if text ≠ ackText ∧ c.streamId.isSome ∧
      c.streamId = getJsonValueFromObj (lit "streamId") (tokenerParse text) then
    getJsonValueFromObj (lit "action") (tokenerParse text)
  else none

section Receive
variable (a : Answers) {c : Client} {text : Bytes}

/-- **A command for this device is carried out.** -/
theorem receive_of_command {act : Bytes} (h : commandOf c text = some act) :
    receive a c text = some (command a c act) := by
  unfold commandOf at h
  split_ifs at h with hc
  obtain ⟨hack, hs, hid⟩ := hc
  obtain ⟨own, hown⟩ := Option.isSome_iff_exists.mp hs
  simp only [receive, if_neg hack, msgParse, hown, ← hid, if_true, h]

/-- Any other message is the `ACK`, is left alone, or ends the process. -/
theorem receive_of_none (h : commandOf c text = none) :
    receive a c text = none ∨ receive a c text = some (.handled c) ∨
      receive a c text = some .crash := by
  unfold receive
  split_ifs with hack
  · exact Or.inl rfl
  · refine Or.inr ?_
    unfold msgParse
    rcases hown : c.streamId with _ | own
    · exact Or.inr rfl
    rcases hid : getJsonValueFromObj (lit "streamId") (tokenerParse text) with _ | id
    · exact Or.inr (by simp only [hid])
    by_cases he : own = id
    · have hact : getJsonValueFromObj (lit "action") (tokenerParse text) = none := by
        rwa [commandOf, if_pos ⟨hack, by simp [hown], by rw [hown, hid, he]⟩] at h
      exact Or.inr (by simp only [hid, if_pos he, hact])
    · exact Or.inl (by simp only [hid, if_neg he])

end Receive

end LiveStreamer.StreamerClient.ClientComm
