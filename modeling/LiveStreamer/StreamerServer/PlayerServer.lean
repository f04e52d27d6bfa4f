import LiveStreamer.StreamerServer.SrvrComm

/-! # The player thread of StreamerServer (`PlayerServer.c`)

A request is answered with the stored status of the stream it names, or its action is stored and
acknowledged. -/

namespace LiveStreamer.StreamerServer.PlayerServer

open LiveStreamer.Lib.CString LiveStreamer.Lib.Program LiveStreamer.Lib.Program.Prog
open LiveStreamer.Lib.Tokener
open LiveStreamer.StreamerServer.SrvrJson LiveStreamer.StreamerServer.SrvrComm

/-- The text `sprintf` writes into `tempBufP`, which has `MAXDATASIZE` bytes: it is not cut. -/
def statusReply (strmID status : Option Bytes) : Bytes :=
  lit "\x7b\"streamId\":\"" ++ percentS strmID ++ lit "\",\"status\":\"" ++ percentS status ++
    lit "\"\x7d"

/-- A text and its terminator fit a buffer of `MAXDATASIZE` bytes, such as `tempBufP`, or the part
of `out` that is written. -/
def FitsBuffer (text : Bytes) : Prop := text.length + 1 ≤ MAXDATASIZE

instance (text : Bytes) : Decidable (FitsBuffer text) := inferInstanceAs (Decidable (_ ≤ _))

theorem length_statusReply (strmID : Option Bytes) (status : Bytes) :
    (statusReply strmID (some status)).length = (percentS strmID).length + status.length + 27 := by
  have h1 : (lit "\x7b\"streamId\":\"").length = 13 := rfl
  have h2 : (lit "\",\"status\":\"").length = 12 := rfl
  have h3 : (lit "\"\x7d").length = 2 := rfl
  simp only [statusReply, List.length_append, h1, h2, h3]
  rw [percentS, percentS, Option.getD_some]
  omega

theorem fitsBuffer_statusReply (strmID : Option Bytes) (status : Bytes) :
    FitsBuffer (statusReply strmID (some status)) ↔
      (percentS strmID).length + status.length ≤ 227 := by
  rw [FitsBuffer, length_statusReply, MAXDATASIZE]
  omega

def lwsWrite (text : Bytes) : SrvrProg Unit := op (SrvrOp.lwsWrite text)

def websocketWriteBack (str : Bytes) : SrvrProg Unit := do
  let jobj := tokenerParse str
  let strmID := getJsonValueFromObj (lit "streamId") jobj
  if ← strEq (getJsonValueFromObj (lit "action") jobj) (some (lit "status")) then
    let status ← getValue (lit "status") strmID
    lwsWrite (statusReply strmID status)
  else
    setValue (lit "action") (getJsonValueFromObj (lit "action") jobj) strmID
    lwsWrite (lit "ACK")

/-- The handling of a command: its action is stored, then acknowledged. -/
theorem websocketWriteBack_command {str s action : Bytes} (hid : field "streamId" str = some s)
    (ha : field "action" str = some action) (hne : action ≠ lit "status") :
    websocketWriteBack str =
      call (SrvrOp.set (lit "action") (some action) (some s)) fun _ =>
        call (SrvrOp.lwsWrite (lit "ACK")) ret := by
  unfold field at hid ha
  simp only [websocketWriteBack, ha, strEq_some, ret_bind, decide_eq_true_eq]
  rw [if_neg hne, hid]
  rfl

/-- The handling of a status query: the status is read, then answered. -/
theorem websocketWriteBack_query {str s : Bytes} (hid : field "streamId" str = some s)
    (ha : field "action" str = some (lit "status")) :
    websocketWriteBack str =
      call (SrvrOp.get (lit "status") (some s)) fun status =>
        call (SrvrOp.lwsWrite (statusReply (some s) status)) ret := by
  unfold field at hid ha
  simp only [websocketWriteBack, ha, strEq_some, ret_bind, decide_true, if_true]
  rw [hid]
  rfl

end LiveStreamer.StreamerServer.PlayerServer
