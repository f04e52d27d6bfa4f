import LiveStreamer.Lib.JsonText
import LiveStreamer.StreamerClient.ClientComm
import LiveStreamer.StreamerServer.PlayerServer

/-! # The texts of the messages (`ClientComm.c`, `srvrComm.c`, `PlayerServer.c`)

A device writes reports (`SIGStatus`), the server writes commands (`SIGAct`) and replies to the
player; each pastes a stream and a status or an action into a template. All three are cut to, or
have to fit, a buffer of `MAXDATASIZE` bytes. A text of plain strings that fits reads back. -/

namespace LiveStreamer.Protocol.Messages

open LiveStreamer.Lib.CString LiveStreamer.Lib.JsonText LiveStreamer.Lib.Tokener
open LiveStreamer.StreamerServer.SrvrJson (getJsonValueFromObj)
open LiveStreamer.StreamerServer.SrvrComm LiveStreamer.StreamerServer.PlayerServer
open LiveStreamer.StreamerClient.ClientComm (statusText SIGStatus Client)

/-- Who writes a message. -/
inductive Writer where
  /-- The report of a device. -/
  | SIGStatus
  /-- The command of the server to a device. -/
  | SIGAct
  /-- The reply of the server to the status query of a player. -/
  | writeBack
  deriving DecidableEq

namespace Writer

/-- The field that is written beside the stream. -/
def key : Writer → Bytes
  | .SIGStatus => lit "status"
  | .SIGAct => lit "action"
  | .writeBack => lit "status"

/-- The blanks of the template. -/
def blanks : Writer → Bytes
  | .SIGStatus => lit " "
  | .SIGAct => lit " "
  | .writeBack => []

/-- The template with its strings. -/
def full (w : Writer) (s v : Bytes) : Bytes := pairText w.blanks (lit "streamId") s w.key v

/-- The message that is sent; the reply to a player is lost in an overflow if it does not fit. -/
def text (w : Writer) (s v : Bytes) : Option Bytes :=
  match w with
  | .SIGStatus => some (statusText (some s) v)
  | .SIGAct => some (actText (some s) (some v))
  | .writeBack =>
    if (statusReply (some s) (some v)).length < MAXDATASIZE then
      some (statusReply (some s) (some v))
    else none

end Writer

/-- The text fits the buffer. -/
def Fits (w : Writer) (s v : Bytes) : Prop := (w.full s v).length < MAXDATASIZE

instance (w : Writer) (s v : Bytes) : Decidable (Fits w s v) := inferInstanceAs (Decidable (_ < _))

/-- **A message that is one JSON object** from which the stream `s` and the value `v` are read. -/
def Reads (w : Writer) (s v msg : Bytes) : Prop :=
  (∃ o, value maxDepth msg = some (.obj o, [])) ∧
    getJsonValueFromObj (lit "streamId") (tokenerParse msg) = some s ∧
    getJsonValueFromObj w.key (tokenerParse msg) = some v

/-! ### The templates -/

theorem statusText_eq (s v : Bytes) :
    statusText (some s) v = snprintf MAXDATASIZE (Writer.SIGStatus.full s v) := by
  simp only [statusText, percentS, Option.getD_some, List.append_assoc]
  rfl

theorem actText_eq (s v : Bytes) :
    actText (some s) (some v) = snprintf MAXDATASIZE (Writer.SIGAct.full s v) := by
  simp only [actText, percentS, Option.getD_some, List.append_assoc]
  rfl

theorem statusReply_eq (s v : Bytes) :
    statusReply (some s) (some v) = Writer.writeBack.full s v := by
  simp only [statusReply, percentS, Option.getD_some, List.append_assoc]
  rfl

theorem blank_blanks (w : Writer) : Blank w.blanks := by
  cases w <;> decide

theorem plain_key (w : Writer) : Plain w.key := by
  cases w <;> decide

theorem streamId_ne_key (w : Writer) : lit "streamId" ≠ w.key := by
  cases w <;> decide

theorem length_full (w : Writer) (s v : Bytes) :
    (w.full s v).length = 27 + 5 * w.blanks.length + s.length + v.length := by
  have hk : w.key.length = 6 := by cases w <;> rfl
  have hi : (lit "streamId").length = 8 := rfl
  simp only [Writer.full, pairText, memberText, List.length_cons, List.length_append,
    List.length_nil, hk, hi]
  omega

/-- A text that fits is sent whole. -/
theorem text_of_fits {w : Writer} {s v : Bytes} (h : Fits w s v) :
    w.text s v = some (w.full s v) := by
  cases w with
  | SIGStatus => rw [Writer.text, statusText_eq, snprintf_of_fits h]
  | SIGAct => rw [Writer.text, actText_eq, snprintf_of_fits h]
  | writeBack =>
    rw [Writer.text, statusReply_eq]
    exact if_pos h

/-! ### Reading -/

theorem value_full {w : Writer} {s v : Bytes} (hs : Plain s) (hv : Plain v) :
    value maxDepth (w.full s v) = some (.obj [(lit "streamId", .str s), (w.key, .str v)], []) :=
  value_pairText 30 (blank_blanks w) (by decide) hs (plain_key w) hv (streamId_ne_key w)

/-- **Plain strings are read as they were written.** -/
theorem reads_full {w : Writer} {s v : Bytes} (hs : Plain s) (hv : Plain v) :
    Reads w s v (w.full s v) := by
  have hp : tokenerParse (w.full s v) =
      some (.obj [(lit "streamId", .str s), (w.key, .str v)]) := by
    rw [tokenerParse, value_full hs hv, Option.map_some]
  refine ⟨⟨_, value_full hs hv⟩, ?_, ?_⟩
  · rw [getJsonValueFromObj, hp, memberString, getEx, if_pos rfl, Option.bind_some,
      getString_str hs.notMem_zero]
  · rw [getJsonValueFromObj, hp, memberString, getEx, if_neg (streamId_ne_key w), getEx,
      if_pos rfl, Option.bind_some, getString_str hv.notMem_zero]

/-- A report of plain strings that fits reads back. -/
theorem reads_SIGStatus {s v : Bytes} (hs : Plain s) (hv : Plain v) (hf : Fits .SIGStatus s v) :
    Reads .SIGStatus s v (statusText (some s) v) := by
  rw [statusText_eq, snprintf_of_fits hf]
  exact reads_full hs hv

/-- A command of plain strings that fits reads back. -/
theorem reads_SIGAct {s v : Bytes} (hs : Plain s) (hv : Plain v) (hf : Fits .SIGAct s v) :
    Reads .SIGAct s v (actText (some s) (some v)) := by
  rw [actText_eq, snprintf_of_fits hf]
  exact reads_full hs hv

end LiveStreamer.Protocol.Messages
