import LiveStreamer.OTAClient.NullStrings
import LiveStreamer.OTAServer.NullStrings
import LiveStreamer.Protocol.Update

/-! # Messages that do no harm (`OTAClient`, `OTAServer`)

Both ends take what they receive for a message of the other end. `harmless_iff` says for each text
whether its handling completes, without a NULL for a function that needs a string. The messages
that the two ends send each other are such texts (`exchange_harmless`), but a text with a missing
field is not (`malformed_not_harmless`). -/

namespace LiveStreamer.Protocol.Harmless

open LiveStreamer.Lib.CString LiveStreamer.Lib.JsonCanon LiveStreamer.Lib.JsonText
open LiveStreamer.Lib.Tokener
open LiveStreamer.OTAServer.SrvrComm (answerText availableText formatted received updatedText)
open LiveStreamer.OTAServer.NullStrings (SrvrHarmless SrvrReady)
open LiveStreamer.OTAClient.ClientComm (MAXDATASIZE SIGCheckUpdate checkUpdateText getStreamId
  getVersion receiveData scriptOf_eq_some)
open LiveStreamer.OTAClient.Commands (fits_iff)
open LiveStreamer.OTAClient.NullStrings (ClntHarmless ClntReady)
open LiveStreamer.Protocol.Update

/-- **Which messages are harmless** to the server, and which to the client. -/
theorem harmless_iff [JsonC] (server : OTAServer.SrvrComm.StatusFile)
    (client : OTAClient.ClientComm.StatusFile) (str : Bytes) :
    (SrvrHarmless server str ↔ SrvrReady server str) ∧
      (ClntHarmless client str ↔ ClntReady client str) :=
  ⟨OTAServer.NullStrings.harmless_iff_ready, OTAClient.NullStrings.harmless_iff_ready⟩

/-- An offer without a version. -/
def unversioned : Bytes :=
  lit "\x7b\"status\":\"available\",\"addr\":\"a\",\"package\":\"p\"\x7d"

/-- **A missing field does harm**: the server has no action to compare, and the client runs the
script of the package before it looks for the version. -/
theorem malformed_not_harmless :
    (¬ ∀ str : Bytes, str.length ≤ 254 → SrvrHarmless (serverOf (lit "2")) str) ∧
      ¬ ∀ str : Bytes, str.length ≤ 254 → ClntHarmless (some client1) str := by
  have hlen : unversioned.length ≤ 254 := by decide
  constructor
  · intro h
    obtain ⟨act, ha, -⟩ := OTAServer.NullStrings.harmless_iff_ready.mp (h unversioned hlen)
    have hnone : OTAServer.SrvrComm.field "action" unversioned = none := by decide +kernel
    rw [hnone] at ha
    cases ha
  · intro h
    obtain ⟨status, hs, hoffer⟩ :=
      OTAClient.NullStrings.harmless_iff_ready.mp (h unversioned hlen)
    have hav : OTAClient.ClientComm.field "status" unversioned = some (lit "available") := by
      decide +kernel
    have hnone : OTAClient.ClientComm.field "version" unversioned = none := by decide +kernel
    rw [hav] at hs
    exact (hoffer (Option.some.inj hs).symm).2.2.1 hnone

/-! ### The messages of the two ends -/

section Exchange
variable [JsonC] {canon : Bytes → Json} {server : OTAServer.SrvrComm.StatusFile}
  {client : OTAClient.ClientComm.StatusFile} {c V : Bytes}

/-- The request of a client whose stream and version are plain. -/
theorem request_ready (hj : Prints canon)
    (hV : OTAServer.SrvrComm.getJsonValueFromFile server (lit "version") = some V)
    (hid : Plain (percentS (getStreamId client))) (hc : getVersion client = some c) (hp : Plain c)
    (hf : (checkUpdateText (getStreamId client) (some c)).length < MAXDATASIZE) :
    SrvrReady server (received (SIGCheckUpdate client)) := by
  obtain ⟨haction, hversion⟩ := asks_of_plain hj hid hp
  rw [received_request hc hf]
  refine ⟨_, haction, fun _ => ⟨?_, ?_⟩⟩
  · rw [hversion]
    exact Option.some_ne_none c
  · rw [hV]
    exact Option.some_ne_none V

/-- The answers of a server with a canonical version. -/
theorem answer_ready (hj : Prints canon) (hV : Canonical canon V) (h0 : (0 : UInt8) ∉ V)
    (hf : (availableText (some V)).length < MAXDATASIZE) (hobj : client ≠ none) (v : Bytes) :
    ClntReady client (receiveData (formatted (answerText V v))) := by
  unfold answerText
  split_ifs
  · exact ⟨lit "updated", field_updated hj, fun h => absurd h (by decide)⟩
  · obtain ⟨hversion, script, hscript, hfits⟩ := field_of_canonical hj hV
    obtain ⟨⟨hstatus, hpackage⟩, rfl⟩ := scriptOf_eq_some.mp hscript
    rw [receiveData_offer h0 hf]
    refine ⟨_, hstatus, fun _ => ⟨?_, hpackage, ?_, ?_, hobj⟩⟩
    · rw [field_offer hj hV (by decide)]
      exact Option.some_ne_none _
    · rw [hversion]
      exact Option.some_ne_none V
    · exact (fits_iff _).mp (Nat.le_sub_one_of_lt hfits)

/-- **An exchange of the two ends is harmless.** -/
theorem exchange_harmless (hj : Prints canon)
    (hV : OTAServer.SrvrComm.getJsonValueFromFile server (lit "version") = some V)
    (hcan : Canonical canon V) (hfa : (availableText (some V)).length < MAXDATASIZE)
    (hobj : client ≠ none) (hid : Plain (percentS (getStreamId client)))
    (hc : getVersion client = some c) (hp : Plain c)
    (hfc : (checkUpdateText (getStreamId client) (some c)).length < MAXDATASIZE) :
    SrvrHarmless server (received (SIGCheckUpdate client)) ∧
      ∀ text, answer server (SIGCheckUpdate client) = some text →
        ClntHarmless client (receiveData text) := by
  refine ⟨OTAServer.NullStrings.harmless_iff_ready.mpr (request_ready hj hV hid hc hp hfc), ?_⟩
  intro text h
  obtain ⟨v, -, rfl⟩ := (answer_request hV hc hfc).mp h
  exact OTAClient.NullStrings.harmless_iff_ready.mpr
    (answer_ready hj hcan (notMem_version hV) hfa hobj v)

end Exchange

end LiveStreamer.Protocol.Harmless
