import LiveStreamer.StreamerServer.Malformed

/-! # The length of the reply to a player (`PlayerServer.c`)

The reply to a status query is formatted without a bound into a buffer of `MAXDATASIZE` bytes. Its
length is that of the stream the player names and of the status a device has stored, and 27 bytes
more. Nothing bounds the first, so a query for a long name overflows the buffer
(`query_overflows`); the reply fits if and only if the two have at most 227 bytes
(`reply_fits_iff`). -/

namespace LiveStreamer.StreamerServer.PlayerReply

open LiveStreamer.Lib.CString LiveStreamer.Lib.PathName LiveStreamer.Lib.Program
open LiveStreamer.Lib.Program.Prog LiveStreamer.Lib.Run LiveStreamer.Lib.Tokener
open LiveStreamer.StreamerServer.SrvrJson LiveStreamer.StreamerServer.SrvrComm
open LiveStreamer.StreamerServer.PlayerServer LiveStreamer.StreamerServer.Handlers
open LiveStreamer.StreamerServer.Records (fresh)
open LiveStreamer.StreamerServer.Malformed

section Reply
variable (cwd : Path) (opens : Bytes → Bool)

/-- The texts formatted for the player. -/
def written (ops : List SrvrOp) : List Bytes :=
  ops.filterMap fun
    | .lwsWrite text => some text
    | _ => none

/-- The texts that the handling of a request formats. -/
def replies (fs : Fs) (str : Bytes) : List Bytes :=
  written (exec (logged (storeSem (dirSem cwd opens))) (websocketWriteBack str) (fs, [])).2.2

/-- The stream of a status query and its stored status have at most 227 bytes together, if the
record can be loaded at all. -/
def QueryFits (fs : Fs) (str : Bytes) : Prop :=
  field "action" str = some (lit "status") → Loads cwd opens fs (field "streamId" str) →
    ∀ status, storedStatus cwd fs (percentS (field "streamId" str)) = some status →
      (percentS (field "streamId" str)).length + status.length ≤ 227

variable {cwd opens} {fs : Fs} {str : Bytes}

/-- **The reply to a status query.** -/
theorem replies_status (hw : WholeFiles fs) {o : Obj}
    (hl : loads cwd opens fs (field "streamId" str) = some o)
    (ha : field "action" str = some (lit "status")) :
    ∃ status, storedStatus cwd fs (percentS (field "streamId" str)) = some status ∧
      replies cwd opens fs str = [statusReply (field "streamId" str) (some status)] := by
  obtain ⟨v, hv⟩ := hw.loads hl _ mem_keys_status
  have hget : storeSem (dirSem cwd opens) (.get (lit "status") (field "streamId" str)) fs =
      (some (some (cstr v)), loaded cwd opens fs (field "streamId" str)) := exec_get hl hv
  have hwrite : ∀ t fs', storeSem (dirSem cwd opens) (.lwsWrite t) fs' = (some (), fs') :=
    fun t fs' => rfl
  refine ⟨cstr v, ?_, ?_⟩
  · rw [storedStatus, record_of_loads hl, hv]
    rfl
  · rw [replies, websocketWriteBack_status ha, exec_logged_some hget,
      exec_logged_some (hwrite _ _)]
    rfl

/-- A query on a record that cannot be loaded formats nothing. -/
theorem replies_none (hl : loads cwd opens fs (field "streamId" str) = none)
    (ha : field "action" str = some (lit "status")) : replies cwd opens fs str = [] := by
  have hget : logged (storeSem (dirSem cwd opens)) (.get (lit "status") (field "streamId" str))
      (fs, []) = (none, fs, [.get (lit "status") (field "streamId" str)]) := by
    have hx : storeSem (dirSem cwd opens) (.get (lit "status") (field "streamId" str)) fs =
        (none, fs) := exec_get_of_none hl
    rw [logged, hx]
    rfl
  rw [replies, websocketWriteBack_status ha, exec_call_none _ hget]
  rfl

/-- The handling of any other request formats an acknowledgement at most. -/
theorem replies_ack (ha : field "action" str ≠ some (lit "status")) :
    ∀ text ∈ replies cwd opens fs str, text = lit "ACK" := by
  intro text ht
  rcases hact : field "action" str with _ | action
  · rw [replies, websocketWriteBack_null hact] at ht
    exact absurd ht List.not_mem_nil
  have hne : action ≠ lit "status" := fun h => ha (by rw [hact, h])
  rw [replies, websocketWriteBack_set hact hne] at ht
  rcases hx : storeSem (dirSem cwd opens)
    (.set (lit "action") (some action) (field "streamId" str)) fs with ⟨_ | r, fs'⟩
  · have hlog : logged (storeSem (dirSem cwd opens))
        (.set (lit "action") (some action) (field "streamId" str)) (fs, []) =
        (none, fs', [.set (lit "action") (some action) (field "streamId" str)]) := by
      rw [logged, hx]
      rfl
    rw [exec_call_none _ hlog] at ht
    exact absurd ht List.not_mem_nil
  · have hwrite : storeSem (dirSem cwd opens) (.lwsWrite (lit "ACK")) fs' = (some (), fs') := rfl
    rw [exec_logged_some hx, exec_logged_some hwrite] at ht
    exact List.mem_singleton.mp ht

variable (cwd opens)

/-- **When the reply to a player fits**, in every state of every run. -/
theorem reply_fits_iff {ls : List Lbl} {s : Sys}
    (hr : run (Handlers.step (dirSem cwd opens)) .init ls = some s) (str : Bytes) :
    (∀ text ∈ replies cwd opens s.fs str, FitsBuffer text) ↔ QueryFits cwd opens s.fs str := by
  have hw := whole_of_run hr
  by_cases ha : field "action" str = some (lit "status")
  · rcases hl : loads cwd opens s.fs (field "streamId" str) with _ | o
    · rw [replies_none hl ha]
      refine iff_of_true (fun text ht => absurd ht List.not_mem_nil) fun _ hL => ?_
      obtain ⟨o, ho⟩ := loads_isSome_iff.mpr hL
      rw [hl] at ho
      cases ho
    · obtain ⟨status, hs, hrep⟩ := replies_status hw hl ha
      rw [hrep, List.forall_mem_singleton, fitsBuffer_statusReply]
      constructor
      · intro h _ _ status' hs'
        rw [hs] at hs'
        cases hs'
        exact h
      · intro h
        exact h ha (loads_isSome_iff.mp ⟨o, hl⟩) status hs
  · refine iff_of_true (fun text ht => ?_) fun h => absurd h ha
    rw [replies_ack ha text ht]
    decide

end Reply

/-- A name of 240 bytes. -/
def longName : Bytes := List.replicate 240 0x61

/-- A status query for a stream of that name. -/
def longQuery : Bytes :=
  lit "\x7b\"streamId\":\"" ++ longName ++ lit "\",\"action\":\"status\"\x7d"

/-- After a report of the stream `a`, the reply to a query for it fits, and that to the long query
does not. -/
theorem reply_fits_iff_stored : ∃ s, run (Handlers.step (dirSem [] fun _ => true)) .init
      [.report fresh (lit "\x7b \"streamId\" : \"a\", \"status\" : \"live\"\x7d"), .step 0,
        .step 0] = some s ∧
    (∀ text ∈ replies [] (fun _ => true) s.fs
      (lit "\x7b \"streamId\" : \"a\", \"action\" : \"status\"\x7d"), FitsBuffer text) ∧
    ¬ ∀ text ∈ replies [] (fun _ => true) s.fs longQuery, FitsBuffer text := by
  obtain ⟨s, hr, ha, hlong⟩ : ∃ s, run (Handlers.step (dirSem [] fun _ => true)) .init
      [.report fresh (lit "\x7b \"streamId\" : \"a\", \"status\" : \"live\"\x7d"), .step 0,
        .step 0] = some s ∧ storedStatus [] s.fs (lit "a") = some (lit "live") ∧
      storedStatus [] s.fs longName = some (lit "off") :=
    ⟨_, rfl, by decide +kernel, by decide +kernel⟩
  refine ⟨s, hr, (reply_fits_iff [] (fun _ => true) hr _).mpr fun _ _ status hs => ?_,
    fun hfit => ?_⟩
  · have hf : field "streamId" (lit "\x7b \"streamId\" : \"a\", \"action\" : \"status\"\x7d") =
        some (lit "a") := by decide +kernel
    rw [hf, percentS, Option.getD_some, ha] at hs
    rw [hf, ← Option.some.inj hs]
    decide
  · have hf : field "streamId" longQuery = some longName := by decide +kernel
    have hq := (reply_fits_iff [] (fun _ => true) hr longQuery).mp hfit (by decide +kernel)
      ⟨rfl, fun h => by rw [hf] at h; cases h⟩ (lit "off") (by rw [hf]; exact hlong)
    have hname : longName.length = 240 := List.length_replicate
    rw [hf, percentS, Option.getD_some, hname] at hq
    exact absurd hq (by decide)

/-- **A status query for a long name overflows the buffer**, with messages of devices that fit
theirs. -/
theorem query_overflows :
    ¬ ∀ (cwd : Path) (opens : Bytes → Bool) (ls : List Lbl) (s : Sys) (str : Bytes),
      (∀ g msg, .report g msg ∈ ls → msg.length < MAXDATASIZE) →
      run (Handlers.step (dirSem cwd opens)) .init ls = some s →
        ∀ text ∈ replies cwd opens s.fs str, FitsBuffer text := by
  intro h
  have hfit := h [] (fun _ => true) [] .init longQuery (fun g msg hm => nomatch hm) rfl
  have ha : field "action" longQuery = some (lit "status") := by decide +kernel
  have hid : field "streamId" longQuery = some longName := by decide +kernel
  have hw : WholeFiles Sys.init.fs := wholeFiles_empty
  have hl : loads [] (fun _ => true) Sys.init.fs (field "streamId" longQuery) =
      some (defaults longName) := by
    rw [hid, loads_of_opens rfl]
    rfl
  obtain ⟨status, hs, hrep⟩ := replies_status hw hl ha
  have hoff : status = lit "off" := by
    rw [hid] at hs
    exact (Option.some.inj hs).symm
  have hname : (percentS (some longName)).length = 240 := List.length_replicate
  have h3 : (lit "off").length = 3 := rfl
  rw [hrep, List.forall_mem_singleton, fitsBuffer_statusReply, hid, hoff, hname, h3] at hfit
  exact absurd hfit (by decide)

end LiveStreamer.StreamerServer.PlayerReply
