import LiveStreamer.StreamerClient.ClientComm

/-! # What a device makes of a reply (`ClientComm.c`, `Client.c`)

A `recv` of the device fails, finds the connection closed, or returns bytes. `Survives` says that
`receive` comes to its end without the use of a NULL, that a reply that is no command for this
device changes nothing, and that the session ends when the server has closed it. The device
compares what it has received before it looks at it: a failed `recv` and a closed connection end
its process (`closed_ends_device`). Of the replies it survives those that name a stream, and with
its own stream an action; and `off` only if there is a pipeline to stop (`survives_iff`). -/

namespace LiveStreamer.StreamerClient.Replies

open LiveStreamer.Lib.CString LiveStreamer.Lib.Tokener LiveStreamer.Lib.Refs
open LiveStreamer.StreamerClient.VAGstreamer LiveStreamer.StreamerClient.ClientComm

/-! ### The outcomes of a `recv` -/

inductive Recv where
  | error
  /-- The server has closed the connection. -/
  | closed
  | bytes (data : Bytes)

/-- What `receiveData` returns: NULL, or the text in the buffer. -/
def receiveData : Recv → Option Bytes
  | .error => none
  | .closed => some (cstr [])
  | .bytes data => some (cstr (data.take (MAXDATASIZE - 1)))

section Device
variable (a : Answers) (c : Client)

/-- `receive`: nothing if it returns `ACK`. The comparison with `ACK` needs a string. -/
def receiveFrom (r : Recv) : Option Outcome :=
  match receiveData r with
  | some str => receive a c str
  | none => some .crash

/-- How the session of a device goes on. -/
inductive Comm where
  /-- `clientComm` has returned. -/
  | ended (c : Client)
  /-- It waits for the next reply. -/
  | waiting (c : Client)
  | stopping (c : Client)
  | crash

/-- `clientComm`, where the `recv` calls end as `rs` says. -/
def clientComm (c : Client) : List (Answers × Recv) → Comm
  | [] => .waiting c
  | (a, r) :: rs =>
    match receiveFrom a c r with
    | none => .ended c
    | some (.handled c') => clientComm c' rs
    | some (.stopping c') => .stopping c'
    | some .crash => .crash

/-! ### Survival -/

/-- The actions that a device carries out. -/
def commands : List Bytes := [lit "live", lit "local", lit "off"]

/-- The reply is a command for this device. -/
def IsCommand (r : Recv) : Prop :=
  ∃ act ∈ commands, (receiveData r).bind (commandOf c) = some act

/-- **The device survives the outcome of a `recv`.** -/
structure Survives (r : Recv) : Prop where
  completes : receiveFrom a c r = none ∨ ∃ c', receiveFrom a c r = some (.handled c')
  unchanged : ¬ IsCommand c r → ∀ c', receiveFrom a c r = some (.handled c') → c' = c
  ends : r = .closed → ∀ rs, clientComm c ((a, r) :: rs) = .ended c

/-- A text that the device can handle: the `ACK`, or one that names a stream, and if that is its
own, an action; to turn it off, a pipeline has been made and a stop of it succeeds. A released
pipeline counts as made: what a stop of it answers is left open here (`References`). -/
def Handles (text : Bytes) : Prop :=
  text = ackText ∨ ∃ own id, c.streamId = some own ∧
    getJsonValueFromObj (lit "streamId") (tokenerParse text) = some id ∧
    (own = id → ∃ act, getJsonValueFromObj (lit "action") (tokenerParse text) = some act ∧
      (act = lit "off" → c.gst.ref .pipeline ≠ .null ∧ CHANGE_SUCCESS ∈ a.setState))

variable {a c}

/-- A pipeline that was never made stays so. -/
theorem stopStreaming_null (g : Gst) (r : ℕ) :
    (stopStreaming g r).2.ref .pipeline = .null ↔ g.ref .pipeline = .null := by
  by_cases h : g.ref .pipeline = .held <;> simp [stopStreaming, h]

/-- **The loop that stops the pipeline ends** if there was one and a change of its state
succeeds. -/
theorem stopAll_ends (g : Gst) (rs : List ℕ) :
    (stopAll g rs).2 = true ↔ g.ref .pipeline ≠ .null ∧ CHANGE_SUCCESS ∈ rs := by
  induction rs generalizing g with
  | nil => simp [stopAll]
  | cons r rs ih =>
    unfold stopAll
    by_cases hp : g.ref .pipeline = .null
    · have hr : (stopStreaming g r).1 = CHANGE_FAILURE := by simp [stopStreaming, hp]
      rw [hr, if_neg (by decide), ih, ne_eq, stopStreaming_null]
      exact iff_of_false (fun h => h.1 hp) fun h => h.1 hp
    · have hr : (stopStreaming g r).1 = r := by simp [stopStreaming, hp]
      rw [hr]
      by_cases hs : r = CHANGE_SUCCESS
      · rw [if_pos hs]
        exact iff_of_true rfl ⟨hp, by rw [hs]; exact List.mem_cons_self ..⟩
      · rw [if_neg hs, ih, ne_eq, stopStreaming_null, List.mem_cons]
        exact and_congr_right fun _ => (or_iff_right (Ne.symm hs)).symm

/-- The handling of a command ends unless the pipeline cannot be stopped. -/
theorem command_handled_iff (act : Bytes) : (∃ c', command a c act = .handled c') ↔
    (act = lit "off" → c.gst.ref .pipeline ≠ .null ∧ CHANGE_SUCCESS ∈ a.setState) := by
  unfold command
  by_cases h1 : act = lit "live"
  · rw [if_pos h1]
    refine iff_of_true ⟨_, rfl⟩ fun h => ?_
    exact absurd (h1.symm.trans h) (by decide)
  by_cases h2 : act = lit "local"
  · rw [if_neg h1, if_pos h2]
    refine iff_of_true ⟨_, rfl⟩ fun h => ?_
    exact absurd (h2.symm.trans h) (by decide)
  by_cases h3 : act = lit "off"
  · rw [if_neg h1, if_neg h2, if_pos h3, ← stopAll_ends]
    constructor
    · rintro ⟨c', h⟩ -
      unfold off at h
      split_ifs at h with hs
      exact hs
    · intro h
      exact ⟨_, if_pos (h h3)⟩
  · rw [if_neg h1, if_neg h2, if_neg h3]
    exact iff_of_true ⟨c, rfl⟩ fun h => absurd h h3

/-- An action that is no command changes nothing. -/
theorem command_of_notMem {act : Bytes} (h : act ∉ commands) : command a c act = .handled c := by
  simp only [commands, List.mem_cons, List.not_mem_nil, or_false, not_or] at h
  rw [command, if_neg h.1, if_neg h.2.1, if_neg h.2.2]

/-- **When the handling of a text ends** without the use of a NULL. -/
theorem receive_completes_iff (text : Bytes) :
    (receive a c text = none ∨ ∃ c', receive a c text = some (.handled c')) ↔
      Handles a c text := by
  unfold receive Handles
  by_cases hack : text = ackText
  · rw [if_pos hack]
    exact iff_of_true (Or.inl rfl) (Or.inl hack)
  rw [if_neg hack]
  simp only [hack, false_or, reduceCtorEq, Option.some.injEq]
  simp only [msgParse]
  generalize getJsonValueFromObj (lit "streamId") (tokenerParse text) = id
  generalize getJsonValueFromObj (lit "action") (tokenerParse text) = act
  rcases hown : c.streamId with _ | own
  · simp
  rcases id with _ | id
  · simp
  by_cases he : own = id
  · subst he
    rcases act with _ | act
    · simp
    · simpa using command_handled_iff act
  · simp [he]

/-- A text that is no command changes nothing. -/
theorem receive_unchanged {text : Bytes} (h : ∀ act ∈ commands, commandOf c text ≠ some act)
    {c' : Client} (hr : receive a c text = some (.handled c')) : c' = c := by
  rcases hc : commandOf c text with _ | act
  · rcases receive_of_none a hc with h' | h' | h' <;> rw [h'] at hr <;> cases hr
    rfl
  · rw [receive_of_command a hc,
      command_of_notMem fun hm => h act hm hc] at hr
    cases hr
    rfl

/-- Neither a stream nor an action can be read from the empty text. -/
theorem not_handles_nil : ¬ Handles a c [] := by
  rintro (h | ⟨own, id, -, hid, -⟩)
  · exact absurd h (by decide)
  · have hnone : getJsonValueFromObj (lit "streamId") (tokenerParse []) = none := by decide
    rw [hnone] at hid
    cases hid

variable (a c)

/-- **When the device survives the outcome of a `recv`**: it returns bytes, with a text that the
device can handle. -/
theorem survives_iff (r : Recv) : Survives a c r ↔
    ∃ data, r = .bytes data ∧ Handles a c (cstr (data.take (MAXDATASIZE - 1))) := by
  constructor
  · intro h
    cases r with
    | error =>
      rcases h.completes with hr | ⟨c', hr⟩ <;> cases hr
    | closed => exact absurd ((receive_completes_iff (cstr [])).mp h.completes) not_handles_nil
    | bytes data => exact ⟨data, rfl, (receive_completes_iff _).mp h.completes⟩
  · rintro ⟨data, rfl, h⟩
    refine ⟨(receive_completes_iff _).mpr h, fun hc c' hr => ?_, fun h => nomatch h⟩
    exact receive_unchanged (fun act ha hact => hc ⟨act, ha, hact⟩) hr

/-- **The end of a connection ends the device**: the empty text that stands for it names no
stream. -/
theorem closed_ends_device : ¬ ∀ (a : Answers) (c : Client) (r : Recv), Survives a c r := by
  intro h
  obtain ⟨data, hr, -⟩ := (survives_iff ⟨fun _ => true, [CHANGE_SUCCESS]⟩
    ⟨some (lit "myStream"), lit "ready", ⟨Handles.empty, false, []⟩⟩ .closed).mp (h _ _ _)
  cases hr

end Device

end LiveStreamer.StreamerClient.Replies
