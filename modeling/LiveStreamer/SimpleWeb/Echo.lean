import LiveStreamer.SimpleWeb.Direction

/-! # The echo server and its clients (`server_ws.cpp`, `ws_client.cpp`)

The connection of a client to the echo endpoint after the handshake. The client's application sends
messages and closes the connection whenever it likes, and in its `onmessage`; the server sends every
message back. Both ends answer a ping with a pong, and a close with one of their own unless they
have sent one already. Queues, wires and readers of the two directions go on in any order, and may
fail.

As long as no frame has more than 65535 bytes of text (`Fitting`), the client hears its own messages
in the order in which it has sent them, up to its first close; all of them if nothing fails and
nothing is left to do (`echoes`). The server closes in answer to a close only, and each end sends
one close at most if the application closes with `send_close` (`Mild`, `closes_once`). The two
programs have one such run only, as far as what they print is concerned (`hello_once`). -/

namespace LiveStreamer.SimpleWeb.Echo

open LiveStreamer.Lib.CString LiveStreamer.Lib.Run
open LiveStreamer.SimpleWeb.Frames
open LiveStreamer.SimpleWeb.Reading (client server found_client_send found_server_send heard)
open LiveStreamer.SimpleWeb.Direction

/-- What an application can do with a connection. -/
inductive Act where
  | send (f : Frame)
  | close (status : ℕ) (reason : Bytes)

structure Sys where
  /-- The queue of the client, and the reader of the server. -/
  toServer : Flow
  toClient : Flow
  serverClosed : Bool
  clientClosed : Bool
  /-- The frames the client has sent, and the server. -/
  said : List Frame
  sent : List Frame
  /-- What the server has done with them, and the client with the frames of the server. -/
  served : List Event
  heard : List Event

inductive Lbl where
  | act (mask : Mask) (a : Act)
  | toServer (l : Direction.Lbl)
  /-- What the client sends in a handler is masked with `mask`. -/
  | toClient (l : Direction.Lbl) (mask : Mask)

/-! ### The code -/

/-- `send` and `send_close` of the client. -/
def Sys.clientAct (x : Sys) (mask : Mask) : Act → Sys
  | .send f =>
    { x with toServer := x.toServer.send (Client.send mask f), said := x.said ++ [f] }
  | .close status reason =>
    if x.clientClosed then x
    else
      { x with
        clientClosed := true
        toServer := x.toServer.send (Client.send mask (closeFrame status reason))
        said := x.said ++ [closeFrame status reason] }

/-- `send` and `send_close` of the server. -/
def Sys.serverAct (x : Sys) : Act → Sys
  | .send f => { x with toClient := x.toClient.send (Server.send f), sent := x.sent ++ [f] }
  | .close status reason =>
    if x.serverClosed then x
    else
      { x with
        serverClosed := true
        toClient := x.toClient.send (Server.send (closeFrame status reason))
        sent := x.sent ++ [closeFrame status reason] }

/-- What an end does with a message in `read_message_content`. -/
def react (onmessage : Bytes → Option Act) : Event → Option Act
  | .message text => onmessage text
  | .ping finRsvOpcode => some (.send ⟨finRsvOpcode + 1, []⟩)
  | .close status reason => some (.close status reason)

/-- `echo.onmessage` -/
def echo (text : Bytes) : Option Act := some (.send ⟨129, text⟩)

def Sys.serve (x : Sys) (ev : Event) : Sys :=
  match react echo ev with
  | some a => { x with served := x.served ++ [ev] }.serverAct a
  | none => { x with served := x.served ++ [ev] }

def Sys.hear (onmessage : Bytes → Option Act) (mask : Mask) (x : Sys) (ev : Event) : Sys :=
  match react onmessage ev with
  | some a => { x with heard := x.heard ++ [ev] }.clientAct mask a
  | none => { x with heard := x.heard ++ [ev] }

/-- `onmessage` is the one of the client's application. -/
def step (onmessage : Bytes → Option Act) (x : Sys) : Lbl → Option Sys
  | .act mask a => some (x.clientAct mask a)
  | .toServer l => (Direction.step server x.toServer l).map fun f =>
      (events server x.toServer l).foldl Sys.serve { x with toServer := f }
  | .toClient l mask => (Direction.step client x.toClient l).map fun f =>
      (events client x.toClient l).foldl (Sys.hear onmessage mask) { x with toClient := f }

/-- The connection after the handshake. -/
def start : Sys := ⟨opened, opened, false, false, [], [], [], []⟩

/-- A step that no application takes, and that is no failure. -/
def goesOn : Lbl → Bool
  | .act _ _ => false
  | .toServer l => !isFailure l
  | .toClient l _ => !isFailure l

/-- Neither direction has failed, and nothing is left to do. -/
def Settled (onmessage : Bytes → Option Act) (x : Sys) : Prop :=
  x.toServer.Sound ∧ x.toClient.Sound ∧ ∀ l, goesOn l = true → step onmessage x l = none

/-! ### Answers -/

/-- The frame the server answers with. -/
def answer : Event → Frame
  | .message text => ⟨129, text⟩
  | .ping finRsvOpcode => ⟨finRsvOpcode + 1, []⟩
  | .close status reason => closeFrame status reason

/-- What the client makes of the answer. -/
def echoed : Event → Event
  | .message text => .message text
  | .ping _ => .message []
  | .close status reason => .close status reason

/-- What an act puts into a frame has its length in two bytes at most. -/
def Act.Fits : Act → Prop
  | .send f => f.Fits
  | .close status reason => (closeFrame status reason).Fits

theorem closes_echoed (ev : Event) : (echoed ev).closes = ev.closes := by
  cases ev <;> rfl

theorem pong_opcode (op : UInt8) (h : op &&& 0x0f = 9) : (op + 1) &&& 0x0f = 10 := by
  have hall : ∀ n : Fin 256, UInt8.ofNat n &&& 0x0f = 9 → (UInt8.ofNat n + 1) &&& 0x0f = 10 := by
    decide +kernel
  have hop : UInt8.ofNat op.toNat = op := UInt8.ofNat_toNat
  have hn := hall ⟨op.toNat, UInt8.toNat_lt op⟩
  rw [hop] at hn
  exact hn h

theorem event_cases (f : Frame) :
    (∃ status reason, status ≤ 0xffff ∧ (f.Fits → (closeFrame status reason).Fits) ∧
        f.event = .close status reason) ∨
      (f.finRsvOpcode &&& 0x0f = 9 ∧ f.event = .ping f.finRsvOpcode) ∨
      f.event = .message f.data := by
  unfold Frame.event eventOf
  split_ifs with hclose hlen hping
  · refine Or.inl ⟨_, _, ?_, fun hf => ?_, rfl⟩
    · have h0 := UInt8.toNat_lt (f.data.getD 0 0)
      have h1 := UInt8.toNat_lt (f.data.getD 1 0)
      rw [Nat.shiftLeft_eq]
      omega
    · have hf' : f.data.length ≤ 0xffff := hf
      show (_ :: _ :: f.data.drop 2).length ≤ 0xffff
      simp only [List.length_cons, List.length_drop]
      omega
  · refine Or.inl ⟨0, f.data, by omega, fun _ => ?_, rfl⟩
    show (_ :: _ :: f.data).length ≤ 0xffff
    simp only [List.length_cons]
    omega
  · exact Or.inr (Or.inl ⟨hping, rfl⟩)
  · exact Or.inr (Or.inr rfl)

/-- **The client makes of the answer what the server has done with the frame.** -/
theorem event_answer (f : Frame) : (answer f.event).event = echoed f.event := by
  rcases event_cases f with ⟨status, reason, hs, -, he⟩ | ⟨hping, he⟩ | he
  · rw [he]
    exact closeFrame_event hs reason
  · rw [he]
    have hpong := pong_opcode f.finRsvOpcode hping
    show eventOf (f.finRsvOpcode + 1) 0 [] = .message []
    rw [eventOf, hpong]
    rfl
  · rw [he]
    show eventOf 129 f.data.length f.data = .message f.data
    rw [eventOf, if_neg (by decide), if_neg (by decide)]

theorem fits_answer {f : Frame} (hf : f.Fits) : (answer f.event).Fits := by
  rcases event_cases f with ⟨status, reason, -, hfit, he⟩ | ⟨-, he⟩ | he
  · rw [he]
    exact hfit hf
  · rw [he]
    exact Nat.zero_le _
  · rw [he]
    exact hf

theorem mem_heard {fs : List Frame} {ev : Event} (h : ev ∈ heard fs) : ∃ f ∈ fs, ev = f.event := by
  induction fs with
  | nil => exact absurd h List.not_mem_nil
  | cons f fs ih =>
    rcases List.mem_cons.mp h with rfl | h
    · exact ⟨f, List.mem_cons_self .., rfl⟩
    · split_ifs at h
      · exact absurd h List.not_mem_nil
      · obtain ⟨g, hg, he⟩ := ih h
        exact ⟨g, .tail _ hg, he⟩

/-- **What is heard of the answers** to the messages of a client. -/
theorem heard_answers {fs : List Frame} {evs : List Event} (h : evs <+: heard fs) :
    heard (evs.map answer) = evs.map echoed := by
  induction fs generalizing evs with
  | nil =>
    obtain rfl := List.prefix_nil.mp h
    rfl
  | cons f fs ih =>
    rcases evs with _ | ⟨ev, evs⟩
    · rfl
    · obtain ⟨rfl, hrest⟩ := List.cons_prefix_cons.mp h
      rw [List.map_cons, List.map_cons, Reading.heard_cons, event_answer, closes_echoed]
      by_cases hclose : f.event.closes = true
      · rw [if_pos hclose] at hrest ⊢
        rw [List.prefix_nil.mp hrest]
        rfl
      · rw [if_neg hclose] at hrest ⊢
        rw [ih hrest]

/-- An end that goes on has heard no close yet. -/
theorem open_of_last {fs : List Frame} {evs : List Event} {ev : Event}
    (h : evs ++ [ev] <+: heard fs) : ∀ ev' ∈ evs, ev'.closes = false := by
  induction fs generalizing evs with
  | nil => exact absurd (List.prefix_nil.mp h) (by simp)
  | cons f fs ih =>
    rcases evs with _ | ⟨ev₁, evs⟩
    · exact fun ev' hev => absurd hev List.not_mem_nil
    · obtain ⟨rfl, hrest⟩ := List.cons_prefix_cons.mp h
      by_cases hclose : f.event.closes = true
      · rw [if_pos hclose] at hrest
        exact absurd (List.prefix_nil.mp hrest) (by simp)
      · rw [if_neg hclose] at hrest
        intro ev' hev
        rcases List.mem_cons.mp hev with rfl | hev
        · exact Bool.eq_false_iff.mpr hclose
        · exact ih hrest ev' hev

/-! ### Every step -/

/-- Both directions carry what has been sent, the server has answered what it has read, and it has
closed only when it has heard a close. -/
structure Inv (x : Sys) : Prop where
  fits : ∀ f ∈ x.said, f.Fits
  sent : x.sent = x.served.map answer
  toServer : Carries server x.toServer x.said x.served
  toClient : Carries client x.toClient (x.served.map answer) x.heard
  closed : x.serverClosed = true → ∃ ev ∈ x.served, ev.closes = true

section System
variable {onmessage : Bytes → Option Act} {x x' : Sys}

theorem inv_start : Inv start where
  fits _ hf := absurd hf List.not_mem_nil
  sent := rfl
  toServer := carries_opened server
  toClient := carries_opened client
  closed h := absurd h Bool.false_ne_true

/-- The client sends a frame. -/
theorem Inv.say (h : Inv x) {f : Frame} (hf : f.Fits) (mask : Mask) (closed : Bool) :
    Inv { x with
      clientClosed := closed
      toServer := x.toServer.send (Client.send mask f)
      said := x.said ++ [f] } where
  fits g hg := by
    rcases List.mem_append.mp hg with hg | hg
    · exact h.fits g hg
    · rwa [List.mem_singleton.mp hg]
  sent := h.sent
  toServer := h.toServer.send (found_client_send 0 hf mask)
  toClient := h.toClient
  closed := h.closed

theorem Inv.clientAct (h : Inv x) {a : Act} (ha : a.Fits) (mask : Mask) :
    Inv (x.clientAct mask a) := by
  cases a with
  | send f => exact h.say ha mask x.clientClosed
  | close status reason =>
    unfold Sys.clientAct
    split_ifs
    · exact h
    · exact h.say ha mask true

/-- **The server has read a frame**: it answers it. -/
theorem Inv.serve {ev : Event} (h : Inv x) {f : Flow}
    (hserver : Carries server f x.said (x.served ++ [ev])) :
    Inv ({ x with toServer := f }.serve ev) := by
  have hopen : x.serverClosed = false := by
    refine Bool.eq_false_iff.mpr fun hc => ?_
    obtain ⟨ev', hev', hclose⟩ := h.closed hc
    exact absurd (hclose.symm.trans (open_of_last hserver.done ev' hev')) (by decide)
  obtain ⟨g, hg, rfl⟩ := mem_heard (hserver.done.subset (List.mem_append_right _ (.head _)))
  have hsend := h.toClient.send (found_server_send (fits_answer (h.fits g hg)))
  rw [← List.map_singleton, ← List.map_append] at hsend
  have hsent : x.sent ++ [answer g.event] = (x.served ++ [g.event]).map answer := by
    rw [h.sent, List.map_append, List.map_singleton]
  have hstill : x.serverClosed = true → ∃ ev ∈ x.served ++ [g.event], ev.closes = true := fun hc =>
    absurd (hopen.symm.trans hc) Bool.false_ne_true
  rcases event_cases g with ⟨status, reason, -, -, he⟩ | ⟨-, he⟩ | he
  · rw [he] at hserver hsend hsent ⊢
    have hrun : { x with toServer := f }.serve (.close status reason) =
        { x with
          toServer := f
          served := x.served ++ [.close status reason]
          serverClosed := true
          toClient := x.toClient.send (Server.send (closeFrame status reason))
          sent := x.sent ++ [closeFrame status reason] } := by
      simp [Sys.serve, react, Sys.serverAct, hopen]
    rw [hrun]
    exact ⟨h.fits, hsent, hserver, hsend, fun _ => ⟨_, List.mem_append_right _ (.head _), rfl⟩⟩
  · rw [he] at hserver hsend hsent hstill ⊢
    exact ⟨h.fits, hsent, hserver, hsend, hstill⟩
  · rw [he] at hserver hsend hsent hstill ⊢
    exact ⟨h.fits, hsent, hserver, hsend, hstill⟩

/-- The frames of the server have their length in two bytes at most. -/
theorem Inv.fits_answers (h : Inv x) : ∀ f ∈ x.served.map answer, f.Fits := by
  intro f hf
  obtain ⟨ev, hev, rfl⟩ := List.mem_map.mp hf
  obtain ⟨g, hg, rfl⟩ := mem_heard (h.toServer.done.subset hev)
  exact fits_answer (h.fits g hg)

/-- **The client has read a frame.** -/
theorem Inv.hear (happ : ∀ text a, onmessage text = some a → a.Fits) (mask : Mask) {ev : Event}
    (h : Inv x) {f : Flow}
    (hclient : Carries client f (x.served.map answer) (x.heard ++ [ev])) :
    Inv ({ x with toClient := f }.hear onmessage mask ev) := by
  have h' : Inv { x with toClient := f, heard := x.heard ++ [ev] } :=
    ⟨h.fits, h.sent, h.toServer, hclient, h.closed⟩
  obtain ⟨g, hg, rfl⟩ := mem_heard (hclient.done.subset (List.mem_append_right _ (.head _)))
  have hfits := h.fits_answers g hg
  unfold Sys.hear
  split
  · next a ha =>
    refine h'.clientAct ?_ mask
    rcases event_cases g with ⟨status, reason, -, hfit, he⟩ | ⟨-, he⟩ | he
    · rw [he] at ha
      cases Option.some.inj ha
      exact hfit hfits
    · rw [he] at ha
      cases Option.some.inj ha
      exact Nat.zero_le _
    · rw [he] at ha
      exact happ g.data a ha
  · exact h'

/-- An end does one thing with a frame. -/
theorem events_cases (e : Reading.End) (f : Flow) (l : Direction.Lbl) :
    events e f l = [] ∨ ∃ ev, events e f l = [ev] := by
  rcases l with l | _ | _ | _
  · exact Or.inl rfl
  · exact Or.inl rfl
  · show (e.handle f.reader).2 = [] ∨ ∃ ev, (e.handle f.reader).2 = [ev]
    unfold Reading.End.handle
    split
    · split_ifs
      · exact Or.inr ⟨_, rfl⟩
      · exact Or.inl rfl
      · exact Or.inl rfl
      · exact Or.inl rfl
    · split_ifs
      · exact Or.inl rfl
      · exact Or.inl rfl
    · exact Or.inr ⟨_, rfl⟩
    · exact Or.inl rfl
  · exact Or.inl rfl

/-- What the application of the client asks for can be written. -/
def Fitting : Lbl → Prop
  | .act _ a => a.Fits
  | _ => True

theorem Inv.step (happ : ∀ text a, onmessage text = some a → a.Fits) (h : Inv x) {l : Lbl}
    (hl : Fitting l) (hx : step onmessage x l = some x') : Inv x' := by
  cases l with
  | act mask a =>
    cases hx
    exact h.clientAct hl mask
  | toServer l =>
    obtain ⟨f, hf, rfl⟩ := Option.map_eq_some_iff.mp hx
    have hcarries := h.toServer.step hf
    rcases events_cases server x.toServer l with hev | ⟨ev, hev⟩
    · rw [hev, List.append_nil] at hcarries
      rw [hev]
      exact ⟨h.fits, h.sent, hcarries, h.toClient, h.closed⟩
    · rw [hev] at hcarries ⊢
      exact h.serve hcarries
  | toClient l mask =>
    obtain ⟨f, hf, rfl⟩ := Option.map_eq_some_iff.mp hx
    have hcarries := h.toClient.step hf
    rcases events_cases client x.toClient l with hev | ⟨ev, hev⟩
    · rw [hev, List.append_nil] at hcarries
      rw [hev]
      exact ⟨h.fits, h.sent, h.toServer, hcarries, h.closed⟩
    · rw [hev] at hcarries ⊢
      exact h.hear happ mask hcarries

/-! ### Every run -/

theorem inv_run (happ : ∀ text a, onmessage text = some a → a.Fits) (h : Inv x) {ls : List Lbl}
    (hls : ∀ l ∈ ls, Fitting l) (hr : run (Echo.step onmessage) x ls = some x') : Inv x' := by
  have hm : Meets (Echo.step onmessage) (fun _ l => Fitting l) x ls :=
    meets_of_forall x fun l hl _ => hls l hl
  exact hm.inv (fun _ _ _ h hl hx => h.step happ hl hx) h hr

/-- Nothing is left to do in either direction. -/
theorem Settled.done (h : Inv x) (hs : Settled onmessage x) :
    x.served = heard x.said ∧ x.heard = x.served.map echoed := by
  obtain ⟨hserver, hclient, hno⟩ := hs
  have hserved : x.served = heard x.said := by
    refine h.toServer.all_done hserver fun l hl => ?_
    refine Option.map_eq_none_iff.mp (hno (.toServer l) ?_)
    simp [goesOn, hl]
  refine ⟨hserved, ?_⟩
  rw [← heard_answers (hserved ▸ List.prefix_rfl : x.served <+: heard x.said)]
  refine h.toClient.all_done hclient fun l hl => ?_
  refine Option.map_eq_none_iff.mp (hno (.toClient l fun _ => 0) ?_)
  simp [goesOn, hl]

/-- **The echo**: in every run the client hears its own messages, in the order in which it has sent
them and up to its first close, and nothing else; all of them if neither direction has failed and
nothing is left to do. -/
theorem echoes (happ : ∀ text a, onmessage text = some a → a.Fits) {ls : List Lbl}
    (hls : ∀ l ∈ ls, Fitting l) (hr : run (Echo.step onmessage) start ls = some x) :
    x.heard <+: (heard x.said).map echoed ∧
      (Settled onmessage x → x.heard = (heard x.said).map echoed) := by
  have h := inv_run happ inv_start hls hr
  constructor
  · have hheard := h.toClient.done
    rw [heard_answers h.toServer.done] at hheard
    exact hheard.trans (h.toServer.done.map echoed)
  · intro hs
    obtain ⟨hserved, hheard⟩ := hs.done h
    rw [hheard, hserved]

/-! ### Closing once -/

/-- An act that is no close of its own making: closing frames are sent with `send_close`. -/
def Act.Mild : Act → Prop
  | .send f => f.event.closes = false
  | .close _ _ => True

def Mild : Lbl → Prop
  | .act _ a => a.Mild
  | _ => True

/-- The frames of the client that close. -/
def closings (x : Sys) : ℕ := x.said.countP fun f => f.event.closes

theorem closes_closeFrame (status : ℕ) (reason : Bytes) :
    (closeFrame status reason).event.closes = true := by
  show (eventOf 136 (reason.length + 2) (_ :: _ :: reason)).closes = true
  rw [eventOf, if_pos (by decide), if_pos (by omega)]
  rfl

theorem clientAct_closed (hc : x.clientClosed = true) (mask : Mask) (status : ℕ) (reason : Bytes) :
    x.clientAct mask (.close status reason) = x := if_pos hc

theorem clientAct_open (hc : x.clientClosed = false) (mask : Mask) (status : ℕ) (reason : Bytes) :
    x.clientAct mask (.close status reason) =
      { x with
        clientClosed := true
        toServer := x.toServer.send (Client.send mask (closeFrame status reason))
        said := x.said ++ [closeFrame status reason] } :=
  if_neg (by rw [hc]; exact Bool.false_ne_true)

/-- The client has sent as many closes as it should. -/
def ClosedOnce (x : Sys) : Prop := closings x = if x.clientClosed then 1 else 0

theorem ClosedOnce.clientAct (h : ClosedOnce x) {a : Act} (ha : a.Mild) (mask : Mask) :
    ClosedOnce (x.clientAct mask a) := by
  cases a with
  | send f =>
    have hf : f.event.closes = false := ha
    show (x.said ++ [f]).countP (fun f => f.event.closes) = if x.clientClosed then 1 else 0
    rw [List.countP_append, List.countP_singleton, hf]
    exact h
  | close status reason =>
    rcases hc : x.clientClosed with _ | _
    · rw [clientAct_open hc]
      show (x.said ++ [closeFrame status reason]).countP (fun f => f.event.closes) = 1
      rw [ClosedOnce, hc, closings] at h
      rw [List.countP_append, List.countP_singleton, closes_closeFrame, h]
      rfl
    · rwa [clientAct_closed hc]

/-- Every application that sends its closes with `send_close` does so for every event. -/
theorem mild_react (happ : ∀ text a, onmessage text = some a → a.Mild) {f : Frame} {a : Act}
    (ha : react onmessage f.event = some a) : a.Mild := by
  rcases event_cases f with ⟨status, reason, -, -, he⟩ | ⟨hping, he⟩ | he
  · rw [he] at ha
    cases Option.some.inj ha
    trivial
  · rw [he] at ha
    cases Option.some.inj ha
    show (eventOf (f.finRsvOpcode + 1) 0 []).closes = false
    rw [eventOf, pong_opcode f.finRsvOpcode hping]
    rfl
  · rw [he] at ha
    exact happ f.data a ha

/-- What the server does leaves the client as it is. -/
theorem serve_client (x : Sys) (ev : Event) : (x.serve ev).said = x.said ∧
    (x.serve ev).clientClosed = x.clientClosed ∧ (x.serve ev).heard = x.heard := by
  cases ev with
  | message text => exact ⟨rfl, rfl, rfl⟩
  | ping op => exact ⟨rfl, rfl, rfl⟩
  | close status reason =>
    simp only [Sys.serve, react, Sys.serverAct]
    split_ifs
    · exact ⟨rfl, rfl, rfl⟩
    · exact ⟨rfl, rfl, rfl⟩

theorem ClosedOnce.step (happ : ∀ text a, onmessage text = some a → a.Fits ∧ a.Mild)
    (hi : Inv x) (h : ClosedOnce x) {l : Lbl} (hl : Mild l)
    (hx : Echo.step onmessage x l = some x') : ClosedOnce x' := by
  cases l with
  | act mask a =>
    cases hx
    exact h.clientAct hl mask
  | toServer l =>
    obtain ⟨f, hf, rfl⟩ := Option.map_eq_some_iff.mp hx
    rcases events_cases server x.toServer l with hev | ⟨ev, hev⟩
    · rw [hev]
      exact h
    · rw [hev]
      obtain ⟨hsaid, hclosed, -⟩ := serve_client { x with toServer := f } ev
      show List.countP _ _ = if _ then 1 else 0
      rw [List.foldl_cons, List.foldl_nil, hsaid, hclosed]
      exact h
  | toClient l mask =>
    obtain ⟨f, hf, rfl⟩ := Option.map_eq_some_iff.mp hx
    rcases events_cases client x.toClient l with hev | ⟨ev, hev⟩
    · rw [hev]
      exact h
    · have hcarries := hi.toClient.step hf
      rw [hev] at hcarries ⊢
      obtain ⟨g, -, rfl⟩ := mem_heard (hcarries.done.subset (List.mem_append_right _ (.head _)))
      have h' : ClosedOnce { x with toClient := f, heard := x.heard ++ [g.event] } := h
      show ClosedOnce ({ x with toClient := f }.hear onmessage mask g.event)
      unfold Sys.hear
      split
      · next a ha => exact h'.clientAct (mild_react (fun t a ha => (happ t a ha).2) ha) mask
      · exact h'

/-- Only the last event closes. -/
theorem countP_heard (fs : List Frame) : (heard fs).countP Event.closes ≤ 1 := by
  induction fs with
  | nil => exact Nat.zero_le 1
  | cons f fs ih =>
    rw [Reading.heard_cons]
    by_cases hclose : f.event.closes = true
    · rw [if_pos hclose, List.countP_singleton, if_pos hclose]
    · rw [if_neg hclose, List.countP_cons_of_neg hclose]
      exact ih

theorem getLast_heard {fs : List Frame} (h : ∃ f ∈ fs, f.event.closes = true) :
    ∃ status reason, (heard fs).getLast? = some (.close status reason) := by
  induction fs with
  | nil =>
    obtain ⟨f, hf, -⟩ := h
    exact absurd hf List.not_mem_nil
  | cons f fs ih =>
    rw [Reading.heard_cons]
    by_cases hclose : f.event.closes = true
    · rw [if_pos hclose]
      rcases event_cases f with ⟨status, reason, -, -, he⟩ | ⟨-, he⟩ | he
      · exact ⟨status, reason, by rw [he]; rfl⟩
      · exact absurd (he ▸ hclose : (Event.ping _).closes = true) Bool.false_ne_true
      · exact absurd (he ▸ hclose : (Event.message _).closes = true) Bool.false_ne_true
    · rw [if_neg hclose]
      obtain ⟨g, hg, hgc⟩ := h
      rcases List.mem_cons.mp hg with rfl | hg
      · exact absurd hgc hclose
      · obtain ⟨status, reason, hlast⟩ := ih ⟨g, hg, hgc⟩
        refine ⟨status, reason, ?_⟩
        rw [List.getLast?_cons, hlast, Option.getD_some]

/-- **Closing**: each end sends at most one close, whatever crosses on the way; and when a client
that has closed has nothing left to do, both ends have called `onclose` last, with the same status
and reason. -/
theorem closes_once (happ : ∀ text a, onmessage text = some a → a.Fits ∧ a.Mild) {ls : List Lbl}
    (hls : ∀ l ∈ ls, Fitting l ∧ Mild l) (hr : run (Echo.step onmessage) start ls = some x) :
    x.said.countP (fun f => f.event.closes) ≤ 1 ∧
      x.sent.countP (fun f => f.event.closes) ≤ 1 ∧
      (x.clientClosed = true → Settled onmessage x → ∃ status reason,
        x.served.getLast? = some (.close status reason) ∧
          x.heard.getLast? = some (.close status reason)) := by
  have hm : Meets (Echo.step onmessage) (fun _ l => Fitting l ∧ Mild l) start ls :=
    meets_of_forall start fun l hl _ => hls l hl
  have hstep : ∀ s l s', (Inv s ∧ ClosedOnce s) → Fitting l ∧ Mild l →
      Echo.step onmessage s l = some s' → Inv s' ∧ ClosedOnce s' := fun s l s' h hl hx =>
    ⟨h.1.step (fun t a ha => (happ t a ha).1) hl.1 hx, h.2.step happ h.1 hl.2 hx⟩
  obtain ⟨h, honce⟩ := hm.inv hstep ⟨inv_start, rfl⟩ hr
  refine ⟨?_, ?_, fun hc hs => ?_⟩
  · have hcount : x.said.countP (fun f => f.event.closes) = if x.clientClosed then 1 else 0 := honce
    rw [hcount]
    split_ifs
    · exact le_rfl
    · exact Nat.zero_le 1
  · have hcount : x.sent.countP (fun f => f.event.closes) = x.served.countP Event.closes := by
      rw [h.sent, List.countP_map]
      refine List.countP_congr fun ev hev => ?_
      obtain ⟨g, -, rfl⟩ := mem_heard (h.toServer.done.subset hev)
      simp [event_answer, closes_echoed]
    rw [hcount]
    exact (h.toServer.done.sublist.countP_le).trans (countP_heard x.said)
  · have hsome : ∃ f ∈ x.said, f.event.closes = true := by
      have hpos : 0 < x.said.countP fun f => f.event.closes := by
        rw [show x.said.countP _ = _ from honce, hc]
        exact Nat.one_pos
      obtain ⟨f, hf, hclose⟩ := List.countP_pos_iff.mp hpos
      exact ⟨f, hf, hclose⟩
    obtain ⟨status, reason, hlast⟩ := getLast_heard hsome
    obtain ⟨hserved, hheard⟩ := hs.done h
    rw [← hserved] at hlast
    refine ⟨status, reason, hlast, ?_⟩
    rw [hheard, List.getLast?_map, hlast]
    rfl

/-! ### The two programs -/

/-- `client.onmessage` of `ws_client.cpp`: `client.send_close(1000)`. -/
def closeOnMessage (_ : Bytes) : Option Act := some (.close 1000 [])

def hello : Frame := ⟨129, lit "Hello"⟩

/-- What the client has said, so far, when it has heard `evs`. -/
structure Hello (x : Sys) : Prop where
  said : x.said = hello :: if x.clientClosed then [closeFrame 1000 []] else []
  closed : x.heard ≠ [] → x.clientClosed = true

theorem heard_hello : heard [hello] = [.message (lit "Hello")] ∧
    heard [hello, closeFrame 1000 []] = [.message (lit "Hello"), .close 1000 []] := by
  decide +kernel

theorem Hello.heard_said (h : Hello x) :
    heard x.said = .message (lit "Hello") :: if x.clientClosed then [.close 1000 []] else [] := by
  rw [h.said]
  cases x.clientClosed
  · exact heard_hello.1
  · exact heard_hello.2

/-- A step of a direction: nobody but the handlers of the client sends for it. -/
def IsOwn : Lbl → Prop
  | .act _ _ => False
  | _ => True

/-- `ws_client` closes whatever it hears. -/
theorem Hello.react (hi : Inv x) (h : Hello x) {f : Flow} {ev : Event}
    (hclient : Carries client f (x.served.map answer) (x.heard ++ [ev])) :
    Echo.react closeOnMessage ev = some (.close 1000 []) := by
  have hpre : x.heard ++ [ev] <+: (heard x.said).map echoed := by
    have hdone := hclient.done
    rw [heard_answers hi.toServer.done] at hdone
    exact hdone.trans (hi.toServer.done.map echoed)
  rw [h.heard_said] at hpre
  rcases hh : x.heard with _ | ⟨first, evs⟩
  · rw [hh] at hpre
    obtain ⟨rfl, -⟩ := List.cons_prefix_cons.mp hpre
    rfl
  · rw [h.closed (by rw [hh]; exact List.cons_ne_nil _ _), hh] at hpre
    obtain ⟨-, hrest⟩ := List.cons_prefix_cons.mp hpre
    have hone : (evs ++ [ev]).length ≤ 1 := hrest.length_le
    rw [List.length_append, List.length_singleton] at hone
    obtain rfl := List.eq_nil_of_length_eq_zero (show evs.length = 0 by omega)
    obtain ⟨rfl, -⟩ := List.cons_prefix_cons.mp hrest
    rfl

theorem hello_close {y : Sys}
    (hs : y.said = hello :: if y.clientClosed then [closeFrame 1000 []] else []) (mask : Mask) :
    Hello (y.clientAct mask (.close 1000 [])) := by
  rcases hc : y.clientClosed with _ | _
  · rw [hc] at hs
    rw [clientAct_open hc, hs]
    exact ⟨rfl, fun _ => rfl⟩
  · rw [clientAct_closed hc]
    exact ⟨hs, fun _ => hc⟩

theorem Hello.step (hi : Inv x) (h : Hello x) {l : Lbl} (hl : IsOwn l)
    (hx : Echo.step closeOnMessage x l = some x') : Hello x' := by
  cases l with
  | act mask a => exact hl.elim
  | toServer l =>
    obtain ⟨f, hf, rfl⟩ := Option.map_eq_some_iff.mp hx
    rcases events_cases server x.toServer l with hev | ⟨ev, hev⟩
    · rw [hev]
      exact ⟨h.said, h.closed⟩
    · rw [hev, List.foldl_cons, List.foldl_nil]
      obtain ⟨hsaid, hclosed, hheard⟩ := serve_client { x with toServer := f } ev
      constructor
      · rw [hsaid, hclosed]
        exact h.said
      · rw [hheard, hclosed]
        exact h.closed
  | toClient l mask =>
    obtain ⟨f, hf, rfl⟩ := Option.map_eq_some_iff.mp hx
    rcases events_cases client x.toClient l with hev | ⟨ev, hev⟩
    · rw [hev]
      exact ⟨h.said, h.closed⟩
    · have hcarries := hi.toClient.step hf
      rw [hev] at hcarries
      rw [hev, List.foldl_cons, List.foldl_nil, Sys.hear, h.react hi hcarries]
      exact hello_close (y := { x with toClient := f, heard := x.heard ++ [ev] }) h.said mask

/-- **The two programs**: whatever the order of the steps, the server is given `Hello` once at most,
and the client its echo; then each calls `onclose` with status 1000. If nothing fails and nothing is
left to do, this is what has happened. -/
theorem hello_once (mask : Mask) {ls : List Lbl} (hls : ∀ l ∈ ls, IsOwn l)
    (hr : run (Echo.step closeOnMessage) (start.clientAct mask (.send hello)) ls = some x) :
    x.served <+: [.message (lit "Hello"), .close 1000 []] ∧
      x.heard <+: [.message (lit "Hello"), .close 1000 []] ∧
      (Settled closeOnMessage x → x.served = [.message (lit "Hello"), .close 1000 []] ∧
        x.heard = [.message (lit "Hello"), .close 1000 []]) := by
  have hfit : ∀ text a, closeOnMessage text = some a → a.Fits := by
    intro text a ha
    cases Option.some.inj ha
    exact (by decide : (closeFrame 1000 []).Fits)
  have hhello : hello.Fits := by decide
  have hstart : Hello (start.clientAct mask (.send hello)) := ⟨rfl, fun h => absurd rfl h⟩
  have hm : Meets (Echo.step closeOnMessage) (fun _ l => IsOwn l)
      (start.clientAct mask (.send hello)) ls := meets_of_forall _ fun l hl _ => hls l hl
  have hstep : ∀ s l s', (Inv s ∧ Hello s) → IsOwn l → Echo.step closeOnMessage s l = some s' →
      Inv s' ∧ Hello s' := by
    intro s l s' h hl hx
    refine ⟨h.1.step hfit ?_ hx, h.2.step h.1 hl hx⟩
    cases l with
    | act mask a => exact hl.elim
    | toServer l => trivial
    | toClient l mask => trivial
  obtain ⟨h, hh⟩ := hm.inv hstep ⟨inv_start.clientAct (a := .send hello) hhello mask, hstart⟩ hr
  have hsaid : heard x.said <+: [.message (lit "Hello"), .close 1000 []] := by
    rw [hh.heard_said]
    cases x.clientClosed
    · exact List.cons_prefix_cons.mpr ⟨rfl, List.nil_prefix⟩
    · exact List.prefix_rfl
  have hheard := h.toClient.done
  rw [heard_answers h.toServer.done] at hheard
  refine ⟨h.toServer.done.trans hsaid,
    hheard.trans ((h.toServer.done.trans hsaid).map echoed), fun hs => ?_⟩
  obtain ⟨hserved, hall⟩ := hs.done h
  have hclosed : x.clientClosed = true := by
    refine hh.closed ?_
    rw [hall, hserved, hh.heard_said]
    exact List.cons_ne_nil _ _
  rw [hh.heard_said, hclosed] at hserved
  refine ⟨hserved, ?_⟩
  rw [hall, hserved]
  rfl

end System

/-! ### Runs -/

/-- Both readers have stopped, and nothing is to be written. -/
def Over (x : Sys) : Prop :=
  (x.toServer.queue.strand.length = 0 ∧ x.toServer.queue.writes.length = 0 ∧
      x.toServer.reader.handler = .stopped ∧ x.toServer.Sound) ∧
    x.toClient.queue.strand.length = 0 ∧ x.toClient.queue.writes.length = 0 ∧
      x.toClient.reader.handler = .stopped ∧ x.toClient.Sound

instance (x : Sys) : Decidable (Over x) := by
  unfold Over Flow.Sound
  infer_instance

theorem settled_of_over {onmessage : Bytes → Option Act} {x : Sys} (h : Over x) :
    Settled onmessage x := by
  obtain ⟨⟨hs, hw, hr, hsound⟩, hs', hw', hr', hsound'⟩ := h
  refine ⟨hsound, hsound', fun l hl => ?_⟩
  cases l with
  | act mask a => exact absurd hl Bool.false_ne_true
  | toServer l =>
    have hf : isFailure l = false := by simpa [goesOn] using hl
    exact Option.map_eq_none_iff.mpr (step_still (List.eq_nil_of_length_eq_zero hs)
      (List.eq_nil_of_length_eq_zero hw) hr hf)
  | toClient l mask =>
    have hf : isFailure l = false := by simpa [goesOn] using hl
    exact Option.map_eq_none_iff.mpr (step_still (List.eq_nil_of_length_eq_zero hs')
      (List.eq_nil_of_length_eq_zero hw') hr' hf)

def mask : Mask := fun i => if i.val = 0 then 7 else 130

/-- A frame with `n` bytes of text goes from the client to the server. -/
def clientFrame (n : ℕ) : List Lbl :=
  [.toServer (.write .run), .toServer (.write .run), .toServer (.write (.write 0 (6 + n))),
    .toServer (.write (.finish 0)), .toServer (.write .run), .toServer (.read (.arrive 2)),
    .toServer (.read .handle), .toServer (.read (.arrive (4 + n))), .toServer (.read .handle)]

/-- A frame with `n` bytes of text goes from the server to the client. -/
def serverFrame (n : ℕ) : List Lbl :=
  [.toClient (.write .run) mask, .toClient (.write (.write 0 2)) mask,
    .toClient (.write (.finish 0)) mask, .toClient (.write .run) mask,
    .toClient (.write (.write 0 n)) mask, .toClient (.write (.finish 0)) mask,
    .toClient (.write .run) mask, .toClient (.read (.arrive 2)) mask,
    .toClient (.read .handle) mask, .toClient (.read (.arrive n)) mask,
    .toClient (.read .handle) mask]

/-- A message of the server joins its queue. -/
def push : Lbl := .toClient (.write .run) mask

/-- The two programs: the message there and back, and the close. -/
def conversation : List Lbl :=
  clientFrame 5 ++ push :: serverFrame 5 ++ clientFrame 2 ++ push :: serverFrame 2

theorem hello_once_conversation : ∃ x,
    run (step closeOnMessage) (start.clientAct mask (.send hello)) conversation = some x ∧
    x.served = [.message (lit "Hello"), .close 1000 []] ∧
    x.heard = [.message (lit "Hello"), .close 1000 []] := by
  have hend : (run (step closeOnMessage) (start.clientAct mask (.send hello)) conversation).map
      (fun x => decide (Over x)) = some true := by decide +kernel
  obtain ⟨x, hx, ho⟩ := Option.map_eq_some_iff.mp hend
  have hls : ∀ l ∈ conversation, IsOwn l := by
    simp only [conversation, clientFrame, serverFrame, push, List.cons_append, List.nil_append,
      List.forall_mem_cons, IsOwn, true_and]
    exact fun l hl => absurd hl List.not_mem_nil
  obtain ⟨hserved, hheard⟩ :=
    (hello_once mask hls hx).2.2 (settled_of_over (of_decide_eq_true ho))
  exact ⟨x, hx, hserved, hheard⟩

/-- An application that sends a text and closes, without waiting for the echo. -/
def goingAway : List Lbl :=
  .act mask (.send ⟨129, lit "bye"⟩) :: clientFrame 3 ++ .act mask (.close 1001 []) ::
    clientFrame 2 ++ push :: push :: serverFrame 3 ++ serverFrame 2

theorem fitting_goingAway : ∀ l ∈ goingAway, Fitting l ∧ Mild l := by
  have hbye : (Act.send ⟨129, lit "bye"⟩).Fits ∧ (Act.send ⟨129, lit "bye"⟩).Mild :=
    ⟨(by decide : Frame.Fits _), (by decide +kernel : Event.closes _ = false)⟩
  have hclose : (Act.close 1001 []).Fits ∧ (Act.close 1001 []).Mild :=
    ⟨(by decide : Frame.Fits _), trivial⟩
  simp only [goingAway, clientFrame, serverFrame, push, List.cons_append, List.nil_append,
    List.forall_mem_cons, Fitting, Mild, hbye, hclose, and_self, true_and]
  exact fun l hl => absurd hl List.not_mem_nil

theorem echoes_goingAway : ∃ x, run (step fun _ => none) start goingAway = some x ∧
    x.heard = [.message (lit "bye"), .close 1001 []] := by
  have hend : (run (step fun _ => none) start goingAway).map (fun x =>
      (decide (Over x), decide ((heard x.said).map echoed =
        [.message (lit "bye"), .close 1001 []]))) = some (true, true) := by
    decide +kernel
  obtain ⟨x, hx, ho⟩ := Option.map_eq_some_iff.mp hend
  obtain ⟨hover, hsaid⟩ := Prod.mk.inj ho
  have hall := (echoes (fun _ _ ha => absurd ha.symm (Option.some_ne_none _))
    (fun l hl => (fitting_goingAway l hl).1) hx).2 (settled_of_over (of_decide_eq_true hover))
  exact ⟨x, hx, hall.trans (of_decide_eq_true hsaid)⟩

theorem closes_once_goingAway : ∃ x, run (step fun _ => none) start goingAway = some x ∧
    x.said.countP (fun f => f.event.closes) ≤ 1 ∧
    x.sent.countP (fun f => f.event.closes) ≤ 1 ∧ ∃ status reason,
      x.served.getLast? = some (.close status reason) ∧
        x.heard.getLast? = some (.close status reason) := by
  have hend : (run (step fun _ => none) start goingAway).map (fun x =>
      (decide (Over x), x.clientClosed)) = some (true, true) := by decide +kernel
  obtain ⟨x, hx, ho⟩ := Option.map_eq_some_iff.mp hend
  obtain ⟨hover, hclosed⟩ := Prod.mk.inj ho
  obtain ⟨hsaid, hsent, hlast⟩ := closes_once (fun _ _ ha => absurd ha.symm (Option.some_ne_none _))
    fitting_goingAway hx
  exact ⟨x, hx, hsaid, hsent, hlast hclosed (settled_of_over (of_decide_eq_true hover))⟩

end LiveStreamer.SimpleWeb.Echo
