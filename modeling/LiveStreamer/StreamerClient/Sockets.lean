import LiveStreamer.Lib.Run
import Mathlib.Data.Int.Notation
import Mathlib.Logic.Function.Basic

/-! # The sockets of a device (`Client.c`)

`main` connects to the server again and again, and `intHandler` once more; both close `srvrSock`
afterwards, whether they have been connected or not. The other threads of the process, those of
GStreamer, open and close descriptors of their own at any time, and a number that has been closed
is given out again. SIGINT comes at any point of `main`, also while it waits in `connect`; the
handler is not interrupted by a second one and ends the process.

`main` leaves no socket open and closes what it has opened. The socket `intHandler` finds in
`srvrSock` is never closed once the handler has opened its own (`sockets_closed`). And where the
host is not found no new `srvrSock` has been set, and what is closed is whatever has the number of
the last socket by then. -/

namespace LiveStreamer.StreamerClient.Sockets

open LiveStreamer.Lib.Run

/-! ### The descriptors -/

/-- Who has opened a descriptor. -/
inductive Owner where
  /-- `connect2Client` -/
  | sock
  | other
  deriving DecidableEq

/-- Where `main`, or `intHandler` once it has been called, is. -/
inductive Pc where
  /-- Before the `socket` of `connect2Client`. -/
  | idle
  /-- Before its `connect`. -/
  | opened
  /-- In `clientComm`. -/
  | session
  | exited
  deriving DecidableEq

structure Sys where
  srvrSock : ℤ
  files : ℤ → Option Owner
  pc : Pc
  /-- In `intHandler`. -/
  handler : Bool
  /-- The socket of the connection `intHandler` has interrupted. -/
  left : Option ℤ

/-- What `gethostbyname` and `socket` answer. -/
inductive Answer where
  | noHost
  | noSocket
  | socket (fd : ℤ)
  deriving DecidableEq

inductive Lbl where
  /-- `connect2Client` up to its `connect`. -/
  | dial (a : Answer)
  /-- `connect`, and whether it succeeds. -/
  | connect (ok : Bool)
  /-- `clientComm` returns. -/
  | finish
  | sigint
  /-- Another thread opens or closes a descriptor. -/
  | opens (fd : ℤ)
  | closes (fd : ℤ)
  deriving DecidableEq

/-- The three standard streams are open, and `srvrSock` is a global variable. -/
def init : Sys := ⟨0, fun fd => if 0 ≤ fd ∧ fd ≤ 2 then some .other else none, .idle, false, none⟩

/-- There is a connection, or there will be one. -/
def Sys.Open (s : Sys) : Prop := s.pc = .opened ∨ s.pc = .session

instance (s : Sys) : Decidable s.Open := inferInstanceAs (Decidable (_ ∨ _))

/-! ### The code -/

/-- `close(srvrSock)`, after which `main` sleeps and `intHandler` exits. -/
def closeSock (s : Sys) : Sys :=
  { s with
    files := Function.update s.files s.srvrSock none
    pc := if s.handler then .exited else .idle }

/-- `socket` gives a number that is free. -/
def opened (s : Sys) (fd : ℤ) : Sys :=
  { s with srvrSock := fd, files := Function.update s.files fd (some .sock), pc := .opened }

/-- `connect2Client` up to its `connect`, and the `close` where it answers -1 before. -/
def dial (s : Sys) : Answer → Option Sys
  | .noHost => some (closeSock s)
  | .noSocket => some (closeSock { s with srvrSock := -1 })
  | .socket fd => if 0 ≤ fd ∧ s.files fd = none then some (opened s fd) else none

/-- `intHandler` is called. -/
def interrupt (s : Sys) : Sys :=
  { s with handler := true, pc := .idle, left := if s.Open then some s.srvrSock else none }

def step (s : Sys) : Lbl → Option Sys
  | .dial a => if s.pc = .idle then dial s a else none
  | .connect ok =>
    if s.pc = .opened then some (if ok then { s with pc := .session } else closeSock s) else none
  | .finish => if s.pc = .session then some (closeSock s) else none
  | .sigint => if s.handler = false then some (interrupt s) else none
  | .opens fd =>
    if 0 ≤ fd ∧ s.files fd = none then
      some { s with files := Function.update s.files fd (some .other) }
    else none
  | .closes fd =>
    if s.files fd = some .other then some { s with files := Function.update s.files fd none }
    else none

/-! ### One call -/

section Calls
variable {s s' : Sys} {l : Lbl} {m : ℤ}

theorem files_closeSock : (closeSock s).files m = if m = s.srvrSock then none else s.files m :=
  Function.update_apply ..

theorem files_opened {fd : ℤ} : (opened s fd).files m = if m = fd then some .sock else s.files m :=
  Function.update_apply ..

/-- What a step does. -/
inductive Does (s : Sys) : Lbl → Sys → Prop
  | noHost (hpc : s.pc = .idle) : Does s (.dial .noHost) (closeSock s)
  | noSocket (hpc : s.pc = .idle) : Does s (.dial .noSocket) (closeSock { s with srvrSock := -1 })
  | opened {fd : ℤ} (hpc : s.pc = .idle) (hfd : 0 ≤ fd) (hfree : s.files fd = none) :
    Does s (.dial (.socket fd)) (opened s fd)
  | connected (hpc : s.pc = .opened) : Does s (.connect true) { s with pc := .session }
  /-- `connect` fails, or `clientComm` returns. -/
  | closed {l : Lbl} (hl : l ≠ .dial .noHost) (hopen : s.Open) : Does s l (closeSock s)
  | interrupted (hh : s.handler = false) : Does s .sigint (interrupt s)
  | opens {fd : ℤ} (hfd : 0 ≤ fd) (hfree : s.files fd = none) :
    Does s (.opens fd) { s with files := Function.update s.files fd (some .other) }
  | closes {fd : ℤ} (hfd : s.files fd = some .other) :
    Does s (.closes fd) { s with files := Function.update s.files fd none }

theorem does_of_step (hs : step s l = some s') : Does s l s' := by
  cases l with
  | dial a =>
    obtain ⟨hpc, hs⟩ := Option.ite_none_right_eq_some.mp hs
    cases a with
    | noHost =>
      cases hs
      exact .noHost hpc
    | noSocket =>
      cases hs
      exact .noSocket hpc
    | socket fd =>
      obtain ⟨⟨hfd, hfree⟩, hs⟩ := Option.ite_none_right_eq_some.mp hs
      cases hs
      exact .opened hpc hfd hfree
  | connect ok =>
    obtain ⟨hpc, hs⟩ := Option.ite_none_right_eq_some.mp hs
    cases ok with
    | false =>
      cases hs
      exact .closed Lbl.noConfusion (Or.inl hpc)
    | true =>
      cases hs
      exact .connected hpc
  | finish =>
    obtain ⟨hpc, hs⟩ := Option.ite_none_right_eq_some.mp hs
    cases hs
    exact .closed Lbl.noConfusion (Or.inr hpc)
  | sigint =>
    obtain ⟨hh, hs⟩ := Option.ite_none_right_eq_some.mp hs
    cases hs
    exact .interrupted hh
  | opens fd =>
    obtain ⟨⟨hfd, hfree⟩, hs⟩ := Option.ite_none_right_eq_some.mp hs
    cases hs
    exact .opens hfd hfree
  | closes fd =>
    obtain ⟨hfd, hs⟩ := Option.ite_none_right_eq_some.mp hs
    cases hs
    exact .closes hfd

end Calls

/-! ### Every run -/

/-- No descriptor is negative. -/
def Numbers (s : Sys) : Prop := ∀ fd < 0, s.files fd = none

/-- The open sockets are the one of the connection and the one `intHandler` has left. -/
def Balanced (s : Sys) : Prop :=
  s.pc ≠ .exited → ∀ m, s.files m = some .sock ↔ (s.Open ∧ m = s.srvrSock) ∨ s.left = some m

structure Inv (s : Sys) : Prop where
  numbers : Numbers s
  sockets : Balanced s
  main : s.handler = false → s.pc ≠ .exited ∧ s.left = none

section Runs
variable {s s' : Sys} {l : Lbl} {m : ℤ}

theorem inv_init : Inv init := by
  refine ⟨fun fd hfd => if_neg (by omega), fun _ m => ?_, fun _ => ⟨Pc.noConfusion, rfl⟩⟩
  refine iff_of_false (fun hm => ?_) ?_
  · simp only [init] at hm
    split_ifs at hm
    cases hm
  · simp [init, Sys.Open]

theorem Numbers.update (h : Numbers s) {fd : ℤ} {o : Option Owner} (ho : 0 ≤ fd ∨ o = none) :
    ∀ m < 0, Function.update s.files fd o m = none := by
  intro m hm
  rw [Function.update_apply]
  split_ifs with he
  · exact ho.resolve_left (by omega)
  · exact h m hm

/-- `main` has no socket after its `close`. -/
theorem Inv.closeSock (h : Inv s) : Inv (closeSock s) := by
  obtain ⟨hn, hk, hmain⟩ := h
  have hpc : (Sockets.closeSock s).pc = if s.handler then .exited else .idle := rfl
  refine ⟨hn.update (Or.inr rfl), ?_, fun hh => ?_⟩
  · intro hex m
    cases hh : s.handler with
    | true =>
      rw [hpc, if_pos hh] at hex
      exact absurd rfl hex
    | false =>
      obtain ⟨hex', hleft⟩ := hmain hh
      have hopen : ¬ (Sockets.closeSock s).Open := by simp [Sys.Open, hpc, hh]
      have hsock := hk hex' m
      refine iff_of_false ?_ (by simp [hopen, show (Sockets.closeSock s).left = none from hleft])
      rw [files_closeSock]
      split_ifs with he
      · simp
      · simp [hsock, he, hleft]
  · have hh' : s.handler = false := hh
    exact ⟨by simp [hpc, hh'], (hmain hh').2⟩

/-- Other threads leave the sockets alone. -/
theorem Balanced.update (h : Balanced s) {fd : ℤ} (hfd : s.files fd ≠ some .sock) {o : Option Owner}
    (ho : o ≠ some .sock) : Balanced { s with files := Function.update s.files fd o } := by
  intro hex m
  refine Iff.trans ?_ (h hex m)
  show Function.update s.files fd o m = some .sock ↔ s.files m = some .sock
  rw [Function.update_apply]
  split_ifs with hm
  · exact iff_of_false ho (hm ▸ hfd)
  · rfl

/-- Without a connection the number in `srvrSock` does not matter. -/
theorem Inv.idle (h : Inv s) (hpc : s.pc = .idle) (fd : ℤ) : Inv { s with srvrSock := fd } := by
  obtain ⟨hn, hk, hmain⟩ := h
  refine ⟨hn, fun hex m => (hk hex m).trans ?_, hmain⟩
  simp [Sys.Open, hpc]

theorem Inv.opened (h : Inv s) (hpc : s.pc = .idle) {fd : ℤ} (hfd : 0 ≤ fd) :
    Inv (opened s fd) := by
  obtain ⟨hn, hk, hmain⟩ := h
  refine ⟨hn.update (Or.inl hfd), fun _ m => ?_, fun hh => ⟨Pc.noConfusion, (hmain hh).2⟩⟩
  have hsock : s.files m = some .sock ↔ s.left = some m := by
    rw [hk (by rw [hpc]; exact Pc.noConfusion) m]
    simp [Sys.Open, hpc]
  rw [files_opened]
  show _ ↔ (((.opened : Pc) = .opened ∨ (.opened : Pc) = .session) ∧ m = fd) ∨ s.left = some m
  split_ifs with hm
  · simp [hm]
  · simp [hm, hsock]

/-- In `intHandler` the socket of the interrupted connection stays open. -/
theorem Inv.interrupt (h : Inv s) (hh : s.handler = false) : Inv (interrupt s) := by
  obtain ⟨hn, hk, hmain⟩ := h
  obtain ⟨hex, hleft⟩ := hmain hh
  refine ⟨hn, fun _ m => (hk hex m).trans ?_, fun hh' => absurd hh' Bool.noConfusion⟩
  show _ ↔ (((.idle : Pc) = .opened ∨ (.idle : Pc) = .session) ∧ m = s.srvrSock) ∨
    (if s.Open then some s.srvrSock else none) = some m
  split_ifs with hopen <;> simp [hopen, hleft, eq_comm]

theorem inv_step (hi : Inv s) (hs : step s l = some s') : Inv s' := by
  cases does_of_step hs with
  | noHost hpc => exact hi.closeSock
  | noSocket hpc => exact (hi.idle hpc (-1)).closeSock
  | opened hpc hfd hfree => exact hi.opened hpc hfd
  | connected hpc =>
    refine ⟨hi.numbers, fun _ m => ?_, fun hh => ⟨Pc.noConfusion, (hi.main hh).2⟩⟩
    rw [show s.files m = some .sock ↔ _ from hi.sockets (by rw [hpc]; exact Pc.noConfusion) m]
    simp [Sys.Open, hpc]
  | closed hl hopen => exact hi.closeSock
  | interrupted hh => exact hi.interrupt hh
  | opens hfd hfree =>
    exact ⟨hi.numbers.update (Or.inl hfd), hi.sockets.update (by rw [hfree]; simp) (by simp),
      hi.main⟩
  | closes hfd =>
    exact ⟨hi.numbers.update (Or.inr rfl), hi.sockets.update (by rw [hfd]; simp) (by simp), hi.main⟩

/-- A connection is that of a socket. -/
theorem Inv.sock_of_open (hi : Inv s) (hopen : s.Open) : s.files s.srvrSock = some .sock := by
  refine (hi.sockets (fun hex => ?_) s.srvrSock).mpr (Or.inl ⟨hopen, rfl⟩)
  rw [Sys.Open, hex] at hopen
  rcases hopen with h | h <;> cases h

/-- What another thread has opened is closed by it, or where the host is not found. -/
theorem other_step (hi : Inv s) (hs : step s l = some s') (hm : s.files m = some .other)
    (hl : l ≠ .closes m) : s'.files m = some .other ↔ ¬ (l = .dial .noHost ∧ m = s.srvrSock) := by
  have hne {fd : ℤ} (hfd : s.files fd ≠ some .other) : m ≠ fd := by
    rintro rfl
    exact hfd hm
  cases does_of_step hs with
  | noHost hpc =>
    rw [files_closeSock]
    split_ifs with he <;> simp [he, hm]
  | noSocket hpc =>
    rw [files_closeSock, if_neg (hne (by rw [hi.numbers (-1) (by decide)]; simp))]
    simp [hm]
  | opened hpc hfd hfree =>
    rw [files_opened, if_neg (hne (by rw [hfree]; simp))]
    simp [hm]
  | connected hpc => simp [hm]
  | closed hl' hopen =>
    rw [files_closeSock, if_neg (hne (by rw [hi.sock_of_open hopen]; simp))]
    exact iff_of_true hm fun hb => hl' hb.1
  | interrupted hh => exact iff_of_true hm fun hb => Lbl.noConfusion hb.1
  | opens hfd hfree =>
    refine iff_of_true ?_ fun hb => Lbl.noConfusion hb.1
    exact (Function.update_of_ne (hne (by rw [hfree]; simp)) _ _).trans hm
  | closes hfd =>
    refine iff_of_true ?_ fun hb => Lbl.noConfusion hb.1
    exact (Function.update_of_ne (fun he => hl (congrArg Lbl.closes he.symm)) _ _).trans hm

/-- **The sockets are closed**: while the process lives the open ones are that of the connection,
in `srvrSock`, and in `intHandler` that of the connection it has interrupted; and the device closes
what another of its threads has opened if and only if the host is not found and the number in
`srvrSock` has been given to that thread. -/
theorem sockets_closed {ls : List Lbl} (hr : run step init ls = some s) :
    (s.pc ≠ .exited → ∀ m, s.files m = some .sock ↔ (s.Open ∧ m = s.srvrSock) ∨ s.left = some m) ∧
    (s.handler = false → s.pc ≠ .exited ∧ s.left = none) ∧
    ∀ l s' m, step s l = some s' → s.files m = some .other → l ≠ .closes m →
      (s'.files m = some .other ↔ ¬ (l = .dial .noHost ∧ m = s.srvrSock)) := by
  have hi : Inv s := inv_of_run (fun s l s' => inv_step) inv_init hr
  exact ⟨hi.sockets, hi.main, fun l s' m hs hm hl => other_step hi hs hm hl⟩

/-- The camera is opened under the number of the last socket, and the host is not found; and SIGINT
finds the connection 3, and the handler makes the connection 4. -/
theorem sockets_closed_camera :
    (∃ s s', run step init [.dial (.socket 3), .connect true, .finish, .opens 3] = some s ∧
      step s (.dial .noHost) = some s' ∧ s.files 3 = some .other ∧ s'.files 3 ≠ some .other) ∧
    ∃ s, run step init
        [.dial (.socket 3), .connect true, .sigint, .dial (.socket 4), .connect true] = some s ∧
      ∀ m, s.files m = some .sock ↔ m = 4 ∨ m = 3 := by
  constructor
  · have hsome : (run step init
        [.dial (.socket 3), .connect true, .finish, .opens 3]).isSome = true := by decide
    obtain ⟨s, hr⟩ := Option.isSome_iff_exists.mp hsome
    have hm : s.files 3 = some .other ∧ s.srvrSock = 3 ∧ s.pc = .idle := by
      cases hr
      decide
    obtain ⟨hm, h3, hpc⟩ := hm
    have hs : step s (.dial .noHost) = some (closeSock s) := if_pos hpc
    refine ⟨s, closeSock s, hr, hs, hm, fun hb => ?_⟩
    exact ((sockets_closed hr).2.2 _ _ 3 hs hm Lbl.noConfusion).mp hb ⟨rfl, h3.symm⟩
  · have hsome : (run step init [.dial (.socket 3), .connect true, .sigint, .dial (.socket 4),
        .connect true]).isSome = true := by decide
    obtain ⟨s, hr⟩ := Option.isSome_iff_exists.mp hsome
    have hm : s.pc = .session ∧ s.srvrSock = 4 ∧ s.left = some 3 := by
      cases hr
      decide
    obtain ⟨hpc, h4, h3⟩ := hm
    refine ⟨s, hr, fun m => ((sockets_closed hr).1 (by rw [hpc]; exact Pc.noConfusion) m).trans ?_⟩
    rw [h4, h3]
    simp [Sys.Open, hpc, eq_comm]

end Runs

end LiveStreamer.StreamerClient.Sockets
