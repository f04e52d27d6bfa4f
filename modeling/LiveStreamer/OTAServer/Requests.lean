import LiveStreamer.Lib.Run
import LiveStreamer.OTAServer.SrvrComm

/-! # The requests of several clients

Any number of clients are connected at once. A step is a new connection, the arrival of a message,
or the next use of a global variable by a thread. The uses act on the socket that `clntSock` holds
at that time, whichever thread has set it.

While one thread has the socket, from its assignment to its `close`, it is undisturbed if no other
thread assigns it (`Alone`): then every client gets its own answer (`answered_of_alone`). A second
assignment makes the first thread serve the other client (`overlap_loses_answer`). -/

namespace LiveStreamer.OTAServer.Requests

open LiveStreamer.Lib.CString LiveStreamer.Lib.Program LiveStreamer.Lib.Program.Prog
open LiveStreamer.Lib.Run LiveStreamer.OTAServer.SrvrComm

/-! ### The global variables and the connections -/

structure Shared where
  clntSock : ℕ
  tempBuff : Bytes
  conns : List Conn

/-- The socket that `clntSock` holds is the one of this connection. -/
def Shared.On (s : Shared) (c : Conn) : Prop := c.sock = s.clntSock ∧ c.Open

instance (s : Shared) (c : Conn) : Decidable (s.On c) := inferInstanceAs (Decidable (_ ∧ _))

/-- An operation on the socket that `clntSock` holds; none on a closed one. -/
def Shared.onSock (s : Shared) (f : Conn → Conn) : Shared :=
  { s with conns := s.conns.map fun c => if s.On c then f c else c }

/-- The message that waits in the socket that `clntSock` holds. -/
def Shared.waiting (s : Shared) : Option Bytes :=
  (s.conns.find? fun c => s.On c).bind Conn.inbox

def sharedSem : Sem SrvrOp SrvrRet Shared
  | .setSock sock, s => (some (), { s with clntSock := sock })
  | .recv, s =>
    match s.waiting with
    | some msg => (some true, { s.onSock Conn.taken with tempBuff := received msg })
    | none => (some false, s)
  | .readBuff, s => (some s.tempBuff, s)
  | .format text, s => (some (), { s with tempBuff := formatted text })
  | .send, s => (some (), s.onSock (Conn.push (.reply s.tempBuff)))
  | .close, s => (some (), s.onSock (Conn.push .closed))

/-! ### The system -/

/-- The process, with one thread for each connection. -/
structure Sys where
  shared : Shared
  threads : List (SrvrProg Unit)
  up : Bool

def Sys.init : Sys := ⟨⟨0, [], []⟩, [], true⟩

inductive Lbl where
  /-- `accept` returns a descriptor. -/
  | accept (sock : ℕ)
  /-- The message of a client arrives. -/
  | request (i : ℕ) (msg : Bytes)
  /-- The next use of a global variable by a thread. -/
  | run (i : ℕ)

/-- The client has sent its message. -/
def Asked (c : Conn) : Prop := ∃ e ∈ c.log, ∃ msg, e = Event.request msg

instance (c : Conn) : Decidable (Asked c) :=
  decidable_of_iff (c.log.any fun e => match e with | .request _ => true | _ => false) (by
    rw [List.any_eq_true]
    refine exists_congr fun e => and_congr_right fun _ => ?_
    cases e <;> simp)

/-- The thread waits: its next call is a `recv` from an open socket with no message in it. -/
def Blocked (s : Shared) (p : SrvrProg Unit) : Prop :=
  p.next = some .recv ∧ s.waiting = none ∧ ∃ c ∈ s.conns, s.On c

instance (s : Shared) (p : SrvrProg Unit) : Decidable (Blocked s p) :=
  inferInstanceAs (Decidable (_ ∧ _))

/-- The thread has ended the process. -/
def aborted : SrvrProg Unit → Bool
  | .abort => true
  | _ => false

def step (file : StatusFile) (s : Sys) (l : Lbl) : Option Sys :=
  if s.up then
    match l with
    | .accept sock =>
      -- a descriptor is taken again only after its close
      if ∀ c ∈ s.shared.conns, c.Open → c.sock ≠ sock then
        some { s with
          shared := { s.shared with conns := s.shared.conns ++ [⟨sock, none, []⟩] }
          threads := s.threads ++ [handleTCPClient file sock] }
      else none
    | .request i msg =>
      match s.shared.conns[i]? with
      | some c =>
        if c.Open ∧ ¬ Asked c then
          some { s with shared := { s.shared with
            conns := s.shared.conns.set i { c.push (.request msg) with inbox := some msg } } }
        else none
      | none => none
    | .run i =>
      match s.threads[i]? with
      | some p =>
        if Blocked s.shared p then none
        else (Prog.step sharedSem p s.shared).map fun r =>
          ⟨r.2, s.threads.set i r.1, !aborted r.1⟩
      | none => none
  else none

/-! ### What the clients are promised -/

/-- An update request of a client with version `v`. -/
structure WellFormed (msg v : Bytes) : Prop where
  short : msg.length ≤ MAXDATASIZE - 1
  action : field "action" msg = some (lit "update")
  version : field "version" msg = some v

/-- The exchange of a client with version `v`, if the server has version `V`. -/
def exchange (V v msg : Bytes) : List Event :=
  [.request msg, .reply (formatted (answerText V v)), .closed]

/-- The thread is between its assignment of `clntSock` and its `close`. -/
def Between : SrvrProg Unit → Prop
  | .ret _ => False
  | .call (.setSock _) _ => False
  | _ => True

instance : DecidablePred Between
  | .ret _ => isFalse id
  | .abort => isTrue trivial
  | .call (.setSock _) _ => isFalse id
  | .call .recv _ => isTrue trivial
  | .call .readBuff _ => isTrue trivial
  | .call (.format _) _ => isTrue trivial
  | .call .send _ => isTrue trivial
  | .call .close _ => isTrue trivial

/-- No thread but the `i`-th is between its assignment and its `close`. -/
def NoOther (s : Sys) (i : ℕ) : Prop :=
  ∀ j < s.threads.length, j ≠ i → ∀ q ∈ s.threads[j]?, ¬ Between q

instance (s : Sys) (i : ℕ) : Decidable (NoOther s i) :=
  inferInstanceAs (Decidable (∀ j < _, j ≠ i → ∀ q ∈ _, ¬ Between q))

/-- The connection `i` with its thread is as its client is promised: the exchange of its request
has been begun; it is complete when the thread is at its end; and the steps of the thread complete
it, if no other thread comes between them. -/
structure Served (file : StatusFile) (V : Bytes) (s : Sys) (i : ℕ) (c : Conn)
    (p : SrvrProg Unit) (v msg : Bytes) : Prop where
  begun : c.log <+: exchange V v msg
  complete : p = ret () → c.log = exchange V v msg
  completes : ∃ n s' c', run (step file) s (List.replicate n (.run i)) = some s' ∧
    s'.shared.conns[i]? = some c' ∧ c'.log = exchange V v msg

/-- Every client that has sent an update request is served. -/
def Answered (file : StatusFile) (V : Bytes) (s : Sys) : Prop :=
  ∀ i c p v msg, s.shared.conns[i]? = some c → s.threads[i]? = some p → WellFormed msg v →
    Event.request msg ∈ c.log → Served file V s i c p v msg

/-- A thread assigns `clntSock` only when no other is between its assignment and its `close`; and
no message ends the process. -/
def Alone (s : Sys) : Lbl → Prop
  | .accept _ => True
  | .request _ msg => Harmless msg
  | .run i => ∀ p ∈ s.threads[i]?, ¬ Between p → NoOther s i

instance (s : Sys) : ∀ l, Decidable (Alone s l)
  | .accept _ => isTrue trivial
  | .request _ msg => inferInstanceAs (Decidable (Harmless msg))
  | .run i => inferInstanceAs (Decidable (∀ p ∈ s.threads[i]?, ¬ Between p → NoOther s i))

/-! ### The operations of a thread that has the socket -/

/-- No descriptor stands for two open connections. -/
def Distinct (conns : List Conn) : Prop :=
  ∀ (i j : ℕ) (ci cj : Conn), conns[i]? = some ci → conns[j]? = some cj → ci.Open → cj.Open →
    ci.sock = cj.sock → i = j

theorem getElem?_set_cases {α : Type} {l : List α} {i j : ℕ} {a b : α}
    (h : (l.set i a)[j]? = some b) : (j = i ∧ b = a) ∨ (j ≠ i ∧ l[j]? = some b) := by
  rw [List.getElem?_set] at h
  split_ifs at h with hij hlt
  · exact Or.inl ⟨hij.symm, (Option.some.inj h).symm⟩
  · exact Or.inr ⟨fun he => hij he.symm, h⟩

theorem getElem?_set_of {α : Type} {l : List α} {i : ℕ} {a b : α} (h : l[i]? = some b) :
    (l.set i a)[i]? = some a := by
  rw [List.getElem?_set_self (List.getElem?_eq_some_iff.mp h).1]

section Own
variable {s : Shared} {i : ℕ} {c : Conn}

theorem Distinct.set {conns : List Conn} (hd : Distinct conns) (hi : conns[i]? = some c)
    {c' : Conn} (hs : c'.sock = c.sock) (ho : c'.Open → c.Open) : Distinct (conns.set i c') := by
  intro j k cj ck hj hk hoj hok he
  rcases getElem?_set_cases hj with ⟨rfl, rfl⟩ | ⟨hji, hj'⟩ <;>
    rcases getElem?_set_cases hk with ⟨rfl, rfl⟩ | ⟨hki, hk'⟩
  · rfl
  · exact hd _ _ _ _ hi hk' (ho hoj) hok (hs.symm.trans he)
  · exact hd _ _ _ _ hj' hi hoj (ho hok) (he.trans hs)
  · exact hd _ _ _ _ hj' hk' hoj hok he

/-- An operation on the socket reaches this connection only. -/
theorem conns_onSock (hd : Distinct s.conns) (hi : s.conns[i]? = some c) (ho : s.On c)
    (f : Conn → Conn) : (s.onSock f).conns = s.conns.set i (f c) := by
  refine List.ext_getElem? fun j => ?_
  show (s.conns.map _)[j]? = _
  rw [List.getElem?_map]
  by_cases hj : j = i
  · subst hj
    rw [hi, getElem?_set_of hi, Option.map_some, if_pos ho]
  · rw [List.getElem?_set_ne (Ne.symm hj)]
    rcases h : s.conns[j]? with _ | cj
    · rfl
    · have hn : ¬ s.On cj := fun hon =>
        hj (hd _ _ _ _ h hi hon.2 ho.2 (hon.1.trans ho.1.symm))
      rw [Option.map_some, if_neg hn]

theorem waiting_eq (hd : Distinct s.conns) (hi : s.conns[i]? = some c) (ho : s.On c) :
    s.waiting = c.inbox := by
  unfold Shared.waiting
  rcases h : s.conns.find? fun c => s.On c with _ | cj
  · rw [List.find?_eq_none] at h
    exact absurd (decide_eq_true ho) (h c (List.mem_of_getElem? hi))
  · have hon : s.On cj := by simpa using List.find?_some h
    obtain ⟨j, hj⟩ := List.getElem?_of_mem (List.mem_of_find?_eq_some h)
    have hji : j = i := hd _ _ _ _ hj hi hon.2 ho.2 (hon.1.trans ho.1.symm)
    rw [hji, hi] at hj
    cases hj
    rfl

/-- **A thread that has the socket** does on the shared state what it does on its connection. -/
theorem sharedSem_eq (hd : Distinct s.conns) (hi : s.conns[i]? = some c) (ho : s.On c) {o : SrvrOp}
    {r : SrvrRet o} {c' : Conn} {buff : Bytes}
    (h : connSem o (c, s.tempBuff) = (some r, c', buff)) :
    sharedSem o s = (some r, ⟨s.clntSock, buff, s.conns.set i c'⟩) ∧
      (o = .recv → s.waiting ≠ none) := by
  have hw := waiting_eq hd hi ho
  have hset (f : Conn → Conn) : s.onSock f = ⟨s.clntSock, s.tempBuff, s.conns.set i (f c)⟩ := by
    rw [← conns_onSock hd hi ho f]
    rfl
  have hself : s.conns.set i c = s.conns := by
    obtain ⟨hlt, hget⟩ := List.getElem?_eq_some_iff.mp hi
    rw [← hget, List.set_getElem_self]
  unfold connSem at h
  rw [if_pos ho.2] at h
  cases o with
  | setSock sock => cases h
  | recv =>
    rcases hin : c.inbox with _ | msg
    · simp [hin] at h
    · simp only [hin, Prod.mk.injEq, Option.some.injEq] at h
      obtain ⟨rfl, rfl, rfl⟩ := h
      refine ⟨?_, fun _ => ?_⟩
      · simp only [sharedSem, hw, hin, hset]
      · rw [hw, hin]
        exact Option.some_ne_none _
  | readBuff =>
    cases h
    exact ⟨by rw [hself]; rfl, fun h => nomatch h⟩
  | format text =>
    cases h
    exact ⟨by rw [hself]; rfl, fun h => nomatch h⟩
  | send =>
    cases h
    exact ⟨by rw [← hset]; rfl, fun h => nomatch h⟩
  | close =>
    cases h
    exact ⟨by rw [← hset]; rfl, fun h => nomatch h⟩

end Own

/-! ### The stages of a thread -/

/-- The client has not sent its message, or it waits to be received. -/
def Pending (c : Conn) : Prop :=
  (c.log = [] ∧ c.inbox = none) ∨
    ∃ msg, Harmless msg ∧ c.log = [.request msg] ∧ c.inbox = some msg

/-- A thread that has the socket and a message to answer: alone, it completes the exchange. -/
structure Busy (V : Bytes) (s : Shared) (c : Conn) (p : SrvrProg Unit) : Prop where
  on : s.On c
  asked : c.log ≠ []
  ends : ∃ v msg, exec connSem p (c, s.tempBuff) = (some (), v) ∧ v.1.log = expected V msg

/-- Where a thread is. -/
inductive Stage (file : StatusFile) (V : Bytes) (s : Shared) (c : Conn) : SrvrProg Unit → Prop
  | waiting (h : Pending c) : Stage file V s c (handleTCPClient file c.sock)
  | idle (on : s.On c) (log : c.log = []) (inbox : c.inbox = none) :
    Stage file V s c (handling file)
  | busy {p : SrvrProg Unit} (h : Busy V s c p) : Stage file V s c p
  | done {msg : Bytes} (log : c.log = expected V msg) : Stage file V s c (ret ())

/-- **The threads take turns.** -/
structure Inv (file : StatusFile) (V : Bytes) (s : Sys) : Prop where
  up : s.up = true
  length : s.threads.length = s.shared.conns.length
  distinct : Distinct s.shared.conns
  stage : ∀ (i : ℕ) (c : Conn) (p : SrvrProg Unit), s.shared.conns[i]? = some c →
    s.threads[i]? = some p → Stage file V s.shared c p
  one : ∀ (i j : ℕ) (p q : SrvrProg Unit), s.threads[i]? = some p → s.threads[j]? = some q →
    Between p → Between q → i = j

section Stages
variable {file : StatusFile} {V : Bytes} {s : Shared} {c : Conn} {p : SrvrProg Unit}

theorem closed_of_expected {msg : Bytes} (h : c.log = expected V msg) : ¬ c.Open := by
  simp [Conn.Open, h, expected]

theorem Pending.isOpen (h : Pending c) : c.Open := by
  rcases h with ⟨hl, -⟩ | ⟨msg, -, hl, -⟩ <;> simp [Conn.Open, hl]

/-- A thread that is not at its end makes a call, and is between. -/
theorem call_of_exec {v v' : Conn × Bytes} (hc : ¬ v'.1.Open) (ho : v.1.Open)
    (h : exec connSem p v = (some (), v')) : Between p ∧ ∃ o k r v1, p = call o k ∧
      connSem o v = (some r, v1) ∧ exec connSem (k r) v1 = (some (), v') := by
  cases p with
  | ret a =>
    cases h
    exact absurd ho hc
  | abort => cases h
  | call o k =>
    rcases hs : connSem o v with ⟨_ | r, v1⟩
    · rw [exec_call_none _ hs] at h
      cases h
    · rw [exec_call_some _ hs] at h
      refine ⟨?_, o, k, r, v1, rfl, hs, h⟩
      cases o with
      | setSock sock =>
        have hnone : connSem (.setSock sock) v = (none, v) := if_pos ho
        rw [hnone] at hs
        cases hs
      | _ => trivial

theorem Busy.between (h : Busy V s c p) : Between p := by
  obtain ⟨v, msg, hx, hlog⟩ := h.ends
  exact (call_of_exec (closed_of_expected hlog) h.on.2 hx).1

/-- The stage of a thread that is not between depends on its connection only. -/
theorem Stage.frame (h : Stage file V s c p) (hp : ¬ Between p) (s' : Shared) :
    Stage file V s' c p := by
  cases h with
  | waiting h => exact .waiting h
  | idle on log inbox => exact absurd trivial hp
  | busy h => exact absurd h.between hp
  | done log => exact .done log

theorem Stage.congr (h : Stage file V s c p) {s' : Shared} (hs : s'.clntSock = s.clntSock)
    (hb : s'.tempBuff = s.tempBuff) : Stage file V s' c p := by
  have hon (ho : s.On c) : s'.On c := ⟨ho.1.trans hs.symm, ho.2⟩
  cases h with
  | waiting h => exact .waiting h
  | idle on log inbox => exact .idle (hon on) log inbox
  | busy h => exact .busy ⟨hon h.on, h.asked, hb ▸ h.ends⟩
  | done log => exact .done log

/-- A message that waits makes a thread that has the socket busy. -/
theorem busy_of_pending (hV : SrvrComm.getJsonValueFromFile file (lit "version") = some V)
    {msg : Bytes} (hm : Harmless msg) (hl : c.log = [.request msg]) (hi : c.inbox = some msg)
    (ho : s.On c) : Busy V s c (handling file) := by
  obtain ⟨c', buff', hx, hlog⟩ := exec_handling hV hi hl hm s.tempBuff
  exact ⟨ho, by simp [hl], _, msg, hx, hlog⟩

end Stages

/-! ### The steps of a thread -/

section Steps
variable {file : StatusFile} {V : Bytes} {s : Sys} {i : ℕ} {c : Conn} {p : SrvrProg Unit}

/-- **A step of a busy thread.** -/
theorem step_busy (hup : s.up = true) (hd : Distinct s.shared.conns)
    (hc : s.shared.conns[i]? = some c) (hp : s.threads[i]? = some p) (ho : s.shared.On c)
    {v : Conn × Bytes} (hx : exec connSem p (c, s.shared.tempBuff) = (some (), v))
    (hv : ¬ v.1.Open) : ∃ o k r c1 buff, p = call o k ∧
      connSem o (c, s.shared.tempBuff) = (some r, c1, buff) ∧
      exec connSem (k r) (c1, buff) = (some (), v) ∧
      step file s (.run i) = some ⟨⟨s.shared.clntSock, buff, s.shared.conns.set i c1⟩,
        s.threads.set i (k r), true⟩ := by
  obtain ⟨-, o, k, r, ⟨c1, buff⟩, rfl, hs, hk⟩ := call_of_exec hv ho.2 hx
  obtain ⟨hsem, hrecv⟩ := sharedSem_eq hd hc ho hs
  have hblock : ¬ Blocked s.shared (call o k) := fun hb =>
    hrecv (Option.some.inj hb.1) hb.2.1
  have hab : aborted (k r) = false := by
    rcases hkr : k r with _ | _ | _
    · rfl
    · rfl
    · rw [hkr] at hk
      cases hk
  refine ⟨o, k, r, c1, buff, rfl, hs, hk, ?_⟩
  simp only [step, hup, if_true, hp, if_neg hblock, step_call_some _ hsem, Option.map_some, hab,
    Bool.not_false]

/-- The first step of a thread sets the socket. -/
theorem step_waiting (hup : s.up = true) (hp : s.threads[i]? = some (handleTCPClient file c.sock)) :
    step file s (.run i) = some ⟨{ s.shared with clntSock := c.sock },
      s.threads.set i (handling file), true⟩ := by
  have hblock : ¬ Blocked s.shared (handleTCPClient file c.sock) := fun hb =>
    nomatch Option.some.inj hb.1
  have hsem : sharedSem (.setSock c.sock) s.shared =
      (some (), { s.shared with clntSock := c.sock }) := rfl
  simp only [step, hup, if_true, hp, if_neg hblock]
  rw [handleTCPClient_eq, step_call_some _ hsem]
  rfl

variable (file) in
/-- **The steps of a busy thread complete its exchange.** -/
theorem run_busy {v : Conn × Bytes} (hv : ¬ v.1.Open) (hup : s.up = true)
    (hd : Distinct s.shared.conns) (hc : s.shared.conns[i]? = some c)
    (hp : s.threads[i]? = some p) (ho : s.shared.On c)
    (hx : exec connSem p (c, s.shared.tempBuff) = (some (), v)) :
    ∃ n s', run (step file) s (List.replicate n (.run i)) = some s' ∧
      s'.shared.conns[i]? = some v.1 := by
  induction p generalizing s c with
  | ret a =>
    cases hx
    exact ⟨0, s, rfl, hc⟩
  | abort => cases hx
  | call o k ih =>
    obtain ⟨o', k', r, c1, buff, he, hs, hk, hstep⟩ := step_busy hup hd hc hp ho hx hv
    cases he
    have hsock : c1.sock = c.sock := by simpa [hs] using sock_connSem o (c, s.shared.tempBuff)
    have hc1 := getElem?_set_of (a := c1) hc
    by_cases hopen : c1.Open
    · obtain ⟨n, s', hr, hs'⟩ := ih r (s := ⟨⟨s.shared.clntSock, buff, s.shared.conns.set i c1⟩,
        s.threads.set i (k r), true⟩) rfl (hd.set hc hsock fun _ => ho.2) hc1 (getElem?_set_of hp)
        ⟨hsock.trans ho.1, hopen⟩ hk
      refine ⟨n + 1, s', ?_, hs'⟩
      rw [List.replicate_succ]
      exact run_cons_eq_some.mpr ⟨_, hstep, hr⟩
    · -- the close was the last step
      obtain ⟨-, hv'⟩ := eq_ret_of_closed hopen hk
      refine ⟨1, _, run_cons_eq_some.mpr ⟨_, hstep, rfl⟩, ?_⟩
      rw [hv']
      exact hc1

end Steps

/-! ### The turns are kept -/

theorem getElem?_concat_cases {α : Type} {l : List α} {a b : α} {i : ℕ}
    (h : (l ++ [a])[i]? = some b) : l[i]? = some b ∨ (i = l.length ∧ b = a) := by
  rcases Nat.lt_trichotomy i l.length with hi | hi | hi
  · rw [List.getElem?_append_left hi] at h
    exact Or.inl h
  · subst hi
    rw [List.getElem?_concat_length] at h
    exact Or.inr ⟨rfl, (Option.some.inj h).symm⟩
  · rw [List.getElem?_eq_none (by simp; omega)] at h
    cases h

section Turns
variable {file : StatusFile} {V : Bytes} {s s' : Sys} {i : ℕ} {c : Conn} {p : SrvrProg Unit}

theorem lt_of_getElem? {α : Type} {l : List α} {a : α} (h : l[i]? = some a) : i < l.length :=
  (List.getElem?_eq_some_iff.mp h).1

theorem NoOther.of_between (h : Inv file V s) (hp : s.threads[i]? = some p) (hb : Between p) :
    NoOther s i := fun j _ hj q hq hbq => hj (h.one j i q p hq hp hbq hb)

/-- A step of the thread that has the socket, or of one that takes it. -/
theorem Inv.advance (h : Inv file V s) (hc : s.shared.conns[i]? = some c) (hno : NoOther s i)
    {sock : ℕ} {buff : Bytes} {c' : Conn} {p' : SrvrProg Unit} (hsock : c'.sock = c.sock)
    (hopen : c'.Open → c.Open)
    (hst : Stage file V ⟨sock, buff, s.shared.conns.set i c'⟩ c' p') :
    Inv file V ⟨⟨sock, buff, s.shared.conns.set i c'⟩, s.threads.set i p', true⟩ := by
  refine ⟨rfl, by simp [h.length], h.distinct.set hc hsock hopen, fun j cj q hj hq => ?_,
    fun j k p1 p2 hj hk h1 h2 => ?_⟩
  · rcases getElem?_set_cases hq with ⟨rfl, rfl⟩ | ⟨hji, hq'⟩
    · obtain ⟨-, rfl⟩ | ⟨hji, -⟩ := getElem?_set_cases hj
      · exact hst
      · exact absurd rfl hji
    · obtain ⟨hji', -⟩ | ⟨-, hj'⟩ := getElem?_set_cases hj
      · exact absurd hji' hji
      · exact (h.stage j cj q hj' hq').frame (hno j (lt_of_getElem? hq') hji q hq') _
  · -- no thread but the `i`-th is between
    have hi (l : ℕ) (q : SrvrProg Unit) (hq : (s.threads.set i p')[l]? = some q)
        (hb : Between q) : l = i := by
      rcases getElem?_set_cases hq with ⟨hl, -⟩ | ⟨hl, hq'⟩
      · exact hl
      · exact absurd hb (hno l (lt_of_getElem? hq') hl q hq')
    exact (hi j p1 hj h1).trans (hi k p2 hk h2).symm

/-- A busy thread keeps its turn, or has ended with the exchange complete. -/
theorem stage_busy (h : Busy V s.shared c p) {o : SrvrOp} {k : SrvrRet o → SrvrProg Unit}
    {r : SrvrRet o} {c1 : Conn} {buff : Bytes} {v : Conn × Bytes} {msg : Bytes}
    (hs : connSem o (c, s.shared.tempBuff) = (some r, c1, buff))
    (hk : exec connSem (k r) (c1, buff) = (some (), v)) (hv : v.1.log = expected V msg)
    (conns : List Conn) : Stage file V ⟨s.shared.clntSock, buff, conns⟩ c1 (k r) := by
  have hsock : c1.sock = c.sock := by simpa [hs] using sock_connSem o (c, s.shared.tempBuff)
  have hlog : c.log <+: c1.log := by simpa [hs] using log_connSem o (c, s.shared.tempBuff)
  by_cases hopen : c1.Open
  · refine .busy ⟨⟨hsock.trans h.on.1, hopen⟩, fun hnil => h.asked ?_, v, msg, hk, hv⟩
    rw [hnil] at hlog
    exact List.prefix_nil.mp hlog
  · obtain ⟨hret, hv'⟩ := eq_ret_of_closed hopen hk
    have hlog' : c1.log = expected V msg := by rw [← hv, hv']
    rw [hret]
    exact .done hlog'

theorem inv_run (h : Inv file V s) (hV : getJsonValueFromFile file (lit "version") = some V)
    (ha : Alone s (.run i)) (hs : step file s (.run i) = some s') : Inv file V s' := by
  rcases hp : s.threads[i]? with _ | p
  · simp [step, hp] at hs
  have hlt : i < s.shared.conns.length := by
    rw [← h.length]
    exact lt_of_getElem? hp
  obtain ⟨c, hc⟩ : ∃ c, s.shared.conns[i]? = some c := ⟨_, List.getElem?_eq_getElem hlt⟩
  have hno : NoOther s i := by
    by_cases hb : Between p
    · exact NoOther.of_between h hp hb
    · exact ha p hp hb
  cases h.stage i c p hc hp with
  | waiting hpend =>
    rw [step_waiting h.up hp] at hs
    cases hs
    have hself : s.shared.conns.set i c = s.shared.conns := by
      obtain ⟨hlt, hget⟩ := List.getElem?_eq_some_iff.mp hc
      rw [← hget, List.set_getElem_self]
    have hon : Shared.On ⟨c.sock, s.shared.tempBuff, s.shared.conns⟩ c := ⟨rfl, hpend.isOpen⟩
    have hst : Stage file V ⟨c.sock, s.shared.tempBuff, s.shared.conns⟩ c (handling file) := by
      rcases hpend with ⟨hl, hin⟩ | ⟨msg, hm, hl, hin⟩
      · exact .idle hon hl hin
      · exact .busy (busy_of_pending hV hm hl hin hon)
    rw [← hself] at hst
    have hadv := h.advance hc hno rfl id hst
    rwa [hself] at hadv
  | idle hon hl hin =>
    -- the thread waits for the message
    have hblock : Blocked s.shared (handling file) :=
      ⟨rfl, (waiting_eq h.distinct hc hon).trans hin, c, List.mem_of_getElem? hc, hon⟩
    simp [step, hp, hblock] at hs
  | busy hb =>
    obtain ⟨v, msg, hx, hv⟩ := hb.ends
    obtain ⟨o, k, r, c1, buff, rfl, hsem, hk, hstep⟩ :=
      step_busy h.up h.distinct hc hp hb.on hx (closed_of_expected hv)
    rw [hstep] at hs
    cases hs
    have hsock : c1.sock = c.sock := by simpa [hsem] using sock_connSem o (c, s.shared.tempBuff)
    exact h.advance hc hno hsock (fun _ => hb.on.2) (stage_busy hb hsem hk hv _)
  | done hl => simp [step, hp, Prog.step] at hs

theorem inv_accept (h : Inv file V s) {sock : ℕ} (hs : step file s (.accept sock) = some s') :
    Inv file V s' := by
  simp only [step, h.up, if_true] at hs
  split_ifs at hs with hfree
  cases hs
  have hpend : Pending ⟨sock, none, []⟩ := Or.inl ⟨rfl, rfl⟩
  have hnot : ¬ Between (handleTCPClient file sock) := id
  refine ⟨rfl, by simp [h.length], fun j k cj ck hj hk hoj hok he => ?_,
    fun j cj q hj hq => ?_, fun j k p q hj hk hp hq => ?_⟩
  · rcases getElem?_concat_cases hj with hj | ⟨rfl, rfl⟩ <;>
      rcases getElem?_concat_cases hk with hk | ⟨rfl, rfl⟩
    · exact h.distinct j k cj ck hj hk hoj hok he
    · exact absurd he (hfree cj (List.mem_of_getElem? hj) hoj)
    · exact absurd he.symm (hfree ck (List.mem_of_getElem? hk) hok)
    · rfl
  · rcases getElem?_concat_cases hq with hq' | ⟨rfl, rfl⟩
    · rcases getElem?_concat_cases hj with hj' | ⟨rfl, -⟩
      · exact (h.stage j cj q hj' hq').congr rfl rfl
      · exact absurd (lt_of_getElem? hq') (by rw [h.length]; omega)
    · rcases getElem?_concat_cases hj with hj' | ⟨-, rfl⟩
      · exact absurd (lt_of_getElem? hj') (by rw [h.length]; omega)
      · exact .waiting hpend
  · rcases getElem?_concat_cases hj with hj | ⟨-, rfl⟩
    · rcases getElem?_concat_cases hk with hk | ⟨-, rfl⟩
      · exact h.one j k p q hj hk hp hq
      · exact absurd hq hnot
    · exact absurd hp hnot

/-- A client that has not sent its message has not been answered. -/
theorem Stage.not_asked (h : Stage file V s.shared c p) (hn : ¬ Asked c) :
    c.log = [] := by
  have hreq {l : List Event} {msg : Bytes} (hl : c.log = .request msg :: l) : False :=
    hn ⟨_, by rw [hl]; exact List.mem_cons_self .., msg, rfl⟩
  cases h with
  | waiting hpend =>
    rcases hpend with ⟨hl, -⟩ | ⟨msg, -, hl, -⟩
    · exact hl
    · exact (hreq hl).elim
  | idle on log inbox => exact log
  | busy hb =>
    obtain ⟨v, msg, hx, hv⟩ := hb.ends
    have hpre : c.log <+: expected V msg := by
      have hlog := log_exec p (c, s.shared.tempBuff)
      rw [hx] at hlog
      rwa [← hv]
    rcases hl : c.log with _ | ⟨e, l⟩
    · exact absurd hl hb.asked
    · rw [hl] at hpre
      obtain ⟨rfl, -⟩ := List.cons_prefix_cons.mp hpre
      exact (hreq hl).elim
  | done hl => exact (hreq hl).elim

theorem inv_request (h : Inv file V s) (hV : getJsonValueFromFile file (lit "version") = some V)
    {msg : Bytes} (hm : Harmless msg) (hs : step file s (.request i msg) = some s') :
    Inv file V s' := by
  simp only [step, h.up, if_true] at hs
  rcases hc : s.shared.conns[i]? with _ | c
  · simp [hc] at hs
  simp only [hc] at hs
  split_ifs at hs with hcond
  obtain ⟨hopen, hasked⟩ := hcond
  cases hs
  refine ⟨rfl, by simp [h.length], h.distinct.set hc rfl fun _ => hopen,
    fun j cj q hj hq => ?_, h.one⟩
  rcases getElem?_set_cases hj with ⟨rfl, rfl⟩ | ⟨-, hj'⟩
  · have hst := h.stage j c q hc hq
    have hnil := hst.not_asked hasked
    have hl : (c.push (.request msg)).log = [.request msg] := by simp [hnil]
    cases hst with
    | waiting hpend => exact .waiting (Or.inr ⟨msg, hm, hl, rfl⟩)
    | idle on log inbox =>
      have hopen' : Conn.Open { c.push (.request msg) with inbox := some msg } := by
        simp [Conn.Open, log]
      exact .busy (busy_of_pending hV hm hl rfl ⟨on.1, hopen'⟩)
    | busy hb => exact absurd hnil hb.asked
    | done hdone =>
      rw [hnil] at hdone
      cases hdone
  · exact (h.stage j cj q hj' hq).congr rfl rfl

theorem inv_init (file : StatusFile) (V : Bytes) : Inv file V Sys.init := by
  refine ⟨rfl, rfl, fun i j ci cj hi => ?_, fun i c p hi => ?_, fun i j p q hi => ?_⟩ <;>
    simp [Sys.init] at hi

theorem inv_step (hV : getJsonValueFromFile file (lit "version") = some V) (s : Sys) (l : Lbl)
    (s' : Sys) (h : Inv file V s) (ha : Alone s l) (hs : step file s l = some s') :
    Inv file V s' := by
  cases l with
  | accept sock => exact inv_accept h hs
  | request i msg => exact inv_request h hV ha hs
  | run i => exact inv_run h hV ha hs

/-! ### The answers -/

theorem expected_of_wellFormed {msg v : Bytes} (h : WellFormed msg v) :
    expected V msg = exchange V v msg := by
  have hr : received msg = msg := List.take_of_length_le h.short
  have hrep : replies V msg = [.reply (formatted (answerText V v))] :=
    replies_of_update (by rw [hr]; exact h.action) (by rw [hr]; exact h.version)
  rw [expected, hrep]
  rfl

theorem request_of_prefix {V msg msg' : Bytes} {l : List Event} (h : l <+: expected V msg')
    (hm : Event.request msg ∈ l) : msg = msg' := by
  have hmem := h.subset hm
  have hrep : Event.request msg ∉ replies V msg' := by
    unfold replies
    split
    · split_ifs <;> simp
    · simp
  simpa [expected, hrep] using hmem

/-- The stage of a thread serves its client. -/
theorem Inv.served (h : Inv file V s) (hV : getJsonValueFromFile file (lit "version") = some V)
    (hc : s.shared.conns[i]? = some c) (hp : s.threads[i]? = some p) {v msg : Bytes}
    (hm : WellFormed msg v) (hreq : .request msg ∈ c.log) : Served file V s i c p v msg := by
  have hex := expected_of_wellFormed (V := V) hm
  have hst := h.stage i c p hc hp
  cases hst with
  | waiting hpend =>
    obtain ⟨hl, -⟩ | ⟨msg', hm', hl, hin⟩ := hpend
    · rw [hl] at hreq
      cases hreq
    have heq : msg = msg' := by
      rw [hl, List.mem_singleton] at hreq
      exact Event.request.inj hreq
    subst heq
    have ho : c.Open := by simp [Conn.Open, hl]
    refine ⟨?_, fun hret => ?_, ?_⟩
    · rw [hl]
      exact ⟨[_, _], rfl⟩
    · cases hret
    · obtain ⟨c', buff', hx, hlog⟩ := exec_handling hV hin hl hm' s.shared.tempBuff
      obtain ⟨n, s', hr, hs'⟩ := run_busy file
        (s := ⟨{ s.shared with clntSock := c.sock }, s.threads.set i (handling file), true⟩)
        (closed_of_expected hlog) rfl h.distinct hc (getElem?_set_of hp) ⟨rfl, ho⟩ hx
      refine ⟨n + 1, s', c', ?_, hs', hlog.trans hex⟩
      rw [List.replicate_succ]
      exact run_cons_eq_some.mpr ⟨_, step_waiting h.up hp, hr⟩
  | idle on log inbox =>
    rw [log] at hreq
    cases hreq
  | busy hb =>
    obtain ⟨w, msg', hx, hv⟩ := hb.ends
    have hpre : c.log <+: expected V msg' := by
      have hlog := log_exec p (c, s.shared.tempBuff)
      rw [hx] at hlog
      rwa [← hv]
    have heq := request_of_prefix hpre hreq
    subst heq
    refine ⟨hex ▸ hpre, fun hret => ?_, ?_⟩
    · have := hb.between
      rw [hret] at this
      exact this.elim
    · obtain ⟨n, s', hr, hs'⟩ := run_busy file (closed_of_expected hv) h.up h.distinct hc
        hp hb.on hx
      exact ⟨n, s', w.1, hr, hs', hv.trans hex⟩
  | done hl =>
    have heq := request_of_prefix (by rw [hl]) hreq
    subst heq
    rw [hex] at hl
    exact ⟨hl ▸ List.prefix_rfl, fun _ => hl, 0, s, c, rfl, hc, hl⟩

end Turns

/-- **The clients are answered when the threads take turns**: in every run in which no thread
assigns the socket while another has it, and no message ends the process. -/
theorem answered_of_alone {file : StatusFile} {V : Bytes}
    (hV : getJsonValueFromFile file (lit "version") = some V) {ls : List Lbl} {s : Sys}
    (hm : Meets (step file) Alone Sys.init ls) (hr : run (step file) Sys.init ls = some s) :
    Answered file V s := by
  have hinv : Inv file V s := hm.inv (inv_step hV) (inv_init file V) hr
  intro i c p v msg hc hp hw hreq
  exact hinv.served hV hc hp hw hreq

/-! ### Two clients -/

/-- A server with version 2. -/
def latest : StatusFile := some (some [(lit "version", .str (lit "2"))])

/-- The request of a client with version 1. -/
def request1 : Bytes :=
  lit "\x7b \"streamId\" : \"a\",\"version\" : \"1\",\"action\" : \"update\"\x7d"

theorem wellFormed_request1 : WellFormed request1 (lit "1") := by
  refine ⟨by decide, by decide +kernel, by decide +kernel⟩

/-- One client after the other. -/
def turns : List Lbl :=
  [.accept 4, .request 0 request1, .accept 5] ++ List.replicate 6 (.run 0) ++
    .request 1 request1 :: List.replicate 6 (.run 1)

theorem answered_of_alone_turns :
    ∃ s, run (step latest) Sys.init turns = some s ∧ Answered latest (lit "2") s := by
  have hsome : (run (step latest) Sys.init turns).isSome = true := by decide +kernel
  obtain ⟨s, hs⟩ := Option.isSome_iff_exists.mp hsome
  exact ⟨s, hs, answered_of_alone rfl (by decide +kernel) hs⟩

/-- The second client is accepted before the first is answered. -/
def overlap : List Lbl :=
  [.accept 4, .accept 5, .request 0 request1, .request 1 request1, .run 0, .run 1] ++
    List.replicate 5 (.run 0)

/-- The thread is at its end. -/
def ended : SrvrProg Unit → Bool
  | .ret _ => true
  | _ => false

/-- **An overlap leaves a client without an answer**: the thread of the first client answers the
second one, closes its socket and ends. -/
theorem overlap_loses_answer :
    ¬ ∀ (file : StatusFile) (V : Bytes) (ls : List Lbl) (s : Sys),
      getJsonValueFromFile file (lit "version") = some V →
      (∀ i msg, Lbl.request i msg ∈ ls → ∃ v, WellFormed msg v) →
      run (step file) Sys.init ls = some s → Answered file V s := by
  intro h
  have hfirst : (run (step latest) Sys.init overlap).map (fun s =>
      ((s.shared.conns[0]?).map Conn.log, (s.threads[0]?).map ended)) =
        some (some [.request request1], some true) := by decide +kernel
  obtain ⟨s, hs, hval⟩ := Option.map_eq_some_iff.mp hfirst
  obtain ⟨hconn, hthread⟩ := Prod.mk.inj hval
  obtain ⟨c, hc, hlog⟩ := Option.map_eq_some_iff.mp hconn
  obtain ⟨p, hp, hend⟩ := Option.map_eq_some_iff.mp hthread
  have hall : ∀ i msg, Lbl.request i msg ∈ overlap → ∃ v, WellFormed msg v := by
    intro i msg hmem
    have heq : msg = request1 := by
      simp only [overlap, List.cons_append, List.nil_append, List.mem_cons, List.mem_replicate,
        reduceCtorEq, Lbl.request.injEq, false_or, and_false, or_false] at hmem
      rcases hmem with ⟨-, h⟩ | ⟨-, h⟩ <;> exact h
    exact ⟨lit "1", heq ▸ wellFormed_request1⟩
  have hserved := h latest (lit "2") overlap s rfl hall hs 0 c p (lit "1") request1 hc hp
    wellFormed_request1 (by rw [hlog]; exact List.mem_singleton_self _)
  have hret : p = ret () := by
    cases p with
    | ret a => rfl
    | call o k => cases hend
    | abort => cases hend
  have hdone := hserved.complete hret
  rw [hlog] at hdone
  cases hdone

end LiveStreamer.OTAServer.Requests
