import LiveStreamer.StreamerServer.SrvrComm

/-! # The loop of a session (`srvrComm.c`)

`clientComm` receives and answers messages until it has sent an `ACK`, and does not look at what a
`recv` returns. So a session ends with the first report that is acknowledged, and there is no other
way out: a device that hangs up before ends the whole process (`clientComm_reports`), since the
empty message it leaves has no status. -/

namespace LiveStreamer.StreamerServer.ClientComm

open LiveStreamer.Lib.CString LiveStreamer.Lib.PathName LiveStreamer.Lib.Program
open LiveStreamer.Lib.Program.Prog LiveStreamer.Lib.Tokener
open LiveStreamer.StreamerServer.SrvrJson LiveStreamer.StreamerServer.SrvrComm

/-! ### The loop -/

/-- Where the loop is. -/
inductive Ending where
  /-- The loop is over, and the socket closed. -/
  | closed
  /-- Nothing has come yet. -/
  | waiting
  /-- A `recv` has failed, and `exit` ended the process. -/
  | exited
  /-- The use of a NULL has ended the process. -/
  | crashed
  deriving DecidableEq

structure Served where
  ending : Ending
  sent : List Bytes
  g : Globals
  fs : Fs

section Loop
variable (cwd : Path)

/-- The message in the buffer after a `recv`. -/
def message (g : Globals) : Bytes := cstr g.tempBufS

/-- `while (!ACK) receive()`, over what the `recv`s return; nothing stands for an error. -/
def loop (g : Globals) (fs : Fs) : List (Option Bytes) → Served
  | [] => ⟨if g.ACK then .closed else .waiting, [], g, fs⟩
  | data :: rest =>
    if g.ACK then ⟨.closed, [], g, fs⟩
    else
      match receiveData g data with
      | none => ⟨.exited, [], g, fs⟩
      | some g' =>
        match serve cwd g' fs (message g') with
        | none => ⟨.crashed, [], g', fs⟩
        | some (texts, g', fs') =>
          { loop g' fs' rest with sent := texts ++ (loop g' fs' rest).sent }

def clientComm (g : Globals) (fs : Fs) (recvs : List (Option Bytes)) : Served :=
  loop cwd { g with ACK := false } fs recvs

/-! ### The reports of a device -/

/-- The bytes are received as the report of `status` for the stream `s`. -/
def Reports (s : Bytes) (data status : Bytes) : Prop :=
  field "streamId" (cstr (data.take (MAXDATASIZE - 1))) = some s ∧
    field "status" (cstr (data.take (MAXDATASIZE - 1))) = some status

instance (s data status : Bytes) : Decidable (Reports s data status) :=
  inferInstanceAs (Decidable (_ ∧ _))

/-- The reports up to the first one that is acknowledged, if any is. -/
def handled (a : Bytes) : List Bytes → List Bytes
  | [] => []
  | status :: sts => if Acks status a then [status] else status :: handled a sts

variable {cwd} {g : Globals} {fs : Fs} {s a : Bytes}

/-- A store of no value ends the process. -/
theorem srvrSem_set_null (jKey : Bytes) (file : Option Bytes) (fs : Fs) :
    (srvrSem cwd (.set jKey none file) fs).1 = none := by
  show (exec (fileSem cwd) (jsonFromFile file >>= fun _ => abort) fs).1 = none
  rw [exec_bind]
  rcases exec (fileSem cwd) (jsonFromFile file) fs with ⟨_ | r, fs'⟩
  · rfl
  · rfl

/-- **A message without a status ends the process.** -/
theorem serve_of_none {msg : Bytes} (h : field "status" msg = none) (g : Globals) (fs : Fs) :
    serve cwd g fs msg = none := by
  obtain ⟨k, hk⟩ : ∃ k, msgParse g msg =
      call (SrvrOp.set (lit "streamId") (streamOf g (tokenerParse msg))
        (streamOf g (tokenerParse msg))) fun _ =>
      call (SrvrOp.set (lit "status") (field "status" msg) (streamOf g (tokenerParse msg))) k :=
    ⟨_, rfl⟩
  have hx : (exec (logged (srvrSem cwd)) (msgParse g msg) (fs, [])).1 = none := by
    rw [(exec_logged _ _ _ _).1, hk, h]
    rcases hset : srvrSem cwd (.set (lit "streamId") (streamOf g (tokenerParse msg))
      (streamOf g (tokenerParse msg))) fs with ⟨_ | r, fs₁⟩
    · rw [exec_call_none _ hset]
    · have hnull : (srvrSem cwd (.set (lit "status") none (streamOf g (tokenerParse msg))) fs₁).1 =
          none := srvrSem_set_null ..
      rcases hst : srvrSem cwd (.set (lit "status") none (streamOf g (tokenerParse msg))) fs₁ with
        ⟨_ | r', fs₂⟩
      · rw [exec_call_some _ hset, exec_call_none _ hst]
      · rw [hst] at hnull
        cases hnull
  rw [serve]
  rcases hr : exec (logged (srvrSem cwd)) (msgParse g msg) (fs, []) with ⟨_ | g', fs', ops⟩
  · rfl
  · rw [hr] at hx
    cases hx

/-- One turn of the loop. -/
theorem loop_report (ha : storedAction cwd s fs = some a) (hack : g.ACK = false)
    {data status : Bytes} (hd : Reports s data status) (rest : List (Option Bytes)) :
    ∃ g', g'.ACK = decide (Acks status a) ∧ loop cwd g fs (some data :: rest) =
      { loop cwd g' (store cwd fs s (answered s status a (record cwd fs s))) rest with
        sent := answer s status a :: (loop cwd g'
          (store cwd fs s (answered s status a (record cwd fs s))) rest).sent } := by
  obtain ⟨hid, hst⟩ := hd
  obtain ⟨g', hserve, hack', -⟩ := serve_report
    (g := { g with tempBufS := data.take (MAXDATASIZE - 1) }) (streamOf_of_field hid) hst ha
  refine ⟨g', by rw [hack', hack, Bool.false_or], ?_⟩
  have hrecv : receiveData g (some data) =
      some { g with tempBufS := data.take (MAXDATASIZE - 1) } := rfl
  rw [loop, if_neg (by rw [hack]; exact Bool.false_ne_true), hrecv]
  simp only [message, hserve]
  rfl

/-- **The loop over the reports of a device that hangs up.** -/
theorem loop_reports (hack : g.ACK = false) (ha : storedAction cwd s fs = some a)
    {ds sts : List Bytes} (hds : List.Forall₂ (Reports s) ds sts) (rest : List (Option Bytes)) :
    (loop cwd g fs (ds.map some ++ some [] :: rest)).ending =
        (if ∃ st ∈ sts, Acks st a then .closed else .crashed) ∧
      (loop cwd g fs (ds.map some ++ some [] :: rest)).sent =
        (handled a sts).map (fun st => answer s st a) ∧
      getEx (record cwd (loop cwd g fs (ds.map some ++ some [] :: rest)).fs s) (lit "status") =
        ((handled a sts).getLast?.map .str).or (getEx (record cwd fs s) (lit "status")) := by
  induction hds generalizing g fs with
  | nil =>
    have hnone : field "status" [] = none := by decide
    have hrecv : receiveData g (some []) = some { g with tempBufS := [] } := rfl
    have hloop :
        loop cwd g fs (some [] :: rest) = ⟨.crashed, [], { g with tempBufS := [] }, fs⟩ := by
      rw [loop, if_neg (by rw [hack]; exact Bool.false_ne_true), hrecv]
      simp only [message]
      rw [show cstr [] = [] from rfl, serve_of_none hnone]
    rw [List.map_nil, List.nil_append, hloop]
    exact ⟨(if_neg (by simp)).symm, rfl, rfl⟩
  | @cons data status ds sts hd hds ih =>
    obtain ⟨g', hg', hloop⟩ := loop_report ha hack hd (ds.map some ++ some [] :: rest)
    rw [List.map_cons, List.cons_append, hloop]
    by_cases hA : Acks status a
    · have hend (rs : List (Option Bytes)) (fs : Fs) : (loop cwd g' fs rs).ending = .closed ∧
          (loop cwd g' fs rs).sent = [] ∧ (loop cwd g' fs rs).fs = fs := by
        have hack' : g'.ACK = true := by
          rw [hg']
          exact decide_eq_true hA
        cases rs with
        | nil => simp [loop, hack']
        | cons r rs => simp [loop, hack']
      rw [if_pos ⟨status, List.mem_cons_self .., hA⟩, handled, if_pos hA]
      refine ⟨(hend _ _).1, by rw [(hend _ _).2.1]; rfl, ?_⟩
      rw [(hend _ _).2.2, record_store_self, getEx_answered_status]
      rfl
    · have hst : storedAction cwd s (store cwd fs s (answered s status a (record cwd fs s))) =
          some a := by
        rw [storedAction_store, answered, if_neg hA, reported, getEx_add_ne _ _ (by decide),
          getEx_add_ne _ _ (by decide)]
        exact ha
      obtain ⟨h1, h2, h3⟩ := ih (hg'.trans (decide_eq_false hA)) hst
      rw [handled, if_neg hA, List.map_cons]
      refine ⟨h1.trans ?_, congrArg _ h2, h3.trans ?_⟩
      · simp [hA]
      · rw [record_store_self, getEx_answered_status, List.getLast?_cons]
        rcases (handled a sts).getLast? with _ | st
        · rfl
        · rfl

/-- **A session ends with the first report that is acknowledged**, and with nothing else: a device
that hangs up before ends the process. Every report up to the end is answered, and the record shows
the last one. -/
theorem clientComm_reports (g : Globals) (ha : storedAction cwd s fs = some a)
    {ds sts : List Bytes} (hds : List.Forall₂ (Reports s) ds sts) (rest : List (Option Bytes)) :
    (clientComm cwd g fs (ds.map some ++ some [] :: rest)).ending =
        (if ∃ st ∈ sts, Acks st a then .closed else .crashed) ∧
      (clientComm cwd g fs (ds.map some ++ some [] :: rest)).sent =
        (handled a sts).map (fun st => answer s st a) ∧
      getEx (record cwd (clientComm cwd g fs (ds.map some ++ some [] :: rest)).fs s)
          (lit "status") =
        ((handled a sts).getLast?.map .str).or (getEx (record cwd fs s) (lit "status")) :=
  loop_reports rfl ha hds rest

/-- A device that is to go live reports that it is ready, is told so, and hangs up. -/
theorem clientComm_reports_ready :
    let ready := lit "\x7b \"streamId\" : \"cam\",\"status\" : \"ready\"\x7d"
    let served := clientComm [] ⟨none, 4, false, []⟩ ∅ [some ready, some []]
    served.ending = .crashed ∧ served.sent = [actText (some (lit "cam")) (some (lit "live"))] := by
  have hd : List.Forall₂ (Reports (lit "cam"))
      [lit "\x7b \"streamId\" : \"cam\",\"status\" : \"ready\"\x7d"] [lit "ready"] :=
    .cons (by decide +kernel) .nil
  have ha : storedAction [] (lit "cam") ∅ = some (lit "live") := rfl
  obtain ⟨h1, h2, -⟩ := clientComm_reports ⟨none, 4, false, []⟩ ha hd []
  exact ⟨h1, h2⟩

end Loop

end LiveStreamer.StreamerServer.ClientComm
