import LiveStreamer.Lib.Readers
import LiveStreamer.Protocol.Update
import Mathlib.Logic.Function.Basic

/-! # Versions that are rolled out (`OTAClient`, `OTAServer`)

The operator replaces the `status.json` of the server by one with another version that can be
stored (`Fit`), as often as it likes. Any number of clients ask for updates, each with one request
at a time; a request and its reply may be on their way for any time, and may get lost. A client that
has been offered a version may so install it when there is a newer one already. The server handles
one request at a time: the threads of two clients that overlap may answer each other's client.

The clients are the readers of the feed of the versions (`simulates`). So a client installs
versions in the order in which they were published, each of them at most as often
(`installs_sublist`), and when no version follows, the second run of the client at the latest brings
the last one (`rollout_settles`). -/

namespace LiveStreamer.Protocol.Rollout

open LiveStreamer.Lib.CString LiveStreamer.Lib.JsonCanon LiveStreamer.Lib.JsonText
open LiveStreamer.Lib.Readers LiveStreamer.Lib.Run LiveStreamer.Lib.Simulation
open LiveStreamer.Lib.Tokener
open LiveStreamer.OTAServer.SrvrComm (answerText availableText formatted updatedText
  getJsonValueFromFile)
open LiveStreamer.OTAClient.ClientComm (MAXDATASIZE SIGCheckUpdate checkUpdateText getStreamId
  getVersion receive receiveData setJsonValue msgParse_of_none msgParse_of_some)
open LiveStreamer.Protocol.Update

/-! ### The server and its clients -/

/-- The message between a client and the server. -/
inductive Wire where
  | request (text : Bytes)
  | reply (text : Bytes)

structure Sys (ι : Type) where
  server : OTAServer.SrvrComm.StatusFile
  client : ι → OTAClient.ClientComm.StatusFile
  wire : ι → Option Wire
  /-- The versions of the server, oldest first. -/
  published : List Bytes

section Rollout
variable {ι : Type} (canon : Bytes → Json) (id came : ι → Bytes)

/-- A version that fits the messages, and that the server and the clients read as it is. -/
structure Fit (V : Bytes) : Prop where
  plain : Plain V
  canonical : Canonical canon V
  offer : (availableText (some V)).length < MAXDATASIZE
  request : ∀ d, (checkUpdateText (some (id d)) (some V)).length < MAXDATASIZE

/-- What the operator writes into `status.json`. -/
structure Release where
  obj : Obj
  version : Bytes
  reads : getJsonValueFromFile (some (some obj)) (lit "version") = some version
  fit : Fit canon id version

inductive Lbl where
  | publish (r : Release canon id)
  /-- A client starts, and sends its request. -/
  | ask (d : ι)
  | serve (d : ι)
  /-- A client handles the reply; `wild` is its file if the script does not fit. -/
  | take (d : ι) (wild : OTAClient.ClientComm.StatusFile)
  /-- The request or the reply is lost, and the run of the client with it. -/
  | lose (d : ι)

variable [JsonC]

/-- The library prints numbers as `canon` makes them. The clients have plain names, and versions
`came` that fit the messages; the server has its first version. -/
structure Initial (x : Sys ι) : Prop where
  library : Prints canon
  names : ∀ d, Plain (id d)
  server : ∃ V, getJsonValueFromFile x.server (lit "version") = some V ∧ Fit canon id V ∧
    x.published = [V]
  client : ∀ d, ∃ o, x.client d = some o ∧ getStreamId (some o) = some (id d) ∧
    getVersion (some o) = some (came d) ∧ Plain (came d) ∧
      (checkUpdateText (some (id d)) (some (came d))).length < MAXDATASIZE
  wire : ∀ d, x.wire d = none

variable {canon id came}

variable (canon id) in
def step [DecidableEq ι] (x : Sys ι) : Lbl canon id → Option (Sys ι)
  | .publish r =>
    some { x with server := some (some r.obj), published := x.published ++ [r.version] }
  | .ask d =>
    match x.wire d with
    | none =>
      some { x with
        wire := Function.update x.wire d (some (.request (SIGCheckUpdate (x.client d)))) }
    | some _ => none
  -- the request is answered, and its socket is closed, before another one is received
  | .serve d =>
    match x.wire d with
    -- the end of the connection is received as an empty text
    | some (.request msg) =>
      some { x with
        wire := Function.update x.wire d (some (.reply ((answer x.server msg).getD []))) }
    | _ => none
  | .take d wild =>
    match x.wire d with
    | some (.reply text) =>
      some { x with
        client := Function.update x.client d (receive (x.client d) text wild).2
        wire := Function.update x.wire d none }
    | _ => none
  | .lose d => some { x with wire := Function.update x.wire d none }

/-- A client gives a script to the shell, and stores a version. -/
def installs (x : Sys ι) : Lbl canon id → List (ι × Bytes)
  | .take d wild =>
    match x.wire d with
    | some (.reply text) =>
      match receive (x.client d) text wild with
      | (some _, file) => [(d, (getVersion file).getD [])]
      | (none, _) => []
    | _ => []
  | _ => []

/-! ### The replies -/

variable (id) in
/-- A client of the stream of `d` with the version `c`. -/
structure Has (d : ι) (file : OTAClient.ClientComm.StatusFile) (c : Bytes) : Prop where
  object : file ≠ none
  stream : getStreamId file = some (id d)
  version : getVersion file = some c
  plain : Plain c
  request : (checkUpdateText (some (id d)) (some c)).length < MAXDATASIZE

section Replies
variable {d : ι} {file : OTAClient.ClientComm.StatusFile} {c V : Bytes}

/-- The server compares the version of the client with its own. -/
theorem answer_of_has {server : OTAServer.SrvrComm.StatusFile} (hj : Prints canon)
    (hid : Plain (id d))
    (hV : getJsonValueFromFile server (lit "version") = some V) (h : Has id d file c) :
    answer server (SIGCheckUpdate file) = some (formatted (answerText V c)) := by
  have hf : (checkUpdateText (getStreamId file) (some c)).length < MAXDATASIZE := by
    rw [h.stream]
    exact h.request
  refine (answer_request hV h.version hf).mpr ⟨c, ?_, rfl⟩
  rw [h.stream]
  exact asks_of_plain hj hid h.plain

/-- A client that is told that it has the latest version. -/
theorem receive_updated (hj : Prints canon) (wild : OTAClient.ClientComm.StatusFile) :
    receive file (formatted updatedText) wild = (none, file) :=
  msgParse_of_none (scriptOf_updated hj).1 wild

/-- A client that is offered a version installs it. -/
theorem receive_offer (hj : Prints canon) (hV : Fit canon id V) (h : Has id d file c)
    (wild : OTAClient.ClientComm.StatusFile) :
    ∃ cmd file', receive file (formatted (availableText (some V))) wild = (some cmd, file') ∧
      Has id d file' V := by
  obtain ⟨hver, script, hscript, hfit⟩ := field_of_canonical hj hV.canonical
  obtain ⟨o, rfl⟩ := Option.ne_none_iff_exists'.mp h.object
  refine ⟨script, setJsonValue (some o) (lit "version") (some V), ?_, ?_⟩
  · rw [receive, receiveData_offer hV.plain.notMem_zero hV.offer, msgParse_of_some hscript hfit,
      hver]
  · exact ⟨Option.some_ne_none _, (getStreamId_setJsonValue V).trans h.stream,
      OTAClient.ClientComm.getVersion_add hV.plain.notMem_zero, hV.plain, hV.request d⟩

end Replies

/-! ### The feed of the versions -/

variable (id came) in
/-- A client as a reader of the feed of the versions. -/
structure Reader (items : List Bytes) (d : ι) (file : OTAClient.ClientComm.StatusFile)
    (wire : Option Wire) (pos : ℕ) (sent : Option ℕ) : Prop where
  has : Has id d file ((itemAt items pos).getD (came d))
  idle : (∀ text, wire ≠ some (.reply text)) → sent = none
  asked : ∀ msg, wire = some (.request msg) → msg = SIGCheckUpdate file
  replied : ∀ text, wire = some (.reply text) →
    (sent = none ∧ text = formatted updatedText) ∨
      ∃ k V, sent = some k ∧ itemAt items k = some V ∧ text = formatted (availableText (some V))

variable (canon id came) in
/-- **The clients are the readers** of the feed of the versions. -/
structure Reads (x : Sys ι) (f : Feed ι Bytes) : Prop where
  library : Prints canon
  names : ∀ d, Plain (id d)
  ordered : f.Ordered
  items : f.items = x.published
  fit : ∀ V ∈ x.published, Fit canon id V
  latest : ∃ V, x.published.getLast? = some V ∧
    getJsonValueFromFile x.server (lit "version") = some V
  reader : ∀ d, Reader id came x.published d (x.client d) (x.wire d) (f.pos d) (f.sent d)

variable {x x' : Sys ι} {f : Feed ι Bytes}

/-- The feed at the start. -/
def fresh (x : Sys ι) : Feed ι Bytes :=
  { items := x.published, pos := fun _ => 0, sent := fun _ => none }

theorem reads_initial (hi : Initial canon id came x) : Reads canon id came x (fresh x) := by
  obtain ⟨V, hV, hfit, hpub⟩ := hi.server
  have hfresh : (fresh x).Ordered :=
    ⟨fun d => Nat.zero_le _, fun d k h => absurd h.symm (Option.some_ne_none k)⟩
  refine ⟨hi.library, hi.names, hfresh, rfl, ?_, ⟨V, ?_, hV⟩,
    fun d => ?_⟩
  · rw [hpub]
    exact fun W hW => (List.mem_singleton.mp hW).symm ▸ hfit
  · rw [hpub]
    rfl
  · obtain ⟨o, ho, hs, hv, hp, hr⟩ := hi.client d
    rw [hi.wire d, ho]
    exact ⟨⟨Option.some_ne_none o, hs, hv, hp, hr⟩, fun _ => rfl, fun msg h => (nomatch h),
      fun text h => (nomatch h)⟩

variable [DecidableEq ι]

/-- One client changes. -/
theorem Reads.update (h : Reads canon id came x f) {d : ι} {file : OTAClient.ClientComm.StatusFile}
    {wire : Option Wire} {pos : ℕ} {sent : Option ℕ} (hp : pos ≤ f.items.length)
    (hs : ∀ k, sent = some k → pos < k ∧ k ≤ f.items.length)
    (hd : Reader id came x.published d file wire pos sent) :
    Reads canon id came { x with
        client := Function.update x.client d file, wire := Function.update x.wire d wire }
      { f with pos := Function.update f.pos d pos, sent := Function.update f.sent d sent } := by
  refine ⟨h.library, h.names, ⟨fun e => ?_, fun e => ?_⟩, h.items, h.fit, h.latest, fun e => ?_⟩
  · by_cases he : e = d
    · subst he
      simpa only [Function.update_self] using hp
    · simpa only [Function.update_of_ne he] using h.ordered.pos e
  · by_cases he : e = d
    · subst he
      simpa only [Function.update_self] using hs
    · simpa only [Function.update_of_ne he] using h.ordered.sent e
  · by_cases he : e = d
    · subst he
      simpa only [Function.update_self] using hd
    · simpa only [Function.update_of_ne he] using h.reader e

/-- A message is sent, or lost. -/
theorem Reads.send (h : Reads canon id came x f) {d : ι} {wire : Option Wire} {sent : Option ℕ}
    (hs : ∀ k, sent = some k → f.pos d < k ∧ k ≤ f.items.length)
    (hd : Reader id came x.published d (x.client d) wire (f.pos d) sent) :
    Reads canon id came { x with wire := Function.update x.wire d wire }
      { f with sent := Function.update f.sent d sent } := by
  have hupd := h.update (h.ordered.pos d) hs hd
  rwa [Function.update_eq_self, Function.update_eq_self] at hupd

/-- A message is sent that brings no version. -/
theorem Reads.send_none (h : Reads canon id came x f) {d : ι} {wire : Option Wire}
    (hs : f.sent d = none)
    (hd : Reader id came x.published d (x.client d) wire (f.pos d) none) :
    Reads canon id came { x with wire := Function.update x.wire d wire } f := by
  have hno : ∀ k, none = some k → f.pos d < k ∧ k ≤ f.items.length := fun k hk =>
    absurd hk.symm (Option.some_ne_none k)
  have hupd := h.send hno hd
  rwa [← hs, Function.update_eq_self] at hupd

omit [DecidableEq ι] in
/-- A version is published. -/
theorem Reads.publish (h : Reads canon id came x f) (r : Release canon id) :
    Reads canon id came
      { x with server := some (some r.obj), published := x.published ++ [r.version] }
      { f with items := f.items ++ [r.version] } := by
  have hpre : x.published <+: x.published ++ [r.version] := List.prefix_append ..
  refine ⟨h.library, h.names, ⟨fun d => ?_, fun d k hk => ?_⟩, by rw [h.items], fun V hV => ?_,
    ⟨r.version, List.getLast?_concat, r.reads⟩, fun d => ?_⟩
  · have := h.ordered.pos d
    simp only [List.length_append, List.length_singleton]
    omega
  · obtain ⟨h1, h2⟩ := h.ordered.sent d k hk
    simp only [List.length_append, List.length_singleton]
    exact ⟨h1, by omega⟩
  · rcases List.mem_append.mp hV with hV | hV
    · exact h.fit V hV
    · rw [List.mem_singleton.mp hV]
      exact r.fit
  · obtain ⟨hhas, hidle, hasked, hreplied⟩ := h.reader d
    have hle := h.ordered.pos d
    rw [h.items] at hle
    refine ⟨?_, hidle, hasked, fun text ht => ?_⟩
    · rw [itemAt_eq_mono hpre hle]
      exact hhas
    · rcases hreplied text ht with hu | ⟨k, V, hk, hV, htext⟩
      · exact Or.inl hu
      · exact Or.inr ⟨k, V, hk, itemAt_mono hpre hV, htext⟩

/-- **A request is answered**: a client that has not got to the end of the feed may be sent the
newest version. -/
theorem reads_serve (h : Reads canon id came x f) {d : ι} {msg : Bytes}
    (hw : x.wire d = some (.request msg)) : ∃ m f', f.step m = some f' ∧ f.out m = [] ∧
      Reads canon id came { x with
        wire := Function.update x.wire d (some (.reply ((answer x.server msg).getD []))) } f' := by
  obtain ⟨V, hlast, hV⟩ := h.latest
  obtain ⟨hhas, hidle, hasked, -⟩ := h.reader d
  have hsent : f.sent d = none := hidle fun text ht => by
    rw [hw] at ht
    cases ht
  set c := (itemAt x.published (f.pos d)).getD (came d) with hc
  have hans : (answer x.server msg).getD [] = formatted (answerText V c) := by
    rw [hasked msg hw, answer_of_has h.library (h.names d) hV hhas, Option.getD_some]
  have hne : x.published ≠ [] := by
    rintro he
    rw [he] at hlast
    cases hlast
  have hnewest : itemAt x.published x.published.length = some V := by
    rw [itemAt_length hne, hlast]
  have hlen := h.ordered.pos d
  rw [h.items] at hlen
  rw [hans]
  by_cases he : c = V
  · refine ⟨.wait, f, rfl, rfl, h.send_none hsent
      ⟨hhas, fun _ => rfl, fun msg hm => (nomatch hm), fun text ht => Or.inl ⟨rfl, ?_⟩⟩⟩
    cases ht
    rw [answerText, if_pos he]
  · have hlt : f.pos d < x.published.length := by
      refine Nat.lt_of_le_of_ne hlen fun heq => he ?_
      rw [hc, heq, hnewest, Option.getD_some]
    refine ⟨.send d, _, if_pos (by rw [h.items]; exact hlt), rfl, ?_⟩
    refine h.send (fun k hk => ?_) ⟨hhas, fun hno => absurd rfl (hno _), fun msg hm => (nomatch hm),
      fun text ht => Or.inr ⟨_, V, rfl, by rw [h.items]; exact hnewest, ?_⟩⟩
    · cases hk
      rw [h.items]
      exact ⟨hlt, Nat.le_refl _⟩
    · cases ht
      rw [answerText, if_neg he]

/-- **A reply is handled**: the client takes the version that it is sent. -/
theorem reads_take (h : Reads canon id came x f) {d : ι} {text : Bytes}
    (hw : x.wire d = some (.reply text)) (wild : OTAClient.ClientComm.StatusFile) :
    ∃ m f', f.step m = some f' ∧ f.out m = installs x (.take d wild : Lbl canon id) ∧
      Reads canon id came { x with
        client := Function.update x.client d (receive (x.client d) text wild).2
        wire := Function.update x.wire d none } f' := by
  obtain ⟨hhas, -, -, hreplied⟩ := h.reader d
  rcases hreplied text hw with ⟨hsent, rfl⟩ | ⟨k, V, hsent, hV, rfl⟩
  · have hrecv : receive (x.client d) (formatted updatedText) wild = (none, x.client d) :=
      receive_updated h.library wild
    refine ⟨.wait, f, rfl, ?_, ?_⟩
    · simp only [installs, hw, hrecv]
      rfl
    · rw [hrecv]
      dsimp only
      rw [Function.update_eq_self]
      exact h.send_none hsent
        ⟨hhas, fun _ => rfl, fun msg hm => (nomatch hm), fun text ht => (nomatch ht)⟩
  · have hmem : V ∈ x.published := by
      unfold itemAt at hV
      split_ifs at hV
      exact List.mem_of_getElem? hV
    obtain ⟨cmd, file', hrecv, hhas'⟩ := receive_offer h.library (h.fit V hmem) hhas wild
    obtain ⟨hlt, hle⟩ := h.ordered.sent d k hsent
    refine ⟨.take d,
      { f with pos := Function.update f.pos d k, sent := Function.update f.sent d none },
      ?_, ?_, ?_⟩
    · simp only [Feed.step, hsent]
    · simp only [installs, hw, hrecv, hhas'.version, Feed.out, hsent, Option.bind_some, h.items, hV]
      rfl
    · rw [hrecv]
      refine h.update hle (fun k hk => absurd hk.symm (Option.some_ne_none k))
        ⟨?_, fun _ => rfl, fun msg hm => (nomatch hm), fun text ht => (nomatch ht)⟩
      rw [hV, Option.getD_some]
      exact hhas'

/-- **The clients are the readers of the feed of the versions.** -/
theorem simulates :
    Simulates (step canon id) installs Feed.step Feed.out (Reads canon id came) := by
  intro x f l x' h hx
  cases l with
  | publish r =>
    cases hx
    exact ⟨.add r.version, _, rfl, h.publish r, rfl⟩
  | ask d =>
    simp only [step] at hx
    split at hx
    · next hw =>
      cases hx
      obtain ⟨hhas, hidle, -, -⟩ := h.reader d
      have hsent : f.sent d = none := hidle fun text ht => by
        rw [hw] at ht
        cases ht
      refine ⟨.wait, f, rfl, h.send_none hsent
        ⟨hhas, fun _ => rfl, fun msg hm => ?_, fun text ht => (nomatch ht)⟩, rfl⟩
      cases hm
      rfl
    · cases hx
  | serve d =>
    simp only [step] at hx
    split at hx
    · next msg hw =>
      cases hx
      obtain ⟨m, f', hm, ho, hr⟩ := reads_serve h hw
      exact ⟨m, f', hm, hr, ho.symm⟩
    · cases hx
  | take d wild =>
    simp only [step] at hx
    split at hx
    · next text hw =>
      cases hx
      obtain ⟨m, f', hm, ho, hr⟩ := reads_take h hw wild
      exact ⟨m, f', hm, hr, ho.symm⟩
    · cases hx
  | lose d =>
    cases hx
    exact ⟨.drop d, _, rfl, h.send (fun k hk => absurd hk.symm (Option.some_ne_none k))
      ⟨(h.reader d).has, fun _ => rfl, fun msg hm => (nomatch hm), fun text ht => (nomatch ht)⟩,
      rfl⟩

/-! ### Runs -/

/-- **A client installs versions in the order in which they were published**, each of them at most
as often, and what it has stored is the last one, or the version that it came with. -/
theorem installs_sublist (hi : Initial canon id came x) {ls : List (Lbl canon id)}
    (hr : run (step canon id) x ls = some x') (d : ι) :
    (takenBy d (outputs (step canon id) installs x ls)).Sublist x'.published ∧
      getVersion (x'.client d) =
        some ((takenBy d (outputs (step canon id) installs x ls)).getLast?.getD (came d)) := by
  have h0 := reads_initial hi
  obtain ⟨ms, f', -, hms, h', hout⟩ := simulates.run h0 hr
  obtain ⟨-, -, hsub, hlast⟩ := taken_sublist h0.ordered hms d
  rw [← hout] at hsub hlast
  have hfirst : itemAt (fresh x).items ((fresh x).pos d) = none := rfl
  rw [hfirst, Option.or_none, h'.items] at hlast
  constructor
  · rw [← h'.items]
    exact hsub.trans (List.drop_sublist _ _)
  · rw [← hlast]
    exact (h'.reader d).has.version

variable (canon id) in
def isPublish : Lbl canon id → Bool
  | .publish _ => true
  | _ => false

/-- A run of the client `d` ends. -/
def isTake (d : ι) : Lbl canon id → Bool
  | .take e _ => e = d
  | _ => false

/-- The client is not told of an old version. -/
def Current (V : Bytes) (d : ι) (x : Sys ι) : Prop :=
  ∀ text c, x.wire d = some (.reply text) → getVersion (x.client d) = some c →
    text = formatted (answerText V c)

/-- How many runs the client needs at most until it has the version `V`. -/
def Needs (V : Bytes) (d : ι) (x : Sys ι) : ℕ → Prop
  | 0 => Current V d x ∧ getVersion (x.client d) = some V
  | 1 => Current V d x
  | _ => True

section Needs
variable {V : Bytes} {d : ι} {n : ℕ}

omit [JsonC] [DecidableEq ι] in
theorem Needs.of_current (h : Needs V d x n) (hc : Current V d x')
    (hv : getVersion (x'.client d) = getVersion (x.client d)) : Needs V d x' n := by
  match n, h with
  | 0, h => exact ⟨hc, hv.trans h.2⟩
  | 1, _ => exact hc
  | n + 2, _ => exact trivial

omit [JsonC] [DecidableEq ι] in
/-- Only what becomes of the client itself counts. -/
theorem Needs.congr (h : Needs V d x n) (hw : x'.wire d = x.wire d)
    (hc : x'.client d = x.client d) : Needs V d x' n := by
  have hcur (hx : Current V d x) : Current V d x' := by
    intro text c ht hv
    rw [hw] at ht
    rw [hc] at hv
    exact hx text c ht hv
  match n, h with
  | 0, h => exact ⟨hcur h.1, by rw [hc]; exact h.2⟩
  | 1, h => exact hcur h
  | n + 2, _ => exact trivial

omit [JsonC] [DecidableEq ι] in
/-- The client is told nothing. -/
theorem current_of_silent (hw : ∀ text, x.wire d ≠ some (.reply text)) : Current V d x :=
  fun text _ ht _ => absurd ht (hw text)

/-- **The end of a run of the client**: it has taken what the server has told it. -/
theorem take_needs (h : Reads canon id came x f) (hfit : Fit canon id V) (hn : Needs V d x n)
    {text : Bytes}
    (hw : x.wire d = some (.reply text)) (wild : OTAClient.ClientComm.StatusFile) :
    Needs V d { x with
        client := Function.update x.client d (receive (x.client d) text wild).2
        wire := Function.update x.wire d none } (n - 1) ∧
      (n = 0 → installs x (.take d wild : Lbl canon id) = []) := by
  have hhas := (h.reader d).has
  set c := (itemAt x.published (f.pos d)).getD (came d)
  have hsilent : ∀ text, Function.update x.wire d none d ≠ some (.reply text) := by
    simp only [Function.update_self, ne_eq, reduceCtorEq, not_false_eq_true, implies_true]
  have hupdated (hc : c = V) (ht : text = formatted (answerText V c)) :
      receive (x.client d) text wild = (none, x.client d) := by
    rw [ht, answerText, if_pos hc]
    exact receive_updated h.library wild
  rcases n with _ | _ | _ | n
  · have hc : c = V := Option.some.inj (hhas.version.symm.trans hn.2)
    have hrecv := hupdated hc (hn.1 text c hw hhas.version)
    refine ⟨⟨current_of_silent hsilent, ?_⟩, fun _ => by simp only [installs, hw, hrecv]⟩
    simp only [hrecv, Function.update_self]
    exact hn.2
  · refine ⟨⟨current_of_silent hsilent, ?_⟩, fun h0 => by omega⟩
    simp only [Function.update_self]
    have ht := hn text c hw hhas.version
    by_cases hc : c = V
    · rw [hupdated hc ht, ← hc]
      exact hhas.version
    · rw [ht, answerText, if_neg hc]
      obtain ⟨cmd, file', hrecv, hhas'⟩ := receive_offer h.library hfit hhas wild
      rw [hrecv]
      exact hhas'.version
  · exact ⟨current_of_silent hsilent, fun h0 => by omega⟩
  · exact ⟨trivial, fun h0 => by omega⟩

/-- A step other than a publication: the client goes on by itself only. -/
theorem step_needs (h : Reads canon id came x f)
    (hV : getJsonValueFromFile x.server (lit "version") = some V) (hfit : Fit canon id V)
    (hn : Needs V d x n) {l : Lbl canon id} (hl : isPublish canon id l = false)
    (hx : step canon id x l = some x') :
    Needs V d x' (if isTake d l then n - 1 else n) ∧ x'.server = x.server ∧
      (n = 0 → takenBy d (installs x l) = []) := by
  cases l with
  | publish r => cases hl
  | ask e =>
    simp only [step] at hx
    split at hx
    · cases hx
      refine ⟨?_, rfl, fun _ => rfl⟩
      by_cases he : d = e
      · subst he
        refine hn.of_current (current_of_silent fun text ht => ?_) rfl
        simp only [Function.update_self] at ht
        cases ht
      · exact hn.congr (Function.update_of_ne he _ _) rfl
    · cases hx
  | serve e =>
    simp only [step] at hx
    split at hx
    · next msg hw =>
      cases hx
      refine ⟨?_, rfl, fun _ => rfl⟩
      by_cases he : d = e
      · subst he
        refine hn.of_current (fun text c ht hc => ?_) rfl
        obtain ⟨hhas, -, hasked, -⟩ := h.reader d
        simp only [Function.update_self, Option.some.injEq, Wire.reply.injEq] at ht
        have hcc : (itemAt x.published (f.pos d)).getD (came d) = c :=
          Option.some.inj (hhas.version.symm.trans hc)
        rw [← ht, hasked msg hw, answer_of_has h.library (h.names d) hV hhas, Option.getD_some, hcc]
      · exact hn.congr (Function.update_of_ne he _ _) rfl
    · cases hx
  | take e wild =>
    simp only [step] at hx
    split at hx
    · next text hw =>
      cases hx
      by_cases he : d = e
      · subst he
        obtain ⟨h1, h2⟩ := take_needs h hfit hn hw wild
        rw [if_pos (by simp [isTake])]
        exact ⟨h1, rfl, fun h0 => by rw [h2 h0]; rfl⟩
      · rw [if_neg (by simp [isTake, Ne.symm he])]
        refine ⟨hn.congr (Function.update_of_ne he _ _) (Function.update_of_ne he _ _), rfl,
          fun _ => ?_⟩
        simp only [installs, hw]
        split
        · simp [takenBy, Ne.symm he]
        · rfl
    · cases hx
  | lose e =>
    cases hx
    refine ⟨?_, rfl, fun _ => rfl⟩
    by_cases he : d = e
    · subst he
      refine hn.of_current (current_of_silent fun text ht => ?_) rfl
      simp only [Function.update_self] at ht
      cases ht
    · exact hn.congr (Function.update_of_ne he _ _) rfl

/-- **A run without a publication** brings the client closer to the version of the server. -/
theorem run_needs (h : Reads canon id came x f)
    (hV : getJsonValueFromFile x.server (lit "version") = some V) (hfit : Fit canon id V)
    (hn : Needs V d x n) {ls : List (Lbl canon id)} (hls : ∀ l ∈ ls, isPublish canon id l = false)
    (hr : run (step canon id) x ls = some x') :
    Needs V d x' (n - ls.countP (isTake d)) ∧ x'.server = x.server ∧
      (∃ f', Reads canon id came x' f') ∧
      (n = 0 → takenBy d (outputs (step canon id) installs x ls) = []) := by
  induction ls generalizing x f n with
  | nil =>
    cases Option.some.inj hr
    exact ⟨hn, rfl, ⟨f, h⟩, fun _ => rfl⟩
  | cons l ls ih =>
    obtain ⟨hl, hls⟩ := List.forall_mem_cons.mp hls
    obtain ⟨x₁, h₁, hrest⟩ := run_cons_eq_some.mp hr
    obtain ⟨ms, f₁, -, hf₁, -⟩ := simulates x f l x₁ h h₁
    obtain ⟨hn₁, hs₁, ho₁⟩ := step_needs h hV hfit hn hl h₁
    obtain ⟨hn', hs', hf', ho'⟩ := ih hf₁ (hs₁ ▸ hV) hn₁ hls hrest
    refine ⟨?_, hs'.trans hs₁, hf', fun h0 => ?_⟩
    · by_cases ht : isTake d l
      · rw [if_pos ht] at hn'
        rw [List.countP_cons_of_pos ht]
        rwa [show n - (ls.countP (isTake d) + 1) = n - 1 - ls.countP (isTake d) by omega]
      · rw [if_neg ht] at hn'
        rwa [List.countP_cons_of_neg ht]
    · rw [outputs_cons h₁, takenBy_append, ho₁ h0, List.nil_append]
      refine ho' ?_
      split_ifs <;> omega

end Needs

/-- **When no version follows**, a client has the last one after its second run at the latest, and
installs nothing from then on. -/
theorem rollout_settles {V : Bytes} (hi : Reachable (step canon id) (Initial canon id came) x)
    (hV : x.published.getLast? = some V) {d : ι} {ls₁ ls₂ : List (Lbl canon id)}
    (hls : ∀ l ∈ ls₁ ++ ls₂, isPublish canon id l = false) (htwo : 2 ≤ ls₁.countP (isTake d))
    {x₁ x₂ : Sys ι} (h₁ : run (step canon id) x ls₁ = some x₁)
    (h₂ : run (step canon id) x₁ ls₂ = some x₂) :
    getVersion (x₁.client d) = some V ∧ getVersion (x₂.client d) = some V ∧
      takenBy d (outputs (step canon id) installs x₁ ls₂) = [] := by
  obtain ⟨x₀, es, h0, hr⟩ := hi
  obtain ⟨ms, f, -, -, hf, -⟩ := simulates.run (reads_initial h0) hr
  obtain ⟨W, hW, hserver⟩ := hf.latest
  obtain rfl : W = V := Option.some.inj (hW.symm.trans hV)
  have hfit := hf.fit W (List.mem_of_getLast? hW)
  have htrue : Needs W d x 2 := trivial
  obtain ⟨hn₁, hs₁, ⟨f₁, hf₁⟩, -⟩ := run_needs hf hserver hfit htrue
    (fun l hl => hls l (List.mem_append_left _ hl)) h₁
  rw [show 2 - ls₁.countP (isTake d) = 0 by omega] at hn₁
  obtain ⟨hn₂, -, -, ho⟩ := run_needs hf₁ (hs₁ ▸ hserver) hfit hn₁
    (fun l hl => hls l (List.mem_append_right _ hl)) h₂
  rw [Nat.zero_sub] at hn₂
  exact ⟨hn₁.2, hn₂.2, ho rfl⟩

end Rollout

/-! ### Two clients and three versions -/

def names : Bool → Bytes := fun d => if d then lit "cam" else lit "yard"

/-- Two clients that come with version 1, and a server that has it. -/
def start : Sys Bool where
  server := serverOf (lit "1")
  client d := some [(lit "streamId", .str (names d)), (lit "version", .str (lit "1"))]
  wire _ := none
  published := [lit "1"]

theorem fit_of_int {V : Bytes} {i : ℤ} (hp : Plain V) (hl : V.length ≤ 20)
    (hv : value (maxDepth - 1) V = some (.int i, [])) (hs : getString (.int i) = some V) :
    Fit Json.double names V := by
  have hmax : MAXDATASIZE = 255 := rfl
  have hname : ∀ d, (percentS (some (names d))).length ≤ 4 := fun d => by cases d <;> decide
  refine ⟨hp, ⟨.int i, hv, hs⟩, ?_, fun d => ?_⟩
  · rw [length_availableText]
    omega
  · have := hname d
    rw [length_checkUpdateText]
    omega

def release2 : Release Json.double names :=
  ⟨[(lit "version", .str (lit "2"))], lit "2", rfl,
    fit_of_int (by decide) (by decide) (i := 2) rfl rfl⟩

def release3 : Release Json.double names :=
  ⟨[(lit "version", .str (lit "3"))], lit "3", rfl,
    fit_of_int (by decide) (by decide) (i := 3) rfl rfl⟩

theorem initial_start : Initial Json.double names (fun _ => lit "1") start := by
  refine ⟨prints_strict, fun d => by cases d <;> decide, ⟨lit "1", rfl,
    fit_of_int (by decide) (by decide) (i := 1) rfl rfl, rfl⟩, fun d => ?_, fun _ => rfl⟩
  exact ⟨[(lit "streamId", .str (names d)), (lit "version", .str (lit "1"))], rfl,
    by cases d <;> rfl, rfl, by decide, by rw [length_checkUpdateText]; cases d <;> decide⟩

/-- A client is offered version 2, and takes it when there is version 3. -/
def late : List (Lbl Json.double names) :=
  [.publish release2, .ask true, .serve true, .publish release3, .take true none, .ask true,
    .serve true, .ask false, .lose false, .take true none]

theorem installs_sublist_late : ∃ x, run (step Json.double names) start late = some x ∧
    takenBy true (outputs (step Json.double names) installs start late) = [lit "2", lit "3"] ∧
      (takenBy true (outputs (step Json.double names) installs start late)).Sublist x.published ∧
        getVersion (x.client true) = some (lit "3") := by
  have hout : (run (step Json.double names) start late).isSome = true ∧
      takenBy true (outputs (step Json.double names) installs start late) = [lit "2", lit "3"] := by
    decide +kernel
  obtain ⟨x, hx⟩ := Option.isSome_iff_exists.mp hout.1
  obtain ⟨hsub, hver⟩ := installs_sublist initial_start hx true
  refine ⟨x, hx, hout.2, hsub, ?_⟩
  rw [hver, hout.2]
  rfl

/-- Two runs of a client, and a third one. -/
def twice : List (Lbl Json.double names) :=
  [.ask true, .serve true, .take true none, .ask true, .serve true, .take true none]

def again : List (Lbl Json.double names) := [.ask true, .serve true, .take true none]

theorem rollout_settles_twice : ∃ x x₁ x₂,
    step Json.double names start (.publish release2) = some x ∧
    run (step Json.double names) x twice = some x₁ ∧
    run (step Json.double names) x₁ again = some x₂ ∧
      getVersion (x₂.client true) = some (lit "2") ∧
        takenBy true (outputs (step Json.double names) installs x₁ again) = [] := by
  have hout : ((step Json.double names start (.publish release2)).bind fun x =>
      run (step Json.double names) x (twice ++ again)).isSome = true := by decide +kernel
  obtain ⟨x₂, hx⟩ := Option.isSome_iff_exists.mp hout
  obtain ⟨x, h₀, hx⟩ := Option.bind_eq_some_iff.mp hx
  rw [run_append] at hx
  obtain ⟨x₁, h₁, h₂⟩ := Option.bind_eq_some_iff.mp hx
  have hlast : x.published.getLast? = some (lit "2") := by
    cases Option.some.inj h₀
    rfl
  obtain ⟨-, hver, hno⟩ := rollout_settles (d := true) (.next (.init initial_start) h₀) hlast
    (by decide) (by decide) h₁ h₂
  exact ⟨x, x₁, x₂, h₀, h₁, h₂, hver, hno⟩

end LiveStreamer.Protocol.Rollout
