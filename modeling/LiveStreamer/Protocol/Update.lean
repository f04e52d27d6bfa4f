import LiveStreamer.Lib.JsonCanon
import LiveStreamer.OTAClient.ClientComm
import LiveStreamer.OTAServer.SrvrComm
import LiveStreamer.Protocol.Agreement

/-! # An update over the air (`OTAClient`, `OTAServer`)

A run of the client is one request and one reply. The server compares the version of the request
with its own as strings, and sends its own without quotes; the client stores the string that
json-c makes of the value it reads there.

The library reads JSON, and prints a number that is no integer as `canon` makes it (`Prints`). The
client converges on the version `V` of the server in one run if the server reads `V` back from a
request, and `V` was stored before or is the text that is printed for a JSON value other than a
string (`Canonical`), and in no other case (`converges_iff`). A version as `1.2.3` is no such text
(`dotted_never_converges`), and neither is `1.50` if it is printed as `1.5`. -/

namespace LiveStreamer.Protocol.Update

open LiveStreamer.Lib.CString LiveStreamer.Lib.JsonCanon LiveStreamer.Lib.JsonFound
open LiveStreamer.Lib.JsonLex LiveStreamer.Lib.JsonPrint LiveStreamer.Lib.JsonStrings
open LiveStreamer.Lib.JsonText LiveStreamer.Lib.JsonTokens LiveStreamer.Lib.Program
open LiveStreamer.Lib.Program.Prog LiveStreamer.Lib.Tokener
open LiveStreamer.OTAServer.SrvrComm (Conn Event Harmless answerText availableText connSem expected
  exec_handling formatted handling received replies_of_ne replies_of_update updatedText)
open LiveStreamer.OTAClient.ClientComm (SIGCheckUpdate checkUpdateText getStreamId getVersion
  receive receiveData commandOf scriptOf scriptOf_eq_some scriptOf_of_ne setJsonValue
  msgParse_of_none msgParse_of_some)
open LiveStreamer.Protocol.Agreement (gap found_stream)

/-! ### A run of the client -/

section Session
variable [JsonC] (server : OTAServer.SrvrComm.StatusFile)

/-- The text of a reply. -/
def replyOf : Event → Option Bytes
  | .reply text => some text
  | _ => none

/-- What the server sends for a request; nothing if it only closes the connection, or ends. -/
def answer (msg : Bytes) : Option Bytes :=
  match exec connSem (handling server) (⟨0, some msg, [.request msg]⟩, []) with
  | (some _, c, _) => c.log.findSome? replyOf
  | (none, _) => none

/-- A run of the client: the script that it gives to the shell, and the file that it leaves. The
end of the connection is received as an empty text. -/
def otaRun (file wild : OTAClient.ClientComm.StatusFile) :
    Option Bytes × OTAClient.ClientComm.StatusFile :=
  receive file ((answer server (SIGCheckUpdate file)).getD []) wild

/-- **One run brings the client to version `V`**, and a further run is told so and starts no
script. -/
structure Converges (file : OTAClient.ClientComm.StatusFile) (V : Bytes) : Prop where
  stored : ∀ wild, getVersion (otaRun server file wild).2 = some V
  updated : ∀ wild, answer server (SIGCheckUpdate (otaRun server file wild).2) =
    some (formatted updatedText)
  quiet : ∀ wild wild', (otaRun server (otaRun server file wild).2 wild').1 = none

end Session

/-- The request of a client with version `c` is read by the server as an update request for
version `v`. -/
def Asks [JsonC] (id : Option Bytes) (c v : Bytes) : Prop :=
  OTAServer.SrvrComm.field "action" (checkUpdateText id (some c)) = some (lit "update") ∧
    OTAServer.SrvrComm.field "version" (checkUpdateText id (some c)) = some v

/-- The text that is printed for a JSON value other than a string. -/
def Canonical (canon : Bytes → Json) (V : Bytes) : Prop :=
  ∃ j, value (maxDepth - 1) V = some (j, []) ∧ getString (canonize canon j) = some V

/-- The version is read back from a request; and it is stored already, or the client asks for
another one and can read it from the reply. -/
def Agrees [JsonC] (canon : Bytes → Json) (id : Option Bytes) (c V : Bytes) : Prop :=
  Asks id V V ∧ (c = V ∨ (∃ v, v ≠ V ∧ Asks id c v) ∧ Canonical canon V)

/-! ### The answer of the server -/

section Answer
variable [JsonC] {server : OTAServer.SrvrComm.StatusFile} {V msg : Bytes}

theorem answer_of_harmless
    (hV : OTAServer.SrvrComm.getJsonValueFromFile server (lit "version") = some V)
    (hm : Harmless msg) : answer server msg = (expected V msg).findSome? replyOf := by
  obtain ⟨c, buff, hx, hlog⟩ :=
    exec_handling hV (c := ⟨0, some msg, [.request msg]⟩) rfl rfl hm []
  unfold answer
  rw [hx, ← hlog]

theorem answer_of_update
    (hV : OTAServer.SrvrComm.getJsonValueFromFile server (lit "version") = some V)
    (ha : OTAServer.SrvrComm.field "action" (received msg) = some (lit "update")) {v : Bytes}
    (hv : OTAServer.SrvrComm.field "version" (received msg) = some v) :
    answer server msg = some (formatted (answerText V v)) := by
  rw [answer_of_harmless hV ⟨_, ha, fun _ => ⟨v, hv⟩⟩, expected, replies_of_update ha hv]
  rfl

/-- A message that is not harmless ends the server. -/
theorem answer_of_not_harmless (hm : ¬ Harmless msg) : answer server msg = none := by
  have hparse (c : Conn) (hc : c.Open) : (exec connSem (OTAServer.SrvrComm.msgParse server)
      (c, received msg)).1 = none := by
    have hread := (OTAServer.SrvrComm.connSem_open (v := (c, received msg)) hc).1
    unfold OTAServer.SrvrComm.msgParse
    rw [op_bind, exec_call_some _ hread]
    unfold Harmless OTAServer.SrvrComm.field at hm
    dsimp only
    rcases ha : OTAServer.SrvrComm.getJsonValueFromObj (JsonC.parse (received msg))
        (lit "action") with _ | act
    · rfl
    · have hact : act = lit "update" := by
        by_contra hne
        exact hm ⟨act, ha, fun h => absurd h hne⟩
      have hver : OTAServer.SrvrComm.getJsonValueFromObj (JsonC.parse (received msg))
          (lit "version") = none := by
        rw [Option.eq_none_iff_forall_ne_some]
        exact fun v hv => hm ⟨act, ha, fun _ => ⟨v, hv⟩⟩
      simp only [hact, OTAServer.SrvrComm.strEq_some, ret_bind, decide_true, if_true, hver]
      rfl
  have hopen : Conn.Open ⟨0, some msg, [.request msg]⟩ := by simp [Conn.Open]
  have hrecv : exec connSem OTAServer.SrvrComm.receiveData
      (⟨0, some msg, [.request msg]⟩, []) =
        (some (), Conn.taken ⟨0, some msg, [.request msg]⟩, received msg) := by
    unfold OTAServer.SrvrComm.receiveData
    rw [op_bind, exec_call_some _ (OTAServer.SrvrComm.connSem_recv hopen rfl)]
    rfl
  unfold answer handling OTAServer.SrvrComm.receive
  rw [bind_assoc, exec_bind_some _ hrecv, exec_bind]
  have hnone := hparse (Conn.taken ⟨0, some msg, [.request msg]⟩) hopen
  rcases hx : exec connSem (OTAServer.SrvrComm.msgParse server)
      (Conn.taken ⟨0, some msg, [.request msg]⟩, received msg) with ⟨_ | u, v⟩
  · rfl
  · rw [hx] at hnone
    cases hnone

/-- **What the server answers**, it answers to an update request. -/
theorem answer_eq_some
    (hV : OTAServer.SrvrComm.getJsonValueFromFile server (lit "version") = some V) {text : Bytes}
    (h : answer server msg = some text) :
    OTAServer.SrvrComm.field "action" (received msg) = some (lit "update") ∧
      ∃ v, OTAServer.SrvrComm.field "version" (received msg) = some v ∧
        text = formatted (answerText V v) := by
  by_cases hm : Harmless msg
  · obtain ⟨act, ha, hver⟩ := hm
    by_cases hact : act = lit "update"
    · obtain ⟨v, hv⟩ := hver hact
      rw [hact] at ha
      rw [answer_of_update hV ha hv] at h
      exact ⟨ha, v, hv, (Option.some.inj h).symm⟩
    · rw [answer_of_harmless hV ⟨act, ha, hver⟩, expected, replies_of_ne ha hact] at h
      cases h
  · rw [answer_of_not_harmless hm] at h
    cases h

end Answer

/-! ### The offer of the server -/

/-- The members of an offer before the version. -/
def offered : Obj :=
  [(lit "status", .str (lit "available")),
    (lit "addr", .str (lit "http://103.226.217.136/UpdatePackage.tar.xz")),
    (lit "package", .str (lit "UpdatePackage.tar.xz"))]

/-- The text of an offer after the version. -/
def tail : Bytes := lit " \x7d\n"

/-- The other members of an offer after its status. -/
def offeredTexts : List (Bytes × Bytes) :=
  [(lit "addr", lit "http://103.226.217.136/UpdatePackage.tar.xz"),
    (lit "package", lit "UpdatePackage.tar.xz")]

theorem availableText_eq (V : Bytes) : availableText (some V) =
    0x7b :: ([0x20] ++ strMembers [0x20] ((lit "status", lit "available") :: offeredTexts)
      (0x22 :: (lit "version" ++ 0x22 :: ([0x20] ++ 0x3a :: ([0x20] ++ (V ++ tail)))))) := by
  have hstatus : lit "\x7b \"status\" : \"available\"," =
      0x7b :: ([0x20] ++ memberText [0x20] (lit "status") (lit "available") [0x2c]) := by
    decide +kernel
  have haddr : lit "\"addr\" : \"http://103.226.217.136/UpdatePackage.tar.xz\"" =
      memberText [0x20] (lit "addr") (lit "http://103.226.217.136/UpdatePackage.tar.xz") [] := by
    decide +kernel
  have hpackage : lit ",\"package\" : \"UpdatePackage.tar.xz\",\"version\" : " =
      0x2c :: (memberText [0x20] (lit "package") (lit "UpdatePackage.tar.xz") [0x2c] ++
        0x22 :: (lit "version" ++ [0x22, 0x20, 0x3a, 0x20])) := by
    decide +kernel
  unfold availableText
  rw [hstatus, haddr, hpackage]
  simp [strMembers, offeredTexts, memberText, percentS, tail]

theorem length_availableText (V : Bytes) : (availableText (some V)).length = 130 + V.length := by
  have h1 : (lit "\x7b \"status\" : \"available\",").length = 25 := by decide +kernel
  have h2 : (lit "\"addr\" : \"http://103.226.217.136/UpdatePackage.tar.xz\"").length = 54 := by
    decide +kernel
  have h3 : (lit ",\"package\" : \"UpdatePackage.tar.xz\",\"version\" : ").length = 48 := by
    decide +kernel
  have h4 : (lit " \x7d\n").length = 3 := by decide +kernel
  unfold availableText
  simp only [List.length_append, h1, h2, h3, h4, percentS, Option.getD_some]
  omega

/-- **An offer is read up to the version.** -/
theorem tokenerParse_offer (V : Bytes) : ∃ n, tokenerParse (availableText (some V)) =
    ((value 31 (V ++ tail)).bind fun p =>
      match expect 0x2c p.2 with
      | some t' => members (value 31) n (add offered (lit "version") p.1) t'
      | none => (expect 0x7d p.2).map fun t' =>
        (add offered (lit "version") p.1, t')).map fun q => .obj q.1 := by
  have hb : Blank [0x20] := blank_space
  have hver : Plain (lit "version") := by decide
  have hquote (t : Bytes) : expect 0x22 (0x22 :: t) = some t := expect_self blank_nil rfl t
  obtain ⟨n, hn, hread⟩ := value_strMembers 30 hb hb (k := lit "status") (v := lit "available")
    (by decide) (by decide) (l := offeredTexts) (by decide)
    (0x22 :: (lit "version" ++ 0x22 :: ([0x20] ++ 0x3a :: ([0x20] ++ (V ++ tail)))))
  obtain ⟨n, rfl⟩ : ∃ m, n = m + 1 := by
    rw [List.length_cons] at hn
    exact ⟨n - 1, by omega⟩
  refine ⟨n, ?_⟩
  rw [tokenerParse, availableText_eq, show maxDepth = 30 + 2 from rfl, hread, members, hquote,
    Option.bind_some, scan_closed hver, Option.bind_some, expect_self hb rfl, Option.bind_some,
    value_blank _ hb, cstr_of_notMem hver.notMem_zero]
  rcases value (30 + 1) (V ++ tail) with _ | p
  · rfl
  · rw [Option.bind_some, Option.bind_some]
    rcases expect 0x2c p.2 with _ | t'
    · rcases expect 0x7d p.2 with _ | t'
      · rfl
      · rfl
    · rw [Option.map_map]
      rfl

theorem notMem_tail : (0x22 : UInt8) ∉ tail := by decide

/-- The object of an offer whose version is read as `j`. -/
theorem tokenerParse_offer_of_read {V : Bytes} {j : Json}
    (h : value 31 (V ++ tail) = some (j, tail)) :
    tokenerParse (availableText (some V)) = some (.obj (add offered (lit "version") j)) := by
  obtain ⟨n, hn⟩ := tokenerParse_offer V
  have hcomma : expect 0x2c tail = none := by decide
  have hclose : expect 0x7d tail = some (lit "\n") := by decide
  rw [hn, h, Option.bind_some, hcomma, hclose]
  rfl

section Offer
variable [JsonC] {canon : Bytes → Json} {V : Bytes}

/-- The object of an offer of a canonical version. -/
theorem tokenerParse_canonical (hj : Prints canon) (h : Canonical canon V) :
    ∃ j, canonize canon j = j ∧ getString j = some V ∧
      tokenerParse (availableText (some V)) = some (.obj (add offered (lit "version") j)) := by
  obtain ⟨j, hv, hz⟩ := h
  have hown : V <:+ V ++ [] := by rw [List.append_nil]
  obtain ⟨j', hcan, hz', hall⟩ :=
    reads_of_getString hj.toCanon List.not_mem_nil hown hv hz
  exact ⟨j', hcan, hz', tokenerParse_offer_of_read (hall tail (ends_cons (by decide) _))⟩

/-- The other fields of the offer. -/
theorem field_offer (hj : Prints canon) (h : Canonical canon V) {jKey : String}
    (hk : lit "version" ≠ lit jKey) :
    OTAClient.ClientComm.field jKey (availableText (some V)) =
      (getEx offered (lit jKey)).bind fun j => getString (canonize canon j) := by
  obtain ⟨j, -, -, hparse⟩ := tokenerParse_canonical hj h
  refine (hj.memberString (o := some (add offered (lit "version") j)) hparse (lit jKey)).trans ?_
  rw [Option.bind_some, getEx_add_ne offered j hk]

/-- **The client reads a canonical version back from the offer.** -/
theorem field_of_canonical (hj : Prints canon) (h : Canonical canon V) :
    OTAClient.ClientComm.field "version" (availableText (some V)) = some V ∧
      ∃ script, scriptOf (availableText (some V)) = some script ∧
        script.length < OTAClient.ClientComm.MAXDATASIZE := by
  constructor
  · obtain ⟨j, hcan, hz, hparse⟩ := tokenerParse_canonical hj h
    refine (hj.memberString (o := some (add offered (lit "version") j)) hparse _).trans ?_
    rw [Option.bind_some, getEx_add_self, Option.bind_some, hcan, hz]
  · have hstatus : OTAClient.ClientComm.field "status" (availableText (some V)) =
        some (lit "available") := by
      rw [field_offer hj h (by decide)]
      rfl
    have haddr : OTAClient.ClientComm.field "addr" (availableText (some V)) =
        some (lit "http://103.226.217.136/UpdatePackage.tar.xz") := by
      rw [field_offer hj h (by decide)]
      rfl
    have hpackage : OTAClient.ClientComm.field "package" (availableText (some V)) =
        some (lit "UpdatePackage.tar.xz") := by
      rw [field_offer hj h (by decide)]
      rfl
    refine ⟨commandOf (availableText (some V)), scriptOf_eq_some.mpr ⟨⟨hstatus, ?_⟩, rfl⟩, ?_⟩
    · rw [hpackage]
      exact Option.some_ne_none _
    · unfold commandOf
      rw [haddr, hpackage, OTAClient.ClientComm.length_updateCommand]
      decide

/-- What the client reads as the version is the value after the key, or one that comes later. -/
theorem read_of_field (hj : Prints canon) {W : Bytes}
    (h : OTAClient.ClientComm.field "version" (availableText (some V)) = some W) :
    ∃ j t r, t <:+ V ++ tail ∧ value 31 t = some (j, r) ∧
      getString (canonize canon j) = some W := by
  obtain ⟨n, hn⟩ := tokenerParse_offer V
  have hfield := hj.memberString (hn.trans (Option.map_map Json.obj Prod.fst _).symm)
    (lit "version")
  rw [← OTAClient.ClientComm.getJsonValueFromObj] at hfield
  replace h := hfield.symm.trans h
  rcases hv : value 31 (V ++ tail) with _ | ⟨X, r⟩
  · rw [hv] at h
    cases h
  rw [hv, Option.bind_some] at h
  have hfirst {j : Json} (hget : getEx (add offered (lit "version") X) (lit "version") = some j)
      (hz : getString (canonize canon j) = some W) : ∃ j t r, t <:+ V ++ tail ∧
        value 31 t = some (j, r) ∧ getString (canonize canon j) = some W := by
    rw [getEx_add_self] at hget
    cases hget
    exact ⟨X, _, r, List.suffix_rfl, hv, hz⟩
  rcases hcomma : expect 0x2c r with _ | t'
  · rw [hcomma] at h
    rcases hclose : expect 0x7d r with _ | t'
    · rw [hclose] at h
      cases h
    · rw [hclose] at h
      obtain ⟨j, hget, hz⟩ : ∃ j, getEx (add offered (lit "version") X) (lit "version") = some j ∧
        getString (canonize canon j) = some W := Option.bind_eq_some_iff.mp h
      exact hfirst hget hz
  · rw [hcomma] at h
    dsimp only at h
    rcases hm : members (value 31) n (add offered (lit "version") X) t' with _ | ⟨o, r''⟩
    · rw [hm] at h
      cases h
    · rw [hm] at h
      obtain ⟨j, hget, hz⟩ : ∃ j, getEx o (lit "version") = some j ∧
        getString (canonize canon j) = some W := Option.bind_eq_some_iff.mp h
      rcases members_read hm hget with hget | ⟨t, r₁, ht, hread⟩
      · exact hfirst hget hz
      · obtain ⟨⟨u, hu, -⟩, -⟩ := value_isRead 31 hv
        obtain ⟨b, -, rfl⟩ := expect_eq_some hcomma
        have hsuf : t' <:+ V ++ tail := ⟨u ++ (b ++ [0x2c]), by rw [hu]; simp⟩
        exact ⟨j, t, r₁, ht.trans hsuf, hread, hz⟩

/-- **A version that the client reads back from the offer is canonical.** -/
theorem canonical_of_field (hj : Prints canon)
    (h : OTAClient.ClientComm.field "version" (availableText (some V)) = some V) :
    Canonical canon V := by
  obtain ⟨j, t, r, ht, hread, hz⟩ := read_of_field hj h
  obtain ⟨j', hcan, hz', hall⟩ := reads_of_getString hj.toCanon notMem_tail ht hread hz
  have hown := hall [] ends_nil
  rw [List.append_nil] at hown
  exact ⟨j', hown, by rw [hcan, hz']⟩

end Offer

/-! ### The request of the client -/

/-- The text of a request after the version. -/
def behind : Bytes := gap .SIGAct ++ (lit "update" ++ [0x22, 0x7d])

theorem behind_eq : behind = 0x22 :: (0x2c ::
    ([] ++ memberText [0x20] (lit "action") (lit "update") [0x7d])) := rfl

theorem length_checkUpdateText (id : Option Bytes) (c : Bytes) :
    (checkUpdateText id (some c)).length = 53 + (percentS id).length + c.length := by
  have h1 : (lit "\x7b \"streamId\" : \"").length = 16 := by decide +kernel
  have h2 : (lit "\",\"version\" : \"").length = 15 := by decide +kernel
  have h3 : (lit "\",\"action\" : \"update\"\x7d").length = 22 := by decide +kernel
  unfold checkUpdateText
  simp only [List.length_append, h1, h2, h3, percentS, Option.getD_some]
  omega

theorem checkUpdateText_eq (id : Option Bytes) (c : Bytes) : checkUpdateText id (some c) =
    0x7b :: ([0x20] ++ strMembers [0x20] [(lit "streamId", percentS id)]
      (0x22 :: (lit "version" ++ 0x22 :: ([0x20] ++ 0x3a ::
        ([0x20] ++ 0x22 :: (c ++ behind)))))) := by
  unfold checkUpdateText strMembers memberText behind
  simp only [percentS, Option.getD_some, List.append_assoc]
  rfl

/-- **A request is read up to the version**, if the stream is plain. -/
theorem tokenerParse_request {id : Option Bytes} (hid : Plain (percentS id)) (c : Bytes) :
    ∃ n, tokenerParse (checkUpdateText id (some c)) =
      ((scan none .plain (c ++ behind)).bind fun p =>
        match expect 0x2c p.2 with
        | some t' => members (value 31) (n + 1)
          [(lit "streamId", .str (percentS id)), (lit "version", .str p.1)] t'
        | none => (expect 0x7d p.2).map fun t' =>
          ([(lit "streamId", .str (percentS id)), (lit "version", .str p.1)], t')).map
            fun q => .obj q.1 := by
  have hb : Blank [0x20] := blank_space
  have hver : Plain (lit "version") := by decide
  have hquote (t : Bytes) : expect 0x22 (0x22 :: t) = some t := expect_self blank_nil rfl t
  obtain ⟨n, hn, hread⟩ := value_strMembers 30 hb hb (k := lit "streamId") (by decide) hid
    (fun p hp => absurd hp List.not_mem_nil)
    (0x22 :: (lit "version" ++ 0x22 :: ([0x20] ++ 0x3a :: ([0x20] ++ 0x22 :: (c ++ behind)))))
  obtain ⟨n, rfl⟩ : ∃ m, n = m + 2 := by
    simp only [List.length_cons, List.length_append] at hn
    exact ⟨n - 2, by omega⟩
  refine ⟨n, ?_⟩
  rw [tokenerParse, checkUpdateText_eq, show maxDepth = 30 + 2 from rfl, hread, members, hquote,
    Option.bind_some, scan_closed hver, Option.bind_some, expect_self hb rfl, Option.bind_some,
    value_str 30 hb, cstr_of_notMem hver.notMem_zero]
  rcases scan none .plain (c ++ behind) with _ | p
  · rfl
  · rw [Option.map_some, Option.bind_some, Option.bind_some]
    dsimp only
    rcases expect 0x2c p.2 with _ | t'
    · rcases expect 0x7d p.2 with _ | t'
      · rfl
      · rfl
    · rw [Option.map_map]
      rfl

/-- **A plain version is read back by the server.** -/
theorem asks_of_plain [JsonC] {canon : Bytes → Json} (hj : Prints canon) {id : Option Bytes}
    {c : Bytes} (hid : Plain (percentS id)) (hc : Plain c) : Asks id c c := by
  obtain ⟨n, hn⟩ := tokenerParse_request hid c
  have hcomma (t : Bytes) : expect 0x2c (0x2c :: t) = some t := expect_self blank_nil rfl t
  have hclose : expect 0x2c [0x7d] = none := by decide
  have hend : expect 0x7d [0x7d] = some [] := by decide
  rw [behind_eq, scan_closed hc, Option.bind_some, hcomma] at hn
  dsimp only at hn
  rw [show 31 = 30 + 1 from rfl, members_str 30 n _ blank_nil blank_space (by decide) (by decide),
    hclose] at hn
  dsimp only at hn
  rw [hend] at hn
  have hfield := hj.memberString (o := some [(lit "streamId", .str (percentS id)),
    (lit "version", .str c), (lit "action", .str (lit "update"))]) hn
  exact ⟨hfield (lit "action"), (hfield (lit "version")).trans (getString_str hc.notMem_zero)⟩

/-- No key `version` is opened behind the version. -/
theorem behind_keys : ∀ i < behind.length, behind[i]? = some 0x22 →
    ∀ m ∈ [Lex.out, .shut, .str, .esc], lex m (behind.take i) = some .out →
      (scan none .plain (behind.drop (i + 1))).map (fun p => cstr p.1) ≠ some (lit "version") := by
  decide

/-- A version is not found behind its own first reading. -/
theorem not_found_behind (V : Bytes) : ¬ Found 31 (V ++ behind) (lit "version") V := by
  rintro ⟨q, y, hS, hf⟩
  obtain ⟨x, _, _, _, _, hx, hk, -⟩ := id hf.member
  have hkey : (scan none .plain y).map (fun p => cstr p.1) = some (lit "version") := by
    rw [hx, Option.map_some, hk]
  -- the quote before the key is behind the version
  have hlate {a : Bytes} (hq : q = V ++ a) (ha : behind = a ++ 0x22 :: y) : False := by
    have hout := hf.outside
    rw [hq] at hout
    obtain ⟨m, -, hm⟩ := lex_of_append hout
    have hat : behind[a.length]? = some 0x22 := by
      rw [ha, List.getElem?_append_right (Nat.le_refl _), Nat.sub_self]
      rfl
    have htake : behind.take a.length = a := by rw [ha, List.take_left]
    have hdrop : behind.drop (a.length + 1) = y := by
      rw [ha, show a ++ 0x22 :: y = (a ++ [0x22]) ++ y by simp, List.drop_left' (by simp)]
    have hlt : a.length < behind.length := by
      rw [ha, List.length_append, List.length_cons]
      omega
    refine behind_keys _ hlt hat m (by cases m <;> decide) (by rwa [htake]) ?_
    rw [hdrop]
    exact hkey
  rcases List.append_eq_append_iff.mp hS with ⟨a, hq, ha⟩ | ⟨a, hV, ha⟩
  · exact hlate hq ha
  · rcases a with _ | ⟨c, a⟩
    · exact hlate (a := []) (by simpa using hV.symm) ha.symm
    · obtain ⟨rfl, rfl⟩ := List.cons.inj ha
      obtain ⟨hno, hlex | hlt⟩ := found_stream (w := .SIGAct) (by decide) hV hf
      · exact hno hlex
      · have hle := length_le_cost V
        omega

/-- **Only a plain version is read back by the server.** -/
theorem plain_of_asks [JsonC] {canon : Bytes → Json} (hj : Prints canon) {id : Option Bytes}
    {V : Bytes} (hid : Plain (percentS id)) (h : Asks id V V) : Plain V := by
  obtain ⟨n, hn⟩ := tokenerParse_request hid V
  have hfield := hj.memberString (hn.trans (Option.map_map Json.obj Prod.fst _).symm)
    (lit "version")
  have hv := hfield.symm.trans h.2
  rcases hx : scan none .plain (V ++ behind) with _ | ⟨x, X⟩
  · rw [hx] at hv
    cases hv
  rw [hx, Option.bind_some] at hv
  have hown (hxV : cstr x = V) : Plain V := by
    rw [behind_eq] at hx
    exact plain_of_scan hx hxV
  have hfirst {j : Json} (hget : getEx [(lit "streamId", .str (percentS id)),
      (lit "version", .str x)] (lit "version") = some j)
      (hz : getString (canonize canon j) = some V) : Plain V := by
    have hstr : getEx [(lit "streamId", .str (percentS id)), (lit "version", .str x)]
        (lit "version") = some (.str x) := rfl
    rw [hstr] at hget
    cases hget
    exact hown (Option.some.inj hz)
  rcases hcomma : expect 0x2c X with _ | X'
  · rw [hcomma] at hv
    rcases hclose : expect 0x7d X with _ | t'
    · rw [hclose] at hv
      cases hv
    · rw [hclose] at hv
      obtain ⟨j, hget, hz⟩ : ∃ j, getEx [(lit "streamId", .str (percentS id)),
        (lit "version", .str x)] (lit "version") = some j ∧
          getString (canonize canon j) = some V := Option.bind_eq_some_iff.mp hv
      exact hfirst hget hz
  · rw [hcomma] at hv
    dsimp only at hv
    rcases hm : members (value 31) (n + 1) [(lit "streamId", .str (percentS id)),
        (lit "version", .str x)] X' with _ | ⟨o, r⟩
    · rw [hm] at hv
      cases hv
    · rw [hm] at hv
      obtain ⟨j, hget, hz⟩ : ∃ j, getEx o (lit "version") = some j ∧
        getString (canonize canon j) = some V := Option.bind_eq_some_iff.mp hv
      obtain ⟨u, hu, hlex⟩ := lex_scan hx
      obtain ⟨b, hb, rfl⟩ := expect_eq_some hcomma
      have hstr : lex .str u = some .str := hlex
      have hshut : lex .str (u ++ [0x22]) = some .shut := by
        rw [lex_append_some hstr]
        rfl
      have hbefore : lex .str ((u ++ 0x22 :: b) ++ [0x2c]) = some .out := by
        rw [show (u ++ 0x22 :: b) ++ [0x2c] = (u ++ [0x22]) ++ (b ++ [0x2c]) by simp,
          lex_append_some hshut, lex_blank (Or.inr rfl) hb rfl]
      have htext : (u ++ 0x22 :: b) ++ 0x2c :: X' = V ++ behind := by rw [hu]; simp
      rcases members_found hm hbefore hget fun hv => shows_canonize hj.toCanon hv hz with
        hget | hfound
      · exact hfirst hget hz
      · rw [htext] at hfound
        exact absurd hfound (not_found_behind V)

/-! ### A run that meets a reply -/

section Texts
variable {server : OTAServer.SrvrComm.StatusFile} {file : OTAClient.ClientComm.StatusFile}
  {c V : Bytes}

/-- The server sends one of two texts. -/
theorem formatted_ne (V : Bytes) : formatted (availableText (some V)) ≠ formatted updatedText := by
  intro h
  have hstart := congrArg (List.take 15) h
  have hoffer : (formatted (availableText (some V))).take 15 = lit "\x7b \"status\" : \"a" := by
    unfold formatted snprintf
    rw [List.take_take]
    rfl
  have hupdated : (formatted updatedText).take 15 = lit "\x7b \"status\" : \"u" := by decide
  rw [hoffer, hupdated] at hstart
  exact absurd hstart (by decide)

/-- A request arrives as it was written. -/
theorem received_request (hc : getVersion file = some c)
    (hf : (checkUpdateText (getStreamId file) (some c)).length < OTAClient.ClientComm.MAXDATASIZE) :
    received (SIGCheckUpdate file) = checkUpdateText (getStreamId file) (some c) := by
  have hmax : OTAClient.ClientComm.MAXDATASIZE = 255 := rfl
  rw [hmax] at hf
  unfold SIGCheckUpdate
  rw [hc]
  show List.take 254 (List.take 254 _) = _
  rw [List.take_take, List.take_of_length_le (by omega)]

/-- A version is read without its zero bytes. -/
theorem notMem_version
    (hV : OTAServer.SrvrComm.getJsonValueFromFile server (lit "version") = some V) :
    (0 : UInt8) ∉ V := by
  obtain ⟨o, -, hz⟩ := Option.bind_eq_some_iff.mp hV
  exact notMem_getString hz

/-- Storing a version leaves the stream as it was. -/
theorem getStreamId_setJsonValue {o : Obj} (w : Bytes) :
    getStreamId (setJsonValue (some o) (lit "version") (some w)) = getStreamId (some o) := by
  have hid : getEx (add o (lit "version") (.str w)) (lit "streamId") =
      getEx o (lit "streamId") := getEx_add_ne _ _ (by decide)
  show (getEx (add o (lit "version") (.str w)) (lit "streamId")).bind getString = _
  rw [hid]
  rfl

/-- The offer arrives as it was written. -/
theorem receiveData_offer (h0 : (0 : UInt8) ∉ V)
    (hfa : (availableText (some V)).length < OTAClient.ClientComm.MAXDATASIZE) :
    receiveData (formatted (availableText (some V))) = availableText (some V) := by
  have hmax : OTAClient.ClientComm.MAXDATASIZE = 255 := rfl
  have hclean : (0 : UInt8) ∉ availableText (some V) := by
    have h1 : (0 : UInt8) ∉ lit "\x7b \"status\" : \"available\"," := by decide
    have h2 : (0 : UInt8) ∉ lit "\"addr\" : \"http://103.226.217.136/UpdatePackage.tar.xz\"" := by
      decide
    have h3 : (0 : UInt8) ∉ lit ",\"package\" : \"UpdatePackage.tar.xz\",\"version\" : " := by
      decide
    have h4 : (0 : UInt8) ∉ lit " \x7d\n" := by decide
    unfold availableText
    simp only [percentS, Option.getD_some, List.mem_append, not_or]
    exact ⟨⟨⟨⟨h1, h2⟩, h3⟩, h0⟩, h4⟩
  rw [hmax] at hfa
  show cstr (List.take 254 (List.take 254 _)) = _
  rw [List.take_take, List.take_of_length_le (by omega), cstr_of_notMem hclean]

end Texts

section Runs
variable [JsonC] {canon : Bytes → Json} {server : OTAServer.SrvrComm.StatusFile}
  {file wild : OTAClient.ClientComm.StatusFile} {c V : Bytes}

/-- What the server answers to a request. -/
theorem answer_request
    (hV : OTAServer.SrvrComm.getJsonValueFromFile server (lit "version") = some V)
    (hc : getVersion file = some c)
    (hf : (checkUpdateText (getStreamId file) (some c)).length < OTAClient.ClientComm.MAXDATASIZE)
    {text : Bytes} : answer server (SIGCheckUpdate file) = some text ↔
      ∃ v, Asks (getStreamId file) c v ∧ text = formatted (answerText V v) := by
  have hmsg := received_request hc hf
  constructor
  · intro h
    obtain ⟨ha, v, hv, ht⟩ := answer_eq_some hV h
    rw [hmsg] at ha hv
    exact ⟨v, ⟨ha, hv⟩, ht⟩
  · rintro ⟨v, ⟨ha, hv⟩, rfl⟩
    rw [← hmsg] at ha hv
    exact answer_of_update hV ha hv

/-- A client that is told that it has the latest version. -/
theorem field_updated (hj : Prints canon) :
    OTAClient.ClientComm.field "status" (receiveData (formatted updatedText)) =
      some (lit "updated") := by
  have hparse : tokenerParse (receiveData (formatted updatedText)) =
      some (.obj [(lit "status", .str (lit "updated"))]) := by rfl
  exact hj.memberString (o := some [(lit "status", .str (lit "updated"))]) hparse (lit "status")

/-- The answer `updated` and the end of the connection lead to no script. -/
theorem scriptOf_updated (hj : Prints canon) :
    scriptOf (receiveData (formatted updatedText)) = none ∧ scriptOf (receiveData []) = none := by
  constructor
  · refine scriptOf_of_ne ?_
    rw [field_updated hj]
    decide
  · refine scriptOf_of_ne ?_
    have hfield := hj.memberString (t := receiveData []) (o := none) rfl (lit "status")
    exact fun h => absurd (hfield.symm.trans h).symm (Option.some_ne_none _)

/-- Without an offer a run changes nothing. -/
theorem otaRun_of_updated (hj : Prints canon)
    (h : answer server (SIGCheckUpdate file) = some (formatted updatedText)) :
    otaRun server file wild = (none, file) := by
  unfold otaRun receive
  rw [h]
  exact msgParse_of_none (scriptOf_updated hj).1 wild

theorem otaRun_of_none (hj : Prints canon) (h : answer server (SIGCheckUpdate file) = none) :
    otaRun server file wild = (none, file) := by
  unfold otaRun receive
  rw [h]
  exact msgParse_of_none (scriptOf_updated hj).2 wild

theorem otaRun_of_offer (h0 : (0 : UInt8) ∉ V)
    (hfa : (availableText (some V)).length < OTAClient.ClientComm.MAXDATASIZE)
    (h : answer server (SIGCheckUpdate file) = some (formatted (availableText (some V)))) :
    otaRun server file wild =
      OTAClient.ClientComm.msgParse file (availableText (some V)) wild := by
  unfold otaRun receive
  rw [h, Option.getD_some, receiveData_offer h0 hfa]

/-- **What a run that leaves version `V` has done**: nothing, or it has stored a version that it
was offered and could read. -/
theorem otaRun_cases (hj : Prints canon) {o : Obj}
    (hV : OTAServer.SrvrComm.getJsonValueFromFile server (lit "version") = some V)
    (hc : getVersion (some o) = some c)
    (hfc : (checkUpdateText (getStreamId (some o)) (some c)).length <
      OTAClient.ClientComm.MAXDATASIZE)
    (hfa : (availableText (some V)).length < OTAClient.ClientComm.MAXDATASIZE)
    (h : getVersion (otaRun server (some o) none).2 = some V) :
    getStreamId (otaRun server (some o) none).2 = getStreamId (some o) ∧
      (c = V ∨ (∃ v, v ≠ V ∧ Asks (getStreamId (some o)) c v) ∧ Canonical canon V) := by
  have h0 := notMem_version hV
  have hsame (hrun : otaRun server (some o) none = (none, some o)) :
      getStreamId (otaRun server (some o) none).2 = getStreamId (some o) ∧
        (c = V ∨ (∃ v, v ≠ V ∧ Asks (getStreamId (some o)) c v) ∧ Canonical canon V) := by
    rw [hrun] at h ⊢
    exact ⟨rfl, Or.inl (Option.some.inj (hc.symm.trans h))⟩
  rcases ha : answer server (SIGCheckUpdate (some o)) with _ | text
  · exact hsame (otaRun_of_none hj ha)
  obtain ⟨v, hasks, rfl⟩ := (answer_request hV hc hfc).mp ha
  by_cases hv : v = V
  · rw [answerText, if_pos hv] at ha
    exact hsame (otaRun_of_updated hj ha)
  rw [answerText, if_neg hv] at ha
  have hrun : otaRun server (some o) none =
      OTAClient.ClientComm.msgParse (some o) (availableText (some V)) none :=
    otaRun_of_offer h0 hfa ha
  rcases hs : scriptOf (availableText (some V)) with _ | script
  · exact hsame (hrun.trans (msgParse_of_none hs none))
  by_cases hfit : script.length < OTAClient.ClientComm.MAXDATASIZE
  · rw [hrun, msgParse_of_some hs hfit] at h ⊢
    rcases hver : OTAClient.ClientComm.field "version" (availableText (some V)) with _ | w
    · rw [hver] at h
      exact ⟨rfl, Or.inl (Option.some.inj (hc.symm.trans h))⟩
    · rw [OTAClient.ClientComm.getVersion_setJsonValue hver] at h
      rw [Option.some.inj h] at hver
      exact ⟨getStreamId_setJsonValue w, Or.inr ⟨⟨v, hv, hasks⟩, canonical_of_field hj hver⟩⟩
  · -- the script does not fit, and the file can be anything
    have hwild : OTAClient.ClientComm.msgParse (some o) (availableText (some V)) none =
        (none, none) := by
      unfold OTAClient.ClientComm.msgParse
      rw [hs]
      exact if_neg hfit
    rw [hrun, hwild] at h
    cases h

variable {o : Obj}

theorem agrees_of_converges (hj : Prints canon)
    (hV : OTAServer.SrvrComm.getJsonValueFromFile server (lit "version") = some V)
    (hc : getVersion (some o) = some c)
    (hfc : (checkUpdateText (getStreamId (some o)) (some c)).length <
      OTAClient.ClientComm.MAXDATASIZE)
    (hfV : (checkUpdateText (getStreamId (some o)) (some V)).length <
      OTAClient.ClientComm.MAXDATASIZE)
    (hfa : (availableText (some V)).length < OTAClient.ClientComm.MAXDATASIZE)
    (h : Converges server (some o) V) : Agrees canon (getStreamId (some o)) c V := by
  obtain ⟨hid, hcase⟩ := otaRun_cases hj hV hc hfc hfa (h.stored none)
  refine ⟨?_, hcase⟩
  have hup := h.updated none
  rw [answer_request hV (h.stored none) (by rw [hid]; exact hfV), hid] at hup
  obtain ⟨v, hasks, htext⟩ := hup
  by_cases hv : v = V
  · rwa [hv] at hasks
  · rw [answerText, if_neg hv] at htext
    exact absurd htext.symm (formatted_ne V)

theorem converges_of_agrees (hj : Prints canon)
    (hV : OTAServer.SrvrComm.getJsonValueFromFile server (lit "version") = some V)
    (hc : getVersion (some o) = some c)
    (hfc : (checkUpdateText (getStreamId (some o)) (some c)).length <
      OTAClient.ClientComm.MAXDATASIZE)
    (hfV : (checkUpdateText (getStreamId (some o)) (some V)).length <
      OTAClient.ClientComm.MAXDATASIZE)
    (hfa : (availableText (some V)).length < OTAClient.ClientComm.MAXDATASIZE)
    (h : Agrees canon (getStreamId (some o)) c V) : Converges server (some o) V := by
  obtain ⟨hown, hcase⟩ := h
  -- a client with version `V` is told that it has the latest one
  have hsettled {file : OTAClient.ClientComm.StatusFile} (hid : getStreamId file =
      getStreamId (some o)) (hver : getVersion file = some V) :
      answer server (SIGCheckUpdate file) = some (formatted updatedText) := by
    refine (answer_request hV hver (by rw [hid]; exact hfV)).mpr ⟨V, by rw [hid]; exact hown, ?_⟩
    rw [answerText, if_pos rfl]
  suffices hrun : ∃ file, (∀ wild, (otaRun server (some o) wild).2 = file) ∧
      getStreamId file = getStreamId (some o) ∧ getVersion file = some V by
    obtain ⟨file, hfile, hid, hver⟩ := hrun
    have hup := hsettled hid hver
    refine ⟨fun wild => by rw [hfile, hver], fun wild => by rw [hfile, hup], fun wild wild' => ?_⟩
    rw [hfile, otaRun_of_updated hj hup]
  rcases hcase with rfl | ⟨⟨v, hv, hasks⟩, hcan⟩
  · exact ⟨some o, fun wild => by rw [otaRun_of_updated hj (hsettled rfl hc)], rfl, hc⟩
  · have h0 := notMem_version hV
    obtain ⟨hver, script, hscript, hfit⟩ := field_of_canonical hj hcan
    have ha : answer server (SIGCheckUpdate (some o)) =
        some (formatted (availableText (some V))) := by
      refine (answer_request hV hc hfc).mpr ⟨v, hasks, ?_⟩
      rw [answerText, if_neg hv]
    refine ⟨setJsonValue (some o) (lit "version") (some V), fun wild => ?_, ?_, ?_⟩
    · rw [otaRun_of_offer h0 hfa ha, msgParse_of_some hscript hfit, hver]
    · exact getStreamId_setJsonValue V
    · exact OTAClient.ClientComm.getVersion_add h0

/-- **When one run converges**: the server reads its version `V` back from a request, and the
client has stored `V`, or it asks for another version and `V` is the text that is printed for a
JSON value other than a string. A stream without a character to escape leaves this to the
versions: then `V` is plain. -/
theorem converges_iff (hj : Prints canon)
    (hV : OTAServer.SrvrComm.getJsonValueFromFile server (lit "version") = some V)
    (hc : getVersion (some o) = some c)
    (hfc : (checkUpdateText (getStreamId (some o)) (some c)).length <
      OTAClient.ClientComm.MAXDATASIZE)
    (hfV : (checkUpdateText (getStreamId (some o)) (some V)).length <
      OTAClient.ClientComm.MAXDATASIZE)
    (hfa : (availableText (some V)).length < OTAClient.ClientComm.MAXDATASIZE) :
    (Converges server (some o) V ↔ Agrees canon (getStreamId (some o)) c V) ∧
      (Plain (percentS (getStreamId (some o))) → Plain c →
        (Converges server (some o) V ↔ Plain V ∧ (c = V ∨ Canonical canon V))) := by
  have hiff : Converges server (some o) V ↔ Agrees canon (getStreamId (some o)) c V :=
    ⟨agrees_of_converges hj hV hc hfc hfV hfa, converges_of_agrees hj hV hc hfc hfV hfa⟩
  refine ⟨hiff, fun hid hplain => hiff.trans ⟨?_, ?_⟩⟩
  · rintro ⟨hown, hcase⟩
    exact ⟨plain_of_asks hj hid hown, hcase.imp id And.right⟩
  · rintro ⟨hown, hcase⟩
    refine ⟨asks_of_plain hj hid hown, ?_⟩
    by_cases heq : c = V
    · exact Or.inl heq
    · exact Or.inr ⟨⟨c, heq, asks_of_plain hj hid hplain⟩, hcase.resolve_left heq⟩

end Runs

/-! ### Versions -/

/-- A client whose version is 1. -/
def client1 : Obj := [(lit "streamId", .str (lit "a")), (lit "version", .str (lit "1"))]

/-- A server with the version `V`. -/
def serverOf (V : Bytes) : OTAServer.SrvrComm.StatusFile := some (some [(lit "version", .str V)])

/-- The requests of a client with a short version fit. -/
theorem length_request_le {c : Bytes} (h : c.length ≤ 5) :
    (checkUpdateText (getStreamId (some client1)) (some c)).length <
      OTAClient.ClientComm.MAXDATASIZE := by
  have hid : (percentS (getStreamId (some client1))).length = 1 := by decide
  have hmax : OTAClient.ClientComm.MAXDATASIZE = 255 := rfl
  rw [length_checkUpdateText, hid]
  omega

theorem length_offer_le {V : Bytes} (h : V.length ≤ 5) :
    (availableText (some V)).length < OTAClient.ClientComm.MAXDATASIZE := by
  have hmax : OTAClient.ClientComm.MAXDATASIZE = 255 := rfl
  rw [length_availableText]
  omega

/-- From version 1 to version 1.5, and not to version 1.50, if this is printed as 1.5. -/
theorem converges_iff_trim :
    @Converges (canonical trim) (serverOf (lit "1.5")) (some client1) (lit "1.5") ∧
      ¬ @Converges (canonical trim) (serverOf (lit "1.50")) (some client1) (lit "1.50") := by
  have hc : getVersion (some client1) = some (lit "1") := rfl
  constructor
  · have hV : OTAServer.SrvrComm.getJsonValueFromFile (serverOf (lit "1.5")) (lit "version") =
        some (lit "1.5") := rfl
    have hiff := (@converges_iff (canonical trim) _ _ _ _ _ canon_trim.prints hV hc
      (length_request_le (by decide)) (length_request_le (by decide))
      (length_offer_le (by decide))).2 (by decide) (by decide)
    exact hiff.mpr ⟨by decide, Or.inr ⟨.double (lit "1.5"), by rfl, by decide⟩⟩
  · have hV : OTAServer.SrvrComm.getJsonValueFromFile (serverOf (lit "1.50")) (lit "version") =
        some (lit "1.50") := rfl
    have hiff := (@converges_iff (canonical trim) _ _ _ _ _ canon_trim.prints hV hc
      (length_request_le (by decide)) (length_request_le (by decide))
      (length_offer_le (by decide))).2 (by decide) (by decide)
    intro h
    obtain ⟨-, heq | ⟨j, hread, hz⟩⟩ := hiff.mp h
    · exact absurd heq (by decide)
    · have hval : value (maxDepth - 1) (lit "1.50") = some (.double (lit "1.50"), []) := by rfl
      rw [hval] at hread
      cases hread
      exact absurd hz (by decide)

/-- **A dotted version never arrives**: the text of the offer is no JSON, and the use of the missing
status ends the client. -/
theorem dotted_never_converges :
    ¬ ∀ (server : OTAServer.SrvrComm.StatusFile) (o : Obj) (c V : Bytes),
      OTAServer.SrvrComm.getJsonValueFromFile server (lit "version") = some V →
      getVersion (some o) = some c →
      (checkUpdateText (getStreamId (some o)) (some c)).length <
        OTAClient.ClientComm.MAXDATASIZE →
      (checkUpdateText (getStreamId (some o)) (some V)).length <
        OTAClient.ClientComm.MAXDATASIZE →
      (availableText (some V)).length < OTAClient.ClientComm.MAXDATASIZE →
      Converges server (some o) V := by
  intro h
  have hconv := h (serverOf (lit "1.2.3")) client1 (lit "1") (lit "1.2.3") rfl rfl
    (length_request_le (by decide)) (length_request_le (by decide)) (length_offer_le (by decide))
  obtain ⟨-, hcase⟩ := agrees_of_converges prints_strict (c := lit "1") rfl rfl
    (length_request_le (by decide)) (length_request_le (by decide)) (length_offer_le (by decide))
    hconv
  rcases hcase with heq | ⟨-, j, hread, hz⟩
  · exact absurd heq (by decide)
  · have hval : value (maxDepth - 1) (lit "1.2.3") = some (.double (lit "1.2"), lit ".3") := by rfl
    rw [hval] at hread
    cases hread

end LiveStreamer.Protocol.Update
