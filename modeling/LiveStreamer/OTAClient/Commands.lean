import LiveStreamer.Lib.JsonSize
import LiveStreamer.OTAClient.ClientComm

/-! # The length of the update command (`clientComm.c`)

`msgParse` writes the script into `tempBuff` with `sprintf`, which does not look at the size of the
buffer. The script has 89 bytes of its own, the address once and the package twice. So it fits if
and only if the address and twice the package have at most 165 bytes, or there is no package and
the client does not come to the `sprintf` (`command_fits_iff`).

How long the fields can be follows from the length of the reply, if they are strings: these are read
from different members. So every reply of at most 114 bytes gives a script that fits. Longer replies
need not: `fieldsFit_offerOf` says how an offer may split its bytes between the two, and
`long_package_overflows` is one that does not fit. Of other values than strings the library may
print more than their text, and so a shorter reply need not fit either. -/

namespace LiveStreamer.OTAClient.Commands

open LiveStreamer.Lib.CString LiveStreamer.Lib.Tokener LiveStreamer.Lib.JsonText
open LiveStreamer.Lib.JsonSize LiveStreamer.OTAClient.ClientComm

/-! ### The fields of a reply -/

section Fields
variable [JsonC]

/-- What the `sprintf` writes stays inside of the buffer. -/
def CommandFits (msg : Bytes) : Prop :=
  ∀ script ∈ scriptOf msg, script.length ≤ MAXDATASIZE - 1

/-- The bytes that `%s` prints for a field. -/
def fieldLength (jKey : String) (msg : Bytes) : ℕ := (percentS (field jKey msg)).length

/-- The address and twice the package are short enough for the buffer. -/
def FieldsFit (msg : Bytes) : Prop := fieldLength "addr" msg + 2 * fieldLength "package" msg ≤ 165

instance (msg : Bytes) : Decidable (FieldsFit msg) := inferInstanceAs (Decidable (_ ≤ _))

/-- The value of a field. -/
def member (jKey : String) (msg : Bytes) : Option Json :=
  match JsonC.parse msg with
  | some (.obj o) => getEx o (lit jKey)
  | _ => none

/-- The field is a string, if there is one. -/
def Textual (jKey : String) (msg : Bytes) : Prop := ∀ j ∈ member jKey msg, ∃ s, j = .str s

variable {msg : Bytes} {jKey : String}

theorem field_eq (jKey : String) (msg : Bytes) :
    field jKey msg = (member jKey msg).bind getString := by
  unfold field getJsonValueFromObj member
  rcases JsonC.parse msg with _ | j
  · rfl
  · cases j <;> rfl

theorem fits_iff (msg : Bytes) : (commandOf msg).length ≤ MAXDATASIZE - 1 ↔ FieldsFit msg := by
  have hlen : (commandOf msg).length =
      89 + fieldLength "addr" msg + 2 * fieldLength "package" msg :=
    length_updateCommand _ _
  have hsize : MAXDATASIZE - 1 = 254 := rfl
  unfold FieldsFit
  omega

theorem commandFits_iff (h : field "status" msg = some (lit "available")) :
    CommandFits msg ↔ field "package" msg = none ∨ FieldsFit msg := by
  rw [← fits_iff]
  constructor
  · intro hfit
    by_cases hp : field "package" msg = none
    · exact Or.inl hp
    · exact Or.inr (hfit _ (scriptOf_eq_some.mpr ⟨⟨h, hp⟩, rfl⟩))
  · rintro hfit script hscript
    obtain ⟨⟨-, hp⟩, rfl⟩ := scriptOf_eq_some.mp hscript
    exact hfit.resolve_left hp

/-! ### Short replies -/

/-- The text that a field takes; none if it is missing. -/
def taken (jKey : String) (msg : Bytes) : ℕ := (member jKey msg).elim 0 (memberSize (lit jKey))

/-- A string and its text. -/
theorem fieldLength_le (ht : Textual jKey msg) : (taken jKey msg = 0 ∧ fieldLength jKey msg = 6) ∨
    (lit jKey).length + fieldLength jKey msg + 6 ≤ taken jKey msg := by
  unfold fieldLength taken
  rw [field_eq]
  rcases hm : member jKey msg with _ | j
  · exact Or.inl ⟨rfl, rfl⟩
  · obtain ⟨s, rfl⟩ := ht j hm
    have hcut : (cstr s).length ≤ s.length := (List.takeWhile_prefix _).length_le
    right
    show (lit jKey).length + (cstr s).length + 6 ≤ (lit jKey).length + s.length + 6
    omega

/-- **The fields of an offer are paid for by its text**: 22 bytes are for the braces and the
status. -/
theorem taken_le (heco : Economical) (h : field "status" msg = some (lit "available"))
    (ht : Textual "status" msg) : 22 + taken "addr" msg + taken "package" msg ≤ msg.length := by
  have hstatus : 21 ≤ taken "status" msg := by
    have hlen : fieldLength "status" msg = 9 := by
      unfold fieldLength
      rw [h]
      rfl
    have h6 : (lit "status").length = 6 := rfl
    rcases fieldLength_le ht with ⟨-, hnone⟩ | hle <;> omega
  have h0 : ¬ 21 ≤ 0 := by decide
  unfold taken member at *
  rcases hp : JsonC.parse msg with _ | j
  · rw [hp] at hstatus
    exact absurd hstatus h0
  · rw [hp] at hstatus
    cases j with
    | obj o =>
      have hsize := heco hp
      obtain ⟨o₁, hw₁, hget₁⟩ := weigh_lookup memberSize o (lit "status")
      obtain ⟨o₂, hw₂, hget₂⟩ := weigh_lookup memberSize o₁ (lit "addr")
      obtain ⟨o₃, hw₃, -⟩ := weigh_lookup memberSize o₂ (lit "package")
      rw [hget₂ _ (by decide), hget₁ _ (by decide)] at hw₃
      rw [hget₁ _ (by decide)] at hw₂
      dsimp only at hstatus ⊢
      omega
    | _ => exact absurd hstatus h0

/-- **A short offer fits**, if its fields are strings. -/
theorem fieldsFit_of_short (heco : Economical)
    (h : field "status" msg = some (lit "available")) (ht : Textual "status" msg)
    (hta : Textual "addr" msg) (htp : Textual "package" msg) (hlen : msg.length ≤ 114) :
    FieldsFit msg := by
  have hsum := taken_le heco h ht
  have h4 : (lit "addr").length = 4 := rfl
  have h7 : (lit "package").length = 7 := rfl
  unfold FieldsFit
  rcases fieldLength_le hta with ⟨ha, hal⟩ | ha <;>
    rcases fieldLength_le htp with ⟨hp, hpl⟩ | hp <;> omega

/-! ### The command fits its buffer -/

omit [JsonC] in
theorem length_receiveData_le (data : Bytes) : (receiveData data).length ≤ data.length := by
  have hcut : (receiveData data).length ≤ (data.take (MAXDATASIZE - 1)).length :=
    (List.takeWhile_prefix _).length_le
  exact hcut.trans (List.length_take_le' _ _)

/-- **When the command fits**: the address and twice the package have at most 165 bytes, or there is
no package. They have if the reply has at most 114 bytes and its fields are strings. -/
theorem command_fits_iff {data : Bytes}
    (h : field "status" (receiveData data) = some (lit "available")) :
    (CommandFits (receiveData data) ↔
      field "package" (receiveData data) = none ∨ FieldsFit (receiveData data)) ∧
    (Economical → (∀ jKey ∈ ["status", "addr", "package"], Textual jKey (receiveData data)) →
      data.length ≤ 114 → CommandFits (receiveData data)) := by
  have hiff := commandFits_iff h
  refine ⟨hiff, fun heco ht hlen => hiff.mpr (Or.inr ?_)⟩
  exact fieldsFit_of_short heco h (ht _ (by simp)) (ht _ (by simp)) (ht _ (by simp))
    ((length_receiveData_le data).trans hlen)

end Fields

/-! ### Offers with strings -/

/-- An offer whose address and package are pasted between quotes. -/
def offerOf (addr package : Bytes) : Bytes :=
  0x7b :: memberText [] (lit "status") (lit "available")
    (0x2c :: memberText [] (lit "addr") addr (0x2c :: memberText [] (lit "package") package [0x7d]))

section Offer
variable {addr package : Bytes}

theorem length_offerOf (addr package : Bytes) :
    (offerOf addr package).length = addr.length + package.length + 45 := by
  have h6 : (lit "status").length = 6 := rfl
  have h9 : (lit "available").length = 9 := rfl
  have h4 : (lit "addr").length = 4 := rfl
  have h7 : (lit "package").length = 7 := rfl
  simp only [offerOf, memberText, List.length_append, List.length_cons, List.length_nil, h6, h9,
    h4, h7]
  omega

theorem parse_offerOf (ha : Plain addr) (hp : Plain package) :
    JsonC.parse (offerOf addr package) = some (.obj [(lit "status", .str (lit "available")),
      (lit "addr", .str addr), (lit "package", .str package)]) := by
  have hl : ∀ p ∈ [(lit "addr", addr)], Plain p.1 ∧ Plain p.2 := by
    intro p hp
    rw [List.mem_singleton.mp hp]
    exact ⟨(by decide : Plain (lit "addr")), ha⟩
  obtain ⟨n, hn, hread⟩ := value_strMembers 30 blank_nil blank_nil (k := lit "status")
    (v := lit "available") (by decide) (by decide) hl (memberText [] (lit "package") package [0x7d])
  obtain ⟨n, rfl⟩ : ∃ m, n = m + 1 := by
    rw [memberText, List.length_cons] at hn
    exact ⟨n - 1, by omega⟩
  have hlast := members_str 30 n (addStrs [] [(lit "status", lit "available"), (lit "addr", addr)])
    blank_nil blank_nil (k := lit "package") (by decide) hp [0x7d]
  rw [List.nil_append] at hlast
  rw [hlast] at hread
  show (value (30 + 2) _).map Prod.fst = _
  exact congrArg (Option.map Prod.fst) hread

theorem fields_offerOf (ha : Plain addr) (hp : Plain package) :
    field "status" (offerOf addr package) = some (lit "available") ∧
      field "addr" (offerOf addr package) = some addr ∧
      field "package" (offerOf addr package) = some package := by
  unfold field
  rw [parse_offerOf ha hp]
  exact ⟨rfl, getString_str ha.notMem_zero, getString_str hp.notMem_zero⟩

theorem textual_offerOf (ha : Plain addr) (hp : Plain package) {jKey : String}
    (hk : jKey ∈ ["status", "addr", "package"]) : Textual jKey (offerOf addr package) := by
  intro j hj
  rw [member, parse_offerOf ha hp] at hj
  simp only [List.mem_cons, List.not_mem_nil, or_false] at hk
  rcases hk with rfl | rfl | rfl
  · exact ⟨_, (Option.some.inj hj).symm⟩
  · exact ⟨_, (Option.some.inj hj).symm⟩
  · exact ⟨_, (Option.some.inj hj).symm⟩

/-- A reply that is not cut is received as it is. -/
theorem receiveData_offerOf (ha : Plain addr) (hp : Plain package)
    (h : addr.length + package.length ≤ 209) :
    receiveData (offerOf addr package) = offerOf addr package := by
  have hlen := length_offerOf addr package
  have hsize : MAXDATASIZE - 1 = 254 := rfl
  have h0 : (0 : UInt8) ∉ offerOf addr package := by
    have ha0 := ha.notMem_zero
    have hp0 := hp.notMem_zero
    have h1 : (0 : UInt8) ∉ lit "status" := by decide
    have h2 : (0 : UInt8) ∉ lit "available" := by decide
    have h3 : (0 : UInt8) ∉ lit "addr" := by decide
    have h4 : (0 : UInt8) ∉ lit "package" := by decide
    simp [offerOf, memberText, ha0, hp0, h1, h2, h3, h4]
  rw [receiveData, List.take_of_length_le (by omega), cstr_of_notMem h0]

theorem status_received (ha : Plain addr) (hp : Plain package)
    (h : addr.length + package.length ≤ 209) :
    field "status" (receiveData (offerOf addr package)) = some (lit "available") := by
  rw [receiveData_offerOf ha hp h]
  exact (fields_offerOf ha hp).1

/-- **How an offer may split its bytes** between the address and the package. -/
theorem fieldsFit_offerOf (ha : Plain addr) (hp : Plain package) :
    FieldsFit (offerOf addr package) ↔ addr.length + 2 * package.length ≤ 165 := by
  obtain ⟨-, haddr, hpackage⟩ := fields_offerOf ha hp
  unfold FieldsFit fieldLength
  rw [haddr, hpackage]
  exact Iff.rfl

end Offer

/-- The address of the server's own offer. -/
def serverAddr : Bytes := lit "http://103.226.217.136/UpdatePackage.tar.xz"

theorem plain_serverAddr : Plain serverAddr := by decide

/-- The server's own offer is short enough to fit, and its address leaves room for a package of 61
bytes. -/
theorem command_fits_iff_server :
    CommandFits (receiveData (offerOf serverAddr (lit "UpdatePackage.tar.xz"))) ∧
      CommandFits (receiveData (offerOf serverAddr (List.replicate 61 0x61))) := by
  constructor
  · have hp : Plain (lit "UpdatePackage.tar.xz") := by decide
    refine (command_fits_iff (status_received plain_serverAddr hp (by decide))).2 economical_strict
      (fun jKey hk => ?_) ?_
    · rw [receiveData_offerOf plain_serverAddr hp (by decide)]
      exact textual_offerOf plain_serverAddr hp hk
    · rw [length_offerOf]
      decide
  · have hp : Plain (List.replicate 61 (0x61 : UInt8)) := by decide
    refine (command_fits_iff (status_received plain_serverAddr hp (by decide))).1.mpr (Or.inr ?_)
    rw [receiveData_offerOf plain_serverAddr hp (by decide)]
    exact (fieldsFit_offerOf plain_serverAddr hp).mpr (by decide)

/-- **A long package overflows the buffer**: at the address of the server it has room for 61
bytes. -/
theorem long_package_overflows :
    ¬ ∀ data : Bytes, data.length ≤ 254 →
      field "status" (receiveData data) = some (lit "available") →
      CommandFits (receiveData data) := by
  intro h
  have hp : Plain (List.replicate 62 0x61) := by decide
  have hlen : (offerOf serverAddr (List.replicate 62 0x61)).length ≤ 254 := by
    rw [length_offerOf]
    decide
  obtain ⟨hstatus, -, hpackage⟩ := fields_offerOf plain_serverAddr hp
  have hfits := h _ hlen
  rw [receiveData_offerOf plain_serverAddr hp (by decide)] at hfits
  rcases (commandFits_iff hstatus).mp (hfits hstatus) with hnone | hfit
  · rw [hpackage] at hnone
    cases hnone
  · rw [fieldsFit_offerOf plain_serverAddr hp] at hfit
    exact absurd hfit (by decide)

/-- Without an address 115 bytes can be too many. -/
example : ¬ FieldsFit (lit "\x7b\"status\":\"available\",\"package\":\"" ++
    List.replicate 80 0x61 ++ lit "\"\x7d") := by decide +kernel

/-- A value that is no string is printed with blanks and escapes: here 74 bytes are too many. -/
example : ¬ FieldsFit (lit "\x7b\"status\":\"available\",\"package\":[\"" ++
    List.replicate 37 0x2f ++ lit "\"]\x7d") := by decide +kernel

end LiveStreamer.OTAClient.Commands
