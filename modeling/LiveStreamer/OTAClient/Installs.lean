import LiveStreamer.Lib.Run
import LiveStreamer.OTAClient.ClientComm

/-! # The version of a client over many runs

A run of OTAClient meets a reply and a script whose steps succeed or fail. `installed` keeps the
version that was announced with the last package of which every step has succeeded.

The client stores the announced version whether the script succeeds or not. So the stored version
is the initial one or the installed one in the runs in which every script that is started installs
a package with a version, or fails for the version that is already stored
(`recorded_of_sound`). One failed download is enough to break this (`failure_advances_version`). -/

namespace LiveStreamer.OTAClient.Installs

open LiveStreamer.Lib.CString LiveStreamer.Lib.Run LiveStreamer.Lib.Tokener
open LiveStreamer.OTAClient.ClientComm

/-! ### The runs of a client -/

/-- How the steps of the script end. The shell goes on after a step that fails. -/
structure Script where
  shell : Bool
  download : Bool
  unpack : Bool
  updateSh : Bool

/-- The package is installed. -/
def Script.Succeeds (x : Script) : Prop :=
  x.shell = true ∧ x.download = true ∧ x.unpack = true ∧ x.updateSh = true

instance (x : Script) : Decidable x.Succeeds := inferInstanceAs (Decidable (_ ∧ _))

/-- What a run of the client meets. -/
structure Attempt where
  /-- What `recv` returns; nothing if an error ends the run before. -/
  reply : Option Bytes
  script : Script
  /-- The file after a script that does not fit its buffer. -/
  wild : StatusFile

structure Device where
  file : StatusFile
  /-- What was announced as the version of the last package that was installed. -/
  installed : Option (Option Bytes)

section Client
variable [JsonC]

/-- The device after a run of the client. -/
def clientRun (d : Device) (r : Attempt) : Device :=
  match r.reply with
  | some data =>
    { file := (receive d.file data r.wild).2
      installed :=
        if (receive d.file data r.wild).1.isSome ∧ r.script.Succeeds then
          some (field "version" (receiveData data))
        else d.installed }
  | none => d

/-- The device after some runs. -/
def after (d : Device) (rs : List Attempt) : Device := rs.foldl clientRun d

def step (d : Device) (r : Attempt) : Option Device := some (clientRun d r)

/-- The stored version is the one before the runs, or the one of the last package installed. -/
def Recorded (d₀ d : Device) : Prop :=
  getVersion d.file = getVersion d₀.file ∨ d.installed = some (getVersion d.file)

/-- A script that the reply leads to fits its buffer; it is carried out and a version is announced
with it, or the version that is announced is stored already, or none is announced and it is not
carried out. -/
def Sound (d : Device) (r : Attempt) : Prop :=
  ∀ data ∈ r.reply, ∀ script ∈ scriptOf (receiveData data), script.length < MAXDATASIZE ∧
    if r.script.Succeeds then field "version" (receiveData data) ≠ none
    else field "version" (receiveData data) = none ∨
      field "version" (receiveData data) = getVersion d.file

instance (d : Device) (r : Attempt) : Decidable (Sound d r) :=
  inferInstanceAs (Decidable (∀ data ∈ _, ∀ script ∈ _, _ ∧ _))

section Runs
variable {d d₀ : Device} {r : Attempt}

theorem run_step (d : Device) (rs : List Attempt) : run step d rs = some (after d rs) := by
  induction rs generalizing d with
  | nil => rfl
  | cons r rs ih => exact ih (clientRun d r)

/-- A reply that leads to no script changes nothing. -/
theorem clientRun_of_none {data : Bytes} (hr : r.reply = some data)
    (h : scriptOf (receiveData data) = none) : clientRun d r = d := by
  unfold clientRun
  rw [hr]
  simp only [receive, msgParse_of_none h, Option.isSome_none, Bool.false_eq_true, false_and,
    if_false]

/-- A script that fits its buffer. -/
theorem clientRun_of_some {data script : Bytes} (hr : r.reply = some data)
    (h : scriptOf (receiveData data) = some script) (hf : script.length < MAXDATASIZE) :
    clientRun d r =
      { file := setJsonValue d.file (lit "version") (field "version" (receiveData data))
        installed :=
          if r.script.Succeeds then some (field "version" (receiveData data))
          else d.installed } := by
  unfold clientRun
  rw [hr]
  simp only [receive, msgParse_of_some h hf, Option.isSome_some, true_and]

/-- A script that fails leaves the version that is stored. -/
theorem getVersion_of_failed (h : Sound d r) (hs : ¬ r.script.Succeeds) :
    getVersion (clientRun d r).file = getVersion d.file := by
  rcases hr : r.reply with _ | data
  · rw [clientRun, hr]
  rcases ha : scriptOf (receiveData data) with _ | script
  · rw [clientRun_of_none hr ha]
  · obtain ⟨hf, hv⟩ := h data hr script ha
    rw [if_neg hs] at hv
    rw [clientRun_of_some hr ha hf]
    rcases hobj : d.file with _ | tempJson
    · rfl
    · rcases hver : field "version" (receiveData data) with _ | v
      · rfl
      · have hstored : some v = getVersion (some tempJson) := by
          rw [hver, hobj] at hv
          exact hv.resolve_left (Option.some_ne_none v)
        rw [← hstored]
        exact getVersion_add (notMem_field hver)

/-- **The invariant**: the version is recorded, and there is an object in the file if there was
one. -/
structure Inv (d₀ d : Device) : Prop where
  recorded : Recorded d₀ d
  object : d.file = none → d₀.file = none

theorem inv_clientRun (h : Inv d₀ d) (hs : Sound d r) : Inv d₀ (clientRun d r) := by
  rcases hr : r.reply with _ | data
  · rw [clientRun, hr]
    exact h
  rcases ha : scriptOf (receiveData data) with _ | script
  · rw [clientRun_of_none hr ha]
    exact h
  · obtain ⟨hf, hv⟩ := hs data hr script ha
    have heq := clientRun_of_some (d := d) hr ha hf
    constructor
    · by_cases hi : r.script.Succeeds
      · rw [if_pos hi] at hv
        obtain ⟨v, hver⟩ := Option.ne_none_iff_exists'.mp hv
        rw [heq, if_pos hi]
        rcases hobj : d.file with _ | tempJson
        · -- nothing can be stored, as at the start
          left
          rw [h.object hobj]
          rfl
        · right
          show some _ = some (getVersion (setJsonValue _ _ _))
          rw [getVersion_setJsonValue hver, hver]
      · have hsame := getVersion_of_failed hs hi
        have hinst : (clientRun d r).installed = d.installed := by rw [heq, if_neg hi]
        unfold Recorded
        rw [hsame, hinst]
        exact h.recorded
    · intro hnone
      rw [heq] at hnone
      exact h.object (setJsonValue_eq_none.mp hnone)

/-- **The stored version is the installed one** in every run in which every script that is started
installs a package with a version, or fails for the version that is stored already. And then no
script that fails changes the version. -/
theorem recorded_of_sound {rs : List Attempt} (hm : Meets step Sound d rs) :
    (∀ rs₁, rs₁ <+: rs → Recorded d (after d rs₁)) ∧
    ∀ rs₁ r, rs₁ ++ [r] <+: rs → ¬ r.script.Succeeds →
      getVersion (after d (rs₁ ++ [r])).file = getVersion (after d rs₁).file := by
  have hstep (d₁ : Device) (r : Attempt) (d₂ : Device) (h : Inv d d₁) (hs : Sound d₁ r)
      (he : step d₁ r = some d₂) : Inv d d₂ := by
    cases he
    exact inv_clientRun h hs
  constructor
  · rintro rs₁ ⟨rs₂, rfl⟩
    have hinv := hm.of_append.1.inv hstep ⟨Or.inl rfl, id⟩ (run_step d rs₁)
    exact hinv.recorded
  · rintro rs₁ r ⟨rs₂, rfl⟩ hs
    rw [List.append_assoc] at hm
    have hsound : Sound (after d rs₁) r := (hm.of_append.2 _ (run_step d rs₁)).1
    have hlast : after d (rs₁ ++ [r]) = clientRun (after d rs₁) r := by
      simp [after]
    rw [hlast]
    exact getVersion_of_failed hsound hs

end Runs

end Client

/-! ### An update whose download fails -/

/-- A client with version 1. -/
def device1 : Device := ⟨some [(lit "version", .str (lit "1"))], none⟩

/-- The offer of version 2. -/
def offer2 : Bytes :=
  lit "\x7b \"status\" : \"available\"," ++
    lit "\"addr\" : \"http://103.226.217.136/UpdatePackage.tar.xz\"" ++
    lit ",\"package\" : \"UpdatePackage.tar.xz\",\"version\" : 2 \x7d\n"

/-- The offer as it is received. -/
theorem field_offer2 : field "version" (receiveData offer2) = some (lit "2") ∧
    ∃ script, scriptOf (receiveData offer2) = some script ∧ script.length < MAXDATASIZE := by
  refine ⟨by decide +kernel, commandOf (receiveData offer2), ?_, by decide +kernel⟩
  exact scriptOf_eq_some.mpr ⟨⟨by decide +kernel, by decide +kernel⟩, rfl⟩

/-- The offer is carried out whether its script succeeds or not. -/
theorem clientRun_offer2 (d : Device) (x : Script) (wild : StatusFile) :
    clientRun d ⟨some offer2, x, wild⟩ =
      { file := setJsonValue d.file (lit "version") (some (lit "2"))
        installed := if x.Succeeds then some (some (lit "2")) else d.installed } := by
  obtain ⟨hversion, script, hscript, hfits⟩ := field_offer2
  rw [clientRun_of_some rfl hscript hfits, hversion]

theorem recorded_of_sound_offer2 :
    let rs := [⟨none, ⟨true, true, true, true⟩, none⟩,
      ⟨some offer2, ⟨true, true, true, true⟩, none⟩,
      ⟨some offer2, ⟨true, false, false, false⟩, none⟩]
    (∀ rs₁, rs₁ <+: rs → Recorded device1 (after device1 rs₁)) ∧
    ∀ rs₁ r, rs₁ ++ [r] <+: rs → ¬ r.script.Succeeds →
      getVersion (after device1 (rs₁ ++ [r])).file = getVersion (after device1 rs₁).file :=
  recorded_of_sound (by decide +kernel)

/-- **A failed download advances the version**: the client stores a version that was never
installed. -/
theorem failure_advances_version :
    ¬ ∀ (d : Device) (rs : List Attempt),
      Recorded d (after d rs) ∧ ∀ r, ¬ r.script.Succeeds →
        getVersion (after d (rs ++ [r])).file = getVersion (after d rs).file := by
  intro h
  have hrec := (h device1 [⟨some offer2, ⟨true, false, false, false⟩, none⟩]).1
  have hrun : after device1 [⟨some offer2, ⟨true, false, false, false⟩, none⟩] =
      ⟨setJsonValue device1.file (lit "version") (some (lit "2")), none⟩ :=
    clientRun_offer2 device1 ⟨true, false, false, false⟩ none
  have hver : getVersion (setJsonValue device1.file (lit "version") (some (lit "2"))) =
      some (lit "2") := getVersion_add (by decide)
  rw [hrun] at hrec
  rcases hrec with hrec | hrec
  · rw [hver] at hrec
    exact absurd hrec (by decide)
  · cases hrec

end LiveStreamer.OTAClient.Installs
