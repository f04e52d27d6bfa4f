import LiveStreamer.Lib.JsonPlain
import LiveStreamer.Lib.Threads
import LiveStreamer.StreamerServer.Main

/-! # The records as files of bytes (`srvrJson.c`, `main.c`)

Here a file holds bytes. `json_object_from_file` parses what is there, and `json_object_to_file`
truncates the file and then writes the plain text of the object over whatever it holds by then:
another thread may have written in between, so the end of a longer text can be left behind it. An
open or a read may fail, and a write may stop where the file would have to grow.

Any number of threads work on any records, one file operation at a time, and the process may end
and be started anew. Over the bytes and over the record files of `SrvrJson`, where a file holds an
object or nothing that can be read, they get the same answers (`disk_refines`): the text of an
object is read as the object whatever is left behind it, and a part of it is not read at all. In
every file that can be read all three fields are there, each with a value that some request has
given it (`fields_given`). -/

namespace LiveStreamer.StreamerServer.Disk

open LiveStreamer.Lib.CString LiveStreamer.Lib.PathName LiveStreamer.Lib.Program
open LiveStreamer.Lib.Program.Prog LiveStreamer.Lib.Run LiveStreamer.Lib.Tokener
open LiveStreamer.Lib.JsonPlain LiveStreamer.Lib.JsonPrint LiveStreamer.Lib.Threads
open LiveStreamer.Lib.Simulation
open LiveStreamer.StreamerServer.SrvrJson LiveStreamer.StreamerServer.Main

/-! ### Requests -/

/-- The fields of a record. -/
inductive Field where
  | streamId
  | status
  | action
  deriving DecidableEq

def Field.key : Field → Bytes
  | .streamId => lit "streamId"
  | .status => lit "status"
  | .action => lit "action"

/-- What the threads of devices and players and the sweep ask for. -/
inductive Req where
  | set (jKey : Field) (value file : Option Bytes)
  | get (jKey : Field) (file : Option Bytes)
  | sweep

/-- The program of a request, and what it answers. -/
def Req.prog : Req → FileProg (Option Bytes)
  | .set jKey value file => do
    setJsonValue jKey.key value file
    ret none
  | .get jKey file => getJsonValueFromFile jKey.key file
  | .sweep => do
    trigger
    ret none

/-- The file that a request is about. -/
def Req.file : Req → Option (Option Bytes)
  | .set _ _ file => some file
  | .get _ file => some file
  | .sweep => none

/-! ### Files of bytes -/

/-- The files, each with its text. -/
abbrev Texts := AList fun _ : Path => Bytes

/-- How a file operation fares: whether the file can be opened and read, and the length up to which
it can be written, if there is a limit. -/
structure Env where
  opens : Bool
  room : Option ℕ
  deriving DecidableEq

/-- Nothing fails. -/
def Env.fine : Env := ⟨true, none⟩

/-- A text written over another one. What is there can be written over; to grow, the file needs
room. -/
def overwrite (room : Option ℕ) (old new : Bytes) : Bytes :=
  (room.elim new fun n => new.take (max old.length n)) ++ old.drop new.length

/-- `json_object_from_file`, as far as objects go. -/
def objOf (text : Bytes) : Option Obj :=
  match tokenerParse text with
  | some (.obj o) => some o
  | _ => none

/-- The entries of a directory of files with these names. -/
def listing (dir : Path) (names : List Path) : List (Bytes × Bool) :=
  (lit ".", true) :: (lit "..", true) :: (names.filterMap (entryOf dir)).map fun n => (n, false)

section Sem
variable (cwd : Path)

/-- The file operations over bytes. -/
def diskSem (e : Env) : Sem FileOp FileRet Texts
  | .fromFile fn, d => (some (if e.opens then (d.lookup (resolve cwd fn)).bind objOf else none), d)
  | .openTrunc fn, d => (some e.opens, if e.opens then d.insert (resolve cwd fn) [] else d)
  | .writeAll fn o, d =>
    (some (), d.insert (resolve cwd fn)
      (overwrite e.room ((d.lookup (resolve cwd fn)).getD []) (printPlain (.obj o))))
  | .listDir dir, d => (some (if e.opens then some (listing (resolve cwd dir) d.keys) else none), d)

/-- How a file operation fares, as the records have it: whether the file can be opened and read,
and whether the whole text is written. -/
structure Fate where
  opens : Bool
  whole : Bool

def Fate.fine : Fate := ⟨true, true⟩

/-- The file operations over records. -/
def recordSem (f : Fate) : Sem FileOp FileRet Fs
  | .fromFile fn, fs => (some (if f.opens then objAt cwd fs fn else none), fs)
  | .openTrunc fn, fs => (some f.opens, if f.opens then fs.insert (resolve cwd fn) .bad else fs)
  | .writeAll fn o, fs => (some (), fs.insert (resolve cwd fn) (if f.whole then .obj o else .bad))
  | .listDir dir, fs => (some (if f.opens then some (entries (resolve cwd dir) fs) else none), fs)

/-- When nothing fails, these are the operations of `SrvrJson`. -/
theorem recordSem_fine : recordSem cwd .fine = fileSem cwd := by
  funext o fs
  cases o <;> rfl

end Sem

/-! ### What a write leaves -/

/-- The whole text is written. -/
def fits (room : Option ℕ) (old new : Bytes) : Bool :=
  room.all fun n => new.length ≤ max old.length n

/-- **A text that is written is read as its object, or not at all.** -/
theorem objOf_overwrite {o : Obj} (h : Flat o) (room : Option ℕ) (old : Bytes) :
    objOf (overwrite room old (printPlain (.obj o))) =
      if fits room old (printPlain (.obj o)) then some o else none := by
  have hwhole (x : Bytes) : objOf (printPlain (.obj o) ++ x) = some o := by
    rw [objOf, tokenerParse_plain h]
  rcases room with _ | n
  · rw [overwrite, Option.elim_none, hwhole]
    rfl
  by_cases hn : (printPlain (.obj o)).length ≤ max old.length n
  · have hfits : fits (some n) old (printPlain (.obj o)) = true := decide_eq_true hn
    rw [overwrite, Option.elim_some, List.take_of_length_le hn, hwhole, hfits, if_pos rfl]
  · have hfits : fits (some n) old (printPlain (.obj o)) = false := decide_eq_false hn
    -- nothing of the old text is left, and the brace is missing
    have hdrop : old.drop (printPlain (.obj o)).length = [] :=
      List.drop_eq_nil_of_le (by omega)
    have htorn : tokenerParse ((printPlain (.obj o)).take (max old.length n)) = none := by
      refine tokenerParse_torn h.strs (List.take_append_drop (max old.length n) _) fun hnil => ?_
      have hlen := congrArg List.length hnil
      rw [List.length_drop, List.length_nil] at hlen
      omega
    rw [overwrite, Option.elim_some, hdrop, List.append_nil, objOf, htorn, hfits]
    rfl

theorem objOf_nil : objOf [] = none := rfl

/-! ### The values of the fields -/

section Given
variable (cwd : Path) (R : Req → Prop)

/-- The value that a field of the record at `p` has been given: by a request among `R`, as a
default of a stream that one of them names, or by the sweep. -/
def Given (p : Path) (f : Field) (v : Bytes) : Prop :=
  (∃ file, R (.set f (some v) file) ∧ resolve cwd (jsonFileWithAddr file) = p) ∨
    (∃ req s, R req ∧ req.file = some (some s) ∧ recordPath cwd s = p ∧
      getEx (defaults s) f.key = some (.str v)) ∨
    f = .status ∧ v = lit "off"

/-- A record with all its fields, each given. -/
structure Good (p : Path) (o : Obj) : Prop where
  flat : Flat o
  given : ∀ f : Field, ∃ v, getEx o f.key = some (.str v) ∧ Given cwd R p f v

/-- A write stores a good record. -/
def Writes : FileOp → Prop
  | .writeAll fn o => Good cwd R (resolve cwd fn) o
  | _ => True

/-- A read finds a good record, or none. -/
def Finds : (o : FileOp) → FileRet o → Prop
  | .fromFile fn, r => ∀ o, r = some o → Good cwd R (resolve cwd fn) o
  | .openTrunc _, _ => True
  | .writeAll _ _, _ => True
  | .listDir _, _ => True

end Given

section Guarantees
variable {cwd : Path} {R : Req → Prop} {p : Path} {o : Obj}

theorem notMem_zero_key (f : Field) : (0 : UInt8) ∉ f.key := by
  cases f <;> decide

theorem key_inj {f g : Field} (h : f.key = g.key) : f = g := by
  cases f <;> cases g <;> first | rfl | exact absurd h (by decide)

/-- A record with one field set. -/
theorem Good.add (h : Good cwd R p o) {f : Field} {v : Bytes} (hv : Given cwd R p f v) :
    Good cwd R p (add o f.key (.str v)) := by
  refine ⟨h.flat.add (notMem_zero_key f) v, fun g => ?_⟩
  by_cases hg : f = g
  · subst hg
    exact ⟨v, getEx_add_self o _ _, hv⟩
  · rw [getEx_add_ne o _ fun he => hg (key_inj he)]
    exact h.given g

theorem flat_defaults (s : Bytes) : Flat (defaults s) := by
  refine ⟨⟨?_, fun q hq => ?_⟩, fun q hq => ?_⟩
  · show [lit "streamId", lit "status", lit "action"].Nodup
    decide
  · simp only [defaults, List.mem_cons, List.not_mem_nil, or_false] at hq
    rcases hq with rfl | rfl | rfl
    · exact notMem_zero_key .streamId
    · exact notMem_zero_key .status
    · exact notMem_zero_key .action
  · simp only [defaults, List.mem_cons, List.not_mem_nil, or_false] at hq
    rcases hq with rfl | rfl | rfl
    · exact ⟨s, rfl⟩
    · exact ⟨_, rfl⟩
    · exact ⟨_, rfl⟩

/-- A new record. -/
theorem good_defaults {req : Req} {s : Bytes} (hR : R req) (hf : req.file = some (some s)) :
    Good cwd R (recordPath cwd s) (defaults s) := by
  refine ⟨flat_defaults s, fun f => ?_⟩
  obtain ⟨v, hv⟩ : ∃ v, getEx (defaults s) f.key = some (.str v) := by
    cases f
    · exact ⟨s, rfl⟩
    · exact ⟨lit "off", rfl⟩
    · exact ⟨lit "live", rfl⟩
  exact ⟨v, hv, Or.inr (Or.inl ⟨req, s, hR, hf, rfl, hv⟩)⟩

/-! ### What the programs write -/

theorem guarantees_objectToFile {fn : Bytes} (h : Good cwd R (resolve cwd fn) o) :
    Guarantees (Writes cwd R) (Finds cwd R) (fun _ => True) (objectToFile fn o) := by
  refine ⟨trivial, fun ok _ => ?_⟩
  cases ok with
  | false => trivial
  | true => exact ⟨h, fun _ _ => trivial⟩

/-- **A load** gives a good record, or NULL. -/
theorem guarantees_jsonFromFile {req : Req} {file : Option Bytes} (hR : R req)
    (hf : req.file = some file) : Guarantees (Writes cwd R) (Finds cwd R)
      (fun r => ∀ o, r = some o → Good cwd R (resolve cwd (jsonFileWithAddr file)) o)
      (jsonFromFile file) := by
  refine ⟨trivial, fun r hr => ?_⟩
  rcases r with _ | o
  · rcases file with _ | s
    · trivial
    · simp only [newJsonFile, newString, ret_bind, jsonToFile, defaults_eq]
      exact (guarantees_objectToFile (good_defaults hR hf)).bind fun _ _ =>
        ⟨trivial, fun r hr => hr⟩
  · exact hr

theorem guarantees_set {f : Field} {value file : Option Bytes} (hR : R (.set f value file)) :
    Guarantees (Writes cwd R) (Finds cwd R) (fun _ => True) (setJsonValue f.key value file) := by
  refine (guarantees_jsonFromFile hR rfl).bind fun r hr => ?_
  rcases value with _ | v
  · trivial
  rcases r with _ | o
  · trivial
  · exact guarantees_objectToFile ((hr o rfl).add (Or.inl ⟨file, hR, rfl⟩))

theorem guarantees_get {f : Field} {file : Option Bytes} (hR : R (.get f file)) :
    Guarantees (Writes cwd R) (Finds cwd R) (fun _ => True)
      (getJsonValueFromFile f.key file) := by
  refine (guarantees_jsonFromFile hR rfl).bind fun r hr => ?_
  rcases r with _ | o
  · trivial
  · -- the field is there
    obtain ⟨v, hv, -⟩ := (hr o rfl).given f
    simp only [Option.bind_some, hv]
    trivial

theorem guarantees_triggerFile (dName : Bytes) :
    Guarantees (Writes cwd R) (Finds cwd R) (fun _ => True) (triggerFile dName) := by
  refine ⟨trivial, fun r hr => ?_⟩
  rcases r with _ | o
  · trivial
  · exact guarantees_objectToFile ((hr o rfl).add (f := .status) (Or.inr (Or.inr ⟨rfl, rfl⟩)))

theorem guarantees_triggerEntries (es : List (Bytes × Bool)) :
    Guarantees (Writes cwd R) (Finds cwd R) (fun _ => True) (triggerEntries es) := by
  induction es with
  | nil => trivial
  | cons e es ih =>
    obtain ⟨dName, isDir⟩ := e
    cases isDir with
    | true => exact ih
    | false => exact (guarantees_triggerFile dName).bind fun _ _ => ih

/-- **Every request** writes good records, if it finds good ones. -/
theorem guarantees_prog {req : Req} (hR : R req) :
    Guarantees (Writes cwd R) (Finds cwd R) (fun _ => True) req.prog := by
  cases req with
  | set f value file => exact (guarantees_set hR).bind fun _ _ => trivial
  | get f file => exact guarantees_get hR
  | sweep =>
    refine Guarantees.bind (Q := fun _ => True) ⟨trivial, fun r _ => ?_⟩ fun _ _ => trivial
    rcases r with _ | es
    · trivial
    · exact guarantees_triggerEntries es

end Guarantees

/-! ### Every readable file is good -/

section Inv
variable {cwd : Path} {R : Req → Prop}

variable (cwd R) in
/-- What can be read is good. -/
def AllGood (d : Texts) : Prop :=
  ∀ p t o, d.lookup p = some t → objOf t = some o → Good cwd R p o

theorem allGood_empty : AllGood cwd R ∅ := fun p t o ht _ => by
  rw [AList.lookup_empty] at ht
  cases ht

theorem AllGood.insert {d : Texts} (h : AllGood cwd R d) {p : Path} {t : Bytes}
    (ht : ∀ o, objOf t = some o → Good cwd R p o) : AllGood cwd R (d.insert p t) := by
  intro q u o hu ho
  by_cases hq : q = p
  · subst hq
    rw [AList.lookup_insert] at hu
    cases hu
    exact ht o ho
  · rw [AList.lookup_insert_ne hq] at hu
    exact h q u o hu ho

/-- **A file operation** keeps the files good, and finds a good record. -/
theorem allGood_diskSem (e : Env) {o : FileOp} {d : Texts} (h : AllGood cwd R d)
    (hw : Writes cwd R o) : AllGood cwd R (diskSem cwd e o d).2 ∧
      ∀ r, (diskSem cwd e o d).1 = some r → Finds cwd R o r := by
  cases o with
  | fromFile fn =>
    refine ⟨h, fun r hr o ho => ?_⟩
    cases hr
    split_ifs at ho
    obtain ⟨t, ht, hobj⟩ := Option.bind_eq_some_iff.mp ho
    exact h _ t o ht hobj
  | openTrunc fn =>
    refine ⟨?_, fun _ _ => trivial⟩
    simp only [diskSem]
    split_ifs
    · exact h.insert fun o ho => by
        rw [objOf_nil] at ho
        cases ho
    · exact h
  | writeAll fn o =>
    refine ⟨h.insert fun o' ho' => ?_, fun _ _ => trivial⟩
    rw [objOf_overwrite hw.flat, Option.ite_none_right_eq_some] at ho'
    cases ho'.2
    exact hw
  | listDir dir => exact ⟨h, fun _ _ => trivial⟩

end Inv

/-! ### Bytes and records -/

/-- What a file of bytes holds, as the records have it. -/
def fileOf (text : Bytes) : File :=
  match objOf text with
  | some o => .obj o
  | none => .bad

/-- The record files are those of the bytes. -/
structure Shows (d : Texts) (fs : Fs) : Prop where
  keys : fs.keys = d.keys
  files : ∀ p, fs.lookup p = (d.lookup p).map fileOf

theorem shows_empty : Shows ∅ ∅ := ⟨rfl, fun p => by simp⟩

section Shows
variable {cwd : Path} {R : Req → Prop} {d : Texts} {fs : Fs}

theorem Shows.insert (h : Shows d fs) (p : Path) (t : Bytes) :
    Shows (d.insert p t) (fs.insert p (fileOf t)) := by
  refine ⟨by rw [AList.keys_insert, AList.keys_insert, h.keys], fun q => ?_⟩
  by_cases hq : q = p
  · subst hq
    rw [AList.lookup_insert, AList.lookup_insert, Option.map_some]
  · rw [AList.lookup_insert_ne hq, AList.lookup_insert_ne hq]
    exact h.files q

theorem Shows.objAt (h : Shows d fs) (fn : Bytes) :
    objAt cwd fs fn = (d.lookup (resolve cwd fn)).bind objOf := by
  rw [SrvrJson.objAt, h.files]
  rcases d.lookup (resolve cwd fn) with _ | t
  · rfl
  · rw [Option.map_some, Option.bind_some, fileOf]
    rcases objOf t with _ | o <;> rfl

/-- Opens and reads fail in the same steps, and a write without a limit is whole. -/
def Fares (e : Env) (f : Fate) : Prop := f.opens = e.opens ∧ (e.room = none → f.whole = true)

/-- How an operation on the bytes has fared. -/
def fate (cwd : Path) (e : Env) (d : Texts) : FileOp → Fate
  | .writeAll fn o =>
    ⟨e.opens, fits e.room ((d.lookup (resolve cwd fn)).getD []) (printPlain (.obj o))⟩
  | _ => ⟨e.opens, true⟩

theorem fares_fate (e : Env) (d : Texts) (o : FileOp) : Fares e (fate cwd e d o) := by
  cases o with
  | writeAll fn o => exact ⟨rfl, fun h => by simp [fate, fits, h]⟩
  | _ => exact ⟨rfl, fun _ => rfl⟩

/-- **One file operation**: the same answer, and the files stay the same. -/
theorem diskSem_shows (e : Env) {o : FileOp} (h : Shows d fs)
    (hw : Writes cwd R o) :
    (recordSem cwd (fate cwd e d o) o fs).1 = (diskSem cwd e o d).1 ∧
      Shows (diskSem cwd e o d).2 (recordSem cwd (fate cwd e d o) o fs).2 := by
  cases o with
  | fromFile fn =>
    refine ⟨?_, h⟩
    simp only [recordSem, diskSem, fate, h.objAt]
  | openTrunc fn =>
    refine ⟨rfl, ?_⟩
    obtain ⟨opens, room⟩ := e
    cases opens with
    | false => exact h
    | true => exact h.insert _ []
  | writeAll fn o =>
    refine ⟨rfl, ?_⟩
    have hfile : fileOf (overwrite e.room ((d.lookup (resolve cwd fn)).getD [])
        (printPlain (.obj o))) =
          if (fate cwd e d (.writeAll fn o)).whole then .obj o else .bad := by
      rw [fileOf, objOf_overwrite hw.flat, fate]
      split_ifs <;> rfl
    simp only [recordSem]
    rw [← hfile]
    exact h.insert _ _
  | listDir dir =>
    refine ⟨?_, h⟩
    simp only [recordSem, diskSem, fate, entries, listing, h.keys]

end Shows

/-! ### Whole runs -/

/-- Two players store an action at the same time. Both truncate the file, then both write, and the
end of the longer text stays behind the shorter one. -/
def overlapping : List (Lbl Req Env) :=
  let cam := some (lit "cam")
  let next i := Lbl.step i Env.fine
  [.start (.get .status cam), next 0, next 0, next 0, next 0,
    .start (.set .action (some (lit "local")) cam), .start (.set .action (some (lit "off")) cam),
    next 1, next 2, next 1, next 2, next 1, next 2]

/-- What they leave. -/
def leftBehind : Bytes :=
  lit "\x7b\"streamId\":\"cam\",\"status\":\"off\",\"action\":\"off\"\x7d\"\x7d"

section Runs
variable (cwd : Path)

/-- The server over bytes. -/
abbrev diskStep : Sys FileOp FileRet (Option Bytes) Texts → Lbl Req Env →
    Option (Sys FileOp FileRet (Option Bytes) Texts) := step (diskSem cwd) Req.prog

/-- The server over records. -/
abbrev recordStep : Sys FileOp FileRet (Option Bytes) Fs → Lbl Req Fate →
    Option (Sys FileOp FileRet (Option Bytes) Fs) := step (recordSem cwd) Req.prog

variable {cwd}

variable (cwd) in
/-- The server over bytes and a server over records with the same threads and files. -/
abbrev Tracks : Sys FileOp FileRet (Option Bytes) Texts → Sys FileOp FileRet (Option Bytes) Fs →
    Prop := Related (Writes cwd fun _ => True) (Finds cwd fun _ => True)
  fun d fs => Shows d fs ∧ AllGood cwd (fun _ => True) d

theorem tracks_start : Tracks cwd ⟨∅, []⟩ ⟨∅, []⟩ :=
  ⟨⟨shows_empty, allGood_empty⟩, rfl, fun _ hp => absurd hp List.not_mem_nil⟩

/-- **Bytes and records**: from an empty directory, whatever the threads ask for, in whatever order
their file operations come, whichever of them fail and whenever the process ends, the server over
bytes is the server over records: the same threads get the same answers, and the files show the
same records. -/
theorem disk_refines {es : List (Lbl Req Env)} {s : Sys FileOp FileRet (Option Bytes) Texts}
    (hr : run (diskStep cwd) ⟨∅, []⟩ es = some s) :
    ∃ fs t, List.Forall₂ (LblRel Fares) es fs ∧ run (recordStep cwd) ⟨∅, []⟩ fs = some t ∧
      t.threads = s.threads ∧ Shows s.store t.store ∧
        outputs (diskStep cwd) (out (diskSem cwd)) ⟨∅, []⟩ es =
          outputs (recordStep cwd) (out (recordSem cwd)) ⟨∅, []⟩ fs := by
  have hsim : SimulatesBy (diskStep cwd) (out (diskSem cwd)) (recordStep cwd)
      (out (recordSem cwd)) (Tracks cwd) (LblRel Fares) := by
    refine simulates (fun e o d fs hR hw => ?_) fun req => guarantees_prog trivial
    obtain ⟨hans, hshows⟩ := diskSem_shows e hR.1 hw
    obtain ⟨hgood, hfinds⟩ := allGood_diskSem e hR.2 hw
    exact ⟨fate cwd e d o, fares_fate e d o, hans, ⟨hshows, hgood⟩, hfinds⟩
  obtain ⟨fs, t, hL, hrun, hrel, hout⟩ := hsim.run tracks_start hr
  exact ⟨fs, t, hL, hrun, hrel.threads, hrel.store.1, hout⟩

theorem disk_refines_overlapping : ∃ s fs t, run (diskStep []) ⟨∅, []⟩ overlapping = some s ∧
    run (recordStep []) ⟨∅, []⟩ fs = some t ∧ t.threads = s.threads ∧ Shows s.store t.store := by
  have hrun : (run (diskStep []) ⟨∅, []⟩ overlapping).isSome = true := by decide +kernel
  obtain ⟨s, hs⟩ := Option.isSome_iff_exists.mp hrun
  obtain ⟨fs, t, -, ht, hthreads, hshows, -⟩ := disk_refines hs
  exact ⟨s, fs, t, hs, ht, hthreads, hshows⟩

theorem fate_fine (d : Texts) (o : FileOp) : fate cwd .fine d o = .fine := by
  cases o <;> rfl

/-- When nothing fails, the server over bytes is the server over the files of `SrvrJson`. -/
theorem disk_refines_fine {es : List (Lbl Req Unit)} {s : Sys FileOp FileRet (Option Bytes) Texts}
    (hr : run (step (fun _ => diskSem cwd .fine) Req.prog) ⟨∅, []⟩ es = some s) :
    ∃ t, run (step (fun _ => fileSem cwd) Req.prog) ⟨∅, []⟩ es = some t ∧
      t.threads = s.threads ∧ Shows s.store t.store := by
  have hsim : SimulatesBy (step (fun _ : Unit => diskSem cwd .fine) Req.prog)
      (out fun _ => diskSem cwd .fine) (step (fun _ : Unit => fileSem cwd) Req.prog)
      (out fun _ => fileSem cwd) (Tracks cwd) (LblRel Eq) := by
    refine simulates (fun e o d fs hR hw => ?_) fun req => guarantees_prog trivial
    have hop := diskSem_shows .fine hR.1 hw
    rw [fate_fine, recordSem_fine] at hop
    obtain ⟨hgood, hfinds⟩ := allGood_diskSem .fine hR.2 hw
    exact ⟨e, rfl, hop.1, ⟨hop.2, hgood⟩, hfinds⟩
  obtain ⟨fs, t, hL, hrun, hrel, -⟩ := hsim.run tracks_start hr
  obtain rfl : es = fs := List.forall₂_eq_eq_eq ▸ hL.imp fun _ _ h => h.eq
  exact ⟨t, hrun, hrel.threads, hrel.store.1⟩

/-- **No value is made up**: in every run, whatever file can be read holds a record with all its
fields, each with a value that a request for this very file has asked for, that is a default of a
stream that some request names, or that the sweep writes. -/
theorem fields_given {es : List (Lbl Req Env)} {s : Sys FileOp FileRet (Option Bytes) Texts}
    (hr : run (diskStep cwd) ⟨∅, []⟩ es = some s) {p : Path} {text : Bytes} {o : Obj}
    (ht : s.store.lookup p = some text) (ho : objOf text = some o) (f : Field) :
    ∃ v, getEx o f.key = some (.str v) ∧ Given cwd (fun req => .start req ∈ es) p f v := by
  have hm : Meets (diskStep cwd) (fun _ l => l ∈ es) ⟨∅, []⟩ es :=
    meets_of_forall _ fun l hl _ => hl
  have hinv : Inv (Writes cwd fun req => .start req ∈ es) (Finds cwd fun req => .start req ∈ es)
      (AllGood cwd fun req => .start req ∈ es) s := by
    refine hm.inv (fun s l s' hi hl hs => ?_) ⟨allGood_empty, fun p hp =>
      absurd hp List.not_mem_nil⟩ hr
    refine inv_step (fun e o d hd hw => allGood_diskSem e hd hw) (fun req hreq => ?_) hi hs
    exact guarantees_prog (hreq ▸ hl)
  exact (hinv.store p text o ht ho).given f

theorem fields_given_overlapping : ∃ o, objOf leftBehind = some o ∧
    ∀ f : Field, ∃ v, getEx o f.key = some (.str v) ∧
      Given [] (fun req => .start req ∈ overlapping) (recordPath [] (lit "cam")) f v := by
  have hfile : ((run (diskStep []) ⟨∅, []⟩ overlapping).bind fun s =>
      s.store.lookup (recordPath [] (lit "cam"))) = some leftBehind := by decide +kernel
  have hread : (objOf leftBehind).isSome = true := by decide +kernel
  obtain ⟨s, hs, ht⟩ := Option.bind_eq_some_iff.mp hfile
  obtain ⟨o, ho⟩ := Option.isSome_iff_exists.mp hread
  exact ⟨o, ho, fields_given hs ht ho⟩

end Runs

end LiveStreamer.StreamerServer.Disk
