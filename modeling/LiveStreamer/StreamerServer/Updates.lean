import LiveStreamer.Lib.Run
import LiveStreamer.StreamerServer.Sweep

/-! # Concurrent updates of one record (`srvrJson.c`, `main.c`)

The device thread, the player thread and the sweep act on the record of one stream, each with one
request at a time. A step is the start of a request or the next file operation of one of them: a
whole-file read, the truncation of the file, a write of a whole object. The log keeps which
requests were started and which are finished.

`Kept` says that every field of a readable record has a value that some request has asked to
write, or still its first value, and that a record at rest has in every field the value of a write
that no other write of the field follows (`Settled`). An update is a read, a truncation and a
write without a lock, so an update that reads between the read and the write of another one loses
the other's field, and one that reads after the truncation resets the record (`update_lost`).
Where requests that write different fields do not overlap and none reads a truncated file, the
record keeps its values (`updates_kept`). -/

namespace LiveStreamer.StreamerServer.Updates

open LiveStreamer.Lib.CString LiveStreamer.Lib.PathName LiveStreamer.Lib.Program
open LiveStreamer.Lib.Program.Prog LiveStreamer.Lib.Run LiveStreamer.Lib.Tokener
open LiveStreamer.StreamerServer.SrvrJson LiveStreamer.StreamerServer.Main
open LiveStreamer.StreamerServer.Sweep (fileName resolve_entryAddr resolve_statusDir
  entryOf_recordPath)

/-! ### Requests -/

/-- Who acts on the record. -/
inductive Who where
  | dev
  | plyr
  | sweep
  deriving DecidableEq

inductive Req where
  | set (jKey value : Bytes)
  | get (jKey : Bytes)
  | sweep
  deriving DecidableEq

/-- The field a request writes, and the value it asks to write. -/
def Req.write : Req → Option (Bytes × Bytes)
  | .set jKey value => some (jKey, value)
  | .get _ => none
  | .sweep => some (lit "status", lit "off")

/-- What the two threads and the sweep do with a record. -/
def Allowed : Who → Req → Prop
  | .dev, .set jKey _ => jKey ∈ keys
  | .dev, .get jKey => jKey ∈ keys
  | .plyr, .set jKey _ => jKey = lit "action"
  | .plyr, .get jKey => jKey ∈ keys
  | .sweep, .sweep => True
  | _, _ => False

instance : ∀ who req, Decidable (Allowed who req)
  | .dev, .set _ _ => inferInstanceAs (Decidable (_ ∈ _))
  | .dev, .get _ => inferInstanceAs (Decidable (_ ∈ _))
  | .plyr, .set _ _ => inferInstanceAs (Decidable (_ = _))
  | .plyr, .get _ => inferInstanceAs (Decidable (_ ∈ _))
  | .sweep, .sweep => isTrue trivial
  | .dev, .sweep => isFalse id
  | .plyr, .sweep => isFalse id
  | .sweep, .set _ _ => isFalse id
  | .sweep, .get _ => isFalse id

/-- What is left of a request that is being worked on. -/
structure Task where
  req : Req
  prog : FileProg Unit
  /-- It has read the record. -/
  begun : Bool

inductive Ev where
  | start (who : Who) (req : Req)
  | finish (who : Who) (req : Req)
  deriving DecidableEq

structure Sys where
  fs : Fs
  task : Who → Option Task
  up : Bool
  /-- Newest first. -/
  log : List Ev

inductive Lbl where
  | start (who : Who) (req : Req)
  | step (who : Who)

/-! ### The system -/

section System
variable (cwd : Path) (strm dName : Bytes)

/-- The program of a request on the record of `strm`, which the sweep finds as `dName`. -/
def Req.prog : Req → FileProg Unit
  | .set jKey value => setJsonValue jKey (some value) (some strm)
  | .get jKey => getJsonValueFromFile jKey (some strm) >>= fun _ => ret ()
  | .sweep => triggerFile dName

/-- The operation reads the record. -/
def reads : Option FileOp → Bool
  | some (.fromFile _) => true
  | _ => false

/-- What is left of a request after a step: it has finished, it has ended the process, or it goes
on. -/
def resume (s : Sys) (who : Who) (t : Task) (fs : Fs) : FileProg Unit → Sys
  | .ret _ =>
    { s with fs, task := Function.update s.task who none, log := .finish who t.req :: s.log }
  | .abort => { s with fs, up := false }
  | .call o k =>
    let begun := t.begun || reads t.prog.next
    { s with fs, task := Function.update s.task who (some { t with prog := .call o k, begun }) }

/-- The sweep finds the record under the name `dName`. -/
def Swept : Prop :=
  entryOf (resolve cwd (lit "status/")) (recordPath cwd strm) = some dName ∧
    resolve cwd (entryAddr dName) = recordPath cwd strm

instance : Decidable (Swept cwd strm dName) := inferInstanceAs (Decidable (_ ∧ _))

/-- A request is started, or its next file operation is done. The sweep comes to a record that is
there, and that it finds. -/
def step (s : Sys) : Lbl → Option Sys
  | .start who req =>
    if s.up ∧ (s.task who).isNone ∧ Allowed who req ∧
        (req = .sweep → Swept cwd strm dName ∧ (s.fs.lookup (recordPath cwd strm)).isSome) then
      some { s with
        task := Function.update s.task who (some ⟨req, req.prog strm dName, false⟩)
        log := .start who req :: s.log }
    else none
  | .step who =>
    match s.task who with
    | some t =>
      if s.up then
        (t.prog.step (fileSem cwd) s.fs).map fun p => resume s who t p.2 p.1
      else none
    | none => none

/-- No request is being worked on; the record holds `init`, or is not there and `init` is what a
new one is given. -/
def Initial (init : Obj) (s : Sys) : Prop :=
  (∀ who, s.task who = none) ∧ s.up = true ∧ s.log = [] ∧ Whole init ∧
    match s.fs.lookup (recordPath cwd strm) with
    | some (.obj o) => o = init
    | some .bad => False
    | none => init = defaults strm

/-! ### Values that are kept -/

/-- The value `v` of the field `k` was asked for, or it is the first one and no write of `k` has
finished. -/
def Standing (init : Obj) (log : List Ev) (k v : Bytes) : Prop :=
  (∃ who req, .start who req ∈ log ∧ req.write = some (k, v)) ∨
    (getEx init k = some (.str v) ∧
      ∀ who req v', .finish who req ∈ log → req.write ≠ some (k, v'))

/-- The value `v` of the field `k` is that of a write that no other write of `k` follows, or it is
the first one and nothing has written `k`. -/
def Settled (init : Obj) (log : List Ev) (k v : Bytes) : Prop :=
  (∃ newer older who req, log = newer ++ .finish who req :: older ∧ req.write = some (k, v) ∧
      ∀ who' req' v', .start who' req' ∈ newer → req'.write ≠ some (k, v')) ∨
    (getEx init k = some (.str v) ∧
      ∀ who req v', .finish who req ∈ log → req.write ≠ some (k, v'))

/-- **Every field of the record has a value that stands**, and when all requests have finished,
one that is settled. -/
def Kept (init : Obj) (s : Sys) : Prop :=
  (∀ o, objAt cwd s.fs (jsonFileWithAddr (some strm)) = some o →
    ∀ k ∈ keys, ∃ v, getEx o k = some (.str v) ∧ Standing init s.log k v) ∧
  ((∀ who, s.task who = none) → ∀ k ∈ keys, ∃ v,
    getEx (record cwd s.fs strm) k = some (.str v) ∧ Settled init s.log k v)

/-- The object a program writes, if all it still does is to truncate the file and write it. -/
def pending : FileProg Unit → Option Obj
  | .call (.openTrunc _) k => pending (k true)
  | .call (.writeAll _ o) k =>
    match k () with
    | .ret _ => some o
    | _ => none
  | _ => none

/-- The other requests that have read the record are about to write the field that `req`
writes, and nothing else. -/
def SameField (s : Sys) (who : Who) (req : Req) : Prop :=
  ∀ who' ∈ [Who.dev, .plyr, .sweep], who' ≠ who → ∀ t ∈ s.task who', t.begun = true →
    (pending t.prog).isSome ∧ t.req.write.map Prod.fst = req.write.map Prod.fst

/-- **The record is read** while no other request has read it and is not finished; or it is read
intact, and what is read is not written back, or written back by requests that all write the same
field. -/
def Serial (s : Sys) : Lbl → Prop
  | .start _ _ => True
  | .step who => ∀ t ∈ s.task who, reads t.prog.next = true →
    (∀ who' ∈ [Who.dev, .plyr, .sweep], who' ≠ who → ∀ t' ∈ s.task who', t'.begun = false) ∨
    ((objAt cwd s.fs (jsonFileWithAddr (some strm))).isSome ∧
      (t.req.write = none ∨ SameField s who t.req))

instance (s : Sys) (who : Who) (req : Req) : Decidable (SameField s who req) :=
  inferInstanceAs (Decidable (∀ who' ∈ [Who.dev, .plyr, .sweep], who' ≠ who → ∀ t ∈ s.task who',
    t.begun = true → (pending t.prog).isSome ∧ t.req.write.map Prod.fst = req.write.map Prod.fst))

instance (s : Sys) : ∀ l, Decidable (Serial cwd strm s l)
  | .start _ _ => isTrue trivial
  | .step who => inferInstanceAs (Decidable (∀ t ∈ s.task who, reads t.prog.next = true → _ ∨ _))

/-! ### What is left of a request -/

/-- The file a request opens. -/
def Req.fn : Req → Bytes
  | .sweep => entryAddr dName
  | _ => jsonFileWithAddr (some strm)

/-- What a request does after it has read the record. -/
def Req.after (req : Req) (o : Obj) : FileProg Unit :=
  match req with
  | .set jKey value => objectToFile (jsonFileWithAddr (some strm)) (add o jKey (.str value))
  | .get jKey =>
    match getEx o jKey with
    | some _ => ret ()
    | none => do
      objectToFile (jsonFileWithAddr (some strm)) (add o (lit "action") (.str (lit "off")))
      ret ()
  | .sweep => objectToFile (entryAddr dName) (add o (lit "status") (.str (lit "off")))

/-- The second read of a request that has created the record. -/
def reread (req : Req) : FileProg Unit :=
  call (FileOp.fromFile (jsonFileWithAddr (some strm))) fun r =>
    match r with
    | some o => req.after strm dName o
    | none => abort

/-- What a request does when it has found no record. -/
def creating (req : Req) : FileProg Unit := do
  objectToFile (jsonFileWithAddr (some strm)) (defaults strm)
  reread strm dName req

variable {cwd strm dName}

/-- The sweep finds the record of every stream without a slash. -/
theorem swept_fileName (h : slash ∉ strm) : Swept cwd strm (fileName strm) := by
  constructor
  · rw [resolve_statusDir]
    exact entryOf_recordPath cwd h
  · exact resolve_entryAddr cwd strm

theorem reread_set (jKey value : Bytes) :
    (do
      let o ← op (FileOp.fromFile (jsonFileWithAddr (some strm)))
      let o ← objectAdd o jKey (.str value)
      objectToFile (jsonFileWithAddr (some strm)) o) = reread strm dName (.set jKey value) := by
  rw [reread, op_bind]
  congr 1
  funext r
  rcases r with _ | o <;> rfl

theorem prog_eq (req : Req) :
    req.prog strm dName = call (FileOp.fromFile (req.fn strm dName)) fun r =>
      match r with
      | some o => req.after strm dName o
      | none => if req = .sweep then abort else creating strm dName req := by
  cases req with
  | set jKey value =>
    simp only [Req.prog, setJsonValue, jsonFromFile, objectFromFile, newString, op_bind, call_bind,
      Req.fn]
    congr 1
    funext r
    rcases r with _ | o
    · simp only [newJsonFile, newString, ret_bind, defaults_eq, reduceCtorEq, if_false, creating,
        jsonToFile, objectFromFile, bind_assoc]
      rw [← reread_set]
    · rfl
  | get jKey =>
    simp only [Req.prog, getJsonValueFromFile, jsonFromFile, objectFromFile, op_bind, call_bind,
      Req.fn]
    congr 1
    funext r
    rcases r with _ | o
    · simp only [newJsonFile, newString, ret_bind, defaults_eq, reduceCtorEq, if_false, creating,
        jsonToFile, objectFromFile, bind_assoc, op_bind]
      refine congrArg _ (funext fun _ => ?_)
      rw [reread, call_bind]
      congr 1
      funext r
      rcases r with _ | o
      · rfl
      · rcases h : getEx o jKey with _ | j <;> simp [h, objectAdd, Req.after]
    · rcases h : getEx o jKey with _ | j <;> simp [h, objectAdd, Req.after, jsonToFile]
  | sweep =>
    simp only [Req.prog, triggerFile, objectFromFile, newString, op_bind, ret_bind, Req.fn, if_true]
    congr 1
    funext r
    rcases r with _ | o <;> rfl

/-! ### One request goes on -/

section Tasks
variable {task : Who → Option Task} {who w : Who} {t t' : Task}

theorem eq_or_of_update (h : Function.update task who (some t') w = some t) :
    (w = who ∧ t = t') ∨ (w ≠ who ∧ task w = some t) := by
  by_cases he : w = who
  · rw [he, Function.update_self] at h
    exact Or.inl ⟨he, (Option.some.inj h).symm⟩
  · rw [Function.update_of_ne he] at h
    exact Or.inr ⟨he, h⟩

theorem ne_of_update_none (h : Function.update task who none w = some t) :
    w ≠ who ∧ task w = some t := by
  have he : w ≠ who := by
    rintro rfl
    rw [Function.update_self] at h
    cases h
  rw [Function.update_of_ne he] at h
  exact ⟨he, h⟩

end Tasks

/-! ### The log -/

/-- Every request that was started is finished later or still worked on, and only those are. -/
structure Hist (s : Sys) : Prop where
  task : ∀ who t, s.task who = some t → .start who t.req ∈ s.log
  finish : ∀ who req, .finish who req ∈ s.log → .start who req ∈ s.log
  start : ∀ newer older who req, s.log = newer ++ .start who req :: older →
    .finish who req ∈ newer ∨ ∃ t, s.task who = some t ∧ t.req = req

theorem hist_start {s : Sys} {who : Who} {t : Task} (hi : Hist s) (hn : s.task who = none) :
    Hist { s with task := Function.update s.task who (some t), log := .start who t.req :: s.log }
    where
  task who' t' h := by
    rcases eq_or_of_update h with ⟨rfl, rfl⟩ | ⟨-, h⟩
    · exact List.mem_cons_self ..
    · exact .tail _ (hi.task who' t' h)
  finish who' req h := by
    simp only [List.mem_cons, reduceCtorEq, false_or] at h
    exact .tail _ (hi.finish who' req h)
  start newer older who' req h := by
    rcases newer with _ | ⟨e, newer⟩
    · simp only [List.nil_append, List.cons.injEq, Ev.start.injEq] at h
      obtain ⟨⟨rfl, rfl⟩, -⟩ := h
      exact Or.inr ⟨t, Function.update_self .., rfl⟩
    · simp only [List.cons_append, List.cons.injEq] at h
      rcases hi.start newer older who' req h.2 with hf | ⟨t', ht', hr⟩
      · exact Or.inl (.tail _ hf)
      · have he : who' ≠ who := by
          rintro rfl
          rw [hn] at ht'
          cases ht'
        exact Or.inr ⟨t', (Function.update_of_ne he _ _).trans ht', hr⟩

theorem hist_resume {s : Sys} {who : Who} {t : Task} (hi : Hist s) (ht : s.task who = some t)
    (fs : Fs) (p : FileProg Unit) : Hist (resume s who t fs p) := by
  cases p with
  | ret _ =>
    refine ⟨fun who' t' h => ?_, fun who' req h => ?_, fun newer older who' req h => ?_⟩
    · exact .tail _ (hi.task who' t' (ne_of_update_none h).2)
    · simp only [resume, List.mem_cons, Ev.finish.injEq] at h
      rcases h with ⟨rfl, rfl⟩ | h
      · exact .tail _ (hi.task who' t ht)
      · exact .tail _ (hi.finish who' req h)
    · rcases newer with _ | ⟨e, newer⟩
      · cases h
      · simp only [resume, List.cons_append, List.cons.injEq] at h
        obtain ⟨rfl, h⟩ := h
        rcases hi.start newer older who' req h with hf | ⟨t', ht', hr⟩
        · exact Or.inl (.tail _ hf)
        · by_cases he : who' = who
          · subst he
            rw [ht] at ht'
            cases ht'
            exact Or.inl (hr ▸ List.mem_cons_self ..)
          · exact Or.inr ⟨t', (Function.update_of_ne he _ _).trans ht', hr⟩
  | abort => exact ⟨hi.task, hi.finish, hi.start⟩
  | call o k =>
    refine ⟨fun who' t' h => ?_, hi.finish, fun newer older who' req h => ?_⟩
    · rcases eq_or_of_update h with ⟨rfl, rfl⟩ | ⟨-, h⟩
      · exact hi.task who' t ht
      · exact hi.task who' t' h
    · rcases hi.start newer older who' req h with hf | ⟨t', ht', hr⟩
      · exact Or.inl hf
      · by_cases he : who' = who
        · subst he
          rw [ht] at ht'
          cases ht'
          exact Or.inr ⟨_, Function.update_self .., hr⟩
        · exact Or.inr ⟨t', (Function.update_of_ne he _ _).trans ht', hr⟩

/-! ### The value of a field -/

/-- The value of the field `k` after the writes of the log that have finished. -/
def value (init : Obj) (k : Bytes) : List Ev → Option Json
  | [] => getEx init k
  | .start _ _ :: log => value init k log
  | .finish _ req :: log =>
    match req.write with
    | some (k', v) => if k' = k then some (.str v) else value init k log
    | none => value init k log

/-- The object has the values of the log. -/
def Holds (init : Obj) (log : List Ev) (o : Obj) : Prop := ∀ k ∈ keys, getEx o k = value init k log

variable {init : Obj} {log : List Ev} {o : Obj} {who who' : Who} {req req' : Req}

theorem value_finish_of_ne {k : Bytes} (h : ∀ v, req.write ≠ some (k, v)) :
    value init k (.finish who req :: log) = value init k log := by
  rw [value]
  rcases hw : req.write with _ | ⟨k', v⟩
  · rfl
  · have hk : k' ≠ k := by
      rintro rfl
      exact h v hw
    exact if_neg hk

theorem value_finish_self {k v : Bytes} (h : req.write = some (k, v)) :
    value init k (.finish who req :: log) = some (.str v) := by
  rw [value, h]
  exact if_pos rfl

theorem Holds.finish_none (hw : req.write = none) (h : Holds init log o) :
    Holds init (.finish who req :: log) o := by
  intro k hk
  rw [value_finish_of_ne (by simp [hw])]
  exact h k hk

theorem Holds.add {k v : Bytes} (hw : req.write = some (k, v)) (h : Holds init log o) :
    Holds init (.finish who req :: log) (add o k (.str v)) := by
  intro k' hk'
  by_cases he : k = k'
  · subst he
    rw [value_finish_self hw, getEx_add_self]
  · rw [value_finish_of_ne (by simp [hw, he]), getEx_add_ne o _ he]
    exact h k' hk'

/-- A write of the same field that finishes first makes no difference. -/
theorem Holds.after (hw : req'.write.map Prod.fst = req.write.map Prod.fst)
    (h : Holds init (.finish who req :: log) o) :
    Holds init (.finish who req :: .finish who' req' :: log) o := by
  intro k hk
  rw [h k hk]
  by_cases hs : ∃ v, req.write = some (k, v)
  · obtain ⟨v, hs⟩ := hs
    rw [value_finish_self hs, value_finish_self hs]
  · have hs' : ∀ v, req'.write ≠ some (k, v) := by
      intro v hv
      rw [hv] at hw
      rcases hq : req.write with _ | ⟨k', v'⟩
      · simp [hq] at hw
      · simp only [hq, Option.map_some, Option.some.injEq] at hw
        exact hs ⟨v', by rw [hq, ← hw]⟩
    push Not at hs
    rw [value_finish_of_ne hs, value_finish_of_ne hs, value_finish_of_ne hs']

theorem Holds.after_none (hw : req'.write = none) (h : Holds init (.finish who req :: log) o) :
    Holds init (.finish who req :: .finish who' req' :: log) o := by
  intro k hk
  rw [h k hk, value, value, value_finish_of_ne (by simp [hw])]

/-- Where the value of a field comes from: the last write that has finished, or the first value. -/
theorem value_cases (init : Obj) (k : Bytes) (log : List Ev) :
    (∃ newer older who req v, log = newer ++ .finish who req :: older ∧ req.write = some (k, v) ∧
        value init k log = some (.str v) ∧
        ∀ who' req' v', .finish who' req' ∈ newer → req'.write ≠ some (k, v')) ∨
      (value init k log = getEx init k ∧
        ∀ who' req' v', .finish who' req' ∈ log → req'.write ≠ some (k, v')) := by
  induction log with
  | nil => exact Or.inr ⟨rfl, by simp⟩
  | cons e log ih =>
    by_cases hw : ∃ who req v, e = .finish who req ∧ req.write = some (k, v)
    · obtain ⟨who, req, v, rfl, hw⟩ := hw
      exact Or.inl ⟨[], log, who, req, v, rfl, hw, value_finish_self hw, by simp⟩
    · push Not at hw
      have hv : value init k (e :: log) = value init k log := by
        cases e with
        | start _ _ => rfl
        | finish who req => exact value_finish_of_ne fun v => hw who req v rfl
      have hn : ∀ l, (∀ who' req' v', .finish who' req' ∈ l → req'.write ≠ some (k, v')) →
          ∀ who' req' v', .finish who' req' ∈ e :: l → req'.write ≠ some (k, v') := by
        intro l hl who' req' v' hm
        rcases List.mem_cons.mp hm with rfl | hm
        · exact hw who' req' v' rfl
        · exact hl who' req' v' hm
      rcases ih with ⟨newer, older, who, req, v, rfl, h1, h2, h3⟩ | ⟨h1, h2⟩
      · exact Or.inl ⟨e :: newer, older, who, req, v, rfl, h1, hv.trans h2, hn newer h3⟩
      · exact Or.inr ⟨hv.trans h1, hn log h2⟩

/-- A value of the log stands, and is settled when nothing is worked on. -/
theorem standing_of_value {s : Sys} (hi : Hist s) (hw : Whole init) {k : Bytes} (hk : k ∈ keys) :
    ∃ v, value init k s.log = some (.str v) ∧ Standing init s.log k v ∧
      ((∀ who, s.task who = none) → Settled init s.log k v) := by
  rcases value_cases init k s.log with ⟨newer, older, who, req, v, hl, h1, h2, h3⟩ | ⟨h1, h2⟩
  · refine ⟨v, h2, Or.inl ⟨who, req, hi.finish who req ?_, h1⟩, fun hq => Or.inl
      ⟨newer, older, who, req, hl, h1, fun who' req' v' hm => ?_⟩⟩
    · rw [hl]
      simp
    · obtain ⟨n1, n2, rfl⟩ := List.append_of_mem hm
      have hf := hi.start n1 (n2 ++ .finish who req :: older) who' req' (by rw [hl]; simp)
      rcases hf with hf | ⟨t, ht, -⟩
      · exact h3 who' req' v' (List.mem_append_left _ hf)
      · rw [hq who'] at ht
        cases ht
  · obtain ⟨v, hv⟩ := hw k hk
    exact ⟨v, h1.trans hv, Or.inr ⟨hv, h2⟩, fun _ => Or.inr ⟨hv, h2⟩⟩

/-! ### The invariant -/

/-- No other request has read the record. -/
def Sole (s : Sys) (who : Who) : Prop :=
  ∀ who' t, who' ≠ who → s.task who' = some t → t.begun = false

variable (cwd strm dName) in
/-- Where a request is that has read the record, and what it will write. -/
inductive Amid (init : Obj) (s : Sys) (who : Who) (t : Task) : Prop
  | trunc (o : Obj) (hp : t.prog = objectToFile (t.req.fn strm dName) o)
      (ho : Holds init (.finish who t.req :: s.log) o)
  | write (o : Obj) (hp : t.prog = call (FileOp.writeAll (t.req.fn strm dName) o) ret)
      (ho : Holds init (.finish who t.req :: s.log) o)
  | create (hp : t.prog = creating strm dName t.req)
      (hf : s.fs.lookup (recordPath cwd strm) = none) (hr : t.req ≠ .sweep) (hs : Sole s who)
  | fill (hp : t.prog = call (FileOp.writeAll (jsonFileWithAddr (some strm)) (defaults strm))
        fun _ => reread strm dName t.req)
      (hf : s.fs.lookup (recordPath cwd strm) = some .bad)
      (hh : Holds init s.log (defaults strm)) (hr : t.req ≠ .sweep) (hs : Sole s who)
  | reread (o : Obj) (hp : t.prog = reread strm dName t.req)
      (hf : s.fs.lookup (recordPath cwd strm) = some (.obj o)) (hr : t.req ≠ .sweep)
      (hs : Sole s who)

variable (cwd strm) in
/-- The file holds the values of the log, unless some request is about to write it. -/
def FileOk (init : Obj) (s : Sys) : Prop :=
  match s.fs.lookup (recordPath cwd strm) with
  | some (.obj o) => Holds init s.log o
  | some .bad => ∃ who t fn o, s.task who = some t ∧ t.begun = true ∧
      t.prog.next = some (FileOp.writeAll fn o)
  | none => Holds init s.log (defaults strm)

/-- The field a request writes. -/
def Req.field (req : Req) : Option Bytes := req.write.map Prod.fst

variable (cwd strm dName) in
structure Inv (init : Obj) (s : Sys) : Prop where
  up : s.up = true
  file : FileOk cwd strm init s
  idle : ∀ who t, s.task who = some t → t.begun = false →
    t.prog = t.req.prog strm dName ∧
      (t.req = .sweep → (s.fs.lookup (recordPath cwd strm)).isSome)
  amid : ∀ who t, s.task who = some t → t.begun = true → Amid cwd strm dName init s who t
  same : ∀ who who' t t', s.task who = some t → s.task who' = some t' → t.begun = true →
    t'.begun = true → t.req.field = t'.req.field
  field : ∀ who t k, s.task who = some t → t.req = .get k → k ∈ keys
  swept : ∀ who t, s.task who = some t → t.req = .sweep → Swept cwd strm dName

theorem resolve_fn {req : Req} (hs : req = .sweep → Swept cwd strm dName) :
    resolve cwd (req.fn strm dName) = recordPath cwd strm := by
  cases req with
  | sweep => exact (hs rfl).2
  | set jKey value => rfl
  | get jKey => rfl

theorem objAt_fn {req : Req} (hs : req = .sweep → Swept cwd strm dName) (fs : Fs) :
    objAt cwd fs (req.fn strm dName) = objAt cwd fs (jsonFileWithAddr (some strm)) :=
  objAt_congr (resolve_fn hs) fs

theorem holds_of_file {s : Sys} (h : FileOk cwd strm init s)
    (hf : s.fs.lookup (recordPath cwd strm) = some (.obj o)) : Holds init s.log o := by
  unfold FileOk at h
  rw [hf] at h
  exact h

/-- After a read of the values of the log, a request is finished or about to write the values
that the log has when it is finished. -/
theorem after_cases (who : Who) (hw : Whole init) (hk : ∀ k, req = .get k → k ∈ keys)
    (h : Holds init log o) :
    (req.write = none ∧ req.after strm dName o = ret ()) ∨
      req.write ≠ none ∧ ∃ o', req.after strm dName o = objectToFile (req.fn strm dName) o' ∧
        Holds init (.finish who req :: log) o' := by
  cases req with
  | set jKey v => exact Or.inr ⟨by simp [Req.write], _, rfl, h.add rfl⟩
  | sweep => exact Or.inr ⟨by simp [Req.write], _, rfl, h.add rfl⟩
  | get jKey =>
    have hv : ∃ j, getEx o jKey = some j := by
      rw [h jKey (hk jKey rfl)]
      rcases value_cases init jKey log with ⟨_, _, _, _, v, -, -, hv, -⟩ | ⟨hv, -⟩
      · exact ⟨_, hv⟩
      · obtain ⟨v, hi⟩ := hw jKey (hk jKey rfl)
        exact ⟨_, hv.trans hi⟩
    obtain ⟨j, hj⟩ := hv
    exact Or.inl ⟨rfl, by simp only [Req.after, hj]⟩

section Steps
variable {s : Sys} {t t' : Task}

theorem pending_creating (req : Req) : pending (creating strm dName req) = none := rfl

theorem pending_fill (req : Req) (fn : Bytes) (o : Obj) :
    pending (call (FileOp.writeAll fn o) fun _ => reread strm dName req) = none := rfl

theorem pending_reread (req : Req) : pending (reread strm dName req) = none := rfl

/-- What is known of a request that is about to write or not alone stays as long as the log allows
it. -/
theorem Amid.other {s1 : Sys} (h : Amid cwd strm dName init s who' t')
    (hs : (pending t'.prog).isSome ∨ ¬ Sole s who')
    (hlog : ∀ o, Holds init (.finish who' t'.req :: s.log) o →
      Holds init (.finish who' t'.req :: s1.log) o) :
    Amid cwd strm dName init s1 who' t' := by
  cases h with
  | trunc o hp ho => exact .trunc o hp (hlog o ho)
  | write o hp ho => exact .write o hp (hlog o ho)
  | create hp _ _ h =>
    rw [hp, pending_creating] at hs
    simp [h] at hs
  | fill hp _ _ _ h =>
    rw [hp, pending_fill] at hs
    simp [h] at hs
  | reread o hp _ _ h =>
    rw [hp, pending_reread] at hs
    simp [h] at hs

/-- The state after a request that has read the record has gone on. -/
abbrev goOn (s : Sys) (who : Who) (t : Task) (fs : Fs) (p : FileProg Unit) : Sys :=
  { s with fs, task := Function.update s.task who (some { t with prog := p, begun := true }) }

/-- The state after a request has finished. -/
abbrev finished (s : Sys) (who : Who) (t : Task) (fs : Fs) : Sys :=
  { s with fs, task := Function.update s.task who none, log := .finish who t.req :: s.log }

theorem resume_call {fs : Fs} {o : FileOp} {k : FileRet o → FileProg Unit}
    (hb : (t.begun || reads t.prog.next) = true) :
    resume s who t fs (.call o k) = goOn s who t fs (.call o k) := by
  rw [resume, hb]

/-- A request goes on: the others are where they were. -/
theorem inv_goOn {fs : Fs} {p : FileProg Unit} (hi : Inv cwd strm dName init s)
    (ht : s.task who = some t)
    (hfile : FileOk cwd strm init (goOn s who t fs p))
    (hmine : Amid cwd strm dName init (goOn s who t fs p) who { t with prog := p, begun := true })
    (hother : ∀ who' t', who' ≠ who → s.task who' = some t' → t'.begun = true →
      ((pending t'.prog).isSome ∨ ¬ Sole s who') ∧ t'.req.field = t.req.field)
    (hthere : (s.fs.lookup (recordPath cwd strm)).isSome →
      (fs.lookup (recordPath cwd strm)).isSome) :
    Inv cwd strm dName init (goOn s who t fs p) := by
  refine ⟨hi.up, hfile, fun who' t' h hb => ?_, fun who' t' h hb => ?_,
    fun w1 w2 t1 t2 hg1 hg2 hb1 hb2 => ?_, fun who' t' k h hk => ?_, fun who' t' h hr => ?_⟩
  · rcases eq_or_of_update h with ⟨rfl, rfl⟩ | ⟨-, h⟩
    · cases hb
    · exact ⟨(hi.idle who' t' h hb).1, fun hr => hthere ((hi.idle who' t' h hb).2 hr)⟩
  · rcases eq_or_of_update h with ⟨rfl, rfl⟩ | ⟨he, h⟩
    · exact hmine
    · exact (hi.amid who' t' h hb).other (hother who' t' he h hb).1 fun o ho => ho
  · rcases eq_or_of_update hg1 with ⟨rfl, rfl⟩ | ⟨he1, h1⟩
    · rcases eq_or_of_update hg2 with ⟨rfl, rfl⟩ | ⟨he2, h2⟩
      · rfl
      · exact (hother w2 t2 he2 h2 hb2).2.symm
    · rcases eq_or_of_update hg2 with ⟨rfl, rfl⟩ | ⟨he2, h2⟩
      · exact (hother w1 t1 he1 h1 hb1).2
      · exact hi.same w1 w2 t1 t2 h1 h2 hb1 hb2
  · rcases eq_or_of_update h with ⟨rfl, rfl⟩ | ⟨-, h⟩
    · exact hi.field who' t k ht hk
    · exact hi.field who' t' k h hk
  · rcases eq_or_of_update h with ⟨rfl, rfl⟩ | ⟨-, h⟩
    · exact hi.swept who' t ht hr
    · exact hi.swept who' t' h hr

/-- A request is finished: the others are where they were. -/
theorem inv_finish {fs : Fs} (hi : Inv cwd strm dName init s)
    (hfile : FileOk cwd strm init (finished s who t fs))
    (hother : ∀ who' t', who' ≠ who → s.task who' = some t' → t'.begun = true →
      Amid cwd strm dName init (finished s who t fs) who' t')
    (hthere : (s.fs.lookup (recordPath cwd strm)).isSome →
      (fs.lookup (recordPath cwd strm)).isSome) :
    Inv cwd strm dName init (finished s who t fs) := by
  refine ⟨hi.up, hfile, fun who' t' h hb => ?_, fun who' t' h hb => ?_,
    fun w1 w2 t1 t2 h1 h2 => ?_, fun who' t' k h => hi.field who' t' k (ne_of_update_none h).2,
    fun who' t' h => hi.swept who' t' (ne_of_update_none h).2⟩
  · obtain ⟨-, h⟩ := ne_of_update_none h
    exact ⟨(hi.idle who' t' h hb).1, fun hr => hthere ((hi.idle who' t' h hb).2 hr)⟩
  · obtain ⟨he, h⟩ := ne_of_update_none h
    exact hother who' t' he h hb
  · exact hi.same w1 w2 t1 t2 (ne_of_update_none h1).2 (ne_of_update_none h2).2

/-- A read that answers a record: the request is finished or about to write. -/
theorem inv_after (hi : Inv cwd strm dName init s) (hw : Whole init) (ht : s.task who = some t)
    (hf : s.fs.lookup (recordPath cwd strm) = some (.obj o))
    (hb : (t.begun || reads t.prog.next) = true)
    (hother : t.req.write = none ∨ ∀ who' t', who' ≠ who → s.task who' = some t' →
      t'.begun = true → ((pending t'.prog).isSome ∨ ¬ Sole s who') ∧ t'.req.field = t.req.field) :
    Inv cwd strm dName init (resume s who t s.fs (t.req.after strm dName o)) := by
  have hh := holds_of_file hi.file hf
  rcases after_cases who hw (hi.field who t · ht) hh with ⟨hn, hp⟩ | ⟨hn, o', hp, ho⟩
  · rw [hp]
    refine inv_finish hi ?_ (fun who' t' he h hb' => ?_) id
    · simp only [FileOk, hf]
      exact hh.finish_none hn
    · cases hi.amid who' t' h hb' with
      | trunc o hp ho => exact .trunc o hp (ho.after_none hn)
      | write o hp ho => exact .write o hp (ho.after_none hn)
      | create _ hf' => rw [hf] at hf'; cases hf'
      | fill _ hf' => rw [hf] at hf'; cases hf'
      | reread o hp hf' hr hs =>
        refine .reread o hp hf' hr fun w t2 hw h2 => hs w t2 hw ?_
        by_cases he : w = who
        · subst he
          simp at h2
        · simpa only [Function.update_of_ne he] using h2
  · rw [hp]
    rw [objectToFile, resume_call hb]
    refine inv_goOn hi ht ?_ (.trunc o' rfl ho) (hother.resolve_left hn) id
    simp only [FileOk, hf]
    exact hh

/-- A read that answers NULL: the request is about to create the record. -/
theorem inv_missing (hi : Inv cwd strm dName init s) (ht : s.task who = some t)
    (hf : s.fs.lookup (recordPath cwd strm) = none) (hr : t.req ≠ .sweep) (hs : Sole s who)
    (hb : (t.begun || reads t.prog.next) = true) :
    Inv cwd strm dName init (resume s who t s.fs (creating strm dName t.req)) := by
  have hsole : Sole (goOn s who t s.fs (creating strm dName t.req)) who := by
    intro w t' he h
    exact hs w t' he (by simpa only [Function.update_of_ne he] using h)
  have hres : resume s who t s.fs (creating strm dName t.req) =
      goOn s who t s.fs (creating strm dName t.req) := resume_call hb
  rw [hres]
  refine inv_goOn hi ht ?_ (.create rfl hf hr hsole) (fun who' t' he h hb' => ?_) id
  · have := hi.file
    simp only [FileOk, hf] at this ⊢
    exact this
  · rw [hs who' t' he h] at hb'
    cases hb'

/-- The others that have read are not alone, and write the same field. -/
theorem others_of_begun (hi : Inv cwd strm dName init s) (ht : s.task who = some t)
    (hb : t.begun = true) (who' : Who) (t' : Task) (he : who' ≠ who)
    (h : s.task who' = some t') (hb' : t'.begun = true) :
    ((pending t'.prog).isSome ∨ ¬ Sole s who') ∧ t'.req.field = t.req.field := by
  refine ⟨Or.inr fun hs => ?_, hi.same who' who t' t h ht hb' hb⟩
  rw [hs who t he.symm ht] at hb
  cases hb

/-- **A step of a request that has read the record.** -/
theorem inv_begun {fs : Fs} {p : FileProg Unit} (hw : Whole init)
    (hi : Inv cwd strm dName init s) (ht : s.task who = some t) (hb : t.begun = true)
    (h : t.prog.step (fileSem cwd) s.fs = some (p, fs)) :
    Inv cwd strm dName init (resume s who t fs p) := by
  have hb' : (t.begun || reads t.prog.next) = true := by rw [hb, Bool.true_or]
  have hoth := others_of_begun hi ht hb
  have hnone (hs : Sole s who) (who' : Who) (t' : Task) (he : who' ≠ who)
      (h : s.task who' = some t') (hb : t'.begun = true) : False := by
    rw [hs who' t' he h] at hb
    cases hb
  have hsole (hs : Sole s who) (fs : Fs) (p : FileProg Unit) : Sole (goOn s who t fs p) who :=
    fun w t' he h => hs w t' he (by simpa only [Function.update_of_ne he] using h)
  cases hi.amid who t ht hb with
  | trunc o hp ho =>
    rw [hp] at h
    obtain ⟨rfl, rfl⟩ := eq_of_step_call (r := true) _ h rfl
    rw [resolve_fn (hi.swept who t ht)]
    have hres : resume s who t (s.fs.insert (recordPath cwd strm) .bad)
        (if true then op (FileOp.writeAll (t.req.fn strm dName) o) else ret ()) = goOn s who t _
          (.call (FileOp.writeAll (t.req.fn strm dName) o) ret) := resume_call hb'
    rw [hres]
    refine inv_goOn hi ht ?_ (.write o rfl ho) hoth fun _ => ?_
    · simp only [FileOk, AList.lookup_insert]
      exact ⟨who, _, _, o, Function.update_self .., rfl, rfl⟩
    · simp [AList.lookup_insert]
  | write o hp ho =>
    rw [hp] at h
    obtain ⟨rfl, rfl⟩ := eq_of_step_call (r := ()) _ h rfl
    rw [resolve_fn (hi.swept who t ht)]
    refine inv_finish hi ?_ (fun who' t' he h hb'' => ?_) fun _ => ?_
    · simp only [FileOk, AList.lookup_insert]
      exact ho
    · obtain ⟨hs, hf⟩ := hoth who' t' he h hb''
      exact (hi.amid who' t' h hb'').other hs fun o ho => ho.after hf.symm
    · simp [AList.lookup_insert]
  | create hp hf hr hs =>
    rw [hp] at h
    obtain ⟨rfl, rfl⟩ := eq_of_step_call (r := true) _ h rfl
    have hres : resume s who t (s.fs.insert (recordPath cwd strm) .bad)
        (.call (FileOp.writeAll (jsonFileWithAddr (some strm)) (defaults strm)) fun _ =>
          reread strm dName t.req) = goOn s who t _ _ := resume_call hb'
    show Inv cwd strm dName init (resume s who t (s.fs.insert (recordPath cwd strm) .bad)
        (.call (FileOp.writeAll (jsonFileWithAddr (some strm)) (defaults strm)) fun _ =>
          reread strm dName t.req))
    rw [hres]
    have hh := hi.file
    simp only [FileOk, hf] at hh
    refine inv_goOn hi ht ?_ (.fill rfl (by simp [AList.lookup_insert]) hh hr (hsole hs _ _))
      (fun who' t' he h hb => (hnone hs who' t' he h hb).elim) fun _ => ?_
    · simp only [FileOk, AList.lookup_insert]
      exact ⟨who, _, _, _, Function.update_self .., rfl, rfl⟩
    · simp [AList.lookup_insert]
  | fill hp hf hh hr hs =>
    rw [hp] at h
    obtain ⟨rfl, rfl⟩ := eq_of_step_call (r := ()) _ h rfl
    have hres : resume s who t (s.fs.insert (recordPath cwd strm) (.obj (defaults strm)))
        (reread strm dName t.req) = goOn s who t _ (reread strm dName t.req) := resume_call hb'
    show Inv cwd strm dName init
      (resume s who t (s.fs.insert (recordPath cwd strm) (.obj (defaults strm)))
        (reread strm dName t.req))
    rw [hres]
    refine inv_goOn hi ht ?_ (.reread _ rfl (by rw [AList.lookup_insert]) hr (hsole hs _ _))
      (fun who' t' he h hb => (hnone hs who' t' he h hb).elim) fun _ => ?_
    · simp only [FileOk, AList.lookup_insert]
      exact hh
    · simp [AList.lookup_insert]
  | reread o hp hf hr hs =>
    rw [hp] at h
    obtain ⟨rfl, rfl⟩ := eq_of_step_call (r := some o) _ h
      (by rw [fileSem, objAt_eq_some_iff.mpr hf])
    exact inv_after hi hw ht hf hb'
      (Or.inr fun who' t' he h hb => (hnone hs who' t' he h hb).elim)

/-- **The first read of a request.** -/
theorem inv_idle {fs : Fs} {p : FileProg Unit} (hw : Whole init)
    (hi : Inv cwd strm dName init s) (hc : Serial cwd strm s (.step who))
    (ht : s.task who = some t) (hb : t.begun = false)
    (h : t.prog.step (fileSem cwd) s.fs = some (p, fs)) :
    Inv cwd strm dName init (resume s who t fs p) := by
  obtain ⟨hp, hthere⟩ := hi.idle who t ht hb
  have hr : reads t.prog.next = true := by rw [hp, prog_eq]; rfl
  have hb' : (t.begun || reads t.prog.next) = true := by rw [hr, Bool.or_true]
  have hc := hc t ht hr
  have hall : ∀ w : Who, w ∈ [Who.dev, .plyr, .sweep] := fun w => by cases w <;> decide
  rw [hp, prog_eq] at h
  obtain ⟨rfl, rfl⟩ := eq_of_step_call (r := objAt cwd s.fs (jsonFileWithAddr (some strm))) _ h
    (by rw [fileSem, objAt_fn (hi.swept who t ht)])
  rcases ho : objAt cwd s.fs (jsonFileWithAddr (some strm)) with _ | o
  · have hs : Sole s who := by
      rcases hc with hc | ⟨hc, -⟩
      · exact fun w t' he h => hc w (hall w) he t' h
      · rw [ho] at hc
        cases hc
    have hf : s.fs.lookup (recordPath cwd strm) = none := by
      rcases hl : s.fs.lookup (recordPath cwd strm) with _ | f
      · rfl
      · cases f with
        | obj o' =>
          rw [objAt_eq_some_iff.mpr hl] at ho
          cases ho
        | bad =>
          have hfile := hi.file
          simp only [FileOk, hl] at hfile
          obtain ⟨w, t', fn, o, h', hb'', hn⟩ := hfile
          by_cases he : w = who
          · subst he
            rw [ht] at h'
            cases h'
            rw [hb] at hb''
            cases hb''
          · rw [hs w t' he h'] at hb''
            cases hb''
    have hne : t.req ≠ .sweep := by
      intro hsweep
      have := hthere hsweep
      rw [hf] at this
      cases this
    simp only [if_neg hne]
    exact inv_missing hi ht hf hne hs hb'
  · refine inv_after hi hw ht (objAt_eq_some_iff.mp ho) hb' ?_
    rcases hc with hc | ⟨-, hc | hc⟩
    · refine Or.inr fun w t' he h hb'' => ?_
      rw [hc w (hall w) he t' h] at hb''
      cases hb''
    · exact Or.inl hc
    · refine Or.inr fun w t' he h hb'' => ?_
      obtain ⟨h1, h2⟩ := hc w (hall w) he t' h hb''
      exact ⟨Or.inl h1, h2⟩

end Steps

theorem allowed_key {who : Who} {k : Bytes} (h : Allowed who (.get k)) : k ∈ keys := by
  cases who with
  | dev => exact h
  | plyr => exact h
  | sweep => exact h.elim

theorem inv_start {s : Sys} {who : Who} {req : Req} (hi : Inv cwd strm dName init s)
    (hn : s.task who = none) (hal : Allowed who req)
    (hfound : req = .sweep → Swept cwd strm dName ∧ (s.fs.lookup (recordPath cwd strm)).isSome) :
    Inv cwd strm dName init { s with
      task := Function.update s.task who (some ⟨req, req.prog strm dName, false⟩)
      log := .start who req :: s.log } := by
  have hsole : ∀ w, Sole s w → Sole { s with
      task := Function.update s.task who (some ⟨req, req.prog strm dName, false⟩)
      log := .start who req :: s.log } w := by
    intro w hs w' t he h
    rcases eq_or_of_update h with ⟨-, rfl⟩ | ⟨-, h⟩
    · rfl
    · exact hs w' t he h
  refine ⟨hi.up, ?_, fun w t h hb => ?_, fun w t h hb => ?_, fun w1 w2 t1 t2 h1 h2 hb1 hb2 => ?_,
    fun w t k h hk => ?_, fun w t h hr => ?_⟩
  · have hf := hi.file
    unfold FileOk at hf ⊢
    split
    · next o hl => rw [hl] at hf; exact hf
    · next hl =>
      rw [hl] at hf
      obtain ⟨w, t, fn, o, h, hb, hx⟩ := hf
      refine ⟨w, t, fn, o, ?_, hb, hx⟩
      have he : w ≠ who := by
        rintro rfl
        rw [hn] at h
        cases h
      exact (Function.update_of_ne he _ _).trans h
    · next hl => rw [hl] at hf; exact hf
  · rcases eq_or_of_update h with ⟨rfl, rfl⟩ | ⟨-, h⟩
    · exact ⟨rfl, fun hr => (hfound hr).2⟩
    · exact hi.idle w t h hb
  · rcases eq_or_of_update h with ⟨rfl, rfl⟩ | ⟨he, h⟩
    · cases hb
    · cases hi.amid w t h hb with
      | trunc o hp ho => exact .trunc o hp ho
      | write o hp ho => exact .write o hp ho
      | create hp hf hr hs => exact .create hp hf hr (hsole w hs)
      | fill hp hf hh hr hs => exact .fill hp hf hh hr (hsole w hs)
      | reread o hp hf hr hs => exact .reread o hp hf hr (hsole w hs)
  · rcases eq_or_of_update h1 with ⟨-, rfl⟩ | ⟨-, h1⟩
    · cases hb1
    · rcases eq_or_of_update h2 with ⟨-, rfl⟩ | ⟨-, h2⟩
      · cases hb2
      · exact hi.same w1 w2 t1 t2 h1 h2 hb1 hb2
  · rcases eq_or_of_update h with ⟨-, rfl⟩ | ⟨-, h⟩
    · obtain rfl : req = .get k := hk
      exact allowed_key hal
    · exact hi.field w t k h hk
  · rcases eq_or_of_update h with ⟨-, rfl⟩ | ⟨-, h⟩
    · exact (hfound hr).1
    · exact hi.swept w t h hr

/-- **A step keeps the invariant** if no request reads between the read and the write of another
one. -/
theorem inv_step {s s' : Sys} {l : Lbl} (hw : Whole init)
    (hi : Hist s ∧ Inv cwd strm dName init s) (hc : Serial cwd strm s l)
    (h : step cwd strm dName s l = some s') : Hist s' ∧ Inv cwd strm dName init s' := by
  obtain ⟨hh, hi⟩ := hi
  cases l with
  | start who req =>
    simp only [step] at h
    split_ifs at h with hg
    cases h
    obtain ⟨-, hn, hal, hfound⟩ := hg
    rw [Option.isNone_iff_eq_none] at hn
    exact ⟨hist_start (t := ⟨req, req.prog strm dName, false⟩) hh hn,
      inv_start hi hn hal hfound⟩
  | step who =>
    simp only [step] at h
    split at h
    case h_2 => cases h
    case h_1 t ht =>
      rw [if_pos hi.up, Option.map_eq_some_iff] at h
      obtain ⟨⟨p, fs⟩, h, rfl⟩ := h
      refine ⟨hist_resume hh ht fs p, ?_⟩
      rcases hb : t.begun with _ | _
      · exact inv_idle hw hi hc ht hb h
      · exact inv_begun hw hi ht hb h

theorem inv_of_initial {s : Sys} (h : Initial cwd strm init s) :
    Hist s ∧ Inv cwd strm dName init s := by
  obtain ⟨ht, hu, hl, hw, hf⟩ := h
  refine ⟨⟨?_, ?_, ?_⟩, hu, ?_, ?_, ?_, ?_, ?_, ?_⟩
  case refine_4 =>
    unfold FileOk
    rw [hl]
    split at hf
    · exact fun k _ => by rw [hf]; rfl
    · exact hf.elim
    · exact fun k _ => by rw [← hf]; rfl
  all_goals simp [ht, hl]

theorem kept_of_inv {s : Sys} (hw : Whole init) (hh : Hist s) (hi : Inv cwd strm dName init s) :
    Kept cwd strm init s := by
  refine ⟨fun o ho k hk => ?_, fun hq k hk => ?_⟩
  · obtain ⟨v, hv, hs, -⟩ := standing_of_value hh hw hk
    exact ⟨v, (holds_of_file hi.file (objAt_eq_some_iff.mp ho) k hk).trans hv, hs⟩
  · obtain ⟨v, hv, -, hs⟩ := standing_of_value hh hw hk
    refine ⟨v, ?_, hs hq⟩
    rw [← hv]
    have hf := hi.file
    unfold FileOk at hf
    split at hf
    · next o hl =>
      rw [record, objAt_eq_some_iff.mpr hl]
      exact hf k hk
    · obtain ⟨w, t, -, -, h, -⟩ := hf
      rw [hq w] at h
      cases h
    · next hl =>
      rw [record, objAt]
      unfold recordPath at hl
      rw [hl]
      exact hf k hk

/-- **The record keeps its values** in every run in which no request reads between the read and
the write of a request that writes another field, or while the file is truncated. -/
theorem updates_kept {s s' : Sys} {es : List Lbl} (hi : Initial cwd strm init s)
    (hm : Meets (step cwd strm dName) (Serial cwd strm) s es)
    (hr : run (step cwd strm dName) s es = some s') : Kept cwd strm init s' := by
  have hw : Whole init := hi.2.2.2.1
  have hinv : Hist s' ∧ Inv cwd strm dName init s' :=
    hm.inv (fun _ _ _ => inv_step hw) (inv_of_initial hi) hr
  exact kept_of_inv hw hinv.1 hinv.2

end System

/-! ### Updates that are kept, and one that is lost -/

/-- No request is being worked on, and the store is `fs`. -/
def atRest (fs : Fs) : Sys where
  fs := fs
  task := fun _ => none
  up := true
  log := []

/-- The device thread creates the record. Then it marks the action done while the player stores
another one, and the sweep comes last. -/
def apart : List Lbl :=
  .start .dev (.set (lit "status") (lit "live")) :: List.replicate 6 (.step .dev) ++
    [.start .plyr (.set (lit "action") (lit "off")),
      .start .dev (.set (lit "action") (lit "done")), .step .plyr, .step .dev, .step .plyr,
      .step .plyr, .step .dev, .step .dev, .start .sweep .sweep, .step .sweep, .step .sweep,
      .step .sweep]

/-- The player stores an action while the device thread stores its status. -/
def overlapping : List Lbl :=
  [.start .dev (.set (lit "status") (lit "live")), .start .plyr (.set (lit "action") (lit "off")),
    .step .dev, .step .plyr, .step .dev, .step .dev, .step .plyr, .step .plyr]

theorem updates_kept_apart :
    ∃ s', run (step [] (lit "cam") (lit "cam.json")) (atRest ∅) apart = some s' ∧
      s'.log.length = 8 ∧ Kept [] (lit "cam") (defaults (lit "cam")) s' := by
  have hlen : (run (step [] (lit "cam") (lit "cam.json")) (atRest ∅) apart).map
      (fun s => s.log.length) = some 8 := by decide +kernel
  obtain ⟨s', hr, hl⟩ := Option.map_eq_some_iff.mp hlen
  have hi : Initial [] (lit "cam") (defaults (lit "cam")) (atRest ∅) :=
    ⟨fun _ => rfl, rfl, rfl, whole_defaults _, rfl⟩
  exact ⟨s', hr, hl, updates_kept hi (by decide +kernel) hr⟩

/-- **A status that is lost to the store of an action.** -/
theorem update_lost :
    ¬ ∀ (cwd : Path) (strm dName : Bytes) (init : Obj) (s s' : Sys) (es : List Lbl),
      Initial cwd strm init s → run (step cwd strm dName) s es = some s' →
        Kept cwd strm init s' := by
  intro h
  set s := atRest (store [] ∅ (lit "cam") (defaults (lit "cam"))) with hs
  have hout : (run (step [] (lit "cam") (lit "cam.json")) s overlapping).map (fun s =>
      (s.log, (getEx (record [] s.fs (lit "cam")) (lit "status")).bind getString,
        [s.task .dev, s.task .plyr, s.task .sweep].all Option.isNone)) =
      some ([.finish .plyr (.set (lit "action") (lit "off")),
        .finish .dev (.set (lit "status") (lit "live")),
        .start .plyr (.set (lit "action") (lit "off")),
        .start .dev (.set (lit "status") (lit "live"))], some (lit "off"), true) := by
    decide +kernel
  obtain ⟨s', hr, he⟩ := Option.map_eq_some_iff.mp hout
  simp only [Prod.mk.injEq, List.all_cons, List.all_nil, Bool.and_true, Bool.and_eq_true,
    Option.isNone_iff_eq_none] at he
  obtain ⟨hl, hst, h1, h2, h3⟩ := he
  have hi : Initial [] (lit "cam") (defaults (lit "cam")) s := by
    refine ⟨fun _ => rfl, rfl, rfl, whole_defaults _, ?_⟩
    rw [hs, atRest, store, AList.lookup_insert]
  obtain ⟨v, hv, hset⟩ := (h [] (lit "cam") (lit "cam.json") _ s s' overlapping hi hr).2
    (fun who => by cases who <;> assumption) (lit "status") mem_keys_status
  rw [hv, Option.bind_some, getString, Option.some.injEq] at hst
  have hw : ∀ who req, .finish who req ∈ s'.log → req.write = some (lit "status", v) →
      v = lit "live" := by
    intro who req hm hw
    simp only [hl, List.mem_cons, Ev.finish.injEq, reduceCtorEq, List.not_mem_nil, or_false] at hm
    obtain ⟨-, rfl⟩ | ⟨-, rfl⟩ := hm
    · exact absurd (Prod.mk.inj (Option.some.inj hw)).1 (by decide)
    · exact ((Prod.mk.inj (Option.some.inj hw)).2).symm
  rcases hset with ⟨newer, older, who, req, hlog, hq, -⟩ | ⟨-, hn⟩
  · rw [hw who req (by rw [hlog]; simp) hq] at hst
    exact absurd hst (by decide)
  · exact hn .dev (.set (lit "status") (lit "live")) (lit "live") (by rw [hl]; simp) rfl

end LiveStreamer.StreamerServer.Updates
