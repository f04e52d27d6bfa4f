import LiveStreamer.Lib.CString
import LiveStreamer.Lib.Program

/-! # Strings that are passed to the C library

`StrOp Op` are the operations `Op` of a program and, beside them, its calls of library functions
that take strings. A `char *` may be NULL: a comparison, the making of a new string value and `puts`
need a string, and end the process without one; a `%s` conversion prints something for NULL, but is
not allowed to be given it (`NoNull`). A `printf` whose format is a `%s` and a line end is compiled
to `puts`.

`erase` leaves out these calls and keeps what they answer. It does not change what a program does
(`exec_erase`). -/

namespace LiveStreamer.Lib.StringCalls

open LiveStreamer.Lib.CString LiveStreamer.Lib.Program LiveStreamer.Lib.Program.Prog

inductive StrOp (Op : Type) where
  | own (o : Op)
  /-- `strcmp(a, b) == 0`. -/
  | strcmp (a b : Option Bytes)
  /-- The `%s` conversions of a `printf`, `sprintf` or `snprintf`. -/
  | format (args : List (Option Bytes))
  /-- A `printf` of a string and a line end. -/
  | puts (str : Option Bytes)
  /-- `json_object_new_string`. -/
  | newString (value : Option Bytes)

@[reducible] def StrRet {Op : Type} (Ret : Op → Type) : StrOp Op → Type
  | .own o => Ret o
  | .strcmp _ _ => Bool
  | .format _ => Unit
  | .puts _ => Unit
  | .newString _ => Bytes

variable {Op : Type} {Ret : Op → Type} {α β σ : Type}

/-! ### The calls -/

def own (o : Op) : Prog (StrOp Op) (StrRet Ret) (Ret o) := op (StrOp.own o)

def strcmp (a b : Option Bytes) : Prog (StrOp Op) (StrRet Ret) Bool := op (StrOp.strcmp a b)

def format (args : List (Option Bytes)) : Prog (StrOp Op) (StrRet Ret) Unit :=
  op (StrOp.format args)

def puts (str : Option Bytes) : Prog (StrOp Op) (StrRet Ret) Unit := op (StrOp.puts str)

def newString (value : Option Bytes) : Prog (StrOp Op) (StrRet Ret) Bytes :=
  op (StrOp.newString value)

/-- The strings that a call is given. -/
def StrOp.args : StrOp Op → List (Option Bytes)
  | .own _ => []
  | .strcmp a b => [a, b]
  | .format args => args
  | .puts str => [str]
  | .newString value => [value]

/-- No string that the call is given is NULL. -/
def NoNull (o : StrOp Op) : Prop := none ∉ o.args

/-- The meaning of the calls, over a meaning of the other operations. -/
def withStrings (sem : Sem Op Ret σ) : Sem (StrOp Op) (StrRet Ret) σ
  | .own o, s => sem o s
  | .strcmp (some a) (some b), s => (some (decide (a = b)), s)
  | .strcmp _ _, s => (none, s)
  | .format _, s => (some (), s)
  | .puts (some _), s => (some (), s)
  | .puts none, s => (none, s)
  | .newString (some value), s => (some value, s)
  | .newString none, s => (none, s)

/-! ### Leaving out the calls -/

/-- The program without the calls that are given strings. -/
def erase : Prog (StrOp Op) (StrRet Ret) α → Prog Op Ret α
  | .ret a => .ret a
  | .abort => .abort
  | .call (.own o) k => .call o fun r => erase (k r)
  | .call (.strcmp (some a) (some b)) k => erase (k (decide (a = b)))
  | .call (.strcmp _ _) _ => .abort
  | .call (.format _) k => erase (k ())
  | .call (.puts (some _)) k => erase (k ())
  | .call (.puts none) _ => .abort
  | .call (.newString (some value)) k => erase (k value)
  | .call (.newString none) _ => .abort

theorem erase_strcmp (a b : Bytes) (k : Bool → Prog (StrOp Op) (StrRet Ret) α) :
    erase (strcmp (some a) (some b) >>= k) = erase (k (decide (a = b))) := rfl

theorem erase_bind (p : Prog (StrOp Op) (StrRet Ret) α) (f : α → Prog (StrOp Op) (StrRet Ret) β) :
    erase (p >>= f) = erase p >>= fun a => erase (f a) := by
  induction p with
  | ret a => rfl
  | abort => rfl
  | call o k ih =>
    cases o with
    | own o => exact congrArg (call o) (funext ih)
    | strcmp a b =>
      rcases a with _ | a
      · rfl
      · rcases b with _ | b
        · rfl
        · exact ih (decide (a = b))
    | format args => exact ih ()
    | puts str =>
      rcases str with _ | str
      · rfl
      · exact ih ()
    | newString value =>
      rcases value with _ | value
      · rfl
      · exact ih value

/-- **Without the calls a program does the same.** -/
theorem exec_erase (sem : Sem Op Ret σ) (p : Prog (StrOp Op) (StrRet Ret) α) (s : σ) :
    exec sem (erase p) s = exec (withStrings sem) p s := by
  induction p generalizing s with
  | ret a => rfl
  | abort => rfl
  | call o k ih =>
    cases o with
    | own o =>
      have hown : withStrings sem (.own o) s = sem o s := rfl
      rcases h : sem o s with ⟨_ | r, s'⟩
      · rw [exec_call_none _ (hown.trans h)]
        exact exec_call_none _ h
      · rw [exec_call_some _ (hown.trans h), ← ih r s']
        exact exec_call_some _ h
    | strcmp a b =>
      rcases a with _ | a
      · rfl
      · rcases b with _ | b
        · rfl
        · exact ih (decide (a = b)) s
    | format args => exact ih () s
    | puts str =>
      rcases str with _ | str
      · rfl
      · exact ih () s
    | newString value =>
      rcases value with _ | value
      · rfl
      · exact ih value s

/-! ### Runs without NULL -/

section Clean
variable {sem : Sem Op Ret σ} {Q : α → σ → Prop} {s : σ}

/-- The run completes and gives NULL to no call. -/
abbrev CleanRun (sem : Sem Op Ret σ) (Q : α → σ → Prop) (p : Prog (StrOp Op) (StrRet Ret) α)
    (s : σ) : Prop := Clean (withStrings sem) NoNull Q p s

theorem clean_own {o : Op} {r : Ret o} {s' : σ} (h : sem o s = (some r, s'))
    (k : Ret o → Prog (StrOp Op) (StrRet Ret) α) :
    CleanRun sem Q (own o >>= k) s ↔ CleanRun sem Q (k r) s' := by
  have hown : withStrings sem (.own o) s = (some r, s') := h
  have hnull : NoNull (.own o : StrOp Op) := List.not_mem_nil
  rw [own, op_bind, CleanRun, clean_call_some hown, and_iff_right hnull]

theorem clean_own_none {o : Op} {s' : σ} (h : sem o s = (none, s'))
    (k : Ret o → Prog (StrOp Op) (StrRet Ret) α) :
    CleanRun sem Q (own o >>= k) s ↔ False := by
  have hown : withStrings sem (.own o) s = (none, s') := h
  rw [own, op_bind, iff_false]
  exact clean_call_none hown

theorem clean_strcmp (a b : Option Bytes) (k : Bool → Prog (StrOp Op) (StrRet Ret) α) :
    CleanRun sem Q (strcmp a b >>= k) s ↔
      ∃ a' b', a = some a' ∧ b = some b' ∧ CleanRun sem Q (k (decide (a' = b'))) s := by
  rw [strcmp, op_bind, CleanRun]
  rcases a with _ | a
  · simp [Clean, withStrings]
  · rcases b with _ | b
    · simp [Clean, withStrings]
    · simp [Clean, withStrings, NoNull, StrOp.args]

theorem clean_format (args : List (Option Bytes)) (k : Unit → Prog (StrOp Op) (StrRet Ret) α) :
    CleanRun sem Q (format args >>= k) s ↔ none ∉ args ∧ CleanRun sem Q (k ()) s := by
  simp [format, CleanRun, Clean, withStrings, NoNull, StrOp.args]

theorem clean_puts (str : Option Bytes) (k : Unit → Prog (StrOp Op) (StrRet Ret) α) :
    CleanRun sem Q (puts str >>= k) s ↔ str ≠ none ∧ CleanRun sem Q (k ()) s := by
  rw [puts, op_bind, CleanRun]
  rcases str with _ | str
  · simp [Clean, withStrings]
  · simp [Clean, withStrings, NoNull, StrOp.args]

theorem clean_newString (value : Option Bytes) (k : Bytes → Prog (StrOp Op) (StrRet Ret) α) :
    CleanRun sem Q (newString value >>= k) s ↔
      ∃ v, value = some v ∧ CleanRun sem Q (k v) s := by
  rw [newString, op_bind, CleanRun]
  rcases value with _ | v
  · simp [Clean, withStrings]
  · simp [Clean, withStrings, NoNull, StrOp.args]

end Clean

end LiveStreamer.Lib.StringCalls
