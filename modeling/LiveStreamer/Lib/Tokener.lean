import LiveStreamer.Lib.CString

/-! # JSON values and their text

Values are null, booleans, 64-bit integers, other numbers (kept as written), strings of bytes,
arrays, and objects, whose members are in the order of first insertion with one entry per key
(`add` replaces, `getEx` looks up).

`tokenerParse` reads a JSON value at the start of a text. A string is read byte by byte by `scan`,
a machine with the states of an escape sequence (`Esc`) and a pending high surrogate; `value` is
bounded in depth, and reads objects and arrays by the loops `members` and `elements`. `print`
writes a value with a blank after each bracket, comma and colon, and escapes strings. `getString`
is the value as a C string: the bytes of a string, the text of any other value, nothing for null.
-/

namespace LiveStreamer.Lib.Tokener

open LiveStreamer.Lib.CString

inductive Json where
  | null
  | bool (b : Bool)
  | int (i : ℤ)
  | double (raw : Bytes)
  | str (s : Bytes)
  | arr (l : List Json)
  | obj (l : List (Bytes × Json))

/-- The members of an object. -/
abbrev Obj := List (Bytes × Json)

/-- Set a member: a key that is there keeps its place. -/
def add : Obj → Bytes → Json → Obj
  | [], k, v => [(k, v)]
  | (k', v') :: o, k, v => if k' = k then (k, v) :: o else (k', v') :: add o k v

/-- Look up a member. -/
def getEx : Obj → Bytes → Option Json
  | [], _ => none
  | (k', v') :: o, k => if k' = k then some v' else getEx o k

@[simp] theorem getEx_add_self (o : Obj) (k : Bytes) (v : Json) : getEx (add o k v) k = some v := by
  induction o with
  | nil => simp [add, getEx]
  | cons p o ih =>
    obtain ⟨k', v'⟩ := p
    unfold add
    split_ifs with h
    · simp [getEx]
    · simp [getEx, h, ih]

theorem getEx_add_ne (o : Obj) {k l : Bytes} (v : Json) (h : k ≠ l) :
    getEx (add o k v) l = getEx o l := by
  induction o with
  | nil => simp [add, getEx, h]
  | cons p o ih =>
    obtain ⟨k', v'⟩ := p
    unfold add
    split_ifs with hk
    · subst hk; simp [getEx, h]
    · simp [getEx, ih]

theorem add_add (o : Obj) (k : Bytes) (v w : Json) : add (add o k v) k w = add o k w := by
  induction o with
  | nil => simp [add]
  | cons p o ih =>
    obtain ⟨k', v'⟩ := p
    by_cases h : k' = k
    · simp [add, h]
    · simp [add, h, ih]

/-! ### Reading a string -/

/-- Where the reader of a string is: between characters, after a backslash, or with `k` hex digits
of an escape still to come. -/
inductive Esc where
  | plain
  | esc
  | hex (k acc : ℕ)

/-- The value of a hex digit. -/
def hexVal (c : UInt8) : Option ℕ :=
  if 0x30 ≤ c ∧ c ≤ 0x39 then some (c.toNat - 0x30)
  else if 0x41 ≤ c ∧ c ≤ 0x46 then some (c.toNat - 0x37)
  else if 0x61 ≤ c ∧ c ≤ 0x66 then some (c.toNat - 0x57)
  else none

/-- The character a backslash and `c` stand for. -/
def unescape (c : UInt8) : Option UInt8 :=
  if c = 0x22 ∨ c = 0x5c ∨ c = 0x2f then some c
  else if c = 0x62 then some 0x08
  else if c = 0x66 then some 0x0c
  else if c = 0x6e then some 0x0a
  else if c = 0x72 then some 0x0d
  else if c = 0x74 then some 0x09
  else none

/-- The UTF-8 bytes of a code point. -/
def utf8 (u : ℕ) : Bytes :=
  if u < 0x80 then [u.toUInt8]
  else if u < 0x800 then [(0xc0 + u / 0x40).toUInt8, (0x80 + u % 0x40).toUInt8]
  else if u < 0x10000 then
    [(0xe0 + u / 0x1000).toUInt8, (0x80 + u / 0x40 % 0x40).toUInt8, (0x80 + u % 0x40).toUInt8]
  else
    [(0xf0 + u / 0x40000).toUInt8, (0x80 + u / 0x1000 % 0x40).toUInt8,
      (0x80 + u / 0x40 % 0x40).toUInt8, (0x80 + u % 0x40).toUInt8]

/-- A high surrogate that no low one follows becomes the replacement character. -/
def flush (hi : Option ℕ) : Bytes := if hi.isSome then [0xef, 0xbf, 0xbd] else []

/-- A code unit without a surrogate before it: what it writes, and the high surrogate it leaves. -/
def loneUnit (u : ℕ) : Bytes × Option ℕ :=
  if 0xd800 ≤ u ∧ u < 0xdc00 then ([], some u)
  else if 0xdc00 ≤ u ∧ u < 0xe000 then (flush (some u), none)
  else (utf8 u, none)

/-- A code unit after the pending high surrogate `hi`. -/
def codeUnit (hi : Option ℕ) (u : ℕ) : Bytes × Option ℕ :=
  match hi with
  | none => loneUnit u
  | some h =>
    if 0xdc00 ≤ u ∧ u < 0xe000 then
      (utf8 (0x10000 + (h - 0xd800) * 0x400 + (u - 0xdc00)), none)
    else (flush hi ++ (loneUnit u).1, (loneUnit u).2)

/-- Put decoded bytes before what the rest decodes to. -/
def emit (out : Bytes) (r : Option (Bytes × Bytes)) : Option (Bytes × Bytes) :=
  r.map fun p => (out ++ p.1, p.2)

/-- Read a string after its opening quote: its bytes, and the text after its closing quote. -/
def scan : Option ℕ → Esc → Bytes → Option (Bytes × Bytes)
  | _, _, [] => none
  | hi, .plain, c :: t =>
    if c = 0x22 then some (flush hi, t)
    else if c = 0x5c then scan hi .esc t
    else if c < 0x20 then none
    else emit (flush hi ++ [c]) (scan none .plain t)
  | hi, .esc, c :: t =>
    if c = 0x75 then scan hi (.hex 4 0) t
    else
      match unescape c with
      | some d => emit (flush hi ++ [d]) (scan none .plain t)
      | none => none
  | hi, .hex k acc, c :: t =>
    match hexVal c with
    | some d =>
      if k ≤ 1 then
        emit (codeUnit hi (acc * 16 + d)).1 (scan (codeUnit hi (acc * 16 + d)).2 .plain t)
      else scan hi (.hex (k - 1) (acc * 16 + d)) t
    | none => none

/-! ### Reading a value -/

/-- Blanks between tokens. -/
def isWs (c : UInt8) : Bool := c = 0x20 ∨ c = 0x09 ∨ c = 0x0a ∨ c = 0x0d

def skipWs (t : Bytes) : Bytes := t.dropWhile isWs

/-- The text after the token `c`, if that is what comes next. -/
def expect (c : UInt8) (t : Bytes) : Option Bytes :=
  match skipWs t with
  | [] => none
  | x :: r => if x = c then some r else none

/-- The text after the word `w`, if the text starts with it. -/
def word : Bytes → Bytes → Option Bytes
  | [], t => some t
  | _ :: _, [] => none
  | c :: w, x :: t => if x = c then word w t else none

def isDigit (c : UInt8) : Bool := 0x30 ≤ c ∧ c ≤ 0x39

/-- The number a list of digits writes. -/
def decimal (ds : Bytes) : ℕ := ds.foldl (fun n c => n * 10 + (c.toNat - 0x30)) 0

/-- Integers are kept in 64 bits. -/
def int64 (i : ℤ) : ℤ :=
  if i < -9223372036854775808 then -9223372036854775808
  else if 9223372036854775807 < i then 9223372036854775807
  else i

/-- The fraction of a number, if it has one, and the text after it. -/
def fraction (t : Bytes) : Option (Bytes × Bytes) :=
  match t with
  | c :: t' =>
    if c = 0x2e then
      if t'.takeWhile isDigit = [] then none
      else some (c :: t'.takeWhile isDigit, t'.dropWhile isDigit)
    else some ([], t)
  | [] => some ([], [])

/-- The sign of an exponent, if it has one. -/
def sign (t : Bytes) : Bytes × Bytes :=
  match t with
  | c :: t' => if c = 0x2b ∨ c = 0x2d then ([c], t') else ([], t)
  | [] => ([], [])

/-- The exponent of a number, if it has one, and the text after it. -/
def exponent (t : Bytes) : Option (Bytes × Bytes) :=
  match t with
  | c :: t' =>
    if c = 0x65 ∨ c = 0x45 then
      if (sign t').2.takeWhile isDigit = [] then none
      else some (c :: (sign t').1 ++ (sign t').2.takeWhile isDigit, (sign t').2.dropWhile isDigit)
    else some ([], t)
  | [] => some ([], [])

/-- A number without its sign; `s` is the text of the sign. -/
def unsigned (s t : Bytes) : Option (Json × Bytes) :=
  let ds := t.takeWhile isDigit
  if ds = [] ∨ (ds.head? = some 0x30 ∧ ds.length ≠ 1) then none
  else
    (fraction (t.dropWhile isDigit)).bind fun f =>
      (exponent f.2).map fun e =>
        if f.1 = [] ∧ e.1 = [] then
          (.int (int64 (if s = [] then decimal ds else -decimal ds)), e.2)
        else (.double (s ++ ds ++ f.1 ++ e.1), e.2)

def number (t : Bytes) : Option (Json × Bytes) :=
  match t with
  | c :: t' => if c = 0x2d then unsigned [c] t' else unsigned [] t
  | [] => none

/-- The elements of an array after its bracket, each read by `pv`; at most `n` of them. -/
def elements (pv : Bytes → Option (Json × Bytes)) : ℕ → Bytes → Option (List Json × Bytes)
  | 0, _ => none
  | n + 1, t =>
    (pv t).bind fun p =>
      match expect 0x2c p.2 with
      | some t' => (elements pv n t').map fun q => (p.1 :: q.1, q.2)
      | none => (expect 0x5d p.2).map fun t' => ([p.1], t')

/-- The members of an object after its brace, added to `o`; at most `n` of them. -/
def members (pv : Bytes → Option (Json × Bytes)) : ℕ → Obj → Bytes → Option (Obj × Bytes)
  | 0, _, _ => none
  | n + 1, o, t =>
    (expect 0x22 t).bind fun t1 =>
      (scan none .plain t1).bind fun k =>
        (expect 0x3a k.2).bind fun t2 =>
          (pv t2).bind fun p =>
            match expect 0x2c p.2 with
            | some t' => members pv n (add o (cstr k.1) p.1) t'
            | none => (expect 0x7d p.2).map fun t' => (add o (cstr k.1) p.1, t')

/-- Read a value of depth at most `d`: the value and the text after it. -/
def value : ℕ → Bytes → Option (Json × Bytes)
  | 0, _ => none
  | d + 1, t =>
    match skipWs t with
    | [] => none
    | c :: r =>
      if c = 0x22 then (scan none .plain r).map fun p => (.str p.1, p.2)
      else if c = 0x7b then
        match expect 0x7d r with
        | some r' => some (.obj [], r')
        | none => (members (value d) r.length [] r).map fun p => (.obj p.1, p.2)
      else if c = 0x5b then
        match expect 0x5d r with
        | some r' => some (.arr [], r')
        | none => (elements (value d) r.length r).map fun p => (.arr p.1, p.2)
      else if c = 0x74 then (word (lit "rue") r).map fun r' => (.bool true, r')
      else if c = 0x66 then (word (lit "alse") r).map fun r' => (.bool false, r')
      else if c = 0x6e then (word (lit "ull") r).map fun r' => (.null, r')
      else number (c :: r)

/-- The depth to which values may be nested. -/
def maxDepth : ℕ := 32

/-- Read the value a text starts with. -/
def tokenerParse (t : Bytes) : Option Json := (value maxDepth t).map Prod.fst

/-- The `json_tokener_parse` that a program is linked with. -/
class JsonC where
  parse : Bytes → Option Json

/-- A library that reads JSON and nothing else, and keeps numbers as they are written. -/
instance strict : JsonC := ⟨tokenerParse⟩

/-! ### Writing a value -/

def hexDigit (n : ℕ) : UInt8 := if n < 10 then (0x30 + n).toUInt8 else (0x57 + n).toUInt8

/-- A byte inside a string. -/
def escape (c : UInt8) : Bytes :=
  if c = 0x22 ∨ c = 0x5c ∨ c = 0x2f then [0x5c, c]
  else if c = 0x08 then [0x5c, 0x62]
  else if c = 0x0c then [0x5c, 0x66]
  else if c = 0x0a then [0x5c, 0x6e]
  else if c = 0x0d then [0x5c, 0x72]
  else if c = 0x09 then [0x5c, 0x74]
  else if c < 0x20 then lit "\\u00" ++ [hexDigit (c.toNat / 16), hexDigit (c.toNat % 16)]
  else [c]

def printStr (s : Bytes) : Bytes := [0x22] ++ s.flatMap escape ++ [0x22]

mutual

def print : Json → Bytes
  | .null => lit "null"
  | .bool b => lit (if b then "true" else "false")
  | .int i => lit (toString i)
  | .double raw => raw
  | .str s => printStr s
  | .arr l => lit "[ " ++ printElements l ++ lit "]"
  | .obj o => lit "\x7b " ++ printMembers o ++ lit "\x7d"

def printElements : List Json → Bytes
  | [] => []
  | [j] => print j ++ lit " "
  | j :: l => print j ++ lit ", " ++ printElements l

def printMembers : List (Bytes × Json) → Bytes
  | [] => []
  | [(k, j)] => printStr k ++ lit ": " ++ print j ++ lit " "
  | (k, j) :: o => printStr k ++ lit ": " ++ print j ++ lit ", " ++ printMembers o

end

/-- A value as a C string. -/
def getString : Json → Option Bytes
  | .null => none
  | .str s => some (cstr s)
  | j => some (cstr (print j))

theorem getString_str {s : Bytes} (h : (0 : UInt8) ∉ s) : getString (.str s) = some s := by
  rw [getString, cstr_of_notMem h]

/-- A C string has no zero byte. -/
theorem notMem_getString {j : Json} {s : Bytes} (h : getString j = some s) : (0 : UInt8) ∉ s := by
  unfold getString at h
  split at h
  · cases h
  · cases h
    exact notMem_cstr _
  · cases h
    exact notMem_cstr _

/-- A member of an object as a C string; nothing if there is no object or no such member. -/
def memberString (k : Bytes) : Option Json → Option Bytes
  | some (.obj o) => (getEx o k).bind getString
  | _ => none

theorem notMem_memberString {k : Bytes} {j : Option Json} {s : Bytes}
    (h : memberString k j = some s) : (0 : UInt8) ∉ s := by
  unfold memberString at h
  split at h
  · obtain ⟨v, -, hv⟩ := Option.bind_eq_some_iff.mp h
    exact notMem_getString hv
  · cases h

example : (tokenerParse (lit "\x7b \"a\\u00e9\\n\" : [1, -20 , true], \"b\":\"\"\x7d")).bind
    getString = some (lit "\x7b \"aÃ©\\n\": [ 1, -20, true ], \"b\": \"\" \x7d") := by decide +kernel

end LiveStreamer.Lib.Tokener
