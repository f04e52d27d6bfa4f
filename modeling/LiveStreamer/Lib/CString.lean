import Mathlib.Data.List.Basic
import Mathlib.Data.List.TakeWhile
import Mathlib.Data.List.Infix
import Mathlib.Tactic.Common

/-! # Byte strings

A C string is the list of its bytes without the terminator. `lit` reads a string literal, `cstr`
is what a `char *` into a buffer shows (everything before the first zero byte), `snprintf` cuts a
text to a buffer, and `block` is a text in a buffer of zeros of a fixed size. A text without zero
bytes that fits comes back out of its block (`cstr_block`). -/

namespace LiveStreamer.Lib.CString

abbrev Bytes := List UInt8

/-- A string literal of ASCII characters. -/
def lit (s : String) : Bytes := s.toList.map fun c => c.toNat.toUInt8

/-- The bytes before the first zero byte. -/
def cstr (b : Bytes) : Bytes := b.takeWhile (· ≠ 0)

/-- `snprintf` into a buffer of `size` bytes keeps at most `size - 1` bytes of the text. -/
def snprintf (size : ℕ) (text : Bytes) : Bytes := text.take (size - 1)

/-- The text `%s` prints for a `char *`. -/
def percentS (s : Option Bytes) : Bytes := s.getD (lit "(null)")

/-- The first `n` bytes of a buffer that was zeroed and then holds the text. -/
def block (n : ℕ) (text : Bytes) : Bytes := (text ++ List.replicate n 0).take n

/-! ### Zero bytes -/

theorem cstr_of_notMem {b : Bytes} (h : (0 : UInt8) ∉ b) : cstr b = b := by
  rw [cstr, List.takeWhile_eq_self_iff]
  intro x hx
  simp only [ne_eq, decide_not, Bool.not_eq_eq_eq_not, Bool.not_true, decide_eq_false_iff_not]
  rintro rfl
  exact h hx

theorem cstr_append_zeros {b : Bytes} (h : (0 : UInt8) ∉ b) (n : ℕ) :
    cstr (b ++ List.replicate n 0) = b := by
  unfold cstr
  rw [List.takeWhile_append_of_pos]
  · rcases n with _ | n
    · simp
    · simp [List.replicate_succ]
  · intro x hx
    simp only [ne_eq, decide_not, Bool.not_eq_eq_eq_not, Bool.not_true, decide_eq_false_iff_not]
    rintro rfl
    exact h hx

theorem notMem_cstr (b : Bytes) : (0 : UInt8) ∉ cstr b := by
  intro h
  have := List.mem_takeWhile_imp h
  simp at this

/-! ### Cutting and padding -/

theorem length_snprintf (size : ℕ) (text : Bytes) :
    (snprintf size text).length = min (size - 1) text.length := by
  simp [snprintf]

theorem snprintf_of_fits {size : ℕ} {text : Bytes} (h : text.length < size) :
    snprintf size text = text := by
  rw [snprintf, List.take_of_length_le (by omega)]

theorem length_block (n : ℕ) (text : Bytes) : (block n text).length = n := by
  simp [block]

theorem block_of_fits {n : ℕ} {text : Bytes} (h : text.length ≤ n) :
    block n text = text ++ List.replicate (n - text.length) 0 := by
  rw [block, List.take_append, List.take_of_length_le h, List.take_replicate,
    Nat.min_eq_left (Nat.sub_le _ _)]

/-- **A text comes back out of its block.** -/
theorem cstr_block {n : ℕ} {text : Bytes} (h0 : (0 : UInt8) ∉ text) (h : text.length ≤ n) :
    cstr (block n text) = text := by
  rw [block_of_fits h, cstr_append_zeros h0]

end LiveStreamer.Lib.CString
