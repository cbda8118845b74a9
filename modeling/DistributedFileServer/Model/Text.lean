import Mathlib.Data.List.TakeWhile

/-!
# The texts of the server

Every text the server handles is a `std::string`: transaction ids, filenames,
file contents and console lines.  A `std::string` may hold any byte, the NUL
byte included, but what is handed over with `value.c_str()` and no length ends
at the first NUL.  This file fixes the two views and the point where they
agree, the NUL-free texts.
-/

namespace DistributedFileServer

/-- A `std::string`: a sequence of bytes. -/
abbrev Str := List UInt8

/-- The bytes of an ASCII literal of the source. -/
def text (literal : String) : Str :=
  literal.toList.map fun c => UInt8.ofNat c.toNat

/-- What a callee sees of `value.c_str()`: the bytes before the first NUL. -/
def cString (value : Str) : Str :=
  value.takeWhile fun byte => byte ≠ 0

/-- A text without NUL bytes. -/
def NulFree (value : Str) : Prop :=
  0 ∉ value

instance (value : Str) : Decidable (NulFree value) :=
  inferInstanceAs (Decidable (0 ∉ value))

@[simp] theorem cString_nil : cString [] = [] := rfl

/-- A NUL-free text survives the passage through a C string. -/
theorem cString_of_nulFree {value : Str} (h : NulFree value) : cString value = value := by
  unfold cString
  rw [List.takeWhile_eq_self_iff]
  intro byte hbyte
  have hne : byte ≠ 0 := fun hzero => h (hzero ▸ hbyte)
  simpa using hne

/-- A C string holds no NUL byte. -/
theorem nulFree_cString (value : Str) : NulFree (cString value) := by
  intro hzero
  have := List.mem_takeWhile_imp hzero
  simp at this

/-- Only a NUL-free text survives the passage through a C string. -/
theorem cString_eq_self_iff (value : Str) : cString value = value ↔ NulFree value := by
  constructor
  · intro h
    rw [← h]
    exact nulFree_cString value
  · exact cString_of_nulFree

@[simp] theorem cString_cString (value : Str) : cString (cString value) = cString value :=
  cString_of_nulFree (nulFree_cString value)

end DistributedFileServer
