import Mathlib.Data.Nat.Digits.Lemmas

/-!
# Decimal numbers of a fixed width

A number is written with decimal digits, padded with zeros in front to at least
a given width.  It fits the width exactly if it is small enough, and its value
can be read back in either case.
-/

namespace Framing

/-- The character of a digit. -/
def digit (d : Nat) : UInt8 :=
  UInt8.ofNat (48 + d)

def IsDigit (byte : UInt8) : Prop :=
  48 ≤ byte.toNat ∧ byte.toNat ≤ 57

instance decidableIsDigit (byte : UInt8) : Decidable (IsDigit byte) :=
  inferInstanceAs (Decidable (_ ∧ _))

/-- The digit a character stands for. -/
def digitValue (byte : UInt8) : Nat :=
  byte.toNat - 48

/-- The digits of a number, none for zero. -/
def decimal (n : Nat) : List UInt8 :=
  ((Nat.digits 10 n).map digit).reverse

def padded (width n : Nat) : List UInt8 :=
  List.replicate (width - (decimal n).length) (digit 0) ++ decimal n

/-- The number that a text of digits stands for. -/
def value (digits : List UInt8) : Nat :=
  digits.foldl (fun n byte => 10 * n + digitValue byte) 0

theorem toNat_digit {d : Nat} (h : d < 10) : (digit d).toNat = 48 + d := by
  have hbyte : 48 + d < 256 := by omega
  exact UInt8.toNat_ofNat_of_lt' hbyte

theorem isDigit_digit {d : Nat} (h : d < 10) : IsDigit (digit d) := by
  unfold IsDigit
  rw [toNat_digit h]
  omega

theorem digitValue_digit {d : Nat} (h : d < 10) : digitValue (digit d) = d := by
  unfold digitValue
  rw [toNat_digit h]
  omega

theorem isDigit_of_mem_padded {width n : Nat} {byte : UInt8} (h : byte ∈ padded width n) :
    IsDigit byte := by
  rcases List.mem_append.mp h with hzero | hdigit
  · obtain rfl := List.eq_of_mem_replicate hzero
    exact isDigit_digit (by omega)
  · obtain ⟨d, hd, rfl⟩ := List.mem_map.mp (List.mem_reverse.mp hdigit)
    exact isDigit_digit (Nat.digits_lt_base (by omega) hd)

theorem length_decimal_le_iff (width n : Nat) : (decimal n).length ≤ width ↔ n < 10 ^ width := by
  rw [decimal, List.length_reverse, List.length_map]
  exact Nat.digits_length_le_iff (by omega) n

theorem length_padded (width n : Nat) :
    (padded width n).length = max width (decimal n).length := by
  rw [padded, List.length_append, List.length_replicate]
  omega

/-- A number has the width exactly if it is small enough. -/
theorem length_padded_eq_iff (width n : Nat) :
    (padded width n).length = width ↔ n < 10 ^ width := by
  rw [length_padded, ← length_decimal_le_iff]
  omega

/-- The value of the digits, the last of them first. -/
theorem value_eq_ofDigits (digits : List UInt8) :
    value digits = Nat.ofDigits 10 (digits.reverse.map digitValue) := by
  rw [Nat.ofDigits_eq_foldr, List.foldr_map, List.foldr_reverse]
  unfold value
  congr
  funext n byte
  simp [Nat.add_comm]

theorem value_decimal (n : Nat) : value (decimal n) = n := by
  have hdigits : (Nat.digits 10 n).map (fun d => digitValue (digit d)) = Nat.digits 10 n := by
    conv_rhs => rw [← List.map_id (Nat.digits 10 n)]
    exact List.map_congr_left fun d hd => digitValue_digit (Nat.digits_lt_base (by omega) hd)
  rw [value_eq_ofDigits, decimal, List.reverse_reverse, List.map_map]
  show Nat.ofDigits 10 ((Nat.digits 10 n).map fun d => digitValue (digit d)) = n
  rw [hdigits, Nat.ofDigits_digits]

/-- Zeros in front do not count. -/
theorem value_zeros_append (count : Nat) (digits : List UInt8) :
    value (List.replicate count (digit 0) ++ digits) = value digits := by
  induction count with
  | zero => rfl
  | succ count ih => exact ih

/-- **Round trip.** -/
theorem value_padded (width n : Nat) : value (padded width n) = n := by
  rw [padded, value_zeros_append, value_decimal]

/-! ## Texts of digits -/

theorem digitValue_lt {byte : UInt8} (h : IsDigit byte) : digitValue byte < 10 := by
  unfold IsDigit at h
  unfold digitValue
  omega

/-- Different digits have different values. -/
theorem digitValue_inj {byte byte' : UInt8} (h : IsDigit byte) (h' : IsDigit byte')
    (heq : digitValue byte = digitValue byte') : byte = byte' := by
  apply UInt8.toNat_inj.mp
  unfold IsDigit at h h'
  unfold digitValue at heq
  omega

theorem lt_ten_of_mem_map {digits : List UInt8} (h : ∀ byte ∈ digits, IsDigit byte) :
    ∀ d ∈ digits.reverse.map digitValue, d < 10 := by
  intro d hd
  obtain ⟨byte, hbyte, rfl⟩ := List.mem_map.mp hd
  exact digitValue_lt (h byte (List.mem_reverse.mp hbyte))

theorem value_lt {digits : List UInt8} (h : ∀ byte ∈ digits, IsDigit byte) :
    value digits < 10 ^ digits.length := by
  rw [value_eq_ofDigits]
  simpa using Nat.ofDigits_lt_base_pow_length (by omega) (lt_ten_of_mem_map h)

/-- Two texts of equally many digits with the same value are the same. -/
theorem value_inj {digits digits' : List UInt8} (h : ∀ byte ∈ digits, IsDigit byte)
    (h' : ∀ byte ∈ digits', IsDigit byte) (hlength : digits.length = digits'.length)
    (heq : value digits = value digits') : digits = digits' := by
  rw [value_eq_ofDigits, value_eq_ofDigits] at heq
  have hreverse : digits.reverse.map digitValue = digits'.reverse.map digitValue :=
    Nat.ofDigits_inj_of_len_eq (by omega) (by simpa using hlength)
      (lt_ten_of_mem_map h) (lt_ten_of_mem_map h') heq
  rw [List.map_reverse, List.map_reverse, List.reverse_inj] at hreverse
  apply List.ext_getElem hlength
  intro n hn hn'
  apply digitValue_inj (h _ (List.getElem_mem hn)) (h' _ (List.getElem_mem hn'))
  have hvalues := congrArg (fun values => values[n]?) hreverse
  simpa [hn, hn'] using hvalues

/-- **The other round trip.**  Digits are the number they stand for, with zeros in
front up to their count. -/
theorem padded_value {digits : List UInt8} (h : ∀ byte ∈ digits, IsDigit byte) :
    padded digits.length (value digits) = digits := by
  apply value_inj fun byte hbyte => isDigit_of_mem_padded hbyte
  · exact h
  · rw [length_padded_eq_iff]
    exact value_lt h
  · exact value_padded _ _

example : padded 5 120 = [48, 48, 49, 50, 48] ∧ value [48, 48, 49, 50, 48] = 120 := by decide

end Framing
