import DistributedFileServer.Model.Server

/-!
# The header of a message

A message of fewer than 2^31 bytes gets a header exactly if its length has at
most five digits.  The receiver takes the header and the message off the stream
and leaves what comes behind them.
-/

namespace DistributedFileServer

open Framing

namespace Server

/-- A length that an `int` can hold is converted without change. -/
theorem intOfSize_of_lt {size : Nat} (h : size < 2 ^ 31) : intOfSize size = size := by
  unfold intOfSize
  rw [Int.bmod_eq_of_le]
  · omega
  · omega

theorem sizeOfInt_of_lt {size : Nat} (h : size < 2 ^ 64) : sizeOfInt size = size := by
  unfold sizeOfInt
  omega

/-- **When a message is framed.** -/
theorem addHeader_eq_some_iff {message frame : Str} (h : message.length < 2 ^ 31) :
    addHeader message = some frame ↔
      message.length ≤ 99999 ∧ frame = padded headerLength message.length ++ message := by
  have hfits : (padded headerLength message.length).length + 1 ≤ headerLength + 1 ↔
      message.length ≤ 99999 := by
    have hwidth := length_padded headerLength message.length
    have hiff := length_decimal_le_iff headerLength message.length
    unfold headerLength at *
    omega
  unfold addHeader
  rw [intOfSize_of_lt h]
  show (makeHeader (.ofNat message.length)).map _ = some frame ↔ _
  simp only [makeHeader, formatHeader, hfits]
  split
  · next hle => simp [hle, eq_comm]
  · next hgt => simp [hgt]

/-! ## Receiving -/

@[simp] theorem readExactly_append (taken rest : Str) :
    readExactly taken.length (taken ++ rest) = some (taken, rest) := by
  simp [readExactly]

/-- Digits without blanks and signs. -/
theorem atoi_of_isDigit {digits : Str} (h : ∀ byte ∈ digits, IsDigit byte) :
    atoi digits = value digits := by
  have hall : digits.takeWhile (fun byte => IsDigit byte) = digits := by
    rw [List.takeWhile_eq_self_iff]
    intro byte hbyte
    exact decide_eq_true (h byte hbyte)
  cases digits with
  | nil => rfl
  | cons byte digits =>
      have hbyte : IsDigit byte := h byte List.mem_cons_self
      unfold IsDigit at hbyte
      have hspace : isSpace byte = false := by
        rw [isSpace, decide_eq_false_iff_not, ← UInt8.toNat_inj, UInt8.le_iff_toNat_le,
          UInt8.le_iff_toNat_le]
        show ¬ (byte.toNat = 32 ∨ 9 ≤ byte.toNat ∧ byte.toNat ≤ 13)
        omega
      have hminus : byte ≠ 45 := by
        rintro rfl
        exact absurd hbyte.1 (by decide)
      have hplus : byte ≠ 43 := by
        rintro rfl
        exact absurd hbyte.1 (by decide)
      unfold atoi
      simp [hspace, hminus, hplus, hall]

theorem getRequestLength_padded (width n : Nat) : getRequestLength (padded width n) = n := by
  have hnul : NulFree (padded width n) := by
    intro hzero
    exact absurd (isDigit_of_mem_padded hzero).1 (by decide)
  rw [getRequestLength, cString_of_nulFree hnul,
    atoi_of_isDigit fun byte hbyte => isDigit_of_mem_padded hbyte, value_padded]

/-- **Round trip.**  The receiver takes the message, and nothing but the message. -/
theorem receive_padded_append {message : Str} (h : message.length ≤ 99999) (rest : Str) :
    receive (padded headerLength message.length ++ message ++ rest) = some (message, rest) := by
  have hheader : (padded headerLength message.length).length = headerLength :=
    (length_padded_eq_iff _ _).mpr (by unfold headerLength; omega)
  have hread : readExactly headerLength
      (padded headerLength message.length ++ (message ++ rest)) =
        some (padded headerLength message.length, message ++ rest) := by
    rw [← readExactly_append, hheader]
  unfold receive
  rw [List.append_assoc, hread]
  show readExactly (sizeOfInt (getRequestLength (padded headerLength message.length)))
    (message ++ rest) = _
  rw [getRequestLength_padded, sizeOfInt_of_lt (by omega), readExactly_append]

end Server

end DistributedFileServer
