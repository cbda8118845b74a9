import Mathlib.Data.List.TakeWhile

/-!
# Streams in text mode

In memory a line ends with a line feed.  On the disk there is a carriage return in
front of it, which is dropped when the text is read, and a text ends at the first
end-of-file byte.  What is written and read again is the text up to that byte.
-/

namespace LineEnds

def lineFeed : UInt8 := 10

def carriageReturn : UInt8 := 13

/-- Control-Z. -/
def endOfFile : UInt8 := 26

/-- What is put on the disk for a text. -/
def encode : List UInt8 → List UInt8
  | [] => []
  | byte :: bytes =>
      if byte = lineFeed then
        carriageReturn :: lineFeed :: encode bytes
      else
        byte :: encode bytes

/-- What is read for the bytes on the disk.  A carriage return that no line feed
follows is kept. -/
def decode : List UInt8 → List UInt8
  | [] => []
  | byte :: bytes =>
      if byte = endOfFile then
        []
      else if byte = carriageReturn ∧ bytes.head? = some lineFeed then
        decode bytes
      else
        byte :: decode bytes

/-- No line feed comes first. -/
theorem head?_encode_ne (bytes : List UInt8) : (encode bytes).head? ≠ some lineFeed := by
  cases bytes with
  | nil => simp [encode]
  | cons byte bytes =>
      unfold encode
      by_cases hfeed : byte = lineFeed
      · rw [if_pos hfeed, List.head?_cons]
        decide
      · rw [if_neg hfeed]
        simpa using hfeed

theorem decode_cons_of_ne {byte : UInt8} {bytes : List UInt8} (heof : byte ≠ endOfFile)
    (h : byte ≠ carriageReturn ∨ bytes.head? ≠ some lineFeed) :
    decode (byte :: bytes) = byte :: decode bytes := by
  have hkept : ¬ (byte = carriageReturn ∧ bytes.head? = some lineFeed) := by
    rintro ⟨hreturn, hfeed⟩
    rcases h with h | h
    · exact h hreturn
    · exact h hfeed
  rw [decode, if_neg heof, if_neg hkept]

/-- **Round trip.**  The text comes back up to its first end-of-file byte. -/
theorem decode_encode (bytes : List UInt8) :
    decode (encode bytes) = bytes.takeWhile fun byte => byte ≠ endOfFile := by
  induction bytes with
  | nil => rfl
  | cons byte bytes ih =>
      by_cases hfeed : byte = lineFeed
      · -- the carriage return in front is dropped
        subst hfeed
        have hkept : decode (lineFeed :: encode bytes) = lineFeed :: decode (encode bytes) :=
          decode_cons_of_ne (by decide) (Or.inl (by decide))
        have hdropped : decode (carriageReturn :: lineFeed :: encode bytes) =
            decode (lineFeed :: encode bytes) := by
          rw [decode, if_neg (by decide), if_pos ⟨rfl, rfl⟩]
        rw [encode, if_pos rfl, hdropped, hkept, ih, List.takeWhile_cons_of_pos (by decide)]
      · rw [encode, if_neg hfeed]
        by_cases heof : byte = endOfFile
        · rw [decode, if_pos heof, List.takeWhile_cons_of_neg (by simpa using heof)]
        · rw [decode_cons_of_ne heof (Or.inr (head?_encode_ne bytes)), ih,
            List.takeWhile_cons_of_pos (by simpa using heof)]

/-- A text survives exactly if it holds no end-of-file byte. -/
theorem decode_encode_eq_self_iff (bytes : List UInt8) :
    decode (encode bytes) = bytes ↔ endOfFile ∉ bytes := by
  rw [decode_encode, List.takeWhile_eq_self_iff]
  constructor
  · intro hall hmem
    simpa using hall endOfFile hmem
  · intro hnone byte hbyte
    have hne : byte ≠ endOfFile := fun heq => hnone (heq ▸ hbyte)
    simpa using hne

example : encode [97, 13, 10] = [97, 13, 13, 10] ∧ decode [97, 13, 13, 10] = [97, 13, 10] := by
  decide

end LineEnds
