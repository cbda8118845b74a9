import DistributedFileServer.Wire.Header

/-!
# What the receiver takes for a request

The receiver does not check the header.  It reads a number from it as `atoi` does,
and takes as many bytes as the number says.  Every frame of the sender is received,
and so are other streams; on headers of digits there are no others.
-/

namespace DistributedFileServer

open Programs Framing

namespace Server

/-! ## Reading a number -/

/-- The text is a number in front of something that does not belong to it: blanks,
a sign, digits.  Any of the parts may be missing. -/
def ReadsAs (s : Str) (n : Int) : Prop :=
  ∃ blanks sign digits junk, s = blanks ++ (sign ++ (digits ++ junk)) ∧
    (∀ byte ∈ blanks, isSpace byte) ∧ (∀ byte ∈ digits, IsDigit byte) ∧
    (∀ byte ∈ junk.head?, ¬ IsDigit byte) ∧
    (sign = text "-" ∧ n = -value digits ∨ sign = text "+" ∧ n = value digits ∨
      sign = [] ∧ n = value digits ∧
        ∀ byte ∈ (digits ++ junk).head?, ¬ isSpace byte ∧ byte ≠ 43 ∧ byte ≠ 45)

/-- A text starts with the characters that have a property, up to the first that has not. -/
theorem exists_span (p : UInt8 → Bool) (s : Str) :
    ∃ front back, s = front ++ back ∧ (∀ byte ∈ front, p byte) ∧
      ∀ byte ∈ back.head?, ¬ p byte := by
  refine ⟨s.takeWhile p, s.dropWhile p, List.takeWhile_append_dropWhile.symm,
    fun byte hbyte => List.mem_takeWhile_imp hbyte, fun byte hbyte => ?_⟩
  have h := List.head?_dropWhile_not p s
  rw [Option.mem_def.mp hbyte] at h
  simpa using h

theorem takeWhile_append_of_head {p : UInt8 → Bool} {front back : Str}
    (hfront : ∀ byte ∈ front, p byte) (hback : ∀ byte ∈ back.head?, ¬ p byte) :
    (front ++ back).takeWhile p = front := by
  rw [List.takeWhile_append_of_pos hfront]
  cases back with
  | nil => simp
  | cons byte back => simp [hback byte rfl]

theorem dropWhile_append_of_head {p : UInt8 → Bool} {front back : Str}
    (hfront : ∀ byte ∈ front, p byte) (hback : ∀ byte ∈ back.head?, ¬ p byte) :
    (front ++ back).dropWhile p = back := by
  rw [List.dropWhile_append_of_pos hfront]
  cases back with
  | nil => rfl
  | cons byte back => simp [hback byte rfl]

theorem takeWhile_digits {digits junk : Str} (hdigits : ∀ byte ∈ digits, IsDigit byte)
    (hjunk : ∀ byte ∈ junk.head?, ¬ IsDigit byte) :
    (digits ++ junk).takeWhile (fun byte => IsDigit byte) = digits :=
  takeWhile_append_of_head (fun byte hbyte => decide_eq_true (hdigits byte hbyte))
    fun byte hbyte => by simpa using hjunk byte hbyte

theorem atoi_of_readsAs {s : Str} {n : Int} (h : ReadsAs s n) : atoi s = n := by
  obtain ⟨blanks, sign, digits, junk, rfl, hblanks, hdigits, hjunk, hsign⟩ := h
  have hnumber := takeWhile_digits hdigits hjunk
  rcases hsign with ⟨rfl, rfl⟩ | ⟨rfl, rfl⟩ | ⟨rfl, rfl, hhead⟩
  · have hrest : (blanks ++ (text "-" ++ (digits ++ junk))).dropWhile isSpace =
        45 :: (digits ++ junk) :=
      dropWhile_append_of_head hblanks fun byte hbyte => by cases hbyte; decide
    unfold atoi
    rw [hrest]
    simp only [List.head?_cons, List.tail_cons, if_pos, hnumber]
  · have hrest : (blanks ++ (text "+" ++ (digits ++ junk))).dropWhile isSpace =
        43 :: (digits ++ junk) :=
      dropWhile_append_of_head hblanks fun byte hbyte => by cases hbyte; decide
    have hplus : ¬ some (43 : UInt8) = some 45 := by decide
    unfold atoi
    rw [hrest]
    simp only [List.head?_cons, List.tail_cons, if_pos, if_neg hplus, hnumber]
  · have hrest : (blanks ++ (digits ++ junk)).dropWhile isSpace = digits ++ junk :=
      dropWhile_append_of_head hblanks fun byte hbyte => (hhead byte hbyte).1
    have hminus : ¬ (digits ++ junk).head? = some 45 := fun h => (hhead 45 h).2.2 rfl
    have hplus : ¬ (digits ++ junk).head? = some 43 := fun h => (hhead 43 h).2.1 rfl
    unfold atoi
    rw [List.nil_append, hrest]
    simp only [if_neg hminus, if_neg hplus, hnumber]

/-- Every text can be read. -/
theorem exists_readsAs (s : Str) : ∃ n, ReadsAs s n := by
  obtain ⟨blanks, rest, rfl, hblanks, hrest⟩ := exists_span isSpace s
  have hspan (t : Str) : ∃ digits junk, t = digits ++ junk ∧ (∀ byte ∈ digits, IsDigit byte) ∧
      ∀ byte ∈ junk.head?, ¬ IsDigit byte := by
    obtain ⟨digits, junk, rfl, hdigits, hjunk⟩ := exists_span (fun byte => IsDigit byte) t
    exact ⟨digits, junk, rfl, fun byte hbyte => of_decide_eq_true (hdigits byte hbyte),
      fun byte hbyte => by simpa using hjunk byte hbyte⟩
  by_cases hminus : rest.head? = some 45
  · obtain ⟨digits, junk, htail, hdigits, hjunk⟩ := hspan rest.tail
    have hsign : rest = text "-" ++ (digits ++ junk) := by
      rw [← htail]
      exact List.eq_cons_of_mem_head? hminus
    exact ⟨_, blanks, text "-", digits, junk, by rw [hsign], hblanks, hdigits, hjunk,
      .inl ⟨rfl, rfl⟩⟩
  by_cases hplus : rest.head? = some 43
  · obtain ⟨digits, junk, htail, hdigits, hjunk⟩ := hspan rest.tail
    have hsign : rest = text "+" ++ (digits ++ junk) := by
      rw [← htail]
      exact List.eq_cons_of_mem_head? hplus
    exact ⟨_, blanks, text "+", digits, junk, by rw [hsign], hblanks, hdigits, hjunk,
      .inr (.inl ⟨rfl, rfl⟩)⟩
  · obtain ⟨digits, junk, rfl, hdigits, hjunk⟩ := hspan rest
    refine ⟨_, blanks, [], digits, junk, rfl, hblanks, hdigits, hjunk, .inr (.inr ⟨rfl, rfl, ?_⟩)⟩
    intro byte hbyte
    refine ⟨hrest byte hbyte, ?_, ?_⟩
    · rintro rfl
      exact hplus hbyte
    · rintro rfl
      exact hminus hbyte

/-- **What `atoi` reads.** -/
theorem atoi_eq_iff (s : Str) (n : Int) : atoi s = n ↔ ReadsAs s n := by
  constructor
  · rintro rfl
    obtain ⟨n, hn⟩ := exists_readsAs s
    rw [atoi_of_readsAs hn]
    exact hn
  · exact atoi_of_readsAs

/-! ## Receiving -/

theorem readExactly_eq_some_iff {count : Nat} {stream taken rest : Str} :
    readExactly count stream = some (taken, rest) ↔
      stream = taken ++ rest ∧ taken.length = count := by
  constructor
  · intro h
    unfold readExactly at h
    split at h
    · next hle =>
        obtain ⟨rfl, rfl⟩ := Prod.mk.inj (Option.some.inj h)
        exact ⟨(List.take_append_drop count stream).symm, List.length_take_of_le hle⟩
    · cases h
  · rintro ⟨rfl, rfl⟩
    exact readExactly_append taken rest

theorem receive_eq_some_iff {stream s rest : Str} :
    receive stream = some (s, rest) ↔
      ∃ header, header.length = headerLength ∧ stream = header ++ (s ++ rest) ∧
        sizeOfInt (getRequestLength header) = s.length := by
  unfold receive
  constructor
  · intro h
    split at h
    · cases h
    · next header behind hheader =>
        obtain ⟨rfl, hlength⟩ := readExactly_eq_some_iff.mp hheader
        obtain ⟨rfl, hbody⟩ := readExactly_eq_some_iff.mp h
        exact ⟨header, hlength, rfl, hbody.symm⟩
  · rintro ⟨header, hlength, rfl, hbody⟩
    rw [readExactly_eq_some_iff.mpr ⟨rfl, hlength⟩]
    exact readExactly_eq_some_iff.mpr ⟨rfl, hbody.symm⟩

/-- What a header of the right length can say. -/
theorem getRequestLength_le {header : Str} (h : header.length = headerLength) :
    getRequestLength header ≤ 99999 := by
  obtain ⟨n, hn⟩ := exists_readsAs (cString header)
  have hread : getRequestLength header = n := atoi_of_readsAs hn
  obtain ⟨blanks, sign, digits, junk, hparts, -, hdigits, -, hsign⟩ := hn
  have hcount : digits.length ≤ 5 := by
    have hlength := congrArg List.length hparts
    have hle : (cString header).length ≤ header.length := (List.takeWhile_sublist _).length_le
    simp only [List.length_append] at hlength
    unfold headerLength at h
    omega
  have hvalue : value digits < 10 ^ 5 :=
    (value_lt hdigits).trans_le (Nat.pow_le_pow_right (by omega) hcount)
  rcases hsign with ⟨-, rfl⟩ | ⟨-, rfl⟩ | ⟨-, rfl, -⟩
  · omega
  · omega
  · omega

/-- The sender's header is the only one of digits that says the length. -/
theorem eq_padded_of_isDigit {header : Str} (hlength : header.length = headerLength)
    (hdigits : ∀ byte ∈ header, IsDigit byte) {n : Nat}
    (hn : sizeOfInt (getRequestLength header) = n) :
    n ≤ 99999 ∧ header = padded headerLength n := by
  have hnul : NulFree header := fun hzero => absurd (hdigits 0 hzero).1 (by decide)
  have hread : getRequestLength header = value header := by
    rw [getRequestLength, cString_of_nulFree hnul, atoi_of_isDigit hdigits]
  have hle := getRequestLength_le hlength
  rw [hread] at hle hn
  rw [sizeOfInt_of_lt (by omega)] at hn
  subst hn
  refine ⟨by omega, ?_⟩
  rw [← hlength, padded_value hdigits]

/-- **What is received.**  A request is passed on exactly if five bytes that read as
its length stand in front of it.  No more than 99999 bytes are asked for, unless the
header reads as a negative number.  Where the first five bytes are digits, the requests
passed on are those the sender has framed. -/
theorem receive_requests (stream : Str) :
    (∀ s, (∃ rest, receive stream = some (s, rest)) ↔
      ∃ header n rest, header.length = headerLength ∧ stream = header ++ (s ++ rest) ∧
        ReadsAs (cString header) n ∧ sizeOfInt n = s.length) ∧
    (∀ header rest, readExactly headerLength stream = some (header, rest) →
      0 ≤ getRequestLength header → sizeOfInt (getRequestLength header) ≤ 99999) ∧
    ((∀ byte ∈ stream.take headerLength, IsDigit byte) →
      ∀ s, (∃ rest, receive stream = some (s, rest)) ↔
        s.length ≤ 99999 ∧ ∃ frame rest, addHeader s = some frame ∧ stream = frame ++ rest) := by
  refine ⟨fun s => ?_, fun header rest hheader hsign => ?_, fun hdigits s => ?_⟩
  · constructor
    · rintro ⟨rest, h⟩
      obtain ⟨header, hlength, rfl, hbody⟩ := receive_eq_some_iff.mp h
      exact ⟨header, _, rest, hlength, rfl, (atoi_eq_iff _ _).mp rfl, hbody⟩
    · rintro ⟨header, n, rest, hlength, rfl, hread, hbody⟩
      refine ⟨rest, receive_eq_some_iff.mpr ⟨header, hlength, rfl, ?_⟩⟩
      rw [getRequestLength, atoi_of_readsAs hread, hbody]
  · have hle := getRequestLength_le (readExactly_eq_some_iff.mp hheader).2
    unfold sizeOfInt
    omega
  · constructor
    · rintro ⟨rest, h⟩
      obtain ⟨header, hlength, rfl, hbody⟩ := receive_eq_some_iff.mp h
      rw [← hlength, List.take_left] at hdigits
      obtain ⟨hle, hheader⟩ := eq_padded_of_isDigit hlength hdigits hbody
      refine ⟨hle, header ++ s, rest, ?_, (List.append_assoc _ _ _).symm⟩
      rw [addHeader_eq_some_iff (by omega), hheader]
      exact ⟨hle, rfl⟩
    · rintro ⟨hle, frame, rest, hframe, rfl⟩
      rw [addHeader_eq_some_iff (by omega)] at hframe
      obtain ⟨-, rfl⟩ := hframe
      exact ⟨rest, receive_padded_append hle rest⟩

/-- Blanks do for the zeros of the header. -/
theorem receive_blank_header :
    ∃ stream s : Str, receive stream = some (s, []) ∧
      ¬ ∃ frame rest, addHeader s = some frame ∧ stream = frame ++ rest := by
  refine ⟨text "    5hello", text "hello", by decide, ?_⟩
  rintro ⟨frame, rest, hframe, hstream⟩
  have hsent : addHeader (text "hello") = some (text "00005hello") := by decide
  rw [hsent] at hframe
  obtain rfl := Option.some.inj hframe
  have hfirst : some (32 : UInt8) = some 48 := congrArg List.head? hstream
  exact absurd hfirst (by decide)

/-! ## Connections -/

/-- The bodies that are received. -/
def receivedBodies (streams : List Str) : List Str :=
  streams.filterMap fun stream => (receive stream).map Prod.fst

theorem receivedBodies_cons (stream : Str) (streams : List Str) :
    receivedBodies (stream :: streams) =
      match receive stream with
      | none => receivedBodies streams
      | some (body, _) => body :: receivedBodies streams := by
  unfold receivedBodies
  rw [List.filterMap_cons]
  cases receive stream <;> rfl

variable {κ : Type} [DecidableEq κ]

/-- Nothing is calculated for a connection without a request. -/
theorem runStreams_eq_run (system : System κ) (toString : Ptree → Str) (world : World κ)
    (streams : List Str) :
    ((runStreams system toString world streams).1.filterMap id,
        (runStreams system toString world streams).2) =
      run system toString world (receivedBodies streams) := by
  induction streams generalizing world with
  | nil => rfl
  | cons stream streams ih =>
      rw [receivedBodies_cons]
      unfold runStreams
      cases hreceive : receive stream with
      | none => simpa using ih world
      | some received =>
          obtain ⟨request, rest⟩ := received
          dsimp only
          unfold run
          cases hexec : exec (Serve.calculateResponse system request) world with
          | mk result next =>
              have hnext := Prod.mk.inj (ih next)
              cases result with
              | ok reply => simp [← hnext.1, ← hnext.2]
              | error failure => cases failure <;> simp [← hnext.1, ← hnext.2]

end Server

end DistributedFileServer
