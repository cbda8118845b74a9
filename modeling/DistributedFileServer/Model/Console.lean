import DistributedFileServer.Model.Controller
import DistributedFileServer.Programs.Loop

/-!
# The console loop, iteration by iteration (`controller.cpp`)

With auto mode off, `canCommitTransaction` asks for console lines in a loop
without a bound.  `Controller.askUser` gives the result of this loop, or none if
it never ends.  Here the loop is run step by step, and `askUser` is shown to be
right in both cases.
-/

namespace DistributedFileServer

open Programs

namespace Controller

/-- `getline(cin, userInput)`.  After the last line it leaves the string empty. -/
def getUserInput : List Str → Str × List Str
  | [] => ([], [])
  | line :: console => (line, console)

/-- What `canCommitTransaction` shows before its loop, in the code page of the source. -/
def question (canAutoCommit : Bool) (transactionId : Str) : Str :=
  text "Zatwierdzi" ++ [0xE6] ++ text " transakcj" ++ [0xEA] ++ text " " ++ transactionId ++
    text " ? Log na to " ++ (if canAutoCommit then [] else text "nie ") ++ text "pozwala."

/-- One iteration of the loop: a vote, or the console for the next iteration. -/
def askOnce (console : List Str) : (Bool × List Str) ⊕ List Str :=
  let (userInput, console) := getUserInput console
  if userInput = text "t" then
    .inl (true, console)
  else if userInput = text "n" then
    .inl (false, console)
  else
    .inr console

/-- `canCommitTransaction`, with at most `n` iterations of its loop. -/
def canCommitTransactionWithin (n : Nat) (cfg : Config) (s : ServerState) (transactionId : Str) :
    Option (Bool × List Str) :=
  let canAutoCommit := canAutoCommitTransaction s.log transactionId
  if cfg.autoMode then
    some (canAutoCommit, s.console)
  else
    iterate askOnce n s.console

/-- `handlePrepareMessage`, with at most `n` iterations of the loop. -/
def handlePrepareMessageWithin (n : Nat) (cfg : Config) (s : ServerState) (transactionId : Str) :
    Option (Reply × ServerState) :=
  match canCommitTransactionWithin n cfg s transactionId with
  | none => none
  | some (true, console) =>
      some (.ok (makeVoteCommitMessage transactionId),
        { s with
          log := Dao.insertTransactionOperation s.log .voteCommit transactionId
          console := console })
  | some (false, console) =>
      some (.ok (makeVoteAbortMessage transactionId),
        { s with
          log := Dao.insertTransactionOperation s.log .voteAbort transactionId
          console := console })

/-! ## The result of the loop -/

theorem askOnce_of_commit (console : List Str) :
    askOnce (text "t" :: console) = .inl (true, console) := rfl

theorem askOnce_of_abort (console : List Str) :
    askOnce (text "n" :: console) = .inl (false, console) := rfl

theorem askOnce_of_other {line : Str} (hcommit : line ≠ text "t") (habort : line ≠ text "n")
    (console : List Str) : askOnce (line :: console) = .inr console := by
  simp [askOnce, getUserInput, hcommit, habort]

/-- At the end of the input the loop goes on with nothing changed. -/
theorem askOnce_nil : askOnce [] = .inr [] := rfl

theorem loopReturns_of_askUser {console : List Str} {answer : Bool × List Str}
    (h : askUser console = some answer) : LoopReturns askOnce console answer := by
  induction console with
  | nil => cases h
  | cons line console ih =>
      unfold askUser at h
      split_ifs at h with hcommit habort
      · obtain rfl := Option.some.inj h
        rw [hcommit]
        exact LoopReturns.of_leave (askOnce_of_commit console)
      · obtain rfl := Option.some.inj h
        rw [habort]
        exact LoopReturns.of_leave (askOnce_of_abort console)
      · exact LoopReturns.of_next (askOnce_of_other hcommit habort console) (ih h)

theorem not_loopReturns_of_askUser {console : List Str} (h : askUser console = none)
    (answer : Bool × List Str) : ¬ LoopReturns askOnce console answer := by
  apply not_loopReturns_of_invariant (I := fun console => askUser console = none) _ h
  intro console hnone
  cases console with
  | nil => exact ⟨[], askOnce_nil, rfl⟩
  | cons line console =>
      unfold askUser at hnone
      split_ifs at hnone with hcommit habort
      exact ⟨console, askOnce_of_other hcommit habort console, hnone⟩

/-- **The loop.**  It ends with an answer exactly if `askUser` gives this answer. -/
theorem loopReturns_iff (console : List Str) (answer : Bool × List Str) :
    LoopReturns askOnce console answer ↔ askUser console = some answer := by
  constructor
  · intro hreturns
    cases hanswer : askUser console with
    | none => exact absurd hreturns (not_loopReturns_of_askUser hanswer answer)
    | some other => rw [(loopReturns_of_askUser hanswer).unique hreturns]
  · exact loopReturns_of_askUser

/-- A handler that returns within some number of iterations is the handler. -/
theorem handlePrepareMessageWithin_iff (cfg : Config) (s : ServerState) (transactionId : Str)
    (answer : Reply × ServerState) :
    (∃ n, handlePrepareMessageWithin n cfg s transactionId = some answer) ↔
      handlePrepareMessage cfg s transactionId = some answer := by
  have hvote : ∀ vote, (∃ n, canCommitTransactionWithin n cfg s transactionId = some vote) ↔
      canCommitTransaction cfg s transactionId = some vote := by
    intro vote
    unfold canCommitTransactionWithin canCommitTransaction
    by_cases hauto : cfg.autoMode = true
    · simp [hauto]
    · simp only [hauto]
      exact loopReturns_iff s.console vote
  constructor
  · rintro ⟨n, hn⟩
    unfold handlePrepareMessageWithin at hn
    cases hgiven : canCommitTransactionWithin n cfg s transactionId with
    | none => simp [hgiven] at hn
    | some vote =>
        rw [hgiven] at hn
        rw [handlePrepareMessage, (hvote vote).mp ⟨n, hgiven⟩]
        exact hn
  · intro hhandle
    unfold handlePrepareMessage at hhandle
    cases hgiven : canCommitTransaction cfg s transactionId with
    | none => simp [hgiven] at hhandle
    | some vote =>
        obtain ⟨n, hn⟩ := (hvote vote).mpr hgiven
        refine ⟨n, ?_⟩
        rw [handlePrepareMessageWithin, hn]
        rw [hgiven] at hhandle
        exact hhandle

end Controller

end DistributedFileServer
