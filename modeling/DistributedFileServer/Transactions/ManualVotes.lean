import DistributedFileServer.Model.Console

/-!
# Votes from the console

With auto mode off the vote is the first console line that is exactly `t` or `n`.
If there is no such line, the loop that waits for it never ends, and with it the
server.
-/

namespace DistributedFileServer

open Programs Controller

def IsVote (line : Str) : Prop :=
  line = text "t" ∨ line = text "n"

/-- The line is the first vote on the console, and the rest comes behind it. -/
def FirstVote (console : List Str) (line : Str) (rest : List Str) : Prop :=
  ∃ before, console = before ++ line :: rest ∧ IsVote line ∧ ∀ other ∈ before, ¬ IsVote other

theorem askUser_of_firstVote {console rest : List Str} {line : Str}
    (h : FirstVote console line rest) :
    askUser console = some (decide (line = text "t"), rest) := by
  obtain ⟨before, rfl, hline, hbefore⟩ := h
  induction before with
  | nil =>
      rcases hline with rfl | rfl
      · rfl
      · rfl
  | cons other before ih =>
      have hother := hbefore other List.mem_cons_self
      rw [List.cons_append, askUser, if_neg fun h => hother (Or.inl h),
        if_neg fun h => hother (Or.inr h)]
      exact ih fun later hlater => hbefore later (List.mem_cons_of_mem _ hlater)

theorem exists_firstVote {console : List Str} (h : ∃ line ∈ console, IsVote line) :
    ∃ line rest, FirstVote console line rest := by
  induction console with
  | nil =>
      obtain ⟨line, hline, -⟩ := h
      cases hline
  | cons other console ih =>
      by_cases hother : IsVote other
      · exact ⟨other, console, [], rfl, hother, by simp⟩
      · obtain ⟨line, hmem, hline⟩ := h
        have hlater : line ∈ console := by
          rcases List.mem_cons.mp hmem with rfl | hlater
          · exact absurd hline hother
          · exact hlater
        obtain ⟨first, rest, before, rfl, hfirst, hbefore⟩ := ih ⟨line, hlater, hline⟩
        refine ⟨first, rest, other :: before, rfl, hfirst, ?_⟩
        intro earlier hearlier
        rcases List.mem_cons.mp hearlier with rfl | hearlier
        · exact hother
        · exact hbefore earlier hearlier

theorem askUser_eq_none {console : List Str} (h : ¬ ∃ line ∈ console, IsVote line) :
    askUser console = none := by
  induction console with
  | nil => rfl
  | cons other console ih =>
      have hother : ¬ IsVote other := fun hvote => h ⟨other, List.mem_cons_self, hvote⟩
      rw [askUser, if_neg fun heq => hother (Or.inl heq), if_neg fun heq => hother (Or.inr heq)]
      exact ih fun ⟨line, hline, hvote⟩ => h ⟨line, List.mem_cons_of_mem _ hline, hvote⟩

/-- What a `prepare` answers for a vote. -/
def voteReply (transactionId line : Str) : Reply :=
  if line = text "t" then
    .ok (makeVoteCommitMessage transactionId)
  else
    .ok (makeVoteAbortMessage transactionId)

/-- What a `prepare` leaves after a vote. -/
def voteState (s : ServerState) (transactionId line : Str) (rest : List Str) : ServerState :=
  { s with
    log := Dao.insertTransactionOperation s.log
      (if line = text "t" then .voteCommit else .voteAbort) transactionId
    console := rest }

theorem handlePrepareMessage_of_firstVote {s : ServerState} {transactionId line : Str}
    {rest : List Str} (h : FirstVote s.console line rest) :
    handlePrepareMessage ⟨false⟩ s transactionId =
      some (voteReply transactionId line, voteState s transactionId line rest) := by
  have hvote : canCommitTransaction ⟨false⟩ s transactionId =
      some (decide (line = text "t"), rest) :=
    askUser_of_firstVote h
  unfold handlePrepareMessage voteReply voteState
  rw [hvote]
  by_cases hcommit : line = text "t" <;> simp [hcommit]

/-- **When the vote loop ends.**  With auto mode off, after some number of iterations
a `prepare` logs and answers the vote on the first line that is `t` or `n` and leaves
the lines behind it, exactly if there is such a line; otherwise it never returns. -/
theorem handlePrepareMessage_ends_iff (s : ServerState) (transactionId : Str) :
    (∃ n reply next, handlePrepareMessageWithin n ⟨false⟩ s transactionId = some (reply, next) ∧
      ∀ line rest, FirstVote s.console line rest →
        reply = voteReply transactionId line ∧ next = voteState s transactionId line rest) ↔
      ∃ line ∈ s.console, IsVote line := by
  constructor
  · rintro ⟨n, reply, next, hn, -⟩
    by_contra hnone
    have hhandle := (handlePrepareMessageWithin_iff ⟨false⟩ s transactionId _).mp ⟨n, hn⟩
    have hvote : canCommitTransaction ⟨false⟩ s transactionId = none := askUser_eq_none hnone
    rw [handlePrepareMessage, hvote] at hhandle
    cases hhandle
  · intro hexists
    obtain ⟨first, rest, hfirst⟩ := exists_firstVote hexists
    obtain ⟨n, hn⟩ := (handlePrepareMessageWithin_iff ⟨false⟩ s transactionId _).mpr
      (handlePrepareMessage_of_firstVote hfirst)
    refine ⟨n, _, _, hn, ?_⟩
    intro line rest' hline
    have hanswer : handlePrepareMessage ⟨false⟩ s transactionId =
        some (voteReply transactionId first, voteState s transactionId first rest) :=
      handlePrepareMessage_of_firstVote hfirst
    have hsame := hanswer.symm.trans (handlePrepareMessage_of_firstVote hline)
    exact Prod.mk.inj (Option.some.inj hsame)

/-- The only line is `yes`, and the input ends. -/
theorem handlePrepareMessage_never_ends :
    ∃ s : ServerState, s.console = [text "yes"] ∧
      ∀ n, handlePrepareMessageWithin n ⟨false⟩ s (text "T") = none := by
  refine ⟨.initial (fun _ => none) [text "yes"], rfl, fun n => ?_⟩
  by_contra hsome
  obtain ⟨answer, hanswer⟩ := Option.ne_none_iff_exists'.mp hsome
  have hhandle := (handlePrepareMessageWithin_iff _ _ _ answer).mp ⟨n, hanswer⟩
  cases hhandle

end DistributedFileServer
