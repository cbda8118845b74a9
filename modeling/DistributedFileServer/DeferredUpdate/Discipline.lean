import DistributedFileServer.DeferredUpdate.History

/-!
# Disciplines of the coordinator

A history says what was decided, not whether it was decided well.  A discipline
is a rule that every entry obeys, given the entries before it.  Two disciplines
are stated here: decisions that follow the votes, and votes that are asked for
one transaction at a time.
-/

namespace DeferredUpdate

/-! ## Rules over the past -/

section Rules

variable {α : Type}

/-- Every element obeys the rule, given the elements before it. -/
def ObeysAfter (rule : List α → α → Prop) : List α → List α → Prop
  | _, [] => True
  | past, element :: rest => rule past element ∧ ObeysAfter rule (past ++ [element]) rest

/-- Every element of the list obeys the rule. -/
def Obeys (rule : List α → α → Prop) (list : List α) : Prop :=
  ObeysAfter rule [] list

instance decidableObeysAfter (rule : List α → α → Prop)
    [∀ past element, Decidable (rule past element)] :
    ∀ past list, Decidable (ObeysAfter rule past list)
  | _, [] => .isTrue trivial
  | past, element :: rest =>
      haveI := decidableObeysAfter rule (past ++ [element]) rest
      inferInstanceAs (Decidable (rule past element ∧ _))

instance (rule : List α → α → Prop) [∀ past element, Decidable (rule past element)]
    (list : List α) : Decidable (Obeys rule list) :=
  decidableObeysAfter rule [] list

theorem obeysAfter_append (rule : List α → α → Prop) (past first second : List α) :
    ObeysAfter rule past (first ++ second) ↔
      ObeysAfter rule past first ∧ ObeysAfter rule (past ++ first) second := by
  induction first generalizing past with
  | nil => simp [ObeysAfter]
  | cons element first ih => simp [ObeysAfter, ih, and_assoc]

@[simp] theorem obeys_nil (rule : List α → α → Prop) : Obeys rule [] := trivial

theorem obeys_concat (rule : List α → α → Prop) (list : List α) (element : α) :
    Obeys rule (list ++ [element]) ↔ Obeys rule list ∧ rule list element := by
  unfold Obeys
  rw [obeysAfter_append]
  simp [ObeysAfter]

theorem Obeys.of_append {rule : List α → α → Prop} {first second : List α}
    (h : Obeys rule (first ++ second)) : Obeys rule first :=
  ((obeysAfter_append rule [] first second).mp h).1

/-- Each element obeys the rule at its own place. -/
theorem Obeys.at_split {rule : List α → α → Prop} {before after : List α} {element : α}
    (h : Obeys rule (before ++ element :: after)) : rule before element := by
  have hrest := ((obeysAfter_append rule [] before (element :: after)).mp h).2
  rw [List.nil_append] at hrest
  exact hrest.1

theorem obeys_of_split {rule : List α → α → Prop} {list : List α}
    (h : ∀ before element after, list = before ++ element :: after → rule before element) :
    Obeys rule list := by
  induction list using List.reverseRecOn with
  | nil => exact obeys_nil rule
  | append_singleton list element ih =>
      rw [obeys_concat]
      refine ⟨ih ?_, h list element [] rfl⟩
      intro before other after hsplit
      apply h before other (after ++ [element])
      rw [hsplit, List.append_assoc, List.cons_append]

end Rules

variable {τ κ ν : Type}

/-! ## Decisions that follow the votes -/

/-- The vote an entry records. -/
def Act.vote? : Act τ κ ν → Option Bool
  | vote _ granted => some granted
  | read _ _ | write _ _ _ | commit _ | abort _ => none

section Decisions

variable [DecidableEq τ]

/-- The transaction's most recent vote. -/
def lastVote (history : History τ κ ν) (transaction : τ) : Option Bool :=
  (history.filterMap fun act =>
    if act.owner = transaction then act.vote? else none).getLast?

/-- A most recent vote was given. -/
theorem vote_mem_of_lastVote {history : History τ κ ν} {transaction : τ} {granted : Bool}
    (h : lastVote history transaction = some granted) :
    Act.vote transaction granted ∈ history := by
  obtain ⟨act, hact, hvote⟩ := List.mem_filterMap.mp (List.mem_of_getLast? h)
  split_ifs at hvote with howner
  cases act with
  | vote owner granted' =>
      obtain rfl : owner = transaction := howner
      obtain rfl : granted' = granted := by simpa [Act.vote?] using hvote
      exact hact
  | _ => simp [Act.vote?] at hvote

/-- A commit needs a positive last vote and no abort before it; an abort needs
no commit before it. -/
def FollowsVotes (past : History τ κ ν) : Act τ κ ν → Prop
  | .commit owner => lastVote past owner = some true ∧ Act.abort owner ∉ past
  | .abort owner => Act.commit owner ∉ past
  | .read _ _ | .write _ _ _ | .vote _ _ => True

instance [DecidableEq κ] [DecidableEq ν] (past : History τ κ ν) (act : Act τ κ ν) :
    Decidable (FollowsVotes past act) := by
  cases act <;> unfold FollowsVotes <;> infer_instance

/-- Under this discipline no transaction is both committed and aborted. -/
theorem not_commit_and_abort {history : History τ κ ν} (h : Obeys FollowsVotes history)
    (transaction : τ) :
    ¬ (Act.commit transaction ∈ history ∧ Act.abort transaction ∈ history) := by
  induction history using List.reverseRecOn with
  | nil => simp
  | append_singleton history act ih =>
      obtain ⟨hbefore, hlast⟩ := (obeys_concat FollowsVotes history act).mp h
      rintro ⟨hcommit, habort⟩
      -- whichever of the two came last was forbidden by the other
      rcases List.mem_append.mp hcommit with hcommit' | hcommit'
      · rcases List.mem_append.mp habort with habort' | habort'
        · exact ih hbefore ⟨hcommit', habort'⟩
        · obtain rfl := List.mem_singleton.mp habort'
          exact hlast hcommit'
      · obtain rfl := List.mem_singleton.mp hcommit'
        rcases List.mem_append.mp habort with habort' | habort'
        · exact hlast.2 habort'
        · simp at habort'

/-- Under this discipline a committed transaction was voted for. -/
theorem vote_mem_of_commit_mem {history : History τ κ ν} (h : Obeys FollowsVotes history)
    {transaction : τ} (hcommit : Act.commit transaction ∈ history) :
    Act.vote transaction true ∈ history := by
  obtain ⟨before, after, rfl⟩ := List.append_of_mem hcommit
  exact List.mem_append_left _ (vote_mem_of_lastVote h.at_split.1)

end Decisions

/-! ## One outstanding vote at a time -/

/-- The transaction was voted for and is not decided yet. -/
def Outstanding (history : History τ κ ν) (transaction : τ) : Prop :=
  Act.vote transaction true ∈ history ∧ Act.commit transaction ∉ history ∧
    Act.abort transaction ∉ history

instance [DecidableEq τ] [DecidableEq κ] [DecidableEq ν] (history : History τ κ ν)
    (transaction : τ) : Decidable (Outstanding history transaction) :=
  inferInstanceAs (Decidable (_ ∧ _ ∧ _))

/-- What is outstanding after one more entry was so before, unless the entry is
the vote itself. -/
theorem outstanding_of_concat {history : History τ κ ν} {act : Act τ κ ν} {transaction : τ}
    (h : Outstanding (history ++ [act]) transaction) (hvote : act ≠ .vote transaction true) :
    Outstanding history transaction := by
  obtain ⟨hvoted, hcommit, habort⟩ := h
  refine ⟨?_, fun hmem => hcommit (List.mem_append_left _ hmem),
    fun hmem => habort (List.mem_append_left _ hmem)⟩
  rcases List.mem_append.mp hvoted with hvoted | hvoted
  · exact hvoted
  · exact absurd (List.mem_singleton.mp hvoted).symm hvote

/-- No vote is asked for while another transaction's is outstanding. -/
def VotesAlone (past : History τ κ ν) : Act τ κ ν → Prop
  | .vote owner _ => ∀ act ∈ past, Outstanding past act.owner → act.owner = owner
  | .read _ _ | .write _ _ _ | .commit _ | .abort _ => True

instance [DecidableEq τ] [DecidableEq κ] [DecidableEq ν] (past : History τ κ ν)
    (act : Act τ κ ν) : Decidable (VotesAlone past act) := by
  cases act <;> unfold VotesAlone <;> infer_instance

/-- Under this discipline no two votes are outstanding together. -/
theorem outstanding_unique {history : History τ κ ν} (h : Obeys VotesAlone history)
    {first second : τ} (hfirst : Outstanding history first)
    (hsecond : Outstanding history second) : first = second := by
  induction history using List.reverseRecOn with
  | nil => simp [Outstanding] at hfirst
  | append_singleton history act ih =>
      obtain ⟨hbefore, hlast⟩ := (obeys_concat VotesAlone history act).mp h
      -- the last entry can be the vote of one of the two only
      by_cases hvoteFirst : act = .vote first true
      · by_contra hne
        subst hvoteFirst
        have hother : Outstanding history second := by
          apply outstanding_of_concat hsecond
          intro hvote
          simp only [Act.vote.injEq, and_true] at hvote
          exact hne hvote
        exact hne (hlast _ hother.1 hother).symm
      · have hotherFirst := outstanding_of_concat hfirst hvoteFirst
        by_cases hvoteSecond : act = .vote second true
        · by_contra hne
          subst hvoteSecond
          exact hne (hlast _ hotherFirst.1 hotherFirst)
        · exact ih hbefore hotherFirst (outstanding_of_concat hsecond hvoteSecond)

/-! ## Where stored values come from -/

section Values

variable [DecidableEq τ] [DecidableEq κ]

/-- A key that no longer holds its initial value holds one that a committed
transaction wrote. -/
theorem replay_apply_of_ne {initial : Store κ ν} {history : History τ κ ν} {key : κ}
    (h : replay initial history key ≠ initial key) :
    ∃ transaction value, Act.commit transaction ∈ history ∧
      Act.write transaction key value ∈ history ∧
      replay initial history key = some value := by
  induction history using List.reverseRecOn with
  | nil => exact absurd rfl h
  | append_singleton history act ih =>
      -- an entry that leaves the key alone leaves the earlier answer valid
      have hkeep : replay initial (history ++ [act]) key = replay initial history key →
          ∃ transaction value, Act.commit transaction ∈ history ++ [act] ∧
            Act.write transaction key value ∈ history ++ [act] ∧
            replay initial (history ++ [act]) key = some value := by
        intro hsame
        rw [hsame] at h
        obtain ⟨transaction, value, hcommit, hwrite, hvalue⟩ := ih h
        exact ⟨transaction, value, List.mem_append_left _ hcommit,
          List.mem_append_left _ hwrite, hsame.trans hvalue⟩
      rw [replay_concat] at hkeep ⊢
      cases act with
      | commit owner =>
          simp only [Act.effect, applyWrites_apply] at hkeep ⊢
          cases hlast : lastValue (writesOf history owner) key with
          | none =>
              rw [hlast] at hkeep
              exact hkeep rfl
          | some value =>
              have hwrite := mem_writesOf_iff.mp (mem_of_lastValue_eq_some hlast)
              exact ⟨owner, value, by simp, List.mem_append_left _ hwrite, rfl⟩
      | _ => exact hkeep rfl

end Values

end DeferredUpdate
