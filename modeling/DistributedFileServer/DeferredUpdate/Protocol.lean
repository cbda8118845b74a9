import DistributedFileServer.DeferredUpdate.Discipline
import DistributedFileServer.DeferredUpdate.Serial

/-!
# The life of a transaction

A transaction that follows the protocol reads and writes, is voted on once, and
is then decided once, as the vote says.  The transactions of a history follow
the protocol independently of each other, in any interleaving.
-/

namespace DeferredUpdate

variable {τ κ ν : Type}

/-- The transaction has not been voted on. -/
def NotVoted (past : History τ κ ν) (transaction : τ) : Prop :=
  Act.vote transaction true ∉ past ∧ Act.vote transaction false ∉ past

/-- What a transaction may do next. -/
def CommitProtocol (past : History τ κ ν) : Act τ κ ν → Prop
  | .read owner _ | .write owner _ _ | .vote owner _ => NotVoted past owner
  | .commit owner => Act.vote owner true ∈ past ∧ Act.commit owner ∉ past
  | .abort owner => Act.vote owner false ∈ past ∧ Act.abort owner ∉ past

section Decidable

variable [DecidableEq τ] [DecidableEq κ] [DecidableEq ν]

instance decidableNotVoted (past : History τ κ ν) (transaction : τ) :
    Decidable (NotVoted past transaction) :=
  inferInstanceAs (Decidable (_ ∧ _))

instance decidableCommitProtocol (past : History τ κ ν) :
    ∀ act, Decidable (CommitProtocol past act)
  | .read owner _ => decidableNotVoted past owner
  | .write owner _ _ => decidableNotVoted past owner
  | .vote owner _ => decidableNotVoted past owner
  | .commit _ => inferInstanceAs (Decidable (_ ∧ _))
  | .abort _ => inferInstanceAs (Decidable (_ ∧ _))

end Decidable

theorem NotVoted.vote_notMem {past : History τ κ ν} {transaction : τ}
    (h : NotVoted past transaction) (granted : Bool) : Act.vote transaction granted ∉ past := by
  cases granted with
  | true => exact h.1
  | false => exact h.2

/-- What comes after a vote on a transaction is no read, no write and no further
vote of this transaction. -/
theorem decision_of_mem_after_vote {before after : History τ κ ν} {transaction : τ}
    {granted : Bool} {act : Act τ κ ν}
    (h : Obeys CommitProtocol (before ++ .vote transaction granted :: after))
    (hact : act ∈ after) (howner : act.owner = transaction) :
    act = .commit transaction ∨ act = .abort transaction := by
  obtain ⟨first, second, rfl⟩ := List.append_of_mem hact
  have hrule : CommitProtocol (before ++ .vote transaction granted :: first) act := by
    rw [← List.cons_append, ← List.append_assoc] at h
    exact h.at_split
  have hvote : Act.vote transaction granted ∈ before ++ .vote transaction granted :: first := by
    simp
  subst howner
  cases act with
  | commit owner => exact Or.inl rfl
  | abort owner => exact Or.inr rfl
  | read owner key => exact absurd hvote (NotVoted.vote_notMem hrule granted)
  | write owner key value => exact absurd hvote (NotVoted.vote_notMem hrule granted)
  | vote owner granted' => exact absurd hvote (NotVoted.vote_notMem hrule granted)

/-- A transaction is voted on once. -/
theorem vote_unique {history : History τ κ ν} (h : Obeys CommitProtocol history)
    {transaction : τ} {granted granted' : Bool} (hvote : .vote transaction granted ∈ history)
    (hvote' : .vote transaction granted' ∈ history) : granted = granted' := by
  obtain ⟨before, after, rfl⟩ := List.append_of_mem hvote
  rcases List.mem_append.mp hvote' with hmem | hmem
  · exact absurd hmem (NotVoted.vote_notMem h.at_split granted')
  · rcases List.mem_cons.mp hmem with heq | hmem
    · exact (Act.vote.inj heq).2.symm
    · rcases decision_of_mem_after_vote h hmem rfl with heq | heq
      · cases heq
      · cases heq

/-- A committed transaction had a positive vote. -/
theorem voted_of_committed {history : History τ κ ν} (h : Obeys CommitProtocol history)
    {transaction : τ} (hcommit : .commit transaction ∈ history) :
    .vote transaction true ∈ history := by
  obtain ⟨before, after, rfl⟩ := List.append_of_mem hcommit
  exact List.mem_append_left _ h.at_split.1

/-- Under the protocol a transaction does nothing after its commit. -/
theorem endsAtCommit_of_protocol {history : History τ κ ν} (h : Obeys CommitProtocol history) :
    EndsAtCommit history := by
  induction history using List.reverseRecOn with
  | nil => exact List.Pairwise.nil
  | append_singleton history act ih =>
      obtain ⟨hbefore, hrule⟩ := (obeys_concat CommitProtocol history act).mp h
      unfold EndsAtCommit
      rw [List.pairwise_append]
      refine ⟨ih hbefore, List.pairwise_singleton _ _, ?_⟩
      rintro earlier hearlier later hlater rfl
      obtain rfl := List.mem_singleton.mp hlater
      have hvote := voted_of_committed hbefore hearlier
      -- a voted transaction may only be decided, and this one already is
      cases later with
      | read owner key => exact hrule.1 hvote
      | write owner key value => exact hrule.1 hvote
      | vote owner granted => exact hrule.1 hvote
      | commit owner => exact hrule.2 hearlier
      | abort owner => cases vote_unique hbefore hvote hrule.1

/-- What a transaction may do next only depends on its own entries. -/
theorem commitProtocol_congr {past past' : History τ κ ν} {act : Act τ κ ν}
    (h : ∀ own : Act τ κ ν, own.owner = act.owner → (own ∈ past ↔ own ∈ past')) :
    CommitProtocol past act ↔ CommitProtocol past' act := by
  have hvoted := fun granted => h (.vote act.owner granted) rfl
  cases act with
  | commit owner => exact and_congr (hvoted true) (not_congr (h (.commit owner) rfl))
  | abort owner => exact and_congr (hvoted false) (not_congr (h (.abort owner) rfl))
  | _ => exact and_congr (not_congr (hvoted true)) (not_congr (hvoted false))

variable [DecidableEq τ]

/-- The serial execution of transactions that follow the protocol follows it. -/
theorem commitProtocol_group {history : History τ κ ν} (h : Obeys CommitProtocol history)
    {order : List τ} (hnodup : order.Nodup) :
    Obeys CommitProtocol (group Act.owner order history) := by
  apply obeys_of_split
  intro before act after hsplit
  obtain ⟨earlier, later, past, future, rfl, rfl, rfl⟩ := group_eq_append_cons hsplit
  refine (commitProtocol_congr ?_).mp h.at_split
  intro own howner
  constructor
  · intro hmem
    exact List.mem_append_right _ (List.mem_filter.mpr ⟨hmem, decide_eq_true howner⟩)
  · intro hmem
    rcases List.mem_append.mp hmem with hearlier | hpast
    · -- an earlier group holds no entry of this transaction
      have howner' : act.owner ∈ earlier := howner ▸ (label_mem_of_mem_group hearlier).1
      exact absurd rfl ((List.nodup_append.mp hnodup).2.2 _ howner' _ List.mem_cons_self)
    · exact (List.mem_filter.mp hpast).1

/-- All writes of a transaction come before the vote on it. -/
theorem writesOf_before_vote {before after : History τ κ ν} {transaction : τ} {granted : Bool}
    (h : Obeys CommitProtocol (before ++ .vote transaction granted :: after)) :
    writesOf (before ++ .vote transaction granted :: after) transaction =
      writesOf before transaction := by
  have hnone : writesOf (.vote transaction granted :: after) transaction = [] := by
    unfold writesOf
    rw [List.filterMap_eq_nil_iff]
    intro act hact
    by_cases howner : act.owner = transaction
    · rw [if_pos howner]
      rcases List.mem_cons.mp hact with rfl | hmem
      · rfl
      · rcases decision_of_mem_after_vote h hmem howner with rfl | rfl
        · rfl
        · rfl
    · exact if_neg howner
  rw [writesOf_append, hnone, List.append_nil]

end DeferredUpdate
