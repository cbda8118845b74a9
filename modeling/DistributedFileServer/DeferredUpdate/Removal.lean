import DistributedFileServer.DeferredUpdate.History

/-!
# Removing transactions from a history

A transaction that writes nothing or never commits can be taken out of a history
without a change to the store.  What the removed transactions may change is the votes
of the others, so histories are compared up to the outcomes of their votes.
-/

namespace DeferredUpdate

variable {τ κ ν : Type}

/-- An entry without the outcome of its vote. -/
def Act.unvoted : Act τ κ ν → Act τ κ ν
  | .vote owner _ => .vote owner true
  | act => act

namespace Act

@[simp] theorem owner_unvoted (act : Act τ κ ν) : act.unvoted.owner = act.owner := by
  cases act <;> rfl

@[simp] theorem write?_unvoted (act : Act τ κ ν) : act.unvoted.write? = act.write? := by
  cases act <;> rfl

@[simp] theorem read?_unvoted (act : Act τ κ ν) : act.unvoted.read? = act.read? := by
  cases act <;> rfl

@[simp] theorem key?_unvoted (act : Act τ κ ν) : act.unvoted.key? = act.key? := by
  cases act <;> rfl

@[simp] theorem unvoted_eq_commit_iff {act : Act τ κ ν} {transaction : τ} :
    act.unvoted = .commit transaction ↔ act = .commit transaction := by
  cases act <;> simp [unvoted]

end Act

theorem commit_mem_unvoted_iff {history : History τ κ ν} {transaction : τ} :
    Act.commit transaction ∈ history.map Act.unvoted ↔ Act.commit transaction ∈ history := by
  simp

section Owners

variable [DecidableEq τ]

theorem writesOf_unvoted (history : History τ κ ν) (transaction : τ) :
    writesOf (history.map Act.unvoted) transaction = writesOf history transaction := by
  unfold writesOf
  rw [List.filterMap_map]
  simp

theorem readsOf_unvoted (history : History τ κ ν) (transaction : τ) :
    readsOf (history.map Act.unvoted) transaction = readsOf history transaction := by
  unfold readsOf
  rw [List.filterMap_map]
  simp

/-- The transaction commits nothing. -/
def Idle (history : History τ κ ν) (transaction : τ) : Prop :=
  Act.commit transaction ∉ history ∨ writesOf history transaction = []

theorem Idle.of_append {first second : History τ κ ν} {transaction : τ}
    (h : Idle (first ++ second) transaction) : Idle first transaction := by
  rcases h with h | h
  · exact Or.inl fun hmem => h (List.mem_append_left _ hmem)
  · rw [writesOf_append, List.append_eq_nil_iff] at h
    exact Or.inr h.1

variable [DecidableEq κ]

theorem replay_unvoted (initial : Store κ ν) (history : History τ κ ν) :
    replay initial (history.map Act.unvoted) = replay initial history := by
  induction history using List.reverseRecOn with
  | nil => rfl
  | append_singleton history act ih =>
      rw [List.map_append, List.map_singleton, replay_concat, replay_concat, ih]
      cases act with
      | commit owner => simp only [Act.unvoted, Act.effect, writesOf_unvoted]
      | _ => rfl

/-- **Removal.**  Transactions that commit nothing do not enter the replay. -/
theorem replay_filter_of_idle {initial : Store κ ν} {history : History τ κ ν} {keep : τ → Bool}
    (h : ∀ transaction, keep transaction = false → Idle history transaction) :
    replay initial (history.filter fun act => keep act.owner) = replay initial history := by
  induction history using List.reverseRecOn with
  | nil => rfl
  | append_singleton history act ih =>
      have hbefore : ∀ transaction, keep transaction = false → Idle history transaction :=
        fun transaction hkeep => (h transaction hkeep).of_append
      rw [List.filter_append, replay_concat, ← ih hbefore]
      cases hkeep : keep act.owner with
      | true =>
          have hkept : [act].filter (fun act => keep act.owner) = [act] := by simp [hkeep]
          rw [hkept, replay_concat]
          cases act with
          | commit owner =>
              have hwrites : writesOf (history.filter fun act => keep act.owner) owner =
                  writesOf history owner :=
                writesOf_filter (fun act howner => by rw [howner]; exact hkeep) history
              simp only [Act.effect, hwrites]
          | _ => rfl
      | false =>
          have hdropped : [act].filter (fun act => keep act.owner) = [] := by simp [hkeep]
          rw [hdropped, List.append_nil]
          cases act with
          | commit owner =>
              -- a dropped commit has nothing to apply
              have hwrites : writesOf history owner = [] := by
                rcases h owner hkeep with hcommit | hwrites
                · exact absurd (by simp) hcommit
                · exact (List.append_eq_nil_iff.mp (writesOf_append history _ owner ▸ hwrites)).1
              simp only [Act.effect, hwrites, applyWrites_nil]
          | _ => rfl

end Owners

end DeferredUpdate
