import DistributedFileServer.DeferredUpdate.History
import Mathlib.Data.List.Induction

/-!
# Entries without an effect

A vote or an abort names no key, and the store never depends on it.  As the first entry
of its owner it marks where the owner has begun; a later one can be taken out of a history
without a change to the store, to the keys that anyone has accessed or to who has begun.
-/

namespace DeferredUpdate

variable {τ κ ν : Type}

/-- The entry names no key and commits nothing. -/
def Act.Inert : Act τ κ ν → Prop
  | .vote _ _ | .abort _ => True
  | .read _ _ | .write _ _ _ | .commit _ => False

theorem Act.Inert.write? {act : Act τ κ ν} (h : act.Inert) : act.write? = none := by
  cases act <;> first | rfl | exact h.elim

theorem Act.Inert.key? {act : Act τ κ ν} (h : act.Inert) : act.key? = none := by
  cases act <;> first | rfl | exact h.elim

theorem Act.Inert.read? {act : Act τ κ ν} (h : act.Inert) : act.read? = none := by
  cases act <;> first | rfl | exact h.elim

/-- The second history is the first one without some of the inert entries whose owners had
begun before. -/
inductive Thins : History τ κ ν → History τ κ ν → Prop where
  | nil : Thins [] []
  | keep {history thinned : History τ κ ν} (act : Act τ κ ν) (h : Thins history thinned) :
      Thins (history ++ [act]) (thinned ++ [act])
  | drop {history thinned : History τ κ ν} {act : Act τ κ ν} (h : Thins history thinned)
      (hinert : act.Inert) (hbegun : ∃ earlier ∈ history, earlier.owner = act.owner) :
      Thins (history ++ [act]) thinned

namespace Thins

variable {history thinned : History τ κ ν}

theorem append (h : Thins history thinned) (entries : History τ κ ν) :
    Thins (history ++ entries) (thinned ++ entries) := by
  induction entries using List.reverseRecOn with
  | nil =>
      rw [List.append_nil, List.append_nil]
      exact h
  | append_singleton entries act ih =>
      rw [← List.append_assoc, ← List.append_assoc]
      exact ih.keep act

theorem mem_iff (h : Thins history thinned) {act : Act τ κ ν} (hact : ¬ act.Inert) :
    act ∈ history ↔ act ∈ thinned := by
  induction h with
  | nil => rfl
  | keep last _ ih => rw [List.mem_append, List.mem_append, ih]
  | drop _ hinert _ ih =>
      rw [List.mem_append, ih, List.mem_singleton, or_iff_left]
      rintro rfl
      exact hact hinert

/-- The same owners have begun. -/
theorem begun_iff (h : Thins history thinned) {owner : τ} :
    (∃ earlier ∈ history, earlier.owner = owner) ↔ ∃ earlier ∈ thinned, earlier.owner = owner := by
  induction h with
  | nil => rfl
  | keep act _ ih =>
      simp only [List.mem_append, or_and_right, exists_or, ih]
  | @drop _ _ act _ _ hbegun ih =>
      rw [← ih]
      simp only [List.mem_append, or_and_right, exists_or, List.mem_singleton, exists_eq_left]
      rw [or_iff_left_iff_imp]
      rintro rfl
      exact hbegun

section Owners

variable [DecidableEq τ]

theorem writesOf_eq (h : Thins history thinned) (transaction : τ) :
    writesOf history transaction = writesOf thinned transaction := by
  induction h with
  | nil => rfl
  | keep act _ ih => rw [writesOf_append, writesOf_append, ih]
  | drop _ hinert _ ih => rw [writesOf_concat_of_ne fun _ => hinert.write?, ih]

theorem readsOf_eq (h : Thins history thinned) (transaction : τ) :
    readsOf history transaction = readsOf thinned transaction := by
  induction h with
  | nil => rfl
  | keep act _ ih => rw [readsOf_append, readsOf_append, ih]
  | @drop _ _ act _ hinert _ ih =>
      have hnone : readsOf [act] transaction = [] := by
        simp [readsOf, hinert.read?]
      rw [readsOf_append, hnone, List.append_nil, ih]

variable [DecidableEq κ]

/-- **The store stays the same.** -/
theorem replay_eq (h : Thins history thinned) (initial : Store κ ν) :
    replay initial history = replay initial thinned := by
  induction h with
  | nil => rfl
  | keep act hthins ih =>
      rw [replay_concat, replay_concat, ih]
      cases act with
      | commit owner => simp only [Act.effect, hthins.writesOf_eq]
      | _ => rfl
  | @drop _ _ act _ hinert _ ih =>
      rw [replay_concat, ih]
      cases act with
      | vote owner granted => rfl
      | abort owner => rfl
      | _ => exact hinert.elim

/-- What a transaction reads does not change either. -/
theorem readValue_eq (h : Thins history thinned) (initial : Store κ ν) (transaction : τ)
    (key : κ) :
    readValue initial history transaction key = readValue initial thinned transaction key := by
  rw [readValue, readValue, h.writesOf_eq, h.replay_eq]

end Owners

end Thins

end DeferredUpdate
