import DistributedFileServer.DeferredUpdate.Relabelling
import Mathlib.Data.List.Induction

/-!
# Entries that are repeated

An owner who does not know whether an entry was taken down has it taken down
again.  The history then holds the entry once more, right behind itself.  Such
repetitions change neither what a transaction has last written nor the store that
a history leaves.
-/

namespace DeferredUpdate

section Lists

variable {α β : Type}

/-- The first list is the second one with some elements repeated, each right behind
itself. -/
inductive Stutters : List α → List α → Prop where
  | nil : Stutters [] []
  | concat {repeated list : List α} (element : α) (h : Stutters repeated list) :
      Stutters (repeated ++ [element]) (list ++ [element])
  | again {repeated list : List α} {element : α} (h : Stutters repeated (list ++ [element])) :
      Stutters (repeated ++ [element]) (list ++ [element])

theorem Stutters.refl (list : List α) : Stutters list list := by
  induction list using List.reverseRecOn with
  | nil => exact .nil
  | append_singleton list element ih => exact .concat element ih

theorem Stutters.mem_iff {repeated list : List α} (h : Stutters repeated list) {element : α} :
    element ∈ repeated ↔ element ∈ list := by
  induction h with
  | nil => rfl
  | concat last _ ih => simp only [List.mem_append, ih]
  | again _ ih =>
      rw [List.mem_append, ih]
      simp only [List.mem_append, or_assoc, or_self]

theorem Stutters.map (f : α → β) {repeated list : List α} (h : Stutters repeated list) :
    Stutters (repeated.map f) (list.map f) := by
  induction h with
  | nil => exact .nil
  | concat last _ ih =>
      rw [List.map_append, List.map_append]
      exact .concat (f last) ih
  | again _ ih =>
      rw [List.map_append] at ih
      rw [List.map_append, List.map_append]
      exact .again ih

/-- The first element with a property is not repeated ahead of itself. -/
theorem Stutters.head?_filterMap (select : α → Option β) {repeated list : List α}
    (h : Stutters repeated list) :
    (repeated.filterMap select).head? = (list.filterMap select).head? := by
  induction h with
  | nil => rfl
  | concat last _ ih => rw [List.filterMap_append, List.filterMap_append, List.head?_append,
      List.head?_append, ih]
  | @again _ _ last _ ih =>
      rw [List.filterMap_append, List.head?_append, ih, List.filterMap_append, List.head?_append,
        Option.or_assoc, Option.or_self]

/-- A pair comes last in a list, or before its last element. -/
theorem pair_sublist_concat {first second last : α} {list : List α} :
    [first, second].Sublist (list ++ [last]) ↔
      [first, second].Sublist list ∨ (second = last ∧ first ∈ list) := by
  constructor
  · intro h
    rw [List.sublist_append_iff] at h
    obtain ⟨front, back, hsplit, hfront, hback⟩ := h
    rcases List.sublist_singleton.mp hback with rfl | rfl
    · left
      rwa [hsplit, List.append_nil]
    · right
      obtain ⟨rfl, hlast⟩ : [first] = front ∧ second = last := by
        have hinj : [first] = front ∧ [second] = [last] := List.append_inj' hsplit rfl
        exact ⟨hinj.1, List.singleton_inj.mp hinj.2⟩
      exact ⟨hlast, List.singleton_sublist.mp hfront⟩
  · rintro (h | ⟨rfl, h⟩)
    · exact h.trans (List.sublist_append_left list [last])
    · exact (List.singleton_sublist.mpr h).append (List.Sublist.refl [second])

/-- Two different elements follow one another as often as without repetitions. -/
theorem Stutters.pair_iff {repeated list : List α} (h : Stutters repeated list)
    {first second : α} (hne : first ≠ second) :
    [first, second].Sublist repeated ↔ [first, second].Sublist list := by
  induction h with
  | nil => rfl
  | concat last hstutters ih => rw [pair_sublist_concat, pair_sublist_concat, ih, hstutters.mem_iff]
  | @again _ list last hstutters ih =>
      rw [pair_sublist_concat, ih, pair_sublist_concat, hstutters.mem_iff, List.mem_append,
        List.mem_singleton]
      constructor
      · rintro (hpair | ⟨rfl, hmem | rfl⟩)
        · exact hpair
        · exact Or.inr ⟨rfl, hmem⟩
        · exact absurd rfl hne
      · exact Or.inl

end Lists

variable {τ κ ν : Type} [DecidableEq τ] [DecidableEq κ]

/-- Laying the same writes over a store twice is laying them over it once. -/
theorem applyWrites_applyWrites {writes writes' : List (κ × ν)}
    (h : lastValue writes = lastValue writes') (store : Store κ ν) :
    applyWrites writes (applyWrites writes' store) = applyWrites writes' store := by
  ext key value
  rw [applyWrites_apply, applyWrites_apply, h, ← Option.or_assoc, Option.or_self]

/-- A write that is repeated is the last one either way. -/
theorem Stutters.lastValue_writesOf {repeated history : History τ κ ν}
    (h : Stutters repeated history) (transaction : τ) :
    lastValue (writesOf repeated transaction) = lastValue (writesOf history transaction) := by
  induction h with
  | nil => rfl
  | concat act _ ih =>
      rw [writesOf_append, writesOf_append]
      unfold lastValue at ih ⊢
      rw [applyWrites_append, applyWrites_append, ih]
  | @again _ history act _ ih =>
      rw [writesOf_append] at ih
      rw [writesOf_append, writesOf_append]
      unfold lastValue at ih ⊢
      rw [applyWrites_append, ih, applyWrites_append]
      exact applyWrites_applyWrites rfl _

/-- **Repetitions leave the store alone.**  A commit that is repeated lays the same
values over the store again. -/
theorem Stutters.replay_eq {repeated history : History τ κ ν} (h : Stutters repeated history)
    (initial : Store κ ν) : replay initial repeated = replay initial history := by
  induction h with
  | nil => rfl
  | @concat repeated history act hstutters ih =>
      rw [replay_concat, replay_concat, ih]
      cases act with
      | commit owner =>
          ext key value
          simp only [Act.effect, applyWrites_apply, hstutters.lastValue_writesOf]
      | _ => rfl
  | @again repeated history act hstutters ih =>
      rw [replay_concat, ih, replay_concat]
      cases act with
      | commit owner =>
          have hwrites := hstutters.lastValue_writesOf owner
          rw [writesOf_concat_of_ne (fun _ => rfl)] at hwrites
          exact applyWrites_applyWrites hwrites _
      | _ => rfl

/-- What a transaction finds under a key does not depend on repetitions. -/
theorem Stutters.locatedValue_eq {γ : Type} [DecidableEq γ] {repeated history : History τ κ ν}
    (h : Stutters repeated history) (locate : κ → γ) (initial : Store γ ν) (transaction : τ)
    (key : κ) :
    locatedValue locate initial repeated transaction key =
      locatedValue locate initial history transaction key := by
  unfold locatedValue
  rw [h.lastValue_writesOf, (h.map (Act.map id locate id)).replay_eq]

end DeferredUpdate
