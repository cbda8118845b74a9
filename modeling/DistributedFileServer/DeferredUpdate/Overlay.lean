import Mathlib.Data.List.Induction
import Mathlib.Logic.Function.Basic

/-!
# Lists of writes laid over a store

A store maps keys to values.  A list of writes, laid over a store in order,
shadows it on the written keys and leaves it alone elsewhere.  The list laid
over the empty store is the workspace it describes.
-/

namespace DeferredUpdate

variable {κ ν : Type} [DecidableEq κ]

/-- A partial map from keys to values. -/
abbrev Store (κ ν : Type) := κ → Option ν

/-- Lay the writes over the store, first to last. -/
def applyWrites (writes : List (κ × ν)) (store : Store κ ν) : Store κ ν :=
  writes.foldl (fun store write => Function.update store write.1 (some write.2)) store

/-- The last value written to each key. -/
def lastValue (writes : List (κ × ν)) : Store κ ν :=
  applyWrites writes fun _ => none

@[simp] theorem applyWrites_nil (store : Store κ ν) :
    applyWrites ([] : List (κ × ν)) store = store := rfl

@[simp] theorem applyWrites_append (first second : List (κ × ν)) (store : Store κ ν) :
    applyWrites (first ++ second) store = applyWrites second (applyWrites first store) :=
  List.foldl_append

theorem applyWrites_concat (writes : List (κ × ν)) (key : κ) (value : ν) (store : Store κ ν) :
    applyWrites (writes ++ [(key, value)]) store =
      Function.update (applyWrites writes store) key (some value) := by
  rw [applyWrites_append]
  rfl

@[simp] theorem lastValue_nil (key : κ) : lastValue ([] : List (κ × ν)) key = none := rfl

@[simp] theorem lastValue_concat (writes : List (κ × ν)) (key key' : κ) (value : ν) :
    lastValue (writes ++ [(key, value)]) key' =
      if key' = key then some value else lastValue writes key' := by
  unfold lastValue
  rw [applyWrites_concat, Function.update_apply]

/-- **Overlay.**  A key holds its last written value, or else what it held. -/
theorem applyWrites_apply (writes : List (κ × ν)) (store : Store κ ν) (key : κ) :
    applyWrites writes store key = (lastValue writes key).or (store key) := by
  induction writes using List.reverseRecOn with
  | nil => rfl
  | append_singleton writes write ih =>
      obtain ⟨key', value⟩ := write
      rw [applyWrites_concat, Function.update_apply, lastValue_concat, ih]
      split_ifs <;> rfl

/-- A key has no last value exactly if no write names it. -/
theorem lastValue_eq_none_iff (writes : List (κ × ν)) (key : κ) :
    lastValue writes key = none ↔ ∀ write ∈ writes, write.1 ≠ key := by
  induction writes using List.reverseRecOn with
  | nil => simp
  | append_singleton writes write ih =>
      obtain ⟨key', value⟩ := write
      rw [lastValue_concat]
      by_cases hkey : key = key'
      · subst hkey
        simp only [if_true, reduceCtorEq, false_iff]
        intro hall
        exact hall (key, value) (by simp) rfl
      · rw [if_neg hkey, ih]
        constructor
        · intro hall write hwrite
          rcases List.mem_append.mp hwrite with hwrite | hwrite
          · exact hall write hwrite
          · obtain rfl := List.mem_singleton.mp hwrite
            exact Ne.symm hkey
        · intro hall write hwrite
          exact hall write (List.mem_append_left _ hwrite)

/-- A last value was written. -/
theorem mem_of_lastValue_eq_some {writes : List (κ × ν)} {key : κ} {value : ν}
    (h : lastValue writes key = some value) : (key, value) ∈ writes := by
  induction writes using List.reverseRecOn with
  | nil => simp at h
  | append_singleton writes write ih =>
      obtain ⟨key', value'⟩ := write
      rw [lastValue_concat] at h
      by_cases hkey : key = key'
      · subst hkey
        obtain rfl : value' = value := by simpa using h
        simp
      · rw [if_neg hkey] at h
        exact List.mem_append_left _ (ih h)

/-- A value that no later write covers is the last one. -/
theorem lastValue_of_split (earlier : List (κ × ν)) {later : List (κ × ν)} {key : κ}
    (value : ν) (h : ∀ write ∈ later, write.1 ≠ key) :
    lastValue (earlier ++ (key, value) :: later) key = some value := by
  have hnone : lastValue later key = none := (lastValue_eq_none_iff later key).mpr h
  unfold lastValue
  rw [applyWrites_append]
  show applyWrites later (Function.update _ key (some value)) key = some value
  rw [applyWrites_apply, hnone, Option.none_or, Function.update_self]

/-- The last value of a key is the value of the last write that names it. -/
theorem lastValue_eq_getLast? (writes : List (κ × ν)) (key : κ) :
    lastValue writes key =
      ((writes.filter fun write => write.1 = key).getLast?).map Prod.snd := by
  induction writes using List.reverseRecOn with
  | nil => rfl
  | append_singleton writes write ih =>
      obtain ⟨key', value⟩ := write
      rw [lastValue_concat, List.filter_append]
      by_cases hkey : key' = key
      · subst hkey
        simp
      · rw [if_neg (Ne.symm hkey), ih]
        simp [hkey]

/-- Laying writes over a store that already shows them changes nothing, and
only then. -/
theorem applyWrites_eq_self_iff (writes : List (κ × ν)) (store : Store κ ν) :
    applyWrites writes store = store ↔
      ∀ key value, lastValue writes key = some value → store key = some value := by
  constructor
  · intro hself key value hvalue
    have := congrFun hself key
    rw [applyWrites_apply, hvalue] at this
    exact this.symm
  · intro hshown
    funext key
    rw [applyWrites_apply]
    cases hvalue : lastValue writes key with
    | none => rfl
    | some value => exact (hshown key value hvalue).symm

/-- A value found after the writes was written or was there before. -/
theorem forall_value_applyWrites {P : ν → Prop} {writes : List (κ × ν)} {store : Store κ ν}
    (hwrites : ∀ write ∈ writes, P write.2)
    (hstore : ∀ key value, store key = some value → P value) {key : κ} {value : ν}
    (h : applyWrites writes store key = some value) : P value := by
  rw [applyWrites_apply] at h
  cases hlast : lastValue writes key with
  | none =>
      rw [hlast, Option.none_or] at h
      exact hstore key value h
  | some last =>
      obtain rfl : last = value := by simpa [hlast] using h
      exact hwrites _ (mem_of_lastValue_eq_some hlast)

/-- If every key is written with one value, the order of the writes does not matter. -/
theorem lastValue_perm {writes writes' : List (κ × ν)} (hperm : writes.Perm writes')
    (hvalue : ∀ key value value', (key, value) ∈ writes → (key, value') ∈ writes →
      value = value') : lastValue writes = lastValue writes' := by
  funext key
  cases hlast : lastValue writes key with
  | none =>
      rw [lastValue_eq_none_iff] at hlast
      exact ((lastValue_eq_none_iff _ _).mpr fun write hwrite =>
        hlast write (hperm.mem_iff.mpr hwrite)).symm
  | some value =>
      have hmem := mem_of_lastValue_eq_some hlast
      cases hlast' : lastValue writes' key with
      | none =>
          rw [lastValue_eq_none_iff] at hlast'
          exact absurd rfl (hlast' _ (hperm.mem_iff.mp hmem))
      | some value' =>
          have hmem' := hperm.mem_iff.mpr (mem_of_lastValue_eq_some hlast')
          rw [hvalue key value value' hmem hmem']

/-- Lists of writes to different keys commute. -/
theorem applyWrites_comm {first second : List (κ × ν)}
    (hdisjoint : ∀ write ∈ first, ∀ write' ∈ second, write.1 ≠ write'.1)
    (store : Store κ ν) :
    applyWrites first (applyWrites second store) =
      applyWrites second (applyWrites first store) := by
  funext key
  simp only [applyWrites_apply]
  cases hfirst : lastValue first key with
  | none => rfl
  | some value =>
      have hsecond : lastValue second key = none := by
        rw [lastValue_eq_none_iff]
        intro write hwrite hkey
        exact hdisjoint _ (mem_of_lastValue_eq_some hfirst) write hwrite hkey.symm
      rw [hsecond]
      rfl

end DeferredUpdate
