import Mathlib.Init

/-!
# Calls that may fail

Which calls of a program succeed is decided from outside, call by call.  A program
that follows a plan makes the calls of the plan in order, and gives up at the first
call that it checks and that fails.
-/

namespace Programs

variable {γ : Type}

/-- The calls with their outcomes, when the first of them is the `n`-th of all. -/
def withOutcomes (succeeds : Nat → Bool) : Nat → List γ → List (γ × Bool)
  | _, [] => []
  | n, call :: calls => (call, succeeds n) :: withOutcomes succeeds (n + 1) calls

variable {succeeds : Nat → Bool}

@[simp] theorem length_withOutcomes (n : Nat) (calls : List γ) :
    (withOutcomes succeeds n calls).length = calls.length := by
  induction calls generalizing n with
  | nil => rfl
  | cons call calls ih => simp [withOutcomes, ih]

@[simp] theorem map_fst_withOutcomes (n : Nat) (calls : List γ) :
    (withOutcomes succeeds n calls).map Prod.fst = calls := by
  induction calls generalizing n with
  | nil => rfl
  | cons call calls ih => simp [withOutcomes, ih]

theorem withOutcomes_append (n : Nat) (calls later : List γ) :
    withOutcomes succeeds n (calls ++ later) =
      withOutcomes succeeds n calls ++ withOutcomes succeeds (n + calls.length) later := by
  induction calls generalizing n with
  | nil => rfl
  | cons call calls ih =>
      have hlength : n + (call :: calls).length = n + 1 + calls.length := by
        simp only [List.length_cons]
        omega
      rw [hlength]
      simp [withOutcomes, ih]

theorem fst_mem_of_mem_withOutcomes {n : Nat} {calls : List γ} {made : γ × Bool}
    (h : made ∈ withOutcomes succeeds n calls) : made.1 ∈ calls := by
  have hmem : made.1 ∈ (withOutcomes succeeds n calls).map Prod.fst := List.mem_map_of_mem h
  rwa [map_fst_withOutcomes] at hmem

/-- The calls that are checked succeed. -/
def AllSucceed (checked : γ → Prop) (succeeds : Nat → Bool) (n : Nat) (calls : List γ) : Prop :=
  ∀ made ∈ withOutcomes succeeds n calls, checked made.1 → made.2 = true

variable {checked : γ → Prop}

theorem allSucceed_append (n : Nat) (calls later : List γ) :
    AllSucceed checked succeeds n (calls ++ later) ↔
      AllSucceed checked succeeds n calls ∧
        AllSucceed checked succeeds (n + calls.length) later := by
  unfold AllSucceed
  rw [withOutcomes_append, List.forall_mem_append]

theorem allSucceed_singleton (n : Nat) (call : γ) :
    AllSucceed checked succeeds n [call] ↔ (checked call → succeeds n = true) := by
  simp [AllSucceed, withOutcomes]

/-- The plan is given up at a call that is checked and fails; what is made instead of
the rest is `cleanup`. -/
def GivenUp (checked : γ → Prop) (succeeds : Nat → Bool) (n : Nat) (plan cleanup : List γ)
    (made : List (γ × Bool)) : Prop :=
  ∃ front call back, plan = front ++ call :: back ∧ checked call ∧
    succeeds (n + front.length) = false ∧
    made = withOutcomes succeeds n (front ++ call :: cleanup)

/-- A plan that is given up is one of whose checked calls some fails. -/
theorem GivenUp.not_allSucceed {n : Nat} {plan cleanup : List γ} {made : List (γ × Bool)}
    (h : GivenUp checked succeeds n plan cleanup made) :
    ¬ AllSucceed checked succeeds n plan := by
  obtain ⟨front, call, back, rfl, hchecked, hfails, -⟩ := h
  intro hall
  rw [List.append_cons, allSucceed_append, allSucceed_append, allSucceed_singleton] at hall
  have hsucceeds := hall.1.2 hchecked
  rw [hfails] at hsucceeds
  cases hsucceeds

end Programs
