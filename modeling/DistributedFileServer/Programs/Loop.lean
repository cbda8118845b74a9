import Mathlib.Init

/-!
# Loops that may not end

The body of a loop either leaves the loop with a result or goes on with a new
state.  A loop returns a result if it does so after some number of iterations;
a loop whose body keeps an invariant without leaving never returns.
-/

namespace Programs

variable {σ α : Type} {body : σ → α ⊕ σ}

/-- The loop, cut off after a number of iterations. -/
def iterate (body : σ → α ⊕ σ) : Nat → σ → Option α
  | 0, _ => none
  | n + 1, s =>
      match body s with
      | .inl result => some result
      | .inr next => iterate body n next

/-- The loop ends with the result. -/
def LoopReturns (body : σ → α ⊕ σ) (s : σ) (result : α) : Prop :=
  ∃ n, iterate body n s = some result

theorem iterate_succ_of_leave {s : σ} {result : α} (h : body s = .inl result) (n : Nat) :
    iterate body (n + 1) s = some result := by
  rw [iterate, h]

theorem iterate_succ_of_next {s next : σ} (h : body s = .inr next) (n : Nat) :
    iterate body (n + 1) s = iterate body n next := by
  rw [iterate, h]

/-- More iterations do not change a result. -/
theorem iterate_of_le {m n : Nat} (hle : m ≤ n) {s : σ} {result : α}
    (h : iterate body m s = some result) : iterate body n s = some result := by
  induction m generalizing n s with
  | zero => cases h
  | succ m ih =>
      obtain ⟨n, rfl⟩ : ∃ k, n = k + 1 := ⟨n - 1, by omega⟩
      cases hbody : body s with
      | inl left =>
          rw [iterate_succ_of_leave hbody] at h ⊢
          exact h
      | inr next =>
          rw [iterate_succ_of_next hbody] at h ⊢
          exact ih (by omega) h

theorem LoopReturns.unique {s : σ} {result result' : α} (h : LoopReturns body s result)
    (h' : LoopReturns body s result') : result = result' := by
  obtain ⟨m, hm⟩ := h
  obtain ⟨n, hn⟩ := h'
  have hleft := iterate_of_le (Nat.le_max_left m n) hm
  have hright := iterate_of_le (Nat.le_max_right m n) hn
  exact Option.some.inj (hleft.symm.trans hright)

theorem LoopReturns.of_leave {s : σ} {result : α} (h : body s = .inl result) :
    LoopReturns body s result :=
  ⟨1, iterate_succ_of_leave h 0⟩

/-- An iteration that goes on. -/
theorem LoopReturns.of_next {s next : σ} {result : α} (h : body s = .inr next)
    (hnext : LoopReturns body next result) : LoopReturns body s result := by
  obtain ⟨n, hn⟩ := hnext
  exact ⟨n + 1, by rw [iterate_succ_of_next h, hn]⟩

/-- **Divergence.**  A loop does not end while an invariant lets no iteration leave it. -/
theorem not_loopReturns_of_invariant {I : σ → Prop}
    (hstep : ∀ s, I s → ∃ next, body s = .inr next ∧ I next) {s : σ} (hs : I s) (result : α) :
    ¬ LoopReturns body s result := by
  rintro ⟨n, hn⟩
  induction n generalizing s with
  | zero => cases hn
  | succ n ih =>
      obtain ⟨next, hbody, hnext⟩ := hstep s hs
      rw [iterate_succ_of_next hbody] at hn
      exact ih hnext hn

end Programs
