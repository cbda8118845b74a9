import DistributedFileServer.Programs.Triple

/-!
# Simulations between programs

Two programs on different states do the same, if one state is a view of the other: the
second program returns or throws on the view what the first does on the state, and leaves
the view of what the first one leaves.
-/

namespace Programs

variable {ε ε' σ τ ρ α β : Type}

/-- From a state that satisfies `P`, the second program does on the view of the state what
the first does on the state. -/
def Simulates (P : σ → Prop) (view : σ → τ) (first : Program ε σ α) (second : Program ε τ α) :
    Prop :=
  ∀ s, P s → exec second (view s) = ((exec first s).1, view (exec first s).2)

namespace Simulates

variable {P : σ → Prop} {view : σ → τ} {first : Program ε σ α} {second : Program ε τ α}

theorem ret (value : α) :
    Simulates P view (pure value : Program ε σ α) (pure value : Program ε τ α) :=
  fun _ _ => rfl

theorem throws (exception : ε) :
    Simulates P view (throw exception : Program ε σ α) (throw exception : Program ε τ α) :=
  fun _ _ => rfl

/-- **Sequence.**  The rest has to do the same after what is known of the first return. -/
theorem bind {Q : α → σ → Prop} {E : ε → σ → Prop} {next : α → Program ε σ β}
    {next' : α → Program ε τ β} (h : Simulates P view first second) (hfirst : Triple P first Q E)
    (hnext : ∀ value, Simulates (Q value) view (next value) (next' value)) :
    Simulates P view (first >>= next) (second >>= next') := by
  intro s hs
  have hpost := hfirst s hs
  rw [exec_bind, exec_bind, h s hs]
  cases hexec : exec first s with
  | mk result t =>
      rw [hexec] at hpost
      cases result with
      | ok value => exact hnext value t hpost
      | error exception => rfl

/-- Programs that do the same from every state. -/
theorem bind_always {next : α → Program ε σ β} {next' : α → Program ε τ β}
    (h : Simulates P view first second)
    (hnext : ∀ value, Simulates (fun _ => True) view (next value) (next' value)) :
    Simulates P view (first >>= next) (second >>= next') := by
  refine h.bind (Q := fun _ _ => True) (E := fun _ _ => True) ?_ hnext
  intro s _
  cases exec first s with
  | mk result t => cases result <;> trivial

theorem ite {condition : Prop} [Decidable condition] {first' : Program ε σ α}
    {second' : Program ε τ α} (h : condition → Simulates P view first second)
    (h' : ¬ condition → Simulates P view first' second') :
    Simulates P view (if condition then first else first')
      (if condition then second else second') := by
  by_cases hcondition : condition
  · rw [if_pos hcondition, if_pos hcondition]
    exact h hcondition
  · rw [if_neg hcondition, if_neg hcondition]
    exact h' hcondition

theorem modify {f : σ → σ} {g : τ → τ} (h : ∀ s, P s → view (f s) = g (view s)) :
    Simulates P view (modify f : Program ε σ PUnit) (modify g : Program ε τ PUnit) := by
  intro s hs
  rw [exec_modify, exec_modify, h s hs]

/-- What follows a look at the states. -/
theorem bind_get {next : σ → Program ε σ α} {next' : τ → Program ε τ α}
    (h : ∀ read, P read → Simulates (fun s => s = read) view (next read) (next' (view read))) :
    Simulates P view (MonadState.get >>= next) (MonadState.get >>= next') := by
  intro s hs
  rw [exec_bind, exec_bind, exec_get, exec_get]
  exact h s hs s rfl

/-- **Frame.**  A program on a part that the view leaves alone. -/
theorem zoom {part : σ → ρ} {part' : τ → ρ} {update : ρ → σ → σ} {update' : ρ → τ → τ}
    {pass : ε' → ε} {program : Program ε' ρ α} (hpart : ∀ s, P s → part' (view s) = part s)
    (hupdate : ∀ s value, P s → view (update value s) = update' value (view s)) :
    Simulates P view (zoom part update pass program) (zoom part' update' pass program) := by
  intro s hs
  rw [exec_zoom, exec_zoom, hpart s hs]
  cases exec program (part s) with
  | mk result value => cases result <;> simp only [hupdate s value hs]

end Simulates

end Programs
