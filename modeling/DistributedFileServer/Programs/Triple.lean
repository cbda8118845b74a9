import Mathlib.Init

/-!
# Programs that may throw

A program reads and changes a state, and either returns a value or throws an
exception.  A throw keeps the effects so far.  A triple says what holds of the
value and the state after a return, and of the exception and the state after a
throw.
-/

namespace Programs

/-- A program on the states `σ` with the exceptions `ε`. -/
abbrev Program (ε σ : Type) := ExceptT ε (StateM σ)

variable {ε ε' σ τ α β : Type}

/-- What a program returns or throws, and the state it leaves. -/
def exec (program : Program ε σ α) (s : σ) : Except ε α × σ :=
  StateT.run (ExceptT.run program) s

/-! ## Running a program -/

@[simp] theorem exec_pure (value : α) (s : σ) :
    exec (pure value : Program ε σ α) s = (.ok value, s) := rfl

@[simp] theorem exec_throw (exception : ε) (s : σ) :
    exec (throw exception : Program ε σ α) s = (.error exception, s) := rfl

@[simp] theorem exec_get (s : σ) : exec (get : Program ε σ σ) s = (.ok s, s) := rfl

@[simp] theorem exec_modify (f : σ → σ) (s : σ) :
    exec (modify f : Program ε σ PUnit) s = (.ok PUnit.unit, f s) := rfl

theorem exec_bind (first : Program ε σ α) (second : α → Program ε σ β) (s : σ) :
    exec (first >>= second) s =
      match exec first s with
      | (.ok value, t) => exec (second value) t
      | (.error exception, t) => (.error exception, t) := by
  show (StateT.run (ExceptT.run (first >>= second)) s) = _
  unfold exec
  rw [ExceptT.run_bind, StateT.run_bind]
  cases StateT.run (ExceptT.run first) s with
  | mk result t => cases result <;> rfl

/-- Run a program on a part of the state, and pass its exceptions on. -/
def zoom (view : σ → τ) (update : τ → σ → σ) (pass : ε' → ε) (program : Program ε' τ α) :
    Program ε σ α :=
  ExceptT.mk fun s =>
    match exec program (view s) with
    | (.ok value, part) => (.ok value, update part s)
    | (.error exception, part) => (.error (pass exception), update part s)

theorem exec_zoom (view : σ → τ) (update : τ → σ → σ) (pass : ε' → ε)
    (program : Program ε' τ α) (s : σ) :
    exec (zoom view update pass program) s =
      match exec program (view s) with
      | (.ok value, part) => (.ok value, update part s)
      | (.error exception, part) => (.error (pass exception), update part s) := rfl

/-! ## Triples -/

/-- From a state that satisfies `P`, the program returns with `Q` or throws with
`E`. -/
def Triple (P : σ → Prop) (program : Program ε σ α) (Q : α → σ → Prop) (E : ε → σ → Prop) :
    Prop :=
  ∀ s, P s →
    match exec program s with
    | (.ok value, t) => Q value t
    | (.error exception, t) => E exception t

namespace Triple

variable {P P' : σ → Prop} {Q Q' : α → σ → Prop} {E E' : ε → σ → Prop}
  {program : Program ε σ α}

theorem of_ok (h : Triple P program Q E) {s t : σ} (hs : P s) {value : α}
    (hexec : exec program s = (.ok value, t)) : Q value t := by
  have := h s hs
  rw [hexec] at this
  exact this

theorem of_error (h : Triple P program Q E) {s t : σ} (hs : P s) {exception : ε}
    (hexec : exec program s = (.error exception, t)) : E exception t := by
  have := h s hs
  rw [hexec] at this
  exact this

/-- **Consequence.** -/
theorem conseq (h : Triple P program Q E) (hP : ∀ s, P' s → P s)
    (hQ : ∀ value t, Q value t → Q' value t)
    (hE : ∀ exception t, E exception t → E' exception t) : Triple P' program Q' E' := by
  intro s hs
  have hpost := h s (hP s hs)
  cases hexec : exec program s with
  | mk result t =>
      rw [hexec] at hpost
      cases result with
      | ok value => exact hQ value t hpost
      | error exception => exact hE exception t hpost

/-- Less is said of a return. -/
theorem mono_ok (h : Triple P program Q E) (hQ : ∀ value t, Q value t → Q' value t) :
    Triple P program Q' E :=
  h.conseq (fun _ hs => hs) hQ fun _ _ ht => ht

/-- Less is said of a throw. -/
theorem mono_error (h : Triple P program Q E)
    (hE : ∀ exception t, E exception t → E' exception t) : Triple P program Q E' :=
  h.conseq (fun _ hs => hs) (fun _ _ ht => ht) hE

/-- What the precondition says besides the state may be assumed. -/
theorem assume {φ : Prop} (h : φ → Triple P program Q E) :
    Triple (fun s => P s ∧ φ) program Q E := by
  intro s hs
  exact h hs.2 s hs.1

theorem ret (value : α) (h : ∀ s, P s → Q value s) :
    Triple P (pure value : Program ε σ α) Q E :=
  h

theorem throws (exception : ε) (h : ∀ s, P s → E exception s) :
    Triple P (throw exception : Program ε σ α) Q E :=
  h

/-- **Sequence.** -/
theorem bind {R : β → σ → Prop} {second : α → Program ε σ β} (h : Triple P program Q E)
    (hsecond : ∀ value, Triple (Q value) (second value) R E) :
    Triple P (program >>= second) R E := by
  intro s hs
  have hpost := h s hs
  rw [exec_bind]
  cases hexec : exec program s with
  | mk result t =>
      rw [hexec] at hpost
      cases result with
      | ok value => exact hsecond value t hpost
      | error exception => exact hpost

theorem ite {condition : Prop} [Decidable condition] {program' : Program ε σ α}
    (h : condition → Triple P program Q E) (h' : ¬ condition → Triple P program' Q E) :
    Triple P (if condition then program else program') Q E := by
  by_cases hcondition : condition
  · rw [if_pos hcondition]
    exact h hcondition
  · rw [if_neg hcondition]
    exact h' hcondition

theorem modify {f : σ → σ} {Q : PUnit → σ → Prop} (h : ∀ s, P s → Q PUnit.unit (f s)) :
    Triple P (modify f : Program ε σ PUnit) Q E :=
  h

theorem get {Q : σ → σ → Prop} (h : ∀ s, P s → Q s s) :
    Triple P (get : Program ε σ σ) Q E :=
  h

/-- The rest of a program after a look at the state, of which `φ` is then known. -/
theorem bind_get {φ : σ → Prop} {next : σ → Program ε σ α} (hφ : ∀ s, P s → φ s)
    (h : ∀ read, φ read → Triple P (next read) Q E) :
    Triple P (MonadState.get >>= next) Q E := by
  intro s hs
  rw [exec_bind, exec_get]
  exact h s (hφ s hs) s hs

/-- **Frame.**  A program on a part of the state keeps what is said of the rest. -/
theorem zoom {view : σ → τ} {update : τ → σ → σ} {pass : ε' → ε} {part : Program ε' τ α}
    {A : τ → Prop} {B : α → τ → Prop} {C : ε' → τ → Prop} (h : Triple A part B C)
    (hP : ∀ s, P s → A (view s)) (hQ : ∀ s value t, P s → B value t → Q value (update t s))
    (hE : ∀ s exception t, P s → C exception t → E (pass exception) (update t s)) :
    Triple P (zoom view update pass part) Q E := by
  intro s hs
  have hpost := h (view s) (hP s hs)
  rw [exec_zoom]
  cases hexec : exec part (view s) with
  | mk result t =>
      rw [hexec] at hpost
      cases result with
      | ok value => exact hQ s value t hs hpost
      | error exception => exact hE s exception t hs hpost

end Triple

end Programs
