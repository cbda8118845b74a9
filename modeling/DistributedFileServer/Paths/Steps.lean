import Mathlib.Data.List.Basic
import Mathlib.Data.List.Induction

/-!
# Walking through a tree of directories

A place in a tree is named by the entries on the way from the root.  A path is a
list of steps, up to the parent or down into an entry; a step up from the root
stays there.  Every path amounts to a climb over some levels followed by a
descent, which tells when it ends strictly inside the directory it starts from.
-/

namespace Paths

variable {σ : Type}

/-- One step of a path. -/
inductive Step (σ : Type) where
  | up
  | down (name : σ)
  deriving DecidableEq, Repr

/-- Where a step leads from a place. -/
def Step.move (here : List σ) : Step σ → List σ
  | up => here.dropLast
  | down name => here ++ [name]

/-- Where a path leads from a place. -/
def walk (start : List σ) (steps : List (Step σ)) : List σ :=
  steps.foldl Step.move start

@[simp] theorem walk_nil (start : List σ) : walk start [] = start := rfl

theorem walk_append (start : List σ) (first second : List (Step σ)) :
    walk start (first ++ second) = walk (walk start first) second :=
  List.foldl_append

theorem walk_concat (start : List σ) (steps : List (Step σ)) (step : Step σ) :
    walk start (steps ++ [step]) = step.move (walk start steps) :=
  List.foldl_concat ..

/-- A climb over some levels, followed by a descent through some entries. -/
structure Route (σ : Type) where
  levels : Nat
  names : List σ
  deriving DecidableEq, Repr

/-- Follow one more step: a step up takes back the last descent, if there is one. -/
def Route.follow (route : Route σ) : Step σ → Route σ
  | .up =>
      match route.names with
      | [] => { route with levels := route.levels + 1 }
      | _ :: _ => { route with names := route.names.dropLast }
  | .down name => { route with names := route.names ++ [name] }

/-- What a path amounts to. -/
def route (steps : List (Step σ)) : Route σ :=
  steps.foldl Route.follow ⟨0, []⟩

theorem route_concat (steps : List (Step σ)) (step : Step σ) :
    route (steps ++ [step]) = (route steps).follow step :=
  List.foldl_concat ..

/-- **Normal form.**  A path leads where its climb and its descent lead. -/
theorem walk_eq (start : List σ) (steps : List (Step σ)) :
    walk start steps =
      start.take (start.length - (route steps).levels) ++ (route steps).names := by
  induction steps using List.reverseRecOn with
  | nil => simp [route]
  | append_singleton steps step ih =>
      rw [walk_concat, route_concat, ih]
      cases step with
      | up =>
          cases hnames : (route steps).names with
          | nil =>
              -- the climb goes one level further
              simp only [Step.move, Route.follow, hnames, List.append_nil]
              rw [List.dropLast_eq_take, List.take_take, List.length_take]
              congr 1
              omega
          | cons name names =>
              simp only [Step.move, Route.follow, hnames]
              exact List.dropLast_append_of_ne_nil (by simp)
      | down name => simp only [Step.move, Route.follow, List.append_assoc]

/-- The place lies below the directory. -/
def StrictlyInside (directory place : List σ) : Prop :=
  directory <+: place ∧ place ≠ directory

instance [DecidableEq σ] (directory place : List σ) : Decidable (StrictlyInside directory place) :=
  inferInstanceAs (Decidable (_ ∧ _))

/-- The path stays below the directory it starts from: its descent leads through
the entries that its climb went up, and further. -/
def StaysInside (directory : List σ) (steps : List (Step σ)) : Prop :=
  StrictlyInside (directory.drop (directory.length - (route steps).levels)) (route steps).names

instance [DecidableEq σ] (directory : List σ) (steps : List (Step σ)) :
    Decidable (StaysInside directory steps) :=
  inferInstanceAs (Decidable (StrictlyInside _ _))

/-- **Confinement.** -/
theorem strictlyInside_walk_iff (directory : List σ) (steps : List (Step σ)) :
    StrictlyInside directory (walk directory steps) ↔ StaysInside directory steps := by
  unfold StaysInside StrictlyInside
  rw [walk_eq]
  generalize directory.length - (route steps).levels = kept
  -- the part that is kept is common to both
  have hsplit := List.take_append_drop kept directory
  constructor
  · rintro ⟨hinside, hne⟩
    constructor
    · rw [← List.prefix_append_right_inj (directory.take kept), hsplit]
      exact hinside
    · intro hnames
      exact hne (by rw [hnames, hsplit])
  · rintro ⟨hinside, hne⟩
    constructor
    · rw [← List.prefix_append_right_inj (directory.take kept), hsplit] at hinside
      exact hinside
    · intro hplace
      exact hne (List.append_cancel_left (hplace.trans hsplit.symm))

/-- A path without a step up is a descent. -/
theorem route_of_no_up {steps : List (Step σ)} (h : Step.up ∉ steps) :
    (route steps).levels = 0 ∧ (route steps).names.length = steps.length := by
  induction steps using List.reverseRecOn with
  | nil => exact ⟨rfl, rfl⟩
  | append_singleton steps step ih =>
      rw [List.mem_append, not_or] at h
      obtain ⟨hlevels, hlength⟩ := ih h.1
      rw [route_concat]
      cases step with
      | up => simp at h
      | down name => simp [Route.follow, hlevels, hlength]

/-- A descent stays inside if it makes a step. -/
theorem staysInside_of_no_up (directory : List σ) {steps : List (Step σ)} (h : Step.up ∉ steps)
    (hne : steps ≠ []) : StaysInside directory steps := by
  obtain ⟨hlevels, hlength⟩ := route_of_no_up h
  unfold StaysInside StrictlyInside
  rw [hlevels, Nat.sub_zero, List.drop_length]
  refine ⟨List.nil_prefix, ?_⟩
  intro hnames
  rw [hnames, List.length_nil] at hlength
  exact hne (List.length_eq_zero_iff.mp hlength.symm)

/-- What lies below a directory lies deeper. -/
theorem StrictlyInside.length_lt {directory place : List σ} (h : StrictlyInside directory place) :
    directory.length < place.length := by
  obtain ⟨⟨rest, rfl⟩, hne⟩ := h
  have hrest : rest ≠ [] := by
    rintro rfl
    exact hne (List.append_nil directory)
  have := List.length_pos_iff.mpr hrest
  rw [List.length_append]
  omega

/-- A neighbour of the directory does not lie below it. -/
theorem not_strictlyInside_neighbour (parent : List σ) (name other : σ) :
    ¬ StrictlyInside (parent ++ [name]) (parent ++ [other]) := by
  intro h
  have := h.length_lt
  simp at this

end Paths
