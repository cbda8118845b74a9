import Mathlib.Data.Fin.Tuple.Basic
import Mathlib.Data.List.Basic

/-!
# SELECT statements on one table

The part of SQL that selects from a single table: comparisons in three-valued logic,
correlated subqueries, `EXISTS`, `ORDER BY` and `LIMIT`.  Expressions are typed, so
that only values of one kind are compared; the order of a scan is left to the engine.
-/

namespace Sql

/-- The kinds of values. -/
inductive Kind where
  | text
  | integer
  deriving DecidableEq, Repr

/-- The values of a kind, over a type of texts. -/
abbrev Value (α : Type) : Kind → Type
  | .text => α
  | .integer => Int

instance decidableEqValue {α : Type} [DecidableEq α] : ∀ kind, DecidableEq (Value α kind)
  | .text => inferInstanceAs (DecidableEq α)
  | .integer => inferInstanceAs (DecidableEq Int)

/-- A table: its rows, its columns, and what stands in them.  `NULL` is no value. -/
structure Schema (α : Type) where
  Row : Type
  Column : Kind → Type
  read : {kind : Kind} → Row → Column kind → Option (Value α kind)

/-! ## Three-valued logic -/

/-- A truth value; no value is `UNKNOWN`. -/
abbrev Truth := Option Bool

def Truth.and : Truth → Truth → Truth
  | some false, _ => some false
  | _, some false => some false
  | some true, some true => some true
  | _, _ => none

def Truth.or : Truth → Truth → Truth
  | some true, _ => some true
  | _, some true => some true
  | some false, some false => some false
  | _, _ => none

/-- A comparison with `NULL` is `UNKNOWN`. -/
def compared {β : Type} (test : β → β → Bool) : Option β → Option β → Truth
  | some left, some right => some (test left right)
  | _, _ => none

theorem Truth.and_eq_true {left right : Truth} :
    left.and right = some true ↔ left = some true ∧ right = some true := by
  rcases left with _ | _ | _ <;> rcases right with _ | _ | _ <;> simp [Truth.and]

theorem Truth.or_eq_true {left right : Truth} :
    left.or right = some true ↔ left = some true ∨ right = some true := by
  rcases left with _ | _ | _ <;> rcases right with _ | _ | _ <;> simp [Truth.or]

theorem compared_eq_true {β : Type} {test : β → β → Bool} {left right : Option β} :
    compared test left right = some true ↔
      ∃ value value', left = some value ∧ right = some value' ∧ test value value' = true := by
  cases left with
  | none => simp [compared]
  | some value =>
      cases right with
      | none => simp [compared]
      | some value' => simp [compared]

/-! ## Syntax -/

inductive Direction where
  | asc
  | desc
  deriving DecidableEq, Repr

variable {α : Type}

/-- `ORDER BY column direction`. -/
structure OrderBy (schema : Schema α) where
  column : schema.Column .integer
  direction : Direction

mutual

/-- An expression inside `n` open `FROM` clauses, the innermost numbered `0`. -/
inductive Scalar (schema : Schema α) : Nat → Kind → Type where
  | column {n : Nat} {kind : Kind} (source : Fin n) (name : schema.Column kind) :
      Scalar schema n kind
  /-- `?`, with the number it is bound by. -/
  | parameter {n : Nat} {kind : Kind} (index : Nat) : Scalar schema n kind
  | literal {n : Nat} {kind : Kind} (value : Value α kind) : Scalar schema n kind
  /-- `(SELECT name FROM table WHERE condition ORDER BY order LIMIT limit)`. -/
  | select {n : Nat} {kind : Kind} (name : schema.Column kind)
      (condition : Condition schema (n + 1)) (order : Option (OrderBy schema))
      (limit : Option Nat) : Scalar schema n kind

inductive Condition (schema : Schema α) : Nat → Type where
  | eq {n : Nat} {kind : Kind} (left right : Scalar schema n kind) : Condition schema n
  | ne {n : Nat} {kind : Kind} (left right : Scalar schema n kind) : Condition schema n
  | gt {n : Nat} (left right : Scalar schema n .integer) : Condition schema n
  | and {n : Nat} (left right : Condition schema n) : Condition schema n
  | or {n : Nat} (left right : Condition schema n) : Condition schema n
  /-- `EXISTS(SELECT 1 FROM table WHERE condition)`. -/
  | existsRow {n : Nat} (condition : Condition schema (n + 1)) : Condition schema n

end

/-! ## Meaning -/

/-- In which order the engine visits the rows of the table.  It plans the scan for each
`WHERE` when the statement is prepared, before it has seen a row. -/
structure Scan (schema : Schema α) where
  visit : {n : Nat} → Condition schema (n + 1) → List schema.Row → List schema.Row
  perm : ∀ {n : Nat} (condition : Condition schema (n + 1)) (table : List schema.Row),
    (visit condition table).Perm table

/-- The engine visits the rows as they are stored. -/
def Scan.stored (schema : Schema α) : Scan schema where
  visit := fun _ table => table
  perm := fun _ table => List.Perm.refl table

/-- `NULL` comes before all values. -/
def keyLe : Option Int → Option Int → Bool
  | none, _ => true
  | some _, none => false
  | some key, some key' => key ≤ key'

variable {schema : Schema α}

/-- Whether a row may stand before another one. -/
def OrderBy.le (order : OrderBy schema) (row row' : schema.Row) : Bool :=
  match order.direction with
  | .asc => keyLe (schema.read row order.column) (schema.read row' order.column)
  | .desc => keyLe (schema.read row' order.column) (schema.read row order.column)

def ordered (rows : List schema.Row) : Option (OrderBy schema) → List schema.Row
  | none => rows
  | some order => rows.mergeSort order.le

def limited (rows : List schema.Row) : Option Nat → List schema.Row
  | none => rows
  | some limit => rows.take limit

section Eval

variable [DecidableEq α] (scan : Scan schema) (params : (kind : Kind) → Nat → Option (Value α kind))
  (table : List schema.Row)

mutual

/-- A subquery without a row is `NULL`. -/
def Scalar.eval : {n : Nat} → {kind : Kind} → Scalar schema n kind → (Fin n → schema.Row) →
    Option (Value α kind)
  | _, _, .column source name, env => schema.read (env source) name
  | _, kind, .parameter index, _ => params kind index
  | _, _, .literal value, _ => some value
  | _, _, .select name condition order limit, env =>
      let selected := (scan.visit condition table).filter fun row =>
        condition.eval (Fin.cons row env) = some true
      (limited (ordered selected order) limit).head?.bind fun row => schema.read row name

def Condition.eval : {n : Nat} → Condition schema n → (Fin n → schema.Row) → Truth
  | _, .eq left right, env =>
      compared (fun value value' => value = value') (left.eval env) (right.eval env)
  | _, .ne left right, env =>
      compared (fun value value' => value ≠ value') (left.eval env) (right.eval env)
  | _, .gt left right, env =>
      compared (fun value value' => value > value') (left.eval env) (right.eval env)
  | _, .and left right, env => (left.eval env).and (right.eval env)
  | _, .or left right, env => (left.eval env).or (right.eval env)
  | _, .existsRow condition, env =>
      some ((scan.visit condition table).any fun row =>
        condition.eval (Fin.cons row env) = some true)

end

/-- The rows of `SELECT ... FROM table WHERE condition ORDER BY order LIMIT limit`. -/
def rows (condition : Condition schema 1) (order : Option (OrderBy schema))
    (limit : Option Nat) : List schema.Row :=
  let selected := (scan.visit condition table).filter fun row =>
    condition.eval scan params table (Fin.cons row Fin.elim0) = some true
  limited (ordered selected order) limit

/-- `SELECT COUNT(*) FROM table WHERE condition`. -/
def count (condition : Condition schema 1) : Nat :=
  (rows scan params table condition none none).length

/-! ## Rules -/

variable {n : Nat} {kind : Kind} {env : Fin n → schema.Row}

theorem eval_eq {left right : Scalar schema n kind} :
    (Condition.eq left right).eval scan params table env = some true ↔
      left.eval scan params table env ≠ none ∧
        left.eval scan params table env = right.eval scan params table env := by
  rw [Condition.eval, compared_eq_true]
  cases left.eval scan params table env with
  | none => simp
  | some value => simp [eq_comm]

theorem eval_ne {left right : Scalar schema n kind} :
    (Condition.ne left right).eval scan params table env = some true ↔
      ∃ value value', left.eval scan params table env = some value ∧
        right.eval scan params table env = some value' ∧ value ≠ value' := by
  rw [Condition.eval, compared_eq_true]
  simp

theorem eval_gt {left right : Scalar schema n .integer} :
    (Condition.gt left right).eval scan params table env = some true ↔
      ∃ value value', left.eval scan params table env = some value ∧
        right.eval scan params table env = some value' ∧ value > value' := by
  rw [Condition.eval, compared_eq_true]
  simp

theorem eval_and {left right : Condition schema n} :
    (left.and right).eval scan params table env = some true ↔
      left.eval scan params table env = some true ∧
        right.eval scan params table env = some true := by
  rw [Condition.eval, Truth.and_eq_true]

theorem eval_or {left right : Condition schema n} :
    (left.or right).eval scan params table env = some true ↔
      left.eval scan params table env = some true ∨
        right.eval scan params table env = some true := by
  rw [Condition.eval, Truth.or_eq_true]

/-- In whichever order the rows are visited, `EXISTS` finds one if there is one. -/
theorem eval_existsRow {condition : Condition schema (n + 1)} :
    (Condition.existsRow condition).eval scan params table env = some true ↔
      ∃ row ∈ table, condition.eval scan params table (Fin.cons row env) = some true := by
  rw [Condition.eval, Option.some.injEq, List.any_eq_true]
  simp only [(scan.perm condition table).mem_iff, decide_eq_true_eq]

/-- Rows are counted in any order. -/
theorem count_eq_countP (condition : Condition schema 1) :
    count scan params table condition =
      table.countP fun row =>
        condition.eval scan params table (Fin.cons row Fin.elim0) = some true := by
  rw [← (scan.perm condition table).countP_eq, List.countP_eq_length_filter]
  rfl

/-- A subquery with `LIMIT 1` takes the first row that is visited. -/
theorem eval_select_limit_one (name : schema.Column kind) (condition : Condition schema (n + 1)) :
    (Scalar.select name condition none (some 1)).eval scan params table env =
      ((scan.visit condition table).find? fun row =>
        condition.eval scan params table (Fin.cons row env) = some true).bind
          fun row => schema.read row name := by
  rw [Scalar.eval, ← List.head?_filter]
  show ((List.take 1 _).head?).bind _ = _
  rw [List.head?_take, if_neg (Nat.succ_ne_zero 0)]
  rfl

end Eval

end Sql
