import DistributedFileServer.Sql.Select
import Mathlib.Data.List.Pairwise
import Mathlib.Data.List.Sort

/-!
# The order of the rows

Without an `ORDER BY`, the order of the rows is the engine's affair.  What is ordered
by a key is the same for every scan, and comes out as it is stored where the rows are
stored in the order of the key.
-/

namespace Sql

variable {α : Type} {schema : Schema α}

/-! ## Sorting by a key -/

/-- Different rows have different keys. -/
def IsKey (key : schema.Column .integer) (table : List schema.Row) : Prop :=
  table.Pairwise fun row row' => schema.read row key ≠ schema.read row' key

theorem keyLe_trans {first second third : Option Int} (h : keyLe first second = true)
    (h' : keyLe second third = true) : keyLe first third = true := by
  cases first <;> cases second <;> cases third <;> simp_all [keyLe]
  omega

theorem keyLe_total (first second : Option Int) :
    (keyLe first second || keyLe second first) = true := by
  cases first <;> cases second <;> simp [keyLe]
  omega

theorem keyLe_antisymm {first second : Option Int} (h : keyLe first second = true)
    (h' : keyLe second first = true) : first = second := by
  cases first <;> cases second <;> simp_all [keyLe]
  omega

theorem OrderBy.le_trans (order : OrderBy schema) (first second third : schema.Row)
    (h : order.le first second = true) (h' : order.le second third = true) :
    order.le first third = true := by
  obtain ⟨column, direction⟩ := order
  cases direction with
  | asc => exact keyLe_trans h h'
  | desc => exact keyLe_trans h' h

theorem OrderBy.le_total (order : OrderBy schema) (first second : schema.Row) :
    (order.le first second || order.le second first) = true := by
  obtain ⟨column, direction⟩ := order
  cases direction with
  | asc => exact keyLe_total _ _
  | desc => exact keyLe_total _ _

theorem OrderBy.read_eq_of_le (order : OrderBy schema) {first second : schema.Row}
    (h : order.le first second = true) (h' : order.le second first = true) :
    schema.read first order.column = schema.read second order.column := by
  obtain ⟨column, direction⟩ := order
  cases direction with
  | asc => exact keyLe_antisymm h h'
  | desc => exact keyLe_antisymm h' h

theorem IsKey.eq_of_read_eq {key : schema.Column .integer} {table : List schema.Row}
    (h : IsKey key table) {row row' : schema.Row} (hrow : row ∈ table) (hrow' : row' ∈ table)
    (hread : schema.read row key = schema.read row' key) : row = row' := by
  have hsymm : Std.Symm fun row row' : schema.Row =>
      schema.read row key ≠ schema.read row' key := ⟨fun _ _ hkeys => hkeys.symm⟩
  by_contra hne
  exact List.Pairwise.forall h hrow hrow' hne hread

/-- **Sorting by a key.**  The same rows come out in the same order. -/
theorem ordered_eq_of_perm {order : OrderBy schema} {list list' : List schema.Row}
    (hkey : IsKey order.column list) (hperm : list.Perm list') :
    ordered list (some order) = ordered list' (some order) := by
  have hsorted : ∀ rows : List schema.Row,
      (rows.mergeSort order.le).Pairwise fun first second => order.le first second = true :=
    fun rows => List.pairwise_mergeSort order.le_trans order.le_total rows
  refine List.Perm.eq_of_pairwise (fun first second hfirst hsecond hle hle' => ?_)
    (hsorted list) (hsorted list') ?_
  · have hmem : first ∈ list := (List.mergeSort_perm list order.le).mem_iff.mp hfirst
    have hmem' : second ∈ list :=
      hperm.mem_iff.mpr ((List.mergeSort_perm list' order.le).mem_iff.mp hsecond)
    exact hkey.eq_of_read_eq hmem hmem' (order.read_eq_of_le hle hle')
  · exact ((List.mergeSort_perm list order.le).trans hperm).trans
      (List.mergeSort_perm list' order.le).symm

/-- Rows that stand in ascending order of the key need no sorting. -/
theorem ordered_asc {key : schema.Column .integer} {list : List schema.Row}
    (h : list.Pairwise fun row row' => keyLe (schema.read row key) (schema.read row' key) = true) :
    ordered list (some ⟨key, .asc⟩) = list :=
  List.mergeSort_of_pairwise h

/-- Rows that stand in ascending order of the key are reversed by a descending one. -/
theorem ordered_desc {key : schema.Column .integer} {list : List schema.Row}
    (hkey : IsKey key list)
    (h : list.Pairwise fun row row' => keyLe (schema.read row key) (schema.read row' key) = true) :
    ordered list (some ⟨key, .desc⟩) = list.reverse := by
  rw [ordered_eq_of_perm hkey (List.reverse_perm list).symm]
  exact List.mergeSort_of_pairwise (List.pairwise_reverse.mpr h)

/-- The rows are stored in ascending order of the key. -/
structure StoredBy (key : schema.Column .integer) (table : List schema.Row) : Prop where
  isKey : IsKey key table
  ascending : table.Pairwise fun row row' =>
    keyLe (schema.read row key) (schema.read row' key) = true

theorem StoredBy.filter {key : schema.Column .integer} {table : List schema.Row}
    (h : StoredBy key table) (select : schema.Row → Bool) : StoredBy key (table.filter select) :=
  ⟨h.isKey.filter select, h.ascending.filter select⟩

/-- Whatever the scan visits, in ascending order of the key come the stored rows. -/
theorem ordered_visit_asc {key : schema.Column .integer} {table list : List schema.Row}
    (h : StoredBy key table) (hperm : list.Perm table) :
    ordered list (some ⟨key, .asc⟩) = table := by
  rw [← ordered_eq_of_perm h.isKey hperm.symm]
  exact ordered_asc h.ascending

theorem ordered_visit_desc {key : schema.Column .integer} {table list : List schema.Row}
    (h : StoredBy key table) (hperm : list.Perm table) :
    ordered list (some ⟨key, .desc⟩) = table.reverse := by
  rw [← ordered_eq_of_perm h.isKey hperm.symm]
  exact ordered_desc h.isKey h.ascending

section Eval

variable [DecidableEq α] {scan : Scan schema}
  {params : (kind : Kind) → Nat → Option (Value α kind)} {table : List schema.Row}
  {key : schema.Column .integer}

/-! ## Rows in the order of the key -/

/-- `ORDER BY key ASC LIMIT 1` finds the first stored row. -/
theorem eval_select_asc (h : StoredBy key table) {n : Nat} {kind : Kind}
    (name : schema.Column kind) (condition : Condition schema (n + 1)) (env : Fin n → schema.Row) :
    (Scalar.select name condition (some ⟨key, .asc⟩) (some 1)).eval scan params table env =
      (table.find? fun row =>
        condition.eval scan params table (Fin.cons row env) = some true).bind
          fun row => schema.read row name := by
  rw [Scalar.eval, ordered_visit_asc (h.filter _) ((scan.perm condition table).filter _),
    ← List.head?_filter]
  show ((List.take 1 _).head?).bind _ = _
  rw [List.head?_take, if_neg (Nat.succ_ne_zero 0)]

/-- `ORDER BY key DESC LIMIT 1` finds the last stored row. -/
theorem head?_rows_desc (h : StoredBy key table) (condition : Condition schema 1) :
    (rows scan params table condition (some ⟨key, .desc⟩) (some 1)).head? =
      (table.filter fun row =>
        condition.eval scan params table (Fin.cons row Fin.elim0) = some true).getLast? := by
  rw [rows, ordered_visit_desc (h.filter _) ((scan.perm condition table).filter _),
    ← List.head?_reverse]
  show (List.take 1 _).head? = _
  rw [List.head?_take, if_neg (Nat.succ_ne_zero 0)]

/-- Without an `ORDER BY`, the rows come in some order. -/
theorem rows_perm (condition : Condition schema 1) :
    (rows scan params table condition none none).Perm
      (table.filter fun row =>
        condition.eval scan params table (Fin.cons row Fin.elim0) = some true) :=
  (scan.perm condition table).filter _

end Eval

/-! ## Two other scans -/

section Others

variable [DecidableEq schema.Row]

/-- The engine visits one row before the others. -/
def Scan.startingAt (row : schema.Row) : Scan schema where
  visit := fun _ table => if row ∈ table then row :: table.erase row else table
  perm := fun _ table => by
    split
    · next hmem => exact (List.perm_cons_erase hmem).symm
    · exact List.Perm.refl table

/-- The engine visits one row after the others. -/
def Scan.endingAt (row : schema.Row) : Scan schema where
  visit := fun _ table => if row ∈ table then table.erase row ++ [row] else table
  perm := fun _ table => by
    split
    · next hmem =>
        exact (List.perm_append_singleton row _).trans (List.perm_cons_erase hmem).symm
    · exact List.Perm.refl table

theorem find?_visit_startingAt {n : Nat} (condition : Condition schema (n + 1))
    {table : List schema.Row} {row : schema.Row} {select : schema.Row → Bool} (hrow : row ∈ table)
    (hselect : select row = true) :
    ((Scan.startingAt row).visit condition table).find? select = some row := by
  show (if row ∈ table then row :: table.erase row else table).find? select = some row
  rw [if_pos hrow, List.find?_cons_of_pos hselect]

theorem rows_endingAt [DecidableEq α] {params : (kind : Kind) → Nat → Option (Value α kind)}
    {table : List schema.Row} {row : schema.Row} {condition : Condition schema 1}
    (hrow : row ∈ table)
    (hselect : condition.eval (Scan.endingAt row) params table (Fin.cons row Fin.elim0) =
      some true) :
    ∃ before, rows (Scan.endingAt row) params table condition none none = before ++ [row] := by
  have hvisit : (Scan.endingAt row).visit condition table = table.erase row ++ [row] :=
    if_pos hrow
  rw [rows, hvisit, List.filter_append, List.filter_singleton, decide_eq_true hselect]
  exact ⟨_, rfl⟩

end Others

end Sql
