import Mathlib.Data.List.Basic

/-!
# Grouping a list by labels

Selecting the elements of one label, and putting a list in the order of its
labels without changing the order within a label.
-/

namespace DeferredUpdate

variable {α β τ : Type}

/-! ## Selecting -/

/-- Where a selected element comes from: before it stand the earlier selected
elements. -/
theorem filter_eq_append_cons {select : α → Bool} {list before after : List α} {element : α}
    (h : list.filter select = before ++ element :: after) :
    ∃ past future, list = past ++ element :: future ∧ before = past.filter select ∧
      select element = true := by
  obtain ⟨past, others, rfl, rfl, hothers⟩ := List.filter_eq_append_iff.mp h
  obtain ⟨skipped, future, rfl, hskipped, helement, -⟩ := List.filter_eq_cons_iff.mp hothers
  refine ⟨past ++ skipped, future, by simp, ?_, helement⟩
  have hnone : skipped.filter select = [] := by
    rw [List.filter_eq_nil_iff]
    exact hskipped
  rw [List.filter_append, hnone, List.append_nil]

/-- Expanding every element commutes with selecting labels, if an element's
expansion carries the element's label. -/
theorem flatMap_filter_label {label : α → τ} {label' : β → τ} {expand : α → List β}
    (hlabel : ∀ element, ∀ part ∈ expand element, label' part = label element)
    (select : τ → Bool) (list : List α) :
    (list.filter fun element => select (label element)).flatMap expand =
      (list.flatMap expand).filter fun part => select (label' part) := by
  induction list with
  | nil => rfl
  | cons element list ih =>
      rw [List.flatMap_cons, List.filter_append, ← ih]
      cases hselect : select (label element) with
      | true =>
          have hkept : (expand element).filter (fun part => select (label' part)) =
              expand element := by
            rw [List.filter_eq_self]
            intro part hpart
            rw [hlabel element part hpart, hselect]
          rw [List.filter_cons_of_pos (by exact hselect), List.flatMap_cons, hkept]
      | false =>
          have hdropped : (expand element).filter (fun part => select (label' part)) = [] := by
            rw [List.filter_eq_nil_iff]
            intro part hpart
            simp [hlabel element part hpart, hselect]
          rw [List.filter_cons_of_neg (by simp [hselect]), hdropped, List.nil_append]

/-! ## Grouping -/

variable [DecidableEq τ]

/-- The elements of the list, one label after another. -/
def group (label : α → τ) (order : List τ) (list : List α) : List α :=
  order.flatMap fun name => list.filter fun element => label element = name

@[simp] theorem group_nil (label : α → τ) (list : List α) : group label [] list = [] := rfl

theorem group_cons (label : α → τ) (name : τ) (order : List τ) (list : List α) :
    group label (name :: order) list =
      list.filter (fun element => label element = name) ++ group label order list :=
  List.flatMap_cons

theorem label_mem_of_mem_group {label : α → τ} {order : List τ} {list : List α} {element : α}
    (h : element ∈ group label order list) : label element ∈ order ∧ element ∈ list := by
  obtain ⟨name, hname, helement⟩ := List.mem_flatMap.mp h
  obtain ⟨hmem, hlabel⟩ := List.mem_filter.mp helement
  have : label element = name := by simpa using hlabel
  exact ⟨this ▸ hname, hmem⟩

/-- A group that is not listed is left out. -/
theorem filter_group_of_notMem {label : α → τ} {order : List τ} {name : τ} (h : name ∉ order)
    (list : List α) :
    (group label order list).filter (fun element => label element = name) = [] := by
  rw [List.filter_eq_nil_iff]
  intro element helement hlabel
  have : label element = name := by simpa using hlabel
  exact h (this ▸ (label_mem_of_mem_group helement).1)

/-- Within one group the order of the list is kept. -/
theorem filter_group {label : α → τ} {order : List τ} {name : τ} (hnodup : order.Nodup)
    (h : name ∈ order) (list : List α) :
    (group label order list).filter (fun element => label element = name) =
      list.filter fun element => label element = name := by
  induction order with
  | nil => cases h
  | cons head order ih =>
      obtain ⟨hhead, hrest⟩ := List.nodup_cons.mp hnodup
      rw [group_cons, List.filter_append, List.filter_filter]
      rcases List.mem_cons.mp h with rfl | hmem
      · rw [filter_group_of_notMem hhead, List.append_nil]
        simp
      · -- the first group has another label, so nothing of it is selected
        have hne : head ≠ name := fun heq => hhead (heq ▸ hmem)
        have hnone : list.filter (fun element =>
            decide (label element = name) && decide (label element = head)) = [] := by
          rw [List.filter_eq_nil_iff]
          intro element _ hboth
          obtain ⟨rfl, hlabel⟩ : label element = name ∧ label element = head := by
            simpa using hboth
          exact hne hlabel.symm
        rw [hnone, List.nil_append, ih hrest hmem]

/-- The order of the list is kept within one group, whatever is selected of it. -/
theorem filter_group_of_label {label : α → τ} {order : List τ} {name : τ}
    (hnodup : order.Nodup) (h : name ∈ order) {select : α → Bool}
    (hselect : ∀ element, select element = true → label element = name) (list : List α) :
    (group label order list).filter select = list.filter select := by
  have hsame : ∀ elements : List α, elements.filter select =
      (elements.filter fun element => label element = name).filter select := by
    intro elements
    rw [List.filter_filter]
    apply List.filter_congr
    intro element _
    cases hcase : select element with
    | true => simp [hselect element hcase]
    | false => rfl
  rw [hsame, filter_group hnodup h, ← hsame]

/-- Expanding every element commutes with grouping. -/
theorem flatMap_group {label : α → τ} {label' : β → τ} {expand : α → List β}
    (hlabel : ∀ element, ∀ part ∈ expand element, label' part = label element)
    (order : List τ) (list : List α) :
    (group label order list).flatMap expand = group label' order (list.flatMap expand) := by
  induction order with
  | nil => rfl
  | cons name order ih =>
      rw [group_cons, group_cons, List.flatMap_append, ih]
      congr 1
      exact flatMap_filter_label hlabel (fun other => decide (other = name)) list

theorem map_group {label : α → τ} {label' : β → τ} {f : α → β}
    (hlabel : ∀ element, label' (f element) = label element) (order : List τ) (list : List α) :
    (group label order list).map f = group label' order (list.map f) := by
  rw [← List.flatMap_pure_eq_map, ← List.flatMap_pure_eq_map]
  apply flatMap_group
  intro element part hpart
  obtain rfl : part = f element := by simpa using hpart
  exact hlabel element

/-- Where an element of a grouped list comes from: before it stand the earlier
groups and the earlier elements of its own group. -/
theorem group_eq_append_cons {label : α → τ} {order : List τ} {list before after : List α}
    {element : α} (h : group label order list = before ++ element :: after) :
    ∃ earlier later past future, order = earlier ++ label element :: later ∧
      list = past ++ element :: future ∧
      before = group label earlier list ++
        past.filter fun other => label other = label element := by
  induction order generalizing before with
  | nil => simp at h
  | cons name order ih =>
      rw [group_cons] at h
      -- the element lies in a later group, or in the group of `name`
      have hcases : (∃ rest, before =
            list.filter (fun other => label other = name) ++ rest ∧
            group label order list = rest ++ element :: after) ∨
          ∃ rest, list.filter (fun other => label other = name) = before ++ element :: rest := by
        rcases List.append_eq_append_iff.mp h with ⟨rest, hbefore, hrest⟩ | ⟨rest, hfilter, hrest⟩
        · exact Or.inl ⟨rest, hbefore, hrest⟩
        · cases rest with
          | nil =>
              left
              refine ⟨[], ?_, ?_⟩
              · rw [hfilter, List.append_nil, List.append_nil]
              · exact hrest.symm
          | cons head rest =>
              obtain ⟨rfl, -⟩ := List.cons.inj hrest
              exact Or.inr ⟨rest, hfilter⟩
      rcases hcases with ⟨rest, rfl, hrest⟩ | ⟨rest, hfilter⟩
      · obtain ⟨earlier, later, past, future, rfl, rfl, rfl⟩ := ih hrest
        refine ⟨name :: earlier, later, past, future, rfl, rfl, ?_⟩
        rw [group_cons, List.append_assoc]
      · obtain ⟨past, future, rfl, rfl, helement⟩ := filter_eq_append_cons hfilter
        obtain rfl : label element = name := of_decide_eq_true helement
        exact ⟨[], order, past, future, rfl, rfl, rfl⟩

end DeferredUpdate
