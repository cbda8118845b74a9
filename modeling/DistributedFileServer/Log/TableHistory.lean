import DistributedFileServer.Log.Validation
import DistributedFileServer.Model.Controller

/-!
# The operation log as a history

Every row of `OPERATION` is an entry of a history, in the order of the ids.
The statements on the table are expressed through this history: what a
transaction wrote, the content it last wrote to a file, its pending writes, and
whether the automatic vote lets it commit.  No id occurs on the history side,
which is what makes two logs with different ids comparable.
-/

namespace DistributedFileServer

open DeferredUpdate Dao

/-- An entry of the log; keys are filenames, values are contents. -/
abbrev Entry := Act Str Str Str

/-- What a row records. -/
def Operation.entry (o : Operation) : Entry :=
  match o.name with
  | .read => .read o.transactionId o.filename
  | .write => .write o.transactionId o.filename o.data
  | .voteCommit => .vote o.transactionId true
  | .voteAbort => .vote o.transactionId false
  | .globalCommit => .commit o.transactionId
  | .globalAbort => .abort o.transactionId

/-- The history a table records. -/
def OperationTable.history (table : OperationTable) : History Str Str Str :=
  table.rows.map Operation.entry

@[simp] theorem Operation.owner_entry (o : Operation) : o.entry.owner = o.transactionId := by
  unfold Operation.entry
  cases o.name <;> rfl

theorem Operation.write?_entry (o : Operation) :
    o.entry.write? = if o.name = .write then some (o.filename, o.data) else none := by
  unfold Operation.entry
  cases o.name <;> rfl

theorem Operation.read?_entry (o : Operation) :
    o.entry.read? = if o.name = .read then some o.filename else none := by
  unfold Operation.entry
  cases o.name <;> rfl

theorem Operation.key?_entry (o : Operation) :
    o.entry.key? = if o.name = .write ∨ o.name = .read then some o.filename else none := by
  unfold Operation.entry
  cases o.name <;> rfl

theorem Operation.entry_eq_commit_iff (o : Operation) (transaction : Str) :
    o.entry = .commit transaction ↔ o.transactionId = transaction ∧ o.name = .globalCommit := by
  unfold Operation.entry
  cases o.name <;> simp

@[simp] theorem history_initDatabase : initDatabase.history = [] := rfl

/-- An insertion appends one entry. -/
theorem history_insertOperation (table : OperationTable) (name : OperationName)
    (transactionId filename fileContent : Str) :
    (insertOperation table name transactionId filename fileContent).history =
      table.history ++
        [({ id := table.sequence + 1
            name := name
            transactionId := cString transactionId
            filename := cString filename
            data := cString fileContent } : Operation).entry] := by
  unfold OperationTable.history
  exact List.map_append

/-! ## The statements about a transaction's own writes -/

theorem getPendingWrites_eq (table : OperationTable) (transactionId : Str) :
    getPendingWrites table transactionId = writesOf table.history (cString transactionId) := by
  unfold getPendingWrites writesOf OperationTable.history
  rw [List.filterMap_map, ← List.filterMap_eq_map, List.filterMap_filter]
  apply List.filterMap_congr
  intro o ho
  obtain ⟨-, hfilename, hdata⟩ := table.stored o ho
  simp only [Function.comp_apply, Operation.owner_entry, Operation.write?_entry, getText,
    bindTextParam, cString_of_nulFree hfilename, cString_of_nulFree hdata]
  by_cases howner : o.transactionId = cString transactionId
  · by_cases hname : o.name = .write <;> simp [howner, hname]
  · simp [howner]

/-- A pending write is a row of the log. -/
theorem mem_getPendingWrites {table : OperationTable} {transactionId : Str}
    {write : Str × Str} (h : write ∈ getPendingWrites table transactionId) :
    ∃ o ∈ table.rows, o.name = .write ∧ write = (o.filename, o.data) := by
  obtain ⟨o, hselected, rfl⟩ := List.mem_map.mp h
  obtain ⟨ho, hwrite⟩ := List.mem_filter.mp hselected
  obtain ⟨-, hfilename, hdata⟩ := table.stored o ho
  refine ⟨o, ho, (of_decide_eq_true hwrite).2, ?_⟩
  rw [getText, getText, cString_of_nulFree hfilename, cString_of_nulFree hdata]

/-- The rows that `writtenInTransaction` selects are the writes of the file. -/
theorem map_filter_writtenInTransaction (table : OperationTable)
    (transactionId filename : Str) :
    (table.rows.filter (writtenInTransaction transactionId filename)).map
        (fun o => (getText o.filename, getText o.data)) =
      (writesOf table.history (cString transactionId)).filter
        fun write => write.1 = cString filename := by
  rw [← getPendingWrites_eq]
  unfold getPendingWrites
  rw [List.filter_map, List.filter_filter]
  apply congrArg
  apply List.filter_congr
  intro o ho
  obtain ⟨-, hfilename, -⟩ := table.stored o ho
  simp only [writtenInTransaction, bindTextParam, Function.comp_apply, getText,
    cString_of_nulFree hfilename]
  by_cases hwritten : o.filename = cString filename
  · simp only [hwritten, decide_true, true_and, Bool.true_and]
    rfl
  · simp only [hwritten, decide_false, false_and, and_false, Bool.false_and]

/-- The last content of a file, read off the selected rows. -/
theorem lastValue_history (table : OperationTable) (transactionId filename : Str) :
    lastValue (writesOf table.history (cString transactionId)) (cString filename) =
      ((table.rows.filter (writtenInTransaction transactionId filename)).getLast?).map
        fun o => getText o.data := by
  rw [lastValue_eq_getLast?, ← map_filter_writtenInTransaction, List.getLast?_map,
    Option.map_map]
  rfl

theorem fileWasWrittenInThisTransaction_iff (table : OperationTable)
    (transactionId filename : Str) :
    fileWasWrittenInThisTransaction table transactionId filename = true ↔
      lastValue (writesOf table.history (cString transactionId)) (cString filename) ≠ none := by
  unfold fileWasWrittenInThisTransaction
  rw [decide_eq_true_eq, List.countP_eq_length_filter, List.length_pos_iff, lastValue_history]
  simp

/-- The last content is found exactly where there is one; the exception of a
missing row is the other case. -/
theorem lastFileContentFromThisTransaction_eq (table : OperationTable)
    (transactionId filename : Str) :
    lastFileContentFromThisTransaction table transactionId filename =
      match lastValue (writesOf table.history (cString transactionId)) (cString filename) with
      | some content => .ok content
      | none => .error .selectException := by
  unfold lastFileContentFromThisTransaction
  rw [lastValue_history]
  cases (table.rows.filter (writtenInTransaction transactionId filename)).getLast? <;> rfl

/-- The two look-ups of a transaction's own writes agree on whether there is one. -/
theorem fileWasWrittenInThisTransaction_iff_ok (table : OperationTable)
    (transactionId filename : Str) :
    fileWasWrittenInThisTransaction table transactionId filename = true ↔
      ∃ fileContent,
        lastFileContentFromThisTransaction table transactionId filename = .ok fileContent := by
  unfold fileWasWrittenInThisTransaction lastFileContentFromThisTransaction
  rw [decide_eq_true_eq, List.countP_eq_length_filter, List.length_pos_iff,
    ← List.getLast?_isSome]
  cases (table.rows.filter (writtenInTransaction transactionId filename)).getLast? with
  | some o => simp
  | none => simp

/-! ## The statements about other transactions -/

/-- In a table with ascending ids, the rows with a larger id than the first
selected row are the rows after it. -/
theorem mem_tail_dropWhile_iff {rows : List Operation}
    (hascending : rows.Pairwise fun earlier later => earlier.id < later.id)
    (select : Operation → Bool) (o : Operation) :
    o ∈ (rows.dropWhile fun r => !select r).tail ↔
      o ∈ rows ∧ ∃ first, rows.find? select = some first ∧ first.id < o.id := by
  induction rows with
  | nil => simp
  | cons row rows ih =>
      obtain ⟨hbelow, hrest⟩ := List.pairwise_cons.mp hascending
      cases hselect : select row with
      | true =>
          -- this is the first selected row: all later ids are larger
          simp only [List.dropWhile_cons, hselect, Bool.not_true, Bool.false_eq_true, if_false,
            List.tail_cons, List.find?_cons_of_pos hselect, List.mem_cons, Option.some.injEq,
            exists_eq_left']
          constructor
          · intro ho
            exact ⟨Or.inr ho, hbelow o ho⟩
          · rintro ⟨rfl | ho, hlt⟩
            · exact absurd hlt (Nat.lt_irrefl _)
            · exact ho
      | false =>
          have hnot : ¬ select row = true := by simp [hselect]
          simp only [List.dropWhile_cons, hselect, Bool.not_false, if_true,
            List.find?_cons_of_neg hnot, List.mem_cons]
          rw [ih hrest]
          constructor
          · rintro ⟨ho, hfirst⟩
            exact ⟨Or.inr ho, hfirst⟩
          · rintro ⟨rfl | ho, first, hfind, hlt⟩
            · have := hbelow first (List.mem_of_find?_eq_some hfind)
              omega
            · exact ⟨ho, first, hfind, hlt⟩

theorem mem_since_history_iff (table : OperationTable) (transaction : Str) (act : Entry) :
    act ∈ since table.history transaction ↔
      ∃ o ∈ table.rows, o.entry = act ∧
        ∃ first, table.rows.find? (fun r => r.transactionId = transaction) = some first ∧
          first.id < o.id := by
  have hmap : since table.history transaction =
      ((table.rows.dropWhile fun r => !decide (r.transactionId = transaction)).tail).map
        Operation.entry := by
    unfold since OperationTable.history
    rw [List.dropWhile_map, List.map_tail]
    congr 3
    funext r
    simp
  rw [hmap, List.mem_map]
  simp only [mem_tail_dropWhile_iff table.ascending]
  constructor
  · rintro ⟨o, ⟨ho, hfirst⟩, rfl⟩
    exact ⟨o, ho, rfl, hfirst⟩
  · rintro ⟨o, ho, rfl, hfirst⟩
    exact ⟨o, ⟨ho, hfirst⟩, rfl⟩

theorem firstWritten_history (table : OperationTable) (transaction : Str) :
    firstWritten table.history transaction =
      (table.rows.find? fun r => r.transactionId = transaction ∧ r.name = .write).map
        Operation.filename := by
  unfold firstWritten writesOf OperationTable.history
  induction table.rows with
  | nil => rfl
  | cons row rows ih =>
      by_cases hrow : row.transactionId = transaction ∧ row.name = .write
      · simp [hrow, Operation.write?_entry]
      · rw [List.find?_cons_of_neg (by simpa using hrow), ← ih, List.map_cons,
          List.filterMap_cons_none]
        by_cases howner : row.transactionId = transaction
        · simp only [howner, true_and] at hrow
          simp [howner, Operation.write?_entry, hrow]
        · simp [howner]

theorem firstRead_history (table : OperationTable) (transaction : Str) :
    firstRead table.history transaction =
      (table.rows.find? fun r => r.transactionId = transaction ∧ r.name = .read).map
        Operation.filename := by
  unfold firstRead readsOf OperationTable.history
  induction table.rows with
  | nil => rfl
  | cons row rows ih =>
      by_cases hrow : row.transactionId = transaction ∧ row.name = .read
      · simp [hrow, Operation.read?_entry]
      · rw [List.find?_cons_of_neg (by simpa using hrow), ← ih, List.map_cons,
          List.filterMap_cons_none]
        by_cases howner : row.transactionId = transaction
        · simp only [howner, true_and] at hrow
          simp [howner, Operation.read?_entry, hrow]
        · simp [howner]

theorem commit_mem_history_iff (table : OperationTable) (transaction : Str) :
    Act.commit transaction ∈ table.history ↔
      ∃ r ∈ table.rows, r.transactionId = transaction ∧ r.name = .globalCommit := by
  unfold OperationTable.history
  rw [List.mem_map]
  simp only [Operation.entry_eq_commit_iff]

end DistributedFileServer
