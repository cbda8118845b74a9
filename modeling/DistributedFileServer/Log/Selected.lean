import DistributedFileServer.Sql.ScanOrder
import DistributedFileServer.Model.Statements
import DistributedFileServer.Log.Serving

/-!
# What the statements select

The statements are evaluated by an engine that may visit the rows in any order.  For
rows in the order of their ids they compute what the functions of `Dao` compute; this
file also finds out where another order makes a difference.
-/

namespace DistributedFileServer

open DeferredUpdate Dao Controller Sql

@[simp] theorem OperationName.text_eq_text_iff {name name' : OperationName} :
    name.text = name'.text ↔ name = name' := by
  cases name <;> cases name' <;> decide

@[simp] theorem cString_text (name : OperationName) : cString name.text = name.text := by
  cases name <;> decide

theorem storedBy_id (table : OperationTable) :
    @StoredBy Str operationSchema OperationColumn.id table.rows where
  isKey := table.ascending.imp fun {earlier later} hlt heq => by
    have hid : (earlier.id : Int) = later.id := Option.some.inj heq
    omega
  ascending := table.ascending.imp fun {earlier later} hlt => by
    simp only [Operation.read, keyLe, decide_eq_true_eq]
    omega

namespace Statements

variable {scan : Scan operationSchema} {table : OperationTable}

/-! ## The conditions -/

theorem eval_ownWrites (transactionId filename : Str) (env : Fin 1 → Operation) :
    ownWrites.eval scan (bound [transactionId, filename, msgWrite]) table.rows env = some true ↔
      writtenInTransaction transactionId filename (env 0) = true := by
  have hwrite : msgWrite = OperationName.write.text := rfl
  unfold writtenInTransaction
  rw [decide_eq_true_iff]
  simp [ownWrites, eval_and, eval_eq, Scalar.eval, Operation.read, bound, hwrite, bindTextParam,
    and_assoc]

theorem eval_pendingWrites (transactionId : Str) (env : Fin 1 → Operation) :
    pendingWrites.eval scan (bound [transactionId, msgWrite]) table.rows env = some true ↔
      (env 0).transactionId = bindTextParam transactionId ∧ (env 0).name = .write := by
  have hwrite : msgWrite = OperationName.write.text := rfl
  simp [pendingWrites, eval_and, eval_eq, Scalar.eval, Operation.read, bound, hwrite,
    bindTextParam]

theorem eval_committed (params : (kind : Kind) → Nat → Option (Value Str kind))
    (env : Fin 1 → Operation) :
    committed.eval scan params table.rows env = some true ↔
      Act.commit (env 0).transactionId ∈ table.history := by
  have hcommit : msgGlobalCommit = OperationName.globalCommit.text := rfl
  rw [commit_mem_history_iff]
  simp [committed, eval_existsRow, eval_and, eval_eq, Scalar.eval, Operation.read, hcommit]

theorem eval_firstId (transactionId : Str) (env : Fin 1 → Operation) :
    firstId.eval scan (bound [transactionId, transactionId, transactionId]) table.rows env =
      (table.rows.find? fun r => r.transactionId = cString transactionId).map
        fun r => (r.id : Int) := by
  rw [firstId, eval_select_asc (storedBy_id table), Option.map_eq_bind]
  simp only [eval_eq, Scalar.eval, Operation.read, bound]
  simp [bindTextParam]

/-- A row in which the transaction itself reads, or writes. -/
def ownRow (own : OperationName) (transactionId : Str) (o : Operation) : Bool :=
  o.transactionId = cString transactionId ∧ o.name = own

theorem eval_ownOperations (own : OperationName) (transactionId : Str) (o : Operation)
    (env : Fin 1 → Operation) :
    (ownOperations own.text).eval scan (bound [transactionId, transactionId, transactionId])
        table.rows (Fin.cons o env) = some true ↔ ownRow own transactionId o = true := by
  unfold ownRow
  rw [decide_eq_true_iff]
  simp [ownOperations, eval_and, eval_eq, Scalar.eval, Operation.read, bound, bindTextParam]

/-- The row whose filename the subquery selects. -/
def firstOwnRow (scan : Scan operationSchema) (own : OperationName) (table : OperationTable)
    (transactionId : Str) : Option Operation :=
  (scan.visit (ownOperations own.text) table.rows).find? (ownRow own transactionId)

theorem eval_firstFilename (own : OperationName) (transactionId : Str) (env : Fin 1 → Operation) :
    (firstFilename own.text).eval scan (bound [transactionId, transactionId, transactionId])
        table.rows env =
      (firstOwnRow scan own table transactionId).map Operation.filename := by
  rw [firstFilename, eval_select_limit_one, Option.map_eq_bind]
  simp only [eval_ownOperations, Bool.decide_eq_true]
  rfl

/-- Another transaction, which is committed by now, did one of the operations to the file
after the transaction's first one. -/
def InterceptedOn (theirs : List OperationName) (table : OperationTable)
    (transactionId filename : Str) : Prop :=
  ∃ o ∈ table.rows, o.filename = filename ∧ o.transactionId ≠ cString transactionId ∧
    o.name ∈ theirs ∧
    (∃ first, table.rows.find? (fun r => r.transactionId = cString transactionId) =
      some first ∧ first.id < o.id) ∧
    Act.commit o.transactionId ∈ table.history

theorem eval_intercepted {own : OperationName} {theirs : List OperationName}
    {names : Condition operationSchema 1} {transactionId : Str}
    (hnames : ∀ o : Operation, names.eval scan (bound [transactionId, transactionId, transactionId])
      table.rows (Fin.cons o Fin.elim0) = some true ↔ o.name ∈ theirs) (o : Operation) :
    (intercepted own.text names).eval scan (bound [transactionId, transactionId, transactionId])
        table.rows (Fin.cons o Fin.elim0) = some true ↔
      (firstOwnRow scan own table transactionId).map Operation.filename = some o.filename ∧
      o.transactionId ≠ cString transactionId ∧ o.name ∈ theirs ∧
      (∃ first, table.rows.find? (fun r => r.transactionId = cString transactionId) =
        some first ∧ first.id < o.id) ∧
      Act.commit o.transactionId ∈ table.history := by
  rw [intercepted, eval_and, eval_and, eval_and, eval_and, hnames, eval_committed, eval_gt,
    eval_ne, eval_eq, eval_firstFilename, eval_firstId]
  simp [Scalar.eval, Operation.read, bound, bindTextParam, and_assoc, eq_comm]

/-! ## The counts -/

theorem columnInt_of_lt {value : Nat} (h : value < 2 ^ 31) : columnInt value = value := by
  unfold columnInt
  rw [Int.bmod_eq_of_le] <;> omega

/-- A count that fits in an `int` is positive if a row is counted. -/
theorem positiveCount_iff (hlength : table.rows.length < 2 ^ 31) (values : List Str)
    (condition : Condition operationSchema 1) :
    positiveCount scan table values condition = true ↔
      ∃ o ∈ table.rows,
        condition.eval scan (bound values) table.rows (Fin.cons o Fin.elim0) = some true := by
  unfold positiveCount
  have hcount := count_eq_countP scan (bound values) table.rows condition
  have hle : count scan (bound values) table.rows condition ≤ table.rows.length := by
    rw [hcount]
    exact List.countP_le_length
  rw [columnInt_of_lt (by omega), decide_eq_true_iff, Int.natCast_pos, hcount,
    List.countP_pos_iff]
  simp only [decide_eq_true_eq]

theorem fileWasWrittenInThisTransaction_scan (hlength : table.rows.length < 2 ^ 31)
    (transactionId filename : Str) :
    fileWasWrittenInThisTransaction scan table transactionId filename =
      Dao.fileWasWrittenInThisTransaction table transactionId filename := by
  rw [Bool.eq_iff_iff, fileWasWrittenInThisTransaction, positiveCount_iff hlength]
  unfold Dao.fileWasWrittenInThisTransaction
  rw [decide_eq_true_iff, List.countP_pos_iff]
  simp only [eval_ownWrites, Fin.cons_zero]

theorem lastFileContentFromThisTransaction_scan (transactionId filename : Str) :
    lastFileContentFromThisTransaction scan table transactionId filename =
      Dao.lastFileContentFromThisTransaction table transactionId filename := by
  unfold lastFileContentFromThisTransaction Dao.lastFileContentFromThisTransaction
  rw [head?_rows_desc (storedBy_id table)]
  simp only [eval_ownWrites, Fin.cons_zero, Bool.decide_eq_true]
  rfl

/-- The pending writes come in an order that the engine chooses. -/
theorem getPendingWrites_perm (transactionId : Str) :
    (getPendingWrites scan table transactionId).Perm
      (Dao.getPendingWrites table transactionId) := by
  unfold getPendingWrites Dao.getPendingWrites
  refine List.Perm.map _ ?_
  have hperm := @rows_perm Str operationSchema _ scan (bound [transactionId, msgWrite]) table.rows
    pendingWrites
  simp only [eval_pendingWrites, Fin.cons_zero] at hperm
  exact hperm

theorem exists_interceptedOn_iff {selected : Option Operation} {theirs : List OperationName}
    {transactionId : Str} :
    (∃ own ∈ selected, InterceptedOn theirs table transactionId own.filename) ↔
      ∃ o ∈ table.rows, selected.map Operation.filename = some o.filename ∧
        o.transactionId ≠ cString transactionId ∧ o.name ∈ theirs ∧
        (∃ first, table.rows.find? (fun r => r.transactionId = cString transactionId) =
          some first ∧ first.id < o.id) ∧
        Act.commit o.transactionId ∈ table.history := by
  simp only [Option.map_eq_some_iff]
  constructor
  · rintro ⟨own, hown, o, ho, hfilename, hother⟩
    exact ⟨o, ho, ⟨own, hown, hfilename.symm⟩, hother⟩
  · rintro ⟨o, ho, ⟨own, hown, hfilename⟩, hother⟩
    exact ⟨own, hown, o, ho, hfilename.symm, hother⟩

theorem positiveCount_intercepted_iff (hlength : table.rows.length < 2 ^ 31)
    (own : OperationName) {theirs : List OperationName} {names : Condition operationSchema 1}
    {transactionId : Str}
    (hnames : ∀ o : Operation, names.eval scan (bound [transactionId, transactionId, transactionId])
      table.rows (Fin.cons o Fin.elim0) = some true ↔ o.name ∈ theirs) :
    positiveCount scan table [transactionId, transactionId, transactionId]
        (intercepted own.text names) = true ↔
      ∃ own' ∈ firstOwnRow scan own table transactionId,
        InterceptedOn theirs table transactionId own'.filename := by
  rw [positiveCount_iff hlength, exists_interceptedOn_iff]
  simp only [eval_intercepted hnames]

theorem writeIntercepted_scan_iff (hlength : table.rows.length < 2 ^ 31) (transactionId : Str) :
    writeIntercepted scan table transactionId = true ↔
      ∃ own ∈ firstOwnRow scan .write table transactionId,
        InterceptedOn [.write, .read] table transactionId own.filename := by
  have hnames : ∀ o : Operation,
      ((Condition.eq (.column 0 OperationColumn.name) (.literal msgWrite)).or
        (.eq (.column 0 OperationColumn.name) (.literal msgRead))).eval scan
          (bound [transactionId, transactionId, transactionId]) table.rows
          (Fin.cons o Fin.elim0) = some true ↔ o.name ∈ [OperationName.write, .read] := by
    intro o
    have hwrite : msgWrite = OperationName.write.text := rfl
    have hread : msgRead = OperationName.read.text := rfl
    simp [eval_or, eval_eq, Scalar.eval, Operation.read, hwrite, hread]
  exact positiveCount_intercepted_iff hlength .write hnames

theorem readIntercepted_scan_iff (hlength : table.rows.length < 2 ^ 31) (transactionId : Str) :
    readIntercepted scan table transactionId = true ↔
      ∃ own ∈ firstOwnRow scan .read table transactionId,
        InterceptedOn [.write] table transactionId own.filename := by
  have hnames : ∀ o : Operation,
      (Condition.eq (.column 0 OperationColumn.name) (.literal msgWrite)).eval scan
          (bound [transactionId, transactionId, transactionId]) table.rows
          (Fin.cons o Fin.elim0) = some true ↔ o.name ∈ [OperationName.write] := by
    intro o
    have hwrite : msgWrite = OperationName.write.text := rfl
    simp [eval_eq, Scalar.eval, Operation.read, hwrite]
  exact positiveCount_intercepted_iff hlength .read hnames

/-! ## Rows in the order of their ids -/

theorem interceptedCount_pos_iff_firstOwnRow (own : OperationName) (theirs : List OperationName)
    (transactionId : Str) :
    0 < interceptedCount own theirs table transactionId ↔
      ∃ own' ∈ firstOwnRow (.stored operationSchema) own table transactionId,
        InterceptedOn theirs table transactionId own'.filename := by
  rw [interceptedCount_pos_iff, exists_interceptedOn_iff]
  rfl

theorem writeIntercepted_stored (hlength : table.rows.length < 2 ^ 31) (transactionId : Str) :
    writeIntercepted (.stored operationSchema) table transactionId =
      Dao.writeIntercepted table transactionId := by
  rw [Bool.eq_iff_iff, writeIntercepted_scan_iff hlength, Dao.writeIntercepted,
    decide_eq_true_iff, interceptedCount_pos_iff_firstOwnRow]

theorem readIntercepted_stored (hlength : table.rows.length < 2 ^ 31) (transactionId : Str) :
    readIntercepted (.stored operationSchema) table transactionId =
      Dao.readIntercepted table transactionId := by
  rw [Bool.eq_iff_iff, readIntercepted_scan_iff hlength, Dao.readIntercepted,
    decide_eq_true_iff, interceptedCount_pos_iff_firstOwnRow]

theorem getPendingWrites_stored (transactionId : Str) :
    getPendingWrites (.stored operationSchema) table transactionId =
      Dao.getPendingWrites table transactionId := by
  unfold getPendingWrites Dao.getPendingWrites rows
  simp only [eval_pendingWrites, Fin.cons_zero]
  rfl

/-- **The statements.**  An engine that visits the rows in the order of their ids
computes what the functions of `Dao` compute. -/
theorem statements_stored (hlength : table.rows.length < 2 ^ 31) (transactionId filename : Str) :
    fileWasWrittenInThisTransaction (.stored operationSchema) table transactionId filename =
      Dao.fileWasWrittenInThisTransaction table transactionId filename ∧
    lastFileContentFromThisTransaction (.stored operationSchema) table transactionId filename =
      Dao.lastFileContentFromThisTransaction table transactionId filename ∧
    getPendingWrites (.stored operationSchema) table transactionId =
      Dao.getPendingWrites table transactionId ∧
    writeIntercepted (.stored operationSchema) table transactionId =
      Dao.writeIntercepted table transactionId ∧
    readIntercepted (.stored operationSchema) table transactionId =
      Dao.readIntercepted table transactionId :=
  ⟨fileWasWrittenInThisTransaction_scan hlength transactionId filename,
    lastFileContentFromThisTransaction_scan transactionId filename,
    getPendingWrites_stored transactionId, writeIntercepted_stored hlength transactionId,
    readIntercepted_stored hlength transactionId⟩

theorem statements_stored_write :
    let table := insertOperation initDatabase .write (text "T") (text "f") (text "x")
    fileWasWrittenInThisTransaction (.stored operationSchema) table (text "T") (text "f") =
      Dao.fileWasWrittenInThisTransaction table (text "T") (text "f") ∧
    lastFileContentFromThisTransaction (.stored operationSchema) table (text "T") (text "f") =
      Dao.lastFileContentFromThisTransaction table (text "T") (text "f") ∧
    getPendingWrites (.stored operationSchema) table (text "T") =
      Dao.getPendingWrites table (text "T") ∧
    writeIntercepted (.stored operationSchema) table (text "T") =
      Dao.writeIntercepted table (text "T") ∧
    readIntercepted (.stored operationSchema) table (text "T") =
      Dao.readIntercepted table (text "T") :=
  statements_stored (by decide) (text "T") (text "f")

/-! ## Rows in any order -/

theorem mem_rows_of_firstOwnRow {own : OperationName} {transactionId : Str} {o : Operation}
    (h : o ∈ firstOwnRow scan own table transactionId) :
    o ∈ table.rows ∧ ownRow own transactionId o = true :=
  ⟨(scan.perm _ table.rows).mem_iff.mp (List.mem_of_find?_eq_some h), List.find?_some h⟩

theorem exists_firstOwnRow (scan : Scan operationSchema) {own : OperationName}
    {transactionId : Str} {o : Operation} (hmem : o ∈ table.rows)
    (hown : ownRow own transactionId o = true) :
    ∃ first, first ∈ firstOwnRow scan own table transactionId := by
  have hsome : (firstOwnRow scan own table transactionId).isSome := by
    unfold firstOwnRow
    rw [List.find?_isSome]
    exact ⟨o, (scan.perm _ table.rows).mem_iff.mpr hmem, hown⟩
  exact Option.isSome_iff_exists.mp hsome

/-- A property of the selected file depends on the scan unless the transaction's files
have it all or none. -/
theorem forall_scan_iff (table : OperationTable) (own : OperationName) (transactionId : Str)
    (P : Str → Prop) :
    (∀ scan, (∃ o ∈ firstOwnRow scan own table transactionId, P o.filename) ↔
        ∃ o ∈ firstOwnRow (.stored operationSchema) own table transactionId, P o.filename) ↔
      ∀ o ∈ table.rows, ∀ o' ∈ table.rows, ownRow own transactionId o = true →
        ownRow own transactionId o' = true → P o.filename → P o'.filename := by
  constructor
  · intro h o ho o' ho' hown hown' hP
    have hfirst : firstOwnRow (Scan.startingAt o) own table transactionId = some o :=
      @find?_visit_startingAt Str operationSchema _ 1 _ _ _ _ ho hown
    have hfirst' : firstOwnRow (Scan.startingAt o') own table transactionId = some o' :=
      @find?_visit_startingAt Str operationSchema _ 1 _ _ _ _ ho' hown'
    obtain ⟨selected, hselected, hP'⟩ := (h (Scan.startingAt o')).mpr
      ((h (Scan.startingAt o)).mp ⟨o, hfirst, hP⟩)
    obtain rfl : o' = selected := Option.some.inj (hfirst'.symm.trans hselected)
    exact hP'
  · intro h scan
    constructor
    · rintro ⟨o, ho, hP⟩
      obtain ⟨hmem, hown⟩ := mem_rows_of_firstOwnRow ho
      obtain ⟨o', ho'⟩ := exists_firstOwnRow (.stored operationSchema) hmem hown
      obtain ⟨hmem', hown'⟩ := mem_rows_of_firstOwnRow ho'
      exact ⟨o', ho', h o hmem o' hmem' hown hown' hP⟩
    · rintro ⟨o, ho, hP⟩
      obtain ⟨hmem, hown⟩ := mem_rows_of_firstOwnRow ho
      obtain ⟨o', ho'⟩ := exists_firstOwnRow scan hmem hown
      obtain ⟨hmem', hown'⟩ := mem_rows_of_firstOwnRow ho'
      exact ⟨o', ho', h o hmem o' hmem' hown hown' hP⟩

theorem writeIntercepted_forall_scan_iff (hlength : table.rows.length < 2 ^ 31)
    (transactionId : Str) :
    (∀ scan, writeIntercepted scan table transactionId =
        Dao.writeIntercepted table transactionId) ↔
      ∀ o ∈ table.rows, ∀ o' ∈ table.rows,
        ownRow .write transactionId o = true → ownRow .write transactionId o' = true →
          InterceptedOn [.write, .read] table transactionId o.filename →
            InterceptedOn [.write, .read] table transactionId o'.filename := by
  rw [← forall_scan_iff table .write transactionId
    (InterceptedOn [.write, .read] table transactionId)]
  simp only [← writeIntercepted_scan_iff hlength, writeIntercepted_stored hlength,
    ← Bool.eq_iff_iff]

theorem readIntercepted_forall_scan_iff (hlength : table.rows.length < 2 ^ 31)
    (transactionId : Str) :
    (∀ scan, readIntercepted scan table transactionId =
        Dao.readIntercepted table transactionId) ↔
      ∀ o ∈ table.rows, ∀ o' ∈ table.rows,
        ownRow .read transactionId o = true → ownRow .read transactionId o' = true →
          InterceptedOn [.write] table transactionId o.filename →
            InterceptedOn [.write] table transactionId o'.filename := by
  rw [← forall_scan_iff table .read transactionId (InterceptedOn [.write] table transactionId)]
  simp only [← readIntercepted_scan_iff hlength, readIntercepted_stored hlength,
    ← Bool.eq_iff_iff]

/-- **The validation and the scan.**  The vote is the same in whichever order the engine
visits the rows, exactly if no file of the transaction is intercepted while another one of
its written, or of its read, files is not.  The counts of fewer than 2^31 rows fit into an
`int`. -/
theorem interceptions_scan_iff (hlength : table.rows.length < 2 ^ 31) (transactionId : Str) :
    (∀ scan, writeIntercepted scan table transactionId =
        Dao.writeIntercepted table transactionId ∧
      readIntercepted scan table transactionId = Dao.readIntercepted table transactionId) ↔
    ∀ o ∈ table.rows, ∀ o' ∈ table.rows,
      (ownRow .write transactionId o = true → ownRow .write transactionId o' = true →
        InterceptedOn [.write, .read] table transactionId o.filename →
          InterceptedOn [.write, .read] table transactionId o'.filename) ∧
      (ownRow .read transactionId o = true → ownRow .read transactionId o' = true →
        InterceptedOn [.write] table transactionId o.filename →
          InterceptedOn [.write] table transactionId o'.filename) := by
  rw [forall_and, writeIntercepted_forall_scan_iff hlength,
    readIntercepted_forall_scan_iff hlength]
  simp only [forall_and]

/-- `T` writes `f` and `g`, and `U`, which commits, writes `f` in between. -/
def twoFilesWritten : OperationTable :=
  let begun := insertOperation initDatabase .write (text "T") (text "f") (text "x")
  let other := insertOperation begun .write (text "U") (text "f") (text "y")
  let done := insertTransactionOperation other .globalCommit (text "U")
  insertOperation done .write (text "T") (text "g") (text "z")

theorem interceptions_scan_iff_twoFilesWritten :
    ¬ ∀ scan, writeIntercepted scan twoFilesWritten (text "T") =
        Dao.writeIntercepted twoFilesWritten (text "T") ∧
      readIntercepted scan twoFilesWritten (text "T") =
        Dao.readIntercepted twoFilesWritten (text "T") := by
  rw [interceptions_scan_iff (by decide)]
  intro hall
  have hwritten : InterceptedOn [.write, .read] twoFilesWritten (text "T") (text "f") :=
    ⟨⟨2, .write, text "U", text "f", text "y"⟩, by decide, rfl, by decide, by decide,
      ⟨⟨1, .write, text "T", text "f", text "x"⟩, by decide, by decide⟩, by decide⟩
  obtain ⟨o, ho, hfilename, hother, -, -⟩ :=
    (hall ⟨1, .write, text "T", text "f", text "x"⟩ (by decide)
      ⟨4, .write, text "T", text "g", text "z"⟩ (by decide)).1 (by decide) (by decide) hwritten
  have hno : ∀ o ∈ twoFilesWritten.rows, o.filename = text "g" →
      o.transactionId = cString (text "T") := by decide
  exact hother (hno o ho hfilename)

theorem getPendingWrites_endingAt {transactionId : Str} {o : Operation} (hmem : o ∈ table.rows)
    (htransaction : o.transactionId = bindTextParam transactionId) (hname : o.name = .write) :
    ∃ before, getPendingWrites (Scan.endingAt o) table transactionId =
      before ++ [(getText o.filename, getText o.data)] := by
  obtain ⟨before, hbefore⟩ := @rows_endingAt Str operationSchema _ _
    (bound [transactionId, msgWrite]) table.rows o pendingWrites hmem
    ((eval_pendingWrites _ _).mpr ⟨htransaction, hname⟩)
  rw [getPendingWrites, hbefore, List.map_append, List.map_singleton]
  exact ⟨_, rfl⟩

/-- **Commits and the scan.**  A commit leaves the same files in whichever order the engine
returns the pending writes, exactly if each file was written with one content. -/
theorem commit_scan_iff (transactionId : Str) (directory : SharedDirectory) :
    (∀ scan, applyWrites (getPendingWrites scan table transactionId) directory =
      applyWrites (Dao.getPendingWrites table transactionId) directory) ↔
    ∀ filename data data', (filename, data) ∈ Dao.getPendingWrites table transactionId →
      (filename, data') ∈ Dao.getPendingWrites table transactionId → data = data' := by
  constructor
  · intro h
    have hlast : ∀ filename data, (filename, data) ∈ Dao.getPendingWrites table transactionId →
        applyWrites (Dao.getPendingWrites table transactionId) directory filename =
          some data := by
      intro filename data hwrite
      obtain ⟨o, ho, hwrite⟩ := List.mem_map.mp hwrite
      obtain ⟨hmem, hselect⟩ := List.mem_filter.mp ho
      obtain ⟨htransaction, hname⟩ := of_decide_eq_true hselect
      obtain ⟨rfl, rfl⟩ := Prod.mk.inj hwrite
      obtain ⟨before, hbefore⟩ := getPendingWrites_endingAt hmem htransaction hname
      rw [← h (Scan.endingAt o), hbefore, applyWrites_concat, Function.update_self]
    intro filename data data' hwrite hwrite'
    exact Option.some.inj ((hlast filename data hwrite).symm.trans (hlast filename data' hwrite'))
  · intro h scan
    have hperm : (Dao.getPendingWrites table transactionId).Perm
        (getPendingWrites scan table transactionId) := (getPendingWrites_perm transactionId).symm
    have hlast := lastValue_perm hperm h
    funext filename
    rw [applyWrites_apply, applyWrites_apply, hlast]

/-! ## Runs -/

/-- No transaction reads two files, and none writes two contents or to two files. -/
structure OneFileEach (requests : List Request) : Prop where
  reads : ∀ owner filename owner' filename', .read owner filename ∈ requests →
    .read owner' filename' ∈ requests → cString owner = cString owner' →
    cString filename = cString filename'
  writes : ∀ owner filename data owner' filename' data', .write owner filename data ∈ requests →
    .write owner' filename' data' ∈ requests → cString owner = cString owner' →
    cString filename = cString filename' ∧ cString data = cString data'

section Run

variable {cfg : Config} {initial : SharedDirectory} {console : List Str}
  {requests : List Request} {exchanges : List Exchange} {s : ServerState}

theorem length_rows_le (hrun : run cfg (.initial initial console) requests = some (exchanges, s)) :
    s.log.rows.length ≤ requests.length := by
  have hrecord : ∀ exchange : Exchange, (record exchange.granted exchange.1).length ≤ 1 := by
    rintro ⟨request, reply⟩
    cases request <;> simp [record]
  have hle : ∀ exchanges : List Exchange, (recorded exchanges).length ≤ exchanges.length := by
    intro exchanges
    induction exchanges with
    | nil => exact Nat.le_refl 0
    | cons exchange exchanges ih =>
        rw [recorded_cons, List.length_append, List.length_cons]
        have := hrecord exchange
        omega
  have hhistory := congrArg List.length (run_spec hrun).1
  rw [OperationTable.history, List.length_map] at hhistory
  rw [hhistory, ← run_requests hrun, List.length_map]
  exact hle exchanges

/-- A row comes from a request. -/
theorem request_of_mem_rows
    (hrun : run cfg (.initial initial console) requests = some (exchanges, s)) {o : Operation}
    (ho : o ∈ s.log.rows) : ∃ request ∈ requests, ∃ granted, o.entry ∈ record granted request := by
  have hentry : o.entry ∈ s.log.history := List.mem_map_of_mem ho
  rw [(run_spec hrun).1, recorded, List.mem_flatMap] at hentry
  obtain ⟨exchange, hexchange, hrecord⟩ := hentry
  refine ⟨exchange.1, ?_, exchange.granted, hrecord⟩
  rw [← run_requests hrun]
  exact List.mem_map_of_mem hexchange

theorem write_of_mem_rows
    (hrun : run cfg (.initial initial console) requests = some (exchanges, s)) {o : Operation}
    (ho : o ∈ s.log.rows) (hname : o.name = .write) :
    ∃ owner filename data, .write owner filename data ∈ requests ∧
      o.transactionId = cString owner ∧ o.filename = cString filename ∧
      o.data = cString data := by
  obtain ⟨request, hrequest, granted, hentry⟩ := request_of_mem_rows hrun ho
  cases request with
  | write owner filename data =>
      refine ⟨owner, filename, data, hrequest, ?_⟩
      simpa [Operation.entry, hname, record] using hentry
  | _ => simp [Operation.entry, hname, record] at hentry

theorem read_of_mem_rows
    (hrun : run cfg (.initial initial console) requests = some (exchanges, s)) {o : Operation}
    (ho : o ∈ s.log.rows) (hname : o.name = .read) :
    ∃ owner filename, .read owner filename ∈ requests ∧
      o.transactionId = cString owner ∧ o.filename = cString filename := by
  obtain ⟨request, hrequest, granted, hentry⟩ := request_of_mem_rows hrun ho
  cases request with
  | read owner filename =>
      refine ⟨owner, filename, hrequest, ?_⟩
      simpa [Operation.entry, hname, record] using hentry
  | _ => simp [Operation.entry, hname, record] at hentry

theorem OneFileEach.eq_of_writes (hone : OneFileEach requests)
    (hrun : run cfg (.initial initial console) requests = some (exchanges, s))
    {transactionId : Str} {o o' : Operation} (ho : o ∈ s.log.rows) (ho' : o' ∈ s.log.rows)
    (hown : ownRow .write transactionId o = true) (hown' : ownRow .write transactionId o' = true) :
    o.filename = o'.filename ∧ o.data = o'.data := by
  obtain ⟨htransaction, hname⟩ := of_decide_eq_true hown
  obtain ⟨htransaction', hname'⟩ := of_decide_eq_true hown'
  obtain ⟨owner, filename, data, hrequest, howner, hfilename, hdata⟩ :=
    write_of_mem_rows hrun ho hname
  obtain ⟨owner', filename', data', hrequest', howner', hfilename', hdata'⟩ :=
    write_of_mem_rows hrun ho' hname'
  have howners : cString owner = cString owner' := by
    rw [← howner, ← howner', htransaction, htransaction']
  rw [hfilename, hfilename', hdata, hdata']
  exact hone.writes owner filename data owner' filename' data' hrequest hrequest' howners

theorem OneFileEach.eq_of_reads (hone : OneFileEach requests)
    (hrun : run cfg (.initial initial console) requests = some (exchanges, s))
    {transactionId : Str} {o o' : Operation} (ho : o ∈ s.log.rows) (ho' : o' ∈ s.log.rows)
    (hown : ownRow .read transactionId o = true) (hown' : ownRow .read transactionId o' = true) :
    o.filename = o'.filename := by
  obtain ⟨htransaction, hname⟩ := of_decide_eq_true hown
  obtain ⟨htransaction', hname'⟩ := of_decide_eq_true hown'
  obtain ⟨owner, filename, hrequest, howner, hfilename⟩ := read_of_mem_rows hrun ho hname
  obtain ⟨owner', filename', hrequest', howner', hfilename'⟩ := read_of_mem_rows hrun ho' hname'
  have howners : cString owner = cString owner' := by
    rw [← howner, ← howner', htransaction, htransaction']
  rw [hfilename, hfilename']
  exact hone.reads owner filename owner' filename' hrequest hrequest' howners

/-- Equal rows are in every order the same list. -/
theorem getPendingWrites_eq_of_same (scan : Scan operationSchema) {transactionId : Str}
    (hsame : ∀ o ∈ table.rows, ∀ o' ∈ table.rows, ownRow .write transactionId o = true →
      ownRow .write transactionId o' = true → o.filename = o'.filename ∧ o.data = o'.data) :
    getPendingWrites scan table transactionId = Dao.getPendingWrites table transactionId := by
  have hperm : (getPendingWrites scan table transactionId).Perm
      (Dao.getPendingWrites table transactionId) := getPendingWrites_perm transactionId
  have hwrites : ∀ write ∈ Dao.getPendingWrites table transactionId,
      ∀ write' ∈ Dao.getPendingWrites table transactionId, write = write' := by
    intro write hwrite write' hwrite'
    obtain ⟨o, ho, rfl⟩ := List.mem_map.mp hwrite
    obtain ⟨o', ho', rfl⟩ := List.mem_map.mp hwrite'
    obtain ⟨hmem, hown⟩ := List.mem_filter.mp ho
    obtain ⟨hmem', hown'⟩ := List.mem_filter.mp ho'
    obtain ⟨hfilename, hdata⟩ := hsame o hmem o' hmem' hown hown'
    rw [hfilename, hdata]
  refine List.Perm.eq_of_pairwise (fun write write' hwrite hwrite' _ _ => ?_)
    (List.pairwise_of_forall fun _ _ => trivial) (List.pairwise_of_forall fun _ _ => trivial) hperm
  exact hwrites write (hperm.mem_iff.mp hwrite) write' hwrite'

/-- **Any scan.**  As long as every transaction reads one file at most, and writes one
content to one file at most, every statement selects the same for every order in which the
engine visits the rows. -/
theorem run_statements
    (hrun : run cfg (.initial initial console) requests = some (exchanges, s))
    (hlength : requests.length < 2 ^ 31) (hone : OneFileEach requests)
    (scan : Scan operationSchema) (transactionId filename : Str) :
    fileWasWrittenInThisTransaction scan s.log transactionId filename =
      Dao.fileWasWrittenInThisTransaction s.log transactionId filename ∧
    lastFileContentFromThisTransaction scan s.log transactionId filename =
      Dao.lastFileContentFromThisTransaction s.log transactionId filename ∧
    getPendingWrites scan s.log transactionId = Dao.getPendingWrites s.log transactionId ∧
    writeIntercepted scan s.log transactionId = Dao.writeIntercepted s.log transactionId ∧
    readIntercepted scan s.log transactionId = Dao.readIntercepted s.log transactionId := by
  have hrows : s.log.rows.length < 2 ^ 31 := (length_rows_le hrun).trans_lt hlength
  have hpending : getPendingWrites scan s.log transactionId =
      Dao.getPendingWrites s.log transactionId :=
    getPendingWrites_eq_of_same scan fun o ho o' ho' => hone.eq_of_writes hrun ho ho'
  have hwrite : writeIntercepted scan s.log transactionId =
      Dao.writeIntercepted s.log transactionId := by
    refine (writeIntercepted_forall_scan_iff hrows transactionId).mpr ?_ scan
    intro o ho o' ho' hown hown'
    rw [(hone.eq_of_writes hrun ho ho' hown hown').1]
    exact id
  have hread : readIntercepted scan s.log transactionId =
      Dao.readIntercepted s.log transactionId := by
    refine (readIntercepted_forall_scan_iff hrows transactionId).mpr ?_ scan
    intro o ho o' ho' hown hown'
    rw [hone.eq_of_reads hrun ho ho' hown hown']
    exact id
  exact ⟨fileWasWrittenInThisTransaction_scan hrows transactionId filename,
    lastFileContentFromThisTransaction_scan transactionId filename, hpending, hwrite, hread⟩

end Run

theorem run_statements_write :
    ∃ exchanges s, run ⟨true⟩ (.initial (fun _ => none) [])
        [.write (text "T") (text "f") (text "x"), .prepare (text "T")] = some (exchanges, s) ∧
      ∀ scan, getPendingWrites scan s.log (text "T") = Dao.getPendingWrites s.log (text "T") ∧
        writeIntercepted scan s.log (text "T") = Dao.writeIntercepted s.log (text "T") := by
  obtain ⟨exchanges, s, hrun⟩ : ∃ exchanges s, run ⟨true⟩ (.initial (fun _ => none) [])
      [.write (text "T") (text "f") (text "x"), .prepare (text "T")] = some (exchanges, s) :=
    ⟨_, _, rfl⟩
  have hone : OneFileEach [.write (text "T") (text "f") (text "x"), .prepare (text "T")] := by
    constructor
    · intro owner filename owner' filename' hread
      simp at hread
    · intro owner filename data owner' filename' data' hwrite hwrite' _
      simp only [List.mem_cons, Request.write.injEq, List.not_mem_nil, reduceCtorEq,
        or_false] at hwrite hwrite'
      obtain ⟨-, rfl, rfl⟩ := hwrite
      obtain ⟨-, rfl, rfl⟩ := hwrite'
      exact ⟨rfl, rfl⟩
  refine ⟨exchanges, s, hrun, fun scan => ?_⟩
  have hall := run_statements hrun (by decide) hone scan (text "T") (text "f")
  exact ⟨hall.2.2.1, hall.2.2.2.1⟩

end Statements

end DistributedFileServer
