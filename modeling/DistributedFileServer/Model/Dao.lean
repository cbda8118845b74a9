import DistributedFileServer.Model.JsonMessages

/-!
# The operation log (`dao.h`, `dao.cpp`)

The table `OPERATION` and the seven statements the server runs on it, for the
case that every SQLite call succeeds.  Rows are kept in rowid order, which is
the order in which SQLite scans the table when no `ORDER BY` is given.

The counts are `int`s in the source; they are modelled by their exact value.
-/

namespace DistributedFileServer

/-- The values of the column `name`. -/
inductive OperationName where
  | read
  | write
  | voteCommit
  | voteAbort
  | globalCommit
  | globalAbort
  deriving DecidableEq, Repr

/-- One row of `OPERATION`. -/
structure Operation where
  id : Nat
  name : OperationName
  transactionId : Str
  filename : Str
  data : Str
  deriving DecidableEq, Repr

/-- The texts of a row, as `sqlite3_bind_text` stores them, hold no NUL byte. -/
structure Operation.Stored (o : Operation) : Prop where
  transactionId : NulFree o.transactionId
  filename : NulFree o.filename
  data : NulFree o.data

/-- The table `OPERATION` with its entry in `sqlite_sequence`.  The key is
`AUTOINCREMENT` and rows are never deleted or updated, so ids ascend. -/
structure OperationTable where
  rows : List Operation
  sequence : Nat
  ascending : rows.Pairwise fun earlier later => earlier.id < later.id
  bounded : ∀ o ∈ rows, o.id ≤ sequence
  stored : ∀ o ∈ rows, o.Stored

namespace Dao

/-- The table right after `initDatabase` created it. -/
def initDatabase : OperationTable where
  rows := []
  sequence := 0
  ascending := List.Pairwise.nil
  bounded := by simp
  stored := by simp

/-- `sqlite3_bind_text(stmt, idx, value.c_str(), -1, SQLITE_TRANSIENT)`. -/
def bindTextParam (value : Str) : Str :=
  cString value

/-- `string(sqlite3_column_text(stmt, col))`. -/
def getText (column : Str) : Str :=
  cString column

/-- `insertOperation` with four arguments. -/
def insertOperation (table : OperationTable) (name : OperationName)
    (transactionId filename fileContent : Str) : OperationTable where
  rows := table.rows ++
    [{ id := table.sequence + 1
       name := name
       transactionId := bindTextParam transactionId
       filename := bindTextParam filename
       data := bindTextParam fileContent }]
  sequence := table.sequence + 1
  ascending := by
    rw [List.pairwise_append]
    refine ⟨table.ascending, List.pairwise_singleton _ _, ?_⟩
    intro earlier hearlier later hlater
    obtain rfl := List.mem_singleton.mp hlater
    have := table.bounded earlier hearlier
    show earlier.id < table.sequence + 1
    omega
  bounded := by
    intro o ho
    rcases List.mem_append.mp ho with ho | ho
    · exact (table.bounded o ho).trans (Nat.le_succ _)
    · obtain rfl := List.mem_singleton.mp ho
      exact Nat.le_refl _
  stored := by
    intro o ho
    rcases List.mem_append.mp ho with ho | ho
    · exact table.stored o ho
    · obtain rfl := List.mem_singleton.mp ho
      exact ⟨nulFree_cString _, nulFree_cString _, nulFree_cString _⟩

/-- `insertOperation` with two arguments: filename and data are empty. -/
def insertTransactionOperation (table : OperationTable) (name : OperationName)
    (transactionId : Str) : OperationTable :=
  insertOperation table name transactionId [] []

/-- The `WHERE` clause shared by the two look-ups of a transaction's own writes. -/
def writtenInTransaction (transactionId filename : Str) (o : Operation) : Bool :=
  o.transactionId = bindTextParam transactionId ∧
    o.filename = bindTextParam filename ∧ o.name = .write

/-- The count is compared as it is.  The source takes it as an `int`, which makes no
difference to a log of fewer than 2^31 rows (`Statements.statements_stored`). -/
def fileWasWrittenInThisTransaction (table : OperationTable)
    (transactionId filename : Str) : Bool :=
  let count := table.rows.countP (writtenInTransaction transactionId filename)
  0 < count

/-- `ORDER BY o.id DESC LIMIT 1` selects the last matching row. -/
def lastFileContentFromThisTransaction (table : OperationTable)
    (transactionId filename : Str) : Except Exception Str :=
  match (table.rows.filter (writtenInTransaction transactionId filename)).getLast? with
  | some o => .ok (getText o.data)
  | none => .error .selectException

def getPendingWrites (table : OperationTable) (transactionId : Str) : List (Str × Str) :=
  (table.rows.filter fun o =>
    o.transactionId = bindTextParam transactionId ∧ o.name = .write).map
    fun o => (getText o.filename, getText o.data)

/-- The query shared by `writeIntercepted` and `readIntercepted`.  A scalar
subquery without a row is `NULL`, and a comparison with `NULL` selects nothing.
This count, too, is an `int` in the source. -/
def interceptedCount (own : OperationName) (theirs : List OperationName)
    (table : OperationTable) (transactionId : Str) : Nat :=
  -- SELECT filename FROM OPERATION WHERE transaction_id = ? AND name = own LIMIT 1
  let filename := (table.rows.find? fun r =>
    r.transactionId = bindTextParam transactionId ∧ r.name = own).map Operation.filename
  -- SELECT id FROM OPERATION WHERE transaction_id = ? ORDER BY id ASC LIMIT 1
  let firstId := (table.rows.find? fun r =>
    r.transactionId = bindTextParam transactionId).map Operation.id
  table.rows.countP fun o =>
    filename.any (fun name => o.filename = name) ∧
    o.transactionId ≠ bindTextParam transactionId ∧
    o.name ∈ theirs ∧
    firstId.any (fun id => o.id > id) ∧
    -- EXISTS(SELECT 1 FROM OPERATION WHERE transaction_id = o.transaction_id AND ...)
    table.rows.any fun r => r.transactionId = o.transactionId ∧ r.name = .globalCommit

def writeIntercepted (table : OperationTable) (transactionId : Str) : Bool :=
  let count := interceptedCount .write [.write, .read] table transactionId
  0 < count

def readIntercepted (table : OperationTable) (transactionId : Str) : Bool :=
  let count := interceptedCount .read [.write] table transactionId
  0 < count

end Dao

end DistributedFileServer
