import DistributedFileServer.Model.Dao
import DistributedFileServer.Sql.Select
import Mathlib.Algebra.Group.Nat.Defs

/-!
# The statements of the log (`dao.cpp`)

The texts of the `SELECT` statements that `dao.cpp` prepares, as syntax, and what its
functions make of their results.  `Dao` describes the same functions directly, for an
engine that visits the rows in the order of their ids.
-/

namespace DistributedFileServer

open Sql

/-- The columns of `OPERATION`. -/
inductive OperationColumn : Kind → Type where
  | id : OperationColumn .integer
  | name : OperationColumn .text
  | transactionId : OperationColumn .text
  | filename : OperationColumn .text
  | data : OperationColumn .text

/-- What stands in the column `name`. -/
def OperationName.text : OperationName → Str
  | .read => msgRead
  | .write => msgWrite
  | .voteCommit => msgVoteCommit
  | .voteAbort => msgVoteAbort
  | .globalCommit => msgGlobalCommit
  | .globalAbort => msgGlobalAbort

/-- What stands in a row.  Every column of a row is bound when it is inserted. -/
def Operation.read : {kind : Kind} → Operation → OperationColumn kind → Option (Value Str kind)
  | _, o, .id => some (o.id : Int)
  | _, o, .name => some o.name.text
  | _, o, .transactionId => some o.transactionId
  | _, o, .filename => some o.filename
  | _, o, .data => some o.data

/-- The table `OPERATION`. -/
abbrev operationSchema : Schema Str where
  Row := Operation
  Column := OperationColumn
  read := Operation.read

namespace Statements

/-- `bindTextParam` for the parameters `1`, `2` and so on. -/
def bound (values : List Str) : (kind : Kind) → Nat → Option (Value Str kind)
  | .text, index + 1 => (values[index]?).map Dao.bindTextParam
  | .text, 0 => none
  | .integer, _ => none

/-- `sqlite3_column_int`: the lower 32 bits. -/
def columnInt (value : Nat) : Int :=
  Int.bmod value (2 ^ 32)

/-! ## The texts -/

/-- `WHERE o.transaction_id = ? AND o.filename = ? AND o.name = ?` -/
def ownWrites : Condition operationSchema 1 :=
  ((Condition.eq (.column 0 OperationColumn.transactionId) (.parameter 1)).and
    (.eq (.column 0 OperationColumn.filename) (.parameter 2))).and
      (.eq (.column 0 OperationColumn.name) (.parameter 3))

/-- `WHERE o.transaction_id = ? AND o.name = ?` -/
def pendingWrites : Condition operationSchema 1 :=
  (Condition.eq (.column 0 OperationColumn.transactionId) (.parameter 1)).and
    (.eq (.column 0 OperationColumn.name) (.parameter 2))

/-- `WHERE transaction_id = ? AND name = ...` -/
def ownOperations (own : Str) : Condition operationSchema 2 :=
  (Condition.eq (.column 0 OperationColumn.transactionId) (.parameter 1)).and
    (.eq (.column 0 OperationColumn.name) (.literal own))

/-- `SELECT filename FROM OPERATION WHERE transaction_id = ? AND name = ... LIMIT 1` -/
def firstFilename (own : Str) : Scalar operationSchema 1 .text :=
  .select OperationColumn.filename (ownOperations own) none (some 1)

/-- `SELECT id FROM OPERATION WHERE transaction_id = ? ORDER BY id ASC LIMIT 1` -/
def firstId : Scalar operationSchema 1 .integer :=
  .select OperationColumn.id
    (.eq (.column 0 OperationColumn.transactionId) (.parameter 3))
    (some ⟨OperationColumn.id, .asc⟩) (some 1)

/-- `EXISTS(SELECT 1 FROM OPERATION WHERE transaction_id = o.transaction_id AND
name = 'global_commit')` -/
def committed : Condition operationSchema 1 :=
  .existsRow
    ((Condition.eq (.column 0 OperationColumn.transactionId)
        (.column 1 OperationColumn.transactionId)).and
      (.eq (.column 0 OperationColumn.name) (.literal msgGlobalCommit)))

/-- The two statements on other transactions, which differ in the name of the own row
and in the condition on the names of the others. -/
def intercepted (own : Str) (theirs : Condition operationSchema 1) :
    Condition operationSchema 1 :=
  ((((Condition.eq (.column 0 OperationColumn.filename) (firstFilename own)).and
    (.ne (.column 0 OperationColumn.transactionId) (.parameter 2))).and
      theirs).and
        (.gt (.column 0 OperationColumn.id) firstId)).and
          committed

/-- `(o.name = 'write' OR o.name = 'read')` -/
def writeInterceptedQuery : Condition operationSchema 1 :=
  intercepted msgWrite
    ((Condition.eq (.column 0 OperationColumn.name) (.literal msgWrite)).or
      (.eq (.column 0 OperationColumn.name) (.literal msgRead)))

/-- `o.name = 'write'` -/
def readInterceptedQuery : Condition operationSchema 1 :=
  intercepted msgRead (.eq (.column 0 OperationColumn.name) (.literal msgWrite))

/-! ## The functions -/

section Functions

variable (scan : Scan operationSchema) (table : OperationTable)

/-- `SELECT COUNT(*) FROM OPERATION o WHERE ...`, and `count > 0`. -/
def positiveCount (values : List Str) (condition : Condition operationSchema 1) : Bool :=
  let count := columnInt (count scan (bound values) table.rows condition)
  0 < count

def fileWasWrittenInThisTransaction (transactionId filename : Str) : Bool :=
  positiveCount scan table [transactionId, filename, msgWrite] ownWrites

/-- `SELECT o.data FROM OPERATION o WHERE ... ORDER BY o.id DESC LIMIT 1` -/
def lastFileContentFromThisTransaction (transactionId filename : Str) : Except Exception Str :=
  match (rows scan (bound [transactionId, filename, msgWrite]) table.rows ownWrites
      (some ⟨OperationColumn.id, .desc⟩) (some 1)).head? with
  | some (o : Operation) => .ok (Dao.getText o.data)
  | none => .error .selectException

/-- `SELECT o.filename, o.data FROM OPERATION o WHERE ...` -/
def getPendingWrites (transactionId : Str) : List (Str × Str) :=
  (rows scan (bound [transactionId, msgWrite]) table.rows pendingWrites none none).map
    fun o : Operation => (Dao.getText o.filename, Dao.getText o.data)

def writeIntercepted (transactionId : Str) : Bool :=
  positiveCount scan table [transactionId, transactionId, transactionId] writeInterceptedQuery

def readIntercepted (transactionId : Str) : Bool :=
  positiveCount scan table [transactionId, transactionId, transactionId] readInterceptedQuery

end Functions

end Statements

end DistributedFileServer
