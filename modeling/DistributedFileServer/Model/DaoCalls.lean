import DistributedFileServer.Model.Dao
import DistributedFileServer.Programs.Triple

/-!
# The SQLite calls of the log (`dao.cpp`)

`Dao` describes the statements for the case that every SQLite call succeeds.
Here the functions of `dao.cpp` make their calls one by one, and each call may
fail.  Which calls fail is decided from outside, call by call; a call that
succeeds does what `Dao` says.  All calls are recorded, with the connection they
are made on; a connection prepares at most one statement, so a statement is
named by its connection.
-/

namespace DistributedFileServer

open Programs

/-- A call into SQLite on the connection that `sqlite3_open` numbered `db`. -/
inductive Call where
  | open (db : Nat)
  | exec (db : Nat)
  | prepare (db : Nat)
  | bindText (db index : Nat)
  | step (db : Nat)
  | column (db index : Nat)
  | finalize (db : Nat)
  | close (db : Nat)
  | errmsg (db : Nat)
  deriving DecidableEq, Repr

/-- What `dao.cpp` throws, one constructor for each text. -/
inductive SqlException where
  /-- "Run query exception: " -/
  | runQuery
  /-- "Cannot open database [" -/
  | openDatabase
  /-- "Closing database exception: " -/
  | closeDatabase
  /-- "Prepare statement exception: " -/
  | prepareStatement
  /-- "Finalize statement exception: " -/
  | closeStatement
  /-- "Bind statement exception: " -/
  | bindTextParam
  /-- "Insert exception: " -/
  | insert
  /-- "Select count exception: " -/
  | selectCount
  /-- "Select count not done exception: " -/
  | selectCountNotDone
  /-- "Select exception: " -/
  | select
  /-- "Select not done exception: " -/
  | selectNotDone
  deriving DecidableEq, Repr

/-- The database file, the outcomes of the calls to come, and the calls made. -/
structure Database where
  table : OperationTable
  /-- Whether the `n`-th call succeeds. -/
  succeeds : Nat → Bool
  /-- The number of connections opened so far. -/
  connections : Nat
  /-- The calls made so far, with their outcomes. -/
  calls : List (Call × Bool)

/-- Record a call. -/
def Database.record (database : Database) (call : Call) : Database :=
  { database with
    calls := database.calls ++ [(call, database.succeeds database.calls.length)] }

/-- A function of `dao.cpp`. -/
abbrev DaoProgram := Program SqlException Database

namespace DaoCalls

/-- Make a call, and say whether it succeeded. -/
def invoke (call : Call) : DaoProgram Bool := do
  let database ← get
  modify fun database => database.record call
  return database.succeeds database.calls.length

/-- `if (call != SQLITE_OK) throw exception(... sqlite3_errmsg(db) ...)`. -/
def check (call : Call) (db : Nat) (exception : SqlException) : DaoProgram Unit := do
  let success ← invoke call
  if success then
    return ()
  else
    let _ ← invoke (.errmsg db)
    throw exception

/-- `sqlite3_open` hands out a connection even when it fails. -/
def openDatabase : DaoProgram Nat := do
  let database ← get
  modify fun database => { database with connections := database.connections + 1 }
  check (.open database.connections) database.connections .openDatabase
  return database.connections

def closeDatabase (db : Nat) : DaoProgram Unit :=
  check (.close db) db .closeDatabase

/-- The failing branch closes the connection before it asks for the message. -/
def runQuery : DaoProgram Unit := do
  let db ← openDatabase
  let success ← invoke (.exec db)
  if success then
    closeDatabase db
  else
    closeDatabase db
    let _ ← invoke (.errmsg db)
    throw .runQuery

def prepareStatement : DaoProgram Nat := do
  let db ← openDatabase
  check (.prepare db) db .prepareStatement
  return db

def closeStatement (db : Nat) : DaoProgram Unit := do
  check (.finalize db) db .closeStatement
  closeDatabase db

def bindTextParam (db index : Nat) : DaoProgram Unit :=
  check (.bindText db index) db .bindTextParam

/-- Bind the parameters `1` to `count`, in order. -/
def bindTextParams (db : Nat) : Nat → DaoProgram Unit
  | 0 => return ()
  | count + 1 => do
      bindTextParams db count
      bindTextParam db (count + 1)

/-- `insertOperation` with four arguments. -/
def insertOperation (name : OperationName) (transactionId filename fileContent : Str) :
    DaoProgram Unit := do
  let db ← prepareStatement
  bindTextParams db 4
  check (.step db) db .insert
  modify fun database =>
    { database with
      table := Dao.insertOperation database.table name transactionId filename fileContent }
  closeStatement db

/-- `insertOperation` with two arguments: filename and data are empty. -/
def insertTransactionOperation (name : OperationName) (transactionId : Str) :
    DaoProgram Unit :=
  insertOperation name transactionId [] []

/-- The body shared by the three functions that select a count: a first step
delivers the count, a second one has to find the statement done. -/
def selectCount (params : Nat) (positive : OperationTable → Bool) : DaoProgram Bool := do
  let db ← prepareStatement
  bindTextParams db params
  check (.step db) db .selectCount
  let database ← get
  let _ ← invoke (.column db 0)
  check (.step db) db .selectCountNotDone
  closeStatement db
  return positive database.table

def fileWasWrittenInThisTransaction (transactionId filename : Str) : DaoProgram Bool :=
  selectCount 3 fun table => Dao.fileWasWrittenInThisTransaction table transactionId filename

def writeIntercepted (transactionId : Str) : DaoProgram Bool :=
  selectCount 3 fun table => Dao.writeIntercepted table transactionId

def readIntercepted (transactionId : Str) : DaoProgram Bool :=
  selectCount 3 fun table => Dao.readIntercepted table transactionId

/-- A first step that finds no row is as good as one that fails. -/
def lastFileContentFromThisTransaction (transactionId filename : Str) : DaoProgram Str := do
  let db ← prepareStatement
  bindTextParams db 3
  check (.step db) db .select
  let database ← get
  match Dao.lastFileContentFromThisTransaction database.table transactionId filename with
  | .error _ =>
      let _ ← invoke (.errmsg db)
      throw .select
  | .ok fileContent =>
      let _ ← invoke (.column db 0)
      check (.step db) db .selectNotDone
      closeStatement db
      return fileContent

/-- The loop of `getPendingWrites`: one step for each row, and one more that has
to find the statement done. -/
def fetchWrites (db : Nat) : List (Str × Str) → DaoProgram (List (Str × Str))
  | [] => do
      check (.step db) db .selectNotDone
      return []
  | write :: rows => do
      check (.step db) db .selectNotDone
      let _ ← invoke (.column db 0)
      let _ ← invoke (.column db 1)
      let writes ← fetchWrites db rows
      return write :: writes

def getPendingWrites (transactionId : Str) : DaoProgram (List (Str × Str)) := do
  let db ← prepareStatement
  bindTextParams db 2
  let database ← get
  let writes ← fetchWrites db (Dao.getPendingWrites database.table transactionId)
  closeStatement db
  return writes

end DaoCalls

end DistributedFileServer
