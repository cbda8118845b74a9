import DistributedFileServer.Model.Locate
import DistributedFileServer.Model.Server

/-!
# Starting the server (`config.h`, `config.cpp`, `dao.cpp`, `server.cpp`)

`main` reads and checks the configuration, creates the table of the log and listens.
Whatever goes wrong until then ends the program.  What Boost makes of the configuration
file, what is found at a path and what file a path leads to are parameters.

A machine keeps its logs and its files from one session to the next.  Each session works on
the log and the directory that its configuration names.
-/

namespace DistributedFileServer

open Programs

/-- What `status` says of a path. -/
inductive PathStatus where
  | missing
  | regularFile
  | directory
  | other
  deriving DecidableEq, Repr

/-- The nodes of the configuration file, those that are there. -/
structure ConfigTree where
  autoMode : Option Str
  port : Option Str
  logFileFullPath : Option Str
  sharedDirectoryFullPath : Option Str
  deriving DecidableEq, Repr

/-- A `config`. -/
structure Configuration where
  autoMode : Bool
  port : Int
  logFileFullPath : Str
  sharedDirectoryFullPath : Str
  deriving DecidableEq, Repr

/-- What the constructor of `config` throws. -/
inductive ConfigException where
  /-- `json_parser_error`: no such file, or no JSON text. -/
  | jsonParser
  /-- `ptree_bad_path` of a `get` on a missing node. -/
  | badPath (path : Str)
  /-- `ptree_bad_data` of a `get` that cannot convert what it finds. -/
  | badData (data : Str)
  /-- `filesystem_error`: the status of a path cannot be found out. -/
  | filesystem (path : Str)
  /-- An exception of `check`, with its text. -/
  | failedCheck (what : Str)
  deriving DecidableEq, Repr

/-- `read_json` on a file, the conversions of `get<bool>` and `get<int>`, and `status`. -/
structure Surroundings where
  readJson : Str → Option ConfigTree
  getBool : Str → Option Bool
  getInt : Str → Option Int
  status : Str → Option PathStatus

namespace Startup

/-- `tree.get<T>(path)`. -/
def get {α : Type} (convert : Str → Option α) (path : Str) (node : Option Str) :
    Except ConfigException α :=
  match node with
  | none => .error (.badPath path)
  | some data =>
      match convert data with
      | none => .error (.badData data)
      | some value => .ok value

def statusOf (surroundings : Surroundings) (path : Str) : Except ConfigException PathStatus :=
  match surroundings.status path with
  | none => .error (.filesystem path)
  | some status => .ok status

/-- `if (!exists(path)) throw ...` and then `if (!is_...(path)) throw ...`. -/
def checkPath (surroundings : Surroundings) (path : Str) (kind : PathStatus)
    (absent wrong : Str) : Except ConfigException Unit := do
  if (← statusOf surroundings path) = .missing then
    throw (.failedCheck (cString absent))
  if (← statusOf surroundings path) ≠ kind then
    throw (.failedCheck (cString wrong))

def check (surroundings : Surroundings) (configuration : Configuration) :
    Except ConfigException Unit := do
  let logFileFullPath := configuration.logFileFullPath
  checkPath surroundings logFileFullPath .regularFile
    (text "Log file [" ++ logFileFullPath ++ text "] does not exist!")
    (text "Path [" ++ logFileFullPath ++ text "] is not a file!")
  let sharedDirectoryFullPath := configuration.sharedDirectoryFullPath
  checkPath surroundings sharedDirectoryFullPath .directory
    (text "Shared directory [" ++ sharedDirectoryFullPath ++ text "] does not exist!")
    (text "Path [" ++ sharedDirectoryFullPath ++ text "] is not a directory!")

/-- The constructor of `config`. -/
def config (surroundings : Surroundings) (pathToFile : Str) :
    Except ConfigException Configuration :=
  match surroundings.readJson pathToFile with
  | none => .error .jsonParser
  | some tree => do
      let autoMode ← get surroundings.getBool (text "auto_mode") tree.autoMode
      let port ← get surroundings.getInt (text "port") tree.port
      let logFileFullPath ← get some (text "log_file_full_path") tree.logFileFullPath
      let sharedDirectoryFullPath ←
        get some (text "shared_directory_full_path") tree.sharedDirectoryFullPath
      let configuration : Configuration :=
        { autoMode := autoMode
          port := port
          logFileFullPath := logFileFullPath
          sharedDirectoryFullPath := sharedDirectoryFullPath }
      check surroundings configuration
      return configuration

/-- The conversion of an `int` to an `unsigned short`. -/
def portNumber (port : Int) : Nat :=
  (port % 2 ^ 16).toNat

/-- `CREATE TABLE IF NOT EXISTS OPERATION`. -/
def createTable (log : Option OperationTable) : OperationTable :=
  log.getD Dao.initDatabase

end Startup

/-- Where the paths of a configuration lead: the path of a log to a database, and a filename
under the path of a shared directory to a file.  Boost's JSON parser is here as well. -/
structure Host (κ : Type) where
  locateLog : Str → κ
  locate : Str → Str → κ
  locate_cString : ∀ sharedDirectoryFullPath filename,
    locate sharedDirectoryFullPath (cString filename) = locate sharedDirectoryFullPath filename
  fromString : Str → Option Ptree

/-- The server on a shared directory. -/
def Host.system {κ : Type} (host : Host κ) (autoMode : Bool) (sharedDirectoryFullPath : Str) :
    System κ where
  cfg := ⟨autoMode⟩
  locate := host.locate sharedDirectoryFullPath
  locate_cString := host.locate_cString sharedDirectoryFullPath
  fromString := host.fromString

theorem resolve_appendPath_cString (sharedDirectoryFullPath filename : Str) :
    resolve (appendPath sharedDirectoryFullPath (cString (cString filename))) =
      resolve (appendPath sharedDirectoryFullPath (cString filename)) := by
  rw [cString_cString]

/-- All paths are on one volume. -/
def Host.rooted (fromString : Str → Option Ptree) : Host (List Str) where
  locateLog := fun logFileFullPath => resolve (cString logFileFullPath)
  locate := fun sharedDirectoryFullPath filename =>
    resolve (appendPath sharedDirectoryFullPath (cString filename))
  locate_cString := resolve_appendPath_cString
  fromString := fromString

theorem system_rooted (fromString : Str → Option Ptree) (autoMode : Bool)
    (sharedDirectoryFullPath : Str) :
    (Host.rooted fromString).system autoMode sharedDirectoryFullPath =
      System.rooted ⟨autoMode⟩ sharedDirectoryFullPath fromString :=
  rfl

/-- What outlives a session: the logs, each with its table if it was ever created, and the
files.  A log is kept apart from the files that requests can name. -/
structure Machine (κ : Type) where
  logs : κ → Option OperationTable
  disk : κ → Option Str

/-- What one execution of `main` meets with. -/
structure Session where
  /-- `argv`. -/
  arguments : List Str
  surroundings : Surroundings
  /-- Whether the `n`-th SQLite call succeeds. -/
  succeeds : Nat → Bool
  /-- What happens to the `n`-th stream. -/
  outcome : Nat → FileOutcome
  console : List Str
  /-- Whether the acceptor can listen on the port. -/
  canListen : Nat → Bool
  /-- What the clients send. -/
  streams : List Str

/-- How a session ends: with an exit code, or in the accept loop.  The responses are as in
`Server.runStreams`; a session in which all of them get their headers is meant. -/
inductive Ending where
  | exit (code : Nat)
  | serving (responses : List (Option (Except Failure Str)))

namespace Startup

variable {κ : Type} [DecidableEq κ]

/-- The log as `initDatabase` finds it. -/
def database (session : Session) (log : Option OperationTable) : Database where
  table := createTable log
  succeeds := session.succeeds
  connections := 0
  calls := []

/-- The server when it starts to listen. -/
def world (session : Session) (database : Database) (disk : κ → Option Str) : World κ where
  database := database
  files := { disk := disk, outcome := session.outcome, opened := [] }
  console := session.console

/-- The system that a configuration asks for. -/
def configured (host : Host κ) (configuration : Configuration) : System κ :=
  host.system configuration.autoMode configuration.sharedDirectoryFullPath

/-- The database of a log gets its table. -/
def setLog (machine : Machine κ) (logFile : κ) (table : OperationTable) : Machine κ :=
  { machine with logs := Function.update machine.logs logFile (some table) }

@[simp] theorem logs_setLog_self (machine : Machine κ) (logFile : κ) (table : OperationTable) :
    (setLog machine logFile table).logs logFile = some table :=
  Function.update_self ..

theorem logs_setLog_of_ne {file logFile : κ} (hne : file ≠ logFile) (machine : Machine κ)
    (table : OperationTable) : (setLog machine logFile table).logs file = machine.logs file :=
  Function.update_of_ne hne ..

/-- `main`.  An exception before the loop is logged, and the program exits successfully. -/
def main (host : Host κ) (toString : Ptree → Str) (session : Session)
    (machine : Machine κ) : Ending × Machine κ :=
  match session.arguments with
  | [_, configFileFullPath] =>
      match config session.surroundings configFileFullPath with
      | .error _ => (.exit 0, machine)
      | .ok configuration =>
          let logFile := host.locateLog configuration.logFileFullPath
          match exec DaoCalls.runQuery (database session (machine.logs logFile)) with
          | (.error _, after) =>
              -- the table is there if the query was executed
              if (Call.exec 0, true) ∈ after.calls then
                (.exit 0, setLog machine logFile after.table)
              else
                (.exit 0, machine)
          | (.ok _, after) =>
              if session.canListen (portNumber configuration.port) then
                let (responses, final) :=
                  Server.runStreams (configured host configuration) toString
                    (world session after machine.disk) session.streams
                (.serving responses,
                  { setLog machine logFile final.database.table with disk := final.files.disk })
              else
                (.exit 0, setLog machine logFile after.table)
  | _ => (.exit 1, machine)

/-- One session after another. -/
def sessions (host : Host κ) (toString : Ptree → Str) :
    List Session → Machine κ → List Ending × Machine κ
  | [], machine => ([], machine)
  | session :: rest, machine =>
      let (ending, next) := main host toString session machine
      let (endings, final) := sessions host toString rest next
      (ending :: endings, final)

end Startup

end DistributedFileServer
