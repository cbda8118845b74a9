import DistributedFileServer.Model.DaoCalls
import DistributedFileServer.Model.Controller

/-!
# Serving requests call by call (`controller.cpp`, `server.cpp`)

`Controller` describes the handlers for the case that every SQLite call and
every file operation succeeds.  Here they are written over the functions of
`DaoCalls`, which throw when a call fails, and over file streams that may fail
to open or to write.  The streams are never asked whether they failed.

Files are kept under the keys to which the operating system resolves paths, so
that several filenames may name one file.
-/

namespace DistributedFileServer

open Programs

/-- What happens to an output stream: it is not opened, or it takes the first
bytes only, or all of them. -/
inductive FileOutcome where
  | notOpened
  | partly (count : Nat)
  | complete
  deriving DecidableEq, Repr

/-- What a file holds after the content was written to it.  Opening truncates; a
file that is not opened stays as it was. -/
def FileOutcome.transferred (content : Str) : FileOutcome → Option Str
  | notOpened => none
  | partly count => some (content.take count)
  | complete => some content

inductive OpenMode where
  | input
  | output
  deriving DecidableEq, Repr

/-- The files, the outcomes of the output streams to come, and the files opened. -/
structure Files (κ : Type) where
  disk : κ → Option Str
  /-- What happens to the `n`-th stream. -/
  outcome : Nat → FileOutcome
  /-- The streams so far, oldest first. -/
  opened : List (OpenMode × κ)

variable {κ : Type} [DecidableEq κ]

namespace Files

/-- A missing file reads as the empty string; it is not opened. -/
def contentOf (files : Files κ) (file : κ) : Str :=
  (files.disk file).getD []

/-- Open the file for input if it exists. -/
def openInput (files : Files κ) (file : κ) : Files κ :=
  match files.disk file with
  | none => files
  | some _ => { files with opened := files.opened ++ [(.input, file)] }

/-- Open the file for output, write the content and close the file. -/
def write (files : Files κ) (file : κ) (content : Str) : Files κ :=
  { files with
    disk :=
      match (files.outcome files.opened.length).transferred content with
      | none => files.disk
      | some transferred => Function.update files.disk file (some transferred)
    opened := files.opened ++ [(.output, file)] }

end Files

/-- What surrounds the server: its configuration, how the operating system
resolves a path under the shared directory, and Boost's JSON parser.  A path is
handed over as a C string. -/
structure System (κ : Type) where
  cfg : Config
  locate : Str → κ
  locate_cString : ∀ filename, locate (cString filename) = locate filename
  fromString : Str → Option Ptree

/-- What a request can read and change. -/
structure World (κ : Type) where
  database : Database
  files : Files κ
  console : List Str

/-- Why a request is not answered. -/
inductive Failure where
  /-- `json_parser_error`: the request is no JSON text. -/
  | jsonParser
  /-- An exception of the request's tree. -/
  | request (exception : Exception)
  /-- An exception thrown in `dao.cpp`. -/
  | sqlite (exception : SqlException)
  /-- No exception: the vote loop never ends. -/
  | hangs
  deriving DecidableEq, Repr

/-- A function of the controller. -/
abbrev ServerProgram (κ : Type) := Program Failure (World κ)

namespace Serve

/-- A call of a function of `dao.cpp`. -/
def dao {α : Type} (program : DaoProgram α) : ServerProgram κ α :=
  zoom World.database (fun database world => { world with database := database })
    Failure.sqlite program

def getFileContentFromHardDrive (system : System κ) (filename : Str) : ServerProgram κ Str := do
  let world ← get
  modify fun world => { world with files := world.files.openInput (system.locate filename) }
  return world.files.contentOf (system.locate filename)

def getFileContent (system : System κ) (transactionId filename : Str) :
    ServerProgram κ Str := do
  if ← dao (DaoCalls.fileWasWrittenInThisTransaction transactionId filename) then
    dao (DaoCalls.lastFileContentFromThisTransaction transactionId filename)
  else
    getFileContentFromHardDrive system filename

def handleReadMessage (system : System κ) (transactionId filename : Str) :
    ServerProgram κ Ptree := do
  let fileContent ← getFileContent system transactionId filename
  dao (DaoCalls.insertOperation .read transactionId filename fileContent)
  return makeReadResponseMessage transactionId filename fileContent

def handleWriteMessage (transactionId filename fileContent : Str) : ServerProgram κ Ptree := do
  dao (DaoCalls.insertOperation .write transactionId filename fileContent)
  return makeWriteResponseMessage transactionId

def canAutoCommitTransaction (transactionId : Str) : ServerProgram κ Bool := do
  if ← dao (DaoCalls.writeIntercepted transactionId) then
    return false
  else if ← dao (DaoCalls.readIntercepted transactionId) then
    return false
  else
    return true

/-- The console loop. -/
def askUser : ServerProgram κ Bool := do
  let world ← get
  match Controller.askUser world.console with
  | none => throw .hangs
  | some (answer, console) =>
      modify fun world => { world with console := console }
      return answer

def canCommitTransaction (system : System κ) (transactionId : Str) : ServerProgram κ Bool := do
  let canAutoCommit ← canAutoCommitTransaction transactionId
  if system.cfg.autoMode then
    return canAutoCommit
  else
    askUser

def handlePrepareMessage (system : System κ) (transactionId : Str) :
    ServerProgram κ Ptree := do
  if ← canCommitTransaction system transactionId then
    dao (DaoCalls.insertTransactionOperation .voteCommit transactionId)
    return makeVoteCommitMessage transactionId
  else
    dao (DaoCalls.insertTransactionOperation .voteAbort transactionId)
    return makeVoteAbortMessage transactionId

/-- The loop over the pending writes.  Nothing in it throws. -/
def writeFiles (system : System κ) : List (Str × Str) → ServerProgram κ Unit
  | [] => return ()
  | write :: writes => do
      modify fun world =>
        { world with files := world.files.write (system.locate write.1) write.2 }
      writeFiles system writes

def commitPendingWrites (system : System κ) (transactionId : Str) : ServerProgram κ Unit := do
  let pendingWrites ← dao (DaoCalls.getPendingWrites transactionId)
  writeFiles system pendingWrites

def commitTransaction (system : System κ) (transactionId : Str) : ServerProgram κ Unit := do
  commitPendingWrites system transactionId
  dao (DaoCalls.insertTransactionOperation .globalCommit transactionId)

def handleGlobalCommitMessage (system : System κ) (transactionId : Str) :
    ServerProgram κ Ptree := do
  commitTransaction system transactionId
  return makeVoteCommitMessage transactionId

def handleGlobalAbortMessage (transactionId : Str) : ServerProgram κ Ptree := do
  dao (DaoCalls.insertTransactionOperation .globalAbort transactionId)
  return makeVoteAbortMessage transactionId

/-- The dispatch of `calculateResponse`. -/
def handleRequest (system : System κ) : Request → ServerProgram κ Ptree
  | .read transactionId filename => handleReadMessage system transactionId filename
  | .write transactionId filename data => handleWriteMessage transactionId filename data
  | .prepare transactionId => handlePrepareMessage system transactionId
  | .globalCommit transactionId => handleGlobalCommitMessage system transactionId
  | .globalAbort transactionId => handleGlobalAbortMessage transactionId
  | .unsupported transactionId => return makeUnsupportedMessage transactionId

def calculateResponse (system : System κ) (request : Str) : ServerProgram κ Ptree :=
  match system.fromString request with
  | none => throw .jsonParser
  | some reqJson =>
      match Request.ofPtree reqJson with
      | .error exception => throw (.request exception)
      | .ok request => handleRequest system request

/-- A served request with its reply, or with the reason why there is none. -/
abbrev Outcome := Request × Except Failure Ptree

/-- The accept loop of `main`.  It catches every exception and goes on with the
next request. -/
def run (system : System κ) : World κ → List Request → List Outcome × World κ
  | world, [] => ([], world)
  | world, request :: requests =>
      match exec (handleRequest system request) world with
      | (.error .hangs, next) => ([(request, .error .hangs)], next)
      | (result, next) =>
          let (outcomes, final) := run system next requests
          ((request, result) :: outcomes, final)

end Serve

end DistributedFileServer
