import DistributedFileServer.Model.Dao
import Mathlib.Logic.Function.Basic

/-!
# The request handlers (`controller.h`, `controller.cpp`)

The server is single-threaded: it takes one request after another, and each
handler maps the state before the request to an answer and the state after.
The shared directory is a map from filenames to contents on which every file
operation succeeds.

`none` as the result of a handler means that it never returns: with auto mode
off, the vote loop spins for ever once the console input has ended.
-/

namespace DistributedFileServer

/-- The setting of `config` that the handlers read. -/
structure Config where
  autoMode : Bool
  deriving DecidableEq, Repr

/-- The shared directory: the files that exist, with their contents. -/
abbrev SharedDirectory := Str → Option Str

/-- What a request can read and change: the log database, the shared directory
and the console lines that were not read yet. -/
structure ServerState where
  log : OperationTable
  sharedDirectory : SharedDirectory
  console : List Str

/-- A server started on a fresh log. -/
def ServerState.initial (sharedDirectory : SharedDirectory) (console : List Str) :
    ServerState where
  log := Dao.initDatabase
  sharedDirectory := sharedDirectory
  console := console

/-- What goes back to the client: a message, or nothing but a logged exception. -/
abbrev Reply := Except Exception Ptree

instance decidableEqReply : DecidableEq Reply
  | .error e, .error e' => decidable_of_iff (e = e') (by rw [Except.error.injEq])
  | .ok tree, .ok tree' => decidable_of_iff (tree = tree') (by rw [Except.ok.injEq])
  | .error _, .ok _ => .isFalse nofun
  | .ok _, .error _ => .isFalse nofun

namespace Controller

open Dao

/-- A missing file reads as the empty string.  The operating system takes the
path as a C string. -/
def getFileContentFromHardDrive (sharedDirectory : SharedDirectory) (filename : Str) : Str :=
  match sharedDirectory (cString filename) with
  | none => []
  | some content => content

def getFileContent (s : ServerState) (transactionId filename : Str) : Except Exception Str :=
  if fileWasWrittenInThisTransaction s.log transactionId filename then
    lastFileContentFromThisTransaction s.log transactionId filename
  else
    .ok (getFileContentFromHardDrive s.sharedDirectory filename)

def handleReadMessage (s : ServerState) (transactionId filename : Str) :
    Reply × ServerState :=
  match getFileContent s transactionId filename with
  | .error e => (.error e, s)
  | .ok fileContent =>
      (.ok (makeReadResponseMessage transactionId filename fileContent),
        { s with log := insertOperation s.log .read transactionId filename fileContent })

def handleWriteMessage (s : ServerState) (transactionId filename fileContent : Str) :
    Reply × ServerState :=
  (.ok (makeWriteResponseMessage transactionId),
    { s with log := insertOperation s.log .write transactionId filename fileContent })

def canAutoCommitTransaction (log : OperationTable) (transactionId : Str) : Bool :=
  if writeIntercepted log transactionId then
    false
  else if readIntercepted log transactionId then
    false
  else
    true

/-- The console loop of `canCommitTransaction`: it reads lines until one is
exactly `t` or `n`.  After the last line `getline` delivers the empty string for
ever, so the loop has no result. -/
def askUser : List Str → Option (Bool × List Str)
  | [] => none
  | userInput :: console =>
      if userInput = text "t" then
        some (true, console)
      else if userInput = text "n" then
        some (false, console)
      else
        askUser console

/-- The vote, with the console lines that are left. -/
def canCommitTransaction (cfg : Config) (s : ServerState) (transactionId : Str) :
    Option (Bool × List Str) :=
  let canAutoCommit := canAutoCommitTransaction s.log transactionId
  if cfg.autoMode then
    some (canAutoCommit, s.console)
  else
    askUser s.console

def handlePrepareMessage (cfg : Config) (s : ServerState) (transactionId : Str) :
    Option (Reply × ServerState) :=
  match canCommitTransaction cfg s transactionId with
  | none => none
  | some (true, console) =>
      some (.ok (makeVoteCommitMessage transactionId),
        { s with
          log := insertTransactionOperation s.log .voteCommit transactionId
          console := console })
  | some (false, console) =>
      some (.ok (makeVoteAbortMessage transactionId),
        { s with
          log := insertTransactionOperation s.log .voteAbort transactionId
          console := console })

/-- Opening a file for output truncates it, so each pending write replaces the
whole content. -/
def commitPendingWrites (s : ServerState) (transactionId : Str) : ServerState :=
  let pendingWrites := getPendingWrites s.log transactionId
  { s with
    sharedDirectory := pendingWrites.foldl
      (fun directory write => Function.update directory (cString write.1) (some write.2))
      s.sharedDirectory }

def commitTransaction (s : ServerState) (transactionId : Str) : ServerState :=
  let s := commitPendingWrites s transactionId
  { s with log := insertTransactionOperation s.log .globalCommit transactionId }

/-- The answer to a global commit is a `vote_commit` message. -/
def handleGlobalCommitMessage (s : ServerState) (transactionId : Str) :
    Reply × ServerState :=
  (.ok (makeVoteCommitMessage transactionId), commitTransaction s transactionId)

/-- The answer to a global abort is a `vote_abort` message. -/
def handleGlobalAbortMessage (s : ServerState) (transactionId : Str) :
    Reply × ServerState :=
  (.ok (makeVoteAbortMessage transactionId),
    { s with log := insertTransactionOperation s.log .globalAbort transactionId })

/-- The dispatch of `calculateResponse`, on a request that was read from its
tree. -/
def handleRequest (cfg : Config) (s : ServerState) : Request → Option (Reply × ServerState)
  | .read transactionId filename => some (handleReadMessage s transactionId filename)
  | .write transactionId filename data =>
      some (handleWriteMessage s transactionId filename data)
  | .prepare transactionId => handlePrepareMessage cfg s transactionId
  | .globalCommit transactionId => some (handleGlobalCommitMessage s transactionId)
  | .globalAbort transactionId => some (handleGlobalAbortMessage s transactionId)
  | .unsupported transactionId => some (.ok (makeUnsupportedMessage transactionId), s)

def calculateResponse (cfg : Config) (s : ServerState) (reqJson : Ptree) :
    Option (Reply × ServerState) :=
  match Request.ofPtree reqJson with
  | .error e => some (.error e, s)
  | .ok request => handleRequest cfg s request

/-- The server answers the tree of a request by the request's handler. -/
theorem calculateResponse_toPtree (cfg : Config) (s : ServerState) (request : Request) :
    calculateResponse cfg s request.toPtree = handleRequest cfg s request := by
  unfold calculateResponse
  rw [Request.ofPtree_toPtree]

/-- A tree with a missing key is answered by an exception that names the key,
and changes nothing. -/
theorem calculateResponse_of_error {cfg : Config} {s : ServerState} {reqJson : Ptree}
    {e : Exception} (h : Request.ofPtree reqJson = .error e) :
    calculateResponse cfg s reqJson = some (.error e, s) := by
  unfold calculateResponse
  rw [h]

end Controller

end DistributedFileServer
