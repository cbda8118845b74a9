import DistributedFileServer.Framing.LineEnds
import DistributedFileServer.Model.Serve

/-!
# Files behind translating streams (`controller.cpp`)

`Serve` puts contents on the disk as they are.  The C runtime that the server is
built for translates what goes through a stream in text mode, and the server opens
no stream in another mode.  Here the handlers that touch files are written for
any translation; without one they are those of `Serve`.
-/

namespace DistributedFileServer

open Programs

/-- What a stream does to a text on its way to the disk, and on its way back. -/
structure StreamMode where
  encode : Str → Str
  decode : Str → Str

/-- A stream that is opened with `std::ios_base::binary`. -/
def StreamMode.binary : StreamMode := ⟨id, id⟩

/-- A stream that is opened without. -/
def StreamMode.text : StreamMode := ⟨LineEnds.encode, LineEnds.decode⟩

variable {κ : Type} [DecidableEq κ]

namespace Streamed

/-- A missing file reads as the empty string. -/
def contentOf (mode : StreamMode) (files : Files κ) (file : κ) : Str :=
  ((files.disk file).map mode.decode).getD []

def getFileContentFromHardDrive (mode : StreamMode) (system : System κ) (filename : Str) :
    ServerProgram κ Str := do
  let world ← get
  modify fun world => { world with files := world.files.openInput (system.locate filename) }
  return contentOf mode world.files (system.locate filename)

def getFileContent (mode : StreamMode) (system : System κ) (transactionId filename : Str) :
    ServerProgram κ Str := do
  if ← Serve.dao (DaoCalls.fileWasWrittenInThisTransaction transactionId filename) then
    Serve.dao (DaoCalls.lastFileContentFromThisTransaction transactionId filename)
  else
    getFileContentFromHardDrive mode system filename

def handleReadMessage (mode : StreamMode) (system : System κ) (transactionId filename : Str) :
    ServerProgram κ Ptree := do
  let fileContent ← getFileContent mode system transactionId filename
  Serve.dao (DaoCalls.insertOperation .read transactionId filename fileContent)
  return makeReadResponseMessage transactionId filename fileContent

def writeFiles (mode : StreamMode) (system : System κ) :
    List (Str × Str) → ServerProgram κ Unit
  | [] => return ()
  | write :: writes => do
      modify fun world =>
        { world with
          files := world.files.write (system.locate write.1) (mode.encode write.2) }
      writeFiles mode system writes

def commitPendingWrites (mode : StreamMode) (system : System κ) (transactionId : Str) :
    ServerProgram κ Unit := do
  let pendingWrites ← Serve.dao (DaoCalls.getPendingWrites transactionId)
  writeFiles mode system pendingWrites

def commitTransaction (mode : StreamMode) (system : System κ) (transactionId : Str) :
    ServerProgram κ Unit := do
  commitPendingWrites mode system transactionId
  Serve.dao (DaoCalls.insertTransactionOperation .globalCommit transactionId)

def handleGlobalCommitMessage (mode : StreamMode) (system : System κ) (transactionId : Str) :
    ServerProgram κ Ptree := do
  commitTransaction mode system transactionId
  return makeVoteCommitMessage transactionId

/-- The dispatch of `calculateResponse`.  The other handlers touch no file. -/
def handleRequest (mode : StreamMode) (system : System κ) : Request → ServerProgram κ Ptree
  | .read transactionId filename => handleReadMessage mode system transactionId filename
  | .globalCommit transactionId => handleGlobalCommitMessage mode system transactionId
  | request => Serve.handleRequest system request

/-- The accept loop of `main`. -/
def run (mode : StreamMode) (system : System κ) :
    World κ → List Request → List Serve.Outcome × World κ
  | world, [] => ([], world)
  | world, request :: requests =>
      match exec (handleRequest mode system request) world with
      | (.error .hangs, next) => ([(request, .error .hangs)], next)
      | (result, next) =>
          let (outcomes, final) := run mode system next requests
          ((request, result) :: outcomes, final)

/-! ## Streams that do not translate -/

omit [DecidableEq κ] in
theorem contentOf_binary (files : Files κ) (file : κ) :
    contentOf .binary files file = files.contentOf file := by
  unfold contentOf StreamMode.binary Files.contentOf
  cases files.disk file <;> rfl

/-- The loop writes what its streams make of the contents. -/
theorem writeFiles_eq (mode : StreamMode) (system : System κ) (writes : List (Str × Str)) :
    writeFiles mode system writes =
      Serve.writeFiles system (writes.map fun write => (write.1, mode.encode write.2)) := by
  induction writes with
  | nil => rfl
  | cons write writes ih =>
      rw [writeFiles, ih]
      rfl

/-- **The two models agree.** -/
theorem handleRequest_binary (system : System κ) (request : Request) :
    handleRequest .binary system request = Serve.handleRequest system request := by
  cases request with
  | read transactionId filename =>
      show handleReadMessage .binary system transactionId filename =
        Serve.handleReadMessage system transactionId filename
      unfold handleReadMessage getFileContent getFileContentFromHardDrive
      simp only [contentOf_binary]
      rfl
  | globalCommit transactionId =>
      show handleGlobalCommitMessage .binary system transactionId =
        Serve.handleGlobalCommitMessage system transactionId
      have hwrites : writeFiles .binary system = Serve.writeFiles system := by
        funext writes
        rw [writeFiles_eq]
        exact congrArg (Serve.writeFiles system) (List.map_id writes)
      unfold handleGlobalCommitMessage commitTransaction commitPendingWrites
      rw [hwrites]
      rfl
  | _ => rfl

theorem run_binary (system : System κ) (world : World κ) (requests : List Request) :
    run .binary system world requests = Serve.run system world requests := by
  induction requests generalizing world with
  | nil => rfl
  | cons request requests ih =>
      rw [run, Serve.run, handleRequest_binary]
      cases exec (Serve.handleRequest system request) world with
      | mk result next =>
          cases result with
          | ok reply => simp only [ih]
          | error failure => cases failure <;> simp only [ih]

end Streamed

end DistributedFileServer
