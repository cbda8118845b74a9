import DistributedFileServer.Model.Serve
import DistributedFileServer.Log.TableHistory

/-!
# Requests without failing SQLite calls

What a request does to the log, the files and the console when every SQLite call
succeeds; the output streams may still fail.  The programs of `Serve` do just
this when no call fails, and `Controller` describes the case that the streams do
not fail either.
-/

namespace DistributedFileServer

open DeferredUpdate

variable {κ : Type} [DecidableEq κ]

/-- A world without its SQLite calls. -/
structure Stores (κ : Type) where
  log : OperationTable
  files : Files κ
  console : List Str

def World.stores (world : World κ) : Stores κ where
  log := world.database.table
  files := world.files
  console := world.console

namespace Stores

/-- The content for a read, and the files after looking for it. -/
def getFileContent (system : System κ) (s : Stores κ) (transactionId filename : Str) :
    Str × Files κ :=
  match Dao.lastFileContentFromThisTransaction s.log transactionId filename with
  | .ok fileContent => (fileContent, s.files)
  | .error _ =>
      (s.files.contentOf (system.locate filename), s.files.openInput (system.locate filename))

/-- Log a row. -/
def insert (s : Stores κ) (name : OperationName) (transactionId filename fileContent : Str) :
    Stores κ :=
  { s with log := Dao.insertOperation s.log name transactionId filename fileContent }

/-- The vote, with the console lines that are left. -/
def canCommitTransaction (system : System κ) (s : Stores κ) (transactionId : Str) :
    Option (Bool × List Str) :=
  if system.cfg.autoMode then
    some (Controller.canAutoCommitTransaction s.log transactionId, s.console)
  else
    Controller.askUser s.console

def commitPendingWrites (system : System κ) (s : Stores κ) (transactionId : Str) : Files κ :=
  (Dao.getPendingWrites s.log transactionId).foldl
    (fun files write => files.write (system.locate write.1) write.2) s.files

/-- The reply and what a request leaves; nothing if it hangs. -/
def handleRequest (system : System κ) (s : Stores κ) : Request → Option (Ptree × Stores κ)
  | .read transactionId filename =>
      let (fileContent, files) := s.getFileContent system transactionId filename
      some (makeReadResponseMessage transactionId filename fileContent,
        { s with files := files }.insert .read transactionId filename fileContent)
  | .write transactionId filename data =>
      some (makeWriteResponseMessage transactionId, s.insert .write transactionId filename data)
  | .prepare transactionId =>
      match s.canCommitTransaction system transactionId with
      | none => none
      | some (true, console) =>
          some (makeVoteCommitMessage transactionId,
            { s with console := console }.insert .voteCommit transactionId [] [])
      | some (false, console) =>
          some (makeVoteAbortMessage transactionId,
            { s with console := console }.insert .voteAbort transactionId [] [])
  | .globalCommit transactionId =>
      some (makeVoteCommitMessage transactionId,
        { s with files := s.commitPendingWrites system transactionId }.insert
          .globalCommit transactionId [] [])
  | .globalAbort transactionId =>
      some (makeVoteAbortMessage transactionId, s.insert .globalAbort transactionId [] [])
  | .unsupported transactionId => some (makeUnsupportedMessage transactionId, s)

end Stores

omit [DecidableEq κ] in
@[simp] theorem Files.disk_openInput (files : Files κ) (file : κ) :
    (files.openInput file).disk = files.disk := by
  unfold Files.openInput
  cases files.disk file <;> rfl

/-- What a `prepare` answers and logs. -/
theorem Stores.handleRequest_prepare {system : System κ} {s next : Stores κ}
    {transactionId : Str} {reply : Ptree}
    (h : s.handleRequest system (.prepare transactionId) = some (reply, next)) :
    ∃ console, next.files = s.files ∧
      ((reply = makeVoteCommitMessage transactionId ∧
          next = { s with console := console }.insert .voteCommit transactionId [] []) ∨
        (reply = makeVoteAbortMessage transactionId ∧
          next = { s with console := console }.insert .voteAbort transactionId [] [])) := by
  simp only [Stores.handleRequest] at h
  split at h
  · cases h
  · next console _ =>
      obtain ⟨rfl, rfl⟩ := Prod.mk.inj (Option.some.inj h)
      exact ⟨console, rfl, Or.inl ⟨rfl, rfl⟩⟩
  · next console _ =>
      obtain ⟨rfl, rfl⟩ := Prod.mk.inj (Option.some.inj h)
      exact ⟨console, rfl, Or.inr ⟨rfl, rfl⟩⟩

/-- **The log after a request.**  At most one row is added, and it is a write only for
a write request. -/
theorem Stores.log_handleRequest {system : System κ} {s next : Stores κ} {request : Request}
    {reply : Ptree} (h : s.handleRequest system request = some (reply, next)) :
    next.log = s.log ∨ ∃ name filename fileContent,
      next.log = Dao.insertOperation s.log name request.transactionId filename fileContent ∧
      (name = .write → request = .write request.transactionId filename fileContent) := by
  cases request with
  | read transactionId filename =>
      obtain ⟨-, rfl⟩ := Prod.mk.inj (Option.some.inj h)
      exact Or.inr ⟨.read, filename, _, rfl, fun hname => by cases hname⟩
  | write transactionId filename data =>
      obtain ⟨-, rfl⟩ := Prod.mk.inj (Option.some.inj h)
      exact Or.inr ⟨.write, filename, data, rfl, fun _ => rfl⟩
  | prepare transactionId =>
      obtain ⟨console, -, ⟨-, rfl⟩ | ⟨-, rfl⟩⟩ := handleRequest_prepare h
      · exact Or.inr ⟨.voteCommit, [], [], rfl, fun hname => by cases hname⟩
      · exact Or.inr ⟨.voteAbort, [], [], rfl, fun hname => by cases hname⟩
  | globalCommit transactionId =>
      obtain ⟨-, rfl⟩ := Prod.mk.inj (Option.some.inj h)
      exact Or.inr ⟨.globalCommit, [], [], rfl, fun hname => by cases hname⟩
  | globalAbort transactionId =>
      obtain ⟨-, rfl⟩ := Prod.mk.inj (Option.some.inj h)
      exact Or.inr ⟨.globalAbort, [], [], rfl, fun hname => by cases hname⟩
  | unsupported transactionId =>
      obtain ⟨-, rfl⟩ := Prod.mk.inj (Option.some.inj h)
      exact Or.inl rfl

/-- **The files after a request.**  A read may open the file it names, and a global
commit writes the pending files. -/
theorem Stores.files_handleRequest {system : System κ} {s next : Stores κ} {request : Request}
    {reply : Ptree} (h : s.handleRequest system request = some (reply, next)) :
    next.files = s.files ∨
    (∃ transactionId filename, request = .read transactionId filename ∧
      next.files = s.files.openInput (system.locate filename)) ∨
    ∃ transactionId, request = .globalCommit transactionId ∧
      next.files = s.commitPendingWrites system transactionId := by
  cases request with
  | read transactionId filename =>
      obtain ⟨-, rfl⟩ := Prod.mk.inj (Option.some.inj h)
      show (s.getFileContent system transactionId filename).2 = s.files ∨ _
      unfold Stores.getFileContent
      cases Dao.lastFileContentFromThisTransaction s.log transactionId filename with
      | ok content => exact Or.inl rfl
      | error exception => exact Or.inr (Or.inl ⟨transactionId, filename, rfl, rfl⟩)
  | prepare transactionId =>
      obtain ⟨console, hfiles, -⟩ := handleRequest_prepare h
      exact Or.inl hfiles
  | globalCommit transactionId =>
      obtain ⟨-, rfl⟩ := Prod.mk.inj (Option.some.inj h)
      exact Or.inr (Or.inr ⟨transactionId, rfl, rfl⟩)
  | _ =>
      left
      obtain ⟨-, rfl⟩ := Prod.mk.inj (Option.some.inj h)
      rfl

/-- **Frame.**  Only a global commit changes files. -/
theorem disk_handleRequest {system : System κ} {s next : Stores κ} {request : Request}
    {reply : Ptree} (h : s.handleRequest system request = some (reply, next)) :
    next.files.disk = s.files.disk ∨ ∃ transactionId, request = .globalCommit transactionId := by
  rcases Stores.files_handleRequest h with hsame | ⟨transactionId, filename, -, hopened⟩ |
    ⟨transactionId, hcommit, -⟩
  · exact Or.inl (congrArg Files.disk hsame)
  · left
    rw [hopened, Files.disk_openInput]
  · exact Or.inr ⟨transactionId, hcommit⟩

/-! ## Where the streams do not fail either -/

/-- Filenames name different files where they are different C strings. -/
def System.flat (cfg : Config) (fromString : Str → Option Ptree) : System Str where
  cfg := cfg
  locate := cString
  locate_cString := cString_cString
  fromString := fromString

def Stores.toServerState (s : Stores Str) : ServerState where
  log := s.log
  sharedDirectory := s.files.disk
  console := s.console

/-- Every output stream takes everything. -/
def Files.Sound (files : Files κ) : Prop :=
  ∀ n, files.outcome n = .complete

theorem Files.Sound.write {files : Files κ} (h : files.Sound) (file : κ) (content : Str) :
    (files.write file content).Sound :=
  h

/-- Streams that take everything lay what goes through them over the disk. -/
theorem disk_foldl_write_of_complete (locate : Str → κ) (encode : Str → Str)
    (writes : List (Str × Str)) {files : Files κ}
    (h : ∀ n < writes.length, files.outcome (files.opened.length + n) = .complete) :
    (writes.foldl (fun files write => files.write (locate write.1) (encode write.2)) files).disk =
      applyWrites (writes.map fun write => (locate write.1, encode write.2)) files.disk := by
  induction writes generalizing files with
  | nil => rfl
  | cons write writes ih =>
      have hfirst : files.outcome files.opened.length = .complete :=
        h 0 (Nat.succ_pos writes.length)
      have hrest : ∀ n < writes.length,
          (files.write (locate write.1) (encode write.2)).outcome
            ((files.write (locate write.1) (encode write.2)).opened.length + n) = .complete := by
        intro n hn
        have hnext := h (n + 1) (Nat.succ_lt_succ hn)
        simp only [Files.write, List.length_append, List.length_singleton]
        rw [Nat.add_assoc, Nat.add_comm 1 n]
        exact hnext
      have hdisk : (files.write (locate write.1) (encode write.2)).disk =
          Function.update files.disk (locate write.1) (some (encode write.2)) := by
        simp [Files.write, hfirst, FileOutcome.transferred]
      rw [List.foldl_cons, ih hrest, hdisk]
      rfl

/-- Sound streams lay the pending writes over the disk. -/
theorem disk_foldl_write {files : Files κ} (h : files.Sound) (locate : Str → κ)
    (writes : List (Str × Str)) :
    (writes.foldl (fun files write => files.write (locate write.1) write.2) files).disk =
      applyWrites (writes.map fun write => (locate write.1, write.2)) files.disk :=
  disk_foldl_write_of_complete locate id writes fun n _ => h (files.opened.length + n)

/-- **The two models agree.**  On files keyed by C strings, with sound streams, a
request does what `Controller.handleRequest` says. -/
theorem handleRequest_flat (cfg : Config) (fromString : Str → Option Ptree) (s : Stores Str)
    (hsound : s.files.Sound) (request : Request) :
    Controller.handleRequest cfg s.toServerState request =
      (s.handleRequest (System.flat cfg fromString) request).map fun result =>
        (.ok result.1, result.2.toServerState) := by
  cases request with
  | read transactionId filename =>
      have hlast := lastFileContentFromThisTransaction_eq s.log transactionId filename
      have hwritten := fileWasWrittenInThisTransaction_iff s.log transactionId filename
      simp only [Controller.handleRequest, Controller.handleReadMessage,
        Controller.getFileContent, Stores.handleRequest, Stores.getFileContent,
        Stores.toServerState]
      cases hvalue : lastValue (writesOf s.log.history (cString transactionId))
          (cString filename) with
      | some content =>
          rw [hvalue] at hlast
          have hyes : Dao.fileWasWrittenInThisTransaction s.log transactionId filename = true :=
            hwritten.mpr (by simp [hvalue])
          simp only [hyes, if_true, hlast]
          rfl
      | none =>
          rw [hvalue] at hlast
          have hno : ¬ Dao.fileWasWrittenInThisTransaction s.log transactionId filename = true :=
            fun hyes => hwritten.mp hyes hvalue
          have hcontent : Controller.getFileContentFromHardDrive s.files.disk filename =
              s.files.contentOf (cString filename) := by
            unfold Controller.getFileContentFromHardDrive Files.contentOf
            cases s.files.disk (cString filename) <;> rfl
          simp only [if_neg hno, hlast, hcontent]
          simp [System.flat, Stores.insert]
  | prepare transactionId =>
      simp only [Controller.handleRequest, Controller.handlePrepareMessage, Stores.handleRequest]
      have hvote : Controller.canCommitTransaction cfg s.toServerState transactionId =
          s.canCommitTransaction (System.flat cfg fromString) transactionId := rfl
      rw [hvote]
      cases s.canCommitTransaction (System.flat cfg fromString) transactionId with
      | none => rfl
      | some result =>
          obtain ⟨granted, console⟩ := result
          cases granted <;> rfl
  | globalCommit transactionId =>
      have hdisk : (Controller.commitPendingWrites s.toServerState transactionId).sharedDirectory =
          (s.commitPendingWrites (System.flat cfg fromString) transactionId).disk := by
        unfold Stores.commitPendingWrites
        rw [disk_foldl_write hsound, applyWrites, List.foldl_map]
        rfl
      simp only [Controller.handleRequest, Controller.handleGlobalCommitMessage,
        Controller.commitTransaction, Stores.handleRequest, hdisk]
      rfl
  | _ => rfl

end DistributedFileServer
