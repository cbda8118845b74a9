import DistributedFileServer.Failures.CommittedContent
import DistributedFileServer.Programs.Simulation

/-!
# Runs with streams in text mode

The log holds contents as they were sent, the disk as the streams translate them.  As
long as the contents come back from the disk as they were written, the clients cannot tell:
the server answers as one without a translation that finds on its disk what the streams
read there, whichever SQLite calls fail.
-/

namespace DistributedFileServer

open Programs DaoCalls

namespace Streamed

variable {κ : Type}

/-- The content comes back from the disk. -/
def Faithful (mode : StreamMode) (content : Str) : Prop :=
  mode.decode (mode.encode content) = content

/-- The files as the streams read them. -/
def decodedFiles (mode : StreamMode) (files : Files κ) : Files κ :=
  { files with disk := fun file => (files.disk file).map mode.decode }

def decodedWorld (mode : StreamMode) (world : World κ) : World κ :=
  { world with files := decodedFiles mode world.files }

/-- No stream stops in the middle of a content. -/
def AllOrNothing (files : Files κ) : Prop :=
  ∀ n, files.outcome n = .notOpened ∨ files.outcome n = .complete

/-- The log holds no content that would not come back. -/
def FaithfulWrites (mode : StreamMode) (table : OperationTable) : Prop :=
  ∀ o ∈ table.rows, o.name = .write → Faithful mode (Dao.getText o.data)

variable [DecidableEq κ] {mode : StreamMode} {system : System κ}

/-! ## The functions that touch files -/

omit [DecidableEq κ] in
theorem openInput_decodedFiles (files : Files κ) (file : κ) :
    (decodedFiles mode files).openInput file = decodedFiles mode (files.openInput file) := by
  cases hdisk : files.disk file <;> simp [decodedFiles, Files.openInput, hdisk]

/-- Writing the encoded content is writing the content. -/
theorem write_decodedFiles {files : Files κ} (hfiles : AllOrNothing files) (file : κ)
    {content : Str} (hcontent : Faithful mode content) :
    decodedFiles mode (files.write file (mode.encode content)) =
      (decodedFiles mode files).write file content := by
  unfold decodedFiles Files.write
  rcases hfiles files.opened.length with hclosed | hcomplete
  · simp only [hclosed, FileOutcome.transferred]
  · simp only [hcomplete, FileOutcome.transferred]
    congr 1
    funext other
    by_cases hother : other = file
    · subst hother
      simp only [Function.update_self, Option.map_some]
      rw [hcontent]
    · simp only [Function.update_of_ne hother]

omit [DecidableEq κ] in
theorem dao_simulates {α : Type} (P : World κ → Prop) (program : DaoProgram α) :
    Simulates P (decodedWorld mode) (Serve.dao program) (Serve.dao program) :=
  Simulates.zoom (fun _ _ => rfl) fun _ _ _ => rfl

omit [DecidableEq κ] in
theorem getFileContentFromHardDrive_simulates (P : World κ → Prop) (filename : Str) :
    Simulates P (decodedWorld mode) (getFileContentFromHardDrive mode system filename)
      (Serve.getFileContentFromHardDrive system filename) := by
  refine Simulates.bind_get fun read _ => Simulates.bind_always (Simulates.modify ?_) ?_
  · intro world _
    show decodedWorld mode _ = { world with files := (decodedFiles mode world.files).openInput _ }
    rw [openInput_decodedFiles]
    rfl
  · exact fun _ => Simulates.ret _

omit [DecidableEq κ] in
theorem handleReadMessage_simulates (P : World κ → Prop) (transactionId filename : Str) :
    Simulates P (decodedWorld mode) (handleReadMessage mode system transactionId filename)
      (Serve.handleReadMessage system transactionId filename) := by
  refine Simulates.bind_always ((dao_simulates P _).bind_always fun written => ?_) fun content => ?_
  · apply Simulates.ite
    · exact fun _ => dao_simulates _ _
    · exact fun _ => getFileContentFromHardDrive_simulates _ filename
  · exact (dao_simulates _ _).bind_always fun _ => Simulates.ret _

theorem writeFiles_simulates {writes : List (Str × Str)}
    (hwrites : ∀ write ∈ writes, Faithful mode write.2) :
    Simulates (fun world => AllOrNothing world.files) (decodedWorld mode)
      (writeFiles mode system writes) (Serve.writeFiles system writes) := by
  induction writes with
  | nil => exact Simulates.ret ()
  | cons write writes ih =>
      obtain ⟨hwrite, hwrites⟩ := List.forall_mem_cons.mp hwrites
      -- a stream leaves the outcomes of the streams to come
      refine Simulates.bind (Q := fun _ world => AllOrNothing world.files)
        (E := fun _ _ => False) (Simulates.modify ?_) (Triple.modify fun _ h => h)
        fun _ => ih hwrites
      intro world hworld
      show decodedWorld mode _ = { world with files := (decodedFiles mode world.files).write _ _ }
      rw [← write_decodedFiles hworld _ hwrite]
      rfl

omit [DecidableEq κ] in
theorem FaithfulWrites.pending {table : OperationTable} (h : FaithfulWrites mode table)
    (transactionId : Str) :
    ∀ write ∈ Dao.getPendingWrites table transactionId, Faithful mode write.2 := by
  intro write hwrite
  obtain ⟨o, ho, rfl⟩ := List.mem_map.mp hwrite
  obtain ⟨hrow, hselected⟩ := List.mem_filter.mp ho
  exact h o hrow (of_decide_eq_true hselected).2

theorem handleGlobalCommitMessage_simulates (transactionId : Str) :
    Simulates
      (fun world => FaithfulWrites mode world.database.table ∧ AllOrNothing world.files)
      (decodedWorld mode) (handleGlobalCommitMessage mode system transactionId)
      (Serve.handleGlobalCommitMessage system transactionId) := by
  have hcommit : Simulates
      (fun world => FaithfulWrites mode world.database.table ∧ AllOrNothing world.files)
      (decodedWorld mode) (commitPendingWrites mode system transactionId)
      (Serve.commitPendingWrites system transactionId) := by
    rintro world ⟨hlog, hfiles⟩
    refine (dao_simulates _ _).bind (query_triple (getPendingWrites_triple transactionId)) ?_ world
      (⟨rfl, rfl⟩ : InState world.stores world.database.succeeds world)
    rintro writes after ⟨hafter, rfl⟩
    have hkept : AllOrNothing after.files := by
      have hsame : after.files = world.files := congrArg Stores.files hafter.stores
      rw [hsame]
      exact hfiles
    exact writeFiles_simulates (hlog.pending transactionId) after hkept
  refine Simulates.bind_always (hcommit.bind_always fun _ => ?_) fun _ => Simulates.ret _
  exact dao_simulates _ _

/-! ## The others -/

omit [DecidableEq κ] in
theorem handlePrepareMessage_simulates (P : World κ → Prop) (transactionId : Str) :
    Simulates P (decodedWorld mode) (Serve.handlePrepareMessage system transactionId)
      (Serve.handlePrepareMessage system transactionId) := by
  have hauto : Simulates P (decodedWorld mode) (Serve.canAutoCommitTransaction transactionId)
      (Serve.canAutoCommitTransaction transactionId) := by
    refine (dao_simulates _ _).bind_always fun _ => Simulates.ite (fun _ => Simulates.ret _) ?_
    intro _
    refine (dao_simulates _ _).bind_always fun _ => ?_
    exact Simulates.ite (fun _ => Simulates.ret _) fun _ => Simulates.ret _
  have hask : Simulates (fun _ => True) (decodedWorld mode) (@Serve.askUser κ)
      Serve.askUser := by
    refine Simulates.bind_get fun read _ => ?_
    have hconsole : (decodedWorld mode read).console = read.console := rfl
    rw [hconsole]
    cases Controller.askUser read.console with
    | none => exact Simulates.throws _
    | some answered =>
        obtain ⟨answer, console⟩ := answered
        exact Simulates.bind_always (Simulates.modify fun _ _ => rfl) fun _ => Simulates.ret answer
  refine Simulates.bind_always (hauto.bind_always fun _ => ?_) fun _ => ?_
  · exact Simulates.ite (fun _ => Simulates.ret _) fun _ => hask
  · apply Simulates.ite
    · exact fun _ => (dao_simulates _ _).bind_always fun _ => Simulates.ret _
    · exact fun _ => (dao_simulates _ _).bind_always fun _ => Simulates.ret _

/-- **One request.**  It does on the decoded files what it does on the disk. -/
theorem handleRequest_simulates (request : Request) :
    Simulates
      (fun world => FaithfulWrites mode world.database.table ∧ AllOrNothing world.files)
      (decodedWorld mode) (handleRequest mode system request)
      (Serve.handleRequest system request) := by
  cases request with
  | read transactionId filename => exact handleReadMessage_simulates _ transactionId filename
  | write transactionId filename data =>
      exact (dao_simulates _ _).bind_always fun _ => Simulates.ret _
  | prepare transactionId => exact handlePrepareMessage_simulates _ transactionId
  | globalCommit transactionId => exact handleGlobalCommitMessage_simulates transactionId
  | globalAbort transactionId =>
      exact (dao_simulates _ _).bind_always fun _ => Simulates.ret _
  | unsupported transactionId => exact Simulates.ret _

/-! ## Runs -/

omit [DecidableEq κ] in
theorem FaithfulWrites.insert {table : OperationTable} (h : FaithfulWrites mode table)
    {name : OperationName} {transactionId filename fileContent : Str}
    (hwrite : name = .write → Faithful mode (cString fileContent)) :
    FaithfulWrites mode
      (Dao.insertOperation table name transactionId filename fileContent) := by
  intro o ho hname
  rcases List.mem_append.mp ho with ho | ho
  · exact h o ho hname
  · obtain rfl := List.mem_singleton.mp ho
    show Faithful mode (cString (cString fileContent))
    rw [cString_cString]
    exact hwrite hname

omit [DecidableEq κ] in
theorem outcome_openInput (files : Files κ) (file : κ) :
    (files.openInput file).outcome = files.outcome := by
  unfold Files.openInput
  cases files.disk file <;> rfl

theorem outcome_foldl_write {locate : Str → κ} {encode : Str → Str}
    (writes : List (Str × Str)) (files : Files κ) :
    (writes.foldl (fun files write => files.write (locate write.1) (encode write.2))
      files).outcome = files.outcome := by
  induction writes generalizing files with
  | nil => rfl
  | cons write writes ih => exact ih (files.write (locate write.1) (encode write.2))

/-- No request changes what happens to the streams to come. -/
theorem outcome_step {s next : Stores κ} {request : Request} {reply : Ptree}
    (h : step mode system s request = some (reply, next)) :
    next.files.outcome = s.files.outcome := by
  cases request with
  | read transactionId filename =>
      obtain ⟨-, rfl⟩ := Prod.mk.inj (Option.some.inj h)
      show (getStoredContent mode system s transactionId filename).2.outcome = s.files.outcome
      unfold getStoredContent
      cases Dao.lastFileContentFromThisTransaction s.log transactionId filename with
      | ok fileContent => rfl
      | error exception => exact outcome_openInput s.files _
  | globalCommit transactionId =>
      obtain ⟨-, rfl⟩ := Prod.mk.inj (Option.some.inj h)
      exact outcome_foldl_write _ s.files
  | _ =>
      rw [step_eq (by simp) (by simp)] at h
      rcases Stores.files_handleRequest h with hsame | ⟨_, _, hrequest, -⟩ | ⟨_, hrequest, -⟩
      · rw [hsame]
      · cases hrequest
      · cases hrequest

/-- What a request keeps, whichever calls fail. -/
theorem keeps_faithful {world after : World κ} {request : Request}
    {result : Except Failure Ptree} (hlog : FaithfulWrites mode world.database.table)
    (hfiles : AllOrNothing world.files)
    (hrequest : ∀ transactionId filename fileContent,
      request = .write transactionId filename fileContent → Faithful mode (cString fileContent))
    (hexec : exec (handleRequest mode system request) world = (result, after)) :
    FaithfulWrites mode after.database.table ∧ AllOrNothing after.files := by
  refine exec_keeps (fun reply next hstep => ⟨?_, ?_⟩) hlog hfiles hexec
  · rcases log_step hstep with hsame | ⟨name, filename, fileContent, hlogged, hname⟩
    · rw [hsame]
      exact hlog
    · rw [hlogged]
      exact hlog.insert fun hwrite => hrequest _ filename fileContent (hname hwrite)
  · intro n
    rw [outcome_step hstep]
    exact hfiles n

/-- **Runs.**  The clients see the decoded files. -/
theorem run_decoded {world : World κ} {requests : List Request}
    (hlog : FaithfulWrites mode world.database.table) (hfiles : AllOrNothing world.files)
    (hrequests : ∀ transactionId filename fileContent,
      .write transactionId filename fileContent ∈ requests →
      Faithful mode (cString fileContent)) :
    Serve.run system (decodedWorld mode world) requests =
      ((run mode system world requests).1,
        decodedWorld mode (run mode system world requests).2) := by
  induction requests generalizing world with
  | nil => rfl
  | cons request requests ih =>
      have hfirst : exec (Serve.handleRequest system request) (decodedWorld mode world) = _ :=
        handleRequest_simulates request world ⟨hlog, hfiles⟩
      rw [Serve.run, run, hfirst]
      cases hexec : exec (handleRequest mode system request) world with
      | mk result next =>
          obtain ⟨hlog', hfiles'⟩ := keeps_faithful hlog hfiles
            (fun _ _ _ heq => hrequests _ _ _ (List.mem_cons.mpr (Or.inl heq.symm))) hexec
          have hrest := ih hlog' hfiles' fun _ _ _ hmem =>
            hrequests _ _ _ (List.mem_cons_of_mem request hmem)
          cases result with
          | ok reply => simp only [hrest]
          | error failure => cases failure <;> simp only [hrest]

/-- **Text mode is transparent.**  No content in the log or in the requests holds an
end-of-file byte, and no stream stops in the middle of a content.  Whatever the disk holds
and whichever SQLite calls fail, the clients get the answers of a server that does not
translate and finds on its disk what the streams read there, and what it leaves there is
what the streams read afterwards. -/
theorem run_text {world : World κ} {requests : List Request}
    (hfiles : AllOrNothing world.files)
    (hlog : ∀ o ∈ world.database.table.rows, o.name = .write →
      LineEnds.endOfFile ∉ Dao.getText o.data)
    (hrequests : ∀ transactionId filename fileContent,
      .write transactionId filename fileContent ∈ requests →
      LineEnds.endOfFile ∉ cString fileContent) :
    Serve.run system (decodedWorld .text world) requests =
      ((run .text system world requests).1,
        decodedWorld .text (run .text system world requests).2) := by
  apply run_decoded
  · exact fun o ho hname => (LineEnds.decode_encode_eq_self_iff _).mpr (hlog o ho hname)
  · exact hfiles
  · exact fun transactionId filename fileContent hmem =>
      (LineEnds.decode_encode_eq_self_iff _).mpr (hrequests transactionId filename _ hmem)

/-- The file `f` holds `a` and a line end; the third SQLite call fails. -/
def lineWorld : World Str where
  database :=
    { table := Dao.initDatabase, succeeds := fun n => n ≠ 2, connections := 0, calls := [] }
  files :=
    { disk := fun file => if file = text "f" then some [97, 13, 10] else none
      outcome := fun _ => .complete
      opened := [] }
  console := []

/-- The first read is not answered; `T` writes `b` and a line end, and commits. -/
theorem run_text_line :
    Serve.run (.flat ⟨true⟩ fun _ => none) (decodedWorld .text lineWorld)
        [.read (text "T") (text "f"), .write (text "T") (text "f") [98, 10],
          .globalCommit (text "T"), .read (text "U") (text "f")] =
      ((run .text (.flat ⟨true⟩ fun _ => none) lineWorld
          [.read (text "T") (text "f"), .write (text "T") (text "f") [98, 10],
            .globalCommit (text "T"), .read (text "U") (text "f")]).1,
        decodedWorld .text (run .text (.flat ⟨true⟩ fun _ => none) lineWorld
          [.read (text "T") (text "f"), .write (text "T") (text "f") [98, 10],
            .globalCommit (text "T"), .read (text "U") (text "f")]).2) ∧
      (run .text (.flat ⟨true⟩ fun _ => none) lineWorld
        [.read (text "T") (text "f"), .write (text "T") (text "f") [98, 10],
          .globalCommit (text "T")]).2.files.disk (text "f") = some [98, 13, 10] := by
  refine ⟨run_text ?_ ?_ ?_, rfl⟩
  · exact fun _ => Or.inr rfl
  · intro o ho
    cases ho
  · intro transactionId filename fileContent hmem
    obtain ⟨-, -, rfl⟩ : transactionId = text "T" ∧ filename = text "f" ∧
        fileContent = [98, 10] := by
      simpa using hmem
    decide

end Streamed

end DistributedFileServer
