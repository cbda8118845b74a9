import DistributedFileServer.Failures.DaoSpecs
import DistributedFileServer.Failures.Reliable
import DistributedFileServer.Model.TextStreams

/-!
# What a request does when calls fail

A request whose calls are all answered does what `Stores.handleRequest` says.  A
request that stops on the way has left the log and the files as they were, with
two exceptions: its row may be logged already, and a global commit may have
written its files.  Where the streams translate, the same holds for what a request
does with them, and without a translation that is `Stores.handleRequest`.
-/

namespace DistributedFileServer

open Programs DeferredUpdate DaoCalls

variable {κ : Type} [DecidableEq κ]

/-- The world holds the stores, and the outcomes of the SQLite calls are these. -/
structure InState (s : Stores κ) (succeeds : Nat → Bool) (world : World κ) : Prop where
  stores : world.stores = s
  succeeds : world.database.succeeds = succeeds

omit [DecidableEq κ] in
theorem InState.at {s : Stores κ} {succeeds : Nat → Bool} {world : World κ}
    (h : InState s succeeds world) : At s.log succeeds world.database := by
  rw [← h.stores]
  exact ⟨rfl, h.succeeds⟩

/-- What a request has left when it stopped before its reply. -/
def Stopped (system : System κ) (s : Stores κ) (request : Request) (failure : Failure)
    (world : World κ) : Prop :=
  (world.database.table = s.log ∧ world.files = s.files) ∨
    ∃ reply next thrown, s.handleRequest system request = some (reply, next) ∧
      failure = .sqlite thrown ∧ world.files = next.files ∧
      (world.database.table = s.log ∨ (world.database.table = next.log ∧ thrown.Closing))

/-- The request was answered as if no call could fail. -/
def Done (system : System κ) (s : Stores κ) (request : Request) (succeeds : Nat → Bool)
    (reply : Ptree) (world : World κ) : Prop :=
  ∃ next, s.handleRequest system request = some (reply, next) ∧ InState next succeeds world

/-- The request stopped, because some call fails or because it hangs. -/
def Halted (system : System κ) (s : Stores κ) (request : Request) (succeeds : Nat → Bool)
    (failure : Failure) (world : World κ) : Prop :=
  (Fails succeeds ∨ (failure = .hangs ∧ s.handleRequest system request = none)) ∧
    Stopped system s request failure world

/-! ## Streams that translate -/

namespace Streamed

/-- The content for a read, and the files after looking for it. -/
def getStoredContent (mode : StreamMode) (system : System κ) (s : Stores κ)
    (transactionId filename : Str) : Str × Files κ :=
  match Dao.lastFileContentFromThisTransaction s.log transactionId filename with
  | .ok fileContent => (fileContent, s.files)
  | .error _ =>
      (contentOf mode s.files (system.locate filename),
        s.files.openInput (system.locate filename))

/-- The files after the loop over the pending writes. -/
def committedFiles (mode : StreamMode) (system : System κ) (s : Stores κ)
    (transactionId : Str) : Files κ :=
  (Dao.getPendingWrites s.log transactionId).foldl
    (fun files write => files.write (system.locate write.1) (mode.encode write.2)) s.files

/-- The reply and what a request leaves when no SQLite call fails. -/
def step (mode : StreamMode) (system : System κ) (s : Stores κ) :
    Request → Option (Ptree × Stores κ)
  | .read transactionId filename =>
      let (fileContent, files) := getStoredContent mode system s transactionId filename
      some (makeReadResponseMessage transactionId filename fileContent,
        { s with files := files }.insert .read transactionId filename fileContent)
  | .globalCommit transactionId =>
      some (makeVoteCommitMessage transactionId,
        { s with files := committedFiles mode system s transactionId }.insert
          .globalCommit transactionId [] [])
  | request => s.handleRequest system request

theorem step_binary (system : System κ) (s : Stores κ) (request : Request) :
    step .binary system s request = s.handleRequest system request := by
  cases request with
  | read transactionId filename =>
      have hcontent : getStoredContent .binary system s transactionId filename =
          s.getFileContent system transactionId filename := by
        unfold getStoredContent Stores.getFileContent
        cases Dao.lastFileContentFromThisTransaction s.log transactionId filename with
        | ok fileContent => simp only
        | error exception => simp only [contentOf_binary]
      simp only [step, Stores.handleRequest, hcontent]
  | _ => rfl

/-- What a request has left when it stopped before the reply of this step. -/
def Stopped (s : Stores κ) (step : Option (Ptree × Stores κ)) (failure : Failure)
    (world : World κ) : Prop :=
  (world.database.table = s.log ∧ world.files = s.files) ∨
    ∃ reply next thrown, step = some (reply, next) ∧
      failure = .sqlite thrown ∧ world.files = next.files ∧
      (world.database.table = s.log ∨ (world.database.table = next.log ∧ thrown.Closing))

/-- The step was taken. -/
def Done (step : Option (Ptree × Stores κ)) (succeeds : Nat → Bool) (reply : Ptree)
    (world : World κ) : Prop :=
  ∃ next, step = some (reply, next) ∧ InState next succeeds world

/-- The step was not finished, because some call fails or because there is none. -/
def Halted (s : Stores κ) (step : Option (Ptree × Stores κ)) (succeeds : Nat → Bool)
    (failure : Failure) (world : World κ) : Prop :=
  (Fails succeeds ∨ (failure = .hangs ∧ step = none)) ∧ Stopped s step failure world

end Streamed

section Specs

variable {system : System κ} {s : Stores κ} {step : Option (Ptree × Stores κ)}
  {succeeds : Nat → Bool}

omit [DecidableEq κ] in
/-- A request that stops because a call fails while nothing is changed yet. -/
theorem halted_of_inState {failure : Failure} {world : World κ} (hfails : Fails succeeds)
    (h : InState s succeeds world) : Streamed.Halted s step succeeds failure world := by
  refine ⟨Or.inl hfails, Or.inl ?_⟩
  rw [← h.stores]
  exact ⟨rfl, rfl⟩

omit [DecidableEq κ] in
/-- A statement that selects. -/
theorem query_triple {α : Type} {program : DaoProgram α} {value : α}
    (h : Triple (At s.log succeeds) program
      (fun result database => At s.log succeeds database ∧ result = value)
      (Untouched s.log succeeds)) :
    Triple (InState s succeeds) (Serve.dao program)
      (fun result world => InState s succeeds world ∧ result = value)
      fun _ world => Fails succeeds ∧ InState s succeeds world := by
  have hkept : ∀ (world : World κ) (database : Database), InState s succeeds world →
      At s.log succeeds database → InState s succeeds { world with database := database } := by
    intro world database hworld hdatabase
    refine ⟨?_, hdatabase.succeeds⟩
    rw [← hworld.stores, World.stores, World.stores, hdatabase.table, ← hworld.stores]
    rfl
  apply Triple.zoom h
  · exact fun _ hworld => hworld.at
  · exact fun world _ database hworld h => ⟨hkept world database hworld h.1, h.2⟩
  · exact fun world _ database hworld h => ⟨h.2, hkept world database hworld h.1⟩

omit [DecidableEq κ] in
/-- The end of a handler: log a row and answer.  Up to there nothing may have
changed the log. -/
theorem logged_triple {s' : Stores κ} {name : OperationName}
    {transactionId filename fileContent : Str} {reply : Ptree}
    (hrequest : step = some (reply, s'.insert name transactionId filename fileContent))
    (hlog : s'.log = s.log) :
    Triple (InState s' succeeds)
      (Serve.dao (insertOperation name transactionId filename fileContent) >>=
        fun _ => pure reply)
      (Streamed.Done step succeeds) (Streamed.Halted s step succeeds) := by
  refine Triple.bind (Q := fun _ =>
    InState (s'.insert name transactionId filename fileContent) succeeds) ?_ ?_
  · apply Triple.zoom (insertOperation_triple name transactionId filename fileContent)
    · exact fun _ hworld => hworld.at
    · intro world _ database hworld hdatabase
      refine ⟨?_, hdatabase.succeeds⟩
      rw [World.stores, hdatabase.table, ← hworld.stores]
      rfl
    · rintro world thrown database hworld ⟨hfails, hdatabase⟩
      have hfiles : world.files = s'.files := by
        rw [← hworld.stores]
        rfl
      refine ⟨Or.inl hfails, Or.inr ⟨reply, _, thrown, hrequest, rfl, hfiles, ?_⟩⟩
      rcases hdatabase with hmissing | ⟨hthere, hclosing⟩
      · exact Or.inl (hmissing.table.trans hlog)
      · exact Or.inr ⟨hthere.table, hclosing⟩
  · intro _
    exact Triple.ret reply fun _ hworld => ⟨_, hrequest, hworld⟩

/-! ## The handlers -/

omit [DecidableEq κ] in
/-- The count and the last row agree on whether the transaction wrote the file. -/
theorem getFileContent_triple (mode : StreamMode) (system : System κ)
    (transactionId filename : Str) :
    Triple (InState s succeeds) (Streamed.getFileContent mode system transactionId filename)
      (fun result world =>
        InState
          { s with files := (Streamed.getStoredContent mode system s transactionId filename).2 }
          succeeds world ∧
        result = (Streamed.getStoredContent mode system s transactionId filename).1)
      fun _ world => Fails succeeds ∧ InState s succeeds world := by
  refine (query_triple (selectCount_triple 3 _)).bind fun written => ?_
  apply Triple.assume
  rintro rfl
  have hlast := lastFileContentFromThisTransaction_eq s.log transactionId filename
  have hwritten := fileWasWrittenInThisTransaction_iff s.log transactionId filename
  apply Triple.ite
  · intro hyes
    obtain ⟨content, hcontent⟩ := Option.ne_none_iff_exists'.mp (hwritten.mp hyes)
    rw [hcontent] at hlast
    have hvalue : Streamed.getStoredContent mode system s transactionId filename =
        (content, s.files) := by
      rw [Streamed.getStoredContent, hlast]
    rw [hvalue]
    exact query_triple (lastFileContentFromThisTransaction_triple hlast)
  · intro hno
    have hnone : lastValue (writesOf s.log.history (cString transactionId))
        (cString filename) = none := by
      by_contra hsome
      exact hno (hwritten.mpr hsome)
    rw [hnone] at hlast
    have hvalue : Streamed.getStoredContent mode system s transactionId filename =
        (Streamed.contentOf mode s.files (system.locate filename),
          s.files.openInput (system.locate filename)) := by
      rw [Streamed.getStoredContent, hlast]
    rw [hvalue]
    intro world hworld
    show InState _ succeeds _ ∧ _
    refine ⟨⟨?_, hworld.succeeds⟩, ?_⟩
    · rw [← hworld.stores]
      rfl
    · rw [← hworld.stores]
      rfl

theorem handleReadMessage_triple (mode : StreamMode) (system : System κ)
    (transactionId filename : Str) :
    Triple (InState s succeeds) (Streamed.handleReadMessage mode system transactionId filename)
      (Streamed.Done (Streamed.step mode system s (.read transactionId filename)) succeeds)
      (Streamed.Halted s (Streamed.step mode system s (.read transactionId filename))
        succeeds) := by
  refine Triple.bind ((getFileContent_triple mode system transactionId filename).mono_error
    fun _ _ h => halted_of_inState h.1 h.2) ?_
  intro content
  apply Triple.assume
  rintro rfl
  apply logged_triple
  · rfl
  · rfl

omit [DecidableEq κ] in
theorem canAutoCommitTransaction_triple (transactionId : Str) :
    Triple (InState s succeeds) (Serve.canAutoCommitTransaction transactionId)
      (fun result world => InState s succeeds world ∧
        result = Controller.canAutoCommitTransaction s.log transactionId)
      fun _ world => Fails succeeds ∧ InState s succeeds world := by
  refine (query_triple (selectCount_triple 3 _)).bind fun written => ?_
  apply Triple.assume
  intro hwrite
  apply Triple.ite
  · intro hyes
    refine Triple.ret _ fun _ h => ⟨h, ?_⟩
    rw [Controller.canAutoCommitTransaction, ← hwrite, if_pos hyes]
  · intro hno
    refine (query_triple (selectCount_triple 3 _)).bind fun read => ?_
    apply Triple.assume
    intro hread
    apply Triple.ite
    · intro hyes
      refine Triple.ret _ fun _ h => ⟨h, ?_⟩
      rw [Controller.canAutoCommitTransaction, ← hwrite, ← hread, if_neg hno, if_pos hyes]
    · intro hno'
      refine Triple.ret _ fun _ h => ⟨h, ?_⟩
      rw [Controller.canAutoCommitTransaction, ← hwrite, ← hread, if_neg hno, if_neg hno']

omit [DecidableEq κ] in
/-- The vote; a vote that is never given leaves everything as it was. -/
theorem canCommitTransaction_triple (system : System κ) (transactionId : Str) :
    Triple (InState s succeeds) (Serve.canCommitTransaction system transactionId)
      (fun result world => ∃ console,
        s.canCommitTransaction system transactionId = some (result, console) ∧
          InState { s with console := console } succeeds world)
      fun failure world => InState s succeeds world ∧
        (Fails succeeds ∨
          (failure = .hangs ∧ s.canCommitTransaction system transactionId = none)) := by
  refine Triple.bind ((canAutoCommitTransaction_triple transactionId).mono_error
    fun _ _ h => ⟨h.2, Or.inl h.1⟩) ?_
  intro canAutoCommit
  apply Triple.assume
  rintro rfl
  apply Triple.ite
  · intro hauto
    refine Triple.ret _ fun world hworld => ⟨s.console, ?_, hworld⟩
    rw [Stores.canCommitTransaction, if_pos hauto]
  · intro hmanual
    have hvote : s.canCommitTransaction system transactionId = Controller.askUser s.console := by
      rw [Stores.canCommitTransaction, if_neg hmanual]
    rw [hvote]
    have hread : ∀ world : World κ, InState s succeeds world → world.console = s.console := by
      intro world hworld
      rw [← hworld.stores]
      rfl
    refine Triple.bind_get hread ?_
    intro read hconsole
    simp only [hconsole]
    cases hanswer : Controller.askUser s.console with
    | none => exact Triple.throws _ fun _ h => ⟨h, Or.inr ⟨rfl, rfl⟩⟩
    | some answered =>
        obtain ⟨answer, console⟩ := answered
        intro world hworld
        refine ⟨console, rfl, ⟨?_, hworld.succeeds⟩⟩
        rw [← hworld.stores]
        rfl

theorem handlePrepareMessage_triple (system : System κ) (transactionId : Str) :
    Triple (InState s succeeds) (Serve.handlePrepareMessage system transactionId)
      (Streamed.Done (s.handleRequest system (.prepare transactionId)) succeeds)
      (Streamed.Halted s (s.handleRequest system (.prepare transactionId)) succeeds) := by
  refine Triple.bind ((canCommitTransaction_triple system transactionId).mono_error ?_) ?_
  · rintro failure world ⟨hworld, hfails | ⟨rfl, hnone⟩⟩
    · exact halted_of_inState hfails hworld
    · refine ⟨Or.inr ⟨rfl, ?_⟩, Or.inl ?_⟩
      · rw [Stores.handleRequest, hnone]
      · rw [← hworld.stores]
        exact ⟨rfl, rfl⟩
  · rintro granted world ⟨console, hvote, hworld⟩
    refine Triple.ite (P := InState { s with console := console } succeeds) ?_ ?_ world hworld
    · rintro rfl
      apply logged_triple
      · rw [Stores.handleRequest, hvote]
      · rfl
    · intro hrefused
      obtain rfl : granted = false := by simpa using hrefused
      apply logged_triple
      · rw [Stores.handleRequest, hvote]
      · rfl

/-- The loop writes all files, and cannot throw. -/
theorem writeFiles_triple (mode : StreamMode) (system : System κ) (writes : List (Str × Str)) :
    Triple (InState s succeeds) (Streamed.writeFiles mode system writes)
      (fun _ => InState
        { s with
          files := writes.foldl
            (fun files write => files.write (system.locate write.1) (mode.encode write.2))
            s.files } succeeds)
      fun _ _ => False := by
  induction writes generalizing s with
  | nil => exact Triple.ret () fun _ h => h
  | cons write writes ih =>
      refine Triple.bind (Triple.modify (Q := fun _ => InState
        { s with files := s.files.write (system.locate write.1) (mode.encode write.2) }
          succeeds) ?_)
        fun _ => ih
      intro world hworld
      refine ⟨?_, hworld.succeeds⟩
      rw [← hworld.stores]
      rfl

theorem handleGlobalCommitMessage_triple (mode : StreamMode) (system : System κ)
    (transactionId : Str) :
    Triple (InState s succeeds) (Streamed.handleGlobalCommitMessage mode system transactionId)
      (Streamed.Done (Streamed.step mode system s (.globalCommit transactionId)) succeeds)
      (Streamed.Halted s (Streamed.step mode system s (.globalCommit transactionId))
        succeeds) := by
  have hprogram : Streamed.handleGlobalCommitMessage mode system transactionId =
      Serve.dao (getPendingWrites transactionId) >>= fun pendingWrites =>
        Streamed.writeFiles mode system pendingWrites >>= fun _ =>
          Serve.dao (insertOperation .globalCommit transactionId [] []) >>= fun _ =>
            pure (makeVoteCommitMessage transactionId) := by
    simp only [Streamed.handleGlobalCommitMessage, Streamed.commitTransaction,
      Streamed.commitPendingWrites, insertTransactionOperation, bind_assoc]
  rw [hprogram]
  refine Triple.bind ((query_triple (getPendingWrites_triple transactionId)).mono_error
    fun _ _ h => halted_of_inState h.1 h.2) ?_
  intro pendingWrites
  apply Triple.assume
  rintro rfl
  refine Triple.bind ((writeFiles_triple mode system _).mono_error fun _ _ h => h.elim) ?_
  intro _
  apply logged_triple
  · rfl
  · rfl

/-- **One request.** -/
theorem Streamed.handleRequest_triple (mode : StreamMode) (system : System κ)
    (request : Request) :
    Triple (InState s succeeds) (Streamed.handleRequest mode system request)
      (Streamed.Done (Streamed.step mode system s request) succeeds)
      (Streamed.Halted s (Streamed.step mode system s request) succeeds) := by
  cases request with
  | read transactionId filename =>
      exact handleReadMessage_triple mode system transactionId filename
  | write transactionId filename data =>
      apply logged_triple
      · rfl
      · rfl
  | prepare transactionId => exact handlePrepareMessage_triple system transactionId
  | globalCommit transactionId => exact handleGlobalCommitMessage_triple mode system transactionId
  | globalAbort transactionId =>
      apply logged_triple
      · rfl
      · rfl
  | unsupported transactionId => exact Triple.ret _ fun _ hworld => ⟨_, rfl, hworld⟩

/-- **One request**, without a translation. -/
theorem handleRequest_triple (system : System κ) (request : Request) :
    Triple (InState s succeeds) (Serve.handleRequest system request)
      (Done system s request succeeds) (Halted system s request succeeds) := by
  have htriple : Triple (InState s succeeds) _ _ _ :=
    Streamed.handleRequest_triple .binary system request
  rw [Streamed.handleRequest_binary, Streamed.step_binary] at htriple
  exact htriple

end Specs

namespace Streamed

variable {mode : StreamMode} {system : System κ} {request : Request} {world after : World κ}

/-- An answered request did what it does when no call fails. -/
theorem step_of_ok {reply : Ptree}
    (hexec : exec (handleRequest mode system request) world = (.ok reply, after)) :
    step mode system world.stores request = some (reply, after.stores) := by
  have htriple : Triple (InState world.stores world.database.succeeds) _ _ _ :=
    handleRequest_triple mode system request
  obtain ⟨next, hnext, hafter⟩ := htriple.of_ok ⟨rfl, rfl⟩ hexec
  rw [hafter.stores]
  exact hnext

/-- **Invariants.**  What is kept where no call fails, for the log and for the files,
is kept where some fail, too. -/
theorem exec_keeps {P : OperationTable → Prop} {Q : Files κ → Prop}
    {result : Except Failure Ptree}
    (hstep : ∀ reply next, step mode system world.stores request = some (reply, next) →
      P next.log ∧ Q next.files)
    (hlog : P world.database.table) (hfiles : Q world.files)
    (hexec : exec (handleRequest mode system request) world = (result, after)) :
    P after.database.table ∧ Q after.files := by
  cases result with
  | ok reply => exact hstep reply after.stores (step_of_ok hexec)
  | error failure =>
      have htriple : Triple (InState world.stores world.database.succeeds) _ _ _ :=
        handleRequest_triple mode system request
      obtain ⟨-, ⟨hlogged, hwritten⟩ | ⟨reply, next, thrown, hnext, -, hwritten, hlogged⟩⟩ :=
        htriple.of_error ⟨rfl, rfl⟩ hexec
      · rw [hlogged, hwritten]
        exact ⟨hlog, hfiles⟩
      · rw [hwritten]
        refine ⟨?_, (hstep reply next hnext).2⟩
        rcases hlogged with hlogged | ⟨hlogged, -⟩
        · rw [hlogged]
          exact hlog
        · rw [hlogged]
          exact (hstep reply next hnext).1

/-- Where no call fails, a request is answered as if it could not. -/
theorem exec_of_succeeds {reply : Ptree} {next : Stores κ}
    (hsucceeds : world.database.succeeds = fun _ => true)
    (h : step mode system world.stores request = some (reply, next)) :
    ∃ after, exec (handleRequest mode system request) world = (.ok reply, after) ∧
      after.stores = next ∧ after.database.succeeds = fun _ => true := by
  have htriple : Triple (InState world.stores fun _ => true) _ _ _ :=
    handleRequest_triple mode system request
  have hpost := htriple world ⟨rfl, hsucceeds⟩
  cases hexec : exec (handleRequest mode system request) world with
  | mk result after =>
      rw [hexec] at hpost
      cases result with
      | ok reply' =>
          obtain ⟨next', hnext', hafter⟩ := hpost
          obtain ⟨rfl, rfl⟩ : reply = reply' ∧ next = next' := by
            simpa [h] using hnext'
          exact ⟨after, rfl, hafter.stores, hafter.succeeds⟩
      | error failure =>
          obtain ⟨⟨n, hn⟩ | ⟨-, hnone⟩, -⟩ := hpost
          · cases hn
          · rw [h] at hnone
            cases hnone

end Streamed

/-- An answered request did what it does when no call fails. -/
theorem handleRequest_of_ok {system : System κ} {request : Request} {world after : World κ}
    {reply : Ptree} (hexec : exec (Serve.handleRequest system request) world = (.ok reply, after)) :
    world.stores.handleRequest system request = some (reply, after.stores) := by
  rw [← Streamed.handleRequest_binary] at hexec
  rw [← Streamed.step_binary]
  exact Streamed.step_of_ok hexec

theorem halted_of_error {system : System κ} {request : Request} {world after : World κ}
    {failure : Failure}
    (hexec : exec (Serve.handleRequest system request) world = (.error failure, after)) :
    Halted system world.stores request world.database.succeeds failure after := by
  have htriple : Triple (InState world.stores world.database.succeeds) _ _ _ :=
    handleRequest_triple system request
  exact htriple.of_error ⟨rfl, rfl⟩ hexec

/-- **Invariants**, without a translation. -/
theorem exec_keeps {system : System κ} {P : OperationTable → Prop} {Q : Files κ → Prop}
    {request : Request} {world after : World κ} {result : Except Failure Ptree}
    (hstep : ∀ reply next, world.stores.handleRequest system request = some (reply, next) →
      P next.log ∧ Q next.files)
    (hlog : P world.database.table) (hfiles : Q world.files)
    (hexec : exec (Serve.handleRequest system request) world = (result, after)) :
    P after.database.table ∧ Q after.files := by
  rw [← Streamed.handleRequest_binary] at hexec
  rw [← Streamed.step_binary] at hstep
  exact Streamed.exec_keeps hstep hlog hfiles hexec

/-- Where no call fails, a request is answered as if it could not. -/
theorem exec_of_succeeds {system : System κ} {world : World κ} {request : Request} {reply : Ptree}
    {next : Stores κ} (hsucceeds : world.database.succeeds = fun _ => true)
    (h : world.stores.handleRequest system request = some (reply, next)) :
    ∃ after, exec (Serve.handleRequest system request) world = (.ok reply, after) ∧
      after.stores = next ∧ after.database.succeeds = fun _ => true := by
  rw [← Streamed.step_binary] at h
  rw [← Streamed.handleRequest_binary]
  exact Streamed.exec_of_succeeds hsucceeds h

end DistributedFileServer
