import DistributedFileServer.Failures.Releases
import DistributedFileServer.Failures.Retries

/-!
# Handles left open

A function of `dao.cpp` that returns has closed the handle it opened.  One that throws
has not, and nothing ever closes the handle afterwards.  So the number of handles that a
running server holds is the number of requests in which SQLite has failed.
-/

namespace DistributedFileServer

open Programs

/-- The handles that were handed out and not closed. -/
def Database.openHandles (database : Database) : List Nat :=
  (List.range database.connections).filter fun db =>
    ∀ made ∈ database.calls, made ≠ (.close db, true)

/-- All calls so far were made on handles that were handed out. -/
def Database.Numbered (database : Database) : Prop :=
  ∀ made ∈ database.calls, made.1.connection < database.connections

/-! ## One function -/

namespace DaoCalls

/-- The function has made its calls on the handle that it has opened.  It has closed the
handle with the last call, or not at all. -/
structure Opened (start : Database) (closed : Bool) (database : Database) : Prop where
  connections : database.connections = start.connections + 1
  calls : ∃ made, database.calls = start.calls ++ made ∧
    (∀ call ∈ made, call.1.connection = start.connections) ∧
    ((Call.close start.connections, true) ∈ made ↔ closed = true)

section Handles

variable {start : Database}

theorem Opened.record {closed : Bool} {database : Database} (h : Opened start false database)
    {call : Call} (hconnection : call.connection = start.connections)
    (hclosed : (Call.close start.connections, true) =
      (call, database.succeeds database.calls.length) ↔ closed = true) :
    Opened start closed (database.record call) := by
  obtain ⟨made, hcalls, hmade, hopen⟩ := h.calls
  refine ⟨h.connections, made ++ [(call, database.succeeds database.calls.length)], ?_, ?_, ?_⟩
  · show database.calls ++ _ = _
    rw [hcalls, List.append_assoc]
  · rw [List.forall_mem_append, List.forall_mem_singleton]
    exact ⟨hmade, hconnection⟩
  · rw [List.mem_append, List.mem_singleton, hopen, hclosed]
    simp

/-- A call that closes nothing. -/
theorem invoke_opened {call : Call} (hconnection : call.connection = start.connections)
    (hcall : call ≠ .close start.connections) {E : SqlException → Database → Prop} :
    Triple (Opened start false) (invoke call) (fun _ => Opened start false) E := by
  intro database h
  refine h.record hconnection ?_
  simp only [Prod.mk.injEq, Bool.false_eq_true, iff_false, not_and]
  exact fun hclose => absurd hclose.symm hcall

theorem check_opened {call : Call} (hconnection : call.connection = start.connections)
    (hcall : call ≠ .close start.connections) (exception : SqlException) :
    Triple (Opened start false) (check call start.connections exception)
      (fun _ => Opened start false) fun _ => Opened start false := by
  refine Triple.bind (invoke_opened hconnection hcall) fun success => ?_
  apply Triple.ite
  · exact fun _ => Triple.ret () fun _ h => h
  · intro _
    refine Triple.bind (invoke_opened rfl (by simp)) fun _ => ?_
    exact Triple.throws exception fun _ h => h

/-- The handle is there even if it could not be opened. -/
theorem openDatabase_opened :
    Triple (fun database => database = start) openDatabase
      (fun db database => Opened start false database ∧ db = start.connections)
      fun _ => Opened start false := by
  intro database hdatabase
  subst hdatabase
  have hopened : Opened database false { database with connections := database.connections + 1 } :=
    ⟨rfl, [], (List.append_nil database.calls).symm, by simp⟩
  have hcheck : Triple (Opened database false)
      (check (.open database.connections) database.connections .openDatabase)
      (fun _ => Opened database false) fun _ => Opened database false :=
    check_opened rfl (by simp) .openDatabase
  exact hcheck.bind (fun _ => Triple.ret database.connections fun _ h => ⟨h, rfl⟩) _ hopened

theorem closeDatabase_opened :
    Triple (Opened start false) (closeDatabase start.connections)
      (fun _ => Opened start true) fun _ => Opened start false := by
  have hinvoke : Triple (Opened start false) (invoke (.close start.connections))
      (fun success => Opened start success) fun _ => Opened start false := by
    intro database h
    refine h.record rfl ?_
    rw [Prod.mk.injEq, eq_comm (a := true)]
    exact and_iff_right rfl
  refine Triple.bind hinvoke fun success => ?_
  apply Triple.ite
  · rintro rfl
    exact Triple.ret () fun _ h => h
  · intro hfailed
    obtain rfl := Bool.eq_false_iff.mpr hfailed
    refine Triple.bind (invoke_opened rfl (by simp)) fun _ => ?_
    exact Triple.throws SqlException.closeDatabase fun _ h => h

theorem closeStatement_opened :
    Triple (Opened start false) (closeStatement start.connections)
      (fun _ => Opened start true) fun _ => Opened start false :=
  Triple.bind (check_opened rfl (by simp) .closeStatement) fun _ => closeDatabase_opened

theorem bindTextParams_opened (count : Nat) :
    Triple (Opened start false) (bindTextParams start.connections count)
      (fun _ => Opened start false) fun _ => Opened start false := by
  induction count with
  | zero => exact Triple.ret () fun _ h => h
  | succ count ih => exact Triple.bind ih fun _ => check_opened rfl (by simp) .bindTextParam

/-- **A statement.**  What is left is to work with it and to close it. -/
theorem statement_opened {α : Type} (params : Nat) {next : Nat → DaoProgram α}
    (hnext : Triple (Opened start false) (next start.connections)
      (fun _ => Opened start true) fun _ => Opened start false) :
    Triple (fun database => database = start)
      (prepareStatement >>= fun db => bindTextParams db params >>= fun _ => next db)
      (fun _ => Opened start true) fun _ => Opened start false := by
  have hprepare : Triple (fun database => database = start) prepareStatement
      (fun db database => Opened start false database ∧ db = start.connections)
      fun _ => Opened start false := by
    refine Triple.bind openDatabase_opened fun db => ?_
    apply Triple.assume
    rintro rfl
    refine Triple.bind (check_opened rfl (by simp) .prepareStatement) fun _ => ?_
    exact Triple.ret start.connections fun _ h => ⟨h, rfl⟩
  refine Triple.bind hprepare fun db => ?_
  apply Triple.assume
  rintro rfl
  exact Triple.bind (bindTextParams_opened params) fun _ => hnext

theorem insertOperation_opened (name : OperationName)
    (transactionId filename fileContent : Str) :
    Triple (fun database => database = start)
      (insertOperation name transactionId filename fileContent)
      (fun _ => Opened start true) fun _ => Opened start false := by
  apply statement_opened
  refine Triple.bind (check_opened rfl (by simp) .insert) fun _ => ?_
  refine Triple.bind (Triple.modify (Q := fun _ => Opened start false) ?_) fun _ => ?_
  · exact fun database h => ⟨h.connections, h.calls⟩
  · exact closeStatement_opened

/-- The one row has been delivered. -/
theorem selectOne_opened {α : Type} (value : α) (exception : SqlException) :
    Triple (Opened start false)
      (invoke (.column start.connections 0) >>= fun _ =>
        check (.step start.connections) start.connections exception >>= fun _ =>
          closeStatement start.connections >>= fun _ => pure value)
      (fun _ => Opened start true) fun _ => Opened start false := by
  refine Triple.bind (invoke_opened rfl (by simp)) fun _ => ?_
  refine Triple.bind (check_opened rfl (by simp) exception) fun _ => ?_
  refine Triple.bind closeStatement_opened fun _ => ?_
  exact Triple.ret value fun _ h => h

theorem selectCount_opened (params : Nat) (positive : OperationTable → Bool) :
    Triple (fun database => database = start) (selectCount params positive)
      (fun _ => Opened start true) fun _ => Opened start false := by
  apply statement_opened
  refine Triple.bind (check_opened rfl (by simp) .selectCount) fun _ => ?_
  refine Triple.bind (Triple.get fun _ h => h) fun database => ?_
  exact selectOne_opened (positive database.table) .selectCountNotDone

theorem lastFileContentFromThisTransaction_opened (transactionId filename : Str) :
    Triple (fun database => database = start)
      (lastFileContentFromThisTransaction transactionId filename)
      (fun _ => Opened start true) fun _ => Opened start false := by
  apply statement_opened
  refine Triple.bind (check_opened rfl (by simp) .select) fun _ => ?_
  refine Triple.bind (Triple.get fun _ h => h) fun database => ?_
  cases Dao.lastFileContentFromThisTransaction database.table transactionId filename with
  | error exception =>
      refine Triple.bind (invoke_opened rfl (by simp)) fun _ => ?_
      exact Triple.throws SqlException.select fun _ h => h
  | ok fileContent => exact selectOne_opened fileContent .selectNotDone

/-- **The loop over the rows**, by induction on the rows left. -/
theorem fetchWrites_opened (rows : List (Str × Str)) :
    Triple (Opened start false) (fetchWrites start.connections rows)
      (fun _ => Opened start false) fun _ => Opened start false := by
  induction rows with
  | nil =>
      refine Triple.bind (check_opened rfl (by simp) .selectNotDone) fun _ => ?_
      exact Triple.ret _ fun _ h => h
  | cons row rows ih =>
      refine Triple.bind (check_opened rfl (by simp) .selectNotDone) fun _ => ?_
      refine Triple.bind (invoke_opened rfl (by simp)) fun _ => ?_
      refine Triple.bind (invoke_opened rfl (by simp)) fun _ => ?_
      refine Triple.bind ih fun _ => ?_
      exact Triple.ret _ fun _ h => h

theorem getPendingWrites_opened (transactionId : Str) :
    Triple (fun database => database = start) (getPendingWrites transactionId)
      (fun _ => Opened start true) fun _ => Opened start false := by
  apply statement_opened
  refine Triple.bind (Triple.get fun _ h => h) fun database => ?_
  refine Triple.bind (fetchWrites_opened _) fun _ => ?_
  refine Triple.bind closeStatement_opened fun _ => ?_
  exact Triple.ret _ fun _ h => h

end Handles

/-! ## The handles afterwards -/

section Counting

variable {start database : Database} {closed : Bool}

theorem Opened.numbered (h : Opened start closed database) (hnumbered : start.Numbered) :
    database.Numbered := by
  obtain ⟨made, hcalls, hmade, -⟩ := h.calls
  unfold Database.Numbered
  rw [hcalls, h.connections, List.forall_mem_append]
  constructor
  · intro call hcall
    exact Nat.lt_succ_of_lt (hnumbered call hcall)
  · intro call hcall
    rw [hmade call hcall]
    exact Nat.lt_succ_self start.connections

/-- A function adds its own handle if it has not closed it, and leaves the others alone. -/
theorem Opened.openHandles (h : Opened start closed database) (hnumbered : start.Numbered) :
    database.openHandles =
      start.openHandles ++ (if closed then [] else [start.connections]) := by
  obtain ⟨made, hcalls, hmade, hclosed⟩ := h.calls
  -- the calls of the function are all made on its own handle
  have hothers : ∀ db ∈ List.range start.connections,
      ((∀ made ∈ database.calls, made ≠ (Call.close db, true)) ↔
        ∀ made ∈ start.calls, made ≠ (Call.close db, true)) := by
    intro db hdb
    rw [List.forall_mem_ne', List.forall_mem_ne']
    have hmissing : (Call.close db, true) ∉ made := by
      intro hmem
      have hconnection : db = start.connections := hmade _ hmem
      exact absurd (List.mem_range.mp hdb) (by omega)
    rw [hcalls, List.mem_append, or_iff_left hmissing]
  -- and no earlier call was made on that one
  have hown : (∀ made ∈ database.calls, made ≠ (Call.close start.connections, true)) ↔
      closed = false := by
    have hfresh : (Call.close start.connections, true) ∉ start.calls := by
      intro hmem
      exact absurd (hnumbered _ hmem) (Nat.lt_irrefl start.connections)
    rw [List.forall_mem_ne', hcalls, List.mem_append, or_iff_right hfresh, hclosed,
      Bool.not_eq_true]
  unfold Database.openHandles
  rw [h.connections, List.range_succ, List.filter_append]
  congr 1
  · apply List.filter_congr
    intro db hdb
    exact decide_eq_decide.mpr (hothers db hdb)
  · rw [List.filter_singleton]
    cases closed with
    | false =>
        rw [decide_eq_true (hown.mpr rfl)]
        rfl
    | true =>
        rw [decide_eq_false fun hmissing => Bool.noConfusion (hown.mp hmissing)]
        rfl

end Counting

/-- The server holds this many handles. -/
def Holds (n : Nat) (database : Database) : Prop :=
  database.Numbered ∧ database.openHandles.length = n

/-- **One function.**  It costs a handle exactly if it throws. -/
theorem holds_of_opened {α : Type} {program : DaoProgram α}
    (h : ∀ start, Triple (fun database => database = start) program
      (fun _ => Opened start true) fun _ => Opened start false) (n : Nat) :
    Triple (Holds n) program (fun _ => Holds n) fun _ => Holds (n + 1) := by
  rintro start ⟨hnumbered, hcount⟩
  refine (h start).conseq (fun _ h => h) ?_ ?_ start rfl
  · intro _ database hopened
    refine ⟨hopened.numbered hnumbered, ?_⟩
    rw [hopened.openHandles hnumbered]
    simpa using hcount
  · intro _ database hopened
    refine ⟨hopened.numbered hnumbered, ?_⟩
    rw [hopened.openHandles hnumbered]
    simpa using hcount

end DaoCalls

/-! ## One request -/

/-- The handles that a request costs which fails in this way. -/
def Failure.handlesLost : Failure → Nat
  | .sqlite _ => 1
  | .jsonParser | .request _ | .hangs => 0

open DaoCalls

section Requests

variable {κ : Type} [DecidableEq κ] {n : Nat}

/-- The server holds this many handles. -/
def Holding (n : Nat) (world : World κ) : Prop :=
  Holds n world.database

/-- It holds one more if SQLite has failed. -/
def HoldingAfter (n : Nat) (failure : Failure) (world : World κ) : Prop :=
  Holds (n + failure.handlesLost) world.database

omit [DecidableEq κ] in
theorem dao_holding {α : Type} {program : DaoProgram α}
    (h : ∀ start, Triple (fun database => database = start) program
      (fun _ => Opened start true) fun _ => Opened start false) :
    Triple (Holding n) (Serve.dao program : ServerProgram κ α) (fun _ => Holding n)
      (HoldingAfter n) := by
  apply Triple.zoom (holds_of_opened h n)
  · exact fun world hworld => hworld
  · exact fun world value database _ hdatabase => hdatabase
  · exact fun world exception database _ hdatabase => hdatabase

omit [DecidableEq κ] in
theorem getFileContent_holding (system : System κ) (transactionId filename : Str) :
    Triple (Holding n) (Serve.getFileContent system transactionId filename)
      (fun _ => Holding n) (HoldingAfter n) := by
  refine Triple.bind (dao_holding fun _ => selectCount_opened 3 _) fun written => ?_
  apply Triple.ite
  · exact fun _ => dao_holding fun _ => lastFileContentFromThisTransaction_opened _ _
  · exact fun _ world hworld => hworld

omit [DecidableEq κ] in
theorem canAutoCommitTransaction_holding (transactionId : Str) :
    Triple (Holding n) (Serve.canAutoCommitTransaction transactionId : ServerProgram κ Bool)
      (fun _ => Holding n) (HoldingAfter n) := by
  refine Triple.bind (dao_holding fun _ => selectCount_opened 3 _) fun written => ?_
  apply Triple.ite
  · exact fun _ => Triple.ret _ fun _ h => h
  · intro _
    refine Triple.bind (dao_holding fun _ => selectCount_opened 3 _) fun read => ?_
    exact Triple.ite (fun _ => Triple.ret _ fun _ h => h) fun _ => Triple.ret _ fun _ h => h

omit [DecidableEq κ] in
theorem askUser_holding :
    Triple (Holding n) (Serve.askUser : ServerProgram κ Bool) (fun _ => Holding n)
      (HoldingAfter n) := by
  intro world hworld
  unfold Serve.askUser
  rw [exec_bind, exec_get]
  dsimp only
  cases Controller.askUser world.console with
  | none => exact hworld
  | some answered => exact hworld

omit [DecidableEq κ] in
theorem canCommitTransaction_holding (system : System κ) (transactionId : Str) :
    Triple (Holding n) (Serve.canCommitTransaction system transactionId)
      (fun _ => Holding n) (HoldingAfter n) := by
  refine Triple.bind (canAutoCommitTransaction_holding transactionId) fun canAutoCommit => ?_
  exact Triple.ite (fun _ => Triple.ret _ fun _ h => h) fun _ => askUser_holding

omit [DecidableEq κ] in
/-- The end of a handler: log a row and answer. -/
theorem logged_holding (name : OperationName) (transactionId filename fileContent : Str)
    (reply : Ptree) :
    Triple (Holding n)
      (Serve.dao (insertOperation name transactionId filename fileContent) >>=
        fun _ => pure reply : ServerProgram κ Ptree)
      (fun _ => Holding n) (HoldingAfter n) :=
  Triple.bind (dao_holding fun _ => insertOperation_opened _ _ _ _) fun _ =>
    Triple.ret reply fun _ h => h

/-- The streams are no handles of SQLite. -/
theorem writeFiles_holding (system : System κ) (writes : List (Str × Str)) :
    Triple (Holding n) (Serve.writeFiles system writes) (fun _ => Holding n)
      (HoldingAfter n) := by
  induction writes with
  | nil => exact Triple.ret () fun _ h => h
  | cons write writes ih => exact Triple.bind (Triple.modify fun _ h => h) fun _ => ih

/-- **One request.**  It costs a handle exactly if SQLite fails in it. -/
theorem handleRequest_holding (system : System κ) (request : Request) :
    Triple (Holding n) (Serve.handleRequest system request) (fun _ => Holding n)
      (HoldingAfter n) := by
  cases request with
  | read transactionId filename =>
      refine Triple.bind (getFileContent_holding system transactionId filename) fun content => ?_
      exact logged_holding _ _ _ _ _
  | write transactionId filename data => exact logged_holding _ _ _ _ _
  | prepare transactionId =>
      refine Triple.bind (canCommitTransaction_holding system transactionId) fun granted => ?_
      exact Triple.ite (fun _ => logged_holding _ _ _ _ _) fun _ => logged_holding _ _ _ _ _
  | globalCommit transactionId =>
      have hcommit : Triple (Holding n) (Serve.commitTransaction system transactionId)
          (fun _ => Holding n) (HoldingAfter n) := by
        refine Triple.bind (Triple.bind (dao_holding fun _ => getPendingWrites_opened _)
          fun writes => writeFiles_holding system writes) fun _ => ?_
        exact dao_holding fun _ => insertOperation_opened _ _ _ _
      exact Triple.bind hcommit fun _ => Triple.ret _ fun _ h => h
  | globalAbort transactionId => exact logged_holding _ _ _ _ _
  | unsupported transactionId => exact Triple.ret _ fun _ h => h

end Requests

/-! ## Runs -/

/-- The requests in which SQLite has failed. -/
def sqliteFailures (outcomes : List Serve.Outcome) : Nat :=
  outcomes.countP fun outcome =>
    match outcome.2 with
    | .error (.sqlite _) => true
    | _ => false

theorem sqliteFailures_cons_ok (request : Request) (reply : Ptree)
    (outcomes : List Serve.Outcome) :
    sqliteFailures ((request, .ok reply) :: outcomes) = sqliteFailures outcomes := by
  simp [sqliteFailures]

theorem sqliteFailures_cons_error (request : Request) (failure : Failure)
    (outcomes : List Serve.Outcome) :
    sqliteFailures ((request, .error failure) :: outcomes) =
      failure.handlesLost + sqliteFailures outcomes := by
  cases failure <;> simp [sqliteFailures, Failure.handlesLost, Nat.add_comm]

section Runs

variable {κ : Type} [DecidableEq κ] {system : System κ}

/-- The run lemma, by induction on the requests. -/
theorem run_holding {n : Nat} {world : World κ} (h : Holding n world)
    (requests : List Request) :
    Holding (n + sqliteFailures (Serve.run system world requests).1)
      (Serve.run system world requests).2 := by
  induction requests generalizing n world with
  | nil => exact h
  | cons request requests ih =>
      have hstep := handleRequest_holding system request world h
      unfold Serve.run
      cases hexec : exec (Serve.handleRequest system request) world with
      | mk result after =>
          rw [hexec] at hstep
          cases result with
          | ok reply =>
              have hrest := ih hstep
              dsimp only
              rw [sqliteFailures_cons_ok]
              exact hrest
          | error failure =>
              cases failure with
              | hangs =>
                  -- nobody is served any more
                  exact hstep
              | _ =>
                  have hrest := ih hstep
                  dsimp only
                  rw [sqliteFailures_cons_error, ← Nat.add_assoc]
                  exact hrest

/-- **Handles over a run.**  Whichever calls fail, the handles that are open after a run,
besides those that were open before, are as many as the requests in which SQLite failed. -/
theorem run_openHandles {world final : World κ} (hnumbered : world.database.Numbered)
    {requests : List Request} {outcomes : List Serve.Outcome}
    (hrun : Serve.run system world requests = (outcomes, final)) :
    final.database.openHandles.length =
      world.database.openHandles.length + sqliteFailures outcomes := by
  have hholding : Holding world.database.openHandles.length world := ⟨hnumbered, rfl⟩
  have hfinal := @run_holding κ _ system _ world hholding requests
  rw [hrun] at hfinal
  exact hfinal.2

/-- The 26th call fails, in the second of three requests. -/
theorem run_openHandles_commit :
    ∃ outcomes final,
      Serve.run (.flat ⟨true⟩ fun _ => none) (freshFailingAt 25)
        [.write (text "T") (text "f") (text "x"), .globalCommit (text "T"),
          .globalCommit (text "T")] = (outcomes, final) ∧
      sqliteFailures outcomes = 1 ∧
      final.database.openHandles.length =
        (freshFailingAt 25).database.openHandles.length + sqliteFailures outcomes := by
  have hnumbered : (freshFailingAt 25).database.Numbered := fun _ hmade => nomatch hmade
  obtain ⟨outcomes, final, hrun, hfailures⟩ : ∃ outcomes final,
      Serve.run (.flat ⟨true⟩ fun _ => none) (freshFailingAt 25)
        [.write (text "T") (text "f") (text "x"), .globalCommit (text "T"),
          .globalCommit (text "T")] = (outcomes, final) ∧ sqliteFailures outcomes = 1 :=
    ⟨_, _, rfl, by decide⟩
  exact ⟨outcomes, final, hrun, hfailures, run_openHandles hnumbered hrun⟩

end Runs

end DistributedFileServer
