import DistributedFileServer.Failures.Releases
import DistributedFileServer.Log.TableHistory

/-!
# Connections and statements are released

A function of `dao.cpp` closes its connection and finalizes its statement on the one
path on which no call fails.  On every other path it throws first and leaves the
connection open, or asks a closed connection for a message.
-/

namespace DistributedFileServer

open Programs

/-! ## The functions follow their plans -/

namespace DaoCalls

/-- The calls so far. -/
structure Recorded (start : Database) (done : List Call) (database : Database) : Prop where
  succeeds : database.succeeds = start.succeeds
  calls : database.calls =
    start.calls ++ withOutcomes start.succeeds start.calls.length done

/-- No call has failed so far, and the database file holds the table. -/
structure Reached (start : Database) (table : OperationTable) (done : List Call)
    (database : Database) : Prop where
  recorded : Recorded start done database
  table : database.table = table
  allSucceed : AllSucceed Call.Checked start.succeeds start.calls.length done

/-- A call of the plan has failed, and SQLite was asked for a message. -/
def Abandoned (start : Database) (plan : List Call) (db : Nat) (_ : SqlException)
    (database : Database) : Prop :=
  ∃ made, database.calls = start.calls ++ made ∧
    GivenUp Call.Checked start.succeeds start.calls.length plan [.errmsg db] made

theorem exec_invoke (call : Call) (database : Database) :
    exec (invoke call) database =
      (.ok (database.succeeds database.calls.length), database.record call) := rfl

section Reaching

variable {start : Database} {table : OperationTable} {plan done back : List Call} {db : Nat}

theorem Recorded.outcome {database : Database} (h : Recorded start done database) :
    database.succeeds database.calls.length =
      start.succeeds (start.calls.length + done.length) := by
  rw [h.succeeds, h.calls, List.length_append, length_withOutcomes]

/-- One more call. -/
theorem Recorded.record {database : Database} (h : Recorded start done database) (call : Call) :
    Recorded start (done ++ [call]) (database.record call) := by
  refine ⟨h.succeeds, ?_⟩
  show database.calls ++ [(call, database.succeeds database.calls.length)] = _
  rw [h.outcome, h.calls, withOutcomes_append, List.append_assoc]
  rfl

theorem invoke_recorded (call : Call) {E : SqlException → Database → Prop} :
    Triple (Recorded start done) (invoke call) (fun _ => Recorded start (done ++ [call])) E := by
  intro database h
  exact h.record call

/-- After a check that fails there is a call for the message. -/
theorem check_recorded (call : Call) (exception : SqlException) :
    Triple (Recorded start done) (check call db exception)
      (fun _ => Recorded start (done ++ [call]))
      fun _ => Recorded start (done ++ [call, .errmsg db]) := by
  refine Triple.bind (invoke_recorded call) fun success => ?_
  apply Triple.ite
  · intro _
    exact Triple.ret () fun _ h => h
  · intro _
    refine Triple.bind (invoke_recorded (.errmsg db)) fun _ => ?_
    exact Triple.throws exception fun _ h => by simpa using h

theorem Reached.record {database : Database} (h : Reached start table done database)
    {call : Call} (hcall : call.Checked →
      start.succeeds (start.calls.length + done.length) = true) :
    Reached start table (done ++ [call]) (database.record call) := by
  refine ⟨h.recorded.record call, h.table, ?_⟩
  rw [allSucceed_append, allSucceed_singleton]
  exact ⟨h.allSucceed, hcall⟩

/-- A call after which the function goes on in either case. -/
theorem invoke_reached (call : Call) {E : SqlException → Database → Prop} :
    Triple (Reached start table done) (invoke call)
      (fun success database =>
        start.succeeds (start.calls.length + done.length) = success ∧
          (success = true → Reached start table (done ++ [call]) database) ∧
          Recorded start (done ++ [call]) database) E := by
  intro database h
  rw [exec_invoke]
  refine ⟨h.recorded.outcome.symm, fun hsuccess => ?_, h.recorded.record call⟩
  refine h.record fun _ => ?_
  rw [← h.recorded.outcome, hsuccess]

theorem column_reached (index : Nat) {E : SqlException → Database → Prop} :
    Triple (Reached start table done) (invoke (.column db index))
      (fun _ => Reached start table (done ++ [.column db index])) E := by
  intro database h
  rw [exec_invoke]
  exact h.record fun hchecked => hchecked.elim

/-- **A call of the plan.** -/
theorem check_reached {call : Call} (hplan : plan = done ++ call :: back)
    (hchecked : call.Checked) (exception : SqlException) :
    Triple (Reached start table done) (check call db exception)
      (fun _ => Reached start table (done ++ [call])) (Abandoned start plan db) := by
  intro database h
  unfold check
  rw [exec_bind, exec_invoke]
  cases hsuccess : database.succeeds database.calls.length with
  | true =>
      refine h.record fun _ => ?_
      rw [← h.recorded.outcome, hsuccess]
  | false =>
      have houtcome : start.succeeds (start.calls.length + done.length) = false := by
        rw [← h.recorded.outcome, hsuccess]
      have hmessage := (h.recorded.record call).record (.errmsg db)
      rw [List.append_assoc] at hmessage
      exact ⟨_, hmessage.calls, done, call, back, hplan, hchecked, houtcome, rfl⟩

theorem openDatabase_reached (hplan : plan = .open start.connections :: back) :
    Triple (fun database => database = start) openDatabase
      (fun db database => Reached start start.table [.open start.connections] database ∧
        db = start.connections)
      (Abandoned start plan start.connections) := by
  intro database hdatabase
  subst hdatabase
  have hstart : Reached database database.table []
      { database with connections := database.connections + 1 } := by
    refine ⟨⟨rfl, (List.append_nil _).symm⟩, rfl, ?_⟩
    intro made hmade
    cases hmade
  have hcheck : Triple (Reached database database.table [])
      (check (.open database.connections) database.connections .openDatabase)
      (fun _ => Reached database database.table [.open database.connections])
      (Abandoned database plan database.connections) :=
    check_reached hplan (by trivial) .openDatabase
  exact hcheck.bind (fun _ => Triple.ret database.connections fun _ h => ⟨h, rfl⟩) _ hstart

theorem prepareStatement_reached
    (hplan : plan = [.open start.connections, .prepare start.connections] ++ back) :
    Triple (fun database => database = start) prepareStatement
      (fun db database => Reached start start.table
        [.open start.connections, .prepare start.connections] database ∧ db = start.connections)
      (Abandoned start plan start.connections) := by
  refine Triple.bind (openDatabase_reached hplan) fun db => ?_
  apply Triple.assume
  rintro rfl
  refine Triple.bind (check_reached hplan (by trivial) .prepareStatement) fun _ => ?_
  exact Triple.ret start.connections fun _ h => ⟨h, rfl⟩

theorem bindTextParams_reached (count : Nat) (hplan : plan = done ++ (bindCalls db count ++ back)) :
    Triple (Reached start table done) (bindTextParams db count)
      (fun _ => Reached start table (done ++ bindCalls db count)) (Abandoned start plan db) := by
  induction count generalizing back with
  | zero => exact Triple.ret () fun _ h => by simpa [bindCalls] using h
  | succ count ih =>
      have hcalls : bindCalls db (count + 1) =
          bindCalls db count ++ [.bindText db (count + 1)] := by
        simp [bindCalls, List.range_succ]
      rw [hcalls] at hplan ⊢
      refine Triple.bind (ih (by rw [hplan, List.append_assoc])) fun _ => ?_
      rw [← List.append_assoc]
      apply check_reached _ (by trivial) .bindTextParam
      · exact back
      · rw [hplan]
        simp

theorem closeStatement_reached (hplan : plan = done ++ [.finalize db, .close db]) :
    Triple (Reached start table done) (closeStatement db) (fun _ => Reached start table plan)
      (Abandoned start plan db) := by
  have hclosing : plan = (done ++ [.finalize db]) ++ [.close db] := by
    rw [hplan, List.append_assoc]
    rfl
  refine Triple.bind (check_reached hplan (by trivial) .closeStatement) fun _ => ?_
  have hclose : Triple (Reached start table (done ++ [.finalize db])) (closeDatabase db)
      (fun _ => Reached start table (done ++ [.finalize db] ++ [.close db]))
      (Abandoned start plan db) :=
    check_reached hclosing (by trivial) .closeDatabase
  rw [← hclosing] at hclose
  exact hclose

/-- The part of the plan that a statement with bound parameters has behind it. -/
def preparedCalls (db params : Nat) : List Call :=
  [.open db, .prepare db] ++ bindCalls db params

theorem statementCalls_eq (db params : Nat) (work : List Call) :
    statementCalls db params work =
      preparedCalls db params ++ (work ++ [.finalize db, .close db]) := by
  unfold statementCalls preparedCalls
  rw [List.append_assoc]

/-- **A statement.**  What is left is the work and the closing. -/
theorem statement_reached {α : Type} {params : Nat} {work : List Call}
    {next : Nat → DaoProgram α} {Q : α → Database → Prop} {E : SqlException → Database → Prop}
    (hplan : plan = statementCalls start.connections params work)
    (hE : ∀ exception database, Abandoned start plan start.connections exception database →
      E exception database)
    (hnext : Triple (Reached start start.table (preparedCalls start.connections params))
      (next start.connections) Q E) :
    Triple (fun database => database = start)
      (prepareStatement >>= fun db => bindTextParams db params >>= fun _ => next db) Q E := by
  refine Triple.bind ((prepareStatement_reached hplan).mono_error hE)
    fun db => ?_
  apply Triple.assume
  rintro rfl
  exact Triple.bind ((bindTextParams_reached params hplan).mono_error hE) fun _ => hnext

theorem insertOperation_reached (name : OperationName)
    (transactionId filename fileContent : Str)
    (hplan : plan = statementCalls start.connections 4 [.step start.connections]) :
    Triple (fun database => database = start)
      (insertOperation name transactionId filename fileContent)
      (fun _ database => ∃ table, Reached start table plan database)
      (Abandoned start plan start.connections) := by
  apply statement_reached hplan fun _ _ h => h
  rw [statementCalls_eq, ← List.append_assoc] at hplan
  refine Triple.bind (check_reached (by rw [hplan, List.append_assoc]; rfl) (by trivial) .insert)
    fun _ => ?_
  refine Triple.bind (Triple.modify (Q := fun _ => Reached start
    (Dao.insertOperation start.table name transactionId filename fileContent)
    (preparedCalls start.connections 4 ++ [.step start.connections])) ?_) fun _ => ?_
  · intro database h
    exact ⟨⟨h.recorded.succeeds, h.recorded.calls⟩, by simp [h.table], h.allSucceed⟩
  · exact (closeStatement_reached hplan).mono_ok fun _ _ h => ⟨_, h⟩

/-- The one row has been delivered. -/
theorem selectOne_reached {α : Type} (value : α) (exception : SqlException)
    (hplan : plan = done ++ (selectOneCalls db ++ [.finalize db, .close db])) :
    Triple (Reached start table (done ++ [.step db]))
      (invoke (.column db 0) >>= fun _ => check (.step db) db exception >>= fun _ =>
        closeStatement db >>= fun _ => pure value)
      (fun _ database => ∃ table, Reached start table plan database)
      (Abandoned start plan db) := by
  have hstep : plan =
      (done ++ [.step db] ++ [.column db 0]) ++ .step db :: [.finalize db, .close db] := by
    simpa [selectOneCalls] using hplan
  refine Triple.bind (column_reached 0) fun _ => ?_
  refine Triple.bind (check_reached hstep (by trivial) exception) fun _ => ?_
  refine Triple.bind (closeStatement_reached (by simpa using hstep)) fun _ => ?_
  exact Triple.ret value fun _ h => ⟨table, h⟩

theorem selectCount_reached (params : Nat) (positive : OperationTable → Bool)
    (hplan : plan = statementCalls start.connections params (selectOneCalls start.connections)) :
    Triple (fun database => database = start) (selectCount params positive)
      (fun _ database => ∃ table, Reached start table plan database)
      (Abandoned start plan start.connections) := by
  apply statement_reached hplan fun _ _ h => h
  rw [statementCalls_eq] at hplan
  refine Triple.bind (check_reached hplan (by trivial) .selectCount) fun _ => ?_
  refine Triple.bind (Triple.get fun _ h => h) fun database => ?_
  exact selectOne_reached (positive database.table) .selectCountNotDone hplan

/-- The look-up of the last own write, for a file that was written. -/
theorem lastFileContentFromThisTransaction_reached {transactionId filename fileContent : Str}
    (hcontent : Dao.lastFileContentFromThisTransaction start.table transactionId filename =
      .ok fileContent)
    (hplan : plan = statementCalls start.connections 3 (selectOneCalls start.connections)) :
    Triple (fun database => database = start)
      (lastFileContentFromThisTransaction transactionId filename)
      (fun _ database => ∃ table, Reached start table plan database)
      (Abandoned start plan start.connections) := by
  apply statement_reached hplan fun _ _ h => h
  rw [statementCalls_eq] at hplan
  refine Triple.bind (check_reached hplan (by trivial) .select) fun _ => ?_
  refine Triple.bind_get (fun _ h => h.table) fun read hread => ?_
  simp only [hread, hcontent]
  exact selectOne_reached fileContent .selectNotDone hplan

/-- **The loop over the rows**, by induction on the rows left. -/
theorem fetchWrites_reached (rows : List (Str × Str))
    (hplan : plan = done ++ (fetchCalls db rows ++ back)) :
    Triple (Reached start table done) (fetchWrites db rows)
      (fun _ => Reached start table (done ++ fetchCalls db rows)) (Abandoned start plan db) := by
  induction rows generalizing done with
  | nil =>
      refine Triple.bind (check_reached hplan (by trivial) .selectNotDone) fun _ => ?_
      exact Triple.ret _ fun _ h => h
  | cons row rows ih =>
      refine Triple.bind (check_reached hplan (by trivial) .selectNotDone) fun _ => ?_
      refine Triple.bind (column_reached 0) fun _ => ?_
      refine Triple.bind (column_reached 1) fun _ => ?_
      refine Triple.bind (ih (by rw [hplan]; simp [fetchCalls])) fun _ => ?_
      exact Triple.ret _ fun _ h => by simpa [fetchCalls] using h

theorem getPendingWrites_reached (transactionId : Str)
    (hplan : plan = statementCalls start.connections 2
      (fetchCalls start.connections (Dao.getPendingWrites start.table transactionId))) :
    Triple (fun database => database = start) (getPendingWrites transactionId)
      (fun _ database => ∃ table, Reached start table plan database)
      (Abandoned start plan start.connections) := by
  apply statement_reached hplan fun _ _ h => h
  rw [statementCalls_eq] at hplan
  refine Triple.bind_get (fun _ h => h.table) fun read hread => ?_
  rw [hread]
  refine Triple.bind (fetchWrites_reached _ hplan) fun _ => ?_
  refine Triple.bind (closeStatement_reached (by rw [hplan, List.append_assoc])) fun _ => ?_
  exact Triple.ret _ fun _ h => ⟨start.table, h⟩

/-- A call has failed or a row is missing, and something is not released. -/
def Unreleased (start : Database) (finds : Prop) (plan : List Call) (_ : SqlException)
    (database : Database) : Prop :=
  ∃ made, database.calls = start.calls ++ made ∧ ¬ Released made ∧
    ¬ (finds ∧ AllSucceed Call.Checked start.succeeds start.calls.length plan)

theorem Abandoned.unreleased {finds : Prop} (hplan : Bracketed db plan)
    {exception : SqlException} {database : Database}
    (h : Abandoned start plan db exception database) :
    Unreleased start finds plan exception database := by
  obtain ⟨made, hcalls, hmade⟩ := h
  exact ⟨made, hcalls, hplan.not_released hmade, fun hall => hmade.not_allSucceed hall.2⟩

/-- A function that carries out its plan or abandons it. -/
theorem reached_or_unreleased {α : Type} {program : DaoProgram α} {P : Database → Prop}
    {finds : Prop} (hfinds : finds) (hplan : Bracketed db plan)
    (h : Triple P program (fun _ database => ∃ table, Reached start table plan database)
      (Abandoned start plan db)) :
    Triple P program
      (fun _ database => finds ∧ ∃ table, Reached start table plan database)
      (Unreleased start finds plan) :=
  h.conseq (fun _ h => h) (fun _ _ h => ⟨hfinds, h⟩) fun _ _ h => h.unreleased hplan

/-- A look-up without a row throws as if the step had failed. -/
theorem lastFileContentFromThisTransaction_unreleased {transactionId filename : Str}
    {exception : Exception} {finds : Prop} (hfinds : ¬ finds)
    (hcontent : Dao.lastFileContentFromThisTransaction start.table transactionId filename =
      .error exception)
    (hplan : plan = statementCalls start.connections 3 (selectOneCalls start.connections)) :
    Triple (fun database => database = start)
      (lastFileContentFromThisTransaction transactionId filename)
      (fun _ _ => False) (Unreleased start finds plan) := by
  have hbracketed : Bracketed start.connections plan := by
    rw [hplan]
    exact bracketed_statementCalls isWork_selectOneCalls
  have hgiven : ∀ exception database, Abandoned start plan start.connections exception database →
      Unreleased start finds plan exception database :=
    fun _ _ h => h.unreleased hbracketed
  have hopen : ∀ succeeds n, ¬ Released (withOutcomes succeeds n
      (preparedCalls start.connections 3 ++ [.step start.connections] ++
        [.errmsg start.connections])) := by
    intro succeeds n
    have hfirst : (Call.open start.connections, succeeds n) ∈ withOutcomes succeeds n
        (preparedCalls start.connections 3 ++ [.step start.connections] ++
          [.errmsg start.connections]) := List.mem_cons_self
    refine not_released_of_open hfirst fun hclose => ?_
    have hmem := fst_mem_of_mem_withOutcomes hclose
    simp [preparedCalls, bindCalls] at hmem
  apply statement_reached hplan hgiven
  rw [statementCalls_eq] at hplan
  refine Triple.bind ((check_reached hplan (by trivial) .select).mono_error hgiven) fun _ => ?_
  refine Triple.bind_get (fun _ h => h.table) fun read hread => ?_
  simp only [hread, hcontent]
  refine Triple.bind ((invoke_recorded (.errmsg start.connections)).conseq
    (fun _ h => h.recorded) (fun _ _ h => h) fun _ _ h => h) fun _ => ?_
  exact Triple.throws SqlException.select fun _ h =>
    ⟨_, h.calls, hopen _ _, fun hall => hfinds hall.1⟩

/-- The message is asked for on a connection that is closed, or the connection is not
closed. -/
theorem not_released_runQuery (succeeds : Nat → Bool) (n : Nat) :
    ¬ Released (withOutcomes succeeds n [.open db, .exec db, .close db, .errmsg db]) := by
  cases hclose : succeeds (n + 1 + 1) with
  | true =>
      intro h
      exact h.silent db [(.open db, succeeds n), (.exec db, succeeds (n + 1))]
        [(.errmsg db, succeeds (n + 1 + 1 + 1))] (by simp [withOutcomes, hclose]) _
        List.mem_cons_self rfl
  | false =>
      have hopen : (Call.open db, succeeds n) ∈
          withOutcomes succeeds n [.open db, .exec db, .close db, .errmsg db] :=
        List.mem_cons_self
      exact not_released_of_open hopen (by simp [withOutcomes, hclose])

theorem runQuery_reached {finds : Prop} (hplan : plan =
      [.open start.connections, .exec start.connections, .close start.connections]) :
    Triple (fun database => database = start) runQuery
      (fun _ database => ∃ table, Reached start table plan database)
      (Unreleased start finds plan) := by
  have hbracketed : Bracketed start.connections plan := by
    rw [hplan]
    exact DaoOperation.runQuery.bracketed_calls start.table start.connections
  refine Triple.bind ((openDatabase_reached hplan).mono_error
    fun _ _ h => h.unreleased hbracketed) fun db => ?_
  apply Triple.assume
  rintro rfl
  refine Triple.bind (invoke_reached (.exec start.connections)) fun success => ?_
  cases success with
  | true =>
      have hclose : Triple
          (Reached start start.table [.open start.connections, .exec start.connections])
          (closeDatabase start.connections) (fun _ => Reached start start.table plan)
          (Abandoned start plan start.connections) := by
        rw [hplan]
        exact check_reached rfl (by trivial) .closeDatabase
      exact hclose.conseq (fun _ h => h.2.1 rfl) (fun _ _ h => ⟨start.table, h⟩)
        fun _ _ h => h.unreleased hbracketed
  | false =>
      have hclose : Triple
          (Recorded start [.open start.connections, .exec start.connections])
          (closeDatabase start.connections >>= fun _ =>
            invoke (.errmsg start.connections) >>= fun _ => throw .runQuery)
          (fun (_ : PUnit) _ => False)
          fun _ => Recorded start [.open start.connections, .exec start.connections,
            .close start.connections, .errmsg start.connections] := by
        refine Triple.bind (check_recorded _ _) fun _ => ?_
        refine Triple.bind (invoke_recorded (.errmsg start.connections)) fun _ => ?_
        exact Triple.throws SqlException.runQuery fun _ h => h
      intro database h
      have hfails : ¬ (finds ∧ AllSucceed Call.Checked start.succeeds start.calls.length plan) := by
        rintro ⟨-, hall⟩
        have hexec : start.succeeds (start.calls.length + 1) = true := by
          apply hall (.exec start.connections, start.succeeds (start.calls.length + 1))
          · simp [hplan, withOutcomes]
          · trivial
        cases hexec.symm.trans h.1
      exact (hclose.conseq (fun _ h => h) (fun _ _ h => h.elim)
        fun _ _ h => ⟨_, h.calls, not_released_runQuery _ _, hfails⟩) database h.2.2

end Reaching

end DaoCalls

open DaoCalls

/-- Either the whole plan is carried out, or something is left behind. -/
theorem DaoOperation.program_triple (operation : DaoOperation) (start : Database) :
    Triple (fun database => database = start) operation.program
      (fun _ database => operation.FindsRow start.table ∧ ∃ table,
        Reached start table (operation.calls start.table start.connections) database)
      (Unreleased start (operation.FindsRow start.table)
        (operation.calls start.table start.connections)) := by
  have hbracketed := operation.bracketed_calls start.table start.connections
  cases operation with
  | runQuery => exact (runQuery_reached rfl).mono_ok fun _ _ h => ⟨trivial, h⟩
  | insertTransactionOperation name transactionId =>
      exact reached_or_unreleased trivial hbracketed
        (insertOperation_reached name transactionId [] [] rfl)
  | insertOperation name transactionId filename fileContent =>
      exact reached_or_unreleased trivial hbracketed
        (insertOperation_reached name transactionId filename fileContent rfl)
  | fileWasWrittenInThisTransaction transactionId filename =>
      exact reached_or_unreleased trivial hbracketed (selectCount_reached 3
        (fun table => Dao.fileWasWrittenInThisTransaction table transactionId filename) rfl)
  | lastFileContentFromThisTransaction transactionId filename =>
      have hiff := fileWasWrittenInThisTransaction_iff_ok start.table transactionId filename
      cases hcontent : Dao.lastFileContentFromThisTransaction start.table transactionId
        filename with
      | ok fileContent =>
          exact reached_or_unreleased (hiff.mpr ⟨fileContent, hcontent⟩) hbracketed
            (lastFileContentFromThisTransaction_reached hcontent rfl)
      | error exception =>
          have hnone : ¬ Dao.fileWasWrittenInThisTransaction start.table transactionId filename =
              true := by
            intro hwritten
            obtain ⟨fileContent, hok⟩ := hiff.mp hwritten
            rw [hcontent] at hok
            cases hok
          exact (lastFileContentFromThisTransaction_unreleased hnone hcontent rfl).mono_ok
            fun _ _ h => h.elim
  | getPendingWrites transactionId =>
      exact reached_or_unreleased trivial hbracketed (getPendingWrites_reached transactionId rfl)
  | writeIntercepted transactionId =>
      exact reached_or_unreleased trivial hbracketed
        (selectCount_reached 3 (fun table => Dao.writeIntercepted table transactionId) rfl)
  | readIntercepted transactionId =>
      exact reached_or_unreleased trivial hbracketed
        (selectCount_reached 3 (fun table => Dao.readIntercepted table transactionId) rfl)

/-- **When a function releases what it opens.**  The functions of `dao.cpp` leave
nothing behind exactly if no call fails that a faultless run makes, and the look-up of
the last own write finds one. -/
theorem released_iff (operation : DaoOperation) (database : Database) :
    Released ((exec operation.program database).2.calls.drop database.calls.length) ↔
      operation.FindsRow database.table ∧
        AllSucceed Call.Checked database.succeeds database.calls.length
          (operation.calls database.table database.connections) := by
  have htriple := operation.program_triple database database rfl
  cases hexec : exec operation.program database with
  | mk result after =>
      rw [hexec] at htriple
      cases result with
      | ok value =>
          obtain ⟨hfinds, table, hreached⟩ := htriple
          rw [hreached.recorded.calls, List.drop_left]
          have hreleased := (operation.bracketed_calls database.table
            database.connections).released hreached.allSucceed
          exact ⟨fun _ => ⟨hfinds, hreached.allSucceed⟩, fun _ => hreleased⟩
      | error exception =>
          obtain ⟨made, hcalls, hmade, hfails⟩ := htriple
          rw [hcalls, List.drop_left]
          exact ⟨fun h => absurd h hmade, fun h => absurd h hfails⟩

/-- A step that fails leaves the connection open, and the statement unfinalized. -/
theorem insertOperation_not_released :
    ∃ database : Database, ¬ Released
      ((exec (DaoOperation.program (.insertOperation .write (text "T") (text "f") (text "c")))
        database).2.calls.drop database.calls.length) := by
  let database : Database := ⟨Dao.initDatabase, fun n => n ≠ 6, 0, []⟩
  have hopen : (Call.open 0, true) ∈ ((exec (DaoOperation.program
      (.insertOperation .write (text "T") (text "f") (text "c"))) database).2.calls.drop 0) := by
    decide
  exact ⟨database, not_released_of_open hopen (by decide)⟩

end DistributedFileServer
