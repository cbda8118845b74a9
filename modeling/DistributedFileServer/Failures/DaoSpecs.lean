import DistributedFileServer.Model.DaoCalls

/-!
# What the functions of `dao.cpp` do when calls fail

Each function either does what `Dao` says, or throws because some call failed.
A function that selects leaves the table alone in both cases.  An insertion that
throws has left the table alone as well, unless the step had succeeded and the
statement or the connection could not be closed afterwards.
-/

namespace DistributedFileServer

open Programs

/-- The two exceptions that can follow a successful insertion. -/
def SqlException.Closing (exception : SqlException) : Prop :=
  exception = .closeStatement ∨ exception = .closeDatabase

namespace DaoCalls

/-- The database file holds the table, and the outcomes of the calls are these. -/
structure At (table : OperationTable) (succeeds : Nat → Bool) (database : Database) : Prop where
  table : database.table = table
  succeeds : database.succeeds = succeeds

/-- Some call fails. -/
def Fails (succeeds : Nat → Bool) : Prop :=
  ∃ n, succeeds n = false

section Specs

variable {table : OperationTable} {succeeds : Nat → Bool}

theorem At.record {database : Database} (h : At table succeeds database) (call : Call) :
    At table succeeds (database.record call) :=
  ⟨h.table, h.succeeds⟩

theorem invoke_triple (call : Call) :
    Triple (At table succeeds) (invoke call)
      (fun success database => At table succeeds database ∧ (success = false → Fails succeeds))
      fun _ _ => False := by
  intro database hdatabase
  refine ⟨hdatabase.record call, ?_⟩
  intro hfail
  exact ⟨database.calls.length, by rw [← hdatabase.succeeds, hfail]⟩

/-- After a call whose outcome does not matter. -/
theorem triple_of_invoke (call : Call) {α : Type} {next : Bool → DaoProgram α}
    {Q : α → Database → Prop} {E : SqlException → Database → Prop}
    (h : ∀ success, Triple (At table succeeds) (next success) Q E) :
    Triple (At table succeeds) (invoke call >>= next) Q E := by
  refine Triple.bind ((invoke_triple call).conseq (fun _ h => h) (fun _ _ h => h.1)
    fun _ _ h => h.elim) h

theorem check_triple (call : Call) (db : Nat) (exception : SqlException) :
    Triple (At table succeeds) (check call db exception)
      (fun _ => At table succeeds)
      fun thrown database =>
        At table succeeds database ∧ thrown = exception ∧ Fails succeeds := by
  refine Triple.bind ((invoke_triple call).mono_error fun _ _ h => h.elim) ?_
  intro success
  apply Triple.assume
  intro hfails
  apply Triple.ite
  · intro _
    exact Triple.ret () fun _ h => h
  · intro hsuccess
    have hfails : Fails succeeds := hfails (by simpa using hsuccess)
    apply triple_of_invoke
    intro _
    exact Triple.throws exception fun _ h => ⟨h, rfl, hfails⟩

/-- The condition on an exception that leaves the table as it was. -/
def Untouched (table : OperationTable) (succeeds : Nat → Bool) (_ : SqlException)
    (database : Database) : Prop :=
  At table succeeds database ∧ Fails succeeds

/-- Check a call before the rest of a function. -/
theorem triple_of_check (call : Call) (db : Nat) (exception : SqlException) {α : Type}
    {next : DaoProgram α} {Q : α → Database → Prop} {E : SqlException → Database → Prop}
    (hE : ∀ database, At table succeeds database → Fails succeeds → E exception database)
    (h : Triple (At table succeeds) next Q E) :
    Triple (At table succeeds) (check call db exception >>= fun _ => next) Q E := by
  refine Triple.bind ((check_triple call db exception).mono_error ?_) fun _ => h
  rintro thrown database ⟨hdatabase, rfl, hfails⟩
  exact hE database hdatabase hfails

theorem openDatabase_triple :
    Triple (At table succeeds) openDatabase (fun _ => At table succeeds)
      (Untouched table succeeds) := by
  unfold openDatabase
  refine Triple.bind (Triple.get (Q := fun _ => At table succeeds) fun _ h => h) ?_
  intro database
  refine Triple.bind (Triple.modify (Q := fun _ => At table succeeds)
    fun _ h => ⟨h.table, h.succeeds⟩) ?_
  intro _
  apply triple_of_check
  · intro _ hdatabase hfails
    exact ⟨hdatabase, hfails⟩
  · exact Triple.ret _ fun _ h => h

theorem prepareStatement_triple :
    Triple (At table succeeds) prepareStatement (fun _ => At table succeeds)
      (Untouched table succeeds) := by
  refine openDatabase_triple.bind ?_
  intro db
  apply triple_of_check
  · intro _ hdatabase hfails
    exact ⟨hdatabase, hfails⟩
  · exact Triple.ret db fun _ h => h

theorem bindTextParams_triple (db count : Nat) :
    Triple (At table succeeds) (bindTextParams db count) (fun _ => At table succeeds)
      (Untouched table succeeds) := by
  induction count with
  | zero => exact Triple.ret () fun _ h => h
  | succ count ih =>
      refine ih.bind fun _ => ?_
      refine (check_triple _ db _).mono_error ?_
      rintro thrown database ⟨hdatabase, -, hfails⟩
      exact ⟨hdatabase, hfails⟩

theorem closeStatement_triple (db : Nat) :
    Triple (At table succeeds) (closeStatement db) (fun _ => At table succeeds)
      fun thrown database => Untouched table succeeds thrown database ∧ thrown.Closing := by
  apply triple_of_check
  · intro _ hdatabase hfails
    exact ⟨⟨hdatabase, hfails⟩, Or.inl rfl⟩
  · refine (check_triple _ db _).mono_error ?_
    rintro thrown database ⟨hdatabase, rfl, hfails⟩
    exact ⟨⟨hdatabase, hfails⟩, Or.inr rfl⟩

/-- After a failed insertion the row is missing, or it is there and the statement
or the connection could not be closed. -/
def Interrupted (table next : OperationTable) (succeeds : Nat → Bool) (thrown : SqlException)
    (database : Database) : Prop :=
  Fails succeeds ∧ (At table succeeds database ∨ At next succeeds database ∧ thrown.Closing)

theorem Untouched.interrupted {next : OperationTable} {thrown : SqlException}
    {database : Database} (h : Untouched table succeeds thrown database) :
    Interrupted table next succeeds thrown database :=
  ⟨h.2, Or.inl h.1⟩

theorem insertOperation_triple (name : OperationName) (transactionId filename fileContent : Str) :
    Triple (At table succeeds) (insertOperation name transactionId filename fileContent)
      (fun _ => At (Dao.insertOperation table name transactionId filename fileContent) succeeds)
      (Interrupted table (Dao.insertOperation table name transactionId filename fileContent)
        succeeds) := by
  refine Triple.bind (prepareStatement_triple.mono_error fun _ _ h => h.interrupted) ?_
  intro db
  refine Triple.bind ((bindTextParams_triple db 4).mono_error fun _ _ h => h.interrupted) ?_
  intro _
  apply triple_of_check
  · intro _ hdatabase hfails
    exact ⟨hfails, Or.inl hdatabase⟩
  · refine Triple.bind (Triple.modify
      (Q := fun _ => At (Dao.insertOperation table name transactionId filename fileContent)
        succeeds) ?_) ?_
    · intro database hdatabase
      exact ⟨by rw [← hdatabase.table], hdatabase.succeeds⟩
    · intro _
      refine (closeStatement_triple db).mono_error ?_
      intro thrown database ⟨⟨hdatabase, hfails⟩, hclosing⟩
      exact ⟨hfails, Or.inr ⟨hdatabase, hclosing⟩⟩

theorem selectCount_triple (params : Nat) (positive : OperationTable → Bool) :
    Triple (At table succeeds) (selectCount params positive)
      (fun result database => At table succeeds database ∧ result = positive table)
      (Untouched table succeeds) := by
  refine prepareStatement_triple.bind fun db => ?_
  refine (bindTextParams_triple db params).bind fun _ => ?_
  apply triple_of_check
  · intro _ hdatabase hfails
    exact ⟨hdatabase, hfails⟩
  refine Triple.bind_get (fun _ h => h.table) ?_
  intro read hread
  apply triple_of_invoke
  intro _
  apply triple_of_check
  · intro _ hdatabase hfails
    exact ⟨hdatabase, hfails⟩
  refine Triple.bind ((closeStatement_triple db).mono_error fun _ _ h => h.1) ?_
  intro _
  exact Triple.ret _ fun _ hdatabase => ⟨hdatabase, by rw [hread]⟩

/-- The look-up of the last own write, for a file that was written. -/
theorem lastFileContentFromThisTransaction_triple {transactionId filename fileContent : Str}
    (hcontent : Dao.lastFileContentFromThisTransaction table transactionId filename =
      .ok fileContent) :
    Triple (At table succeeds) (lastFileContentFromThisTransaction transactionId filename)
      (fun result database => At table succeeds database ∧ result = fileContent)
      (Untouched table succeeds) := by
  refine prepareStatement_triple.bind fun db => ?_
  refine (bindTextParams_triple db 3).bind fun _ => ?_
  apply triple_of_check
  · intro _ hdatabase hfails
    exact ⟨hdatabase, hfails⟩
  refine Triple.bind_get (fun _ h => h.table) ?_
  intro read hread
  simp only [hread, hcontent]
  apply triple_of_invoke
  intro _
  apply triple_of_check
  · intro _ hdatabase hfails
    exact ⟨hdatabase, hfails⟩
  refine Triple.bind ((closeStatement_triple db).mono_error fun _ _ h => h.1) ?_
  intro _
  exact Triple.ret _ fun _ hdatabase => ⟨hdatabase, rfl⟩

/-- The loop over the rows delivers all of them, or throws. -/
theorem fetchWrites_triple (db : Nat) (rows : List (Str × Str)) :
    Triple (At table succeeds) (fetchWrites db rows)
      (fun result database => At table succeeds database ∧ result = rows)
      (Untouched table succeeds) := by
  induction rows with
  | nil =>
      apply triple_of_check
      · intro _ hdatabase hfails
        exact ⟨hdatabase, hfails⟩
      · exact Triple.ret _ fun _ hdatabase => ⟨hdatabase, rfl⟩
  | cons write rows ih =>
      apply triple_of_check
      · intro _ hdatabase hfails
        exact ⟨hdatabase, hfails⟩
      apply triple_of_invoke
      intro _
      apply triple_of_invoke
      intro _
      refine ih.bind fun writes => ?_
      apply Triple.assume
      rintro rfl
      exact Triple.ret _ fun _ hdatabase => ⟨hdatabase, rfl⟩

theorem getPendingWrites_triple (transactionId : Str) :
    Triple (At table succeeds) (getPendingWrites transactionId)
      (fun result database => At table succeeds database ∧
        result = Dao.getPendingWrites table transactionId)
      (Untouched table succeeds) := by
  refine prepareStatement_triple.bind fun db => ?_
  refine (bindTextParams_triple db 2).bind fun _ => ?_
  refine Triple.bind_get (fun _ h => h.table) ?_
  intro read hread
  refine (fetchWrites_triple db _).bind fun writes => ?_
  apply Triple.assume
  intro hwrites
  refine Triple.bind ((closeStatement_triple db).mono_error fun _ _ h => h.1) ?_
  intro _
  exact Triple.ret _ fun _ hdatabase => ⟨hdatabase, by rw [hwrites, hread]⟩

end Specs

end DaoCalls

end DistributedFileServer
