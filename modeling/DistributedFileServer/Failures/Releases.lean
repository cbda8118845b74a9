import DistributedFileServer.Model.DaoCalls
import DistributedFileServer.Programs.Outcomes
import Mathlib.Data.List.Basic

/-!
# Plans that release what they open

Each function of `dao.cpp` has a plan, the calls it makes when none of them fails.
A plan opens a connection first and closes it last, and finalizes the statement in
between.  Carried out, it releases everything; given up at a call that fails, it
leaves the connection open.
-/

namespace DistributedFileServer

open Programs

/-- The connection a call is made on. -/
def Call.connection : Call → Nat
  | .open db | .exec db | .prepare db | .bindText db _ | .step db => db
  | .column db _ | .finalize db | .close db | .errmsg db => db

/-- The outcome of the call is looked at. -/
def Call.Checked : Call → Prop
  | .column _ _ | .errmsg _ => False
  | _ => True

/-- What a function has to leave behind.  Every connection it opened is closed once,
every statement it prepared is finalized once and before that, and no call is made on
a closed connection.  A connection that could not be closed is still open, and one
that could not be opened has to be closed all the same. -/
structure Released (made : List (Call × Bool)) : Prop where
  closed : ∀ db success, (.open db, success) ∈ made → made.count (.close db, true) = 1
  finalized : ∀ db, (.prepare db, true) ∈ made →
    (made.map Prod.fst).count (.finalize db) = 1 ∧
      ∀ front back, made = front ++ (.close db, true) :: back →
        .finalize db ∈ front.map Prod.fst
  silent : ∀ db front back, made = front ++ (.close db, true) :: back →
    ∀ later ∈ back, later.1.connection ≠ db

/-- The functions of `dao.cpp` that open a connection. -/
inductive DaoOperation where
  | runQuery
  | insertTransactionOperation (name : OperationName) (transactionId : Str)
  | insertOperation (name : OperationName) (transactionId filename fileContent : Str)
  | fileWasWrittenInThisTransaction (transactionId filename : Str)
  | lastFileContentFromThisTransaction (transactionId filename : Str)
  | getPendingWrites (transactionId : Str)
  | writeIntercepted (transactionId : Str)
  | readIntercepted (transactionId : Str)

namespace DaoOperation

/-- What the function returns. -/
def Value : DaoOperation → Type
  | .runQuery | .insertTransactionOperation _ _ | .insertOperation _ _ _ _ => Unit
  | .fileWasWrittenInThisTransaction _ _ | .writeIntercepted _ | .readIntercepted _ => Bool
  | .lastFileContentFromThisTransaction _ _ => Str
  | .getPendingWrites _ => List (Str × Str)

def program : (operation : DaoOperation) → DaoProgram operation.Value
  | .runQuery => DaoCalls.runQuery
  | .insertTransactionOperation name transactionId =>
      DaoCalls.insertTransactionOperation name transactionId
  | .insertOperation name transactionId filename fileContent =>
      DaoCalls.insertOperation name transactionId filename fileContent
  | .fileWasWrittenInThisTransaction transactionId filename =>
      DaoCalls.fileWasWrittenInThisTransaction transactionId filename
  | .lastFileContentFromThisTransaction transactionId filename =>
      DaoCalls.lastFileContentFromThisTransaction transactionId filename
  | .getPendingWrites transactionId => DaoCalls.getPendingWrites transactionId
  | .writeIntercepted transactionId => DaoCalls.writeIntercepted transactionId
  | .readIntercepted transactionId => DaoCalls.readIntercepted transactionId

end DaoOperation

/-! ## The calls of a function in which none fails -/

/-- Bind the parameters `1` to `count`. -/
def bindCalls (db count : Nat) : List Call :=
  (List.range count).map fun n => .bindText db (n + 1)

/-- A statement with parameters, and what is done with it. -/
def statementCalls (db params : Nat) (work : List Call) : List Call :=
  [.open db, .prepare db] ++ (bindCalls db params ++ (work ++ [.finalize db, .close db]))

/-- One row is delivered, and there are no more. -/
def selectOneCalls (db : Nat) : List Call :=
  [.step db, .column db 0, .step db]

def fetchCalls (db : Nat) : List (Str × Str) → List Call
  | [] => [.step db]
  | _ :: rows => .step db :: .column db 0 :: .column db 1 :: fetchCalls db rows

def DaoOperation.calls (table : OperationTable) (db : Nat) : DaoOperation → List Call
  | .runQuery => [.open db, .exec db, .close db]
  | .insertTransactionOperation _ _ | .insertOperation _ _ _ _ =>
      statementCalls db 4 [.step db]
  | .fileWasWrittenInThisTransaction _ _ | .writeIntercepted _ | .readIntercepted _
  | .lastFileContentFromThisTransaction _ _ => statementCalls db 3 (selectOneCalls db)
  | .getPendingWrites transactionId =>
      statementCalls db 2 (fetchCalls db (Dao.getPendingWrites table transactionId))

/-- The look-up of the last own write needs one. -/
def DaoOperation.FindsRow (table : OperationTable) : DaoOperation → Prop
  | .lastFileContentFromThisTransaction transactionId filename =>
      Dao.fileWasWrittenInThisTransaction table transactionId filename = true
  | _ => True

/-! ## Plans that release everything -/

/-- One connection is opened first and closed last, and a statement prepared on it is
finalized once in between. -/
structure Bracketed (db : Nat) (plan : List Call) : Prop where
  bracket : ∃ work, plan = .open db :: work ++ [.close db] ∧ .close db ∉ work
  connection : ∀ call ∈ plan, call.connection = db
  finalized : .prepare db ∈ plan → plan.count (.finalize db) = 1

/-- A call on the statement between its preparation and its finalization. -/
def Call.IsWork (db : Nat) : Call → Prop
  | .bindText db' _ | .step db' | .column db' _ => db' = db
  | _ => False

theorem Call.IsWork.connection_eq {db : Nat} {call : Call} (h : call.IsWork db) :
    call.connection = db := by
  cases call with
  | bindText db' index => exact h
  | step db' => exact h
  | column db' index => exact h
  | _ => exact h.elim

theorem isWork_bindCalls {db count : Nat} : ∀ call ∈ bindCalls db count, call.IsWork db := by
  intro call hcall
  obtain ⟨n, -, rfl⟩ := List.mem_map.mp hcall
  exact rfl

theorem isWork_selectOneCalls {db : Nat} : ∀ call ∈ selectOneCalls db, call.IsWork db := by
  simp [selectOneCalls, Call.IsWork]

theorem isWork_fetchCalls {db : Nat} (rows : List (Str × Str)) :
    ∀ call ∈ fetchCalls db rows, call.IsWork db := by
  induction rows with
  | nil => simp [fetchCalls, Call.IsWork]
  | cons row rows ih => simpa [fetchCalls, Call.IsWork] using ih

/-- Whatever is done with the statement in between. -/
theorem bracketed_of_work {db : Nat} {work : List Call} (hwork : ∀ call ∈ work, call.IsWork db) :
    Bracketed db ([.open db, .prepare db] ++ (work ++ [.finalize db, .close db])) := by
  have hclose : .close db ∉ work := fun hmem => hwork _ hmem
  have hfinalize : .finalize db ∉ work := fun hmem => hwork _ hmem
  refine ⟨⟨.prepare db :: (work ++ [.finalize db]), ?_, ?_⟩, ?_, ?_⟩
  · simp
  · simp [hclose]
  · intro call hcall
    simp only [List.mem_cons, List.mem_append, List.not_mem_nil, or_false] at hcall
    rcases hcall with (rfl | rfl) | hmem | rfl | rfl
    · rfl
    · rfl
    · exact (hwork call hmem).connection_eq
    · rfl
    · rfl
  · intro _
    have hcount : work.count (.finalize db) = 0 := List.count_eq_zero.mpr hfinalize
    simp [hcount]

theorem bracketed_statementCalls {db params : Nat} {work : List Call}
    (hwork : ∀ call ∈ work, call.IsWork db) : Bracketed db (statementCalls db params work) := by
  have hall : ∀ call ∈ bindCalls db params ++ work, call.IsWork db := by
    intro call hcall
    rcases List.mem_append.mp hcall with hmem | hmem
    · exact isWork_bindCalls call hmem
    · exact hwork call hmem
  have hbracketed := bracketed_of_work hall
  rw [List.append_assoc] at hbracketed
  exact hbracketed

theorem DaoOperation.bracketed_calls (operation : DaoOperation) (table : OperationTable)
    (db : Nat) : Bracketed db (operation.calls table db) := by
  have hstep : ∀ call ∈ [Call.step db], call.IsWork db := by
    simp [Call.IsWork]
  cases operation with
  | runQuery =>
      refine ⟨⟨[.exec db], rfl, by simp⟩, ?_, ?_⟩
      · simp [calls, Call.connection]
      · simp [calls]
  | insertTransactionOperation name transactionId => exact bracketed_statementCalls hstep
  | insertOperation name transactionId filename fileContent => exact bracketed_statementCalls hstep
  | getPendingWrites transactionId => exact bracketed_statementCalls (isWork_fetchCalls _)
  | _ => exact bracketed_statementCalls isWork_selectOneCalls

section Plans

variable {succeeds : Nat → Bool} {n db : Nat} {plan : List Call}

/-- The calls on one connection, up to the one that closes it. -/
theorem released_of_close {front : List (Call × Bool)}
    (hconnection : ∀ made ∈ front, made.1.connection = db)
    (hopen : ∀ made ∈ front, made.1 ≠ .close db)
    (hfinalized : .prepare db ∈ front.map Prod.fst →
      (front.map Prod.fst).count (.finalize db) = 1) :
    Released (front ++ [(.close db, true)]) := by
  have hdb : ∀ made ∈ front ++ [(.close db, true)], made.1.connection = db := by
    intro made hmade
    rcases List.mem_append.mp hmade with hmade | hmade
    · exact hconnection made hmade
    · obtain rfl := List.mem_singleton.mp hmade
      rfl
  have hlast : (.close db, true) ∉ front := fun hmem => hopen _ hmem rfl
  have hsplit : ∀ db' before back, front ++ [(.close db, true)] =
      before ++ (.close db', true) :: back → before = front ∧ back = [] := by
    intro db' before back heq
    obtain rfl : db' = db := hdb (.close db', true) (by rw [heq]; simp)
    have hsame := (List.append_cons_inj_of_notMem hlast List.not_mem_nil).mp heq
    exact ⟨hsame.1.symm, hsame.2.2.symm⟩
  constructor
  · intro db' success hmem
    obtain rfl : db' = db := hdb _ hmem
    rw [List.count_append, List.count_eq_zero.mpr hlast]
    simp
  · intro db' hmem
    obtain rfl : db' = db := hdb _ hmem
    have hprepare : .prepare db' ∈ front.map Prod.fst := by
      rcases List.mem_append.mp hmem with hmem | hmem
      · exact List.mem_map_of_mem hmem
      · cases List.mem_singleton.mp hmem
    have hcount := hfinalized hprepare
    refine ⟨by simp [hcount], ?_⟩
    intro before back heq
    obtain ⟨rfl, -⟩ := hsplit db' before back heq
    exact List.count_pos_iff.mp (by omega)
  · intro db' before back heq later hlater
    obtain ⟨-, rfl⟩ := hsplit db' before back heq
    cases hlater

/-- **A plan carried out releases what it opens.** -/
theorem Bracketed.released (h : Bracketed db plan)
    (hall : AllSucceed Call.Checked succeeds n plan) :
    Released (withOutcomes succeeds n plan) := by
  obtain ⟨⟨work, rfl, hwork⟩, hconnection, hfinalized⟩ := h
  rw [allSucceed_append, allSucceed_singleton] at hall
  have hclose : withOutcomes succeeds (n + (Call.open db :: work).length) [Call.close db] =
      [(Call.close db, true)] := by
    rw [withOutcomes, hall.2 trivial, withOutcomes]
  rw [withOutcomes_append, hclose]
  apply released_of_close
  · intro made hmade
    exact hconnection _ (List.mem_append_left _ (fst_mem_of_mem_withOutcomes hmade))
  · intro made hmade heq
    have hmem := fst_mem_of_mem_withOutcomes hmade
    rw [heq] at hmem
    rcases List.mem_cons.mp hmem with h | h
    · cases h
    · exact hwork h
  · rw [map_fst_withOutcomes]
    intro hprepare
    have hcount := hfinalized (List.mem_append_left _ hprepare)
    simpa [List.count_append] using hcount

/-- A connection that is opened and not closed. -/
theorem not_released_of_open {made : List (Call × Bool)} {success : Bool}
    (hopen : (.open db, success) ∈ made) (hclose : (.close db, true) ∉ made) :
    ¬ Released made := by
  intro h
  have hcount := h.closed db success hopen
  rw [List.count_eq_zero.mpr hclose] at hcount
  cases hcount

/-- **A plan given up leaves its connection open.** -/
theorem Bracketed.not_released (h : Bracketed db plan) {made : List (Call × Bool)}
    (hmade : GivenUp Call.Checked succeeds n plan [.errmsg db] made) : ¬ Released made := by
  obtain ⟨⟨work, hplan, hwork⟩, -, -⟩ := h
  obtain ⟨front, call, back, hsplit, -, hfails, rfl⟩ := hmade
  rw [hplan] at hsplit
  have hfront : .close db ∉ front := by
    intro hmem
    have hbegins : front <+: .open db :: work := by
      have hbefore : front <+: .open db :: work ++ [.close db] := ⟨_, hsplit.symm⟩
      apply List.prefix_of_prefix_length_le hbefore (List.prefix_append _ _)
      have hlength := congrArg List.length hsplit
      simp only [List.length_append, List.length_cons, List.length_nil] at hlength ⊢
      omega
    rcases List.mem_cons.mp (hbegins.subset hmem) with h | h
    · cases h
    · exact hwork h
  have hfirst : ∃ success, (.open db, success) ∈
      withOutcomes succeeds n (front ++ [call, .errmsg db]) := by
    have hhead : (front ++ [call, .errmsg db]).head? = some (.open db) := by
      have h := congrArg List.head? hsplit
      cases front with
      | nil => simpa using h.symm
      | cons first front => simpa using h.symm
    obtain ⟨rest, hrest⟩ := List.head?_eq_some_iff.mp hhead
    exact ⟨succeeds n, by rw [hrest]; exact List.mem_cons_self⟩
  obtain ⟨success, hopen⟩ := hfirst
  apply not_released_of_open hopen
  rw [withOutcomes_append]
  intro hmem
  rcases List.mem_append.mp hmem with hmem | hmem
  · exact hfront (fst_mem_of_mem_withOutcomes hmem)
  · simp [withOutcomes, hfails] at hmem

end Plans

end DistributedFileServer
