import DistributedFileServer.Failures.ServeSpecs

/-!
# What a failed request leaves behind

No request is undone when it fails.  The log and the files are exactly as before
the request in all cases but two: the row was inserted and its statement or
connection could not be closed, or the files of a global commit were written and
its row could not be inserted.  In both cases everything else is what the same
request does when no SQLite call fails.
-/

namespace DistributedFileServer

open Programs DaoCalls

variable {κ : Type} [DecidableEq κ]

/-- The same world, where every SQLite call succeeds. -/
def World.reliable (world : World κ) : World κ :=
  { world with database := { world.database with succeeds := fun _ => true } }

/-- **What a failed request leaves.**  If a request ends without a reply, the log
and the files are as before; or an SQLite exception ended it, the files are as the
same request leaves them when no SQLite call fails, and so is the log if it was the
finalizing or the closing that failed, while the log of a global commit may be as
before. -/
theorem calculateResponse_failure {system : System κ} {world after : World κ} {request : Str}
    {failure : Failure}
    (hexec : exec (Serve.calculateResponse system request) world = (.error failure, after)) :
    (after.database.table = world.database.table ∧ after.files.disk = world.files.disk) ∨
      ∃ reply done thrown,
        exec (Serve.calculateResponse system request) world.reliable = (.ok reply, done) ∧
        failure = .sqlite thrown ∧ after.files.disk = done.files.disk ∧
        ((after.database.table = done.database.table ∧ thrown.Closing) ∨
          (after.database.table = world.database.table ∧
            ∃ reqJson transactionId, system.fromString request = some reqJson ∧
              Request.ofPtree reqJson = .ok (.globalCommit transactionId))) := by
  unfold Serve.calculateResponse at hexec ⊢
  cases hjson : system.fromString request with
  | none =>
      simp only [hjson] at hexec
      obtain ⟨-, rfl⟩ := Prod.mk.inj hexec
      exact Or.inl ⟨rfl, rfl⟩
  | some reqJson =>
      simp only [hjson] at hexec ⊢
      cases hrequest : Request.ofPtree reqJson with
      | error exception =>
          simp only [hrequest] at hexec
          obtain ⟨-, rfl⟩ := Prod.mk.inj hexec
          exact Or.inl ⟨rfl, rfl⟩
      | ok request =>
          simp only [hrequest] at hexec ⊢
          obtain ⟨-, hstopped⟩ := halted_of_error hexec
          rcases hstopped with ⟨hlog, hfiles⟩ | ⟨reply, next, thrown, hnext, rfl, hfiles, hlog⟩
          · exact Or.inl ⟨hlog, congrArg Files.disk hfiles⟩
          · have hreliable : world.reliable.stores = world.stores := rfl
            rw [← hreliable] at hnext
            obtain ⟨done, hdone, rfl, -⟩ := exec_of_succeeds rfl hnext
            have hdisk : after.files.disk = done.files.disk := congrArg Files.disk hfiles
            rcases hlog with hlog | hlog
            · -- the row is missing: only a global commit has changed files by then
              rcases disk_handleRequest hnext with hsame | ⟨transactionId, rfl⟩
              · exact Or.inl ⟨hlog, hdisk.trans hsame⟩
              · exact Or.inr ⟨reply, done, thrown, hdone, rfl, hdisk,
                  Or.inr ⟨hlog, reqJson, transactionId, rfl, hrequest⟩⟩
            · exact Or.inr ⟨reply, done, thrown, hdone, rfl, hdisk, Or.inl hlog⟩

/-- The text of a global commit of `T`. -/
def commitText : Str :=
  text "\x7b\"name\":\"global_commit\",\"transaction_id\":\"T\"\x7d"

/-- A server whose parser is given on `commitText`. -/
def commitSystem : System Str :=
  .flat ⟨true⟩ fun request =>
    if request = commitText then some (Request.globalCommit (text "T")).toPtree else none

/-- `T` has written `x` to the missing file `f`; the `n`-th SQLite call to come
fails. -/
def failingAt (n : Nat) : World Str where
  database :=
    { table := Dao.insertOperation Dao.initDatabase .write (text "T") (text "f") (text "x")
      succeeds := fun call => call ≠ n
      connections := 0
      calls := [] }
  files := { disk := fun _ => none, outcome := fun _ => .complete, opened := [] }
  console := []

/-- The insertion of the `global_commit` row fails after the file was written. -/
theorem calculateResponse_failure_written :
    ∃ after, exec (Serve.calculateResponse commitSystem commitText) (failingAt 16) =
        (.error (.sqlite .insert), after) ∧
      (failingAt 16).files.disk (text "f") = none ∧
      after.files.disk (text "f") = some (text "x") := by
  exact ⟨_, rfl, rfl, rfl⟩

/-- The `global_commit` row is there when the closing of its connection fails. -/
theorem calculateResponse_failure_closing :
    ∃ failure after, exec (Serve.calculateResponse commitSystem commitText) (failingAt 18) =
        (.error failure, after) ∧
      ((after.database.table = (failingAt 18).database.table ∧
          after.files.disk = (failingAt 18).files.disk) ∨
        ∃ reply done thrown,
          exec (Serve.calculateResponse commitSystem commitText) (failingAt 18).reliable =
            (.ok reply, done) ∧
          failure = .sqlite thrown ∧ after.files.disk = done.files.disk ∧
          ((after.database.table = done.database.table ∧ thrown.Closing) ∨
            (after.database.table = (failingAt 18).database.table ∧
              ∃ reqJson transactionId, commitSystem.fromString commitText = some reqJson ∧
                Request.ofPtree reqJson = .ok (.globalCommit transactionId)))) := by
  obtain ⟨failure, after, hexec⟩ : ∃ failure after,
      exec (Serve.calculateResponse commitSystem commitText) (failingAt 18) =
        (.error failure, after) := ⟨_, _, rfl⟩
  exact ⟨failure, after, hexec, calculateResponse_failure hexec⟩

end DistributedFileServer
