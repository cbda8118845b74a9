import DistributedFileServer.Log.Serving
import Mathlib.Logic.Relation

/-!
# Redoing a commit after a crash

A global commit writes the pending files one after another and logs the commit
last.  If it stops on the way, some files are written, one may hold anything,
and the log does not know.  The pending writes stay the same until the commit is
tried again, and they rewrite every file that the failed attempts touched.
-/

namespace DistributedFileServer

open DeferredUpdate Dao Controller

/-- An attempt at the transaction's global commit that stopped on its way: it had
applied some first part of the pending writes and left anything in the file of
the next one.  It logged nothing; the server may have been restarted since, with
another console. -/
structure FailedAttempt (transactionId : Str) (s next : ServerState) : Prop where
  log : next.log = s.log
  stopped : ∃ applied rest, getPendingWrites s.log transactionId = applied ++ rest ∧
    (next.sharedDirectory = applyWrites applied s.sharedDirectory ∨
      ∃ write others left, rest = write :: others ∧
        next.sharedDirectory =
          Function.update (applyWrites applied s.sharedDirectory) write.1 left)

/-- What may happen between two attempts at the transaction's global commit. -/
inductive RecoveryStep (cfg : Config) (transactionId : Str) : ServerState → ServerState → Prop
  /-- a further failed attempt -/
  | attempt {s next : ServerState} (h : FailedAttempt transactionId s next) :
      RecoveryStep cfg transactionId s next
  /-- a request of another transaction that is no global commit -/
  | request {s next : ServerState} {request : Request} {reply : Reply}
      (hother : cString request.transactionId ≠ cString transactionId)
      (hcommit : ∀ other, request ≠ .globalCommit other)
      (hhandle : handleRequest cfg s request = some (reply, next)) :
      RecoveryStep cfg transactionId s next

/-- What the attempts keep: the pending writes of the transaction, and the files
it has not written. -/
structure Recoverable (transactionId : Str) (s next : ServerState) : Prop where
  pending : getPendingWrites next.log transactionId = getPendingWrites s.log transactionId
  untouched : ∀ filename,
    lastValue (getPendingWrites s.log transactionId) filename = none →
    next.sharedDirectory filename = s.sharedDirectory filename

theorem Recoverable.refl (transactionId : Str) (s : ServerState) :
    Recoverable transactionId s s :=
  ⟨rfl, fun _ _ => rfl⟩

theorem Recoverable.trans {transactionId : Str} {s middle next : ServerState}
    (h : Recoverable transactionId s middle) (h' : Recoverable transactionId middle next) :
    Recoverable transactionId s next := by
  refine ⟨h'.pending.trans h.pending, ?_⟩
  intro filename hnone
  rw [h'.untouched filename (by rw [h.pending]; exact hnone), h.untouched filename hnone]

/-- A row of another transaction is no pending write. -/
theorem getPendingWrites_insertOperation {table : OperationTable} {name : OperationName}
    {transactionId other filename data : Str} (hother : cString other ≠ cString transactionId) :
    getPendingWrites (insertOperation table name other filename data) transactionId =
      getPendingWrites table transactionId := by
  rw [getPendingWrites_eq, getPendingWrites_eq, history_insertOperation]
  apply writesOf_concat_of_ne
  intro howner
  rw [Operation.owner_entry] at howner
  exact absurd howner hother

theorem FailedAttempt.recoverable {transactionId : Str} {s next : ServerState}
    (h : FailedAttempt transactionId s next) : Recoverable transactionId s next := by
  refine ⟨by rw [h.log], ?_⟩
  intro filename hnone
  obtain ⟨applied, rest, hpending, hstopped⟩ := h.stopped
  rw [hpending, lastValue_eq_none_iff] at hnone
  have happlied : applyWrites applied s.sharedDirectory filename = s.sharedDirectory filename := by
    have hnone' : lastValue applied filename = none := by
      rw [lastValue_eq_none_iff]
      intro write hwrite
      exact hnone write (List.mem_append_left _ hwrite)
    rw [applyWrites_apply, hnone', Option.none_or]
  rcases hstopped with hdirectory | ⟨write, others, left, rfl, hdirectory⟩
  · rw [hdirectory, happlied]
  · -- the file left half written is one the transaction writes
    have hne : filename ≠ write.1 := (hnone write (by simp)).symm
    rw [hdirectory, Function.update_of_ne hne, happlied]

theorem RecoveryStep.recoverable {cfg : Config} {transactionId : Str} {s next : ServerState}
    (h : RecoveryStep cfg transactionId s next) : Recoverable transactionId s next := by
  cases h with
  | attempt h => exact h.recoverable
  | request hother hcommit hhandle =>
      constructor
      · rcases log_handleRequest hhandle with hlog | ⟨name, filename, data, hlog⟩
        · rw [hlog]
        · rw [hlog, getPendingWrites_insertOperation hother]
      · intro filename _
        rcases sharedDirectory_handleRequest hhandle with hdirectory | ⟨other, rfl⟩
        · rw [hdirectory]
        · exact absurd rfl (hcommit other)

/-- Whatever happens between the attempts can be recovered from. -/
theorem recoverable_of_steps {cfg : Config} {transactionId : Str} {s next : ServerState}
    (h : Relation.ReflTransGen (RecoveryStep cfg transactionId) s next) :
    Recoverable transactionId s next := by
  induction h with
  | refl => exact Recoverable.refl transactionId s
  | tail _ hstep ih => exact ih.trans hstep.recoverable

/-- The commit rewrites all that the failed attempts may have touched. -/
theorem Recoverable.commit_eq {transactionId : Str} {s next : ServerState}
    (h : Recoverable transactionId s next) :
    applyWrites (getPendingWrites next.log transactionId) next.sharedDirectory =
      applyWrites (getPendingWrites s.log transactionId) s.sharedDirectory := by
  funext filename
  rw [h.pending, applyWrites_apply, applyWrites_apply]
  cases hlast : lastValue (getPendingWrites s.log transactionId) filename with
  | some content => rfl
  | none => rw [h.untouched filename hlast]

/-- **A commit can be redone.**  In every state, after any failed attempts at a
global commit and any requests of other transactions that do not commit, the
global commit leaves the shared directory that it would have left at the start. -/
theorem redo_globalCommit {cfg : Config} {s next done redone : ServerState}
    {transactionId : Str} {reply reply' : Reply}
    (hsteps : Relation.ReflTransGen (RecoveryStep cfg transactionId) s next)
    (hdone : handleRequest cfg s (.globalCommit transactionId) = some (reply, done))
    (hredone : handleRequest cfg next (.globalCommit transactionId) = some (reply', redone)) :
    redone.sharedDirectory = done.sharedDirectory := by
  rw [sharedDirectory_globalCommit hdone, sharedDirectory_globalCommit hredone,
    (recoverable_of_steps hsteps).commit_eq]

/-- The commit of `T` stops in its second file, and `U` reads what it left there. -/
theorem redo_globalCommit_second_file :
    ∃ exchanges s next reply done reply' redone,
      run ⟨true⟩ (.initial (fun _ => none) [])
        [.write (text "T") (text "f") (text "x"), .write (text "T") (text "g") (text "y")] =
        some (exchanges, s) ∧
      Relation.ReflTransGen (RecoveryStep ⟨true⟩ (text "T")) s next ∧
      next.sharedDirectory (text "g") = some (text "half") ∧
      handleRequest ⟨true⟩ s (.globalCommit (text "T")) = some (reply, done) ∧
      handleRequest ⟨true⟩ next (.globalCommit (text "T")) = some (reply', redone) ∧
      redone.sharedDirectory = done.sharedDirectory := by
  obtain ⟨exchanges, s, hrun, hpending⟩ : ∃ exchanges s,
      run ⟨true⟩ (.initial (fun _ => none) [])
        [.write (text "T") (text "f") (text "x"), .write (text "T") (text "g") (text "y")] =
        some (exchanges, s) ∧
      getPendingWrites s.log (text "T") =
        [(text "f", text "x")] ++ [(text "g", text "y")] := ⟨_, _, rfl, by decide⟩
  obtain ⟨stopped, hattempt, hhalf⟩ : ∃ stopped, FailedAttempt (text "T") s stopped ∧
      stopped.sharedDirectory (text "g") = some (text "half") :=
    ⟨{ s with
        sharedDirectory := Function.update
          (applyWrites [(text "f", text "x")] s.sharedDirectory) (text "g") (some (text "half")) },
      ⟨rfl, _, _, hpending, Or.inr ⟨_, _, _, rfl, rfl⟩⟩, by simp⟩
  obtain ⟨reply, next, hread⟩ :=
    handleRequest_isSome ⟨true⟩ rfl stopped (.read (text "U") (text "g"))
  obtain ⟨reply', done, hdone⟩ :=
    handleRequest_isSome ⟨true⟩ rfl s (.globalCommit (text "T"))
  obtain ⟨reply'', redone, hredone⟩ :=
    handleRequest_isSome ⟨true⟩ rfl next (.globalCommit (text "T"))
  have hsteps : Relation.ReflTransGen (RecoveryStep ⟨true⟩ (text "T")) s next :=
    (Relation.ReflTransGen.single (.attempt hattempt)).tail
      (.request (by decide) (fun _ => Request.noConfusion) hread)
  have hleft : next.sharedDirectory (text "g") = some (text "half") := by
    rcases sharedDirectory_handleRequest hread with hsame | ⟨other, hother⟩
    · rw [hsame, hhalf]
    · cases hother
  exact ⟨exchanges, s, next, reply', done, reply'', redone, hrun, hsteps, hleft, hdone, hredone,
    redo_globalCommit hsteps hdone hredone⟩

end DistributedFileServer
