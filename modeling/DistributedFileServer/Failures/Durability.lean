import DistributedFileServer.Failures.ServeSpecs

/-!
# When a global commit is on disk

The streams of a global commit are not asked whether they could be opened or
written, so the reply and the `global_commit` row say nothing about the files.
What a file holds afterwards is decided by the last of the transaction's writes
to it whose stream could be opened.
-/

namespace DistributedFileServer

open Programs DeferredUpdate DaoCalls

variable {κ : Type} [DecidableEq κ]

/-- One write of the commit loop, with what happens to its stream. -/
structure Attempt (κ : Type) where
  file : κ
  content : Str
  outcome : FileOutcome

/-- The writes the commit loop is going to make. -/
def Stores.attempts (system : System κ) (s : Stores κ) (transactionId : Str) :
    List (Attempt κ) :=
  ((Dao.getPendingWrites s.log transactionId).zipIdx s.files.opened.length).map fun write =>
    { file := system.locate write.1.1
      content := write.1.2
      outcome := s.files.outcome write.2 }

namespace Attempt

/-- What the write puts into its file, if the file could be opened. -/
def transferred (attempt : Attempt κ) : Option Str :=
  attempt.outcome.transferred attempt.content

/-- The last write to the file whose stream could be opened. -/
def lastOpened (attempts : List (Attempt κ)) (file : κ) : Option (Attempt κ) :=
  (attempts.filter fun attempt =>
    attempt.file = file ∧ attempt.outcome ≠ .notOpened).getLast?

/-- The writes leave this content in the file: the last one that could open the
file transferred just this, or none could and the file held it before. -/
def Leaves (attempts : List (Attempt κ)) (disk : κ → Option Str) (file : κ) (content : Str) :
    Prop :=
  match lastOpened attempts file with
  | some attempt => attempt.transferred = some content
  | none => disk file = some content

/-- Make the writes one after another. -/
def apply (attempts : List (Attempt κ)) (disk : κ → Option Str) : κ → Option Str :=
  attempts.foldl (fun disk attempt =>
    match attempt.transferred with
    | none => disk
    | some transferred => Function.update disk attempt.file (some transferred)) disk

theorem lastOpened_concat (attempts : List (Attempt κ)) (attempt : Attempt κ) (file : κ) :
    lastOpened (attempts ++ [attempt]) file =
      if attempt.file = file ∧ attempt.outcome ≠ .notOpened then some attempt
      else lastOpened attempts file := by
  unfold lastOpened
  rw [List.filter_append]
  by_cases hlast : attempt.file = file ∧ attempt.outcome ≠ .notOpened
  · rw [if_pos hlast, List.filter_cons_of_pos (by simpa using hlast), List.filter_nil,
      List.getLast?_concat]
  · rw [if_neg hlast, List.filter_cons_of_neg (by simpa using hlast), List.filter_nil,
      List.append_nil]

/-- A file holds what its last opened write transferred, or else what it held. -/
theorem apply_eq (attempts : List (Attempt κ)) (disk : κ → Option Str) (file : κ) :
    apply attempts disk file =
      match lastOpened attempts file with
      | some attempt => attempt.transferred
      | none => disk file := by
  induction attempts using List.reverseRecOn with
  | nil => rfl
  | append_singleton attempts attempt ih =>
      rw [lastOpened_concat, apply, List.foldl_concat, ← apply]
      cases htransferred : attempt.transferred with
      | none =>
          -- the stream was not opened
          have hnot : ¬ (attempt.file = file ∧ attempt.outcome ≠ .notOpened) := by
            rintro ⟨-, hopened⟩
            cases houtcome : attempt.outcome <;>
              simp_all [transferred, FileOutcome.transferred]
          rw [if_neg hnot]
          exact ih
      | some content =>
          have hopened : attempt.outcome ≠ .notOpened := by
            intro hnot
            simp [transferred, FileOutcome.transferred, hnot] at htransferred
          by_cases hfile : attempt.file = file
          · rw [if_pos ⟨hfile, hopened⟩]
            show Function.update (apply attempts disk) attempt.file (some content) file =
              attempt.transferred
            rw [hfile, Function.update_self, htransferred]
          · rw [if_neg fun h => hfile h.1]
            show Function.update (apply attempts disk) attempt.file (some content) file = _
            rw [Function.update_of_ne (Ne.symm hfile), ih]

theorem apply_eq_some_iff (attempts : List (Attempt κ)) (disk : κ → Option Str) (file : κ)
    (content : Str) :
    apply attempts disk file = some content ↔ Leaves attempts disk file content := by
  rw [apply_eq, Leaves]
  cases lastOpened attempts file <;> rfl

end Attempt

/-- The commit loop makes the attempts. -/
theorem disk_commitPendingWrites (system : System κ) (s : Stores κ) (transactionId : Str) :
    (s.commitPendingWrites system transactionId).disk =
      Attempt.apply (s.attempts system transactionId) s.files.disk := by
  unfold Stores.commitPendingWrites Stores.attempts
  generalize s.files = files
  induction Dao.getPendingWrites s.log transactionId generalizing files with
  | nil => rfl
  | cons write writes ih =>
      rw [List.foldl_cons, List.zipIdx_cons, List.map_cons, ih]
      simp only [Files.write, List.length_append, List.length_singleton]
      rfl

/-- The writes the transaction asked for, by file. -/
def Stores.requestedWrites (system : System κ) (s : Stores κ) (transactionId : Str) :
    List (κ × Str) :=
  (Dao.getPendingWrites s.log transactionId).map fun write => (system.locate write.1, write.2)

/-- A reply or a logged row means that the commit loop was run. -/
theorem disk_handleGlobalCommitMessage {system : System κ} {world after : World κ}
    {transactionId : Str} {result : Except Failure Ptree}
    (hexec : exec (Serve.handleGlobalCommitMessage system transactionId) world = (result, after))
    (hlogged : (∃ reply, result = .ok reply) ∨
      after.database.table =
        Dao.insertTransactionOperation world.database.table .globalCommit transactionId) :
    after.files.disk = (world.stores.commitPendingWrites system transactionId).disk := by
  replace hexec : exec (Serve.handleRequest system (.globalCommit transactionId)) world =
      (result, after) := hexec
  cases result with
  | ok reply =>
      have hnext := (Prod.mk.inj (Option.some.inj (handleRequest_of_ok hexec))).2
      exact (congrArg (fun stores => stores.files.disk) hnext).symm
  | error failure =>
      have hrow : after.database.table =
          Dao.insertTransactionOperation world.database.table .globalCommit transactionId := by
        rcases hlogged with ⟨reply, hreply⟩ | hrow
        · cases hreply
        · exact hrow
      obtain ⟨-, ⟨hsame, -⟩ | ⟨reply, next, thrown, hnext, -, hfiles, -⟩⟩ :=
        halted_of_error hexec
      · -- the row is not there
        have hlength := congrArg (fun table => table.rows.length) (hsame.symm.trans hrow)
        simp [World.stores, Dao.insertTransactionOperation, Dao.insertOperation] at hlength
      · obtain ⟨-, rfl⟩ := Prod.mk.inj (Option.some.inj hnext)
        exact congrArg Files.disk hfiles

/-- **When an acknowledged commit is on disk.**  Let a global commit be answered or
logged.  Every file the transaction wrote holds the transaction's last content for
it exactly if, for every such file, the last of the writes that could open it
transferred just this content, or none could open it and it held the content
before. -/
theorem handleGlobalCommitMessage_durable_iff {system : System κ} {world after : World κ}
    {transactionId : Str} {result : Except Failure Ptree}
    (hexec : exec (Serve.handleGlobalCommitMessage system transactionId) world = (result, after))
    (hlogged : (∃ reply, result = .ok reply) ∨
      after.database.table =
        Dao.insertTransactionOperation world.database.table .globalCommit transactionId) :
    (∀ file content,
        lastValue (world.stores.requestedWrites system transactionId) file = some content →
        after.files.disk file = some content) ↔
      ∀ file content,
        lastValue (world.stores.requestedWrites system transactionId) file = some content →
        Attempt.Leaves (world.stores.attempts system transactionId) world.files.disk file
          content := by
  rw [disk_handleGlobalCommitMessage hexec hlogged, disk_commitPendingWrites]
  constructor
  · intro hdurable file content hcontent
    exact (Attempt.apply_eq_some_iff _ _ _ _).mp (hdurable file content hcontent)
  · intro hleaves file content hcontent
    exact (Attempt.apply_eq_some_iff _ _ _ _).mpr (hleaves file content hcontent)

/-- `T` has written `x` to the missing file `f`; every SQLite call to come
succeeds, and the output streams have this outcome. -/
def pendingWrite (outcome : FileOutcome) : World Str where
  database :=
    { table := Dao.insertOperation Dao.initDatabase .write (text "T") (text "f") (text "x")
      succeeds := fun _ => true
      connections := 0
      calls := [] }
  files := { disk := fun _ => none, outcome := fun _ => outcome, opened := [] }
  console := []

/-- The file cannot be opened: the commit is answered and logged all the same. -/
theorem handleGlobalCommitMessage_not_written :
    ∃ after, exec (Serve.handleGlobalCommitMessage (.flat ⟨true⟩ fun _ => none) (text "T"))
        (pendingWrite .notOpened) = (.ok (makeVoteCommitMessage (text "T")), after) ∧
      after.database.table = Dao.insertTransactionOperation
        (pendingWrite .notOpened).database.table .globalCommit (text "T") ∧
      lastValue ((pendingWrite .notOpened).stores.requestedWrites
        (.flat ⟨true⟩ fun _ => none) (text "T")) (text "f") = some (text "x") ∧
      after.files.disk (text "f") = none := by
  exact ⟨_, rfl, rfl, rfl, rfl⟩

/-- `T` has written to `f` twice and to `g` and `h` once.  The first write to `f` and the one
to `h` will find no stream, but `h` holds the content already; the stream of `g` takes two
bytes only, which is all there is. -/
def pendingWrites : World Str where
  database :=
    { table := [(text "f", text "x"), (text "g", text "yy"), (text "f", text "z"),
          (text "h", text "w")].foldl
        (fun table write => Dao.insertOperation table .write (text "T") write.1 write.2)
        Dao.initDatabase
      succeeds := fun _ => true
      connections := 0
      calls := [] }
  files :=
    { disk := Function.update (fun _ => none) (text "h") (some (text "w"))
      outcome := fun n => if n = 1 then .partly 2 else if n = 2 then .complete else .notOpened
      opened := [] }
  console := []

/-- Some streams fail, and the commit is on disk all the same. -/
theorem handleGlobalCommitMessage_durable_iff_mixed :
    ∃ after, exec (Serve.handleGlobalCommitMessage (.flat ⟨true⟩ fun _ => none) (text "T"))
        pendingWrites = (.ok (makeVoteCommitMessage (text "T")), after) ∧
      (pendingWrites.stores.attempts (.flat ⟨true⟩ fun _ => none) (text "T")).map
        Attempt.outcome = [.notOpened, .partly 2, .complete, .notOpened] ∧
      ∀ file content, lastValue (pendingWrites.stores.requestedWrites
          (.flat ⟨true⟩ fun _ => none) (text "T")) file = some content →
        after.files.disk file = some content := by
  obtain ⟨after, hexec⟩ : ∃ after,
      exec (Serve.handleGlobalCommitMessage (.flat ⟨true⟩ fun _ => none) (text "T"))
        pendingWrites = (.ok (makeVoteCommitMessage (text "T")), after) := ⟨_, rfl⟩
  refine ⟨after, hexec, rfl, ?_⟩
  refine (handleGlobalCommitMessage_durable_iff hexec (Or.inl ⟨_, rfl⟩)).mpr ?_
  intro file content hlast
  have hmem : (file, content) ∈ [(text "f", text "x"), (text "g", text "yy"),
      (text "f", text "z"), (text "h", text "w")] := mem_of_lastValue_eq_some hlast
  simp only [List.mem_cons, Prod.mk.injEq, List.not_mem_nil, or_false] at hmem
  rcases hmem with ⟨rfl, rfl⟩ | ⟨rfl, rfl⟩ | ⟨rfl, rfl⟩ | ⟨rfl, rfl⟩
  · -- a later write to `f` is the last
    exact absurd hlast (by decide)
  · rfl
  · rfl
  · rfl

end DistributedFileServer
