import DistributedFileServer.Failures.CommittedContent
import DistributedFileServer.Failures.Retries

/-!
# Files in doubt

A global commit that fails, or whose streams do not take everything, may leave
anything in the files it writes, and they stay in doubt until a commit that writes
them goes through as a whole.  All other files are at any time what the log makes of
the initial ones, whichever calls and streams fail.

A server that is stopped in the middle of a request leaves the log and the files as
a request does whose next call fails and whose further streams are not opened.  So a
run with failures stands for one with restarts as well.
-/

namespace DistributedFileServer

open Programs DeferredUpdate

variable {κ : Type} [DecidableEq κ]

/-- The files that a global commit of the transaction writes. -/
def Stores.filesOf (system : System κ) (s : Stores κ) (transactionId : Str) : List κ :=
  (Dao.getPendingWrites s.log transactionId).map fun write => system.locate write.1

/-- A global commit has logged its row, and its streams take everything. -/
def Whole (world after : World κ) (transactionId : Str) : Prop :=
  world.database.table.rows.length < after.database.table.rows.length ∧
    Streamed.StreamsComplete world transactionId

instance (world after : World κ) (transactionId : Str) :
    Decidable (Whole world after transactionId) :=
  inferInstanceAs (Decidable (_ ∧ ∀ n < _, _ = _))

/-- The files in doubt after a request, given those before. -/
def doubtAfter (system : System κ) (world after : World κ) (doubt : List κ) :
    Request → List κ
  | .globalCommit transactionId =>
      let files := world.stores.filesOf system transactionId
      if Whole world after transactionId then
        doubt.filter fun file => file ∉ files
      else
        files ++ doubt
  | .read _ _ | .write _ _ _ | .prepare _ | .globalAbort _ | .unsupported _ => doubt

/-- The files in doubt after a run of the accept loop. -/
def inDoubt (system : System κ) : World κ → List κ → List Request → List κ
  | _, doubt, [] => doubt
  | world, doubt, request :: requests =>
      match exec (Serve.handleRequest system request) world with
      | (.error .hangs, next) => doubtAfter system world next doubt request
      | (_, next) => inDoubt system next (doubtAfter system world next doubt request) requests

/-- The files are what the log makes of the initial ones, except those in doubt. -/
def SettledExcept (system : System κ) (initial : κ → Option Str) (doubt : List κ)
    (s : Stores κ) : Prop :=
  ∀ file, file ∉ doubt →
    s.files.disk file = locatedDisk system.locate initial s.log.history file

/-! ## One request -/

section Step

variable {system : System κ} {initial : κ → Option Str} {s next : Stores κ} {request : Request}
  {reply : Ptree}

/-- What a request logs, in both modes. -/
theorem Stores.history_handleRequest (h : s.handleRequest system request = some (reply, next)) :
    ∃ granted, next.log.history = s.log.history ++ logged cString granted request := by
  cases request with
  | prepare transactionId =>
      obtain ⟨console, -, ⟨-, rfl⟩ | ⟨-, rfl⟩⟩ := handleRequest_prepare h
      · exact ⟨true, history_insertOperation _ _ _ _ _⟩
      · exact ⟨false, history_insertOperation _ _ _ _ _⟩
  | unsupported transactionId =>
      obtain ⟨-, rfl⟩ := Prod.mk.inj (Option.some.inj h)
      exact ⟨true, (List.append_nil _).symm⟩
  | _ =>
      obtain ⟨-, rfl⟩ := Prod.mk.inj (Option.some.inj h)
      exact ⟨true, history_insertOperation _ _ _ _ _⟩

/-- A logged commit makes its last writes out of the files. -/
theorem locatedDisk_commit (locate : Str → κ) (log : OperationTable) (transactionId : Str)
    (file : κ) :
    locatedDisk locate initial (log.history ++ [.commit (cString transactionId)]) file =
      (lastValue ((Dao.getPendingWrites log transactionId).map
        fun write => (locate write.1, write.2)) file).or
        (locatedDisk locate initial log.history file) := by
  unfold locatedDisk
  rw [List.map_append, List.map_singleton, replay_concat]
  show applyWrites (writesOf _ (cString transactionId)) _ file = _
  rw [applyWrites_apply, writesOf_map_id, getPendingWrites_eq]
  rfl

omit [DecidableEq κ] in
theorem mem_filesOf_iff {transactionId : Str} {file : κ} :
    file ∈ s.filesOf system transactionId ↔
      ∃ write ∈ Dao.getPendingWrites s.log transactionId, system.locate write.1 = file :=
  List.mem_map

theorem lastValue_eq_none_iff_not_mem_filesOf {transactionId : Str} {file : κ} :
    lastValue ((Dao.getPendingWrites s.log transactionId).map
      fun write => (system.locate write.1, write.2)) file = none ↔
      file ∉ s.filesOf system transactionId := by
  rw [lastValue_eq_none_iff, mem_filesOf_iff, List.forall_mem_map]
  push Not
  rfl

/-- Whatever happens to its streams, a commit leaves other files alone. -/
theorem disk_commitPendingWrites_of_not_mem {transactionId : Str} {file : κ}
    (h : file ∉ s.filesOf system transactionId) :
    (s.commitPendingWrites system transactionId).disk file = s.files.disk file :=
  @Streamed.disk_foldl_write_of_ne κ _ system.locate id file _ s.files
    fun write hwrite heq => h (mem_filesOf_iff.mpr ⟨write, hwrite, heq⟩)

/-- What a request leaves, whether it is answered or not: nothing, or its files, with or
without its row. -/
theorem exec_effects {world after : World κ} {result : Except Failure Ptree}
    (hexec : exec (Serve.handleRequest system request) world = (result, after)) :
    (after.database.table = world.database.table ∧ after.files = world.files) ∨
      ∃ reply next, world.stores.handleRequest system request = some (reply, next) ∧
        after.files = next.files ∧
        (after.database.table = world.database.table ∨ after.database.table = next.log) := by
  cases result with
  | ok reply => exact Or.inr ⟨reply, _, handleRequest_of_ok hexec, rfl, Or.inr rfl⟩
  | error failure =>
      rcases (halted_of_error hexec).2 with hnothing | ⟨reply, next, _, hnext, -, hfiles, htable⟩
      · exact Or.inl hnothing
      · refine Or.inr ⟨reply, next, hnext, hfiles, ?_⟩
        rcases htable with htable | ⟨htable, -⟩
        · exact Or.inl htable
        · exact Or.inr htable

/-- **One commit.** -/
theorem SettledExcept.commit {doubt : List κ} {world after : World κ} {transactionId : Str}
    {result : Except Failure Ptree} (h : SettledExcept system initial doubt world.stores)
    (hexec : exec (Serve.handleRequest system (.globalCommit transactionId)) world =
      (result, after)) :
    SettledExcept system initial
      (doubtAfter system world after doubt (.globalCommit transactionId)) after.stores := by
  intro file hfile
  have hinsert : (Dao.insertOperation world.database.table .globalCommit transactionId
      [] []).history = world.database.table.history ++ [.commit (cString transactionId)] :=
    history_insertOperation _ _ _ _ _
  change file ∉ (if Whole world after transactionId then _ else _) at hfile
  by_cases hwhole : Whole world after transactionId
  · obtain ⟨hlogged, hcomplete⟩ := hwhole
    rw [if_pos ⟨hlogged, hcomplete⟩, List.mem_filter] at hfile
    -- the row is there, so the loop over the pending writes is done
    rcases exec_effects hexec with ⟨htable, -⟩ | ⟨_, next, hnext, hfiles, htable | htable⟩
    · rw [htable] at hlogged
      exact absurd hlogged (Nat.lt_irrefl _)
    · rw [htable] at hlogged
      exact absurd hlogged (Nat.lt_irrefl _)
    · obtain ⟨-, rfl⟩ := Prod.mk.inj (Option.some.inj hnext)
      have hhistory : after.stores.log.history =
          world.database.table.history ++ [.commit (cString transactionId)] :=
        (congrArg OperationTable.history htable).trans hinsert
      have hdisk : after.files.disk = applyWrites
          ((Dao.getPendingWrites world.database.table transactionId).map
            fun write => (system.locate write.1, write.2)) world.files.disk :=
        (congrArg Files.disk hfiles).trans
          (disk_foldl_write_of_complete system.locate id _ hcomplete)
      show after.files.disk file = _
      rw [hhistory, locatedDisk_commit, hdisk, applyWrites_apply]
      cases hlast : lastValue ((Dao.getPendingWrites world.database.table transactionId).map
          fun write => (system.locate write.1, write.2)) file with
      | some content => rfl
      | none =>
          -- the commit does not write this file, so it was not in doubt before
          have hother : file ∉ world.stores.filesOf system transactionId :=
            lastValue_eq_none_iff_not_mem_filesOf.mp hlast
          have hdoubt : file ∉ doubt := fun hmem => hfile ⟨hmem, by simpa using hother⟩
          exact h file hdoubt
  · rw [if_neg hwhole, List.mem_append, not_or] at hfile
    -- whatever the commit has done, it has not done it to this file
    obtain ⟨hother, hdoubt⟩ := hfile
    have hbefore := h file hdoubt
    rcases exec_effects hexec with ⟨htable, hfiles⟩ | ⟨_, next, hnext, hfiles, htable⟩
    · show after.files.disk file =
        locatedDisk system.locate initial after.database.table.history file
      rw [htable, hfiles]
      exact hbefore
    · obtain ⟨-, rfl⟩ := Prod.mk.inj (Option.some.inj hnext)
      have hdisk : after.files.disk file = world.files.disk file :=
        (congrArg (fun files : Files κ => files.disk file) hfiles).trans
          (disk_commitPendingWrites_of_not_mem hother)
      show after.files.disk file =
        locatedDisk system.locate initial after.database.table.history file
      rw [hdisk]
      rcases htable with htable | htable
      · rw [htable]
        exact hbefore
      · have hhistory : after.database.table.history =
            world.database.table.history ++ [.commit (cString transactionId)] :=
          (congrArg OperationTable.history htable).trans hinsert
        have hnone : lastValue ((Dao.getPendingWrites world.database.table transactionId).map
            fun write => (system.locate write.1, write.2)) file = none :=
          lastValue_eq_none_iff_not_mem_filesOf.mpr hother
        rw [hhistory, locatedDisk_commit, hnone, Option.none_or]
        exact hbefore

/-- **One request.**  Only a commit can put files in doubt. -/
theorem SettledExcept.exec {doubt : List κ} {world after : World κ}
    {result : Except Failure Ptree} (h : SettledExcept system initial doubt world.stores)
    (hexec : exec (Serve.handleRequest system request) world = (result, after)) :
    SettledExcept system initial (doubtAfter system world after doubt request)
      after.stores := by
  by_cases hcommit : ∃ transactionId, request = .globalCommit transactionId
  · obtain ⟨transactionId, rfl⟩ := hcommit
    exact h.commit hexec
  · have hother : ∀ transactionId, request ≠ .globalCommit transactionId :=
      fun transactionId heq => hcommit ⟨transactionId, heq⟩
    have hdoubt : doubtAfter system world after doubt request = doubt := by
      cases request with
      | globalCommit transactionId => exact absurd rfl (hother transactionId)
      | _ => rfl
    rw [hdoubt]
    intro file hfile
    have hbefore := h file hfile
    show after.files.disk file =
      locatedDisk system.locate initial after.database.table.history file
    rcases exec_effects hexec with ⟨htable, hfiles⟩ | ⟨_, next, hnext, hfiles, htable⟩
    · rw [htable, hfiles]
      exact hbefore
    · have hdisk : after.files.disk = world.files.disk := by
        rcases disk_handleRequest hnext with hsame | ⟨transactionId, heq⟩
        · rw [hfiles, hsame]
          rfl
        · exact absurd heq (hother transactionId)
      obtain ⟨granted, hhistory⟩ := Stores.history_handleRequest hnext
      rw [hdisk]
      rcases htable with htable | htable
      · rw [htable]
        exact hbefore
      · rw [htable, hhistory, locatedDisk_append_logged system.locate granted hother]
        exact hbefore

/-- A read of a file that the transaction has written, or that is what the log makes of
it. -/
theorem getFileContent_eq_locatedValue {transactionId filename : Str}
    (h : lastValue (writesOf s.log.history (cString transactionId)) (cString filename) ≠ none ∨
      s.files.disk (system.locate filename) =
        locatedDisk system.locate initial s.log.history (system.locate filename)) :
    (s.getFileContent system transactionId filename).1 =
      (locatedValue system.locate initial s.log.history (cString transactionId)
        (cString filename)).getD [] := by
  unfold Stores.getFileContent locatedValue
  rw [lastFileContentFromThisTransaction_eq]
  cases hlast : lastValue (writesOf s.log.history (cString transactionId)) (cString filename) with
  | some content => rfl
  | none =>
      have hfile := h.resolve_left fun hwritten => hwritten hlast
      show (s.files.disk (system.locate filename)).getD [] = _
      rw [hfile, Option.none_or, system.locate_cString]
      rfl

end Step

/-! ## Runs -/

section Runs

variable {system : System κ} {initial : κ → Option Str}

/-- The run lemma, by induction on the requests. -/
theorem settledExcept_run {doubt : List κ} {world : World κ}
    (h : SettledExcept system initial doubt world.stores) (requests : List Request) :
    SettledExcept system initial (inDoubt system world doubt requests)
      (Serve.run system world requests).2.stores := by
  induction requests generalizing world doubt with
  | nil => exact h
  | cons request requests ih =>
      unfold inDoubt Serve.run
      cases hexec : exec (Serve.handleRequest system request) world with
      | mk result after =>
          have hafter := h.exec hexec
          cases result with
          | ok reply => exact ih hafter
          | error failure =>
              cases failure with
              | hangs => exact hafter
              | _ => exact ih hafter

/-- **The redo log under failures.**  Whichever SQLite calls and streams fail in a run,
every file that is not in doubt is what the log makes of the initial ones; and whoever
reads a file that it has written itself, or that is not in doubt, reads what the log
says.  The streams do not translate line ends; `Streamed.run_text` leads from those that
do to these. -/
theorem run_inDoubt {world final : World κ} (hfresh : world.database.table = Dao.initDatabase)
    {requests : List Request} {outcomes : List Serve.Outcome}
    (hrun : Serve.run system world requests = (outcomes, final)) :
    (∀ file, file ∉ inDoubt system world [] requests →
      final.files.disk file = locatedDisk system.locate world.files.disk
        final.database.table.history file) ∧
    ∀ transactionId filename reply after,
      exec (Serve.handleRequest system (.read transactionId filename)) final =
        (.ok reply, after) →
      Dao.fileWasWrittenInThisTransaction final.database.table transactionId filename = true ∨
        system.locate filename ∉ inDoubt system world [] requests →
      reply = makeReadResponseMessage transactionId filename
        ((locatedValue system.locate world.files.disk final.database.table.history
          (cString transactionId) (cString filename)).getD []) := by
  have hstart : SettledExcept system world.files.disk [] world.stores := by
    intro file _
    show world.files.disk file =
      locatedDisk system.locate world.files.disk world.database.table.history file
    rw [hfresh]
    rfl
  have hfinal := settledExcept_run hstart requests
  rw [hrun] at hfinal
  refine ⟨hfinal, ?_⟩
  intro transactionId filename reply after hexec hknown
  obtain ⟨rfl, -⟩ := Prod.mk.inj (Option.some.inj (handleRequest_of_ok hexec))
  congr 1
  apply getFileContent_eq_locatedValue
  rcases hknown with hwritten | hfile
  · exact Or.inl ((fileWasWrittenInThisTransaction_iff _ _ _).mp hwritten)
  · exact Or.inr (hfinal _ hfile)

/-- The row of a commit is not logged, so its file is in doubt until the commit is
repeated. -/
theorem run_inDoubt_repeated :
    ∃ outcomes final,
      Serve.run (.flat ⟨true⟩ fun _ => none) (freshFailingAt 25)
        [.write (text "T") (text "f") (text "x"), .globalCommit (text "T"),
          .globalCommit (text "T")] = (outcomes, final) ∧
      inDoubt (.flat ⟨true⟩ fun _ => none) (freshFailingAt 25) []
        [.write (text "T") (text "f") (text "x"), .globalCommit (text "T")] = [text "f"] ∧
      ∀ file, final.files.disk file = locatedDisk cString (freshFailingAt 25).files.disk
        final.database.table.history file := by
  obtain ⟨outcomes, final, hrun⟩ : ∃ outcomes final,
      Serve.run (.flat ⟨true⟩ fun _ => none) (freshFailingAt 25)
        [.write (text "T") (text "f") (text "x"), .globalCommit (text "T"),
          .globalCommit (text "T")] = (outcomes, final) := ⟨_, _, rfl⟩
  have hnone : inDoubt (.flat ⟨true⟩ fun _ => none) (freshFailingAt 25) []
      [.write (text "T") (text "f") (text "x"), .globalCommit (text "T"),
        .globalCommit (text "T")] = [] := by decide
  refine ⟨outcomes, final, hrun, by decide, ?_⟩
  intro file
  have hwhole := (run_inDoubt rfl hrun).1 file
  rw [hnone] at hwhole
  exact hwhole List.not_mem_nil

end Runs

end DistributedFileServer
