import DistributedFileServer.Failures.ServeSpecs
import DistributedFileServer.Log.Serving

/-!
# Answers under a way of storing texts

What the server answers depends on how it stores texts, which decides what counts
as the same transaction and the same name in the log, and on where names lead on
the disk.  The server stores texts as C strings.  Where nothing fails, its runs
are the ones described here for this way of storing.
-/

namespace DistributedFileServer

open Programs DeferredUpdate DaoCalls

variable {κ : Type} [DecidableEq κ]

/-- What is logged for a request, given the vote for a `prepare`. -/
def logged (store : Str → Str) (granted : Bool) : Request → History Str Str Str
  | .read transactionId filename => [.read (store transactionId) (store filename)]
  | .write transactionId filename data =>
      [.write (store transactionId) (store filename) (store data)]
  | .prepare transactionId => [.vote (store transactionId) granted]
  | .globalCommit transactionId => [.commit (store transactionId)]
  | .globalAbort transactionId => [.abort (store transactionId)]
  | .unsupported _ => []

/-- The reply after a history, given the vote for a `prepare`. -/
def replyTo (store : Str → Str) (locate : Str → κ) (initial : κ → Option Str)
    (history : History Str Str Str) (granted : Bool) : Request → Ptree
  | .read transactionId filename =>
      makeReadResponseMessage transactionId filename
        ((locatedValue locate initial history (store transactionId) (store filename)).getD [])
  | .write transactionId _ _ => makeWriteResponseMessage transactionId
  | .prepare transactionId =>
      if granted then makeVoteCommitMessage transactionId else makeVoteAbortMessage transactionId
  | .globalCommit transactionId => makeVoteCommitMessage transactionId
  | .globalAbort transactionId => makeVoteAbortMessage transactionId
  | .unsupported transactionId => makeUnsupportedMessage transactionId

/-- The files after a history whose names lead to them. -/
def locatedDisk (locate : Str → κ) (initial : κ → Option Str) (history : History Str Str Str) :
    κ → Option Str :=
  replay initial (history.map (Act.map id locate id))

/-- These exchanges take a server that stores texts in this way from one history to
the other.  In auto mode it votes by the log. -/
def Serves (auto : Bool) (store : Str → Str) (locate : Str → κ) (initial : κ → Option Str) :
    History Str Str Str → List (Request × Ptree) → History Str Str Str → Prop
  | history, [], final => history = final
  | history, (request, reply) :: exchanges, final =>
      ∃ granted,
        (auto = true →
          (granted = true ↔ ¬ Intercepted history (store request.transactionId))) ∧
        reply = replyTo store locate initial history granted request ∧
        Serves auto store locate initial (history ++ logged store granted request) exchanges final

omit [DecidableEq κ] in
/-- The server stores C strings. -/
theorem record_eq_logged (granted : Bool) (request : Request) :
    record granted request = logged cString granted request := by
  cases request <;> rfl

/-- Nothing fails, and the files are what the log makes of the initial ones. -/
structure Settled (system : System κ) (initial : κ → Option Str) (s : Stores κ) : Prop where
  sound : s.files.Sound
  disk : s.files.disk = locatedDisk system.locate initial s.log.history

section Step

variable {system : System κ} {initial : κ → Option Str} {s : Stores κ}

theorem contentOf_getFileContent (h : Settled system initial s) (transactionId filename : Str) :
    (s.getFileContent system transactionId filename).1 =
      (locatedValue system.locate initial s.log.history (cString transactionId)
        (cString filename)).getD [] := by
  unfold Stores.getFileContent locatedValue
  rw [lastFileContentFromThisTransaction_eq]
  cases lastValue (writesOf s.log.history (cString transactionId)) (cString filename) with
  | some content => rfl
  | none =>
      show (s.files.disk (system.locate filename)).getD [] = _
      rw [h.disk, Option.none_or, system.locate_cString]
      rfl

theorem Settled.getFileContent (h : Settled system initial s) (transactionId filename : Str) :
    (s.getFileContent system transactionId filename).2.Sound ∧
      (s.getFileContent system transactionId filename).2.disk = s.files.disk := by
  unfold Stores.getFileContent
  cases Dao.lastFileContentFromThisTransaction s.log transactionId filename with
  | ok content => exact ⟨h.sound, rfl⟩
  | error exception =>
      refine ⟨?_, Files.disk_openInput s.files (system.locate filename)⟩
      show (s.files.openInput (system.locate filename)).Sound
      unfold Files.openInput
      cases s.files.disk (system.locate filename) with
      | none => exact h.sound
      | some content => exact h.sound

/-- Logging a row that is no commit leaves the files as the log makes them. -/
theorem Settled.insert (h : Settled system initial s) (name : OperationName)
    (hname : name ≠ .globalCommit) (transactionId filename fileContent : Str) :
    Settled system initial (s.insert name transactionId filename fileContent) := by
  refine ⟨h.sound, ?_⟩
  show s.files.disk = locatedDisk system.locate initial
    (Dao.insertOperation s.log name transactionId filename fileContent).history
  rw [h.disk, history_insertOperation]
  unfold locatedDisk
  rw [List.map_append, List.map_singleton, replay_concat]
  cases name with
  | globalCommit => exact absurd rfl hname
  | _ => rfl

omit [DecidableEq κ] in
theorem sound_openInput {files : Files κ} (h : files.Sound) (file : κ) :
    (files.openInput file).Sound := by
  unfold Files.openInput
  cases files.disk file with
  | none => exact h
  | some content => exact h

theorem sound_foldl_write {files : Files κ} (h : files.Sound) (locate : Str → κ)
    (writes : List (Str × Str)) :
    (writes.foldl (fun files write => files.write (locate write.1) write.2) files).Sound := by
  induction writes generalizing files with
  | nil => exact h
  | cons write writes ih => exact ih (h.write _ _)

/-- The commit loop lays the transaction's writes over the files. -/
theorem disk_commit (h : Settled system initial s) (transactionId : Str) :
    (s.commitPendingWrites system transactionId).disk =
      locatedDisk system.locate initial (s.log.history ++ [.commit (cString transactionId)]) := by
  unfold Stores.commitPendingWrites
  rw [disk_foldl_write h.sound, getPendingWrites_eq, h.disk]
  unfold locatedDisk
  rw [List.map_append, List.map_singleton, replay_concat]
  show _ = applyWrites (writesOf _ (cString transactionId)) _
  rw [writesOf_map_id]
  rfl

/-- **One request.**  Where nothing fails, every request is answered. -/
theorem Settled.handleRequest (hauto : system.cfg.autoMode = true)
    (h : Settled system initial s) (request : Request) :
    ∃ granted next,
      (granted = true ↔ ¬ Intercepted s.log.history (cString request.transactionId)) ∧
      s.handleRequest system request =
        some (replyTo cString system.locate initial s.log.history granted request, next) ∧
      next.log.history = s.log.history ++ logged cString granted request ∧
      Settled system initial next := by
  have hgranted := canAutoCommitTransaction_iff s.log request.transactionId
  cases request with
  | read transactionId filename =>
      obtain ⟨hsound, hdisk⟩ := h.getFileContent transactionId filename
      have hfiles : Settled system initial
          { s with files := (s.getFileContent system transactionId filename).2 } :=
        ⟨hsound, hdisk.trans h.disk⟩
      refine ⟨_, _, hgranted, ?_, history_insertOperation _ _ _ _ _,
        hfiles.insert .read (by decide) transactionId filename
          (s.getFileContent system transactionId filename).1⟩
      rw [replyTo, ← contentOf_getFileContent h]
      rfl
  | write transactionId filename data =>
      exact ⟨_, _, hgranted, rfl, history_insertOperation _ _ _ _ _,
        h.insert .write (by decide) _ _ _⟩
  | prepare transactionId =>
      have hvote : s.canCommitTransaction system transactionId =
          some (Controller.canAutoCommitTransaction s.log transactionId, s.console) := by
        rw [Stores.canCommitTransaction, if_pos hauto]
      simp only [Request.transactionId] at hgranted
      simp only [Stores.handleRequest, hvote, replyTo, Request.transactionId]
      cases hvoted : Controller.canAutoCommitTransaction s.log transactionId with
      | true =>
          rw [hvoted] at hgranted
          exact ⟨true, _, hgranted, rfl, history_insertOperation _ _ _ _ _,
            h.insert .voteCommit (by decide) _ _ _⟩
      | false =>
          rw [hvoted] at hgranted
          exact ⟨false, _, hgranted, rfl, history_insertOperation _ _ _ _ _,
            h.insert .voteAbort (by decide) _ _ _⟩
  | globalCommit transactionId =>
      have hhistory : (Dao.insertOperation s.log .globalCommit transactionId [] []).history =
          s.log.history ++ [.commit (cString transactionId)] := history_insertOperation _ _ _ _ _
      refine ⟨_, _, hgranted, rfl, hhistory, sound_foldl_write h.sound _ _, ?_⟩
      show (s.commitPendingWrites system transactionId).disk = locatedDisk system.locate initial
        (Dao.insertOperation s.log .globalCommit transactionId [] []).history
      rw [hhistory, disk_commit h]
  | globalAbort transactionId =>
      exact ⟨_, _, hgranted, rfl, history_insertOperation _ _ _ _ _,
        h.insert .globalAbort (by decide) _ _ _⟩
  | unsupported transactionId =>
      exact ⟨_, _, hgranted, rfl, (List.append_nil _).symm, h⟩

end Step

/-! ## Runs -/

/-- A server started on a fresh log, where nothing fails. -/
def World.initial (disk : κ → Option Str) (console : List Str) : World κ where
  database :=
    { table := Dao.initDatabase, succeeds := fun _ => true, connections := 0, calls := [] }
  files := { disk := disk, outcome := fun _ => .complete, opened := [] }
  console := console

/-- The outcomes of requests that were all answered. -/
def answered (exchanges : List (Request × Ptree)) : List Serve.Outcome :=
  exchanges.map fun exchange => (exchange.1, .ok exchange.2)

theorem run_settled {system : System κ} (hauto : system.cfg.autoMode = true)
    {initial : κ → Option Str} {world : World κ} (hsettled : Settled system initial world.stores)
    (hsucceeds : world.database.succeeds = fun _ => true) (requests : List Request) :
    ∃ exchanges, (Serve.run system world requests).1 = answered exchanges ∧
      exchanges.map Prod.fst = requests ∧
      Serves true cString system.locate initial world.database.table.history exchanges
        (Serve.run system world requests).2.database.table.history ∧
      Settled system initial (Serve.run system world requests).2.stores := by
  induction requests generalizing world with
  | nil => exact ⟨[], rfl, rfl, rfl, hsettled⟩
  | cons request requests ih =>
      obtain ⟨granted, next, hgranted, hnext, hhistory, hsettledNext⟩ :=
        hsettled.handleRequest hauto request
      obtain ⟨after, hexec, rfl, hafter⟩ := exec_of_succeeds hsucceeds hnext
      obtain ⟨exchanges, hfirst, hrequests, hserves, hfinal⟩ := ih hsettledNext hafter
      simp only [Serve.run, hexec]
      refine ⟨(request, _) :: exchanges, ?_, ?_, ⟨granted, fun _ => hgranted, rfl, ?_⟩, hfinal⟩
      · rw [hfirst]
        rfl
      · rw [List.map_cons, hrequests]
      · have hlog : after.database.table.history =
            world.database.table.history ++ logged cString granted request := hhistory
        rw [hlog] at hserves
        exact hserves

/-- **Runs.**  Where nothing fails, the server answers all requests as a server that
stores C strings, and its files are what the final history makes of the first ones. -/
theorem run_serves {system : System κ} (hauto : system.cfg.autoMode = true)
    {disk : κ → Option Str} {console : List Str} {requests : List Request}
    {outcomes : List Serve.Outcome} {final : World κ}
    (hrun : Serve.run system (.initial disk console) requests = (outcomes, final)) :
    ∃ exchanges history, outcomes = answered exchanges ∧ exchanges.map Prod.fst = requests ∧
      Serves true cString system.locate disk [] exchanges history ∧
      final.files.disk = locatedDisk system.locate disk history := by
  have hsettled : Settled system disk (World.initial disk console).stores := ⟨fun _ => rfl, rfl⟩
  obtain ⟨exchanges, hfirst, hrequests, hserves, hfinal⟩ :=
    run_settled hauto hsettled rfl requests
  rw [hrun] at hfirst hserves hfinal
  exact ⟨exchanges, final.database.table.history, hfirst, hrequests, hserves, hfinal.disk⟩

end DistributedFileServer
