import DistributedFileServer.DeferredUpdate.Removal
import DistributedFileServer.Log.Serving
import Mathlib.Data.List.Forall2

/-!
# Runs without onlookers

A transaction that only reads, or that is never committed, changes no file and nothing
that others read.  But its reads may veto the writes of others: without it, a vote may
turn from abort to commit, and never the other way round.
-/

namespace DistributedFileServer

open DeferredUpdate Controller

section Votes

variable {τ κ ν : Type} [DecidableEq τ]

theorem since_unvoted (history : History τ κ ν) (transaction : τ) :
    since (history.map Act.unvoted) transaction = (since history transaction).map Act.unvoted := by
  unfold since
  rw [List.dropWhile_map, List.map_tail]
  simp only [Function.comp_def, Act.owner_unvoted]

theorem clashes_unvoted {history : History τ κ ν} {transaction : τ} {act : Act τ κ ν} :
    Clashes (history.map Act.unvoted) transaction act.unvoted ↔
      Clashes history transaction act := by
  simp only [Clashes, firstWritten, firstRead, writesOf_unvoted, readsOf_unvoted,
    Act.key?_unvoted, Act.write?_unvoted]

/-- The votes that were given have no influence on the next one. -/
theorem intercepted_unvoted {history : History τ κ ν} {transaction : τ} :
    Intercepted (history.map Act.unvoted) transaction ↔ Intercepted history transaction := by
  refine exists_congr fun other => and_congr_right fun _ => ?_
  rw [InterceptedBy, InterceptedBy, commit_mem_unvoted_iff, since_unvoted]
  simp only [List.mem_map]
  refine and_congr_right fun _ => ?_
  constructor
  · rintro ⟨_, ⟨act, hact, rfl⟩, howner, hclash⟩
    exact ⟨act, hact, (Act.owner_unvoted act).symm.trans howner, clashes_unvoted.mp hclash⟩
  · rintro ⟨act, hact, howner, hclash⟩
    exact ⟨act.unvoted, ⟨act, hact, rfl⟩, (Act.owner_unvoted act).trans howner,
      clashes_unvoted.mpr hclash⟩

/-- Removing other transactions intercepts nothing. -/
theorem intercepted_of_filter {history : History τ κ ν} {keep : τ → Bool} {transaction : τ}
    (hkeep : keep transaction = true)
    (h : Intercepted (history.filter fun act => keep act.owner) transaction) :
    Intercepted history transaction := by
  obtain ⟨other, hother, hcommit, act, hact, howner, hclash⟩ := h
  have hown : ∀ act : Act τ κ ν, act.owner = transaction → keep act.owner = true :=
    fun act howner => by rw [howner]; exact hkeep
  rw [since_filter hown, List.mem_filter] at hact
  exact ⟨other, hother, (List.mem_filter.mp hcommit).1, act, hact.1, howner,
    (clashes_filter hown history act).mp hclash⟩

end Votes

/-! ## One request -/

/-- The second reply is the first one, or a vote that is better. -/
def NotWorse (request : Request) (reply reply' : Reply) : Prop :=
  reply' = reply ∨ ∃ transactionId, request = .prepare transactionId ∧
    reply = .ok (makeVoteAbortMessage transactionId) ∧
    reply' = .ok (makeVoteCommitMessage transactionId)

/-- The second state has seen the requests of the first one, without those of the
transactions that are not kept. -/
structure Without (keep : Str → Bool) (initial : SharedDirectory) (s s' : ServerState) :
    Prop where
  history : s'.log.history.map Act.unvoted =
    (s.log.history.filter fun act => keep act.owner).map Act.unvoted
  directory : s.sharedDirectory = replay initial s.log.history
  directory' : s'.sharedDirectory = replay initial s'.log.history

section Step

variable {keep : Str → Bool} {initial : SharedDirectory} {s s' : ServerState}

theorem Without.writesOf_eq (h : Without keep initial s s') {transaction : Str}
    (hkeep : keep transaction = true) :
    writesOf s'.log.history transaction = writesOf s.log.history transaction := by
  rw [← writesOf_unvoted, h.history, writesOf_unvoted]
  exact writesOf_filter (fun act howner => by rw [howner]; exact hkeep) s.log.history

theorem Without.replay_eq (h : Without keep initial s s')
    (hidle : ∀ transaction, keep transaction = false → Idle s.log.history transaction) :
    replay initial s'.log.history = replay initial s.log.history := by
  rw [← replay_unvoted, h.history, replay_unvoted, replay_filter_of_idle hidle]

theorem Without.granted (h : Without keep initial s s') {transaction : Str}
    (hkeep : keep transaction = true) (hfree : ¬ Intercepted s.log.history transaction) :
    ¬ Intercepted s'.log.history transaction := by
  rw [← intercepted_unvoted, h.history, intercepted_unvoted]
  exact fun hintercepted => hfree (intercepted_of_filter hkeep hintercepted)

/-- A request of a transaction that is kept. -/
theorem Without.handleRequest {cfg : Config} (hauto : cfg.autoMode = true)
    (h : Without keep initial s s')
    (hidle : ∀ transaction, keep transaction = false → Idle s.log.history transaction)
    {request : Request} (hkeep : keep (cString request.transactionId) = true) :
    ∃ reply next reply' next', handleRequest cfg s request = some (reply, next) ∧
      handleRequest cfg s' request = some (reply', next') ∧
      Without keep initial next next' ∧ NotWorse request reply reply' := by
  obtain ⟨granted, next, hhandle, hhistory, hdirectory, hgranted⟩ :=
    handleRequest_auto hauto h.directory request
  obtain ⟨granted', next', hhandle', hhistory', hdirectory', hgranted'⟩ :=
    handleRequest_auto hauto h.directory' request
  refine ⟨_, next, _, next', hhandle, hhandle', ⟨?_, hdirectory, hdirectory'⟩, ?_⟩
  -- the two entries differ at most in a vote
  · have hown : ∀ act ∈ record granted request, keep act.owner = true := fun act hact => by
      rw [owner_of_mem_record hact]
      exact hkeep
    have hrecord : (record granted' request).map Act.unvoted =
        (record granted request).map Act.unvoted := by
      cases request <;> rfl
    rw [hhistory, hhistory', List.map_append, h.history, hrecord, List.filter_append,
      List.filter_eq_self.mpr hown, List.map_append]
  · cases request with
    | read transactionId filename =>
        have hvalue : readValue initial s'.log.history (cString transactionId)
            (cString filename) =
              readValue initial s.log.history (cString transactionId) (cString filename) := by
          have hwrites : writesOf s'.log.history (cString transactionId) =
              writesOf s.log.history (cString transactionId) := h.writesOf_eq hkeep
          rw [readValue, readValue, hwrites, h.replay_eq hidle]
        left
        rw [answer, answer, hvalue]
    | prepare transactionId =>
        cases granted with
        | true =>
            -- what is not intercepted is not intercepted by fewer transactions either
            left
            rw [hgranted'.mpr (h.granted hkeep (hgranted.mp rfl))]
            rfl
        | false =>
            cases granted' with
            | false => exact Or.inl rfl
            | true => exact Or.inr ⟨transactionId, rfl, rfl, rfl⟩
    | _ => exact Or.inl rfl

/-- A request of a transaction that is not kept. -/
theorem Without.skip {cfg : Config} {next : ServerState} {reply : Reply}
    (h : Without keep initial s s') {request : Request}
    (hkeep : keep (cString request.transactionId) = false)
    (hhandle : Controller.handleRequest cfg s request = some (reply, next)) :
    Without keep initial next s' := by
  obtain ⟨granted, -, hhistory, hdirectory, -⟩ := handleRequest_spec h.directory hhandle
  refine ⟨?_, hdirectory, h.directory'⟩
  have hdropped : ∀ act ∈ record granted request, ¬ keep act.owner = true := fun act hact => by
    rw [owner_of_mem_record hact, hkeep]
    exact Bool.false_ne_true
  rw [hhistory, List.filter_append, List.filter_eq_nil_iff.mpr hdropped, List.append_nil, h.history]

end Step

/-! ## Runs -/

/-- The requests of the transactions that are kept. -/
def keptRequests (keep : Str → Bool) (requests : List Request) : List Request :=
  requests.filter fun request => keep (cString request.transactionId)

def keptExchanges (keep : Str → Bool) (exchanges : List Exchange) : List Exchange :=
  exchanges.filter fun exchange => keep (cString exchange.1.transactionId)

/-- The same requests, each with a reply that is not worse. -/
def NoneWorse (exchanges exchanges' : List Exchange) : Prop :=
  List.Forall₂ (fun exchange exchange' => exchange'.1 = exchange.1 ∧
    NotWorse exchange.1 exchange.2 exchange'.2) exchanges exchanges'

/-- No transaction that is not kept is both a writer and committed. -/
def OnlookersOnly (keep : Str → Bool) (requests : List Request) : Prop :=
  ∀ transaction, keep transaction = false →
    (∀ transactionId, .globalCommit transactionId ∈ requests →
      cString transactionId ≠ transaction) ∨
    ∀ transactionId filename data, .write transactionId filename data ∈ requests →
      cString transactionId ≠ transaction

section Run

variable {cfg : Config} {keep : Str → Bool} {initial : SharedDirectory} {console : List Str}

theorem OnlookersOnly.idle {requests : List Request} (h : OnlookersOnly keep requests)
    {exchanges : List Exchange} {s : ServerState}
    (hrun : run cfg (.initial initial console) requests = some (exchanges, s))
    (transaction : Str) (hkeep : keep transaction = false) :
    Idle s.log.history transaction := by
  have hhistory := (run_spec hrun).1
  rcases h transaction hkeep with hcommit | hwrites
  · left
    rw [hhistory, commit_mem_recorded_iff, run_requests hrun]
    rintro ⟨transactionId, hmem, hid⟩
    exact hcommit transactionId hmem hid
  · right
    rw [List.eq_nil_iff_forall_not_mem]
    rintro ⟨filename, data⟩ hwrite
    rw [mem_writesOf_iff, hhistory, recorded, List.mem_flatMap] at hwrite
    obtain ⟨⟨request, reply⟩, hexchange, hrecord⟩ := hwrite
    have hrequest : request ∈ requests := by
      rw [← run_requests hrun]
      exact List.mem_map_of_mem hexchange
    cases request with
    | write owner filename' data' =>
        obtain ⟨rfl, -, -⟩ : transaction = cString owner ∧ filename = cString filename' ∧
            data = cString data' := by simpa [record] using hrecord
        exact hwrites owner filename' data' hrequest rfl
    | _ => simp [record] at hrecord

theorem runs_without_onlookers (hauto : cfg.autoMode = true) {requests : List Request}
    (h : OnlookersOnly keep requests) :
    ∃ exchanges s exchanges' s',
      run cfg (.initial initial console) requests = some (exchanges, s) ∧
      run cfg (.initial initial console) (keptRequests keep requests) = some (exchanges', s') ∧
      Without keep initial s s' ∧ NoneWorse (keptExchanges keep exchanges) exchanges' := by
  induction requests using List.reverseRecOn with
  | nil => exact ⟨[], _, [], _, rfl, rfl, ⟨rfl, rfl, rfl⟩, List.Forall₂.nil⟩
  | append_singleton requests request ih =>
      have hbefore : OnlookersOnly keep requests := fun transaction hkeep =>
        (h transaction hkeep).imp
          (fun hcommit id hmem => hcommit id (List.mem_append_left _ hmem))
          (fun hwrites id filename data hmem =>
            hwrites id filename data (List.mem_append_left _ hmem))
      obtain ⟨exchanges, s, exchanges', s', hrun, hrun', hwithout, hnotWorse⟩ := ih hbefore
      cases hkeep : keep (cString request.transactionId) with
      | true =>
          -- both servers serve the request
          obtain ⟨reply, next, reply', next', hhandle, hhandle', hnext, hreply⟩ :=
            hwithout.handleRequest hauto (hbefore.idle hrun) hkeep
          have hrequests : keptRequests keep (requests ++ [request]) =
              keptRequests keep requests ++ [request] := by simp [keptRequests, hkeep]
          have hexchanges : keptExchanges keep (exchanges ++ [(request, reply)]) =
              keptExchanges keep exchanges ++ [(request, reply)] := by
            simp [keptExchanges, hkeep]
          refine ⟨exchanges ++ [(request, reply)], next, exchanges' ++ [(request, reply')], next',
            run_concat_eq_some_iff.mpr ⟨s, exchanges, reply, hrun, hhandle, rfl⟩, ?_, hnext, ?_⟩
          · rw [hrequests]
            exact run_concat_eq_some_iff.mpr ⟨s', exchanges', reply', hrun', hhandle', rfl⟩
          · rw [hexchanges]
            exact List.rel_append hnotWorse (List.Forall₂.cons ⟨rfl, hreply⟩ List.Forall₂.nil)
      | false =>
          -- only the first server does
          obtain ⟨reply, next, hhandle⟩ := handleRequest_isSome cfg hauto s request
          have hrequests : keptRequests keep (requests ++ [request]) =
              keptRequests keep requests := by simp [keptRequests, hkeep]
          have hexchanges : keptExchanges keep (exchanges ++ [(request, reply)]) =
              keptExchanges keep exchanges := by simp [keptExchanges, hkeep]
          refine ⟨exchanges ++ [(request, reply)], next, exchanges', s',
            run_concat_eq_some_iff.mpr ⟨s, exchanges, reply, hrun, hhandle, rfl⟩, ?_,
            hwithout.skip hkeep hhandle, ?_⟩
          · rw [hrequests]
            exact hrun'
          · rw [hexchanges]
            exact hnotWorse

/-- **Onlookers.**  In auto mode, the requests of transactions that write nothing or are
never committed can be left out: the files stay the same, and so does every reply to
another request, except that a vote may turn from abort to commit. -/
theorem run_without_onlookers (hauto : cfg.autoMode = true) (initial : SharedDirectory)
    (console : List Str) {requests : List Request} (h : OnlookersOnly keep requests) :
    ∃ exchanges final exchanges' final',
      run cfg (.initial initial console) requests = some (exchanges, final) ∧
      run cfg (.initial initial console) (keptRequests keep requests) =
        some (exchanges', final') ∧
      final'.sharedDirectory = final.sharedDirectory ∧
      NoneWorse (keptExchanges keep exchanges) exchanges' := by
  obtain ⟨exchanges, s, exchanges', s', hrun, hrun', hwithout, hnotWorse⟩ :=
    runs_without_onlookers hauto h
  refine ⟨exchanges, s, exchanges', s', hrun, hrun', ?_, hnotWorse⟩
  rw [hwithout.directory, hwithout.directory', hwithout.replay_eq (h.idle hrun)]

/-- `U` reads what `T` writes and commits, so `T` is not granted its vote. -/
theorem run_without_onlookers_reader :
    ∃ exchanges final exchanges' final',
      run ⟨true⟩ (.initial (fun _ => none) [])
          [.write (text "T") (text "f") (text "x"), .read (text "U") (text "f"),
            .globalCommit (text "U"), .prepare (text "T")] = some (exchanges, final) ∧
      run ⟨true⟩ (.initial (fun _ => none) [])
          (keptRequests (fun transaction => transaction ≠ text "U")
            [.write (text "T") (text "f") (text "x"), .read (text "U") (text "f"),
              .globalCommit (text "U"), .prepare (text "T")]) = some (exchanges', final') ∧
      final'.sharedDirectory = final.sharedDirectory ∧
      NoneWorse (keptExchanges (fun transaction => transaction ≠ text "U") exchanges)
        exchanges' := by
  refine run_without_onlookers rfl _ _ fun transaction hkeep => Or.inr ?_
  obtain rfl : transaction = text "U" := by simpa using hkeep
  intro transactionId filename data hwrite
  obtain ⟨rfl, -, -⟩ : transactionId = text "T" ∧ filename = text "f" ∧ data = text "x" := by
    simpa using hwrite
  decide

end Run

end DistributedFileServer
