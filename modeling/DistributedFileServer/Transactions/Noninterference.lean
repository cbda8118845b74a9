import DistributedFileServer.Log.Serving

/-!
# Uncommitted transactions leave no trace

Deleting every request of a transaction that is never committed shifts the ids
of all later rows and removes rows that every query scans.  In terms of the
history it drops the entries of one owner, and neither the replay, nor what
another transaction reads, nor another transaction's vote depends on them.
-/

namespace DistributedFileServer

open DeferredUpdate Controller

/-- Without the requests of one transaction. -/
def withoutTransaction (requests : List Request) (transactionId : Str) : List Request :=
  requests.filter fun request => request.transactionId ≠ transactionId

/-- Without the exchanges of one transaction. -/
def exchangesWithout (exchanges : List Exchange) (transactionId : Str) : List Exchange :=
  exchanges.filter fun exchange => exchange.1.transactionId ≠ transactionId

/-- Leaving out a transaction's exchanges leaves out its entries. -/
theorem recorded_exchangesWithout {exchanges : List Exchange}
    (hnul : ∀ exchange ∈ exchanges, exchange.1.NulFreeNames) (transactionId : Str) :
    recorded (exchangesWithout exchanges transactionId) =
      (recorded exchanges).filter fun act => act.owner ≠ transactionId := by
  rw [← recorded_filter fun owner => decide (owner ≠ transactionId)]
  unfold exchangesWithout
  apply congrArg
  apply List.filter_congr
  intro exchange hexchange
  rw [cString_of_nulFree (hnul exchange hexchange).1]

/-- A commit in the log comes from a global commit request. -/
theorem commit_notMem_recorded {cfg : Config} {start final : ServerState}
    {requests : List Request} {exchanges : List Exchange} {transactionId : Str}
    (hnul : ∀ request ∈ requests, request.NulFreeNames)
    (huncommitted : .globalCommit transactionId ∉ requests)
    (hrun : run cfg start requests = some (exchanges, final)) :
    Act.commit transactionId ∉ recorded exchanges := by
  intro hcommit
  obtain ⟨transactionId', hmem, hid⟩ := commit_mem_recorded_iff.mp hcommit
  rw [run_requests hrun] at hmem
  have hname : cString transactionId' = transactionId' := cString_of_nulFree (hnul _ hmem).1
  obtain rfl : transactionId' = transactionId := hname.symm.trans hid
  exact huncommitted hmem

/-- After the same exchanges without one uncommitted transaction, the other
transactions get the same answers. -/
theorem answer_without {initial : SharedDirectory} {history : History Str Str Str}
    {absent : Str} {request : Request} {granted granted' : Bool}
    (hother : cString request.transactionId ≠ absent) (habsent : Act.commit absent ∉ history)
    (hgranted : granted = true ↔
      ¬ Intercepted history (cString request.transactionId))
    (hgranted' : granted' = true ↔
      ¬ Intercepted (history.filter fun act => act.owner ≠ absent)
        (cString request.transactionId)) :
    answer initial (history.filter fun act => act.owner ≠ absent) granted' request =
      answer initial history granted request := by
  apply answer_congr
  · intro filename _
    have hwrites : writesOf (history.filter fun act => act.owner ≠ absent)
        (cString request.transactionId) = writesOf history (cString request.transactionId) := by
      apply writesOf_filter
      intro act hact
      simpa [hact] using hother
    unfold readValue
    rw [hwrites, replay_filter_of_no_commit habsent]
  · rw [Bool.eq_iff_iff, hgranted, hgranted', intercepted_filter_of_no_commit hother habsent]

/-- Without one uncommitted transaction, every other exchange stays as it is. -/
theorem run_withoutTransaction_exchanges {cfg : Config} (hauto : cfg.autoMode = true)
    {initial : SharedDirectory} {console : List Str} {requests : List Request}
    {exchanges : List Exchange} {final : ServerState} {transactionId : Str}
    (hnul : ∀ request ∈ requests, request.NulFreeNames)
    (huncommitted : .globalCommit transactionId ∉ requests)
    (hrun : run cfg (.initial initial console) requests = some (exchanges, final)) :
    ∃ final', run cfg (.initial initial console) (withoutTransaction requests transactionId) =
      some (exchangesWithout exchanges transactionId, final') := by
  have hrequests : (exchangesWithout exchanges transactionId).map Prod.fst =
      withoutTransaction requests transactionId := by
    unfold exchangesWithout withoutTransaction
    rw [← run_requests hrun, List.filter_map]
    rfl
  rw [← hrequests]
  apply run_of_answers hauto
  intro before request reply after granted hsplit hgranted
  -- the same exchange in the run with the transaction
  obtain ⟨past, future, rfl, rfl, hother⟩ := filter_eq_append_cons hsplit
  obtain ⟨granted', rfl, hgranted'⟩ := run_answer hrun
  have hnulExchanges := run_forall_request hnul hrun
  have hid : cString request.transactionId ≠ transactionId := by
    have hnulRequest : request.NulFreeNames :=
      hnulExchanges _ (List.mem_append_right _ List.mem_cons_self)
    rw [cString_of_nulFree hnulRequest.1]
    exact of_decide_eq_true hother
  have habsent : Act.commit transactionId ∉ recorded past := by
    intro hcommit
    apply commit_notMem_recorded hnul huncommitted hrun
    rw [recorded_append]
    exact List.mem_append_left _ hcommit
  have hpast : recorded (past.filter fun exchange => exchange.1.transactionId ≠ transactionId) =
      (recorded past).filter fun act => act.owner ≠ transactionId :=
    recorded_exchangesWithout (fun e he => hnulExchanges e (List.mem_append_left _ he))
      transactionId
  rw [hpast] at hgranted ⊢
  exact (answer_without hid habsent (hgranted' hauto) hgranted).symm

/-- **Uncommitted transactions leave no trace.**  In auto mode, deleting the
requests of a transaction that is never committed changes no reply to another
request and not the final shared directory. -/
theorem run_withoutTransaction {cfg : Config} (hauto : cfg.autoMode = true)
    (initial : SharedDirectory) (console : List Str) {requests : List Request}
    {transactionId : Str} (hnul : ∀ request ∈ requests, request.NulFreeNames)
    (huncommitted : .globalCommit transactionId ∉ requests) :
    ∃ exchanges final final', run cfg (.initial initial console) requests =
        some (exchanges, final) ∧
      run cfg (.initial initial console) (withoutTransaction requests transactionId) =
        some (exchangesWithout exchanges transactionId, final') ∧
      final'.sharedDirectory = final.sharedDirectory := by
  obtain ⟨exchanges, final, hrun⟩ := run_isSome cfg hauto (.initial initial console) requests
  obtain ⟨final', hrun'⟩ := run_withoutTransaction_exchanges hauto hnul huncommitted hrun
  refine ⟨exchanges, final, final', hrun, hrun', ?_⟩
  have hnulExchanges := run_forall_request hnul hrun
  have habsent := commit_notMem_recorded hnul huncommitted hrun
  obtain ⟨hhistory, hdirectory⟩ := run_spec hrun
  obtain ⟨hhistory', hdirectory'⟩ := run_spec hrun'
  rw [hdirectory, hdirectory', hhistory, hhistory', recorded_exchangesWithout hnulExchanges,
    replay_filter_of_no_commit habsent]

theorem run_withoutTransaction_aborted_writer :
    ∃ exchanges final final',
      run ⟨true⟩ (.initial (fun _ => none) [])
          [.write (text "U") (text "f") (text "u"), .read (text "T") (text "f"),
            .globalAbort (text "U"), .prepare (text "T")] = some (exchanges, final) ∧
        run ⟨true⟩ (.initial (fun _ => none) [])
            (withoutTransaction [.write (text "U") (text "f") (text "u"),
              .read (text "T") (text "f"), .globalAbort (text "U"), .prepare (text "T")]
              (text "U")) =
          some (exchangesWithout exchanges (text "U"), final') ∧
        final'.sharedDirectory = final.sharedDirectory :=
  run_withoutTransaction rfl _ _ (by decide) (by decide)

end DistributedFileServer
