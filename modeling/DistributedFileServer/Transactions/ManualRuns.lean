import DistributedFileServer.Model.Console
import DistributedFileServer.Log.Serving

/-!
# Runs with auto mode off

Every `prepare` takes one vote from the console, in order.  The server goes on as long
as there are votes, and it does what it would do in auto mode exactly if every vote
follows the advice that the console shows.
-/

namespace DistributedFileServer

open Controller

/-! ## Votes -/

/-- The vote that a console line gives. -/
def vote? (line : Str) : Option Bool :=
  if line = text "t" then
    some true
  else if line = text "n" then
    some false
  else
    none

def votesIn (console : List Str) : List Bool :=
  console.filterMap vote?

theorem votesIn_of_askUser {console rest : List Str} {vote : Bool}
    (h : askUser console = some (vote, rest)) : votesIn console = vote :: votesIn rest := by
  induction console with
  | nil => cases h
  | cons line console ih =>
      unfold askUser at h
      split_ifs at h with hcommit habort
      · obtain ⟨rfl, rfl⟩ := Prod.mk.inj (Option.some.inj h)
        exact List.filterMap_cons_some (if_pos hcommit)
      · obtain ⟨rfl, rfl⟩ := Prod.mk.inj (Option.some.inj h)
        exact List.filterMap_cons_some ((if_neg hcommit).trans (if_pos habort))
      · rw [← ih h]
        exact List.filterMap_cons_none ((if_neg hcommit).trans (if_neg habort))

theorem votesIn_of_askUser_none {console : List Str} (h : askUser console = none) :
    votesIn console = [] := by
  induction console with
  | nil => rfl
  | cons line console ih =>
      unfold askUser at h
      split_ifs at h with hcommit habort
      rw [← ih h]
      exact List.filterMap_cons_none ((if_neg hcommit).trans (if_neg habort))

def Request.isPrepare : Request → Bool
  | .prepare _ => true
  | _ => false

/-- The votes that a list of exchanges gave. -/
def votesGiven (exchanges : List Exchange) : List Bool :=
  (exchanges.filter fun exchange => exchange.1.isPrepare).map Exchange.granted

theorem votesGiven_cons (exchange : Exchange) (exchanges : List Exchange) :
    votesGiven (exchange :: exchanges) =
      if exchange.1.isPrepare then
        exchange.granted :: votesGiven exchanges
      else
        votesGiven exchanges := by
  cases hprepare : exchange.1.isPrepare <;> simp [votesGiven, hprepare]

/-! ## One request -/

/-- Auto mode or not makes no difference to a request that is no `prepare`. -/
theorem handleRequest_of_not_prepare (cfg cfg' : Config) {s s' : ServerState}
    (hlog : s'.log = s.log) (hdirectory : s'.sharedDirectory = s.sharedDirectory)
    {request : Request} (h : request.isPrepare = false) :
    ∃ reply next next', handleRequest cfg s request = some (reply, next) ∧
      handleRequest cfg' s' request = some (reply, next') ∧ next.console = s.console ∧
      next'.log = next.log ∧ next'.sharedDirectory = next.sharedDirectory := by
  cases request with
  | prepare transactionId => cases h
  | read transactionId filename =>
      have hcontent : getFileContent s' transactionId filename =
          getFileContent s transactionId filename := by
        unfold getFileContent
        rw [hlog, hdirectory]
      simp only [handleRequest, handleReadMessage, hcontent]
      cases getFileContent s transactionId filename with
      | error e => exact ⟨_, _, _, rfl, rfl, rfl, hlog, hdirectory⟩
      | ok fileContent =>
          refine ⟨_, _, _, rfl, rfl, rfl, ?_, hdirectory⟩
          rw [hlog]
  | globalCommit transactionId =>
      refine ⟨_, _, _, rfl, rfl, rfl, ?_, ?_⟩
      · simp only [commitTransaction, commitPendingWrites, hlog]
      · simp only [commitTransaction, commitPendingWrites, hlog, hdirectory]
  | unsupported transactionId => exact ⟨_, _, _, rfl, rfl, rfl, hlog, hdirectory⟩
  | _ =>
      refine ⟨_, _, _, rfl, rfl, rfl, ?_, hdirectory⟩
      simp only [hlog]

/-- The reply to a `prepare` with a vote, and the state after it. -/
def voted (s : ServerState) (transactionId : Str) (vote : Bool) (console : List Str) :
    Reply × ServerState :=
  if vote then
    (.ok (makeVoteCommitMessage transactionId),
      { s with
        log := Dao.insertTransactionOperation s.log .voteCommit transactionId
        console := console })
  else
    (.ok (makeVoteAbortMessage transactionId),
      { s with
        log := Dao.insertTransactionOperation s.log .voteAbort transactionId
        console := console })

theorem handleRequest_prepare (cfg : Config) (s : ServerState) (transactionId : Str) :
    handleRequest cfg s (.prepare transactionId) =
      (canCommitTransaction cfg s transactionId).map fun vote =>
        voted s transactionId vote.1 vote.2 := by
  rw [handleRequest, handlePrepareMessage]
  cases canCommitTransaction cfg s transactionId with
  | none => rfl
  | some vote =>
      obtain ⟨_ | _, console⟩ := vote <;> rfl

theorem granted_voted (s : ServerState) (transactionId : Str) (vote : Bool)
    (console : List Str) :
    Exchange.granted (.prepare transactionId, (voted s transactionId vote console).1) = vote := by
  have hne := makeVoteCommitMessage_ne_makeVoteAbortMessage transactionId transactionId
  cases vote <;> simp [Exchange.granted, voted, Request.transactionId, hne.symm]

theorem reply_voted_eq_iff {s s' : ServerState} {transactionId : Str} {vote vote' : Bool}
    {console console' : List Str} :
    (voted s transactionId vote console).1 = (voted s' transactionId vote' console').1 ↔
      vote = vote' := by
  constructor
  · intro h
    rw [← granted_voted s transactionId vote console, h, granted_voted]
  · rintro rfl
    cases vote <;> rfl

theorem voted_alike {s s' : ServerState} (hlog : s'.log = s.log)
    (hdirectory : s'.sharedDirectory = s.sharedDirectory) (transactionId : Str) (vote : Bool)
    (console' console : List Str) :
    (voted s' transactionId vote console').2.log = (voted s transactionId vote console).2.log ∧
      (voted s' transactionId vote console').2.sharedDirectory =
        (voted s transactionId vote console).2.sharedDirectory := by
  cases vote <;> simp [voted, hlog, hdirectory]

theorem console_voted (s : ServerState) (transactionId : Str) (vote : Bool)
    (console : List Str) : (voted s transactionId vote console).2.console = console := by
  cases vote <;> rfl

/-- A request takes from the console the vote that it gives. -/
theorem votesIn_handleRequest {s next : ServerState} {request : Request} {reply : Reply}
    (hhandle : handleRequest ⟨false⟩ s request = some (reply, next)) :
    votesIn s.console = votesGiven [(request, reply)] ++ votesIn next.console := by
  cases hprepare : request.isPrepare with
  | false =>
      obtain ⟨reply', next', -, hhandle', -, hconsole, -⟩ :=
        handleRequest_of_not_prepare ⟨false⟩ ⟨false⟩ rfl rfl hprepare
      obtain ⟨rfl, rfl⟩ := Prod.mk.inj (Option.some.inj (hhandle.symm.trans hhandle'))
      rw [votesGiven_cons, hprepare, hconsole]
      rfl
  | true =>
      cases request with
      | prepare transactionId =>
          rw [handleRequest_prepare, Option.map_eq_some_iff] at hhandle
          obtain ⟨⟨vote, rest⟩, hvote, hvoted⟩ := hhandle
          have hgranted : Exchange.granted (.prepare transactionId, reply) = vote := by
            rw [← granted_voted s transactionId vote rest, hvoted]
          have hconsole : next.console = rest := by
            rw [← console_voted s transactionId vote rest, hvoted]
          rw [votesGiven_cons, hprepare, hgranted, hconsole]
          exact votesIn_of_askUser hvote
      | _ => cases hprepare

/-- Only a `prepare` without a vote is not answered. -/
theorem votesIn_of_handleRequest_none {s : ServerState} {request : Request}
    (hhandle : handleRequest ⟨false⟩ s request = none) :
    request.isPrepare = true ∧ votesIn s.console = [] := by
  cases request with
  | prepare transactionId =>
      rw [handleRequest_prepare, Option.map_eq_none_iff] at hhandle
      exact ⟨rfl, votesIn_of_askUser_none hhandle⟩
  | _ => cases hhandle

/-! ## Runs -/

theorem length_votesGiven (exchanges : List Exchange) :
    (votesGiven exchanges).length = (exchanges.map Prod.fst).countP Request.isPrepare := by
  rw [votesGiven, List.length_map, List.countP_map, List.countP_eq_length_filter]
  rfl

theorem votesIn_run {s final : ServerState} {requests : List Request}
    {exchanges : List Exchange} (hrun : run ⟨false⟩ s requests = some (exchanges, final)) :
    votesIn s.console = votesGiven exchanges ++ votesIn final.console := by
  induction requests generalizing s exchanges with
  | nil =>
      obtain ⟨rfl, rfl⟩ : [] = exchanges ∧ s = final := by simpa using hrun
      rfl
  | cons request requests ih =>
      obtain ⟨reply, next, rest, hhandle, hrest, rfl⟩ := run_cons_eq_some_iff.mp hrun
      rw [votesIn_handleRequest hhandle, ih hrest, votesGiven_cons, votesGiven_cons]
      cases request.isPrepare <;> rfl

theorem exists_run_manual {s : ServerState} {requests : List Request}
    (h : requests.countP Request.isPrepare ≤ (votesIn s.console).length) :
    ∃ exchanges final, run ⟨false⟩ s requests = some (exchanges, final) := by
  induction requests generalizing s with
  | nil => exact ⟨[], s, rfl⟩
  | cons request requests ih =>
      rw [List.countP_cons] at h
      cases hhandle : handleRequest ⟨false⟩ s request with
      | none =>
          obtain ⟨hprepare, hvotes⟩ := votesIn_of_handleRequest_none hhandle
          simp [hprepare, hvotes] at h
      | some result =>
          obtain ⟨reply, next⟩ := result
          have hvotes := congrArg List.length (votesIn_handleRequest hhandle)
          rw [List.length_append, length_votesGiven, List.map_singleton, List.countP_singleton]
            at hvotes
          dsimp only at hvotes
          obtain ⟨rest, final, hrest⟩ := @ih next (by omega)
          exact ⟨(request, reply) :: rest, final,
            run_cons_eq_some_iff.mpr ⟨reply, next, rest, hhandle, hrest, rfl⟩⟩

/-- **The votes of a run.**  With auto mode off the server serves a list of requests
exactly if the console holds a vote for every `prepare`.  Every run takes the votes in
order, one for each `prepare`, and leaves the others. -/
theorem run_manual_iff (s : ServerState) (requests : List Request) :
    ((∃ exchanges final, run ⟨false⟩ s requests = some (exchanges, final)) ↔
      requests.countP Request.isPrepare ≤ (votesIn s.console).length) ∧
      ∀ exchanges final, run ⟨false⟩ s requests = some (exchanges, final) →
        votesIn s.console = votesGiven exchanges ++ votesIn final.console := by
  refine ⟨⟨?_, exists_run_manual⟩, fun exchanges final hrun => votesIn_run hrun⟩
  rintro ⟨exchanges, final, hrun⟩
  rw [← run_requests hrun, ← length_votesGiven, votesIn_run hrun, List.length_append]
  exact Nat.le_add_right _ _

/-! ## The advice -/

/-- What a question advises: that the log allows the commit. -/
def advises (shown : Str) : Bool :=
  (text "to pozwala.").isSuffixOf shown

theorem suffix_append_iff {suffix front back : Str} (h : suffix.length ≤ back.length) :
    suffix <:+ front ++ back ↔ suffix <:+ back :=
  ⟨fun hsuffix => List.suffix_of_suffix_length_le hsuffix (List.suffix_append front back) h,
    fun hsuffix => hsuffix.trans (List.suffix_append front back)⟩

/-- The advice is read off the end of the question, whatever the transaction is called. -/
theorem advises_question (canAutoCommit : Bool) (transactionId : Str) :
    advises (question canAutoCommit transactionId) = canAutoCommit := by
  have hback : question canAutoCommit transactionId =
      (text "Zatwierdzi" ++ [0xE6] ++ text " transakcj" ++ [0xEA] ++ text " " ++ transactionId) ++
        (text " ? Log na to " ++ (if canAutoCommit then [] else text "nie ") ++
          text "pozwala.") := by
    simp only [question, List.append_assoc]
  rw [Bool.eq_iff_iff, advises, List.isSuffixOf_iff_suffix, hback, suffix_append_iff]
  · cases canAutoCommit <;> decide
  · cases canAutoCommit <;> decide

/-- The question that a request asks. -/
def asked (s : ServerState) : Request → List Str
  | .prepare transactionId =>
      [question (canAutoCommitTransaction s.log transactionId) transactionId]
  | _ => []

/-- The questions that a run asks. -/
def questions : ServerState → List Request → List Str
  | _, [] => []
  | s, request :: requests =>
      asked s request ++
        match handleRequest ⟨false⟩ s request with
        | none => []
        | some (_, next) => questions next requests

theorem questions_cons {s next : ServerState} {request : Request} {reply : Reply}
    (hhandle : handleRequest ⟨false⟩ s request = some (reply, next)) (requests : List Request) :
    questions s (request :: requests) = asked s request ++ questions next requests := by
  rw [questions, hhandle]

theorem run_cons_iff_of_handleRequest {cfg : Config} {s next final : ServerState}
    {request : Request} {reply reply' : Reply} {requests : List Request}
    {exchanges : List Exchange} (hhandle : handleRequest cfg s request = some (reply, next)) :
    run cfg s (request :: requests) = some ((request, reply') :: exchanges, final) ↔
      reply = reply' ∧ run cfg next requests = some (exchanges, final) := by
  rw [run_cons_eq_some_iff]
  constructor
  · rintro ⟨reply'', next', rest, hhandle', hrest, hexchanges⟩
    obtain ⟨hexchange, rfl⟩ := List.cons.inj hexchanges
    obtain ⟨rfl, rfl⟩ := Prod.mk.inj (Option.some.inj (hhandle.symm.trans hhandle'))
    exact ⟨(congrArg Prod.snd hexchange).symm, hrest⟩
  · rintro ⟨rfl, hrest⟩
    exact ⟨reply, next, exchanges, hhandle, hrest, rfl⟩

/-- The advice from two states that differ in their consoles. -/
theorem advised_iff {s s' final : ServerState} {requests : List Request}
    {exchanges : List Exchange} (hlog : s'.log = s.log)
    (hdirectory : s'.sharedDirectory = s.sharedDirectory)
    (hrun : run ⟨false⟩ s requests = some (exchanges, final)) :
    votesGiven exchanges = (questions s requests).map advises ↔
      ∃ final', run ⟨true⟩ s' requests = some (exchanges, final') ∧ final'.log = final.log ∧
        final'.sharedDirectory = final.sharedDirectory := by
  induction requests generalizing s s' exchanges with
  | nil =>
      obtain ⟨rfl, rfl⟩ : [] = exchanges ∧ s = final := by simpa using hrun
      exact ⟨fun _ => ⟨s', rfl, hlog, hdirectory⟩, fun _ => rfl⟩
  | cons request requests ih =>
      obtain ⟨reply, next, rest, hhandle, hrest, rfl⟩ := run_cons_eq_some_iff.mp hrun
      rw [questions_cons hhandle, votesGiven_cons]
      cases hprepare : request.isPrepare with
      | false =>
          -- nobody is asked, and both modes do the same
          obtain ⟨reply', next', after, hhandle', hauto, -, hlog', hdirectory'⟩ :=
            handleRequest_of_not_prepare ⟨false⟩ ⟨true⟩ hlog hdirectory hprepare
          obtain ⟨rfl, rfl⟩ := Prod.mk.inj (Option.some.inj (hhandle.symm.trans hhandle'))
          have hasked : asked s request = [] := by
            cases request <;> first | rfl | cases hprepare
          rw [hasked, List.nil_append, if_neg Bool.false_ne_true, ih hlog' hdirectory' hrest]
          simp only [run_cons_iff_of_handleRequest hauto, true_and]
      | true =>
          cases request with
          | prepare transactionId =>
              rw [handleRequest_prepare, Option.map_eq_some_iff] at hhandle
              obtain ⟨⟨vote, console⟩, -, hvoted⟩ := hhandle
              obtain rfl : (voted s transactionId vote console).1 = reply :=
                congrArg Prod.fst hvoted
              obtain rfl : (voted s transactionId vote console).2 = next :=
                congrArg Prod.snd hvoted
              have hauto : handleRequest ⟨true⟩ s' (.prepare transactionId) =
                  some ((voted s' transactionId (canAutoCommitTransaction s.log transactionId)
                      s'.console).1,
                    (voted s' transactionId (canAutoCommitTransaction s.log transactionId)
                      s'.console).2) := by
                rw [handleRequest_prepare, ← hlog]
                rfl
              rw [if_pos rfl, granted_voted, asked, List.cons_append, List.nil_append,
                List.map_cons, advises_question, List.cons.injEq, eq_comm]
              simp only [run_cons_iff_of_handleRequest hauto, reply_voted_eq_iff]
              -- a vote against the advice is a reply that auto mode does not give
              by_cases hadvised : canAutoCommitTransaction s.log transactionId = vote
              · obtain ⟨hlog', hdirectory'⟩ :=
                  voted_alike hlog hdirectory transactionId vote s'.console console
                simp only [hadvised, true_and]
                exact ih hlog' hdirectory' hrest
              · simp only [hadvised, false_and, exists_false]
          | _ => cases hprepare

/-- **The advice.**  A run with auto mode off is the run with auto mode on, reply by reply,
exactly if every vote follows the advice of its question. -/
theorem run_advised_iff {s final : ServerState} {requests : List Request}
    {exchanges : List Exchange} (hrun : run ⟨false⟩ s requests = some (exchanges, final)) :
    votesGiven exchanges = (questions s requests).map advises ↔
      ∃ final', run ⟨true⟩ s requests = some (exchanges, final') ∧ final'.log = final.log ∧
        final'.sharedDirectory = final.sharedDirectory :=
  advised_iff rfl rfl hrun

theorem run_advised_iff_followed :
    ∃ exchanges final,
      run ⟨false⟩ (.initial (fun _ => none) [text "yes", text "t"])
          [.write (text "T") (text "f") (text "x"), .prepare (text "T")] =
        some (exchanges, final) ∧
      ∃ final', run ⟨true⟩ (.initial (fun _ => none) [text "yes", text "t"])
            [.write (text "T") (text "f") (text "x"), .prepare (text "T")] =
          some (exchanges, final') ∧ final'.log = final.log ∧
        final'.sharedDirectory = final.sharedDirectory :=
  ⟨_, _, rfl, (run_advised_iff rfl).mp (by decide)⟩

end DistributedFileServer
