import DistributedFileServer.DeferredUpdate.Protocol
import DistributedFileServer.Log.Serving

/-!
# Serial executions of the server

The serial execution of a run serves the requests of the committed transactions
again, one transaction after another.  In the order of the commits it always
ends in the same shared directory.  The reads of the committed transactions are
the same as well, unless another transaction commits a write of a file between
a transaction's read of the file and the transaction's own commit.  Such an
overwrite is prevented where the vote can see it, which needs that it is logged
after the transaction's first row and committed before the transaction's vote.
-/

namespace DistributedFileServer

open DeferredUpdate Controller

/-! ## Votes and overwrites -/

section Votes

variable {τ κ ν : Type} [DecidableEq τ]

/-- A vote is positive exactly if nobody intercepts the transaction. -/
def AutomaticVote (past : History τ κ ν) : Act τ κ ν → Prop
  | .vote owner granted => granted = true ↔ ¬ Intercepted past owner
  | .read _ _ | .write _ _ _ | .commit _ | .abort _ => True

/-- The vote on the transaction looks at the overwrite: it is taken after the
commit of `other`, the write of `other` was logged after the transaction's first
entry, and the key is the one of its first read or of its first write. -/
structure SeenByVote (history : History τ κ ν) (transaction other : τ) (key : κ)
    (past future : History τ κ ν) : Prop where
  votedAfter : ∃ granted, .vote transaction granted ∈ future
  loggedAfter : ∃ value, .write other key value ∈ since past transaction
  firstKey : firstRead history transaction = some key ∨
    firstWritten history transaction = some key

/-- **What the vote sees does not happen.**  If every transaction follows the
protocol and every vote is automatic, no overwrite is one that the vote looks
at. -/
theorem not_seenByVote {history past future : History τ κ ν} {transaction other : τ} {key : κ}
    (hprotocol : Obeys CommitProtocol history) (hvotes : Obeys AutomaticVote history)
    (hover : Overwrite history transaction other key past future) :
    ¬ SeenByVote history transaction other key past future := by
  rintro ⟨⟨granted, hvote⟩, ⟨value, hlogged⟩, hfirst⟩
  obtain ⟨hsplit, hother, -, ⟨before, after, hpast, -⟩, hcommit⟩ := hover
  obtain ⟨mid, rest, rfl⟩ := List.append_of_mem hvote
  have hsplit' : history =
      (past ++ .commit other :: mid) ++ .vote transaction granted :: rest := by
    rw [hsplit]
    simp
  have hgranted : granted = true := by
    have hvoted : .vote transaction true ∈ history := by
      apply voted_of_committed hprotocol
      rw [hsplit]
      exact List.mem_append_right _ (List.mem_cons_of_mem _ hcommit)
    exact vote_unique hprotocol (by rw [hsplit']; simp) hvoted
  have hlogged' : .write other key value ∈ since (past ++ .commit other :: mid) transaction :=
    mem_since_append hlogged _
  have hclash : Clashes (past ++ .commit other :: mid) transaction
      (.write other key value) := by
    rcases hfirst with hread | hwritten
    · right
      have hmem : Act.read transaction key ∈ past ++ .commit other :: mid := by
        rw [hpast]
        simp
      rw [hsplit', firstRead_append (List.ne_nil_of_mem (mem_readsOf_iff.mpr hmem))] at hread
      exact ⟨key, value, hread, rfl⟩
    · left
      rw [hsplit'] at hprotocol hwritten
      unfold firstWritten at hwritten
      rw [writesOf_before_vote hprotocol] at hwritten
      exact ⟨key, hwritten, rfl⟩
  rw [hsplit'] at hvotes
  -- the commit of `other` precedes the vote, so the vote had to be negative
  exact hvotes.at_split.mp hgranted
    ⟨other, hother, by simp, _, hlogged', rfl, hclash⟩

end Votes

/-- In auto mode every vote of a run is automatic. -/
theorem run_automaticVote {cfg : Config} (hauto : cfg.autoMode = true)
    {initial : SharedDirectory} {console : List Str} {requests : List Request}
    {exchanges : List Exchange} {s : ServerState}
    (hrun : run cfg (.initial initial console) requests = some (exchanges, s)) :
    Obeys AutomaticVote (recorded exchanges) := by
  have hinvariant : s.sharedDirectory = replay initial s.log.history ∧
      Obeys AutomaticVote s.log.history := by
    refine run_induction (P := fun _ s => s.sharedDirectory = replay initial s.log.history ∧
      Obeys AutomaticVote s.log.history) ⟨rfl, obeys_nil _⟩ ?_ hrun
    intro _ s request reply next ⟨hdirectory, hvotes⟩ hhandle
    obtain ⟨granted, -, hhistory, hnext, hgranted⟩ := handleRequest_spec hdirectory hhandle
    refine ⟨hnext, ?_⟩
    rw [hhistory]
    cases request with
    | prepare transactionId =>
        exact (obeys_concat AutomaticVote _ _).mpr ⟨hvotes, hgranted hauto⟩
    | unsupported transactionId =>
        rw [record, List.append_nil]
        exact hvotes
    | _ => exact (obeys_concat AutomaticVote _ _).mpr ⟨hvotes, trivial⟩
  rw [← (run_spec hrun).1]
  exact hinvariant.2

/-! ## The serial run -/

/-- The transaction of a request, as the log names it. -/
def Request.owner (request : Request) : Str :=
  cString request.transactionId

/-- The transaction of an exchange. -/
def Exchange.owner (exchange : Exchange) : Str :=
  exchange.1.owner

/-- The requests of the listed transactions, one transaction after another. -/
def serialRequests (requests : List Request) (order : List Str) : List Request :=
  group Request.owner order requests

/-- The exchanges of the listed transactions, one transaction after another. -/
def serialExchanges (exchanges : List Exchange) (order : List Str) : List Exchange :=
  group Exchange.owner order exchanges

/-- Whether a request reads the file for the transaction. -/
def Request.isReadOf (transaction filename : Str) : Request → Bool
  | .read transactionId name => cString transactionId = transaction ∧ cString name = filename
  | _ => false

/-- The read responses a transaction received for a file. -/
def readExchanges (exchanges : List Exchange) (transaction filename : Str) : List Exchange :=
  exchanges.filter fun exchange => exchange.1.isReadOf transaction filename

theorem Request.isReadOf_eq_true_iff {transaction filename : Str} {request : Request} :
    request.isReadOf transaction filename = true ↔
      ∃ transactionId name, request = .read transactionId name ∧
        cString transactionId = transaction ∧ cString name = filename := by
  cases request <;> simp [isReadOf]

/-- The log of serial exchanges is the serial execution of the log. -/
theorem recorded_serialExchanges (exchanges : List Exchange) (order : List Str) :
    recorded (serialExchanges exchanges order) =
      group Act.owner order (recorded exchanges) :=
  flatMap_group (fun _ _ hact => owner_of_mem_record hact) order exchanges

theorem map_fst_serialExchanges (exchanges : List Exchange) (order : List Str) :
    (serialExchanges exchanges order).map Prod.fst =
      serialRequests (exchanges.map Prod.fst) order :=
  map_group (fun _ => rfl) order exchanges

theorem readExchanges_serialExchanges {order : List Str} (hnodup : order.Nodup)
    {transaction : Str} (hmem : transaction ∈ order) (exchanges : List Exchange)
    (filename : Str) :
    readExchanges (serialExchanges exchanges order) transaction filename =
      readExchanges exchanges transaction filename := by
  apply filter_group_of_label hnodup hmem
  intro exchange hread
  obtain ⟨transactionId, name, hrequest, howner, -⟩ := Request.isReadOf_eq_true_iff.mp hread
  rw [Exchange.owner, hrequest]
  exact howner

/-- Where an exchange of the serial list comes from, and the log before it. -/
theorem serialExchanges_eq_append_cons {exchanges before after : List Exchange}
    {exchange : Exchange} {order : List Str}
    (h : serialExchanges exchanges order = before ++ exchange :: after) :
    ∃ earlier later past future, order = earlier ++ exchange.owner :: later ∧
      exchanges = past ++ exchange :: future ∧
      recorded before = group Act.owner earlier (recorded exchanges) ++
        (recorded past).filter fun act => act.owner = exchange.owner := by
  obtain ⟨earlier, later, past, future, horder, hsplit, rfl⟩ := group_eq_append_cons h
  refine ⟨earlier, later, past, future, horder, hsplit, ?_⟩
  rw [recorded_append]
  congr 1
  · exact recorded_serialExchanges exchanges earlier
  · exact recorded_filter (fun owner => decide (owner = exchange.owner)) past

/-- Exchanges of the same requests leave the same history and have the same
selected replies, if after the same history they leave the same entry and have
the same selected reply. -/
theorem recorded_congr (select : Request → Bool) {exchanges exchanges' : List Exchange}
    (hrequests : exchanges.map Prod.fst = exchanges'.map Prod.fst)
    (hreplies : ∀ before before' request reply reply' after after',
      exchanges = before ++ (request, reply) :: after →
      exchanges' = before' ++ (request, reply') :: after' →
      recorded before = recorded before' →
      record (Exchange.granted (request, reply)) request =
          record (Exchange.granted (request, reply')) request ∧
        (select request = true → reply = reply')) :
    recorded exchanges = recorded exchanges' ∧
      exchanges.filter (fun exchange => select exchange.1) =
        exchanges'.filter fun exchange => select exchange.1 := by
  induction exchanges using List.reverseRecOn generalizing exchanges' with
  | nil =>
      obtain rfl : exchanges' = [] := by simpa using hrequests.symm
      exact ⟨rfl, rfl⟩
  | append_singleton exchanges exchange ih =>
      rw [List.map_append, eq_comm, List.map_eq_append_iff] at hrequests
      obtain ⟨front, back, rfl, hfront, hback⟩ := hrequests
      -- both lists end in the same request, with possibly different replies
      obtain ⟨⟨request, reply'⟩, rfl, hrequest⟩ := List.map_eq_singleton_iff.mp hback
      obtain ⟨request', reply⟩ := exchange
      obtain rfl : request = request' := hrequest
      obtain ⟨hbefore, hselected⟩ := ih hfront.symm
        fun before before' other first second after after' hsplit hsplit' =>
          hreplies before before' other first second (after ++ [(request, reply)])
            (after' ++ [(request, reply')]) (by rw [hsplit, List.append_assoc, List.cons_append])
            (by rw [hsplit', List.append_assoc, List.cons_append])
      obtain ⟨hrecord, hreply⟩ :=
        hreplies exchanges front request reply reply' [] [] rfl rfl hbefore
      constructor
      · rw [recorded_append, recorded_append, recorded_cons, recorded_cons, hbefore, hrecord]
      · rw [List.filter_append, List.filter_append, hselected]
        cases hselect : select request with
        | true => rw [hreply hselect]
        | false => simp [hselect]

section SerialRun

variable {cfg : Config} {initial : SharedDirectory} {console : List Str}
  {requests : List Request} {exchanges serial : List Exchange} {final last : ServerState}

/-- Under the protocol a committed transaction was answered `vote_commit`. -/
theorem granted_of_committed (hprotocol : Obeys CommitProtocol (recorded exchanges))
    {transactionId : Str} {reply : Reply} (hmem : (.prepare transactionId, reply) ∈ exchanges)
    (hcommit : .commit (cString transactionId) ∈ recorded exchanges) :
    Exchange.granted (.prepare transactionId, reply) = true := by
  have hvote : Act.vote (cString transactionId)
      (Exchange.granted (.prepare transactionId, reply)) ∈ recorded exchanges :=
    List.mem_flatMap.mpr ⟨_, hmem, List.mem_singleton_self _⟩
  exact vote_unique hprotocol hvote (voted_of_committed hprotocol hcommit)

/-- In the serial run nobody intercepts a transaction. -/
theorem not_intercepted_serial {history past : History Str Str Str} {transaction : Str}
    {earlier later : List Str} (hends : EndsAtCommit history)
    (horder : commitOrder history = earlier ++ transaction :: later) :
    ¬ Intercepted (group Act.owner earlier history ++
      past.filter fun act => act.owner = transaction) transaction := by
  apply not_intercepted_last
  · intro act hact howner
    rw [← howner] at horder
    exact hends.notMem_earlier horder (label_mem_of_mem_group hact).1
  · intro act hact
    exact of_decide_eq_true (List.mem_filter.mp hact).2

/-- **One vote of the serial run.**  Every transaction is voted for, as it was in
the run. -/
theorem record_serial (hauto : cfg.autoMode = true)
    (hprotocol : Obeys CommitProtocol (recorded exchanges))
    (hserial : run cfg (.initial initial console)
      (serialRequests requests (commitOrder (recorded exchanges))) = some (serial, last))
    {before before' after after' : List Exchange} {request : Request} {reply reply' : Reply}
    (hsplit : serial = before ++ (request, reply) :: after)
    (hsplit' : serialExchanges exchanges (commitOrder (recorded exchanges)) =
      before' ++ (request, reply') :: after')
    (hbefore : recorded before = recorded before') :
    record (Exchange.granted (request, reply)) request =
      record (Exchange.granted (request, reply')) request := by
  have hends := endsAtCommit_of_protocol hprotocol
  obtain ⟨earlier, later, past, future, horder, hpast, hfront⟩ :=
    serialExchanges_eq_append_cons hsplit'
  cases request with
  | prepare transactionId =>
      rw [hsplit] at hserial
      obtain ⟨granted, hreply, hgranted⟩ := run_answer hserial
      have halone : granted = true := by
        apply (hgranted hauto).mpr
        rw [hbefore, hfront]
        exact not_intercepted_serial hends horder
      have hcommit : Act.commit (cString transactionId) ∈ recorded exchanges := by
        rw [← mem_commitOrder_iff, horder]
        exact List.mem_append_right _ List.mem_cons_self
      have hvoted : Exchange.granted (.prepare transactionId, reply') = true :=
        granted_of_committed hprotocol (by rw [hpast]; simp) hcommit
      rw [hreply, record_granted_answer, halone, hvoted]
  | _ => rfl

/-- **One read of the serial run.**  It has the reply of the run, if nothing that
the transaction read from the file is overwritten. -/
theorem reply_serial (hprotocol : Obeys CommitProtocol (recorded exchanges))
    (hrun : run cfg (.initial initial console) requests = some (exchanges, final))
    (hserial : run cfg (.initial initial console)
      (serialRequests requests (commitOrder (recorded exchanges))) = some (serial, last))
    {before before' after after' : List Exchange} {request : Request} {reply reply' : Reply}
    {transaction filename : Str} (hread : request.isReadOf transaction filename = true)
    (hkept : ∀ other past future,
      ¬ Overwrite (recorded exchanges) transaction other filename past future)
    (hsplit : serial = before ++ (request, reply) :: after)
    (hsplit' : serialExchanges exchanges (commitOrder (recorded exchanges)) =
      before' ++ (request, reply') :: after')
    (hbefore : recorded before = recorded before') : reply = reply' := by
  have hends := endsAtCommit_of_protocol hprotocol
  obtain ⟨transactionId, name, rfl, rfl, rfl⟩ := Request.isReadOf_eq_true_iff.mp hread
  -- `past` came before the read in the run, `earlier` in the serial run
  obtain ⟨earlier, later, past, future, horder, rfl, hfront⟩ :=
    serialExchanges_eq_append_cons hsplit'
  rw [hsplit] at hserial
  obtain ⟨_, hreply, -⟩ := run_answer hserial
  obtain ⟨_, hreply', -⟩ := run_answer hrun
  rw [recorded_append, recorded_cons] at horder hends hkept hfront
  have hvalue := readValue_group initial hends horder hkept
  rw [hreply, hreply', hbefore, hfront]
  exact congrArg (fun value => Except.ok
    (makeReadResponseMessage transactionId name (value.getD []))) hvalue

/-- **The serial run.**  Its log is the serial execution of the log, and from a
file of which nothing is overwritten a committed transaction reads in it what it
read in the run. -/
theorem recorded_serial (hauto : cfg.autoMode = true)
    (hprotocol : Obeys CommitProtocol (recorded exchanges))
    (hrun : run cfg (.initial initial console) requests = some (exchanges, final))
    (hserial : run cfg (.initial initial console)
      (serialRequests requests (commitOrder (recorded exchanges))) = some (serial, last)) :
    recorded serial = group Act.owner (commitOrder (recorded exchanges)) (recorded exchanges) ∧
      ∀ transaction ∈ commitOrder (recorded exchanges), ∀ filename,
        (∀ other past future,
          ¬ Overwrite (recorded exchanges) transaction other filename past future) →
        readExchanges serial transaction filename =
          readExchanges exchanges transaction filename := by
  have hends := endsAtCommit_of_protocol hprotocol
  have hrequests : serial.map Prod.fst =
      (serialExchanges exchanges (commitOrder (recorded exchanges))).map Prod.fst := by
    rw [map_fst_serialExchanges, run_requests hrun, run_requests hserial]
  constructor
  · rw [← recorded_serialExchanges]
    refine (recorded_congr (fun _ => false) hrequests ?_).1
    intro before before' request reply reply' after after' hsplit hsplit' hbefore
    exact ⟨record_serial hauto hprotocol hserial hsplit hsplit' hbefore, nofun⟩
  · intro transaction hmem filename hkept
    rw [← readExchanges_serialExchanges hends.nodup_commitOrder hmem exchanges]
    refine (recorded_congr (Request.isReadOf transaction filename) hrequests ?_).2
    intro before before' request reply reply' after after' hsplit hsplit' hbefore
    exact ⟨record_serial hauto hprotocol hserial hsplit hsplit' hbefore, fun hread =>
      reply_serial hprotocol hrun hserial hread hkept hsplit hsplit' hbefore⟩

end SerialRun

/-- The serial run in the order of the commits ends in the same shared directory. -/
theorem sharedDirectory_serial {cfg : Config} {initial : SharedDirectory}
    {console : List Str} {requests requests' : List Request} {exchanges serial : List Exchange}
    {final last : ServerState} (hends : EndsAtCommit (recorded exchanges))
    (hrun : run cfg (.initial initial console) requests = some (exchanges, final))
    (hserial : run cfg (.initial initial console) requests' = some (serial, last))
    (hrecorded : recorded serial =
      group Act.owner (commitOrder (recorded exchanges)) (recorded exchanges)) :
    last.sharedDirectory = final.sharedDirectory := by
  obtain ⟨hhistory, hdirectory⟩ := run_spec hrun
  obtain ⟨hhistory', hdirectory'⟩ := run_spec hserial
  have hends' : EndsAtCommit (recorded exchanges ++ []) := by
    rw [List.append_nil]
    exact hends
  have hgroup := replay_group_commitOrder initial hends'
  rw [List.append_nil] at hgroup
  rw [hdirectory', hdirectory, hhistory, hhistory', hrecorded, hgroup]

/-! ## Serializability -/

/-- The order lists the committed transactions, each once, and serving them in
this order, one after another, gives the same read responses and the same shared
directory. -/
structure SerialOrder (cfg : Config) (initial : SharedDirectory) (console : List Str)
    (requests : List Request) (exchanges : List Exchange) (final : ServerState)
    (order : List Str) : Prop where
  nodup : order.Nodup
  committed : ∀ transaction, transaction ∈ order ↔ Act.commit transaction ∈ recorded exchanges
  serves : ∃ serial last,
    run cfg (.initial initial console) (serialRequests requests order) = some (serial, last) ∧
      (∀ transaction ∈ order, ∀ filename,
        readExchanges serial transaction filename =
          readExchanges exchanges transaction filename) ∧
      last.sharedDirectory = final.sharedDirectory

/-- **Serializability.**  In auto mode, if every transaction follows the
protocol, serving the committed transactions one after another in the order of
their commits is a run of the protocol that ends in the same shared directory.
No overwrite that a vote looks at ever happens, and where the votes look at all
overwrites of what a transaction read from a file, it reads the same from this
file in both runs.  If they look at every overwrite, the order of the commits is
a serial order. -/
theorem run_serializable {cfg : Config} (hauto : cfg.autoMode = true)
    {initial : SharedDirectory} {console : List Str} {requests : List Request}
    {exchanges : List Exchange} {final : ServerState}
    (hrun : run cfg (.initial initial console) requests = some (exchanges, final))
    (hprotocol : Obeys CommitProtocol (recorded exchanges)) :
    (∀ transaction other filename past future,
      Overwrite (recorded exchanges) transaction other filename past future →
      ¬ SeenByVote (recorded exchanges) transaction other filename past future) ∧
    (∃ serial last, run cfg (.initial initial console)
        (serialRequests requests (commitOrder (recorded exchanges))) = some (serial, last) ∧
      Obeys CommitProtocol (recorded serial) ∧
      last.sharedDirectory = final.sharedDirectory ∧
      ∀ transaction ∈ commitOrder (recorded exchanges), ∀ filename,
        (∀ other past future,
          Overwrite (recorded exchanges) transaction other filename past future →
          SeenByVote (recorded exchanges) transaction other filename past future) →
        readExchanges serial transaction filename =
          readExchanges exchanges transaction filename) ∧
    ((∀ transaction other filename past future,
        Overwrite (recorded exchanges) transaction other filename past future →
        SeenByVote (recorded exchanges) transaction other filename past future) →
      SerialOrder cfg initial console requests exchanges final
        (commitOrder (recorded exchanges))) := by
  have hends := endsAtCommit_of_protocol hprotocol
  have hprevented : ∀ transaction other filename past future,
      Overwrite (recorded exchanges) transaction other filename past future →
      ¬ SeenByVote (recorded exchanges) transaction other filename past future := by
    intro transaction other filename past future hover
    exact not_seenByVote hprotocol (run_automaticVote hauto hrun) hover
  obtain ⟨serial, last, hserial⟩ := run_isSome cfg hauto (.initial initial console)
    (serialRequests requests (commitOrder (recorded exchanges)))
  obtain ⟨hrecorded, hreads⟩ := recorded_serial hauto hprotocol hrun hserial
  have hdirectory := sharedDirectory_serial hends hrun hserial hrecorded
  have hsame : ∀ transaction ∈ commitOrder (recorded exchanges), ∀ filename,
      (∀ other past future,
        Overwrite (recorded exchanges) transaction other filename past future →
        SeenByVote (recorded exchanges) transaction other filename past future) →
      readExchanges serial transaction filename =
        readExchanges exchanges transaction filename := by
    intro transaction hmem filename hseen
    apply hreads transaction hmem filename
    intro other past future hover
    exact hprevented _ _ _ _ _ hover (hseen _ _ _ hover)
  refine ⟨hprevented, ⟨serial, last, hserial, ?_, hdirectory, hsame⟩, ?_⟩
  · rw [hrecorded]
    exact commitProtocol_group hprotocol hends.nodup_commitOrder
  · intro hseen
    refine ⟨hends.nodup_commitOrder, fun _ => mem_commitOrder_iff, serial, last, hserial, ?_,
      hdirectory⟩
    intro transaction hmem filename
    exact hsame transaction hmem filename fun other past future => hseen _ other _ past future

/-- `T` reads `f`, `U` commits a write of `f`, and the vote stops `T` from
committing its own. -/
theorem run_serializable_stopped_overwrite :
    ∃ exchanges final,
      run ⟨true⟩ (.initial (fun _ => none) [])
          [.read (text "T") (text "f"), .write (text "U") (text "f") (text "u"),
            .prepare (text "U"), .globalCommit (text "U"),
            .write (text "T") (text "f") (text "t"), .prepare (text "T"),
            .globalAbort (text "T"), .read (text "V") (text "f"), .prepare (text "V"),
            .globalCommit (text "V")] = some (exchanges, final) ∧
      Obeys CommitProtocol (recorded exchanges) ∧
      SerialOrder ⟨true⟩ (fun _ => none) []
          [.read (text "T") (text "f"), .write (text "U") (text "f") (text "u"),
            .prepare (text "U"), .globalCommit (text "U"),
            .write (text "T") (text "f") (text "t"), .prepare (text "T"),
            .globalAbort (text "T"), .read (text "V") (text "f"), .prepare (text "V"),
            .globalCommit (text "V")] exchanges final (commitOrder (recorded exchanges)) := by
  have hserial : ∀ {requests exchanges final},
      run ⟨true⟩ (.initial (fun _ => none) []) requests = some (exchanges, final) →
      Obeys CommitProtocol (recorded exchanges) →
      (∀ act ∈ recorded exchanges, ∀ act' ∈ recorded exchanges, act.read?.isSome →
        act'.commit?.isSome → act'.owner ≠ act.owner →
        ¬ [act, act', .commit act.owner].Sublist (recorded exchanges)) →
      SerialOrder ⟨true⟩ (fun _ => none) [] requests exchanges final
        (commitOrder (recorded exchanges)) := by
    intro requests exchanges final hrun hprotocol hnone
    refine (run_serializable rfl hrun hprotocol).2.2 ?_
    intro transaction other filename past future hover
    have hsublist := hover.sublist
    exact absurd hsublist (hnone _ (hsublist.subset (by simp)) _ (hsublist.subset (by simp))
      rfl rfl hover.other_ne)
  exact ⟨_, _, rfl, by decide, hserial rfl (by decide) (by decide)⟩

/-! ## Runs without a serial order -/

/-- What is compared of two runs: what the listed transactions read from one file,
and the file at the end. -/
def outcome (cfg : Config) (initial : SharedDirectory) (console : List Str)
    (requests : List Request) (order : List Str) (filename : Str) :
    Option (List (List Exchange) × Option Str) :=
  (run cfg (.initial initial console) requests).map fun result =>
    (order.map fun transaction => readExchanges result.1 transaction filename,
      result.2.sharedDirectory filename)

theorem SerialOrder.outcome_eq {cfg : Config} {initial : SharedDirectory} {console : List Str}
    {requests : List Request} {exchanges : List Exchange} {final : ServerState}
    {order : List Str} (h : SerialOrder cfg initial console requests exchanges final order)
    (hrun : run cfg (.initial initial console) requests = some (exchanges, final))
    (filename : Str) :
    outcome cfg initial console (serialRequests requests order) order filename =
      outcome cfg initial console requests order filename := by
  obtain ⟨serial, last, hserial, hreads, hdirectory⟩ := h.serves
  have hresponses : (order.map fun transaction => readExchanges serial transaction filename) =
      order.map fun transaction => readExchanges exchanges transaction filename :=
    List.map_congr_left fun transaction hmem => hreads transaction hmem filename
  simp only [outcome, hrun, hserial, Option.map_some, hresponses, hdirectory]

/-- A list of exactly two elements has one of two orders. -/
theorem eq_pair_of_nodup {α : Type} {list : List α} {first second : α} (hne : first ≠ second)
    (hnodup : list.Nodup) (hmem : ∀ element, element ∈ list ↔ element ∈ [first, second]) :
    list = [first, second] ∨ list = [second, first] := by
  have hperm : list.Perm [first, second] :=
    (List.perm_ext_iff_of_nodup hnodup (by simpa using hne)).mpr hmem
  obtain ⟨head, last, rfl⟩ := List.length_eq_two.mp hperm.length_eq
  have hhead := (hmem head).mp (by simp)
  have hlast := (hmem last).mp (by simp)
  have hdistinct : head ≠ last := by simpa using hnodup
  simp only [List.mem_cons, List.not_mem_nil, or_false] at hhead hlast
  grind

/-- A run that commits two transactions has no serial order if neither order of
the two has the outcome of the run. -/
theorem not_serialOrder_of_outcome {cfg : Config} {initial : SharedDirectory}
    {console : List Str} {requests : List Request} {exchanges : List Exchange}
    {final : ServerState} {first second : Str} (filename : Str) (hne : first ≠ second)
    (hrun : run cfg (.initial initial console) requests = some (exchanges, final))
    (hcommitted : commitOrder (recorded exchanges) = [first, second])
    (hfirst : outcome cfg initial console (serialRequests requests [first, second])
        [first, second] filename ≠ outcome cfg initial console requests [first, second] filename)
    (hsecond : outcome cfg initial console (serialRequests requests [second, first])
        [second, first] filename ≠ outcome cfg initial console requests [second, first] filename)
    (order : List Str) :
    ¬ SerialOrder cfg initial console requests exchanges final order := by
  intro hserial
  have hmem : ∀ transaction, transaction ∈ order ↔ transaction ∈ [first, second] := by
    intro transaction
    rw [hserial.committed, ← mem_commitOrder_iff, hcommitted]
  have houtcome := hserial.outcome_eq hrun filename
  rcases eq_pair_of_nodup hne hserial.nodup hmem with rfl | rfl
  · exact hfirst houtcome
  · exact hsecond houtcome

/-- The requests follow the protocol, and no order of the committed transactions
is a serial order of their run. -/
def NotSerializable (cfg : Config) (initial : SharedDirectory) (console : List Str)
    (requests : List Request) : Prop :=
  ∃ exchanges final, run cfg (.initial initial console) requests = some (exchanges, final) ∧
    Obeys CommitProtocol (recorded exchanges) ∧
    ∀ order, ¬ SerialOrder cfg initial console requests exchanges final order

/-- Three runs without a serial order, in which `T` reads `f`, `U` commits a
write of `f`, and `T` commits its own: both are voted for before either is
committed, `U` wrote before `T` began, and `f` is the second file for `T`. -/
theorem run_not_serializable :
    NotSerializable ⟨true⟩ (fun _ => none) []
        [.read (text "T") (text "f"), .read (text "U") (text "f"),
          .write (text "T") (text "f") (text "t"), .write (text "U") (text "f") (text "u"),
          .prepare (text "T"), .prepare (text "U"), .globalCommit (text "U"),
          .globalCommit (text "T")] ∧
      NotSerializable ⟨true⟩ (fun _ => none) []
        [.write (text "U") (text "f") (text "u"), .read (text "T") (text "f"),
          .prepare (text "U"), .globalCommit (text "U"),
          .write (text "T") (text "f") (text "t"), .prepare (text "T"),
          .globalCommit (text "T")] ∧
      NotSerializable ⟨true⟩ (fun _ => none) []
        [.read (text "T") (text "g"), .read (text "T") (text "f"),
          .write (text "U") (text "f") (text "u"), .prepare (text "U"),
          .globalCommit (text "U"), .write (text "T") (text "h") (text "t"),
          .write (text "T") (text "f") (text "t"), .prepare (text "T"),
          .globalCommit (text "T")] := by
  have hne : text "U" ≠ text "T" := by decide
  refine ⟨⟨_, _, rfl, by decide, ?_⟩, ⟨_, _, rfl, by decide, ?_⟩, ⟨_, _, rfl, by decide, ?_⟩⟩
  · exact not_serialOrder_of_outcome (text "f") hne rfl (by decide) (by decide) (by decide)
  · exact not_serialOrder_of_outcome (text "f") hne rfl (by decide) (by decide) (by decide)
  · exact not_serialOrder_of_outcome (text "f") hne rfl (by decide) (by decide) (by decide)

end DistributedFileServer
