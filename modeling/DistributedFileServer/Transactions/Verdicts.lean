import DistributedFileServer.DeferredUpdate.PrivateWorkspace
import DistributedFileServer.Transactions.Votes

/-!
# Abort verdicts

A negative vote always has a culprit: another transaction that logged a
conflicting entry after the voted transaction began and committed before the
vote.  A negative vote is final: whatever is requested later, all further votes
on the transaction are negative as well.
-/

namespace DistributedFileServer

open DeferredUpdate Dao Controller

/-! ## Culprits -/

section Culprits

variable {τ κ ν : Type}

/-- The entry `act` of `other` conflicts with the entry `own` of the transaction:
both name the key and one of them writes it.  It comes after an entry of the
transaction and before the commit of `other`. -/
structure Culprit (past : History τ κ ν) (transaction other : τ) (key : κ)
    (own act : Act τ κ ν) : Prop where
  other_ne : other ≠ transaction
  own_mem : own ∈ past
  own_owner : own.owner = transaction
  own_key : own.key? = some key
  act_owner : act.owner = other
  act_key : act.key? = some key
  writes : own.write?.isSome ∨ act.write?.isSome
  order : ∃ front middle back, past = front ++ act :: (middle ++ .commit other :: back) ∧
    ∃ first ∈ front, first.owner = transaction

/-- An undecided transaction's entry comes before its commit. -/
theorem commit_after_of_quiet {before after : History τ κ ν} {act : Act τ κ ν}
    (hquiet : QuietAfterDecision (before ++ act :: after))
    (hcommit : .commit act.owner ∈ before ++ act :: after) (hact : act ≠ .commit act.owner) :
    .commit act.owner ∈ after := by
  rcases List.mem_append.mp hcommit with hmem | hmem
  · have hdecided := (List.pairwise_append.mp hquiet).2.2 _ hmem act List.mem_cons_self
    exact absurd (Or.inl rfl) hdecided
  · rcases List.mem_cons.mp hmem with heq | hmem
    · exact absurd heq.symm hact
    · exact hmem

variable [DecidableEq τ]

/-- **Every interception has a culprit**, if nobody acts after the own decision. -/
theorem culprit_of_intercepted {past : History τ κ ν} {transaction : τ}
    (hquiet : QuietAfterDecision past) (h : Intercepted past transaction) :
    ∃ other key own act, Culprit past transaction other key own act := by
  obtain ⟨other, hother, hcommit, act, hact, rfl, hclash⟩ := h
  obtain ⟨front, rest, rfl, hfirst⟩ := mem_since_iff.mp hact
  have hnamed : ∃ key, act.key? = some key := by
    rcases hclash with ⟨key, -, hkey⟩ | ⟨key, value, -, hwrite⟩
    · exact ⟨key, hkey⟩
    · exact ⟨key, Act.key?_of_write? hwrite⟩
  have hne : act ≠ .commit act.owner := by
    intro heq
    obtain ⟨key, hkey⟩ := hnamed
    rw [heq] at hkey
    cases hkey
  obtain ⟨middle, back, rfl⟩ := List.append_of_mem (commit_after_of_quiet hquiet hcommit hne)
  have horder : ∃ front' middle' back', front ++ act :: (middle ++ .commit act.owner :: back) =
      front' ++ act :: (middle' ++ .commit act.owner :: back') ∧
        ∃ first ∈ front', first.owner = transaction := ⟨front, middle, back, rfl, hfirst⟩
  rcases hclash with ⟨key, hwritten, hkey⟩ | ⟨key, value, hread, hwrite⟩
  · obtain ⟨value, hmem⟩ := write_mem_of_firstWritten hwritten
    exact ⟨_, key, _, act, hother, hmem, rfl, rfl, rfl, hkey, Or.inl rfl, horder⟩
  · exact ⟨_, key, _, act, hother, read_mem_of_firstRead hread, rfl, rfl, rfl,
      Act.key?_of_write? hwrite, Or.inr (by rw [hwrite]; rfl), horder⟩

/-- The culprit commits after the transaction's first entry. -/
theorem Culprit.commit_mem_since {past : History τ κ ν} {transaction other : τ} {key : κ}
    {own act : Act τ κ ν} (h : Culprit past transaction other key own act) :
    .commit other ∈ since past transaction := by
  obtain ⟨front, middle, back, hpast, first, hfirst, howner⟩ := h.order
  rw [mem_since_iff]
  exact ⟨front ++ act :: middle, back, by rw [hpast]; simp, first,
    List.mem_append_left _ hfirst, howner⟩

/-- Between two entries of one transaction there is none of another. -/
def OneAfterAnother (history : History τ κ ν) : Prop :=
  ∀ earlier between later, [earlier, between, later].Sublist history →
    earlier.owner = later.owner → between.owner = earlier.owner

omit [DecidableEq τ] in
/-- One after another, a culprit would act in the middle of the transaction. -/
theorem not_culprit_of_oneAfterAnother {past after : History τ κ ν} {last : Act τ κ ν}
    (hserial : OneAfterAnother (past ++ last :: after)) (other : τ) (key : κ)
    (own act : Act τ κ ν) : ¬ Culprit past last.owner other key own act := by
  intro h
  obtain ⟨front, middle, back, rfl, first, hfirst, howner⟩ := h.order
  have hsublist : [first, act, last].Sublist
      (front ++ act :: (middle ++ .commit other :: back) ++ last :: after) := by
    have hpast : [first, act].Sublist (front ++ act :: (middle ++ .commit other :: back)) :=
      (List.singleton_sublist.mpr hfirst).append (List.cons_sublist_cons.mpr (List.nil_sublist _))
    exact hpast.append (List.cons_sublist_cons.mpr (List.nil_sublist _))
  have hsame := hserial first act last hsublist howner
  rw [h.act_owner, howner] at hsame
  exact h.other_ne hsame

end Culprits

/-- **Every abort has a culprit.**  In auto mode, if no transaction acts after its
own decision, a negative vote has a culprit; if no other transaction commits
after the transaction's first row, the vote is positive, and so are all votes of
a run whose transactions run one after another. -/
theorem run_voteAbort_culprit {cfg : Config} (hauto : cfg.autoMode = true)
    {initial : SharedDirectory} {console : List Str} {requests : List Request}
    {exchanges : List Exchange} {final : ServerState}
    (hrun : run cfg (.initial initial console) requests = some (exchanges, final))
    (hquiet : QuietAfterDecision (recorded exchanges)) :
    (∀ before transactionId after,
      exchanges = before ++
        (.prepare transactionId, .ok (makeVoteAbortMessage transactionId)) :: after →
      ∃ other filename own act,
        Culprit (recorded before) (cString transactionId) other filename own act) ∧
    (∀ before transactionId reply after,
      exchanges = before ++ (.prepare transactionId, reply) :: after →
      (∀ other, .commit other ∈ since (recorded before) (cString transactionId) →
        other = cString transactionId) →
      reply = .ok (makeVoteCommitMessage transactionId)) ∧
    (OneAfterAnother (recorded exchanges) → ∀ transactionId reply,
      (.prepare transactionId, reply) ∈ exchanges →
      reply = .ok (makeVoteCommitMessage transactionId)) := by
  have hculprit : ∀ before transactionId reply after,
      exchanges = before ++ (.prepare transactionId, reply) :: after →
      reply ≠ .ok (makeVoteCommitMessage transactionId) →
      ∃ other filename own act,
        Culprit (recorded before) (cString transactionId) other filename own act := by
    rintro before transactionId reply after rfl hreply
    have habort : reply = .ok (makeVoteAbortMessage transactionId) := by
      obtain ⟨granted, rfl, -⟩ := run_answer hrun
      cases granted with
      | true => exact absurd rfl hreply
      | false => rfl
    rw [recorded_append] at hquiet
    exact culprit_of_intercepted (List.pairwise_append.mp hquiet).1
      ((run_prepare_eq_voteAbort_iff hauto hrun).mp habort)
  refine ⟨?_, ?_, ?_⟩
  · intro before transactionId after hsplit
    apply hculprit before transactionId _ after hsplit
    intro heq
    exact makeVoteCommitMessage_ne_makeVoteAbortMessage _ _ (Except.ok.inj heq).symm
  · intro before transactionId reply after hsplit halone
    by_contra hreply
    obtain ⟨other, filename, own, act, h⟩ :=
      hculprit before transactionId reply after hsplit hreply
    exact h.other_ne (halone other h.commit_mem_since)
  · intro hserial transactionId reply hmem
    by_contra hreply
    obtain ⟨before, after, hsplit⟩ := List.append_of_mem hmem
    obtain ⟨other, filename, own, act, h⟩ :=
      hculprit before transactionId reply after hsplit hreply
    rw [hsplit, recorded_append, recorded_cons] at hserial
    exact not_culprit_of_oneAfterAnother hserial other filename own act h

/-- `U` overwrites the file between the read of `T` and its vote. -/
theorem run_voteAbort_culprit_overwritten :
    ∃ exchanges final,
      run ⟨true⟩ (.initial (fun _ => none) [])
        [.read (text "T") (text "f"), .write (text "U") (text "f") (text "u"),
          .prepare (text "U"), .globalCommit (text "U"), .prepare (text "T")] =
        some (exchanges, final) ∧
      ∃ before, exchanges = before ++
          [(.prepare (text "T"), .ok (makeVoteAbortMessage (text "T")))] ∧
        ∃ other filename own act,
          Culprit (recorded before) (cString (text "T")) other filename own act := by
  have hculprit : ∀ {exchanges before : List Exchange} {final : ServerState},
      run ⟨true⟩ (.initial (fun _ => none) [])
        [.read (text "T") (text "f"), .write (text "U") (text "f") (text "u"),
          .prepare (text "U"), .globalCommit (text "U"), .prepare (text "T")] =
        some (exchanges, final) →
      QuietAfterDecision (recorded exchanges) →
      exchanges = before ++ [(.prepare (text "T"), .ok (makeVoteAbortMessage (text "T")))] →
      ∃ other filename own act,
        Culprit (recorded before) (cString (text "T")) other filename own act :=
    fun hrun hquiet hsplit => (run_voteAbort_culprit rfl hrun hquiet).1 _ _ [] hsplit
  have hvote : ∃ exchanges final, run ⟨true⟩ (.initial (fun _ => none) [])
        [.read (text "T") (text "f"), .write (text "U") (text "f") (text "u"),
          .prepare (text "U"), .globalCommit (text "U"), .prepare (text "T")] =
        some (exchanges, final) ∧ QuietAfterDecision (recorded exchanges) ∧
      ∃ before, exchanges = before ++
        [(.prepare (text "T"), .ok (makeVoteAbortMessage (text "T")))] :=
    ⟨_, _, rfl, by decide, [_, _, _, _], rfl⟩
  obtain ⟨exchanges, final, hrun, hquiet, before, hsplit⟩ := hvote
  exact ⟨exchanges, final, hrun, before, hsplit, hculprit hrun hquiet hsplit⟩

/-! ## Finality -/

/-- The vote on the transaction that an exchange holds. -/
def Exchange.voteOn (transaction : Str) (exchange : Exchange) : Option Bool :=
  match exchange.1 with
  | .prepare transactionId =>
      if cString transactionId = transaction then some exchange.granted else none
  | _ => none

/-- The votes a transaction received. -/
def votesOf (exchanges : List Exchange) (transaction : Str) : List Bool :=
  exchanges.filterMap (Exchange.voteOn transaction)

theorem Exchange.voteOn_eq_some_iff {transaction : Str} {exchange : Exchange} {vote : Bool} :
    exchange.voteOn transaction = some vote ↔
      ∃ transactionId, exchange.1 = .prepare transactionId ∧
        cString transactionId = transaction ∧ exchange.granted = vote := by
  obtain ⟨request, reply⟩ := exchange
  cases request with
  | prepare transactionId => simp [voteOn]
  | _ => simp [voteOn]

/-- Votes that never turn positive again come in two blocks. -/
theorem eq_replicate_append_of_pairwise {votes : List Bool}
    (h : votes.Pairwise fun earlier later => earlier = false → later = false) :
    ∃ granted denied, votes = List.replicate granted true ++ List.replicate denied false := by
  induction votes with
  | nil => exact ⟨0, 0, rfl⟩
  | cons vote votes ih =>
      obtain ⟨hhead, hrest⟩ := List.pairwise_cons.mp h
      cases vote with
      | true =>
          obtain ⟨granted, denied, rfl⟩ := ih hrest
          exact ⟨granted + 1, denied, rfl⟩
      | false =>
          refine ⟨0, votes.length + 1, ?_⟩
          have hall : votes = List.replicate votes.length false :=
            List.eq_replicate_of_mem fun later hlater => hhead later hlater rfl
          rw [List.replicate_succ, List.replicate_zero, List.nil_append, ← hall]

/-- In a run, a vote that is not positive is a `vote_abort`. -/
theorem granted_eq_false_iff {cfg : Config} {initial : SharedDirectory} {console : List Str}
    {requests : List Request} {before after : List Exchange} {transactionId : Str}
    {reply : Reply} {final : ServerState}
    (hrun : run cfg (.initial initial console) requests =
      some (before ++ (.prepare transactionId, reply) :: after, final)) :
    Exchange.granted (.prepare transactionId, reply) = false ↔
      reply = .ok (makeVoteAbortMessage transactionId) := by
  have hne := makeVoteCommitMessage_ne_makeVoteAbortMessage transactionId transactionId
  obtain ⟨granted, rfl, -⟩ := run_answer hrun
  cases granted with
  | true => simp [Exchange.granted, answer, Request.transactionId, hne]
  | false => simp [Exchange.granted, answer, Request.transactionId, hne.symm]

/-- A later vote on a transaction that was turned down. -/
theorem run_prepare_after_voteAbort {cfg : Config} (hauto : cfg.autoMode = true)
    {initial : SharedDirectory} {console : List Str} {requests : List Request}
    {before middle after : List Exchange} {transactionId transactionId' : Str} {reply : Reply}
    {final : ServerState}
    (hrun : run cfg (.initial initial console) requests = some (before ++
      (.prepare transactionId, .ok (makeVoteAbortMessage transactionId)) ::
        (middle ++ (.prepare transactionId', reply) :: after), final))
    (hsame : cString transactionId' = cString transactionId) :
    reply = .ok (makeVoteAbortMessage transactionId') := by
  have hfirst := (run_prepare_eq_voteAbort_iff hauto hrun).mp rfl
  rw [← List.cons_append, ← List.append_assoc] at hrun
  rw [run_prepare_eq_voteAbort_iff hauto hrun, hsame, recorded_append]
  exact hfirst.append _

/-- **Abort verdicts are final.**  In auto mode, once a `prepare` is answered
`vote_abort`, every later one of the transaction is, so the votes on a transaction
are some `vote_commit`s followed by some `vote_abort`s. -/
theorem run_voteAbort_final {cfg : Config} (hauto : cfg.autoMode = true)
    {initial : SharedDirectory} {console : List Str} {requests : List Request}
    {exchanges : List Exchange} {final : ServerState}
    (hrun : run cfg (.initial initial console) requests = some (exchanges, final)) :
    (∀ before middle after transactionId transactionId' reply,
      exchanges = before ++
        (.prepare transactionId, .ok (makeVoteAbortMessage transactionId)) ::
          (middle ++ (.prepare transactionId', reply) :: after) →
      cString transactionId' = cString transactionId →
      reply = .ok (makeVoteAbortMessage transactionId')) ∧
    ∀ transaction, ∃ granted denied,
      votesOf exchanges transaction =
        List.replicate granted true ++ List.replicate denied false := by
  constructor
  · rintro before middle after transactionId transactionId' reply rfl hsame
    exact run_prepare_after_voteAbort hauto hrun hsame
  · intro transaction
    apply eq_replicate_append_of_pairwise
    unfold votesOf
    rw [List.pairwise_filterMap, List.pairwise_iff_forall_sublist]
    intro earlier later hsublist vote hvote vote' hvote' hdenied
    obtain ⟨request, reply⟩ := earlier
    obtain ⟨request', reply'⟩ := later
    obtain ⟨transactionId, rfl, howner, hgranted⟩ := Exchange.voteOn_eq_some_iff.mp hvote
    obtain ⟨transactionId', rfl, howner', hgranted'⟩ := Exchange.voteOn_eq_some_iff.mp hvote'
    -- the two exchanges stand in the run in this order
    obtain ⟨front, back, rfl, hfront, hback⟩ := List.cons_sublist_iff.mp hsublist
    obtain ⟨before, middle, rfl⟩ := List.append_of_mem hfront
    obtain ⟨middle', after, rfl⟩ := List.append_of_mem (List.singleton_sublist.mp hback)
    rw [List.append_assoc, List.cons_append, ← List.append_assoc middle] at hrun
    obtain rfl := (granted_eq_false_iff hrun).mp (hgranted.trans hdenied)
    have hlater := run_prepare_after_voteAbort hauto hrun (howner'.trans howner.symm)
    rw [← List.cons_append, ← List.append_assoc] at hrun
    rw [← hgranted', granted_eq_false_iff hrun, hlater]

/-- `T` is turned down twice, although it reads and writes in between. -/
theorem run_voteAbort_final_retry :
    ∃ exchanges final,
      run ⟨true⟩ (.initial (fun _ => none) [])
        [.read (text "T") (text "f"), .prepare (text "T"),
          .write (text "U") (text "f") (text "u"), .globalCommit (text "U"),
          .prepare (text "T"), .read (text "T") (text "f"),
          .write (text "T") (text "g") (text "t"), .prepare (text "T")] =
        some (exchanges, final) ∧
      votesOf exchanges (text "T") = [true, false, false] ∧
      ∃ granted denied, votesOf exchanges (text "T") =
        List.replicate granted true ++ List.replicate denied false := by
  have hfinal : ∀ {exchanges : List Exchange} {final : ServerState},
      run ⟨true⟩ (.initial (fun _ => none) [])
        [.read (text "T") (text "f"), .prepare (text "T"),
          .write (text "U") (text "f") (text "u"), .globalCommit (text "U"),
          .prepare (text "T"), .read (text "T") (text "f"),
          .write (text "T") (text "g") (text "t"), .prepare (text "T")] =
        some (exchanges, final) →
      ∃ granted denied, votesOf exchanges (text "T") =
        List.replicate granted true ++ List.replicate denied false :=
    fun hrun => (run_voteAbort_final rfl hrun).2 (text "T")
  exact ⟨_, _, rfl, by decide, hfinal rfl⟩

end DistributedFileServer
