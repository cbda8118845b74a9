import DistributedFileServer.DeferredUpdate.Discipline
import DistributedFileServer.Log.Serving

/-!
# Decisions, repeated decisions and late writes

The handlers of `global_commit` and `global_abort` look at no vote and at no
earlier decision, and the handler of `write` does not ask whether the
transaction has been prepared.  This file says what follows: what is safe when
the coordinator follows the votes, what a repeated `global_commit` does, and
which writes a `global_commit` applies.
-/

namespace DistributedFileServer

open DeferredUpdate Dao Controller

/-! ## Decision safety -/

/-- Serving the request is safe: files change only when a transaction is
committed whose last vote was positive and that was not aborted, and no
transaction ends up both committed and aborted. -/
structure DecisionSafe (s : ServerState) (request : Request) (next : ServerState) : Prop where
  voted : next.sharedDirectory ≠ s.sharedDirectory →
    ∃ transactionId, request = .globalCommit transactionId ∧
      lastVote s.log.history (cString transactionId) = some true ∧
      Act.abort (cString transactionId) ∉ s.log.history
  decidedOnce : ∀ transaction,
    ¬ (Act.commit transaction ∈ next.log.history ∧ Act.abort transaction ∈ next.log.history)

/-- **Decisions.**  Only a global commit changes files, and each changed file
holds what some committed transaction wrote to it.  If the coordinator follows
the votes, every request is served safely, and the transaction behind a changed
file was voted for, was committed and was not aborted. -/
theorem run_decisionSafe {cfg : Config} {initial : SharedDirectory} {console : List Str}
    {requests : List Request} {exchanges : List Exchange} {s next : ServerState}
    {request : Request} {reply : Reply}
    (hrun : run cfg (.initial initial console) requests = some (exchanges, s))
    (hhandle : handleRequest cfg s request = some (reply, next)) :
    (next.sharedDirectory ≠ s.sharedDirectory →
      ∃ transactionId, request = .globalCommit transactionId ∧
        next.sharedDirectory =
          applyWrites (getPendingWrites s.log transactionId) s.sharedDirectory) ∧
    (∀ filename, next.sharedDirectory filename ≠ initial filename →
      ∃ transaction content, Act.commit transaction ∈ next.log.history ∧
        Act.write transaction filename content ∈ next.log.history ∧
        next.sharedDirectory filename = some content) ∧
    (Obeys FollowsVotes next.log.history →
      DecisionSafe s request next ∧
      ∀ filename, next.sharedDirectory filename ≠ initial filename →
        ∃ transaction content, Act.vote transaction true ∈ next.log.history ∧
          Act.commit transaction ∈ next.log.history ∧
          Act.abort transaction ∉ next.log.history ∧
          Act.write transaction filename content ∈ next.log.history ∧
          next.sharedDirectory filename = some content) := by
  have hwhole := run_concat_eq_some_iff.mpr ⟨s, exchanges, reply, hrun, hhandle, rfl⟩
  obtain ⟨-, hdirectory⟩ := run_spec hwhole
  have hchange : next.sharedDirectory ≠ s.sharedDirectory →
      ∃ transactionId, request = .globalCommit transactionId ∧
        next.sharedDirectory =
          applyWrites (getPendingWrites s.log transactionId) s.sharedDirectory := by
    intro hne
    rcases sharedDirectory_handleRequest hhandle with hsame | ⟨id, rfl⟩
    · exact absurd hsame hne
    · exact ⟨id, rfl, sharedDirectory_globalCommit hhandle⟩
  have hvalue : ∀ filename, next.sharedDirectory filename ≠ initial filename →
      ∃ transaction content, Act.commit transaction ∈ next.log.history ∧
        Act.write transaction filename content ∈ next.log.history ∧
        next.sharedDirectory filename = some content := by
    intro filename hne
    rw [hdirectory] at hne ⊢
    exact replay_apply_of_ne hne
  refine ⟨hchange, hvalue, ?_⟩
  -- the discipline covers the last request too, so its rule can be read off
  intro hvotes
  refine ⟨⟨?_, not_commit_and_abort hvotes⟩, ?_⟩
  · intro hne
    obtain ⟨transactionId, rfl, -⟩ := hchange hne
    obtain ⟨granted, -, hhistory, -, -⟩ := handleRequest_spec (run_spec hrun).2 hhandle
    rw [hhistory] at hvotes
    exact ⟨transactionId, rfl, ((obeys_concat FollowsVotes _ _).mp hvotes).2⟩
  · intro filename hne
    obtain ⟨transaction, content, hcommit, hwrite, hcontent⟩ := hvalue filename hne
    refine ⟨transaction, content, vote_mem_of_commit_mem hvotes hcommit, hcommit, ?_, hwrite,
      hcontent⟩
    intro habort
    exact not_commit_and_abort hvotes transaction ⟨hcommit, habort⟩

/-- The first decision that follows no vote is already unsafe: a transaction
that was never prepared and was aborted changes a file. -/
theorem run_not_decisionSafe :
    ∃ exchanges s reply next,
      run ⟨true⟩ (.initial (fun _ => none) [])
          [.write (text "T") (text "f") (text "x"), .globalAbort (text "T")] =
        some (exchanges, s) ∧
      handleRequest ⟨true⟩ s (.globalCommit (text "T")) = some (reply, next) ∧
      next.sharedDirectory (text "f") = some (text "x") ∧
      ¬ DecisionSafe s (.globalCommit (text "T")) next := by
  refine ⟨_, _, _, _, rfl, rfl, by decide, ?_⟩
  intro hsafe
  exact hsafe.decidedOnce (text "T") (by decide)

theorem run_decisionSafe_voted :
    ∃ exchanges s reply next,
      run ⟨true⟩ (.initial (fun _ => none) [])
          [.write (text "T") (text "f") (text "x"), .prepare (text "T")] =
        some (exchanges, s) ∧
      handleRequest ⟨true⟩ s (.globalCommit (text "T")) = some (reply, next) ∧
      next.sharedDirectory (text "f") = some (text "x") ∧
      DecisionSafe s (.globalCommit (text "T")) next := by
  have hsafe : ∀ {exchanges s reply next},
      run ⟨true⟩ (.initial (fun _ => none) [])
          [.write (text "T") (text "f") (text "x"), .prepare (text "T")] =
        some (exchanges, s) →
      handleRequest ⟨true⟩ s (.globalCommit (text "T")) = some (reply, next) →
      Obeys FollowsVotes next.log.history → DecisionSafe s (.globalCommit (text "T")) next :=
    fun hrun hhandle hvotes => ((run_decisionSafe hrun hhandle).2.2 hvotes).1
  exact ⟨_, _, _, _, rfl, rfl, by decide, hsafe rfl rfl (by decide)⟩

/-! ## The writes a commit applies -/

/-- **Late writes.**  A global commit applies the writes its transaction had
logged when it was prepared, followed by those it sent afterwards.  So what is
applied is what was voted on exactly if no write came in between. -/
theorem run_globalCommit_after_prepare {cfg : Config} {initial : SharedDirectory}
    {console : List Str} {before between : List Request} {exchanges : List Exchange}
    {s next : ServerState} {transactionId : Str} {reply : Reply}
    (hrun : run cfg (.initial initial console) (before ++ .prepare transactionId :: between) =
      some (exchanges, s))
    (hhandle : handleRequest cfg s (.globalCommit transactionId) = some (reply, next)) :
    ∃ front voted, run cfg (.initial initial console) before = some (front, voted) ∧
      next.sharedDirectory =
        applyWrites (getPendingWrites s.log transactionId) s.sharedDirectory ∧
      getPendingWrites s.log transactionId =
        getPendingWrites voted.log transactionId ++ requestedWrites between transactionId ∧
      (getPendingWrites s.log transactionId = getPendingWrites voted.log transactionId ↔
        ∀ owner filename data, .write owner filename data ∈ between →
          cString owner ≠ cString transactionId) := by
  obtain ⟨voted, front, back, hbefore, -, -⟩ := run_append_eq_some_iff.mp hrun
  have hlist : getPendingWrites s.log transactionId =
      getPendingWrites voted.log transactionId ++ requestedWrites between transactionId := by
    rw [getPendingWrites_run hrun, getPendingWrites_run hbefore, requestedWrites_append]
    rfl
  refine ⟨front, voted, hbefore, sharedDirectory_globalCommit hhandle, hlist, ?_⟩
  rw [hlist, List.append_right_eq_self, requestedWrites_eq_nil_iff]

/-- A write between the vote and the decision is applied without a vote. -/
theorem run_late_write_applied :
    ∃ front voted next exchanges s reply final,
      run ⟨true⟩ (.initial (fun _ => none) []) [.write (text "T") (text "f") (text "a")] =
        some (front, voted) ∧
      handleRequest ⟨true⟩ voted (.prepare (text "T")) =
        some (.ok (makeVoteCommitMessage (text "T")), next) ∧
      run ⟨true⟩ next [.write (text "T") (text "f") (text "b")] = some (exchanges, s) ∧
      handleRequest ⟨true⟩ s (.globalCommit (text "T")) = some (reply, final) ∧
      getPendingWrites s.log (text "T") ≠ getPendingWrites voted.log (text "T") ∧
      final.sharedDirectory (text "f") = some (text "b") :=
  ⟨_, _, _, _, _, _, _, rfl, rfl, rfl, rfl, by decide, by decide⟩

theorem run_globalCommit_after_prepare_read :
    ∃ exchanges s reply next front voted,
      run ⟨true⟩ (.initial (fun _ => none) [])
          [.write (text "T") (text "f") (text "a"), .prepare (text "T"),
            .read (text "T") (text "f")] = some (exchanges, s) ∧
      handleRequest ⟨true⟩ s (.globalCommit (text "T")) = some (reply, next) ∧
      run ⟨true⟩ (.initial (fun _ => none) []) [.write (text "T") (text "f") (text "a")] =
        some (front, voted) ∧
      next.sharedDirectory =
        applyWrites (getPendingWrites s.log (text "T")) s.sharedDirectory := by
  obtain ⟨exchanges, s, hrun⟩ := run_isSome ⟨true⟩ rfl (.initial (fun _ => none) [])
    ([.write (text "T") (text "f") (text "a")] ++
      .prepare (text "T") :: [.read (text "T") (text "f")])
  obtain ⟨reply, next, hhandle⟩ := handleRequest_isSome ⟨true⟩ rfl s (.globalCommit (text "T"))
  obtain ⟨front, voted, hbefore, hdirectory, -, -⟩ := run_globalCommit_after_prepare hrun hhandle
  exact ⟨exchanges, s, reply, next, front, voted, hrun, hhandle, hbefore, hdirectory⟩

/-- From one point of a run to a later one a file keeps its content, unless a
transaction is committed in between that has written the file. -/
theorem sharedDirectory_run_apply {cfg : Config} {initial : SharedDirectory}
    {console : List Str} {before between : List Request} {front mid : List Exchange}
    {first s : ServerState} {filename : Str}
    (hbefore : run cfg (.initial initial console) before = some (front, first))
    (hbetween : run cfg first between = some (mid, s))
    (hunwritten : ∀ other, .globalCommit other ∈ between →
      ∀ write ∈ getPendingWrites s.log other, write.1 ≠ filename) :
    s.sharedDirectory filename = first.sharedDirectory filename := by
  have hrun := run_append_eq_some_iff.mpr ⟨first, front, mid, hbefore, hbetween, rfl⟩
  obtain ⟨hhistory, hdirectory⟩ := run_spec hrun
  obtain ⟨hhistoryFirst, hdirectoryFirst⟩ := run_spec hbefore
  rw [hdirectory, hdirectoryFirst, hhistory, hhistoryFirst, recorded_append, replay_append]
  apply replayFrom_apply_of_no_commit
  intro past transaction future hsplit
  -- what the transaction had written by its commit is part of what it ever wrote
  have hcommit : Act.commit transaction ∈ recorded mid := by
    rw [hsplit]
    exact List.mem_append_right _ List.mem_cons_self
  obtain ⟨other, hmem, rfl⟩ := commit_mem_recorded_iff.mp hcommit
  rw [run_requests hbetween] at hmem
  rw [lastValue_eq_none_iff]
  intro write hwrite
  apply hunwritten other hmem
  rw [getPendingWrites_eq, hhistory, recorded_append, hsplit, ← List.append_assoc,
    writesOf_append]
  exact List.mem_append_left _ hwrite

/-- **Repeated commits.**  A repeated global commit lays the writes of the first
one over the shared directory again.  It changes nothing exactly if every file
its transaction wrote still shows the transaction's last content, in particular
if no transaction that was committed in between has written one of these files. -/
theorem run_repeated_globalCommit {cfg : Config} {initial : SharedDirectory}
    {console : List Str} {before between : List Request} {exchanges : List Exchange}
    {s next : ServerState} {transactionId : Str} {reply : Reply}
    (hbetween : ∀ request ∈ between, cString request.transactionId ≠ cString transactionId)
    (hrun : run cfg (.initial initial console) (before ++ .globalCommit transactionId :: between) =
      some (exchanges, s))
    (hhandle : handleRequest cfg s (.globalCommit transactionId) = some (reply, next)) :
    ∃ front first, run cfg (.initial initial console) before = some (front, first) ∧
      next.sharedDirectory =
        applyWrites (getPendingWrites first.log transactionId) s.sharedDirectory ∧
      (next.sharedDirectory = s.sharedDirectory ↔
        ∀ filename content,
          lastValue (getPendingWrites first.log transactionId) filename = some content →
          s.sharedDirectory filename = some content) ∧
      ((∀ other, .globalCommit other ∈ between →
          ∀ write ∈ getPendingWrites first.log transactionId,
            ∀ write' ∈ getPendingWrites s.log other, write.1 ≠ write'.1) →
        next.sharedDirectory = s.sharedDirectory) := by
  obtain ⟨first, front, back, hbefore, hrest, hexchanges⟩ := run_append_eq_some_iff.mp hrun
  -- the second commit replays the writes of the first
  have hlist : getPendingWrites s.log transactionId = getPendingWrites first.log transactionId := by
    have hnone : requestedWrites between transactionId = [] := by
      rw [requestedWrites_eq_nil_iff]
      intro owner filename data hmem
      exact hbetween _ hmem
    rw [getPendingWrites_run hrun, getPendingWrites_run hbefore, requestedWrites_append]
    show requestedWrites before transactionId ++ requestedWrites between transactionId = _
    rw [hnone, List.append_nil]
  have hnext := sharedDirectory_globalCommit hhandle
  rw [hlist] at hnext
  have hsame : next.sharedDirectory = s.sharedDirectory ↔
      ∀ filename content,
        lastValue (getPendingWrites first.log transactionId) filename = some content →
        s.sharedDirectory filename = some content := by
    rw [hnext, applyWrites_eq_self_iff]
  refine ⟨front, first, hbefore, hnext, hsame, ?_⟩
  intro hapart
  rw [hsame]
  intro filename content hlast
  obtain ⟨reply', second, mid, hcommit, hmid, -⟩ := run_cons_eq_some_iff.mp hrest
  have hsecond := run_concat_eq_some_iff.mpr ⟨first, front, reply', hbefore, hcommit, rfl⟩
  have hkept : s.sharedDirectory filename = second.sharedDirectory filename := by
    apply sharedDirectory_run_apply hsecond hmid
    intro other hother write' hwrite' hname
    exact hapart other hother _ (mem_of_lastValue_eq_some hlast) write' hwrite' hname.symm
  rw [hkept, sharedDirectory_globalCommit hcommit, applyWrites_apply, hlast]
  rfl

/-- A repeated commit can undo the commit of another transaction. -/
theorem run_repeated_globalCommit_overwrites :
    ∃ exchanges s reply next,
      run ⟨true⟩ (.initial (fun _ => none) [])
          [.write (text "T") (text "f") (text "a"), .prepare (text "T"),
            .globalCommit (text "T"), .write (text "U") (text "f") (text "b"),
            .prepare (text "U"), .globalCommit (text "U")] = some (exchanges, s) ∧
      handleRequest ⟨true⟩ s (.globalCommit (text "T")) = some (reply, next) ∧
      s.sharedDirectory (text "f") = some (text "b") ∧
      next.sharedDirectory (text "f") = some (text "a") :=
  ⟨_, _, _, _, rfl, rfl, by decide, by decide⟩

theorem run_repeated_globalCommit_other_file :
    ∃ exchanges s reply next,
      run ⟨true⟩ (.initial (fun _ => none) [])
          [.write (text "T") (text "f") (text "a"), .globalCommit (text "T"),
            .write (text "U") (text "g") (text "b"), .globalCommit (text "U")] =
        some (exchanges, s) ∧
      handleRequest ⟨true⟩ s (.globalCommit (text "T")) = some (reply, next) ∧
      next.sharedDirectory = s.sharedDirectory := by
  have hrepeat : ∀ {exchanges s reply next},
      run ⟨true⟩ (.initial (fun _ => none) [])
          ([.write (text "T") (text "f") (text "a")] ++ .globalCommit (text "T") ::
            [.write (text "U") (text "g") (text "b"), .globalCommit (text "U")]) =
        some (exchanges, s) →
      handleRequest ⟨true⟩ s (.globalCommit (text "T")) = some (reply, next) →
      s.sharedDirectory (text "f") = some (text "a") →
      next.sharedDirectory = s.sharedDirectory := by
    intro exchanges s reply next hrun hhandle hshown
    obtain ⟨front, first, hfirst, -, hsame, -⟩ :=
      run_repeated_globalCommit (by decide) hrun hhandle
    rw [hsame, getPendingWrites_run hfirst]
    intro filename content hlast
    obtain ⟨rfl, rfl⟩ : filename = cString (text "f") ∧ content = cString (text "a") := by
      simpa [requestedWrites] using mem_of_lastValue_eq_some hlast
    exact hshown
  exact ⟨_, _, _, _, rfl, rfl, hrepeat rfl rfl (by decide)⟩

end DistributedFileServer
