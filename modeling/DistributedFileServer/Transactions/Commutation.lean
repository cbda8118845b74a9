import DistributedFileServer.Log.Serving

/-!
# Transactions on disjoint files commute

Two neighbouring requests of two transactions that never name a common file can
be exchanged: every request of the run, of any transaction, gets the same reply,
and the run ends with the same shared directory.  The two logs differ in the
order and the ids of two rows for the rest of the run, which is the relation
`SwappedAt` between their histories.
-/

namespace DistributedFileServer

open DeferredUpdate Controller

/-- No file is named by a request of `left` and by a request of `right`. -/
def NameNoCommonFile (requests : List Request) (left right : Str) : Prop :=
  ∀ request ∈ requests, ∀ request' ∈ requests,
    request.transactionId = left → request'.transactionId = right →
      ∀ filename ∈ request.filename?, filename ∉ request'.filename?

instance (requests : List Request) (left right : Str) :
    Decidable (NameNoCommonFile requests left right) :=
  inferInstanceAs (Decidable (∀ request ∈ requests, ∀ request' ∈ requests, _ → _ → _))

/-- Every entry was logged for one of the requests. -/
def LoggedFor (requests : List Request) (history : History Str Str Str) : Prop :=
  ∀ act ∈ history, ∃ request ∈ requests, act.owner = request.transactionId ∧
    ∀ key, act.key? = some key → request.filename? = some key

theorem LoggedFor.append {requests : List Request} {first second : History Str Str Str}
    (hfirst : LoggedFor requests first) (hsecond : LoggedFor requests second) :
    LoggedFor requests (first ++ second) := by
  intro act hact
  rcases List.mem_append.mp hact with hact | hact
  · exact hfirst act hact
  · exact hsecond act hact

theorem loggedFor_record {requests : List Request} {request : Request} (granted : Bool)
    (hmem : request ∈ requests) (hnul : request.NulFreeNames) :
    LoggedFor requests (record granted request) := by
  intro act hact
  have hid : cString request.transactionId = request.transactionId := cString_of_nulFree hnul.1
  refine ⟨request, hmem, by rw [owner_of_mem_record hact, hid], ?_⟩
  intro key hkey
  cases request with
  | read transactionId filename =>
      obtain rfl : act = _ := by simpa [record] using hact
      obtain rfl : cString filename = key := by simpa [Act.key?] using hkey
      rw [cString_of_nulFree (hnul.2 filename rfl)]
      rfl
  | write transactionId filename data =>
      obtain rfl : act = _ := by simpa [record] using hact
      obtain rfl : cString filename = key := by simpa [Act.key?] using hkey
      rw [cString_of_nulFree (hnul.2 filename rfl)]
      rfl
  | unsupported transactionId => simp [record] at hact
  | _ =>
      obtain rfl : act = _ := by simpa [record] using hact
      simp [Act.key?] at hkey

theorem loggedFor_recorded {requests : List Request} {exchanges : List Exchange}
    (hmem : ∀ exchange ∈ exchanges, exchange.1 ∈ requests)
    (hnul : ∀ exchange ∈ exchanges, exchange.1.NulFreeNames) :
    LoggedFor requests (recorded exchanges) := by
  intro act hact
  obtain ⟨exchange, hexchange, hrecord⟩ := List.mem_flatMap.mp hact
  exact loggedFor_record _ (hmem exchange hexchange) (hnul exchange hexchange) act hrecord

/-- Requests that name no common file leave entries that name no common file. -/
theorem LoggedFor.apart {requests : List Request} {history : History Str Str Str}
    {left right : Str} (h : LoggedFor requests history)
    (hdisjoint : NameNoCommonFile requests left right) : Apart history left right := by
  intro act hact act' hact' howner howner' key hkey hkey'
  obtain ⟨request, hrequest, hid, hnames⟩ := h act hact
  obtain ⟨request', hrequest', hid', hnames'⟩ := h act' hact'
  exact hdisjoint request hrequest request' hrequest' (hid.symm.trans howner)
    (hid'.symm.trans howner') key (hnames key hkey) (hnames' key hkey')

/-- A request is logged by no entry or by one. -/
theorem record_eq (granted : Bool) (request : Request) :
    record granted request = [] ∨ ∃ act, record granted request = [act] := by
  cases request <;> simp [record]

/-- Recording two requests in either order gives swapped histories. -/
theorem swappedAt_record {request request' : Request} (hnul : request.NulFreeNames)
    (hnul' : request'.NulFreeNames) (history : History Str Str Str) (granted granted' : Bool) :
    SwappedAt request.transactionId request'.transactionId
      (history ++ record granted request ++ record granted' request')
      (history ++ record granted' request' ++ record granted request) := by
  rcases record_eq granted request with hnone | ⟨act, hact⟩
  · rw [hnone]
    exact Or.inl (by simp)
  rcases record_eq granted' request' with hnone | ⟨act', hact'⟩
  · rw [hnone]
    exact Or.inl (by simp)
  have howner : act.owner = cString request.transactionId :=
    owner_of_mem_record (by rw [hact]; simp)
  have howner' : act'.owner = cString request'.transactionId :=
    owner_of_mem_record (by rw [hact']; simp)
  rw [cString_of_nulFree hnul.1] at howner
  rw [cString_of_nulFree hnul'.1] at howner'
  rw [hact, hact']
  exact Or.inr ⟨history, act, act', [], howner, howner', by simp, by simp⟩

/-- A request is answered the same after swapped histories. -/
theorem answer_swappedAt (initial : SharedDirectory) {history swapped : History Str Str Str}
    {left right : Str} (h : SwappedAt left right history swapped) (hne : left ≠ right)
    (hapart : Apart history left right) {request : Request} {granted granted' : Bool}
    (hgranted : granted = true ↔ ¬ Intercepted history (cString request.transactionId))
    (hgranted' : granted' = true ↔ ¬ Intercepted swapped (cString request.transactionId)) :
    granted = granted' ∧
      answer initial history granted request = answer initial swapped granted' request := by
  have hsame : granted = granted' := by
    rw [Bool.eq_iff_iff, hgranted, hgranted', intercepted_of_swappedAt h hne hapart]
  refine ⟨hsame, answer_congr ?_ hsame⟩
  intro filename _
  unfold readValue
  rw [h.writesOf_eq hne, h.replay_eq hne hapart]

/-- A request is answered the same with and without the other transaction's
request right before it. -/
theorem answer_after_apart (initial : SharedDirectory) {history : History Str Str Str}
    {request request' : Request} {granted granted' other : Bool}
    (hnul : request.NulFreeNames) (hnul' : request'.NulFreeNames)
    (hne : request.transactionId ≠ request'.transactionId)
    (hapart : Apart (history ++ record granted request ++ record other request')
      request.transactionId request'.transactionId)
    (hgranted : granted = true ↔ ¬ Intercepted history (cString request.transactionId))
    (hgranted' : granted' = true ↔
      ¬ Intercepted (history ++ record other request') (cString request.transactionId)) :
    granted' = granted ∧
      answer initial (history ++ record other request') granted' request =
        answer initial history granted request := by
  have hid : cString request.transactionId = request.transactionId := cString_of_nulFree hnul.1
  have hid' : cString request'.transactionId = request'.transactionId :=
    cString_of_nulFree hnul'.1
  rcases record_eq other request' with hnone | ⟨act, hact⟩
  · rw [hnone, List.append_nil] at hgranted' ⊢
    have hsame : granted' = granted := by rw [Bool.eq_iff_iff, hgranted, hgranted']
    rw [hsame]
    exact ⟨rfl, rfl⟩
  have howner : act.owner = request'.transactionId := by
    rw [← hid']
    exact owner_of_mem_record (by rw [hact]; simp)
  rw [hact] at hapart hgranted' ⊢
  have hfewer : Apart (history ++ [act]) request.transactionId act.owner := by
    rw [howner]
    apply hapart.mono
    intro entry hentry
    rcases List.mem_append.mp hentry with hentry | hentry
    · exact List.mem_append_left _ (List.mem_append_left _ hentry)
    · exact List.mem_append_right _ hentry
  have hforeign : act.owner ≠ request.transactionId := by
    rw [howner]
    exact hne.symm
  have hvote : Intercepted (history ++ [act]) (cString request.transactionId) ↔
      Intercepted history (cString request.transactionId) := by
    rw [hid]
    exact intercepted_concat_of_apart hforeign hfewer
  have hsame : granted' = granted := by
    rw [Bool.eq_iff_iff, hgranted, hgranted', hvote]
  refine ⟨hsame, answer_congr ?_ hsame⟩
  intro filename hfilename
  have hwrites : writesOf (history ++ [act]) (cString request.transactionId) =
      writesOf history (cString request.transactionId) := by
    apply writesOf_concat_of_ne
    intro hown
    rw [hid] at hown
    exact absurd hown hforeign
  have hfile : replay initial (history ++ [act]) (cString filename) =
      replay initial history (cString filename) := by
    apply replay_concat_apply_of_apart
    intro entry hentry howner' hkey
    -- the request's own entry names the file
    obtain ⟨own, hown, hkeyOwn⟩ : ∃ own ∈ record granted request,
        own.key? = some (cString filename) := by
      cases request <;> simp_all [record, Request.filename?, Act.key?]
    have hownOwner : own.owner = request.transactionId := by
      rw [owner_of_mem_record hown, hid]
    exact hapart own (by simp [hown]) entry (by simp [hentry]) hownOwner
      (howner'.trans howner) _ hkeyOwn hkey
  unfold readValue
  rw [hwrites, hfile]

/-- From states with swapped histories, the rest of the run goes the same. -/
theorem run_of_swappedAt {cfg : Config} (hauto : cfg.autoMode = true)
    {initial : SharedDirectory} {requests : List Request} {left right : Str}
    (hne : left ≠ right) (hdisjoint : NameNoCommonFile requests left right)
    {rest : List Request} (hrest : ∀ request ∈ rest, request ∈ requests)
    (hnul : ∀ request ∈ rest, request.NulFreeNames) {s s' : ServerState}
    (hdirectory : s.sharedDirectory = replay initial s.log.history)
    (hdirectory' : s'.sharedDirectory = replay initial s'.log.history)
    (hlogged : LoggedFor requests s.log.history)
    (hswapped : SwappedAt left right s.log.history s'.log.history) :
    ∃ back final final', run cfg s rest = some (back, final) ∧
      run cfg s' rest = some (back, final') ∧
      final.sharedDirectory = final'.sharedDirectory := by
  induction rest generalizing s s' with
  | nil =>
      refine ⟨[], s, s', rfl, rfl, ?_⟩
      rw [hdirectory, hdirectory', hswapped.replay_eq hne (hlogged.apart hdisjoint)]
  | cons request rest ih =>
      -- equal answers, and the histories stay swapped in the same place
      obtain ⟨granted, next, hhandle, hhistory, hnext, hgranted⟩ :=
        handleRequest_auto hauto hdirectory request
      obtain ⟨granted', next', hhandle', hhistory', hnext', hgranted'⟩ :=
        handleRequest_auto hauto hdirectory' request
      obtain ⟨rfl, hanswer⟩ := answer_swappedAt initial hswapped hne
        (hlogged.apart hdisjoint) hgranted hgranted'
      have hloggedNext : LoggedFor requests next.log.history := by
        rw [hhistory]
        exact hlogged.append (loggedFor_record granted
          (hrest request List.mem_cons_self) (hnul request List.mem_cons_self))
      have hswappedNext : SwappedAt left right next.log.history next'.log.history := by
        rw [hhistory, hhistory']
        exact hswapped.append _
      obtain ⟨back, final, final', hrun, hrun', hsame⟩ :=
        ih (fun r hr => hrest r (List.mem_cons_of_mem _ hr))
          (fun r hr => hnul r (List.mem_cons_of_mem _ hr)) hnext hnext' hloggedNext hswappedNext
      refine ⟨_, final, final', run_cons_eq_some_iff.mpr ⟨_, next, back, hhandle, hrun, rfl⟩,
        ?_, hsame⟩
      rw [hanswer]
      exact run_cons_eq_some_iff.mpr ⟨_, next', back, hhandle', hrun', rfl⟩

/-- Two requests of two transactions that name no common file get the same
replies in either order, and leave histories that differ in this order only. -/
theorem run_pair {cfg : Config} (hauto : cfg.autoMode = true) {initial : SharedDirectory}
    {requests : List Request} {request request' : Request} (hmem : request ∈ requests)
    (hmem' : request' ∈ requests) (hnul : request.NulFreeNames) (hnul' : request'.NulFreeNames)
    (hne : request.transactionId ≠ request'.transactionId)
    (hdisjoint : NameNoCommonFile requests request.transactionId request'.transactionId)
    {s : ServerState} (hdirectory : s.sharedDirectory = replay initial s.log.history)
    (hlogged : LoggedFor requests s.log.history) :
    ∃ reply reply' next next',
      run cfg s [request, request'] = some ([(request, reply), (request', reply')], next) ∧
      run cfg s [request', request] = some ([(request', reply'), (request, reply)], next') ∧
      next.sharedDirectory = replay initial next.log.history ∧
      next'.sharedDirectory = replay initial next'.log.history ∧
      LoggedFor requests next.log.history ∧
      SwappedAt request.transactionId request'.transactionId next.log.history
        next'.log.history := by
  -- the two requests in the first order
  obtain ⟨granted, s₁, hfirst, hhistory₁, hdirectory₁, hgranted⟩ :=
    handleRequest_auto hauto hdirectory request
  obtain ⟨grantedLate', s₂, hsecond, hhistory₂, hdirectory₂, hgrantedLate'⟩ :=
    handleRequest_auto hauto hdirectory₁ request'
  -- the two requests in the other order
  obtain ⟨granted', s₁', hfirst', hhistory₁', hdirectory₁', hgranted'⟩ :=
    handleRequest_auto hauto hdirectory request'
  obtain ⟨grantedLate, s₂', hsecond', hhistory₂', hdirectory₂', hgrantedLate⟩ :=
    handleRequest_auto hauto hdirectory₁' request
  have hlogged₂ : ∀ g g',
      LoggedFor requests (s.log.history ++ record g request ++ record g' request') := by
    intro g g'
    exact (hlogged.append (loggedFor_record g hmem hnul)).append
      (loggedFor_record g' hmem' hnul')
  have hlogged₂' : ∀ g g',
      LoggedFor requests (s.log.history ++ record g' request' ++ record g request) := by
    intro g g'
    exact (hlogged.append (loggedFor_record g' hmem' hnul')).append
      (loggedFor_record g hmem hnul)
  rw [hhistory₁] at hgrantedLate'
  rw [hhistory₁'] at hgrantedLate
  obtain ⟨rfl, hanswer⟩ := answer_after_apart initial hnul hnul' hne
    ((hlogged₂ granted granted').apart hdisjoint) hgranted hgrantedLate
  obtain ⟨rfl, hanswer'⟩ := answer_after_apart initial hnul' hnul hne.symm
    ((hlogged₂' grantedLate granted').apart hdisjoint).symm hgranted' hgrantedLate'
  rw [hhistory₁, hanswer'] at hsecond
  rw [hhistory₁', hanswer] at hsecond'
  refine ⟨answer initial s.log.history grantedLate request,
    answer initial s.log.history grantedLate' request', s₂, s₂',
    run_cons_eq_some_iff.mpr ⟨_, s₁, _, hfirst,
      run_singleton_eq_some_iff.mpr ⟨_, hsecond, rfl⟩, rfl⟩,
    run_cons_eq_some_iff.mpr ⟨_, s₁', _, hfirst',
      run_singleton_eq_some_iff.mpr ⟨_, hsecond', rfl⟩, rfl⟩,
    hdirectory₂, hdirectory₂', ?_, ?_⟩
  · rw [hhistory₂, hhistory₁]
    exact hlogged₂ _ _
  · rw [hhistory₂, hhistory₁, hhistory₂', hhistory₁']
    exact swappedAt_record hnul hnul' _ _ _

/-- **Transactions on disjoint files commute.**  In auto mode, exchanging two
neighbouring requests of two transactions that never name a common file leaves
every reply and the final shared directory as they are. -/
theorem run_swap {cfg : Config} (hauto : cfg.autoMode = true) (initial : SharedDirectory)
    (console : List Str) {before after : List Request} {request request' : Request}
    (hnul : ∀ r ∈ before ++ request :: request' :: after, r.NulFreeNames)
    (hne : request.transactionId ≠ request'.transactionId)
    (hdisjoint : NameNoCommonFile (before ++ request :: request' :: after)
      request.transactionId request'.transactionId) :
    ∃ front reply reply' back final final',
      run cfg (.initial initial console) (before ++ request :: request' :: after) =
        some (front ++ (request, reply) :: (request', reply') :: back, final) ∧
      run cfg (.initial initial console) (before ++ request' :: request :: after) =
        some (front ++ (request', reply') :: (request, reply) :: back, final') ∧
      front.map Prod.fst = before ∧ back.map Prod.fst = after ∧
      final.sharedDirectory = final'.sharedDirectory := by
  obtain ⟨front, s, hfront⟩ := run_isSome cfg hauto (.initial initial console) before
  obtain ⟨hhistory, hdirectory⟩ := run_spec hfront
  have hlogged : LoggedFor (before ++ request :: request' :: after) s.log.history := by
    rw [hhistory]
    have hmem : ∀ exchange ∈ front, exchange.1 ∈ before ++ request :: request' :: after :=
      run_forall_request (fun r hr => List.mem_append_left _ hr) hfront
    exact loggedFor_recorded hmem fun exchange hexchange => hnul _ (hmem exchange hexchange)
  obtain ⟨reply, reply', next, next', hpair, hpair', hnext, hnext', hloggedNext, hswapped⟩ :=
    run_pair hauto (by simp) (by simp) (hnul request (by simp)) (hnul request' (by simp))
      hne hdisjoint hdirectory hlogged
  -- the rest of the run
  have hafter : ∀ r ∈ after, r ∈ before ++ request :: request' :: after := by
    intro r hr
    simp [hr]
  obtain ⟨back, final, final', hback, hback', hsame⟩ :=
    run_of_swappedAt hauto hne hdisjoint hafter (fun r hr => hnul r (hafter r hr))
      hnext hnext' hloggedNext hswapped
  have hrest := run_append_eq_some_iff.mpr ⟨next, _, _, hpair, hback, rfl⟩
  have hrest' := run_append_eq_some_iff.mpr ⟨next', _, _, hpair', hback', rfl⟩
  exact ⟨front, reply, reply', back, final, final',
    run_append_eq_some_iff.mpr ⟨s, front, _, hfront, hrest, rfl⟩,
    run_append_eq_some_iff.mpr ⟨s, front, _, hfront, hrest', rfl⟩,
    run_requests hfront, run_requests hback, hsame⟩

theorem run_swap_commit_and_read :
    ∃ front reply reply' back final final',
      run ⟨true⟩ (.initial (fun _ => none) [])
          ([.write (text "T") (text "f") (text "x")] ++ .globalCommit (text "T") ::
            .read (text "U") (text "g") :: [.prepare (text "U")]) =
        some (front ++ (.globalCommit (text "T"), reply) ::
          (.read (text "U") (text "g"), reply') :: back, final) ∧
      run ⟨true⟩ (.initial (fun _ => none) [])
          ([.write (text "T") (text "f") (text "x")] ++ .read (text "U") (text "g") ::
            .globalCommit (text "T") :: [.prepare (text "U")]) =
        some (front ++ (.read (text "U") (text "g"), reply') ::
          (.globalCommit (text "T"), reply) :: back, final') ∧
      front.map Prod.fst = [.write (text "T") (text "f") (text "x")] ∧
      back.map Prod.fst = [.prepare (text "U")] ∧
      final.sharedDirectory = final'.sharedDirectory :=
  run_swap rfl _ _ (by decide) (by decide) (by decide)

end DistributedFileServer
