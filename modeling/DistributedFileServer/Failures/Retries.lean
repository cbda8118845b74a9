import DistributedFileServer.DeferredUpdate.Stuttering
import DistributedFileServer.Filenames.Answers

/-!
# Requests that are sent again

A client without an answer cannot know what has become of its request.  The
exception may have come before anything happened, after the files were written, or
after the row was logged; or the answer was lost on its way.  A client that sends
its request again at once, until it has an answer, need not know: it gets the answers
of a server on which nothing fails, and leaves the files of one.  The server may be
started again in between, since all that counts is in the log and in the files.
-/

namespace DistributedFileServer

open Programs DeferredUpdate DaoCalls

/-! ## Repeated rows and the vote -/

section Vote

variable {τ κ ν : Type} [DecidableEq τ]

/-- An entry is logged since a transaction's first one if it follows one of its entries. -/
theorem mem_since_iff_pair {history : History τ κ ν} {transaction : τ} {act : Act τ κ ν} :
    act ∈ since history transaction ↔
      ∃ earlier, earlier.owner = transaction ∧ [earlier, act].Sublist history := by
  rw [mem_since_iff]
  constructor
  · rintro ⟨before, after, rfl, earlier, hmem, howner⟩
    refine ⟨earlier, howner, ?_⟩
    exact (List.singleton_sublist.mpr hmem).append
      (List.singleton_sublist.mpr (List.mem_cons_self (l := after)))
  · rintro ⟨earlier, howner, hpair⟩
    obtain ⟨front, back, rfl, hmem, hact⟩ := List.cons_sublist_iff.mp hpair
    obtain ⟨middle, after, rfl⟩ := List.append_of_mem (List.singleton_sublist.mp hact)
    exact ⟨front ++ middle, after, by rw [List.append_assoc], earlier,
      List.mem_append_left _ hmem, howner⟩

/-- The vote looks at a history only through the first accesses, the commits and the
entries that follow one of the transaction's own. -/
theorem interceptedBy_of_pairs {history history' : History τ κ ν} {transaction other : τ}
    (hcommit : Act.commit other ∈ history ↔ Act.commit other ∈ history')
    (hwritten : firstWritten history transaction = firstWritten history' transaction)
    (hread : firstRead history transaction = firstRead history' transaction)
    (hpair : ∀ earlier act : Act τ κ ν, earlier.owner = transaction → act.owner = other →
      ([earlier, act].Sublist history ↔ [earlier, act].Sublist history')) :
    InterceptedBy history transaction other ↔ InterceptedBy history' transaction other := by
  have hsince : ∀ act : Act τ κ ν, act.owner = other →
      (act ∈ since history transaction ↔ act ∈ since history' transaction) := by
    intro act hact
    rw [mem_since_iff_pair, mem_since_iff_pair]
    apply exists_congr
    intro earlier
    apply and_congr_right
    intro howner
    exact hpair earlier act howner hact
  unfold InterceptedBy Clashes
  rw [hcommit, hwritten, hread]
  apply and_congr_right
  intro _
  apply exists_congr
  intro act
  constructor
  · rintro ⟨hact, howner, hclash⟩
    exact ⟨(hsince act howner).mp hact, howner, hclash⟩
  · rintro ⟨hact, howner, hclash⟩
    exact ⟨(hsince act howner).mpr hact, howner, hclash⟩

/-- **Repetitions leave the vote alone.** -/
theorem stutters_intercepted {repeated history : History τ κ ν} (h : Stutters repeated history)
    (transaction : τ) : Intercepted repeated transaction ↔ Intercepted history transaction := by
  apply intercepted_congr
  intro other hne
  apply interceptedBy_of_pairs h.mem_iff
  · unfold firstWritten writesOf
    rw [h.head?_filterMap]
  · exact h.head?_filterMap _
  · intro earlier act howner hact
    apply h.pair_iff
    rintro rfl
    exact hne (hact.symm.trans howner)

/-- A vote of its own does not change how a transaction is voted on. -/
theorem intercepted_concat_vote (history : History τ κ ν) (transaction : τ) (granted : Bool) :
    Intercepted (history ++ [.vote transaction granted]) transaction ↔
      Intercepted history transaction := by
  apply intercepted_congr
  intro other hne
  apply interceptedBy_of_pairs
  · simp
  · unfold firstWritten
    rw [writesOf_concat_of_ne fun _ => rfl]
  · unfold firstRead
    rw [readsOf_append]
    simp [readsOf, Act.read?]
  · intro earlier act howner hact
    rw [pair_sublist_concat, or_iff_left]
    rintro ⟨rfl, -⟩
    exact hne hact.symm

/-- A transaction is voted on as if its `prepare` were not logged. -/
theorem granted_eq_of_stutters {history repeated : History τ κ ν} {granted granted' : Bool}
    {transaction : τ} (hgranted : granted = true ↔ ¬ Intercepted history transaction)
    (h : Stutters repeated history ∨
      Stutters repeated (history ++ [.vote transaction granted]))
    (hgranted' : granted' = true ↔ ¬ Intercepted repeated transaction) :
    granted' = granted := by
  have hsame : Intercepted repeated transaction ↔ Intercepted history transaction := by
    rcases h with h | h
    · exact stutters_intercepted h transaction
    · rw [stutters_intercepted h]
      exact intercepted_concat_vote history transaction granted
  rw [Bool.eq_iff_iff, hgranted', hgranted, hsame]

end Vote

/-! ## One attempt -/

section Attempts

variable {κ : Type} [DecidableEq κ] {system : System κ} {initial : κ → Option Str}
  {history : History Str Str Str} {s : Stores κ}

/-- The log records the history, with some rows repeated, and the files are what the
history makes of the initial ones. -/
structure Follows (system : System κ) (initial : κ → Option Str) (history : History Str Str Str)
    (s : Stores κ) : Prop where
  sound : s.files.Sound
  log : Stutters s.log.history history
  disk : s.files.disk = locatedDisk system.locate initial history

/-- So far, the attempts at a request may have logged its entry, and they may have done
to the files what it does. -/
structure Attempted (system : System κ) (initial : κ → Option Str)
    (history entry : History Str Str Str) (s : Stores κ) : Prop where
  sound : s.files.Sound
  log : Stutters s.log.history history ∨ Stutters s.log.history (history ++ entry)
  disk : s.files.disk = locatedDisk system.locate initial history ∨
    s.files.disk = locatedDisk system.locate initial (history ++ entry)

theorem Follows.attempted (h : Follows system initial history s) (entry : History Str Str Str) :
    Attempted system initial history entry s :=
  ⟨h.sound, Or.inl h.log, Or.inl h.disk⟩

theorem Follows.attempted_again {entry : History Str Str Str}
    (h : Follows system initial (history ++ entry) s) :
    Attempted system initial history entry s :=
  ⟨h.sound, Or.inr h.log, Or.inr h.disk⟩

/-- Logging an entry for the first time, or once more. -/
theorem stutters_append_logged {repeated : History Str Str Str} {granted : Bool}
    {request : Request}
    (h : Stutters repeated history ∨
      Stutters repeated (history ++ logged cString granted request)) :
    Stutters (repeated ++ logged cString granted request)
      (history ++ logged cString granted request) := by
  cases request with
  | unsupported transactionId => simpa [logged] using h
  | _ =>
      rcases h with h | h
      · exact .concat _ h
      · exact .again h

/-- Only a commit changes the files. -/
theorem locatedDisk_append_logged (locate : Str → κ) (granted : Bool) {request : Request}
    (hcommit : ∀ transactionId, request ≠ .globalCommit transactionId) :
    locatedDisk locate initial (history ++ logged cString granted request) =
      locatedDisk locate initial history := by
  unfold locatedDisk
  cases request with
  | globalCommit transactionId => exact absurd rfl (hcommit transactionId)
  | unsupported transactionId => rw [logged, List.append_nil]
  | _ =>
      rw [logged, List.map_append, List.map_singleton, replay_concat]
      rfl

theorem replyTo_of_stutters {repeated : History Str Str Str} (h : Stutters repeated history)
    (locate : Str → κ) (granted : Bool) (request : Request) :
    replyTo cString locate initial repeated granted request =
      replyTo cString locate initial history granted request := by
  cases request with
  | read transactionId filename => rw [replyTo, replyTo, h.locatedValue_eq]
  | _ => rfl

/-- The answer to a request does not depend on whether it is already logged. -/
theorem replyTo_append_logged (locate : Str → κ) (granted granted' : Bool) (request : Request) :
    replyTo cString locate initial (history ++ logged cString granted' request) granted request =
      replyTo cString locate initial history granted request := by
  cases request with
  | read transactionId filename =>
      have hdisk : locatedDisk locate initial
          (history ++ logged cString granted' (.read transactionId filename)) =
            locatedDisk locate initial history :=
        locatedDisk_append_logged locate granted' fun _ => Request.noConfusion
      unfold locatedDisk at hdisk
      rw [replyTo, replyTo, locatedValue, locatedValue, hdisk, logged,
        writesOf_concat_of_ne fun _ => rfl]
  | _ => rfl

/-- The transaction's writes are the same with and without repetitions. -/
theorem lastValue_getPendingWrites (locate : Str → κ) {transactionId : Str}
    (h : Stutters s.log.history history ∨
      Stutters s.log.history (history ++ [.commit (cString transactionId)])) :
    lastValue ((Dao.getPendingWrites s.log transactionId).map
        fun write => (locate write.1, write.2)) =
      lastValue (writesOf (history.map (Act.map id locate id)) (cString transactionId)) := by
  have hmap : (Dao.getPendingWrites s.log transactionId).map
      (fun write => (locate write.1, write.2)) =
        writesOf (s.log.history.map (Act.map id locate id)) (cString transactionId) := by
    rw [getPendingWrites_eq, writesOf_map_id]
    rfl
  rw [hmap]
  rcases h with h | h
  · exact (h.map _).lastValue_writesOf _
  · rw [(h.map _).lastValue_writesOf, List.map_append, List.map_singleton,
      writesOf_concat_of_ne fun _ => rfl]

/-- **One attempt.**  If it is answered, the answer is that of a first attempt. -/
theorem Attempted.handleRequest (hauto : system.cfg.autoMode = true) {granted : Bool}
    {request : Request}
    (hgranted : granted = true ↔ ¬ Intercepted history (cString request.transactionId))
    (h : Attempted system initial history (logged cString granted request) s) :
    ∃ next, s.handleRequest system request =
        some (replyTo cString system.locate initial history granted request, next) ∧
      next.log.history = s.log.history ++ logged cString granted request ∧
      next.files.Sound ∧
      next.files.disk =
        locatedDisk system.locate initial (history ++ logged cString granted request) := by
  by_cases hcommit : ∃ transactionId, request = .globalCommit transactionId
  · obtain ⟨transactionId, rfl⟩ := hcommit
    refine ⟨_, rfl, history_insertOperation _ _ _ _ _, sound_foldl_write h.sound _ _, ?_⟩
    show (s.commitPendingWrites system transactionId).disk = _
    have hdone : locatedDisk system.locate initial
        (history ++ logged cString granted (.globalCommit transactionId)) =
          applyWrites (writesOf (history.map (Act.map id system.locate id))
            (cString transactionId)) (locatedDisk system.locate initial history) := by
      unfold locatedDisk
      rw [logged, List.map_append, List.map_singleton, replay_concat]
      rfl
    have hlast := lastValue_getPendingWrites system.locate h.log
    unfold Stores.commitPendingWrites
    rw [disk_foldl_write h.sound, hdone]
    -- the writes are laid over the files for the first time, or once more
    rcases h.disk with hdisk | hdisk
    · rw [hdisk]
      ext key value
      rw [applyWrites_apply, applyWrites_apply, hlast]
    · rw [hdisk, hdone]
      exact applyWrites_applyWrites hlast _
  · have hother : ∀ transactionId, request ≠ .globalCommit transactionId :=
      fun transactionId heq => hcommit ⟨transactionId, heq⟩
    have hfiles : locatedDisk system.locate initial (history ++ logged cString granted request) =
        locatedDisk system.locate initial history :=
      locatedDisk_append_logged system.locate granted hother
    have hdisk : s.files.disk = locatedDisk system.locate initial history := by
      rcases h.disk with hdisk | hdisk
      · exact hdisk
      · rw [hdisk, hfiles]
    have hsettled : Settled system initial s := by
      refine ⟨h.sound, hdisk.trans ?_⟩
      rcases h.log with hlog | hlog
      · exact ((hlog.map _).replay_eq initial).symm
      · exact hfiles.symm.trans ((hlog.map _).replay_eq initial).symm
    obtain ⟨granted', next, hgranted', hnext, hhistory, hnextSettled⟩ :=
      hsettled.handleRequest hauto request
    have hreply : replyTo cString system.locate initial s.log.history granted' request =
        replyTo cString system.locate initial history granted' request := by
      rcases h.log with hlog | hlog
      · exact replyTo_of_stutters hlog _ _ _
      · rw [replyTo_of_stutters hlog, replyTo_append_logged]
    -- only a `prepare` looks at the vote
    have hvote : replyTo cString system.locate initial history granted' request =
          replyTo cString system.locate initial history granted request ∧
        logged cString granted' request = logged cString granted request := by
      cases request with
      | prepare transactionId =>
          rw [granted_eq_of_stutters hgranted h.log hgranted']
          exact ⟨rfl, rfl⟩
      | _ => exact ⟨rfl, rfl⟩
    rw [hreply, hvote.1] at hnext
    rw [hvote.2] at hhistory
    refine ⟨next, hnext, hhistory, hnextSettled.sound, ?_⟩
    rcases disk_handleRequest hnext with hsame | ⟨transactionId, hcommit⟩
    · rw [hsame, hdisk, hfiles]
    · exact absurd hcommit (hother transactionId)

/-- What an attempt leaves, whether it is answered or not. -/
theorem Attempted.exec (hauto : system.cfg.autoMode = true) {granted : Bool} {request : Request}
    (hgranted : granted = true ↔ ¬ Intercepted history (cString request.transactionId))
    {world after : World κ} {result : Except Failure Ptree}
    (h : Attempted system initial history (logged cString granted request) world.stores)
    (hexec : exec (Serve.handleRequest system request) world = (result, after)) :
    Attempted system initial history (logged cString granted request) after.stores ∧
      ∀ reply, result = .ok reply →
        reply = replyTo cString system.locate initial history granted request ∧
        Follows system initial (history ++ logged cString granted request) after.stores := by
  obtain ⟨next, hnext, hhistory, hsound, hdisk⟩ := h.handleRequest hauto hgranted
  have hlog : Stutters next.log.history (history ++ logged cString granted request) := by
    rw [hhistory]
    exact stutters_append_logged h.log
  cases result with
  | ok reply =>
      have hreply := hnext.symm.trans (handleRequest_of_ok hexec)
      obtain ⟨rfl, rfl⟩ := Prod.mk.inj (Option.some.inj hreply)
      have hfollows : Follows system initial (history ++ logged cString granted request)
          after.stores := ⟨hsound, hlog, hdisk⟩
      refine ⟨hfollows.attempted_again, ?_⟩
      rintro _ ⟨⟩
      exact ⟨rfl, hfollows⟩
  | error failure =>
      refine ⟨?_, fun _ hok => by cases hok⟩
      rcases (halted_of_error hexec).2 with ⟨htable, hfiles⟩ |
        ⟨_, _, _, hstep, -, hfiles, htable⟩
      -- the exception came before anything happened
      · refine ⟨?_, ?_, ?_⟩
        · show after.files.Sound
          rw [hfiles]
          exact h.sound
        · show Stutters after.database.table.history _ ∨ Stutters after.database.table.history _
          rw [htable]
          exact h.log
        · show after.files.disk = _ ∨ after.files.disk = _
          rw [hfiles]
          exact h.disk
      -- it came when the files were written, with the row logged or not
      · obtain ⟨-, rfl⟩ := Prod.mk.inj (Option.some.inj (hnext.symm.trans hstep))
        refine ⟨?_, ?_, Or.inr ?_⟩
        · show after.files.Sound
          rw [hfiles]
          exact hsound
        · show Stutters after.database.table.history _ ∨ Stutters after.database.table.history _
          rcases htable with htable | ⟨htable, -⟩
          · rw [htable]
            exact h.log
          · rw [htable]
            exact Or.inr hlog
        · show after.files.disk = _
          rw [hfiles, hdisk]

end Attempts

/-! ## Runs -/

/-- Each request is sent until the client takes an answer to it, and no other request comes
in between.  The attempts before may have failed, or their answers may have been lost. -/
inductive Resent : List Serve.Outcome → List (Request × Ptree) → Prop where
  | nil : Resent [] []
  | taken {outcomes : List Serve.Outcome} {exchanges : List (Request × Ptree)}
      (request : Request) (lost : List (Except Failure Ptree)) (reply : Ptree)
      (h : Resent outcomes exchanges) :
      Resent (lost.map (fun result => (request, result)) ++ (request, .ok reply) :: outcomes)
        ((request, reply) :: exchanges)

section Runs

variable {κ : Type} [DecidableEq κ] {system : System κ} {initial : κ → Option Str}
  {history : History Str Str Str}

theorem Serve.run_eq_nil {world final : World κ} {requests : List Request}
    (hrun : Serve.run system world requests = ([], final)) : requests = [] ∧ world = final := by
  cases requests with
  | nil => exact ⟨rfl, congrArg Prod.snd hrun⟩
  | cons request requests =>
      unfold Serve.run at hrun
      cases hexec : exec (Serve.handleRequest system request) world with
      | mk result next =>
          rw [hexec] at hrun
          cases result with
          | ok reply => cases hrun
          | error failure => cases failure <;> cases hrun

/-- The first outcome of a run, and the run that is left. -/
theorem Serve.run_eq_cons {world final : World κ} {requests : List Request} {request : Request}
    {result : Except Failure Ptree} {outcomes : List Serve.Outcome}
    (hrun : Serve.run system world requests = ((request, result) :: outcomes, final)) :
    ∃ rest next, requests = request :: rest ∧
      exec (Serve.handleRequest system request) world = (result, next) ∧
      (result ≠ .error .hangs → Serve.run system next rest = (outcomes, final)) ∧
      (result = .error .hangs → outcomes = [] ∧ next = final) := by
  cases requests with
  | nil => cases hrun
  | cons first rest =>
      unfold Serve.run at hrun
      cases hexec : exec (Serve.handleRequest system first) world with
      | mk result' next =>
          rw [hexec] at hrun
          by_cases hhangs : result' = .error .hangs
          · subst hhangs
            simp only [Prod.mk.injEq, List.cons.injEq] at hrun
            obtain ⟨⟨⟨rfl, rfl⟩, rfl⟩, rfl⟩ := hrun
            exact ⟨rest, next, rfl, hexec, fun h => absurd rfl h, fun _ => ⟨rfl, rfl⟩⟩
          · have hrest : ((first, result') :: (Serve.run system next rest).1,
                (Serve.run system next rest).2) = ((request, result) :: outcomes, final) := by
              cases result' with
              | ok reply => exact hrun
              | error failure =>
                  cases failure with
                  | hangs => exact absurd rfl hhangs
                  | _ => exact hrun
            simp only [Prod.mk.injEq, List.cons.injEq] at hrest
            obtain ⟨⟨⟨rfl, rfl⟩, houtcomes⟩, hfinal⟩ := hrest
            exact ⟨rest, next, rfl, hexec, fun _ => Prod.ext houtcomes hfinal,
              fun h => absurd h hhangs⟩

/-- A server that is started again finds the log and the files as they were left. -/
structure World.Restarted (world started : World κ) : Prop where
  log : started.database.table = world.database.table
  disk : started.files.disk = world.files.disk
  sound : world.files.Sound → started.files.Sound

/-- These are the outcomes of requests that are served one after another, by a server that
may be started again in between. -/
inductive ServedInTurn (system : System κ) : World κ → List Serve.Outcome → World κ → Prop where
  | nil (world : World κ) : ServedInTurn system world [] world
  | request {world next final : World κ} {request : Request} {result : Except Failure Ptree}
      {outcomes : List Serve.Outcome}
      (hexec : exec (Serve.handleRequest system request) world = (result, next))
      (h : ServedInTurn system next outcomes final) :
      ServedInTurn system world ((request, result) :: outcomes) final
  | restart {world started final : World κ} {outcomes : List Serve.Outcome}
      (hrestarted : world.Restarted started) (h : ServedInTurn system started outcomes final) :
      ServedInTurn system world outcomes final

omit [DecidableEq κ] in
theorem World.Restarted.trans {world started again : World κ} (h : world.Restarted started)
    (h' : started.Restarted again) : world.Restarted again where
  log := h'.log.trans h.log
  disk := h'.disk.trans h.disk
  sound := fun hsound => h'.sound (h.sound hsound)

/-- A run is served in turn, without a restart. -/
theorem servedInTurn_of_run {world final : World κ} {requests : List Request}
    {outcomes : List Serve.Outcome} (hrun : Serve.run system world requests = (outcomes, final)) :
    ServedInTurn system world outcomes final := by
  induction outcomes generalizing world requests with
  | nil =>
      obtain ⟨-, rfl⟩ := Serve.run_eq_nil hrun
      exact .nil world
  | cons outcome outcomes ih =>
      obtain ⟨request, result⟩ := outcome
      obtain ⟨rest, next, -, hexec, hrest, hhangs⟩ := Serve.run_eq_cons hrun
      by_cases hlast : result = .error .hangs
      · obtain ⟨rfl, rfl⟩ := hhangs hlast
        exact .request hexec (.nil next)
      · exact .request hexec (ih (hrest hlast))

theorem ServedInTurn.append {world middle final : World κ} {first second : List Serve.Outcome}
    (h : ServedInTurn system world first middle) (h' : ServedInTurn system middle second final) :
    ServedInTurn system world (first ++ second) final := by
  induction h with
  | nil world => exact h'
  | request hexec _ ih => exact .request hexec (ih h')
  | restart hrestarted _ ih => exact .restart hrestarted (ih h')

theorem ServedInTurn.restarted {world final started : World κ} {outcomes : List Serve.Outcome}
    (h : ServedInTurn system world outcomes final) (hrestarted : final.Restarted started) :
    ServedInTurn system world outcomes started := by
  have hboth := h.append (.restart hrestarted (.nil started))
  rwa [List.append_nil] at hboth

theorem ServedInTurn.eq_nil {world final : World κ} (h : ServedInTurn system world [] final) :
    world.Restarted final := by
  generalize hnone : ([] : List Serve.Outcome) = outcomes at h
  induction h with
  | nil world => exact ⟨rfl, rfl, id⟩
  | request _ _ _ => cases hnone
  | restart hrestarted _ ih => exact hrestarted.trans (ih hnone)

/-- The first request is served by a server that may have been started again. -/
theorem ServedInTurn.eq_cons {world final : World κ} {request : Request}
    {result : Except Failure Ptree} {outcomes : List Serve.Outcome}
    (h : ServedInTurn system world ((request, result) :: outcomes) final) :
    ∃ started next, world.Restarted started ∧
      exec (Serve.handleRequest system request) started = (result, next) ∧
      ServedInTurn system next outcomes final := by
  generalize hall : (request, result) :: outcomes = all at h
  induction h with
  | nil world => cases hall
  | @request world next final _ _ _ hexec hrest _ =>
      obtain ⟨hfirst, rfl⟩ := List.cons.inj hall
      obtain ⟨rfl, rfl⟩ := Prod.mk.inj hfirst
      exact ⟨world, next, ⟨rfl, rfl, id⟩, hexec, hrest⟩
  | restart hrestarted _ ih =>
      obtain ⟨started, next, hagain, hexec, hrest⟩ := ih hall
      exact ⟨started, next, hrestarted.trans hagain, hexec, hrest⟩

theorem Attempted.restarted {entry : History Str Str Str} {world started : World κ}
    (h : Attempted system initial history entry world.stores)
    (hrestarted : world.Restarted started) :
    Attempted system initial history entry started.stores := by
  refine ⟨hrestarted.sound h.sound, ?_, ?_⟩
  · show Stutters started.database.table.history _ ∨ Stutters started.database.table.history _
    rw [hrestarted.log]
    exact h.log
  · show started.files.disk = _ ∨ started.files.disk = _
    rw [hrestarted.disk]
    exact h.disk

theorem Follows.restarted {world started : World κ}
    (h : Follows system initial history world.stores) (hrestarted : world.Restarted started) :
    Follows system initial history started.stores := by
  refine ⟨hrestarted.sound h.sound, ?_, hrestarted.disk.trans h.disk⟩
  show Stutters started.database.table.history _
  rw [hrestarted.log]
  exact h.log

/-- **All attempts at one request**, by induction on those without an answer that is
taken. -/
theorem ServedInTurn.attempts (hauto : system.cfg.autoMode = true) {granted : Bool}
    {request : Request}
    (hgranted : granted = true ↔ ¬ Intercepted history (cString request.transactionId))
    {lost : List (Except Failure Ptree)} {reply : Ptree} {outcomes : List Serve.Outcome}
    {world final : World κ}
    (h : Attempted system initial history (logged cString granted request) world.stores)
    (hserved : ServedInTurn system world
      (lost.map (fun result => (request, result)) ++ (request, .ok reply) :: outcomes) final) :
    ∃ next, ServedInTurn system next outcomes final ∧
      reply = replyTo cString system.locate initial history granted request ∧
      (∀ other, .ok other ∈ lost → other = reply) ∧
      Follows system initial (history ++ logged cString granted request) next.stores := by
  induction lost generalizing world with
  | nil =>
      obtain ⟨started, next, hrestarted, hexec, hrest⟩ := hserved.eq_cons
      obtain ⟨hreply, hfollows⟩ :=
        ((h.restarted hrestarted).exec hauto hgranted hexec).2 reply rfl
      exact ⟨next, hrest, hreply, by simp, hfollows⟩
  | cons result lost ih =>
      obtain ⟨started, next, hrestarted, hexec, hrest⟩ := hserved.eq_cons
      obtain ⟨hattempted, hanswered⟩ := (h.restarted hrestarted).exec hauto hgranted hexec
      obtain ⟨last, hlast, hreply, hsame, hfollows⟩ := ih hattempted hrest
      refine ⟨last, hlast, hreply, ?_, hfollows⟩
      intro other hother
      rcases List.mem_cons.mp hother with heq | hmem
      · rw [hreply, (hanswered other heq.symm).1]
      · exact hsame other hmem

/-- Whatever the history, there is the vote that it calls for. -/
theorem exists_granted (history : History Str Str Str) (transaction : Str) :
    ∃ granted : Bool, granted = true ↔ ¬ Intercepted history transaction := by
  by_cases hintercepted : Intercepted history transaction
  · exact ⟨false, by simp [hintercepted]⟩
  · exact ⟨true, by simp [hintercepted]⟩

/-- The answers that are taken are those of a server on which nothing fails. -/
theorem serves_of_resent (hauto : system.cfg.autoMode = true) {outcomes : List Serve.Outcome}
    {exchanges : List (Request × Ptree)} (h : Resent outcomes exchanges)
    {world final : World κ} (hworld : Follows system initial history world.stores)
    (hserved : ServedInTurn system world outcomes final) :
    ∃ last, Serves true cString system.locate initial history exchanges last ∧
      (∀ request reply, (request, .ok reply) ∈ outcomes → (request, reply) ∈ exchanges) ∧
      Follows system initial last final.stores := by
  induction h generalizing history world with
  | nil => exact ⟨history, rfl, by simp, hworld.restarted hserved.eq_nil⟩
  | @taken outcomes exchanges request lost reply _ ih =>
      obtain ⟨granted, hgranted⟩ := exists_granted history (cString request.transactionId)
      obtain ⟨next, hrest, hreply, hsame, hfollows⟩ :=
        hserved.attempts hauto hgranted (hworld.attempted _)
      obtain ⟨last, hserves, hanswers, hlast⟩ := ih hfollows hrest
      refine ⟨last, ⟨granted, fun _ => hgranted, hreply, hserves⟩, ?_, hlast⟩
      intro other reply' hmem
      rw [List.mem_append, List.mem_map, List.mem_cons] at hmem
      rcases hmem with ⟨_, hlost, heq⟩ | heq | hmem
      · obtain ⟨rfl, rfl⟩ := Prod.mk.inj heq
        rw [hsame reply' hlost]
        exact List.mem_cons_self
      · obtain ⟨rfl, hok⟩ := Prod.mk.inj heq
        obtain rfl := Except.ok.inj hok
        exact List.mem_cons_self
      · exact List.mem_cons_of_mem _ (hanswers other reply' hmem)

/-- The exchanges of a server without failures are determined by the requests. -/
theorem Serves.unique {store : Str → Str} {locate : Str → κ}
    {exchanges exchanges' : List (Request × Ptree)} {last last' : History Str Str Str}
    (h : Serves true store locate initial history exchanges last)
    (h' : Serves true store locate initial history exchanges' last')
    (hrequests : exchanges.map Prod.fst = exchanges'.map Prod.fst) :
    exchanges = exchanges' ∧ last = last' := by
  induction exchanges generalizing history exchanges' with
  | nil =>
      obtain rfl : exchanges' = [] := List.map_eq_nil_iff.mp hrequests.symm
      exact ⟨rfl, h.symm.trans h'⟩
  | cons exchange exchanges ih =>
      obtain ⟨request, reply⟩ := exchange
      cases exchanges' with
      | nil => cases hrequests
      | cons exchange' exchanges' =>
          obtain ⟨request', reply'⟩ := exchange'
          obtain ⟨rfl, hrest⟩ := List.cons.inj hrequests
          obtain ⟨granted, hgranted, rfl, hserves⟩ := h
          obtain ⟨granted', hgranted', rfl, hserves'⟩ := h'
          obtain rfl : granted = granted' := by
            rw [Bool.eq_iff_iff, hgranted rfl, hgranted' rfl]
          obtain ⟨rfl, rfl⟩ := ih hserves hserves' hrest
          exact ⟨rfl, rfl⟩

/-- What the clients take is what they would get without failures and restarts. -/
theorem ServedInTurn.resent (hauto : system.cfg.autoMode = true)
    {outcomes : List Serve.Outcome} {exchanges : List (Request × Ptree)}
    (hresent : Resent outcomes exchanges) {disk : κ → Option Str} {world final : World κ}
    (hworld : Follows system disk [] world.stores)
    (hserved : ServedInTurn system world outcomes final) (console : List Str) :
    ∃ last, Serve.run system (.initial disk console) (exchanges.map Prod.fst) =
        (answered exchanges, last) ∧
      final.files.disk = last.files.disk ∧
      ∀ request reply, (request, .ok reply) ∈ outcomes → (request, reply) ∈ exchanges := by
  obtain ⟨history, hserves, hanswers, hfollows⟩ := serves_of_resent hauto hresent hworld hserved
  obtain ⟨exchanges', history', houtcomes, hrequests, hserves', hdisk⟩ := run_serves hauto
    (Prod.mk.eta (p := Serve.run system (.initial disk console) (exchanges.map Prod.fst))).symm
  obtain ⟨rfl, rfl⟩ := hserves.unique hserves' hrequests.symm
  refine ⟨_, Prod.ext houtcomes rfl, ?_, hanswers⟩
  rw [hdisk]
  exact hfollows.disk

/-- **Requests that are sent again.**  SQLite calls fail anywhere and answers are lost
anywhere, and each request is sent again at once, before any other request, until an
answer to it is taken.  The answers taken and the files left are those of a server that is
sent each request once and on which nothing fails; and the lost answers were no others. -/
theorem run_resent (hauto : system.cfg.autoMode = true) {world final : World κ}
    (hfresh : world.database.table = Dao.initDatabase) (hsound : world.files.Sound)
    {requests : List Request} {outcomes : List Serve.Outcome}
    {exchanges : List (Request × Ptree)}
    (hrun : Serve.run system world requests = (outcomes, final))
    (hresent : Resent outcomes exchanges) :
    ∃ last, Serve.run system (.initial world.files.disk world.console)
        (exchanges.map Prod.fst) = (answered exchanges, last) ∧
      final.files.disk = last.files.disk ∧
      ∀ request reply, (request, .ok reply) ∈ outcomes → (request, reply) ∈ exchanges := by
  have hstart : Follows system world.files.disk [] world.stores := by
    refine ⟨hsound, ?_, rfl⟩
    show Stutters world.database.table.history []
    rw [hfresh]
    exact .nil
  exact (servedInTurn_of_run hrun).resent hauto hresent hstart world.console

/-- A fresh log on which call `n` fails. -/
def freshFailingAt (n : Nat) : World Str where
  database :=
    { table := Dao.initDatabase
      succeeds := fun call => call ≠ n
      connections := 0
      calls := [] }
  files := { disk := fun _ => none, outcome := fun _ => .complete, opened := [] }
  console := []

/-- The first attempt at a commit writes the file, but cannot log its row. -/
theorem run_resent_commit :
    ∃ outcomes final exchanges last,
      Serve.run (.flat ⟨true⟩ fun _ => none) (freshFailingAt 25)
        [.write (text "T") (text "f") (text "x"), .globalCommit (text "T"),
          .globalCommit (text "T")] = (outcomes, final) ∧
      outcomes.map Prod.snd = [.ok (makeWriteResponseMessage (text "T")),
        .error (.sqlite .insert), .ok (makeVoteCommitMessage (text "T"))] ∧
      Serve.run (.flat ⟨true⟩ fun _ => none)
        (.initial (freshFailingAt 25).files.disk (freshFailingAt 25).console)
        (exchanges.map Prod.fst) = (answered exchanges, last) ∧
      exchanges.map Prod.fst =
        [.write (text "T") (text "f") (text "x"), .globalCommit (text "T")] ∧
      final.files.disk = last.files.disk := by
  obtain ⟨final, hrun⟩ : ∃ final,
      Serve.run (.flat ⟨true⟩ fun _ => none) (freshFailingAt 25)
        [.write (text "T") (text "f") (text "x"), .globalCommit (text "T"),
          .globalCommit (text "T")] =
        ([(.write (text "T") (text "f") (text "x"), .ok (makeWriteResponseMessage (text "T"))),
          (.globalCommit (text "T"), .error (.sqlite .insert)),
          (.globalCommit (text "T"), .ok (makeVoteCommitMessage (text "T")))], final) := ⟨_, rfl⟩
  have hresent : Resent
      [(.write (text "T") (text "f") (text "x"), .ok (makeWriteResponseMessage (text "T"))),
        (.globalCommit (text "T"), .error (.sqlite .insert)),
        (.globalCommit (text "T"), .ok (makeVoteCommitMessage (text "T")))]
      [(.write (text "T") (text "f") (text "x"), makeWriteResponseMessage (text "T")),
        (.globalCommit (text "T"), makeVoteCommitMessage (text "T"))] :=
    .taken _ [] _ (.taken _ [.error (.sqlite .insert)] _ .nil)
  obtain ⟨last, hlast, hdisk, -⟩ := run_resent rfl rfl (fun _ => rfl) hrun hresent
  exact ⟨_, final, _, last, hrun, rfl, hlast, rfl, hdisk⟩

end Runs

end DistributedFileServer
