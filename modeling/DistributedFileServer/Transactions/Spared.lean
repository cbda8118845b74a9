import DistributedFileServer.DeferredUpdate.Thinning
import DistributedFileServer.Log.Serving

/-!
# Requests without an effect

The log of votes and aborts is never read for what it says: a global abort undoes and
forbids nothing, and a `prepare` binds nobody.  Only as the first request of its transaction
does one of them count, since the transaction begins with its row.
-/

namespace DistributedFileServer

open DeferredUpdate Controller

/-! ## Thinner logs and the vote -/

section Votes

variable {τ κ ν : Type} [DecidableEq τ] {history thinned : History τ κ ν}

/-- An entry that is logged last comes after the first entry of whoever has begun. -/
theorem mem_since_concat {last act : Act τ κ ν} {transaction : τ} :
    act ∈ since (history ++ [last]) transaction ↔
      act ∈ since history transaction ∨
        (act = last ∧ ∃ earlier ∈ history, earlier.owner = transaction) := by
  induction history with
  | nil =>
      by_cases howner : last.owner = transaction
      · simp [since_cons_of_eq howner]
      · simp [since_cons_of_ne howner]
  | cons head history ih =>
      rw [List.cons_append]
      by_cases howner : head.owner = transaction
      · rw [since_cons_of_eq howner, since_cons_of_eq howner]
        simp [howner]
      · rw [since_cons_of_ne howner, since_cons_of_ne howner, ih]
        simp [howner]

/-- The vote looks at the entries that name keys only. -/
theorem Clashes.not_inert {act : Act τ κ ν} {transaction : τ}
    (h : Clashes history transaction act) : ¬ act.Inert := by
  intro hinert
  rcases h with ⟨key, -, hkey⟩ | ⟨key, value, -, hwrite⟩
  · rw [hinert.key?] at hkey
    cases hkey
  · rw [hinert.write?] at hwrite
    cases hwrite

theorem thins_mem_since_iff (h : Thins history thinned) (transaction : τ) {act : Act τ κ ν}
    (hact : ¬ act.Inert) :
    act ∈ since history transaction ↔ act ∈ since thinned transaction := by
  induction h with
  | nil => rfl
  | keep last hthins ih => rw [mem_since_concat, mem_since_concat, ih, hthins.begun_iff]
  | drop _ hinert _ ih =>
      rw [mem_since_concat, ih, or_iff_left]
      rintro ⟨rfl, -⟩
      exact hact hinert

theorem thins_clashes_iff (h : Thins history thinned) {transaction : τ} {act : Act τ κ ν} :
    Clashes history transaction act ↔ Clashes thinned transaction act := by
  unfold Clashes firstWritten firstRead
  rw [h.writesOf_eq, h.readsOf_eq]

/-- **The vote stays the same.** -/
theorem thins_intercepted_iff (h : Thins history thinned) (transaction : τ) :
    Intercepted history transaction ↔ Intercepted thinned transaction := by
  apply intercepted_congr
  intro other _
  have hcommit : ¬ (Act.commit other : Act τ κ ν).Inert := id
  refine and_congr (h.mem_iff hcommit) ?_
  constructor
  · rintro ⟨act, hact, howner, hclash⟩
    exact ⟨act, (thins_mem_since_iff h transaction hclash.not_inert).mp hact, howner,
      (thins_clashes_iff h).mp hclash⟩
  · rintro ⟨act, hact, howner, hclash⟩
    exact ⟨act, (thins_mem_since_iff h transaction hclash.not_inert).mpr hact, howner,
      (thins_clashes_iff h).mpr hclash⟩

end Votes

/-! ## One request -/

/-- The request leaves no row in the log, or a vote or an abort of a transaction that has
sent a request before. -/
def Request.SpareAfter (before : List Request) : Request → Prop
  | .prepare transactionId | .globalAbort transactionId =>
      ∃ earlier ∈ before, (∀ other, earlier ≠ .unsupported other) ∧
        cString earlier.transactionId = cString transactionId
  | .unsupported _ => True
  | .read _ _ | .write _ _ _ | .globalCommit _ => False

/-- The second state has not seen some requests of the first one that can be spared. -/
structure Thinned (initial : SharedDirectory) (s s' : ServerState) : Prop where
  history : Thins s.log.history s'.log.history
  directory : s.sharedDirectory = replay initial s.log.history
  directory' : s'.sharedDirectory = replay initial s'.log.history

section Step

variable {cfg : Config} {initial : SharedDirectory} {s s' : ServerState} {request : Request}

/-- A request that both servers serve gets the same reply. -/
theorem Thinned.handleRequest (hauto : cfg.autoMode = true) (h : Thinned initial s s')
    (request : Request) :
    ∃ reply next next', handleRequest cfg s request = some (reply, next) ∧
      handleRequest cfg s' request = some (reply, next') ∧ Thinned initial next next' := by
  obtain ⟨granted, next, hhandle, hhistory, hdirectory, hgranted⟩ :=
    handleRequest_auto hauto h.directory request
  obtain ⟨granted', next', hhandle', hhistory', hdirectory', hgranted'⟩ :=
    handleRequest_auto hauto h.directory' request
  obtain rfl : granted = granted' := by
    rw [Bool.eq_iff_iff, hgranted, hgranted', thins_intercepted_iff h.history]
  have hanswer : answer initial s.log.history granted request =
      answer initial s'.log.history granted request :=
    answer_congr (fun _ _ => h.history.readValue_eq initial _ _) rfl
  rw [← hanswer] at hhandle'
  refine ⟨_, next, next', hhandle, hhandle', ?_, hdirectory, hdirectory'⟩
  rw [hhistory, hhistory']
  exact h.history.append (record granted request)

theorem Thinned.skip {before : List Exchange} {console : List Str} {next : ServerState}
    {reply : Reply} (h : Thinned initial s s')
    (hrun : run cfg (.initial initial console) (before.map Prod.fst) = some (before, s))
    (hspare : request.SpareAfter (before.map Prod.fst))
    (hhandle : Controller.handleRequest cfg s request = some (reply, next)) :
    Thinned initial next s' := by
  obtain ⟨granted, -, hhistory, hdirectory, -⟩ := handleRequest_spec h.directory hhandle
  -- whoever has sent a request that is logged has begun
  have hbegun : ∀ earlier ∈ before.map Prod.fst, (∀ other, earlier ≠ .unsupported other) →
      ∃ act ∈ s.log.history, act.owner = cString earlier.transactionId := by
    intro earlier hearlier hlogged
    obtain ⟨⟨sent, answered⟩, hexchange, rfl⟩ := List.mem_map.mp hearlier
    obtain ⟨act, hact⟩ : ∃ act, act ∈ record (Exchange.granted (sent, answered)) sent := by
      cases sent with
      | unsupported other => exact absurd rfl (hlogged other)
      | _ => exact ⟨_, List.mem_singleton_self _⟩
    rw [(run_spec hrun).1]
    exact ⟨act, List.mem_flatMap.mpr ⟨_, hexchange, hact⟩, owner_of_mem_record hact⟩
  refine ⟨?_, hdirectory, h.directory'⟩
  rw [hhistory]
  cases request with
  | unsupported transactionId =>
      rw [record, List.append_nil]
      exact h.history
  | prepare transactionId =>
      obtain ⟨earlier, hearlier, hlogged, hsame⟩ := hspare
      obtain ⟨act, hact, howner⟩ := hbegun earlier hearlier hlogged
      exact h.history.drop trivial ⟨act, hact, howner.trans hsame⟩
  | globalAbort transactionId =>
      obtain ⟨earlier, hearlier, hlogged, hsame⟩ := hspare
      obtain ⟨act, hact, howner⟩ := hbegun earlier hearlier hlogged
      exact h.history.drop trivial ⟨act, hact, howner.trans hsame⟩
  | read _ _ | write _ _ _ | globalCommit _ => exact hspare.elim

end Step

/-! ## Runs -/

/-- The elements that are marked. -/
def kept {α : Type} (marked : List (α × Bool)) : List α :=
  (marked.filter Prod.snd).map Prod.fst

theorem kept_concat_true {α : Type} (marked : List (α × Bool)) (element : α) :
    kept (marked ++ [(element, true)]) = kept marked ++ [element] := by
  simp [kept]

theorem kept_concat_false {α : Type} (marked : List (α × Bool)) (element : α) :
    kept (marked ++ [(element, false)]) = kept marked := by
  simp [kept]

/-- The requests that are not marked can be spared. -/
def Spared (marked : List (Request × Bool)) : Prop :=
  ∀ front request back, marked = front ++ (request, false) :: back →
    request.SpareAfter (front.map Prod.fst)

theorem Spared.of_append {front back : List (Request × Bool)} (h : Spared (front ++ back)) :
    Spared front := by
  rintro first request last rfl
  exact h first request (last ++ back) (by rw [List.append_assoc, List.cons_append])

section Run

variable {cfg : Config}

theorem runs_without_spared (hauto : cfg.autoMode = true) (initial : SharedDirectory)
    (console : List Str) {marked : List (Request × Bool)} (h : Spared marked) :
    ∃ exchanges s s',
      run cfg (.initial initial console) (marked.map Prod.fst) = some (exchanges, s) ∧
      run cfg (.initial initial console) (kept marked) =
        some (kept (exchanges.zip (marked.map Prod.snd)), s') ∧
      Thinned initial s s' := by
  induction marked using List.reverseRecOn with
  | nil => exact ⟨[], _, _, rfl, rfl, .nil, rfl, rfl⟩
  | append_singleton marked last ih =>
      obtain ⟨request, mark⟩ := last
      obtain ⟨exchanges, s, s', hrun, hrun', hthinned⟩ := ih h.of_append
      have hrequests : exchanges.map Prod.fst = marked.map Prod.fst := run_requests hrun
      have hlength : exchanges.length = (marked.map Prod.snd).length := by
        have hsame := congrArg List.length hrequests
        simpa using hsame
      have hzip : ∀ reply : Reply, (exchanges ++ [(request, reply)]).zip
          ((marked ++ [(request, mark)]).map Prod.snd) =
            exchanges.zip (marked.map Prod.snd) ++ [((request, reply), mark)] := by
        intro reply
        rw [List.map_append, List.zip_append hlength]
        rfl
      rw [List.map_append]
      cases mark with
      | true =>
          obtain ⟨reply, next, next', hhandle, hhandle', hnext⟩ :=
            hthinned.handleRequest hauto request
          refine ⟨exchanges ++ [(request, reply)], next, next',
            run_concat_eq_some_iff.mpr ⟨s, exchanges, reply, hrun, hhandle, rfl⟩, ?_, hnext⟩
          rw [hzip, kept_concat_true, kept_concat_true]
          exact run_concat_eq_some_iff.mpr ⟨s', _, reply, hrun', hhandle', rfl⟩
      | false =>
          obtain ⟨reply, next, hhandle⟩ := handleRequest_isSome cfg hauto s request
          have hspare := h marked request [] rfl
          rw [← hrequests] at hrun hspare
          refine ⟨exchanges ++ [(request, reply)], next, s', ?_, ?_,
            hthinned.skip hrun hspare hhandle⟩
          · rw [← hrequests]
            exact run_concat_eq_some_iff.mpr ⟨s, exchanges, reply, hrun, hhandle, rfl⟩
          · rw [hzip, kept_concat_false, kept_concat_false]
            exact hrun'

/-- **Aborts and votes have no effect.**  In auto mode, any of the `prepare` and global
abort requests can be left out, except where they are the first requests of their
transactions: every other request gets the same reply, and the files end the same. -/
theorem run_without_spared (hauto : cfg.autoMode = true) (initial : SharedDirectory)
    (console : List Str) {marked : List (Request × Bool)} (h : Spared marked) :
    ∃ exchanges final final',
      run cfg (.initial initial console) (marked.map Prod.fst) = some (exchanges, final) ∧
      run cfg (.initial initial console) (kept marked) =
        some (kept (exchanges.zip (marked.map Prod.snd)), final') ∧
      final'.sharedDirectory = final.sharedDirectory := by
  obtain ⟨exchanges, s, s', hrun, hrun', hthinned⟩ := runs_without_spared hauto initial console h
  refine ⟨exchanges, s, s', hrun, hrun', ?_⟩
  rw [hthinned.directory, hthinned.directory', hthinned.history.replay_eq]

/-- `T` writes, is voted on and aborts; all the same its commit puts the write on the disk,
where `U` reads it. -/
theorem run_without_spared_abort :
    ∃ exchanges final final',
      run ⟨true⟩ (.initial (fun _ => none) [])
          [.write (text "T") (text "f") (text "x"), .prepare (text "T"),
            .globalAbort (text "T"), .globalCommit (text "T"), .read (text "U") (text "f")] =
        some (exchanges, final) ∧
      run ⟨true⟩ (.initial (fun _ => none) [])
          [.write (text "T") (text "f") (text "x"), .globalCommit (text "T"),
            .read (text "U") (text "f")] =
        some (kept (exchanges.zip [true, false, false, true, true]), final') ∧
      final'.sharedDirectory = final.sharedDirectory ∧
      exchanges.getLast? = some (.read (text "U") (text "f"),
        .ok (makeReadResponseMessage (text "U") (text "f") (text "x"))) := by
  have hspared : Spared [(.write (text "T") (text "f") (text "x"), true),
      (.prepare (text "T"), false), (.globalAbort (text "T"), false),
      (.globalCommit (text "T"), true), (.read (text "U") (text "f"), true)] := by
    rintro front request back hsplit
    rcases front with _ | ⟨first, _ | ⟨second, _ | ⟨third, _ | ⟨fourth, _ | ⟨fifth, front⟩⟩⟩⟩⟩ <;>
      simp at hsplit
    · obtain ⟨rfl, rfl, -⟩ := hsplit
      exact ⟨_, List.mem_cons_self, by simp, rfl⟩
    · obtain ⟨rfl, rfl, rfl, -⟩ := hsplit
      exact ⟨_, List.mem_cons_self, by simp, rfl⟩
  obtain ⟨exchanges, final, final', hrun, hrun', hsame⟩ :=
    @run_without_spared ⟨true⟩ rfl (fun _ => none) [] _ hspared
  refine ⟨exchanges, final, final', hrun, hrun', hsame, ?_⟩
  obtain ⟨rfl, -⟩ := Prod.mk.inj (Option.some.inj hrun)
  rfl

end Run

end DistributedFileServer
