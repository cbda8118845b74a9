import DistributedFileServer.Wire.Connections

/-!
# The accept loop refines the runs

A run of the controller serves requests on a log and a shared directory that are plain
values.  The program receives bytes, and makes SQLite calls and file operations one by one.
While none of them fails, its accept loop does on the bytes what the run does on the
requests, in both modes.
-/

namespace DistributedFileServer

open Programs Controller

/-- What the accept loop sees of an exchange. -/
def Exchange.outcome (exchange : Exchange) : Serve.Outcome :=
  (exchange.1, exchange.2.mapError Failure.request)

/-- No call fails, and every stream takes everything. -/
structure World.Faultless {κ : Type} (world : World κ) : Prop where
  succeeds : world.database.succeeds = fun _ => true
  sound : world.files.Sound

/-! ## One request -/

/-- Streams stay as they are. -/
theorem sound_handleRequest {κ : Type} [DecidableEq κ] {system : System κ} {s next : Stores κ}
    {request : Request} {reply : Ptree} (hsound : s.files.Sound)
    (h : s.handleRequest system request = some (reply, next)) : next.files.Sound := by
  rcases Stores.files_handleRequest h with hsame | ⟨transactionId, filename, -, hopened⟩ |
    ⟨transactionId, -, hcommitted⟩
  · rw [hsame]
    exact hsound
  · rw [hopened]
    exact sound_openInput hsound _
  · rw [hcommitted]
    exact sound_foldl_write hsound _ _

section Step

variable {cfg : Config} {fromString : Str → Option Ptree} {world : World Str}
  {request : Request}

/-- A request that is answered. -/
theorem exec_of_handleRequest_eq_some (hworld : world.Faultless) {reply : Reply}
    {next : ServerState}
    (h : handleRequest cfg world.stores.toServerState request = some (reply, next)) :
    ∃ tree after, reply = .ok tree ∧
      exec (Serve.handleRequest (.flat cfg fromString) request) world = (.ok tree, after) ∧
      after.Faultless ∧ after.stores.toServerState = next := by
  rw [handleRequest_flat cfg fromString world.stores hworld.sound, Option.map_eq_some_iff] at h
  obtain ⟨⟨tree, stores⟩, hstores, hreply⟩ := h
  obtain ⟨rfl, rfl⟩ := Prod.mk.inj hreply
  obtain ⟨after, hexec, rfl, hsucceeds⟩ := exec_of_succeeds hworld.succeeds hstores
  exact ⟨tree, after, rfl, hexec, ⟨hsucceeds, sound_handleRequest hworld.sound hstores⟩, rfl⟩

/-- A request that hangs. -/
theorem exec_of_handleRequest_eq_none (hworld : world.Faultless)
    (h : handleRequest cfg world.stores.toServerState request = none) :
    ∃ after, exec (Serve.handleRequest (.flat cfg fromString) request) world =
        (.error .hangs, after) ∧
      after.database.table = world.database.table ∧ after.files = world.files := by
  rw [handleRequest_flat cfg fromString world.stores hworld.sound, Option.map_eq_none_iff] at h
  cases hexec : exec (Serve.handleRequest (.flat cfg fromString) request) world with
  | mk result after =>
      cases result with
      | ok tree =>
          rw [handleRequest_of_ok hexec] at h
          cases h
      | error failure =>
          obtain ⟨hcause, hstopped⟩ := halted_of_error hexec
          have hhangs : failure = .hangs := by
            rcases hcause with ⟨n, hfails⟩ | ⟨hhangs, -⟩
            · rw [hworld.succeeds] at hfails
              cases hfails
            · exact hhangs
          subst hhangs
          rcases hstopped with ⟨htable, hfiles⟩ | ⟨reply, next, thrown, hnext, -⟩
          · exact ⟨after, rfl, htable, hfiles⟩
          · rw [h] at hnext
            cases hnext

end Step

/-! ## Runs -/

section Runs

variable {cfg : Config} {fromString : Str → Option Ptree} {world : World Str}
  {requests : List Request}

/-- A run that ends, by induction on the requests. -/
theorem serve_run_of_run_eq_some (hworld : world.Faultless) {exchanges : List Exchange}
    {final : ServerState}
    (hrun : run cfg world.stores.toServerState requests = some (exchanges, final)) :
    ∃ after, Serve.run (.flat cfg fromString) world requests =
        (exchanges.map Exchange.outcome, after) ∧
      after.stores.toServerState = final := by
  induction requests generalizing world exchanges with
  | nil =>
      obtain ⟨rfl, rfl⟩ := Prod.mk.inj (Option.some.inj hrun)
      exact ⟨world, rfl, rfl⟩
  | cons request requests ih =>
      obtain ⟨reply, next, rest, hhandle, hrest, rfl⟩ := run_cons_eq_some_iff.mp hrun
      obtain ⟨tree, after, rfl, hexec, hafter, rfl⟩ :=
        @exec_of_handleRequest_eq_some cfg fromString world request hworld reply next hhandle
      obtain ⟨last, hserve, hlast⟩ := ih hafter hrest
      refine ⟨last, ?_, hlast⟩
      simp only [Serve.run, hexec, hserve]
      rfl

/-- A run with a request that hangs. -/
theorem serve_run_of_run_eq_none (hworld : world.Faultless)
    (hrun : run cfg world.stores.toServerState requests = none) :
    ∃ front request back exchanges middle after, requests = front ++ request :: back ∧
      run cfg world.stores.toServerState front = some (exchanges, middle) ∧
      handleRequest cfg middle request = none ∧
      Serve.run (.flat cfg fromString) world requests =
        (exchanges.map Exchange.outcome ++ [(request, .error .hangs)], after) ∧
      after.database.table = middle.log ∧ after.files.disk = middle.sharedDirectory := by
  induction requests generalizing world with
  | nil => cases hrun
  | cons request requests ih =>
      cases hhandle : handleRequest cfg world.stores.toServerState request with
      | none =>
          -- the first request hangs, so none after it is served
          obtain ⟨after, hexec, htable, hfiles⟩ :=
            @exec_of_handleRequest_eq_none cfg fromString world request hworld hhandle
          refine ⟨[], request, requests, [], _, after, rfl, rfl, hhandle, ?_, htable,
            congrArg Files.disk hfiles⟩
          simp only [Serve.run, hexec]
          rfl
      | some answered =>
          obtain ⟨reply, next⟩ := answered
          obtain ⟨tree, after, rfl, hexec, hafter, rfl⟩ :=
            @exec_of_handleRequest_eq_some cfg fromString world request hworld reply next hhandle
          -- it is one of the others
          have hrest : run cfg after.stores.toServerState requests = none := by
            rw [run, hhandle] at hrun
            dsimp only at hrun
            cases hserved : run cfg after.stores.toServerState requests with
            | none => rfl
            | some served =>
                rw [hserved] at hrun
                cases hrun
          obtain ⟨front, last, back, exchanges, middle, final, rfl, hfront, hlast, hserve,
            htable, hdisk⟩ := ih hafter hrest
          refine ⟨request :: front, last, back, (request, .ok tree) :: exchanges, middle, final,
            rfl, ?_, hlast, ?_, htable, hdisk⟩
          · exact run_cons_eq_some_iff.mpr ⟨_, _, exchanges, hhandle, hfront, rfl⟩
          · simp only [Serve.run, hexec, hserve]
            rfl

end Runs

/-- **Refinement.**  While no call fails, the accept loop on any bytes is the run of the
controller on the requests among them; where the run does not exist, the loop serves the
requests before the first one that hangs, and no connection afterwards.  The headers of the
answers are left out, and the streams do not translate line ends. -/
theorem runStreams_refines_run (cfg : Config) (fromString : Str → Option Ptree)
    (toString : Ptree → Str) (disk : Str → Option Str) (console streams : List Str) :
    match run cfg (.initial disk console)
      (Server.decodedRequests (.flat cfg fromString) streams) with
    | some (exchanges, final) => ∃ after,
        Server.runStreams (.flat cfg fromString) toString (.initial disk console) streams =
          (Server.distributed toString (streams.map (Server.decode (.flat cfg fromString)))
            (exchanges.map Exchange.outcome), after) ∧
        after.stores.toServerState = final
    | none => ∃ front request back exchanges middle after,
        Server.decodedRequests (.flat cfg fromString) streams = front ++ request :: back ∧
        run cfg (.initial disk console) front = some (exchanges, middle) ∧
        handleRequest cfg middle request = none ∧
        Server.runStreams (.flat cfg fromString) toString (.initial disk console) streams =
          (Server.distributed toString (streams.map (Server.decode (.flat cfg fromString)))
            (exchanges.map Exchange.outcome ++ [(request, .error .hangs)]), after) ∧
        after.database.table = middle.log ∧ after.files.disk = middle.sharedDirectory := by
  have hworld : (World.initial disk console).Faultless := ⟨rfl, fun _ => rfl⟩
  rw [Server.runStreams_eq_distributed]
  cases hrun : run cfg (.initial disk console)
    (Server.decodedRequests (.flat cfg fromString) streams) with
  | some served =>
      obtain ⟨exchanges, final⟩ := served
      obtain ⟨after, hserve, hafter⟩ := serve_run_of_run_eq_some hworld hrun
      exact ⟨after, by rw [hserve], hafter⟩
  | none =>
      obtain ⟨front, request, back, exchanges, middle, after, hrequests, hfront, hhangs, hserve,
        hafter⟩ := serve_run_of_run_eq_none hworld hrun
      exact ⟨front, request, back, exchanges, middle, after, hrequests, hfront, hhangs,
        by rw [hserve], hafter⟩

end DistributedFileServer
