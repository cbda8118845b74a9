import DistributedFileServer.Model.Controller
import Mathlib.Data.List.Induction

/-!
# Runs of the server

The accept loop of `main` serves one request after another on the same
controller.  A run is the list of the requests that were served, each with its
reply, together with the state it ends in.  A run from a state on a list of
requests does not exist when one of the requests never returns.
-/

namespace DistributedFileServer

/-- A served request with its reply. -/
abbrev Exchange := Request × Reply

namespace Controller

open Dao

/-- Serve the requests one after another. -/
def run (cfg : Config) :
    ServerState → List Request → Option (List Exchange × ServerState)
  | s, [] => some ([], s)
  | s, request :: requests =>
      match handleRequest cfg s request with
      | none => none
      | some (reply, next) =>
          match run cfg next requests with
          | none => none
          | some (exchanges, final) => some ((request, reply) :: exchanges, final)

@[simp] theorem run_nil (cfg : Config) (s : ServerState) : run cfg s [] = some ([], s) := rfl

theorem run_cons_eq_some_iff {cfg : Config} {s final : ServerState} {request : Request}
    {requests : List Request} {exchanges : List Exchange} :
    run cfg s (request :: requests) = some (exchanges, final) ↔
      ∃ reply next rest, handleRequest cfg s request = some (reply, next) ∧
        run cfg next requests = some (rest, final) ∧
        exchanges = (request, reply) :: rest := by
  constructor
  · intro h
    rw [run] at h
    cases hhandle : handleRequest cfg s request with
    | none => simp [hhandle] at h
    | some result =>
        obtain ⟨reply, next⟩ := result
        cases hrest : run cfg next requests with
        | none => simp [hhandle, hrest] at h
        | some result =>
            obtain ⟨rest, last⟩ := result
            obtain ⟨rfl, rfl⟩ : (request, reply) :: rest = exchanges ∧ last = final := by
              simpa [hhandle, hrest] using h
            exact ⟨reply, next, rest, rfl, hrest, rfl⟩
  · rintro ⟨reply, next, rest, hhandle, hrest, rfl⟩
    simp [run, hhandle, hrest]

/-- A run on two lists of requests is a run on the first, followed by a run on
the second from where the first ended. -/
theorem run_append_eq_some_iff {cfg : Config} {s final : ServerState}
    {first second : List Request} {exchanges : List Exchange} :
    run cfg s (first ++ second) = some (exchanges, final) ↔
      ∃ middle front back, run cfg s first = some (front, middle) ∧
        run cfg middle second = some (back, final) ∧ exchanges = front ++ back := by
  induction first generalizing s exchanges with
  | nil => simp
  | cons request first ih =>
      rw [List.cons_append, run_cons_eq_some_iff]
      constructor
      · rintro ⟨reply, next, rest, hhandle, hrest, rfl⟩
        obtain ⟨middle, front, back, hfront, hback, rfl⟩ := ih.mp hrest
        exact ⟨middle, (request, reply) :: front, back,
          run_cons_eq_some_iff.mpr ⟨reply, next, front, hhandle, hfront, rfl⟩, hback, rfl⟩
      · rintro ⟨middle, front, back, hfront, hback, rfl⟩
        obtain ⟨reply, next, rest, hhandle, hrest, rfl⟩ := run_cons_eq_some_iff.mp hfront
        exact ⟨reply, next, rest ++ back, hhandle,
          ih.mpr ⟨middle, rest, back, hrest, hback, rfl⟩, rfl⟩

theorem run_singleton_eq_some_iff {cfg : Config} {s final : ServerState}
    {request : Request} {exchanges : List Exchange} :
    run cfg s [request] = some (exchanges, final) ↔
      ∃ reply, handleRequest cfg s request = some (reply, final) ∧
        exchanges = [(request, reply)] := by
  rw [run_cons_eq_some_iff]
  constructor
  · rintro ⟨reply, next, rest, hhandle, hrest, rfl⟩
    obtain ⟨rfl, rfl⟩ : [] = rest ∧ next = final := by simpa using hrest
    exact ⟨reply, hhandle, rfl⟩
  · rintro ⟨reply, hhandle, rfl⟩
    exact ⟨reply, final, [], hhandle, rfl, rfl⟩

/-- The last step of a run. -/
theorem run_concat_eq_some_iff {cfg : Config} {s final : ServerState}
    {requests : List Request} {request : Request} {exchanges : List Exchange} :
    run cfg s (requests ++ [request]) = some (exchanges, final) ↔
      ∃ before front reply, run cfg s requests = some (front, before) ∧
        handleRequest cfg before request = some (reply, final) ∧
        exchanges = front ++ [(request, reply)] := by
  rw [run_append_eq_some_iff]
  constructor
  · rintro ⟨before, front, back, hfront, hback, rfl⟩
    obtain ⟨reply, hhandle, rfl⟩ := run_singleton_eq_some_iff.mp hback
    exact ⟨before, front, reply, hfront, hhandle, rfl⟩
  · rintro ⟨before, front, reply, hfront, hhandle, rfl⟩
    exact ⟨before, front, _, hfront, run_singleton_eq_some_iff.mpr ⟨reply, hhandle, rfl⟩, rfl⟩

/-- **Induction over runs.**  What holds before the first request and is kept
by every request holds after every run. -/
theorem run_induction {cfg : Config} {start : ServerState}
    {P : List Exchange → ServerState → Prop} (hstart : P [] start)
    (hstep : ∀ exchanges s request reply next, P exchanges s →
      handleRequest cfg s request = some (reply, next) →
      P (exchanges ++ [(request, reply)]) next)
    {requests : List Request} {exchanges : List Exchange} {final : ServerState}
    (hrun : run cfg start requests = some (exchanges, final)) : P exchanges final := by
  induction requests using List.reverseRecOn generalizing exchanges final with
  | nil =>
      obtain ⟨rfl, rfl⟩ : [] = exchanges ∧ start = final := by simpa using hrun
      exact hstart
  | append_singleton requests request ih =>
      obtain ⟨before, front, reply, hfront, hhandle, rfl⟩ := run_concat_eq_some_iff.mp hrun
      exact hstep _ _ _ _ _ (ih hfront) hhandle

/-- The exchanges of a run list its requests. -/
theorem run_requests {cfg : Config} {start final : ServerState} {requests : List Request}
    {exchanges : List Exchange} (hrun : run cfg start requests = some (exchanges, final)) :
    exchanges.map Prod.fst = requests := by
  induction requests generalizing start exchanges with
  | nil =>
      obtain ⟨rfl, -⟩ : [] = exchanges ∧ start = final := by simpa using hrun
      rfl
  | cons request requests ih =>
      obtain ⟨reply, next, rest, -, hrest, rfl⟩ := run_cons_eq_some_iff.mp hrun
      rw [List.map_cons, ih hrest]

/-- What holds of all requests of a run holds of its exchanges. -/
theorem run_forall_request {cfg : Config} {start final : ServerState} {requests : List Request}
    {exchanges : List Exchange} {P : Request → Prop} (h : ∀ request ∈ requests, P request)
    (hrun : run cfg start requests = some (exchanges, final)) :
    ∀ exchange ∈ exchanges, P exchange.1 := by
  intro exchange hexchange
  apply h
  rw [← run_requests hrun]
  exact List.mem_map_of_mem hexchange

/-- The state a run was in at one of its exchanges. -/
theorem run_split {cfg : Config} {start final : ServerState} {requests : List Request}
    {before after : List Exchange} {request : Request} {reply : Reply}
    (hrun : run cfg start requests = some (before ++ (request, reply) :: after, final)) :
    ∃ middle next, run cfg start (before.map Prod.fst) = some (before, middle) ∧
      handleRequest cfg middle request = some (reply, next) ∧
      run cfg next (after.map Prod.fst) = some (after, final) := by
  induction before generalizing start requests with
  | nil =>
      obtain rfl := run_requests hrun
      obtain ⟨_, next, rest, hhandle, hrest, hsplit⟩ := run_cons_eq_some_iff.mp hrun
      obtain ⟨hhead, rfl⟩ := List.cons.inj hsplit
      obtain rfl := congrArg Prod.snd hhead
      exact ⟨start, next, rfl, hhandle, hrest⟩
  | cons exchange before ih =>
      obtain ⟨first, reply'⟩ := exchange
      obtain rfl := run_requests hrun
      obtain ⟨_, next, rest, hhandle, hrest, hsplit⟩ := run_cons_eq_some_iff.mp hrun
      obtain ⟨hhead, rfl⟩ := List.cons.inj hsplit
      obtain rfl := congrArg Prod.snd hhead
      obtain ⟨middle, next', hbefore, hrequest, hafter⟩ := ih hrest
      exact ⟨middle, next', run_cons_eq_some_iff.mpr ⟨reply', next, before, hhandle, hbefore, rfl⟩,
        hrequest, hafter⟩

/-- **Frame.**  A request logs at most one row, a row of its own transaction. -/
theorem log_handleRequest {cfg : Config} {s next : ServerState} {request : Request}
    {reply : Reply} (hhandle : handleRequest cfg s request = some (reply, next)) :
    next.log = s.log ∨ ∃ name filename data,
      next.log = insertOperation s.log name request.transactionId filename data := by
  cases request with
  | read transactionId filename =>
      simp only [handleRequest, handleReadMessage] at hhandle
      split at hhandle
      · obtain ⟨-, rfl⟩ := Prod.mk.inj (Option.some.inj hhandle)
        exact Or.inl rfl
      · obtain ⟨-, rfl⟩ := Prod.mk.inj (Option.some.inj hhandle)
        exact Or.inr ⟨_, _, _, rfl⟩
  | prepare transactionId =>
      simp only [handleRequest, handlePrepareMessage] at hhandle
      split at hhandle
      · cases hhandle
      · obtain ⟨-, rfl⟩ := Prod.mk.inj (Option.some.inj hhandle)
        exact Or.inr ⟨_, _, _, rfl⟩
      · obtain ⟨-, rfl⟩ := Prod.mk.inj (Option.some.inj hhandle)
        exact Or.inr ⟨_, _, _, rfl⟩
  | unsupported transactionId =>
      obtain ⟨-, rfl⟩ := Prod.mk.inj (Option.some.inj hhandle)
      exact Or.inl rfl
  | _ =>
      obtain ⟨-, rfl⟩ := Prod.mk.inj (Option.some.inj hhandle)
      exact Or.inr ⟨_, _, _, rfl⟩

/-- **Frame.**  Only a global commit touches the shared directory. -/
theorem sharedDirectory_handleRequest {cfg : Config} {s next : ServerState} {request : Request}
    {reply : Reply} (hhandle : handleRequest cfg s request = some (reply, next)) :
    next.sharedDirectory = s.sharedDirectory ∨
      ∃ transactionId, request = .globalCommit transactionId := by
  cases request with
  | read transactionId filename =>
      left
      simp only [handleRequest, handleReadMessage] at hhandle
      split at hhandle
      · obtain ⟨-, rfl⟩ := Prod.mk.inj (Option.some.inj hhandle)
        rfl
      · obtain ⟨-, rfl⟩ := Prod.mk.inj (Option.some.inj hhandle)
        rfl
  | prepare transactionId =>
      left
      simp only [handleRequest, handlePrepareMessage] at hhandle
      split at hhandle
      · cases hhandle
      · obtain ⟨-, rfl⟩ := Prod.mk.inj (Option.some.inj hhandle)
        rfl
      · obtain ⟨-, rfl⟩ := Prod.mk.inj (Option.some.inj hhandle)
        rfl
  | globalCommit transactionId => exact Or.inr ⟨transactionId, rfl⟩
  | _ =>
      left
      obtain ⟨-, rfl⟩ := Prod.mk.inj (Option.some.inj hhandle)
      rfl

/-- In auto mode every request returns. -/
theorem handleRequest_isSome (cfg : Config) (hauto : cfg.autoMode = true) (s : ServerState)
    (request : Request) : ∃ reply next, handleRequest cfg s request = some (reply, next) := by
  cases request with
  | prepare transactionId =>
      unfold handleRequest handlePrepareMessage canCommitTransaction
      simp only [hauto, if_true]
      cases canAutoCommitTransaction s.log transactionId with
      | false => exact ⟨_, _, rfl⟩
      | true => exact ⟨_, _, rfl⟩
  | _ => exact ⟨_, _, rfl⟩

/-- In auto mode the server serves every list of requests. -/
theorem run_isSome (cfg : Config) (hauto : cfg.autoMode = true) (s : ServerState)
    (requests : List Request) :
    ∃ exchanges final, run cfg s requests = some (exchanges, final) := by
  induction requests generalizing s with
  | nil => exact ⟨[], s, rfl⟩
  | cons request requests ih =>
      obtain ⟨reply, next, hhandle⟩ := handleRequest_isSome cfg hauto s request
      obtain ⟨rest, final, hrest⟩ := ih next
      exact ⟨(request, reply) :: rest, final,
        run_cons_eq_some_iff.mpr ⟨reply, next, rest, hhandle, hrest, rfl⟩⟩

end Controller

end DistributedFileServer
