import DistributedFileServer.Wire.Requests
import DistributedFileServer.Wire.Responses

/-!
# The accept loop with headers

A response without a header ends the process.  Up to then the loop that frames its
responses is the loop that does not, and while the texts are short it does not end.
-/

namespace DistributedFileServer

open Programs Framing

namespace Server

/-! ## Up to the first response without a header -/

/-- A response that gets a header, or no response. -/
def fits : Option (Except Failure Str) → Bool
  | some (.ok response) => (addHeader response).isSome
  | _ => true

/-- What is sent. -/
def framed (response : Option (Except Failure Str)) : Option (Except Failure (Option Str)) :=
  response.map fun result => result.map addHeader

variable {κ : Type} [DecidableEq κ]

/-- The connections that are served: up to the first whose response gets no header, and this
one too. -/
def served (system : System κ) (toString : Ptree → Str) (world : World κ)
    (streams : List Str) : List Str :=
  streams.take
    ((runStreams system toString world streams).1.findIdx (fun response => !fits response) + 1)

/-- One connection, in both loops. -/
theorem runStreams_cons (system : System κ) (toString : Ptree → Str) (world : World κ)
    (stream : Str) :
    ∃ response next, connection system toString world stream = (framed response, next) ∧
      ∀ streams, runStreams system toString world (stream :: streams) =
        if response = some (.error .hangs) then
          ([response], next)
        else
          (response :: (runStreams system toString next streams).1,
            (runStreams system toString next streams).2) := by
  unfold connection
  cases hreceive : receive stream with
  | none =>
      refine ⟨none, world, rfl, fun streams => ?_⟩
      rw [runStreams, hreceive, if_neg (by simp)]
  | some received =>
      obtain ⟨request, rest⟩ := received
      cases hexec : exec (Serve.calculateResponse system request) world with
      | mk result next =>
          refine ⟨some (result.map toString), next, ?_, fun streams => ?_⟩
          · dsimp only
            rw [hexec]
            cases result <;> rfl
          · simp only [runStreams, hreceive, hexec]
            cases result with
            | ok reply => rw [if_neg (by simp [Except.map])]
            | error failure => cases failure <;> simp [Except.map]

theorem runFramed_cons {system : System κ} {toString : Ptree → Str} {world next : World κ}
    {stream : Str} {response : Option (Except Failure Str)}
    (hconnection : connection system toString world stream = (framed response, next))
    (streams : List Str) :
    runFramed system toString world (stream :: streams) =
      if isLast (framed response) then
        ([framed response], next)
      else
        (framed response :: (runFramed system toString next streams).1,
          (runFramed system toString next streams).2) := by
  rw [runFramed, hconnection]

theorem isLast_ok_iff (sent : Option Str) :
    isLast (some (.ok sent)) = true ↔ sent.isSome = false := by
  cases sent <;> simp [isLast]

/-- The loop with headers ends where the other one does, and where there is no header. -/
theorem isLast_framed_iff (response : Option (Except Failure Str)) :
    isLast (framed response) = true ↔
      response = some (.error .hangs) ∨ fits response = false := by
  match response with
  | none => simp [framed, isLast, fits]
  | some (.error failure) => cases failure <;> simp [framed, isLast, fits, Except.map]
  | some (.ok response) =>
      have hok : ¬ some (.ok response : Except Failure Str) = some (.error .hangs) := nofun
      rw [or_iff_right hok]
      exact isLast_ok_iff (addHeader response)

/-- **The framed loop.**  It does what the loop without headers does on the connections up
to the first whose response gets no header. -/
theorem runFramed_eq (system : System κ) (toString : Ptree → Str) (world : World κ)
    (streams : List Str) :
    runFramed system toString world streams =
      ((runStreams system toString world (served system toString world streams)).1.map framed,
        (runStreams system toString world (served system toString world streams)).2) := by
  induction streams generalizing world with
  | nil => rfl
  | cons stream streams ih =>
      obtain ⟨response, next, hconnection, hplain⟩ :=
        runStreams_cons system toString world stream
      unfold served
      rw [List.take_succ_cons, hplain, hplain, runFramed_cons hconnection]
      by_cases hhangs : response = some (.error .hangs)
      · rw [if_pos ((isLast_framed_iff response).mpr (.inl hhangs)), if_pos hhangs]
        rfl
      · rw [if_neg hhangs, if_neg hhangs, List.findIdx_cons]
        cases hfits : fits response with
        | true =>
            have hgoesOn : ¬ isLast (framed response) = true := by
              rw [isLast_framed_iff, hfits]
              exact fun h => h.elim hhangs nofun
            rw [if_neg hgoesOn, ih]
            rfl
        | false =>
            -- the process ends, and nobody else is served
            rw [if_pos ((isLast_framed_iff response).mpr (.inr hfits))]
            rfl

/-! ## While the texts are short -/

/-- Where every response gets its header, every connection is served. -/
theorem served_of_fits {system : System κ} {toString : Ptree → Str} {world : World κ}
    {streams : List Str}
    (hfits : ∀ response ∈ (runStreams system toString world streams).1, fits response = true) :
    runStreams system toString world (served system toString world streams) =
      runStreams system toString world streams := by
  induction streams generalizing world with
  | nil => rfl
  | cons stream streams ih =>
      obtain ⟨response, next, -, hplain⟩ := runStreams_cons system toString world stream
      unfold served
      rw [List.take_succ_cons, hplain, hplain]
      rw [hplain] at hfits
      by_cases hhangs : response = some (.error .hangs)
      · rw [if_pos hhangs, if_pos hhangs]
      · rw [if_neg hhangs] at hfits
        obtain ⟨hfirst, hrest⟩ := List.forall_mem_cons.mp hfits
        rw [if_neg hhangs, if_neg hhangs, List.findIdx_cons, hfirst]
        exact congrArg (fun answer => (response :: answer.1, answer.2)) (ih hrest)

/-- **Short texts.**  While the bodies, the logged writes and the files that are asked for
have at most 8317 bytes, no response ends the process: every connection is served as by the
loop without headers, and whoever gets a response takes it off its frame. -/
theorem runFramed_of_short {system : System κ} {toString : Ptree → Str}
    (hreads : ∀ body tree, system.fromString body = some tree → tree.size ≤ body.length)
    (hwrites : ∀ tree, (toString tree).length ≤ 6 * tree.size + 100)
    {world : World κ} {streams : List Str} (hlog : ShortWrites 8317 world.database.table)
    (hfiles : ShortFiles 8317 (AskedFor system (receivedBodies streams)) world.files)
    (hbodies : ∀ body ∈ receivedBodies streams, body.length ≤ 8317) :
    runFramed system toString world streams =
      ((runStreams system toString world streams).1.map framed,
        (runStreams system toString world streams).2) ∧
    ∀ response, some (.ok response) ∈ (runStreams system toString world streams).1 →
      ∃ frame, some (.ok (some frame)) ∈ (runFramed system toString world streams).1 ∧
        ∀ rest, receive (frame ++ rest) = some (response, rest) := by
  have hlength : ∀ response, some (.ok response) ∈
      (runStreams system toString world streams).1 → response.length ≤ 99999 := by
    intro response hresponse
    have hrun := congrArg Prod.fst (runStreams_eq_run system toString world streams)
    have hmem : .ok response ∈ (run system toString world (receivedBodies streams)).1 := by
      rw [← hrun]
      exact List.mem_filterMap.mpr ⟨some (.ok response), hresponse, rfl⟩
    have hle := run_length_le hreads hwrites hlog hfiles hbodies
      (fun body hbody file hasks => ⟨body, hbody, hasks⟩) response hmem
    omega
  have hframe : ∀ response, some (.ok response) ∈
      (runStreams system toString world streams).1 →
      addHeader response = some (padded headerLength response.length ++ response) := by
    intro response hresponse
    have hle := hlength response hresponse
    exact (addHeader_eq_some_iff (by omega)).mpr ⟨hle, rfl⟩
  have hfits : ∀ response ∈ (runStreams system toString world streams).1,
      fits response = true := by
    rintro (_ | failure | response) hresponse
    · rfl
    · rfl
    · rw [fits, hframe response hresponse]
      rfl
  have hall : runFramed system toString world streams =
      ((runStreams system toString world streams).1.map framed,
        (runStreams system toString world streams).2) := by
    rw [runFramed_eq, served_of_fits hfits]
  refine ⟨hall, fun response hresponse => ⟨_, ?_, receive_padded_append (hlength _ hresponse)⟩⟩
  have hsent : framed (some (.ok response)) =
      some (.ok (some (padded headerLength response.length ++ response))) :=
    congrArg (fun sent => some (Except.ok sent)) (hframe response hresponse)
  rw [hall]
  exact List.mem_map.mpr ⟨_, hresponse, hsent⟩

/-- A content is stored and read back over two connections, with another one between them. -/
theorem runFramed_of_short_stored :
    ∃ frame,
      some (.ok (some frame)) ∈
        (runFramed (storeSystem (text "a/b")) writeJson (.initial (fun _ => none) [])
          [text "00065" ++ writeText (text "a/b"), text "junk", text "00051" ++ readText]).1 ∧
      receive frame =
        some (writeJson (makeReadResponseMessage (text "T") (text "f") (text "a/b")), []) := by
  have hplain : (runStreams (storeSystem (text "a/b")) writeJson (.initial (fun _ => none) [])
      [text "00065" ++ writeText (text "a/b"), text "junk", text "00051" ++ readText]).1 =
      [some (.ok (writeJson (makeWriteResponseMessage (text "T")))), none,
        some (.ok (writeJson (makeReadResponseMessage (text "T") (text "f") (text "a/b"))))] := rfl
  have hbodies : ∀ body ∈ receivedBodies
      [text "00065" ++ writeText (text "a/b"), text "junk", text "00051" ++ readText],
      body.length ≤ 8317 := by
    decide
  have hlog : ShortWrites 8317 (World.initial (fun _ => none) [] : World Str).database.table :=
    shortWrites_initDatabase 8317
  obtain ⟨-, hall⟩ := runFramed_of_short (fun _ _ => size_storeSystem) length_writeJson_le hlog
    (fun _ _ _ hfile => (nomatch hfile)) hbodies
  obtain ⟨frame, hframe, hreceive⟩ :=
    hall (writeJson (makeReadResponseMessage (text "T") (text "f") (text "a/b"))) (by
      rw [hplain]
      exact List.mem_cons_of_mem _ (List.mem_cons_of_mem _ List.mem_cons_self))
  exact ⟨frame, hframe, by simpa using hreceive []⟩

end Server

end DistributedFileServer
