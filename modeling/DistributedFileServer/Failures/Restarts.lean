import DistributedFileServer.Failures.Sessions

/-!
# Restarts and failures

What is known of one run on which calls and streams fail is known of all the sessions on
one log and one directory together: which files are in doubt, and what becomes of requests
that are sent again.
-/

namespace DistributedFileServer

open Programs Startup

/-! ## Files in doubt -/

section Failing

variable {κ : Type} [DecidableEq κ]

/-- The files in doubt after a session, given those before. -/
def Session.doubtful (host : Host κ) (session : Session) (machine : Machine κ)
    (doubt : List κ) : List κ :=
  match session.listening with
  | none => doubt
  | some configuration =>
      inDoubt (configured host configuration) (session.begun host configuration machine)
        doubt (Server.decodedRequests (configured host configuration) session.streams)

/-- The files in doubt after one session after another. -/
def doubtfulAfter (host : Host κ) (toString : Ptree → Str) :
    List Session → Machine κ → List κ → List κ
  | [], _, doubt => doubt
  | session :: rest, machine, doubt =>
      doubtfulAfter host toString rest (main host toString session machine).2
        (session.doubtful host machine doubt)

variable {host : Host κ} {toString : Ptree → Str} {initial : κ → Option Str}
  {logFileFullPath sharedDirectoryFullPath : Str}

/-- The log of a machine explains its files, those in doubt excepted. -/
def Machine.Explained (host : Host κ) (logFileFullPath sharedDirectoryFullPath : Str)
    (initial : κ → Option Str) (doubt : List κ) (machine : Machine κ) : Prop :=
  ∀ file, file ∉ doubt →
    machine.disk file = locatedDisk (host.locate sharedDirectoryFullPath) initial
      (createTable (machine.logs (host.locateLog logFileFullPath))).history file

/-- **One session.** -/
theorem Machine.Explained.main {doubt : List κ} {machine : Machine κ}
    (h : machine.Explained host logFileFullPath sharedDirectoryFullPath initial doubt)
    {session : Session} (hworks : session.WorksOn host logFileFullPath sharedDirectoryFullPath) :
    (Startup.main host toString session machine).2.Explained host logFileFullPath
      sharedDirectoryFullPath initial (session.doubtful host machine doubt) := by
  intro file hfile
  unfold Session.doubtful at hfile
  cases hlistening : session.listening with
  | none =>
      obtain ⟨next, hmain, hlogs, hdisk⟩ :=
        @main_of_not_listening κ _ host toString session hlistening machine
      rw [hlistening] at hfile
      rw [hmain, hlogs, hdisk]
      exact h file hfile
  | some configuration =>
      have htable := (begun_database host session configuration machine).1
      rw [hlistening] at hfile
      rw [main_of_listening hlistening, hworks.log configuration hlistening, logs_setLog_self,
        Server.runStreams_eq_distributed, ← hworks.directory configuration hlistening]
      rw [hworks.log configuration hlistening] at htable
      have hbegin : SettledExcept (configured host configuration) initial doubt
          (session.begun host configuration machine).stores := by
        intro file hfile
        show machine.disk file = locatedDisk (host.locate configuration.sharedDirectoryFullPath)
          initial (session.begun host configuration machine).database.table.history file
        rw [htable, hworks.directory configuration hlistening]
        exact h file hfile
      exact settledExcept_run hbegin
        (Server.decodedRequests (configured host configuration) session.streams) file hfile

/-- The run lemma, by induction on the sessions. -/
theorem Machine.Explained.sessions {doubt : List κ} {machine : Machine κ}
    (h : machine.Explained host logFileFullPath sharedDirectoryFullPath initial doubt)
    {sessions : List Session}
    (hworks : ∀ session ∈ sessions,
      session.WorksOn host logFileFullPath sharedDirectoryFullPath) :
    (Startup.sessions host toString sessions machine).2.Explained host logFileFullPath
      sharedDirectoryFullPath initial (doubtfulAfter host toString sessions machine doubt) := by
  induction sessions generalizing machine doubt with
  | nil => exact h
  | cons session rest ih =>
      obtain ⟨hfirst, hrest⟩ := List.forall_mem_cons.mp hworks
      exact ih (h.main hfirst) hrest

/-- **The redo log under failures and restarts.**  Whatever is sent, whichever SQLite calls
and streams fail, and whenever the server is started again on the same log and directory,
every file that is not in doubt is what the log makes of the files before the first
session.  The streams do not translate line ends here. -/
theorem sessions_inDoubt (host : Host κ) (toString : Ptree → Str)
    (logFileFullPath sharedDirectoryFullPath : Str) {sessions : List Session}
    (hworks : ∀ session ∈ sessions,
      session.WorksOn host logFileFullPath sharedDirectoryFullPath)
    {machine : Machine κ}
    (hempty : createTable (machine.logs (host.locateLog logFileFullPath)) = Dao.initDatabase)
    (file : κ) (hfile : file ∉ doubtfulAfter host toString sessions machine []) :
    (Startup.sessions host toString sessions machine).2.disk file =
      locatedDisk (host.locate sharedDirectoryFullPath) machine.disk
        (createTable ((Startup.sessions host toString sessions machine).2.logs
          (host.locateLog logFileFullPath))).history
        file := by
  have hfresh : machine.Explained host logFileFullPath sharedDirectoryFullPath
      machine.disk [] := by
    intro file _
    rw [hempty]
    rfl
  exact hfresh.sessions hworks file hfile

/-- A host whose parser is given on two texts. -/
def repeatHost : Host (List Str) :=
  .rooted fun body =>
    if body = text "w" then
      some (Request.write (text "T") (text "f") (text "xy")).toPtree
    else if body = text "g" then
      some (Request.globalCommit (text "T")).toPtree
    else
      none

/-- The first session on an empty log, with a stream that takes one byte only, and the
second, in which the commit is repeated. -/
def repeatSessions : List Session :=
  [{ servingSession [text "00001w", text "00001g"] with outcome := fun _ => .partly 1 },
    servingSession [text "00001g"]]

theorem repeatSessions_worksOn :
    ∀ session ∈ repeatSessions, session.WorksOn repeatHost (text "l") (text "d") := by
  intro session hsession
  simp only [repeatSessions, List.mem_cons, List.not_mem_nil, or_false] at hsession
  rcases hsession with rfl | rfl
  · exact @servingSession_worksOn _ repeatHost _ [text "00001w", text "00001g"] rfl
  · exact servingSession_worksOn repeatHost rfl

theorem sessions_inDoubt_repeated :
    doubtfulAfter repeatHost writeJson (repeatSessions.take 1)
      ⟨fun _ => none, fun _ => none⟩ [] = [[text "d", text "f"]] ∧
    (Startup.sessions repeatHost writeJson repeatSessions
      ⟨fun _ => none, fun _ => none⟩).2.disk [text "d", text "f"] =
      locatedDisk (repeatHost.locate (text "d")) (fun _ => none)
        (createTable ((Startup.sessions repeatHost writeJson repeatSessions
          ⟨fun _ => none, fun _ => none⟩).2.logs (repeatHost.locateLog (text "l")))).history
        [text "d", text "f"] := by
  refine ⟨by decide, ?_⟩
  exact sessions_inDoubt repeatHost writeJson (text "l") (text "d") repeatSessions_worksOn rfl
    [text "d", text "f"] (by decide)

/-! ## Requests that are sent again -/

/-- What becomes of the requests of a session. -/
def Session.outcomes (host : Host κ) (session : Session) (machine : Machine κ) :
    List Serve.Outcome :=
  match session.listening with
  | none => []
  | some configuration =>
      (Serve.run (configured host configuration) (session.begun host configuration machine)
        (Server.decodedRequests (configured host configuration) session.streams)).1

/-- What becomes of the requests of one session after another. -/
def outcomesOf (host : Host κ) (toString : Ptree → Str) :
    List Session → Machine κ → List (List Serve.Outcome)
  | [], _ => []
  | session :: rest, machine =>
      session.outcomes host machine ::
        outcomesOf host toString rest (main host toString session machine).2

/-- **One session.**  It serves its requests in turn, on the log and the files it finds. -/
theorem servedInTurn_main {session : Session} (hsteady : session.Steady)
    (hworks : session.WorksOn host logFileFullPath sharedDirectoryFullPath)
    (machine : Machine κ) :
    (main host toString session machine).1 =
        session.ending (host.system true sharedDirectoryFullPath) toString
          (session.outcomes host machine) ∧
      ServedInTurn (host.system true sharedDirectoryFullPath)
        (machine.started (host.locateLog logFileFullPath)) (session.outcomes host machine)
        ((main host toString session machine).2.started (host.locateLog logFileFullPath)) := by
  unfold Session.outcomes Session.ending
  cases hlistening : session.listening with
  | none =>
      obtain ⟨next, hmain, hlogs, hdisk⟩ :=
        @main_of_not_listening κ _ host toString session hlistening machine
      rw [hmain, started_eq hlogs hdisk]
      exact ⟨rfl, .nil _⟩
  | some configuration =>
      have htable := (begun_database host session configuration machine).1
      have hmode := hsteady.autoMode configuration (listening_eq_some_iff.mp hlistening).1
      dsimp only
      rw [main_of_listening hlistening, Server.runStreams_eq_distributed,
        configured_eq hworks hlistening hmode, hworks.log configuration hlistening]
      rw [hworks.log configuration hlistening] at htable
      refine ⟨rfl, ?_⟩
      -- it starts with the log and the files of the machine, and so does the next one with its
      have hstart : (machine.started (host.locateLog logFileFullPath)).Restarted
          (session.begun host configuration machine) :=
        ⟨htable, rfl, fun _ n => congrFun hsteady.outcome n⟩
      have hserved := servedInTurn_of_run (Prod.mk.eta (p := Serve.run
        (host.system true sharedDirectoryFullPath) (session.begun host configuration machine)
        (Server.decodedRequests (host.system true sharedDirectoryFullPath)
          session.streams))).symm
      refine .restart hstart (hserved.restarted ⟨?_, rfl, fun _ _ => rfl⟩)
      exact congrArg createTable (logs_setLog_self ..)

/-- The run lemma, by induction on the sessions. -/
theorem servedInTurn_sessions {sessions : List Session}
    (hsteady : ∀ session ∈ sessions, session.Steady)
    (hworks : ∀ session ∈ sessions,
      session.WorksOn host logFileFullPath sharedDirectoryFullPath)
    (machine : Machine κ) :
    (Startup.sessions host toString sessions machine).1 =
        List.zipWith (Session.ending (host.system true sharedDirectoryFullPath) toString)
          sessions (outcomesOf host toString sessions machine) ∧
      ServedInTurn (host.system true sharedDirectoryFullPath)
        (machine.started (host.locateLog logFileFullPath))
        (outcomesOf host toString sessions machine).flatten
        ((Startup.sessions host toString sessions machine).2.started
          (host.locateLog logFileFullPath)) := by
  induction sessions generalizing machine with
  | nil => exact ⟨rfl, .nil _⟩
  | cons session rest ih =>
      obtain ⟨hfirst, hrest⟩ := List.forall_mem_cons.mp hsteady
      obtain ⟨hfirstWorks, hrestWorks⟩ := List.forall_mem_cons.mp hworks
      obtain ⟨hending, hserved⟩ :=
        @servedInTurn_main κ _ host toString _ _ session hfirst hfirstWorks machine
      obtain ⟨hendings, hrestServed⟩ :=
        ih hrest hrestWorks (main host toString session machine).2
      refine ⟨?_, hserved.append hrestServed⟩
      simp only [Startup.sessions, outcomesOf, List.zipWith_cons_cons, hending, hendings]

/-- **Requests that are sent again, across restarts.**  In auto mode SQLite calls fail and
answers are lost anywhere, and the server is stopped and started again on the same log and
directory, perhaps in vain.  As long as each request is sent again at once, before any
other request, until an answer to it is taken, the answers taken and the files left are
those of a server that is sent each request once, on which nothing fails and which is never
stopped. -/
theorem sessions_resent (toString : Ptree → Str) {sessions : List Session}
    (hsteady : ∀ session ∈ sessions, session.Steady)
    (hworks : ∀ session ∈ sessions,
      session.WorksOn host logFileFullPath sharedDirectoryFullPath)
    {machine : Machine κ}
    (hempty : createTable (machine.logs (host.locateLog logFileFullPath)) = Dao.initDatabase)
    (console : List Str) {exchanges : List (Request × Ptree)}
    (hresent : Resent (outcomesOf host toString sessions machine).flatten exchanges) :
    (Startup.sessions host toString sessions machine).1 =
        List.zipWith (Session.ending (host.system true sharedDirectoryFullPath) toString)
          sessions (outcomesOf host toString sessions machine) ∧
      ∃ last, Serve.run (host.system true sharedDirectoryFullPath)
          (.initial machine.disk console) (exchanges.map Prod.fst) =
            (answered exchanges, last) ∧
        (Startup.sessions host toString sessions machine).2.disk = last.files.disk ∧
        ∀ request reply,
          (request, .ok reply) ∈ (outcomesOf host toString sessions machine).flatten →
          (request, reply) ∈ exchanges := by
  obtain ⟨hendings, hserved⟩ :=
    @servedInTurn_sessions κ _ host toString _ _ sessions hsteady hworks machine
  have hfresh : Follows (host.system true sharedDirectoryFullPath) machine.disk []
      (machine.started (host.locateLog logFileFullPath)).stores := by
    rw [Machine.started, hempty]
    exact ⟨fun _ => rfl, .nil, rfl⟩
  exact ⟨hendings, hserved.resent rfl hresent hfresh console⟩

/-- The commit of the first session fails when it logs its row, and is sent again after a
start without an argument. -/
def resentSessions : List Session :=
  [{ servingSession [text "00001w", text "00001g"] with succeeds := fun n => n ≠ 28 },
    { servingSession [] with arguments := [text "server"] },
    servingSession [text "00001g"]]

theorem resentSessions_steady : ∀ session ∈ resentSessions, session.Steady := by
  intro session hsession
  simp only [resentSessions, List.mem_cons, List.not_mem_nil, or_false] at hsession
  rcases hsession with rfl | rfl | rfl
  · exact ⟨rfl, (servingSession_reliable [text "00001w", text "00001g"]).autoMode⟩
  · exact ⟨rfl, fun configuration hconfiguration => nomatch hconfiguration⟩
  · exact (servingSession_reliable _).toSteady

theorem resentSessions_worksOn :
    ∀ session ∈ resentSessions, session.WorksOn repeatHost (text "l") (text "d") := by
  intro session hsession
  simp only [resentSessions, List.mem_cons, List.not_mem_nil, or_false] at hsession
  rcases hsession with rfl | rfl | rfl
  · exact @servingSession_worksOn _ repeatHost _ [text "00001w", text "00001g"] rfl
  · exact ⟨fun _ hlistening => (nomatch hlistening), fun _ hlistening => (nomatch hlistening)⟩
  · exact servingSession_worksOn repeatHost rfl

theorem sessions_resent_commit :
    ∃ exchanges last,
      exchanges.map Prod.fst =
        [.write (text "T") (text "f") (text "xy"), .globalCommit (text "T")] ∧
      (outcomesOf repeatHost writeJson resentSessions
        ⟨fun _ => none, fun _ => none⟩).flatten.map Prod.snd =
        [.ok (makeWriteResponseMessage (text "T")), .error (.sqlite .insert),
          .ok (makeVoteCommitMessage (text "T"))] ∧
      Serve.run (repeatHost.system true (text "d")) (.initial (fun _ => none) [])
          (exchanges.map Prod.fst) = (answered exchanges, last) ∧
      (Startup.sessions repeatHost writeJson resentSessions
        ⟨fun _ => none, fun _ => none⟩).2.disk = last.files.disk := by
  have hresent : Resent (outcomesOf repeatHost writeJson resentSessions
      ⟨fun _ => none, fun _ => none⟩).flatten
      [(.write (text "T") (text "f") (text "xy"), makeWriteResponseMessage (text "T")),
        (.globalCommit (text "T"), makeVoteCommitMessage (text "T"))] :=
    .taken _ [] _ (.taken _ [.error (.sqlite .insert)] _ .nil)
  obtain ⟨-, last, hlast, hdisk, -⟩ :=
    sessions_resent writeJson resentSessions_steady resentSessions_worksOn rfl [] hresent
  exact ⟨_, last, rfl, rfl, hlast, hdisk⟩

end Failing

end DistributedFileServer
