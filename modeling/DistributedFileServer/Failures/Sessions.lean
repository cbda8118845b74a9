import DistributedFileServer.Failures.InDoubt
import DistributedFileServer.Model.Startup
import DistributedFileServer.Wire.Connections

/-!
# Sessions

The server may be stopped and started again.  A session that does not get to its accept
loop changes nothing; the others go on with the log and the files as they were left.
Without failures, sessions on one log and one directory are one server.
-/

namespace DistributedFileServer

open Programs Startup

/-! ## The configuration -/

theorem except_bind_eq_ok_iff {ε α β : Type} {first : Except ε α} {second : α → Except ε β}
    {value : β} :
    (first >>= second) = .ok value ↔ ∃ middle, first = .ok middle ∧ second middle = .ok value := by
  cases first with
  | error exception => simp [bind, Except.bind]
  | ok middle => simp [bind, Except.bind]

theorem get_eq_ok_iff {α : Type} {convert : Str → Option α} {path : Str} {node : Option Str}
    {value : α} : Startup.get convert path node = .ok value ↔ node.bind convert = some value := by
  unfold Startup.get
  cases node with
  | none => simp
  | some data => cases hvalue : convert data <;> simp [hvalue]

theorem checkPath_eq_ok_iff {surroundings : Surroundings} {path absent wrong : Str}
    {kind : PathStatus} (hkind : kind ≠ .missing) :
    checkPath surroundings path kind absent wrong = .ok () ↔
      surroundings.status path = some kind := by
  unfold checkPath statusOf
  cases surroundings.status path with
  | none => simp [bind, Except.bind]
  | some status =>
      by_cases hmissing : status = .missing
      · simp [bind, Except.bind, hmissing, hkind.symm]
      · by_cases hsame : status = kind
        · simp [bind, Except.bind, hsame, hkind, pure, Except.pure]
        · simp [bind, Except.bind, hmissing, hsame]

theorem check_eq_ok_iff {surroundings : Surroundings} {configuration : Configuration} :
    check surroundings configuration = .ok () ↔
      surroundings.status configuration.logFileFullPath = some .regularFile ∧
      surroundings.status configuration.sharedDirectoryFullPath = some .directory := by
  unfold check
  dsimp only
  rw [except_bind_eq_ok_iff]
  constructor
  · rintro ⟨⟨⟩, hlog, hdirectory⟩
    exact ⟨(checkPath_eq_ok_iff (by decide)).mp hlog,
      (checkPath_eq_ok_iff (by decide)).mp hdirectory⟩
  · rintro ⟨hlog, hdirectory⟩
    exact ⟨(), (checkPath_eq_ok_iff (by decide)).mpr hlog,
      (checkPath_eq_ok_iff (by decide)).mpr hdirectory⟩

/-- **The configuration.**  It is accepted exactly if all four nodes are there and can be
converted, the log is a regular file and the shared directory a directory. -/
theorem config_eq_ok_iff {surroundings : Surroundings} {path : Str}
    {configuration : Configuration} :
    config surroundings path = .ok configuration ↔
      (∃ tree, surroundings.readJson path = some tree ∧
        tree.autoMode.bind surroundings.getBool = some configuration.autoMode ∧
        tree.port.bind surroundings.getInt = some configuration.port ∧
        tree.logFileFullPath = some configuration.logFileFullPath ∧
        tree.sharedDirectoryFullPath = some configuration.sharedDirectoryFullPath) ∧
      surroundings.status configuration.logFileFullPath = some .regularFile ∧
      surroundings.status configuration.sharedDirectoryFullPath = some .directory := by
  rw [← check_eq_ok_iff]
  unfold config
  cases surroundings.readJson path with
  | none => simp
  | some tree =>
      simp only [except_bind_eq_ok_iff, get_eq_ok_iff, Option.bind_fun_some]
      constructor
      · rintro ⟨autoMode, hautoMode, port, hport, log, hlog, directory, hdirectory, ⟨⟩, hcheck,
          hvalue⟩
        obtain rfl := Except.ok.inj hvalue
        exact ⟨⟨tree, rfl, hautoMode, hport, hlog, hdirectory⟩, hcheck⟩
      · rintro ⟨⟨tree', htree, hautoMode, hport, hlog, hdirectory⟩, hcheck⟩
        obtain rfl := Option.some.inj htree
        exact ⟨_, hautoMode, _, hport, _, hlog, _, hdirectory, (), hcheck, rfl⟩

/-! ## One session -/

theorem exec_runQuery (database : Database) (hcalls : database.calls = []) :
    ∃ result after, exec DaoCalls.runQuery database = (result, after) ∧
      after.table = database.table ∧ after.succeeds = database.succeeds ∧
      (result = .ok () ↔ database.succeeds 0 = true ∧ database.succeeds 1 = true ∧
        database.succeeds 2 = true) := by
  unfold DaoCalls.runQuery DaoCalls.openDatabase DaoCalls.closeDatabase DaoCalls.check
    DaoCalls.invoke
  cases hopen : database.succeeds 0 <;> cases hexec : database.succeeds 1 <;>
    cases hclose : database.succeeds 2 <;>
    simp [exec_bind, Database.record, hcalls, hopen, hexec, hclose]

/-- The configuration that a session reads, if it accepts it. -/
def Session.configuration (session : Session) : Option Configuration :=
  match session.arguments with
  | [_, configFileFullPath] => (config session.surroundings configFileFullPath).toOption
  | _ => none

/-- The configuration with which a session gets to its accept loop. -/
def Session.listening (session : Session) : Option Configuration :=
  session.configuration.filter fun configuration =>
    session.succeeds 0 && session.succeeds 1 && session.succeeds 2 &&
      session.canListen (portNumber configuration.port)

/-- The code of a session that does not get to its accept loop. -/
def Session.exitCode (session : Session) : Nat :=
  if session.arguments.length = 2 then 0 else 1

section Main

variable {κ : Type} [DecidableEq κ] {host : Host κ} {toString : Ptree → Str}
  {session : Session}

/-- A table that is the one found, or the new one, changes nothing. -/
theorem createTable_logs_setLog {machine : Machine κ} {logFile : κ} {table : OperationTable}
    (htable : table = createTable (machine.logs logFile)) (file : κ) :
    createTable ((setLog machine logFile table).logs file) = createTable (machine.logs file) := by
  by_cases hfile : file = logFile
  · rw [hfile, logs_setLog_self, htable]
    rfl
  · rw [logs_setLog_of_ne hfile]

theorem listening_eq_some_iff {configuration : Configuration} :
    session.listening = some configuration ↔
      session.configuration = some configuration ∧
        (session.succeeds 0 = true ∧ session.succeeds 1 = true ∧ session.succeeds 2 = true) ∧
          session.canListen (portNumber configuration.port) = true := by
  rw [Session.listening, Option.filter_eq_some_iff]
  simp [and_assoc]

theorem configuration_eq_some_iff {configuration : Configuration} :
    session.configuration = some configuration ↔
      ∃ program path, session.arguments = [program, path] ∧
        config session.surroundings path = .ok configuration := by
  unfold Session.configuration
  split
  · next program path harguments =>
      constructor
      · intro h
        cases hconfig : config session.surroundings path with
        | error exception => simp [hconfig, Except.toOption] at h
        | ok accepted =>
            obtain rfl : accepted = configuration := by
              simpa [hconfig, Except.toOption] using h
            exact ⟨program, path, harguments, hconfig⟩
      · rintro ⟨program', path', hsame, hconfig⟩
        rw [harguments] at hsame
        obtain ⟨rfl, rfl⟩ : program = program' ∧ path = path' := by simpa using hsame
        simp [hconfig, Except.toOption]
  · next hother =>
      constructor
      · intro h
        cases h
      · rintro ⟨program, path, harguments, -⟩
        exact absurd harguments (hother program path)

/-- The server of a session when it starts to listen. -/
def Session.begun (host : Host κ) (session : Session) (configuration : Configuration)
    (machine : Machine κ) : World κ :=
  world session
    (exec DaoCalls.runQuery
      (database session (machine.logs (host.locateLog configuration.logFileFullPath)))).2
    machine.disk

omit [DecidableEq κ] in
theorem begun_database (host : Host κ) (session : Session) (configuration : Configuration)
    (machine : Machine κ) :
    (session.begun host configuration machine).database.table =
        createTable (machine.logs (host.locateLog configuration.logFileFullPath)) ∧
      (session.begun host configuration machine).database.succeeds = session.succeeds := by
  obtain ⟨result, after, hexec, htable, hsucceeds, -⟩ := exec_runQuery
    (database session (machine.logs (host.locateLog configuration.logFileFullPath))) rfl
  rw [Session.begun, hexec]
  exact ⟨htable, hsucceeds⟩

/-- A session that gets to its accept loop serves its streams on the log and the directory
of its configuration. -/
theorem main_of_listening {configuration : Configuration}
    (h : session.listening = some configuration) (machine : Machine κ) :
    main host toString session machine =
      (.serving (Server.runStreams (configured host configuration) toString
          (session.begun host configuration machine) session.streams).1,
        { setLog machine (host.locateLog configuration.logFileFullPath)
            (Server.runStreams (configured host configuration) toString
              (session.begun host configuration machine) session.streams).2.database.table with
          disk := (Server.runStreams (configured host configuration) toString
            (session.begun host configuration machine) session.streams).2.files.disk }) := by
  obtain ⟨hconfiguration, hcalls, hlisten⟩ := listening_eq_some_iff.mp h
  obtain ⟨program, path, harguments, hconfig⟩ := configuration_eq_some_iff.mp hconfiguration
  obtain ⟨result, after, hexec, -, -, hresult⟩ := exec_runQuery
    (database session (machine.logs (host.locateLog configuration.logFileFullPath))) rfl
  obtain rfl := hresult.mpr hcalls
  rw [main, harguments]
  dsimp only
  rw [hconfig]
  dsimp only
  rw [Session.begun, hexec]
  dsimp only
  rw [if_pos hlisten]

/-- A session that does not get to its accept loop exits. -/
theorem main_of_not_listening (h : session.listening = none) (machine : Machine κ) :
    ∃ next, main host toString session machine = (.exit session.exitCode, next) ∧
      (∀ file, createTable (next.logs file) = createTable (machine.logs file)) ∧
      next.disk = machine.disk := by
  unfold main Session.exitCode
  split
  · next program path harguments =>
      rw [harguments]
      cases hconfig : config session.surroundings path with
      | error exception => exact ⟨machine, rfl, fun _ => rfl, rfl⟩
      | ok configuration =>
          obtain ⟨result, after, hexec, htable, -, hresult⟩ := exec_runQuery
            (database session (machine.logs (host.locateLog configuration.logFileFullPath))) rfl
          have hcreated := createTable_logs_setLog htable
          dsimp only
          rw [hexec]
          cases result with
          | error exception =>
              -- the query may have been executed all the same
              dsimp only
              split
              · exact ⟨_, rfl, hcreated, rfl⟩
              · exact ⟨_, rfl, fun _ => rfl, rfl⟩
          | ok value =>
              have hdeaf : ¬ session.canListen (portNumber configuration.port) = true := by
                intro hlisten
                have hconfiguration := configuration_eq_some_iff.mpr
                  ⟨program, path, harguments, hconfig⟩
                have hcalls := hresult.mp rfl
                rw [listening_eq_some_iff.mpr ⟨hconfiguration, hcalls, hlisten⟩] at h
                cases h
              dsimp only
              rw [if_neg hdeaf]
              exact ⟨_, rfl, hcreated, rfl⟩
  · next hother =>
      have hlength : session.arguments.length ≠ 2 := by
        intro hlength
        obtain ⟨program, path, harguments⟩ := List.length_eq_two.mp hlength
        exact hother program path harguments
      exact ⟨machine, by rw [if_neg hlength], fun _ => rfl, rfl⟩

/-- **Starting.**  The server gets to its accept loop exactly if it is given one argument,
the configuration is complete and accepted, the table of the log can be created and the
port can be listened on.  Otherwise it exits, with a success unless the number of arguments
is wrong, and the logs and the files are as they were. -/
theorem main_serves_iff (host : Host κ) (toString : Ptree → Str) (session : Session)
    (machine : Machine κ) :
    ((∃ responses next, main host toString session machine = (.serving responses, next)) ↔
      ∃ program path, ∃ tree : ConfigTree, ∃ configuration : Configuration,
        session.arguments = [program, path] ∧
        session.surroundings.readJson path = some tree ∧
        tree.autoMode.bind session.surroundings.getBool = some configuration.autoMode ∧
        tree.port.bind session.surroundings.getInt = some configuration.port ∧
        tree.logFileFullPath = some configuration.logFileFullPath ∧
        tree.sharedDirectoryFullPath = some configuration.sharedDirectoryFullPath ∧
        session.surroundings.status configuration.logFileFullPath = some .regularFile ∧
        session.surroundings.status configuration.sharedDirectoryFullPath = some .directory ∧
        (∀ n < 3, session.succeeds n = true) ∧
        session.canListen (portNumber configuration.port) = true) ∧
    ∀ code next, main host toString session machine = (.exit code, next) →
      code = (if session.arguments.length = 2 then 0 else 1) ∧
        (∀ file, createTable (next.logs file) = createTable (machine.logs file)) ∧
        next.disk = machine.disk := by
  have hcalls : (∀ n < 3, session.succeeds n = true) ↔
      session.succeeds 0 = true ∧ session.succeeds 1 = true ∧ session.succeeds 2 = true := by
    simp only [Nat.forall_lt_succ_right, Nat.not_lt_zero, false_imp_iff, implies_true, true_and,
      and_assoc]
  rw [hcalls]
  cases hlistening : session.listening with
  | none =>
      -- the conditions together would let it listen
      obtain ⟨exited, hmain, hlog, hdisk⟩ :=
        @main_of_not_listening κ _ host toString session hlistening machine
      rw [hmain]
      constructor
      · constructor
        · rintro ⟨responses, next, hserving⟩
          cases congrArg Prod.fst hserving
        · rintro ⟨program, path, tree, configuration, harguments, htree, hautoMode, hport, hfile,
            hdirectory, hregular, hshared, hsucceed, hlisten⟩
          have hconfig := config_eq_ok_iff.mpr
            ⟨⟨tree, htree, hautoMode, hport, hfile, hdirectory⟩, hregular, hshared⟩
          have hconfiguration := configuration_eq_some_iff.mpr
            ⟨program, path, harguments, hconfig⟩
          rw [listening_eq_some_iff.mpr ⟨hconfiguration, hsucceed, hlisten⟩] at hlistening
          cases hlistening
      · intro code next hexit
        obtain ⟨hcode, rfl⟩ := Prod.mk.inj hexit
        exact ⟨(Ending.exit.inj hcode).symm, hlog, hdisk⟩
  | some configuration =>
      rw [main_of_listening hlistening]
      obtain ⟨hconfiguration, hsucceed, hlisten⟩ := listening_eq_some_iff.mp hlistening
      obtain ⟨program, path, harguments, hconfig⟩ := configuration_eq_some_iff.mp hconfiguration
      obtain ⟨⟨tree, htree, hautoMode, hport, hfile, hdirectory⟩, hregular, hshared⟩ :=
        config_eq_ok_iff.mp hconfig
      constructor
      · exact ⟨fun _ => ⟨program, path, tree, configuration, harguments, htree, hautoMode, hport,
          hfile, hdirectory, hregular, hshared, hsucceed, hlisten⟩, fun _ => ⟨_, _, rfl⟩⟩
      · intro code next hexit
        cases congrArg Prod.fst hexit

/-! ## Starts that fail -/

/-- Two machines on which every server finds the same. -/
structure Machine.Same (machine machine' : Machine κ) : Prop where
  logs : ∀ file, createTable (machine.logs file) = createTable (machine'.logs file)
  disk : machine.disk = machine'.disk

omit [DecidableEq κ] in
theorem Machine.Same.refl (machine : Machine κ) : machine.Same machine :=
  ⟨fun _ => rfl, rfl⟩

/-- A session that gets to its accept loop, on two such machines. -/
theorem Machine.Same.main {machine machine' : Machine κ} (h : machine.Same machine')
    {configuration : Configuration} (hlistening : session.listening = some configuration) :
    (main host toString session machine).1 = (main host toString session machine').1 ∧
      (main host toString session machine).2.Same (main host toString session machine').2 := by
  have hbegun : session.begun host configuration machine =
      session.begun host configuration machine' := by
    rw [Session.begun, database, h.logs, h.disk, ← database, ← Session.begun]
  rw [main_of_listening hlistening, main_of_listening hlistening, hbegun]
  refine ⟨rfl, fun file => ?_, rfl⟩
  by_cases hfile : file = host.locateLog configuration.logFileFullPath
  · rw [hfile]
    exact congrArg createTable ((logs_setLog_self ..).trans (logs_setLog_self ..).symm)
  · -- the other logs are what they were
    have hsame := h.logs file
    rw [← logs_setLog_of_ne hfile machine, ← logs_setLog_of_ne hfile machine'] at hsame
    exact hsame

/-- The sessions that get to their accept loop. -/
def listeningSessions (sessions : List Session) : List Session :=
  sessions.filter fun session => session.listening.isSome

theorem listeningSessions_cons_of_none {rest : List Session} (h : session.listening = none) :
    listeningSessions (session :: rest) = listeningSessions rest :=
  List.filter_cons_of_neg (by simp [h])

theorem listeningSessions_cons_of_some {rest : List Session} {configuration : Configuration}
    (h : session.listening = some configuration) :
    listeningSessions (session :: rest) = session :: listeningSessions rest :=
  List.filter_cons_of_pos (by simp [h])

/-- The run lemma, by induction on the sessions. -/
theorem Machine.Same.sessions {machine machine' : Machine κ} (h : machine.Same machine')
    (sessions : List Session) :
    (sessions.zip (Startup.sessions host toString sessions machine).1).filter
        (fun ended => ended.1.listening.isSome) =
      (listeningSessions sessions).zip
        (Startup.sessions host toString (listeningSessions sessions) machine').1 ∧
    (Startup.sessions host toString sessions machine).2.Same
      (Startup.sessions host toString (listeningSessions sessions) machine').2 := by
  induction sessions generalizing machine machine' with
  | nil => exact ⟨rfl, h⟩
  | cons session rest ih =>
      cases hlistening : session.listening with
      | none =>
          obtain ⟨next, hmain, hlogs, hdisk⟩ :=
            @main_of_not_listening κ _ host toString session hlistening machine
          have hnext : next.Same machine' :=
            ⟨fun file => (hlogs file).trans (h.logs file), hdisk.trans h.disk⟩
          rw [listeningSessions_cons_of_none hlistening]
          simp only [Startup.sessions, hmain, List.zip_cons_cons]
          rw [List.filter_cons_of_neg (by simp [hlistening])]
          exact ih hnext
      | some configuration =>
          obtain ⟨hending, hnext⟩ :=
            @Machine.Same.main κ _ host toString session machine machine' h configuration
              hlistening
          obtain ⟨hrest, hlast⟩ := ih hnext
          rw [listeningSessions_cons_of_some hlistening]
          simp only [Startup.sessions, List.zip_cons_cons]
          rw [List.filter_cons_of_pos (by simp [hlistening]), hending, hrest]
          exact ⟨rfl, hlast⟩

/-- **Starts that fail leave no trace.**  Whichever calls fail, the sessions that do not get
to their accept loop exit, and without them the others end in the same way, on a machine
with the same logs and files. -/
theorem sessions_without_exits (host : Host κ) (toString : Ptree → Str)
    (sessions : List Session) (machine : Machine κ) :
    (∀ ended ∈ sessions.zip (Startup.sessions host toString sessions machine).1,
      ended.1.listening = none ↔ ∃ code, ended.2 = .exit code) ∧
    (sessions.zip (Startup.sessions host toString sessions machine).1).filter
        (fun ended => ended.1.listening.isSome) =
      (listeningSessions sessions).zip
        (Startup.sessions host toString (listeningSessions sessions) machine).1 ∧
    (∀ file, createTable ((Startup.sessions host toString sessions machine).2.logs file) =
      createTable
        ((Startup.sessions host toString (listeningSessions sessions) machine).2.logs file)) ∧
    (Startup.sessions host toString sessions machine).2.disk =
      (Startup.sessions host toString (listeningSessions sessions) machine).2.disk := by
  obtain ⟨hendings, hfinal⟩ :=
    @Machine.Same.sessions κ _ host toString machine machine (.refl machine) sessions
  refine ⟨?_, hendings, hfinal.logs, hfinal.disk⟩
  clear hendings hfinal
  induction sessions generalizing machine with
  | nil => exact fun ended hended => nomatch hended
  | cons session rest ih =>
      simp only [Startup.sessions, List.zip_cons_cons]
      refine List.forall_mem_cons.mpr ⟨?_, ih _⟩
      cases hlistening : session.listening with
      | none =>
          obtain ⟨next, hmain, -⟩ :=
            @main_of_not_listening κ _ host toString session hlistening machine
          simp [hmain]
      | some configuration =>
          simp [main_of_listening hlistening]

end Main

/-! ## Without failures: restarts cannot be told -/

/-- The streams of the session take everything, and its server votes by the log. -/
structure Session.Steady (session : Session) : Prop where
  outcome : session.outcome = fun _ => .complete
  autoMode : ∀ configuration, session.configuration = some configuration →
    configuration.autoMode = true

/-- Nothing fails in the session. -/
structure Session.Reliable (session : Session) : Prop extends Session.Steady session where
  succeeds : session.succeeds = fun _ => true

/-- If the session gets to its accept loop, it works on this log and this directory, however
its configuration spells their paths. -/
structure Session.WorksOn {κ : Type} (host : Host κ)
    (logFileFullPath sharedDirectoryFullPath : Str) (session : Session) : Prop where
  log : ∀ configuration, session.listening = some configuration →
    host.locateLog configuration.logFileFullPath = host.locateLog logFileFullPath
  directory : ∀ configuration, session.listening = some configuration →
    host.locate configuration.sharedDirectoryFullPath = host.locate sharedDirectoryFullPath

/-- Two servers with the same log and the same files, whose streams take everything. -/
structure Stores.Alike {κ : Type} (s s' : Stores κ) : Prop where
  log : s.log = s'.log
  disk : s.files.disk = s'.files.disk
  sound : s.files.Sound
  sound' : s'.files.Sound

section Restarts

variable {κ : Type}

theorem Stores.Alike.insert {s s' : Stores κ} (h : s.Alike s') (name : OperationName)
    (transactionId filename fileContent : Str) :
    (s.insert name transactionId filename fileContent).Alike
      (s'.insert name transactionId filename fileContent) where
  log := congrArg (Dao.insertOperation · name transactionId filename fileContent) h.log
  disk := h.disk
  sound := h.sound
  sound' := h.sound'

variable [DecidableEq κ] {system : System κ} {toString : Ptree → Str}

omit [DecidableEq κ] in
theorem Stores.Alike.getFileContent {s s' : Stores κ} (h : s.Alike s')
    (transactionId filename : Str) :
    (s.getFileContent system transactionId filename).1 =
        (s'.getFileContent system transactionId filename).1 ∧
      ({ s with files := (s.getFileContent system transactionId filename).2 } : Stores κ).Alike
        { s' with files := (s'.getFileContent system transactionId filename).2 } := by
  have hlast : Dao.lastFileContentFromThisTransaction s'.log transactionId filename =
      Dao.lastFileContentFromThisTransaction s.log transactionId filename := by
    rw [h.log]
  unfold Stores.getFileContent
  rw [hlast]
  cases Dao.lastFileContentFromThisTransaction s.log transactionId filename with
  | ok fileContent => exact ⟨rfl, h⟩
  | error exception =>
      constructor
      · show s.files.contentOf _ = s'.files.contentOf _
        rw [Files.contentOf, Files.contentOf, h.disk]
      · refine ⟨h.log, ?_, sound_openInput h.sound _, sound_openInput h.sound' _⟩
        simp only [Files.disk_openInput, h.disk]

/-- **One request.**  In auto mode two such servers give the same reply and stay alike. -/
theorem Stores.Alike.handleRequest (hauto : system.cfg.autoMode = true) {s s' : Stores κ}
    (h : s.Alike s') (request : Request) :
    ∃ reply next next', s.handleRequest system request = some (reply, next) ∧
      s'.handleRequest system request = some (reply, next') ∧ next.Alike next' := by
  cases request with
  | read transactionId filename =>
      obtain ⟨hcontent, hfiles⟩ :=
        @Stores.Alike.getFileContent κ system s s' h transactionId filename
      simp only [Stores.handleRequest, ← hcontent]
      exact ⟨_, _, _, rfl, rfl, hfiles.insert .read transactionId filename
        (s.getFileContent system transactionId filename).1⟩
  | write transactionId filename data =>
      exact ⟨_, _, _, rfl, rfl, h.insert .write transactionId filename data⟩
  | prepare transactionId =>
      simp only [Stores.handleRequest, Stores.canCommitTransaction, if_pos hauto, ← h.log]
      have hconsoles : ({ s with console := s.console } : Stores κ).Alike
          { s' with log := s.log, console := s'.console } :=
        ⟨rfl, h.disk, h.sound, h.sound'⟩
      cases Controller.canAutoCommitTransaction s.log transactionId with
      | true => exact ⟨_, _, _, rfl, rfl, hconsoles.insert .voteCommit transactionId [] []⟩
      | false => exact ⟨_, _, _, rfl, rfl, hconsoles.insert .voteAbort transactionId [] []⟩
  | globalCommit transactionId =>
      have hdisk : (s.commitPendingWrites system transactionId).disk =
          (s'.commitPendingWrites system transactionId).disk := by
        unfold Stores.commitPendingWrites
        rw [disk_foldl_write h.sound, disk_foldl_write h.sound', h.disk, h.log]
      have hfiles : ({ s with files := s.commitPendingWrites system transactionId } :
          Stores κ).Alike { s' with files := s'.commitPendingWrites system transactionId } :=
        ⟨h.log, hdisk, sound_foldl_write h.sound _ _, sound_foldl_write h.sound' _ _⟩
      exact ⟨_, _, _, rfl, rfl, hfiles.insert .globalCommit transactionId [] []⟩
  | globalAbort transactionId =>
      exact ⟨_, _, _, rfl, rfl, h.insert .globalAbort transactionId [] []⟩
  | unsupported transactionId => exact ⟨_, _, _, rfl, rfl, h⟩

/-- Both servers have all their SQLite calls succeed as well. -/
structure World.Alike (world world' : World κ) : Prop where
  stores : world.stores.Alike world'.stores
  succeeds : world.database.succeeds = fun _ => true
  succeeds' : world'.database.succeeds = fun _ => true

theorem World.Alike.exec (hauto : system.cfg.autoMode = true) {world world' : World κ}
    (h : world.Alike world') (request : Request) :
    ∃ reply after after',
      exec (Serve.handleRequest system request) world = (.ok reply, after) ∧
      exec (Serve.handleRequest system request) world' = (.ok reply, after') ∧
      after.Alike after' := by
  obtain ⟨reply, next, next', hnext, hnext', hstores⟩ := h.stores.handleRequest hauto request
  obtain ⟨after, hexec, rfl, hsucceeds⟩ := exec_of_succeeds h.succeeds hnext
  obtain ⟨after', hexec', rfl, hsucceeds'⟩ := exec_of_succeeds h.succeeds' hnext'
  exact ⟨reply, after, after', hexec, hexec', hstores, hsucceeds, hsucceeds'⟩

/-- **Runs.**  Both servers answer the same requests in the same way. -/
theorem World.Alike.run (hauto : system.cfg.autoMode = true) {world world' : World κ}
    (h : world.Alike world') (requests : List Request) :
    ∃ exchanges final final',
      Serve.run system world requests = (answered exchanges, final) ∧
      Serve.run system world' requests = (answered exchanges, final') ∧
      exchanges.map Prod.fst = requests ∧ final.Alike final' := by
  induction requests generalizing world world' with
  | nil => exact ⟨[], world, world', rfl, rfl, rfl, h⟩
  | cons request requests ih =>
      obtain ⟨reply, after, after', hexec, hexec', hafter⟩ := h.exec hauto request
      obtain ⟨exchanges, final, final', hrun, hrun', hrequests, hfinal⟩ := ih hafter
      refine ⟨(request, reply) :: exchanges, final, final', ?_, ?_, ?_, hfinal⟩
      · simp only [Serve.run, hexec, hrun]
        rfl
      · simp only [Serve.run, hexec', hrun']
        rfl
      · rw [List.map_cons, hrequests]

/-- A server that has answered goes on. -/
theorem serve_run_append {world middle : World κ} {front : List Request}
    {exchanges : List (Request × Ptree)}
    (hfront : Serve.run system world front = (answered exchanges, middle)) (back : List Request) :
    Serve.run system world (front ++ back) =
      (answered exchanges ++ (Serve.run system middle back).1,
        (Serve.run system middle back).2) := by
  induction exchanges generalizing world front with
  | nil =>
      obtain ⟨rfl, rfl⟩ := Serve.run_eq_nil hfront
      rfl
  | cons exchange exchanges ih =>
      obtain ⟨rest, next, rfl, hexec, hrest, -⟩ := Serve.run_eq_cons hfront
      have hgoesOn : Serve.run system next rest = (answered exchanges, middle) :=
        hrest fun hhangs => by cases hhangs
      rw [List.cons_append, Serve.run, hexec]
      dsimp only
      rw [ih hgoesOn]
      rfl

/-- The requests that a session serves. -/
def Session.requests (system : System κ) (session : Session) : List Request :=
  if session.listening.isSome then Server.decodedRequests system session.streams else []

/-- How a session ends whose requests have these outcomes. -/
def Session.ending (system : System κ) (toString : Ptree → Str) (session : Session)
    (outcomes : List Serve.Outcome) : Ending :=
  if session.listening.isSome then
    .serving (Server.distributed toString (session.streams.map (Server.decode system)) outcomes)
  else
    .exit session.exitCode

/-- A server on a log and the files of a machine, where nothing fails. -/
def Machine.started (machine : Machine κ) (logFile : κ) : World κ where
  database :=
    { table := createTable (machine.logs logFile)
      succeeds := fun _ => true
      connections := 0
      calls := [] }
  files := { disk := machine.disk, outcome := fun _ => .complete, opened := [] }
  console := []

omit [DecidableEq κ] in
/-- A session that changes no log and no file leaves the same server to be started. -/
theorem started_eq {machine next : Machine κ}
    (hlogs : ∀ file, createTable (next.logs file) = createTable (machine.logs file))
    (hdisk : next.disk = machine.disk) (logFile : κ) :
    next.started logFile = machine.started logFile := by
  rw [Machine.started, hlogs, hdisk, Machine.started]

variable {host : Host κ} {logFileFullPath sharedDirectoryFullPath : Str}

omit [DecidableEq κ] in
/-- The servers of all sessions in auto mode on one directory are the same. -/
theorem configured_eq {session : Session} {configuration : Configuration}
    (hworks : session.WorksOn host logFileFullPath sharedDirectoryFullPath)
    (hlistening : session.listening = some configuration)
    (hmode : configuration.autoMode = true) :
    configured host configuration = host.system true sharedDirectoryFullPath := by
  simp only [configured, Host.system, hmode, hworks.directory configuration hlistening]

/-- **One session.**  It serves its requests as a server that goes on would, and the next
session finds what that server would leave. -/
theorem World.Alike.main {session : Session} (hreliable : session.Reliable)
    (hworks : session.WorksOn host logFileFullPath sharedDirectoryFullPath)
    {machine : Machine κ} {world : World κ}
    (h : world.Alike (machine.started (host.locateLog logFileFullPath))) :
    ∃ exchanges final next,
      Serve.run (host.system true sharedDirectoryFullPath) world
          (session.requests (host.system true sharedDirectoryFullPath)) =
        (answered exchanges, final) ∧
      main host toString session machine =
        (session.ending (host.system true sharedDirectoryFullPath) toString (answered exchanges),
          next) ∧
      exchanges.map Prod.fst = session.requests (host.system true sharedDirectoryFullPath) ∧
      final.Alike (next.started (host.locateLog logFileFullPath)) := by
  unfold Session.requests Session.ending
  cases hlistening : session.listening with
  | none =>
      obtain ⟨next, hmain, hlogs, hdisk⟩ :=
        @main_of_not_listening κ _ host toString session hlistening machine
      -- the next session finds what this one found
      rw [← started_eq hlogs hdisk] at h
      exact ⟨[], world, next, rfl, hmain, rfl, h⟩
  | some configuration =>
      have hmain := @main_of_listening κ _ host toString session configuration hlistening machine
      obtain ⟨htable, hsucceeds⟩ := begun_database host session configuration machine
      -- its server starts on the log and the files of the machine, with counters of its own
      have hmode := hreliable.autoMode configuration (listening_eq_some_iff.mp hlistening).1
      rw [configured_eq hworks hlistening hmode, hworks.log configuration hlistening,
        Server.runStreams_eq_distributed] at hmain
      rw [hworks.log configuration hlistening] at htable
      have hbegin : world.Alike (session.begun host configuration machine) := by
        refine ⟨⟨h.stores.log.trans htable.symm, h.stores.disk, h.stores.sound, ?_⟩, h.succeeds,
          hsucceeds.trans hreliable.succeeds⟩
        intro n
        exact congrFun hreliable.outcome n
      obtain ⟨exchanges, final, final', hrun, hrun', hrequests, hfinal⟩ :=
        @World.Alike.run κ _ (host.system true sharedDirectoryFullPath) rfl _ _ hbegin
          (Server.decodedRequests (host.system true sharedDirectoryFullPath) session.streams)
      rw [hrun'] at hmain
      refine ⟨exchanges, final, _, hrun, hmain, hrequests, ⟨?_, hfinal.stores.disk,
        hfinal.stores.sound, fun _ => rfl⟩, hfinal.succeeds, rfl⟩
      exact hfinal.stores.log.trans (congrArg createTable (logs_setLog_self ..)).symm

/-- The run lemma, by induction on the sessions. -/
theorem World.Alike.sessions {sessions : List Session}
    (hreliable : ∀ session ∈ sessions, session.Reliable)
    (hworks : ∀ session ∈ sessions,
      session.WorksOn host logFileFullPath sharedDirectoryFullPath)
    {machine : Machine κ} {world : World κ}
    (h : world.Alike (machine.started (host.locateLog logFileFullPath))) :
    ∃ (chunks : List (List (Request × Ptree))) (final : World κ) (finalMachine : Machine κ),
      Serve.run (host.system true sharedDirectoryFullPath) world
          (sessions.flatMap fun session =>
            session.requests (host.system true sharedDirectoryFullPath)) =
        (answered chunks.flatten, final) ∧
      Startup.sessions host toString sessions machine =
        (List.zipWith (Session.ending (host.system true sharedDirectoryFullPath) toString)
          sessions (chunks.map answered), finalMachine) ∧
      chunks.map (List.map Prod.fst) =
        sessions.map (Session.requests (host.system true sharedDirectoryFullPath)) ∧
      final.Alike (finalMachine.started (host.locateLog logFileFullPath)) := by
  induction sessions generalizing machine world with
  | nil => exact ⟨[], world, machine, rfl, rfl, rfl, h⟩
  | cons session rest ih =>
      obtain ⟨hfirst, hrest⟩ := List.forall_mem_cons.mp hreliable
      obtain ⟨hfirstWorks, hrestWorks⟩ := List.forall_mem_cons.mp hworks
      obtain ⟨exchanges, middle, next, hrun, hmain, hrequests, hmiddle⟩ :=
        @World.Alike.main κ _ toString host _ _ session hfirst hfirstWorks machine world h
      obtain ⟨chunks, final, finalMachine, hruns, hsessions, hchunks, hfinal⟩ :=
        ih hrest hrestWorks hmiddle
      refine ⟨exchanges :: chunks, final, finalMachine, ?_, ?_, ?_, hfinal⟩
      · rw [List.flatMap_cons, serve_run_append hrun, hruns, List.flatten_cons]
        simp [answered]
      · simp only [Startup.sessions, hmain, hsessions, List.map_cons, List.zipWith_cons_cons]
      · rw [List.map_cons, List.map_cons, hrequests, hchunks]

/-- **Restarts.**  In auto mode, while nothing fails, the clients cannot tell from any
answer that the server was stopped and started again on the same log and directory: it
answers, and leaves the log and the files, as one server to which all the requests were
sent in a row. -/
theorem sessions_eq_uninterrupted (toString : Ptree → Str) {sessions : List Session}
    (hreliable : ∀ session ∈ sessions, session.Reliable)
    (hworks : ∀ session ∈ sessions,
      session.WorksOn host logFileFullPath sharedDirectoryFullPath)
    (machine : Machine κ) :
    ∃ (chunks : List (List (Request × Ptree))) (final : World κ) (finalMachine : Machine κ),
      Serve.run (host.system true sharedDirectoryFullPath)
          (machine.started (host.locateLog logFileFullPath))
          (sessions.flatMap fun session =>
            session.requests (host.system true sharedDirectoryFullPath)) =
        (answered chunks.flatten, final) ∧
      Startup.sessions host toString sessions machine =
        (List.zipWith (Session.ending (host.system true sharedDirectoryFullPath) toString)
          sessions (chunks.map answered), finalMachine) ∧
      chunks.map (List.map Prod.fst) =
        sessions.map (Session.requests (host.system true sharedDirectoryFullPath)) ∧
      createTable (finalMachine.logs (host.locateLog logFileFullPath)) = final.database.table ∧
      finalMachine.disk = final.files.disk := by
  have hbegin : (machine.started (host.locateLog logFileFullPath)).Alike
      (machine.started (host.locateLog logFileFullPath)) :=
    ⟨⟨rfl, rfl, fun _ => rfl, fun _ => rfl⟩, rfl, rfl⟩
  obtain ⟨chunks, final, finalMachine, hrun, hsessions, hchunks, hfinal⟩ :=
    @World.Alike.sessions κ _ toString host _ _ sessions hreliable hworks machine _ hbegin
  exact ⟨chunks, final, finalMachine, hrun, hsessions, hchunks, hfinal.stores.log.symm,
    hfinal.stores.disk.symm⟩

/-- A session that nothing keeps from serving. -/
def servingSession (streams : List Str) : Session where
  arguments := [text "server", text "c"]
  surroundings :=
    { readJson := fun _ => some ⟨some (text "1"), some (text "80"), some (text "l"),
        some (text "d")⟩
      getBool := fun _ => some true
      getInt := fun _ => some 80
      status := fun path => some (if path = text "l" then .regularFile else .directory) }
  succeeds := fun _ => true
  outcome := fun _ => .complete
  console := []
  canListen := fun port => port = 80
  streams := streams

theorem configuration_servingSession {streams : List Str} {configuration : Configuration}
    (h : (servingSession streams).configuration = some configuration) :
    configuration.autoMode = true ∧ configuration.logFileFullPath = text "l" ∧
      configuration.sharedDirectoryFullPath = text "d" := by
  obtain ⟨program, path, -, hconfig⟩ := configuration_eq_some_iff.mp h
  obtain ⟨⟨tree, htree, hautoMode, -, hlog, hdirectory⟩, -⟩ := config_eq_ok_iff.mp hconfig
  obtain rfl := Option.some.inj htree
  exact ⟨(Option.some.inj hautoMode).symm, (Option.some.inj hlog).symm,
    (Option.some.inj hdirectory).symm⟩

theorem servingSession_reliable (streams : List Str) : (servingSession streams).Reliable where
  outcome := rfl
  succeeds := rfl
  autoMode := fun _ hconfiguration => (configuration_servingSession hconfiguration).1

omit [DecidableEq κ] in
theorem servingSession_worksOn (host : Host κ) {session : Session} {streams : List Str}
    (h : session.configuration = (servingSession streams).configuration) :
    session.WorksOn host (text "l") (text "d") := by
  constructor
  · intro configuration hlistening
    have hconfiguration := h.symm.trans (listening_eq_some_iff.mp hlistening).1
    rw [(configuration_servingSession hconfiguration).2.1]
  · intro configuration hlistening
    have hconfiguration := h.symm.trans (listening_eq_some_iff.mp hlistening).1
    rw [(configuration_servingSession hconfiguration).2.2]

/-- Between two sessions that read a file, the server is started without an argument. -/
theorem sessions_eq_uninterrupted_read :
    ∃ (chunks : List (List (Request × Ptree))) (final : World (List Str))
        (finalMachine : Machine (List Str)),
      Serve.run (System.rooted ⟨true⟩ (text "d") Server.readSystem.fromString)
          (Machine.started ⟨fun _ => none, fun _ => none⟩ [text "l"])
          [.read (text "T") (text "f"), .read (text "T") (text "f")] =
        (answered chunks.flatten, final) ∧
      Startup.sessions (.rooted Server.readSystem.fromString) writeJson
          [servingSession [text "00051" ++ readText],
            { servingSession [] with arguments := [text "server"] },
            servingSession [text "00051" ++ readText]] ⟨fun _ => none, fun _ => none⟩ =
        (List.zipWith (Session.ending
            (System.rooted ⟨true⟩ (text "d") Server.readSystem.fromString) writeJson)
          [servingSession [text "00051" ++ readText],
            { servingSession [] with arguments := [text "server"] },
            servingSession [text "00051" ++ readText]] (chunks.map answered), finalMachine) ∧
      chunks.map (List.map Prod.fst) =
        [[.read (text "T") (text "f")], [], [.read (text "T") (text "f")]] ∧
      createTable (finalMachine.logs [text "l"]) = final.database.table ∧
      finalMachine.disk = final.files.disk := by
  rw [← system_rooted]
  refine @sessions_eq_uninterrupted (List Str) _ (.rooted Server.readSystem.fromString)
    (text "l") (text "d") writeJson
    [servingSession [text "00051" ++ readText],
      { servingSession [] with arguments := [text "server"] },
      servingSession [text "00051" ++ readText]] ?_ ?_ ⟨fun _ => none, fun _ => none⟩
  · intro session hsession
    simp only [List.mem_cons, List.not_mem_nil, or_false] at hsession
    rcases hsession with rfl | rfl | rfl
    · exact servingSession_reliable _
    · exact ⟨⟨rfl, fun configuration hconfiguration => nomatch hconfiguration⟩, rfl⟩
    · exact servingSession_reliable _
  · intro session hsession
    simp only [List.mem_cons, List.not_mem_nil, or_false] at hsession
    rcases hsession with rfl | rfl | rfl
    · exact servingSession_worksOn _ rfl
    · exact ⟨fun _ hlistening => (nomatch hlistening), fun _ hlistening => (nomatch hlistening)⟩
    · exact servingSession_worksOn _ rfl

end Restarts

end DistributedFileServer
