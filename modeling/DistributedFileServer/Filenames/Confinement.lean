import DistributedFileServer.Failures.ServeSpecs
import DistributedFileServer.Model.Locate

/-!
# Which files a server opens

Filenames are never checked.  Every file the server opens, for a read or for a
global commit, is where the filename of some request leads; whether it lies
strictly inside the shared directory is decided by that filename alone.
-/

namespace DistributedFileServer

open Programs Paths DaoCalls

variable {κ : Type} [DecidableEq κ]

/-- The rows of the writes and the opened files stem from these filenames. -/
structure Named (system : System κ) (names : Str → Prop) (log : OperationTable)
    (files : Files κ) : Prop where
  rows : ∀ o ∈ log.rows, o.name = .write →
    ∃ filename, names filename ∧ o.filename = cString filename
  opened : ∀ entry ∈ files.opened, ∃ filename, names filename ∧ entry.2 = system.locate filename

section Opened

variable {system : System κ} {names : Str → Prop}

/-- Logging a row that is no write, or a write of a named file. -/
theorem rows_insertOperation {log : OperationTable} {name : OperationName}
    {transactionId filename fileContent : Str} (hwrite : name = .write → names filename)
    (hrows : ∀ o ∈ log.rows, o.name = .write →
      ∃ filename, names filename ∧ o.filename = cString filename) :
    ∀ o ∈ (Dao.insertOperation log name transactionId filename fileContent).rows,
      o.name = .write → ∃ filename, names filename ∧ o.filename = cString filename := by
  intro o ho hname
  rcases List.mem_append.mp ho with ho | ho
  · exact hrows o ho hname
  · obtain rfl := List.mem_singleton.mp ho
    exact ⟨filename, hwrite hname, rfl⟩

/-- The commit loop opens the files of the pending writes. -/
theorem opened_foldl_write (locate : Str → κ) (writes : List (Str × Str)) (files : Files κ) :
    ∀ entry ∈ (writes.foldl
        (fun files write => files.write (locate write.1) write.2) files).opened,
      entry ∈ files.opened ∨ ∃ write ∈ writes, entry.2 = locate write.1 := by
  induction writes generalizing files with
  | nil => exact fun _ h => Or.inl h
  | cons write writes ih =>
      intro entry hentry
      rcases ih _ entry hentry with hbefore | ⟨later, hlater, heq⟩
      · rcases List.mem_append.mp hbefore with hbefore | hnew
        · exact Or.inl hbefore
        · obtain rfl := List.mem_singleton.mp hnew
          exact Or.inr ⟨write, List.mem_cons_self, rfl⟩
      · exact Or.inr ⟨later, List.mem_cons_of_mem _ hlater, heq⟩

/-- What is found by a request opens only files that are named. -/
theorem Named.handleRequest {s next : Stores κ} {request : Request} {reply : Ptree}
    (h : Named system names s.log s.files)
    (hnames : ∀ filename, request.filename? = some filename → names filename)
    (hnext : s.handleRequest system request = some (reply, next)) :
    Named system names next.log next.files := by
  refine ⟨?_, ?_⟩
  · rcases Stores.log_handleRequest hnext with hlog | ⟨name, filename, fileContent, hlog, hwrite⟩
    · rw [hlog]
      exact h.rows
    · rw [hlog]
      refine rows_insertOperation (fun hname => hnames filename ?_) h.rows
      rw [hwrite hname]
      rfl
  · rcases Stores.files_handleRequest hnext with hfiles | ⟨transactionId, filename, hread, hfiles⟩ |
      ⟨transactionId, -, hfiles⟩
    · rw [hfiles]
      exact h.opened
    · rw [hfiles]
      intro entry hentry
      unfold Files.openInput at hentry
      split at hentry
      · exact h.opened entry hentry
      · rcases List.mem_append.mp hentry with hbefore | hnew
        · exact h.opened entry hbefore
        · obtain rfl := List.mem_singleton.mp hnew
          exact ⟨filename, hnames filename (by rw [hread]; rfl), rfl⟩
    · rw [hfiles]
      intro entry hentry
      rcases opened_foldl_write system.locate _ s.files entry hentry with
        hbefore | ⟨write, hwrite, heq⟩
      · exact h.opened entry hbefore
      · obtain ⟨o, ho, hname, rfl⟩ := mem_getPendingWrites hwrite
        obtain ⟨filename, hnamed, hfilename⟩ := h.rows o ho hname
        refine ⟨filename, hnamed, ?_⟩
        rw [heq, hfilename, system.locate_cString]

/-- A request keeps this, also when it ends with an exception. -/
theorem Named.exec {world after : World κ} {request : Request} {result : Except Failure Ptree}
    (h : Named system names world.database.table world.files)
    (hnames : ∀ filename, request.filename? = some filename → names filename)
    (hexec : exec (Serve.handleRequest system request) world = (result, after)) :
    Named system names after.database.table after.files := by
  obtain ⟨hrows, hopened⟩ := exec_keeps
    (P := fun log => ∀ o ∈ log.rows, o.name = .write →
      ∃ filename, names filename ∧ o.filename = cString filename)
    (Q := fun files => ∀ entry ∈ files.opened,
      ∃ filename, names filename ∧ entry.2 = system.locate filename)
    (fun reply next hnext =>
      have hkept := Named.handleRequest h hnames hnext
      ⟨hkept.rows, hkept.opened⟩)
    h.rows h.opened hexec
  exact ⟨hrows, hopened⟩

theorem Named.run {world : World κ} {requests : List Request}
    (h : Named system names world.database.table world.files)
    (hnames : ∀ request ∈ requests, ∀ filename, request.filename? = some filename →
      names filename) :
    Named system names (Serve.run system world requests).2.database.table
      (Serve.run system world requests).2.files := by
  induction requests generalizing world with
  | nil => exact h
  | cons request requests ih =>
      have hrequest := hnames request List.mem_cons_self
      have hrest := fun later hlater => hnames later (List.mem_cons_of_mem _ hlater)
      unfold Serve.run
      split
      · next after hexec => exact h.exec hrequest hexec
      · next result after _ hexec => exact ih (h.exec hrequest hexec) hrest

end Opened

/-- A filename without a `..` segment only leads down. -/
theorem staysInside_of_no_dotdot (directory : List Str) {filename : Str}
    (hdotdot : text ".." ∉ filename.splitOnP isSeparator) (hne : steps filename ≠ []) :
    StaysInside directory (steps filename) := by
  apply staysInside_of_no_up directory _ hne
  intro hup
  obtain ⟨segment, hsegment, hstep⟩ := List.mem_filterMap.mp hup
  unfold step? at hstep
  split_ifs at hstep with _ hsame
  · exact hdotdot (hsame ▸ hsegment)
  · cases hstep

/-- **What the server opens.**  In every run, whatever SQLite calls and streams
fail, every file that is opened is where the filename of a read or a write leads,
and it lies strictly inside the shared directory exactly if this filename stays
inside, as one without `..` does that leads anywhere.  If all filenames stay inside, so
do all opened files, and none of them is a neighbour of the shared directory. -/
theorem run_opened_strictlyInside_iff {cfg : Config} {directory : Str}
    {fromString : Str → Option Ptree} {world final : World (List Str)}
    {requests : List Request} {outcomes : List Serve.Outcome}
    (hlog : world.database.table = Dao.initDatabase) (hopened : world.files.opened = [])
    (hrun : Serve.run (.rooted cfg directory fromString) world requests = (outcomes, final)) :
    (∀ entry ∈ final.files.opened, ∃ request ∈ requests, ∃ filename,
      request.filename? = some filename ∧
      entry.2 = resolve (appendPath directory (cString filename)) ∧
      (StrictlyInside (resolve directory) entry.2 ↔
        StaysInside (resolve directory) (steps (cString filename))) ∧
      (text ".." ∉ (cString filename).splitOnP isSeparator → steps (cString filename) ≠ [] →
        StrictlyInside (resolve directory) entry.2)) ∧
    ((∀ request ∈ requests, ∀ filename, request.filename? = some filename →
        StaysInside (resolve directory) (steps (cString filename))) →
      ∀ entry ∈ final.files.opened, StrictlyInside (resolve directory) entry.2 ∧
        ∀ parent name other, resolve directory = parent ++ [name] →
          entry.2 ≠ parent ++ [other]) := by
  have hstart : Named (.rooted cfg directory fromString)
      (fun filename => ∃ request ∈ requests, request.filename? = some filename)
      world.database.table world.files := by
    refine ⟨?_, ?_⟩
    · rw [hlog]
      nofun
    · rw [hopened]
      nofun
  have hfinal := hstart.run fun request hrequest filename hfilename =>
    ⟨request, hrequest, hfilename⟩
  rw [hrun] at hfinal
  have hlocated : ∀ entry ∈ final.files.opened, ∃ request ∈ requests, ∃ filename,
      request.filename? = some filename ∧
      entry.2 = resolve (appendPath directory (cString filename)) ∧
      (StrictlyInside (resolve directory) entry.2 ↔
        StaysInside (resolve directory) (steps (cString filename))) := by
    intro entry hentry
    obtain ⟨filename, ⟨request, hrequest, hfilename⟩, hplace⟩ := hfinal.opened entry hentry
    refine ⟨request, hrequest, filename, hfilename, hplace, ?_⟩
    rw [hplace, locate_rooted]
    exact strictlyInside_walk_iff _ _
  refine ⟨?_, ?_⟩
  · intro entry hentry
    obtain ⟨request, hrequest, filename, hfilename, hplace, hiff⟩ := hlocated entry hentry
    exact ⟨request, hrequest, filename, hfilename, hplace, hiff,
      fun hdotdot hne => hiff.mpr (staysInside_of_no_dotdot _ hdotdot hne)⟩
  intro hinside entry hentry
  obtain ⟨request, hrequest, filename, hfilename, -, hiff⟩ := hlocated entry hentry
  have hstrictly := hiff.mpr (hinside request hrequest filename hfilename)
  refine ⟨hstrictly, ?_⟩
  rintro parent name other hdirectory hneighbour
  rw [hdirectory, hneighbour] at hstrictly
  exact not_strictlyInside_neighbour parent name other hstrictly

/-- The log of a server lies next to its shared directory `dir`. -/
def logBesideDirectory : World (List Str) where
  database :=
    { table := Dao.initDatabase, succeeds := fun _ => true, connections := 0, calls := [] }
  files :=
    { disk := Function.update (fun _ => none) (resolve (text "instance1/log.sqlite"))
        (some (text "SQLite format 3"))
      outcome := fun _ => .complete
      opened := [] }
  console := []

/-- One request reads the log, two others overwrite the configuration. -/
theorem run_leaves_directory :
    ∃ outcomes final,
      Serve.run (.rooted ⟨true⟩ (text "instance1/dir") fun _ => none) logBesideDirectory
        [.read (text "T") (text "../log.sqlite"),
          .write (text "T") (text "..\\config.txt") (text "x"), .globalCommit (text "T")] =
        (outcomes, final) ∧
      final.files.opened = [(.input, resolve (text "instance1/log.sqlite")),
        (.output, resolve (text "instance1/config.txt"))] ∧
      ¬ StrictlyInside (resolve (text "instance1/dir")) (resolve (text "instance1/log.sqlite")) ∧
      ¬ StrictlyInside (resolve (text "instance1/dir"))
        (resolve (text "instance1/config.txt")) := by
  exact ⟨_, _, rfl, by decide, by decide, by decide⟩

/-- A subdirectory is left and entered again. -/
theorem run_opened_strictlyInside_iff_detour :
    ∃ outcomes final,
      Serve.run (.rooted ⟨true⟩ (text "instance1/dir") fun _ => none) logBesideDirectory
        [.write (text "T") (text "a/../../dir/./b.txt") (text "x"), .globalCommit (text "T")] =
        (outcomes, final) ∧
      ∀ entry ∈ final.files.opened, StrictlyInside (resolve (text "instance1/dir")) entry.2 := by
  obtain ⟨outcomes, final, hrun⟩ : ∃ outcomes final,
      Serve.run (.rooted ⟨true⟩ (text "instance1/dir") fun _ => none) logBesideDirectory
        [.write (text "T") (text "a/../../dir/./b.txt") (text "x"), .globalCommit (text "T")] =
        (outcomes, final) := ⟨_, _, (Prod.eta _).symm⟩
  have hinside := (run_opened_strictlyInside_iff rfl rfl hrun).2
  refine ⟨outcomes, final, hrun, fun entry hentry => (hinside ?_ entry hentry).1⟩
  decide

end DistributedFileServer
