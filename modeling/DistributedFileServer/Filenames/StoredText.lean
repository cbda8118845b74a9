import DistributedFileServer.Filenames.Answers

/-!
# When stored text is the text that was sent

Ids, filenames and contents are bound as C strings, so a text is stored up to its
first NUL byte.  A content comes back as it was sent exactly if it holds no NUL
byte, and two ids or filenames are taken for the same exactly if they agree before
their first NUL byte.  Where this never happens to different ones, and all contents
are free of NUL bytes, the server answers like one that stores texts as they are.
-/

namespace DistributedFileServer

open DeferredUpdate Dao Controller

/-- A write of the first transaction is a pending write of the second. -/
def SameTransaction (transactionId other : Str) : Prop :=
  ∀ table filename fileContent,
    getPendingWrites (insertOperation table .write transactionId filename fileContent) other =
      getPendingWrites table other ++ [(cString filename, cString fileContent)]

/-- A write of the first file is an own write of the second. -/
def SameFile (filename other : Str) : Prop :=
  ∀ table transactionId fileContent,
    fileWasWrittenInThisTransaction
      (insertOperation table .write transactionId filename fileContent) transactionId other = true

theorem sameTransaction_iff (transactionId other : Str) :
    SameTransaction transactionId other ↔ cString transactionId = cString other := by
  constructor
  · intro hsame
    by_contra hne
    have hwrite := hsame initDatabase [] []
    rw [getPendingWrites_eq, getPendingWrites_eq, history_insertOperation,
      writesOf_concat_of_ne fun howner => absurd howner (by simpa using hne)] at hwrite
    simp at hwrite
  · intro heq table filename fileContent
    rw [getPendingWrites_eq, getPendingWrites_eq, history_insertOperation, ← heq]
    exact writesOf_concat_write _ _ _ _

theorem sameFile_iff (filename other : Str) :
    SameFile filename other ↔ cString filename = cString other := by
  have hlast : ∀ table transactionId fileContent,
      fileWasWrittenInThisTransaction
        (insertOperation table .write transactionId filename fileContent) transactionId other =
          true ↔
        cString other = cString filename ∨
          lastValue (writesOf table.history (cString transactionId)) (cString other) ≠ none := by
    intro table transactionId fileContent
    rw [fileWasWrittenInThisTransaction_iff, history_insertOperation]
    show lastValue (writesOf (_ ++ [Act.write (cString transactionId) (cString filename)
      (cString fileContent)]) (cString transactionId)) _ ≠ none ↔ _
    rw [writesOf_concat_write, lastValue_concat]
    by_cases heq : cString other = cString filename <;> simp [heq]
  constructor
  · intro hsame
    rcases (hlast initDatabase [] []).mp (hsame initDatabase [] []) with heq | hwritten
    · exact heq.symm
    · simp at hwritten
  · intro heq table transactionId fileContent
    exact (hlast table transactionId fileContent).mpr (Or.inl heq.symm)

/-- A read right after a write finds the stored content. -/
theorem read_after_write (cfg : Config) (s : ServerState)
    (transactionId filename fileContent : Str) :
    ∃ reply next reply' after,
      handleRequest cfg s (.write transactionId filename fileContent) = some (reply, next) ∧
      handleRequest cfg next (.read transactionId filename) = some (reply', after) ∧
      reply' = .ok (makeReadResponseMessage transactionId filename (cString fileContent)) := by
  refine ⟨_, _, _, _, rfl, rfl, ?_⟩
  have hlast : lastValue (writesOf (insertOperation s.log .write transactionId filename
      fileContent).history (cString transactionId)) (cString filename) =
        some (cString fileContent) := by
    rw [history_insertOperation]
    show lastValue (writesOf (_ ++ [Act.write (cString transactionId) (cString filename)
      (cString fileContent)]) (cString transactionId)) _ = _
    rw [writesOf_concat_write, lastValue_concat, if_pos rfl]
  have hwritten : fileWasWrittenInThisTransaction (insertOperation s.log .write transactionId
      filename fileContent) transactionId filename = true := by
    rw [fileWasWrittenInThisTransaction_iff, hlast]
    simp
  simp only [getFileContent, hwritten, if_true,
    lastFileContentFromThisTransaction_eq, hlast]

/-! ## Runs -/

/-- With names kept as they are, a read finds what `readValue` says. -/
theorem locatedValue_id (initial : SharedDirectory) (history : History Str Str Str)
    (transaction key : Str) :
    locatedValue id initial history transaction key =
      readValue initial history transaction key := by
  rw [locatedValue, map_map_id]
  rfl

/-- The runs of the server are those of a server that stores C strings. -/
theorem serves_of_run {cfg : Config} {initial : SharedDirectory} {s final : ServerState}
    {requests : List Request} {exchanges : List Exchange}
    (hdirectory : s.sharedDirectory = replay initial s.log.history)
    (hrun : run cfg s requests = some (exchanges, final)) :
    ∃ replies : List (Request × Ptree),
      exchanges = replies.map (fun exchange => (exchange.1, .ok exchange.2)) ∧
      Serves cfg.autoMode cString id initial s.log.history replies final.log.history := by
  induction requests generalizing s exchanges with
  | nil =>
      obtain ⟨rfl, rfl⟩ : [] = exchanges ∧ s = final := by simpa using hrun
      exact ⟨[], rfl, rfl⟩
  | cons request requests ih =>
      obtain ⟨reply, next, rest, hhandle, hrest, rfl⟩ := run_cons_eq_some_iff.mp hrun
      obtain ⟨granted, rfl, hhistory, hnext, hgranted⟩ := handleRequest_spec hdirectory hhandle
      obtain ⟨replies, rfl, hserves⟩ := ih hnext hrest
      have hreply : answer initial s.log.history granted request =
          .ok (replyTo cString id initial s.log.history granted request) := by
        cases request with
        | read transactionId filename => rw [answer, replyTo, locatedValue_id]
        | _ => rfl
      refine ⟨(request, _) :: replies, ?_, granted, hgranted, rfl, ?_⟩
      · rw [hreply]
        rfl
      · rw [← record_eq_logged, ← hhistory]
        exact hserves

/-- Nothing that tells the texts of the requests apart is lost when they are stored
as C strings. -/
structure Faithful (requests : List Request) : Prop where
  contents : ∀ transactionId filename data, .write transactionId filename data ∈ requests →
    NulFree data
  transactions : ∀ request ∈ requests, ∀ other ∈ requests,
    cString request.transactionId = cString other.transactionId →
      request.transactionId = other.transactionId
  filenames : ∀ request ∈ requests, ∀ other ∈ requests, ∀ filename name,
    request.filename? = some filename → other.filename? = some name →
      cString filename = cString name → filename = name

/-- The transactions of the requests. -/
def transactionsOf (requests : List Request) : Set Str :=
  fun transactionId => ∃ request ∈ requests, request.transactionId = transactionId

/-- The filenames of the requests. -/
def filenamesOf (requests : List Request) : Set Str :=
  fun filename => ∃ request ∈ requests, request.filename? = some filename

section Verbatim

variable {κ : Type} [DecidableEq κ] {locate locate' : Str → κ} {owners names : Set Str}

omit [DecidableEq κ] in
/-- A request is logged under the stored names. -/
theorem logged_verbatim {request : Request} (howner : request.transactionId ∈ owners)
    (hname : ∀ filename, request.filename? = some filename → filename ∈ names)
    (hdata : ∀ transactionId filename data, request = .write transactionId filename data →
      NulFree data) (granted : Bool) :
    logged cString granted request =
      (logged id granted request).map (Act.map cString cString id) ∧
    Within owners names (logged id granted request) := by
  cases request with
  | read transactionId filename =>
      refine ⟨rfl, Within.singleton howner ?_⟩
      intro key hkey
      obtain rfl : filename = key := by simpa [Act.key?] using hkey
      exact hname filename rfl
  | write transactionId filename data =>
      refine ⟨?_, Within.singleton howner ?_⟩
      · simp [logged, Act.map, cString_of_nulFree (hdata transactionId filename data rfl)]
      · intro key hkey
        obtain rfl : filename = key := by simpa [Act.key?] using hkey
        exact hname filename rfl
  | unsupported transactionId => exact ⟨rfl, Within.nil owners names⟩
  | _ => exact ⟨rfl, Within.singleton howner fun _ hkey => by cases hkey⟩

/-- **Verbatim storage.**  A server that stores C strings answers like one that
stores texts as they are, as long as the C strings tell apart the ids and the names,
and the contents hold no NUL bytes. -/
theorem serves_verbatim {auto : Bool} {initial : κ → Option Str}
    (howners : Set.InjOn cString owners) (hnames : Set.InjOn cString names)
    (hlocate : ∀ name ∈ names, locate' (cString name) = locate name)
    {exchanges : List (Request × Ptree)}
    (hrequests : ∀ exchange ∈ exchanges, exchange.1.transactionId ∈ owners ∧
      (∀ filename, exchange.1.filename? = some filename → filename ∈ names) ∧
      ∀ transactionId filename data, exchange.1 = .write transactionId filename data →
        NulFree data)
    {history final : History Str Str Str} (hwithin : Within owners names history)
    (hserves : Serves auto cString locate' initial
      (history.map (Act.map cString cString id)) exchanges final) :
    ∃ verbatim, Serves auto id locate initial history exchanges verbatim ∧
      final = verbatim.map (Act.map cString cString id) ∧ Within owners names verbatim := by
  induction exchanges generalizing history with
  | nil =>
      obtain rfl : history.map (Act.map cString cString id) = final := hserves
      exact ⟨history, rfl, rfl, hwithin⟩
  | cons exchange exchanges ih =>
      obtain ⟨request, reply⟩ := exchange
      obtain ⟨granted, hgranted, hreply, hrest⟩ := hserves
      obtain ⟨howner, hname, hdata⟩ := hrequests (request, reply) List.mem_cons_self
      obtain ⟨hlogged, hlog⟩ := logged_verbatim howner hname hdata granted
      rw [hlogged, ← List.map_append] at hrest
      obtain ⟨verbatim, hverbatim, hfinal, hwithin'⟩ :=
        ih (fun later hlater => hrequests later (List.mem_cons_of_mem _ hlater))
          (hwithin.append hlog) hrest
      refine ⟨verbatim, ⟨granted, ?_, ?_, hverbatim⟩, hfinal, hwithin'⟩
      · intro hauto
        rw [hgranted hauto]
        exact not_congr (intercepted_map howners hnames hwithin howner)
      · rw [hreply]
        cases request with
        | read transactionId filename =>
            have hvalue := locatedValue_map howners hnames hwithin hlocate initial howner
              (hname filename rfl)
            simp only [Request.transactionId] at hvalue
            rw [replyTo, replyTo, hvalue]
            rfl
        | _ => rfl

end Verbatim

/-- **Stored text.**  A content read back right after it was written is the content
sent exactly if it holds no NUL byte; two ids, or two filenames, are taken for the
same exactly if they are equal as C strings.  In every run in which the contents hold
no NUL bytes, and different ids and different filenames differ as C strings, the
server answers like one that stores texts as they are, and leaves the same files. -/
theorem stored_text_iff (cfg : Config) (s : ServerState)
    (transactionId filename fileContent other name : Str) :
    (∃ reply next reply' after,
      handleRequest cfg s (.write transactionId filename fileContent) = some (reply, next) ∧
      handleRequest cfg next (.read transactionId filename) = some (reply', after) ∧
      (reply' = .ok (makeReadResponseMessage transactionId filename fileContent) ↔
        NulFree fileContent)) ∧
    (SameTransaction transactionId other ↔ cString transactionId = cString other) ∧
    (SameFile filename name ↔ cString filename = cString name) ∧
    ∀ initial console requests exchanges final, Faithful requests →
      run cfg (.initial initial console) requests = some (exchanges, final) →
      ∃ replies history,
        exchanges = replies.map (fun exchange => (exchange.1, .ok exchange.2)) ∧
        Serves cfg.autoMode id cString initial [] replies history ∧
        final.sharedDirectory = locatedDisk cString initial history := by
  refine ⟨?_, sameTransaction_iff transactionId other, sameFile_iff filename name, ?_⟩
  · obtain ⟨reply, next, reply', after, hwrite, hread, rfl⟩ :=
      read_after_write cfg s transactionId filename fileContent
    refine ⟨reply, next, _, after, hwrite, hread, ?_⟩
    rw [← cString_eq_self_iff]
    simp [makeReadResponseMessage]
  · intro initial console requests exchanges final hfaithful hrun
    obtain ⟨replies, rfl, hserves⟩ := serves_of_run rfl hrun
    have hrequests : replies.map Prod.fst = requests := by
      have := run_requests hrun
      simpa [Function.comp_def] using this
    have howners : Set.InjOn cString (transactionsOf requests) := by
      rintro _ ⟨request, hrequest, rfl⟩ _ ⟨other, hother, rfl⟩ heq
      exact hfaithful.transactions request hrequest other hother heq
    have hnames : Set.InjOn cString (filenamesOf requests) := by
      rintro filename ⟨request, hrequest, hname⟩ name ⟨other, hother, hname'⟩ heq
      exact hfaithful.filenames request hrequest other hother filename name hname hname' heq
    have hlocate : ∀ name ∈ filenamesOf requests, id (cString name) = cString name :=
      fun _ _ => rfl
    have hall : ∀ exchange ∈ replies, exchange.1.transactionId ∈ transactionsOf requests ∧
        (∀ filename, exchange.1.filename? = some filename → filename ∈ filenamesOf requests) ∧
        ∀ transactionId filename data, exchange.1 = .write transactionId filename data →
          NulFree data := by
      intro exchange hexchange
      have hmem : exchange.1 ∈ requests := by
        rw [← hrequests]
        exact List.mem_map_of_mem hexchange
      refine ⟨⟨_, hmem, rfl⟩, fun filename hname => ⟨_, hmem, hname⟩, ?_⟩
      intro transactionId filename data heq
      rw [heq] at hmem
      exact hfaithful.contents transactionId filename data hmem
    obtain ⟨history, hverbatim, hfinal, hwithin⟩ :=
      serves_verbatim howners hnames hlocate hall (Within.nil _ _) hserves
    refine ⟨replies, history, rfl, hverbatim, ?_⟩
    rw [(run_spec hrun).2, ← map_map_id final.log.history, hfinal,
      map_map_locate hwithin hlocate]
    exact replay_map howners initial hwithin.owner

/-- A content is cut at its NUL byte, and a transaction whose id continues after a
NUL byte reads the pending write of another one. -/
theorem stored_text_cut :
    ∃ exchanges final, run ⟨true⟩ (.initial (fun _ => none) [])
        [.write (text "T") (text "f") [97, 0, 98], .read (text "T") (text "f"),
          .read [84, 0, 85] (text "f")] = some (exchanges, final) ∧
      exchanges[1]? = some (.read (text "T") (text "f"),
        .ok (makeReadResponseMessage (text "T") (text "f") [97])) ∧
      exchanges[2]? = some (.read [84, 0, 85] (text "f"),
        .ok (makeReadResponseMessage [84, 0, 85] (text "f") [97])) := by
  exact ⟨_, _, rfl, rfl, rfl⟩

/-- Two ids that differ after a NUL byte only occur in different runs. -/
theorem stored_text_iff_distinct :
    ∃ exchanges final, run ⟨true⟩ (.initial (fun _ => none) [])
        [.write [84, 0, 85] (text "f") (text "x"), .read (text "U") (text "f")] =
        some (exchanges, final) ∧
      ∃ replies history,
        exchanges = replies.map (fun exchange => (exchange.1, .ok exchange.2)) ∧
        Serves true id cString (fun _ => none) [] replies history ∧
        final.sharedDirectory = locatedDisk cString (fun _ => none) history := by
  have hfaithful : Faithful
      [.write [84, 0, 85] (text "f") (text "x"), .read (text "U") (text "f")] := by
    constructor
    · intro transactionId filename data hmem
      obtain ⟨-, -, rfl⟩ : transactionId = [84, 0, 85] ∧ filename = text "f" ∧
          data = text "x" := by
        simpa using hmem
      decide
    · decide
    · simp [Request.filename?]
  obtain ⟨exchanges, final, hrun⟩ := run_isSome ⟨true⟩ rfl (.initial (fun _ => none) [])
    [.write [84, 0, 85] (text "f") (text "x"), .read (text "U") (text "f")]
  obtain ⟨-, -, -, hserves⟩ := stored_text_iff ⟨true⟩ (.initial (fun _ => none) [])
    [84, 0, 85] (text "f") (text "x") (text "U") (text "f")
  exact ⟨exchanges, final, hrun,
    hserves (fun _ => none) [] _ exchanges final hfaithful hrun⟩

end DistributedFileServer
