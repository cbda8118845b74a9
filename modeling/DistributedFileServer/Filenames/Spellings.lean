import DistributedFileServer.Filenames.Answers
import DistributedFileServer.Model.Locate
import Mathlib.Data.List.Forall2

/-!
# Spellings of filenames

The log compares filenames as they are spelled, the disk as they are resolved.  A
request may name its file by any other spelling without changing what is written
to the files.  The votes and the own writes that a read finds depend on which
spellings agree, and on nothing else.
-/

namespace DistributedFileServer

open DeferredUpdate

variable {κ : Type} [DecidableEq κ]

/-- The second request is the first, with the filename spelled in any way that
leads to the same file. -/
def Respells (locate : Str → κ) : Request → Request → Prop
  | .read transactionId filename, .read transactionId' filename' =>
      transactionId = transactionId' ∧ locate filename = locate filename'
  | .write transactionId filename data, .write transactionId' filename' data' =>
      transactionId = transactionId' ∧ locate filename = locate filename' ∧ data = data'
  | request, request' => request = request'

omit [DecidableEq κ] in
theorem Respells.cases {locate : Str → κ} {request request' : Request}
    (h : Respells locate request request') :
    (∃ transactionId filename filename', request = .read transactionId filename ∧
      request' = .read transactionId filename' ∧ locate filename = locate filename') ∨
    (∃ transactionId filename filename' data, request = .write transactionId filename data ∧
      request' = .write transactionId filename' data ∧ locate filename = locate filename') ∨
    request = request' := by
  unfold Respells at h
  split at h
  · obtain ⟨rfl, hfile⟩ := h
    exact Or.inl ⟨_, _, _, rfl, rfl, hfile⟩
  · obtain ⟨rfl, hfile, rfl⟩ := h
    exact Or.inr (Or.inl ⟨_, _, _, _, rfl, rfl, hfile⟩)
  · exact Or.inr (Or.inr h)

/-- Two requests of the first list have the same stored name exactly if they have
in the second list. -/
def Consistent (requests requests' : List Request) : Prop :=
  ∀ pair ∈ requests.zip requests', ∀ other ∈ requests.zip requests',
    ∀ filename filename' otherName otherName',
      pair.1.filename? = some filename → pair.2.filename? = some filename' →
      other.1.filename? = some otherName → other.2.filename? = some otherName' →
      (cString filename = cString otherName ↔ cString filename' = cString otherName')

/-- A reply up to the filename it repeats. -/
def dropFilename (reply : Ptree) : Ptree :=
  { reply with filename := none }

/-- A history by files, without the votes. -/
def byFile (locate : Str → κ) (history : History Str Str Str) : History Str κ Str :=
  (history.map (Act.map id locate id)).map Act.forgetVote

section Files

variable {locate : Str → κ} {initial : κ → Option Str}

omit [DecidableEq κ] in
theorem byFile_append (first second : History Str Str Str) :
    byFile locate (first ++ second) = byFile locate first ++ byFile locate second := by
  simp [byFile]

/-- The files depend on a history by files only. -/
theorem locatedDisk_congr {history history' : History Str Str Str}
    (h : byFile locate history = byFile locate history') :
    locatedDisk locate initial history = locatedDisk locate initial history' := by
  unfold locatedDisk
  rw [← replay_map_forgetVote, ← replay_map_forgetVote initial (history'.map _)]
  exact congrArg (replay initial) h

omit [DecidableEq κ] in
/-- Respelled requests are logged alike, by files. -/
theorem byFile_logged (hlocate : ∀ filename, locate (cString filename) = locate filename)
    {request request' : Request} (h : Respells locate request request') (granted granted' : Bool) :
    byFile locate (logged cString granted request) =
      byFile locate (logged cString granted' request') := by
  rcases h.cases with ⟨transactionId, filename, filename', rfl, rfl, hfile⟩ |
    ⟨transactionId, filename, filename', data, rfl, rfl, hfile⟩ | rfl
  · simp [byFile, logged, Act.map, hlocate, hfile]
  · simp [byFile, logged, Act.map, hlocate, hfile]
  · cases request <;> rfl

/-- **Files.**  Respelling requests changes nothing in the history by files. -/
theorem byFile_serves (hlocate : ∀ filename, locate (cString filename) = locate filename)
    {exchanges exchanges' : List (Request × Ptree)}
    (hrespelled : List.Forall₂ (fun exchange exchange' => Respells locate exchange.1 exchange'.1)
      exchanges exchanges')
    {history history' final final' : History Str Str Str}
    (hhistory : byFile locate history = byFile locate history')
    (hserves : Serves true cString locate initial history exchanges final)
    (hserves' : Serves true cString locate initial history' exchanges' final') :
    byFile locate final = byFile locate final' := by
  induction hrespelled generalizing history history' with
  | nil =>
      obtain rfl : history = final := hserves
      obtain rfl : history' = final' := hserves'
      exact hhistory
  | cons hhead _ ih =>
      obtain ⟨granted, -, -, hrest⟩ := hserves
      obtain ⟨granted', -, -, hrest'⟩ := hserves'
      refine ih ?_ hrest hrest'
      rw [byFile_append, byFile_append, hhistory, byFile_logged hlocate hhead]

/-- A file that is reached by no write of the transaction is read from the disk. -/
theorem locatedValue_of_not_written {history : History Str Str Str} {transaction key : Str}
    {file : κ} (hfile : locate key = file)
    (h : ∀ write ∈ writesOf history transaction, locate write.1 ≠ file) :
    locatedValue locate initial history transaction key =
      locatedDisk locate initial history file := by
  have hnone : lastValue (writesOf history transaction) key = none := by
    rw [lastValue_eq_none_iff]
    intro write hwrite hkey
    exact h write hwrite (by rw [hkey, hfile])
  rw [locatedValue, hnone, Option.none_or, hfile]
  rfl

omit [DecidableEq κ] in
/-- Which files a transaction wrote is a matter of the history by files. -/
theorem map_writesOf_congr {history history' : History Str Str Str}
    (h : byFile locate history = byFile locate history') (transaction : Str) :
    (writesOf history transaction).map (Prod.map locate id) =
      (writesOf history' transaction).map (Prod.map locate id) := by
  rw [← writesOf_map_id, ← writesOf_map_id, ← writesOf_map_forgetVote,
    ← writesOf_map_forgetVote (history'.map _)]
  exact congrArg (fun history => writesOf history transaction) h

omit [DecidableEq κ] in
/-- A logged write was requested. -/
theorem request_of_mem_writesOf_logged {store : Str → Str} {granted : Bool} {request : Request}
    {transaction : Str} {write : Str × Str}
    (h : write ∈ writesOf (logged store granted request) transaction) :
    ∃ transactionId filename data, request = .write transactionId filename data ∧
      store transactionId = transaction ∧ write.1 = store filename := by
  have hentry := mem_writesOf_iff.mp h
  cases request with
  | write transactionId filename data =>
      obtain ⟨howner, hkey, -⟩ : transaction = store transactionId ∧
          write.1 = store filename ∧ write.2 = store data := by
        simpa [logged] using hentry
      exact ⟨transactionId, filename, data, rfl, howner.symm, hkey⟩
  | _ => simp [logged] at hentry

/-- **Files not written.**  A read of a file that the transaction has not written
finds the same under every spelling. -/
theorem reply_of_not_written (hlocate : ∀ filename, locate (cString filename) = locate filename)
    {exchanges exchanges' : List (Request × Ptree)}
    (hrespelled : List.Forall₂ (fun exchange exchange' => Respells locate exchange.1 exchange'.1)
      exchanges exchanges')
    {history history' final final' : History Str Str Str}
    (hhistory : byFile locate history = byFile locate history')
    (hserves : Serves true cString locate initial history exchanges final)
    (hserves' : Serves true cString locate initial history' exchanges' final')
    {n : Nat} {transactionId filename : Str}
    (hread : (exchanges.map Prod.fst)[n]? = some (.read transactionId filename))
    (hbefore : ∀ write ∈ writesOf history (cString transactionId),
      locate write.1 ≠ locate filename)
    (hrequests : ∀ owner name data, .write owner name data ∈ (exchanges.map Prod.fst).take n →
      cString owner = cString transactionId → locate name ≠ locate filename) :
    (exchanges'[n]?).map (fun exchange => dropFilename exchange.2) =
      (exchanges[n]?).map fun exchange => dropFilename exchange.2 := by
  induction hrespelled generalizing history history' n with
  | nil => simp at hread
  | @cons exchange exchange' exchanges exchanges' hhead _ ih =>
      obtain ⟨request, reply⟩ := exchange
      obtain ⟨request', reply'⟩ := exchange'
      obtain ⟨granted, -, hreply, hrest⟩ := hserves
      obtain ⟨granted', -, hreply', hrest'⟩ := hserves'
      cases n with
      | zero =>
          -- both read the same file off the disk
          obtain rfl : request = .read transactionId filename := by simpa using hread
          obtain ⟨filename', rfl, hfile⟩ : ∃ filename', request' = .read transactionId filename' ∧
              locate filename = locate filename' := by
            rcases hhead.cases with ⟨owner, name, name', heq, rfl, hfile⟩ |
              ⟨_, _, _, _, heq, -, -⟩ | rfl
            · obtain ⟨rfl, rfl⟩ := Request.read.inj heq
              exact ⟨name', rfl, hfile⟩
            · cases heq
            · exact ⟨filename, rfl, rfl⟩
          have hbefore' : ∀ write ∈ writesOf history' (cString transactionId),
              locate write.1 ≠ locate filename := by
            intro write hwrite
            have hmem : Prod.map locate id write ∈
                (writesOf history (cString transactionId)).map (Prod.map locate id) := by
              rw [map_writesOf_congr hhistory]
              exact List.mem_map_of_mem hwrite
            obtain ⟨own, hown, heq⟩ := List.mem_map.mp hmem
            have hsame : locate own.1 = locate write.1 := congrArg Prod.fst heq
            rw [← hsame]
            exact hbefore own hown
          have hvalue : locatedValue locate initial history (cString transactionId)
              (cString filename) = locatedDisk locate initial history (locate filename) :=
            locatedValue_of_not_written (hlocate filename) hbefore
          have hvalue' : locatedValue locate initial history' (cString transactionId)
              (cString filename') = locatedDisk locate initial history (locate filename) := by
            rw [locatedDisk_congr hhistory]
            exact locatedValue_of_not_written ((hlocate filename').trans hfile.symm) hbefore'
          rw [hreply, hreply', replyTo, replyTo, hvalue, hvalue']
          rfl
      | succ n =>
          refine ih ?_ hrest hrest' ?_ ?_ ?_
          · rw [byFile_append, byFile_append, hhistory, byFile_logged hlocate hhead]
          · simpa using hread
          · intro write hwrite
            rw [writesOf_append, List.mem_append] at hwrite
            rcases hwrite with hwrite | hwrite
            · exact hbefore write hwrite
            · obtain ⟨owner, name, data, rfl, howner, hkey⟩ :=
                request_of_mem_writesOf_logged hwrite
              rw [hkey, hlocate]
              exact hrequests owner name data (by simp) howner
          · intro owner name data hmem
            apply hrequests owner name data
            rw [List.map_cons, List.take_succ_cons]
            exact List.mem_cons_of_mem _ hmem

end Files

/-! ## Consistent spellings -/

/-- Pairs that agree in one component exactly where they agree in the other come
from an injective renaming. -/
theorem exists_renaming {α : Type} (pairs : Set (α × α))
    (hpairs : ∀ pair ∈ pairs, ∀ other ∈ pairs, pair.1 = other.1 ↔ pair.2 = other.2) :
    ∃ rename : α → α, (∀ pair ∈ pairs, rename pair.1 = pair.2) ∧
      Set.InjOn rename (Prod.fst '' pairs) := by
  classical
  have hvalue : ∀ a, ∃ b, ∀ pair ∈ pairs, pair.1 = a → pair.2 = b := by
    intro a
    by_cases ha : ∃ pair ∈ pairs, pair.1 = a
    · obtain ⟨pair, hpair, rfl⟩ := ha
      exact ⟨pair.2, fun other hother hsame => (hpairs other hother pair hpair).mp hsame⟩
    · exact ⟨a, fun pair hpair hsame => absurd ⟨pair, hpair, hsame⟩ ha⟩
  choose rename hrename using hvalue
  have hmaps : ∀ pair ∈ pairs, rename pair.1 = pair.2 :=
    fun pair hpair => (hrename pair.1 pair hpair rfl).symm
  refine ⟨rename, hmaps, ?_⟩
  rintro _ ⟨pair, hpair, rfl⟩ _ ⟨other, hother, rfl⟩ hsame
  rw [hmaps pair hpair, hmaps other hother] at hsame
  exact (hpairs pair hpair other hother).mpr hsame

/-- The second request is the first, with the stored filename renamed. -/
def Renames (rename : Str → Str) (keys : Set Str) : Request → Request → Prop
  | .read transactionId filename, .read transactionId' filename' =>
      transactionId = transactionId' ∧ cString filename ∈ keys ∧
        rename (cString filename) = cString filename'
  | .write transactionId filename data, .write transactionId' filename' data' =>
      transactionId = transactionId' ∧ data = data' ∧ cString filename ∈ keys ∧
        rename (cString filename) = cString filename'
  | request, request' => request = request' ∧ request.filename? = none

section Rename

variable {locate : Str → κ} {initial : κ → Option Str} {rename : Str → Str} {keys : Set Str}
  {request request' : Request}

omit [DecidableEq κ] in
theorem Renames.cases (h : Renames rename keys request request') :
    (∃ transactionId filename filename', request = .read transactionId filename ∧
      request' = .read transactionId filename' ∧ cString filename ∈ keys ∧
      rename (cString filename) = cString filename') ∨
    (∃ transactionId filename filename' data, request = .write transactionId filename data ∧
      request' = .write transactionId filename' data ∧ cString filename ∈ keys ∧
      rename (cString filename) = cString filename') ∨
    (request = request' ∧ request.filename? = none) := by
  unfold Renames at h
  split at h
  · obtain ⟨rfl, hkey, hname⟩ := h
    exact Or.inl ⟨_, _, _, rfl, rfl, hkey, hname⟩
  · obtain ⟨rfl, rfl, hkey, hname⟩ := h
    exact Or.inr (Or.inl ⟨_, _, _, _, rfl, rfl, hkey, hname⟩)
  · exact Or.inr (Or.inr h)

omit [DecidableEq κ] in
/-- A request is logged under the new name. -/
theorem logged_of_renames (h : Renames rename keys request request') (granted : Bool) :
    logged cString granted request' =
      (logged cString granted request).map (Act.map id rename id) ∧
    Within Set.univ keys (logged cString granted request) ∧
    request'.transactionId = request.transactionId := by
  have hwithin : ∀ key ∈ keys, ∀ act : Entry, act.key? = some key →
      Within Set.univ keys [act] := by
    intro key hkey act hact
    refine Within.singleton (Set.mem_univ _) ?_
    intro key' hkey'
    obtain rfl : key = key' := by simpa [hact] using hkey'
    exact hkey
  rcases h.cases with ⟨transactionId, filename, filename', rfl, rfl, hkey, hname⟩ |
    ⟨transactionId, filename, filename', data, rfl, rfl, hkey, hname⟩ | ⟨rfl, hnone⟩
  · exact ⟨by simp [logged, Act.map, hname], hwithin _ hkey _ rfl, rfl⟩
  · exact ⟨by simp [logged, Act.map, hname], hwithin _ hkey _ rfl, rfl⟩
  · -- nothing is named
    refine ⟨?_, ⟨fun _ _ => Set.mem_univ _, ?_⟩, rfl⟩
    · cases request <;> first | rfl | simp [Request.filename?] at hnone
    · intro act hact key hkey
      cases request <;> simp [logged, Request.filename?] at hact hnone <;>
        simp [hact, Act.key?] at hkey

/-- A read finds the same under the new name. -/
theorem reply_of_renames (hrename : Set.InjOn rename keys)
    (hlocate : ∀ key ∈ keys, locate (rename key) = locate key)
    {history : History Str Str Str} (hwithin : Within Set.univ keys history)
    (h : Renames rename keys request request') (granted : Bool) :
    dropFilename (replyTo cString locate initial (history.map (Act.map id rename id)) granted
        request') =
      dropFilename (replyTo cString locate initial history granted request) := by
  rcases h.cases with ⟨transactionId, filename, filename', rfl, rfl, hkey, hname⟩ |
    ⟨transactionId, filename, filename', data, rfl, rfl, hkey, hname⟩ | ⟨rfl, hnone⟩
  · have hvalue := locatedValue_map (Set.injOn_id Set.univ) hrename hwithin hlocate initial
      (Set.mem_univ (cString transactionId)) hkey
    rw [hname] at hvalue
    simp only [replyTo, id_eq] at hvalue ⊢
    rw [hvalue]
    rfl
  · rfl
  · cases request <;> first | rfl | simp [Request.filename?] at hnone

/-- **Consistent spellings.**  Renaming the stored names consistently changes no
reply. -/
theorem replies_of_renames (hrename : Set.InjOn rename keys)
    (hlocate : ∀ key ∈ keys, locate (rename key) = locate key)
    {exchanges exchanges' : List (Request × Ptree)}
    (hrenames : List.Forall₂
      (fun exchange exchange' => Renames rename keys exchange.1 exchange'.1) exchanges exchanges')
    {history final final' : History Str Str Str} (hwithin : Within Set.univ keys history)
    (hserves : Serves true cString locate initial history exchanges final)
    (hserves' : Serves true cString locate initial (history.map (Act.map id rename id)) exchanges'
      final') :
    exchanges'.map (fun exchange => dropFilename exchange.2) =
      exchanges.map fun exchange => dropFilename exchange.2 := by
  induction hrenames generalizing history with
  | nil => rfl
  | @cons exchange exchange' exchanges exchanges' hhead _ ih =>
      obtain ⟨granted, hgranted, hreply, hrest⟩ := hserves
      obtain ⟨granted', hgranted', hreply', hrest'⟩ := hserves'
      obtain ⟨hlogged, hlog, hsame⟩ := logged_of_renames hhead granted
      -- the votes agree, because the names are told apart in the same way
      have hvote : granted' = granted := by
        have hiff := intercepted_map (h := id) (Set.injOn_id Set.univ) hrename hwithin
          (Set.mem_univ (cString exchange.1.transactionId))
        rw [Bool.eq_iff_iff, hgranted rfl, hgranted' rfl, hsame]
        exact not_congr hiff
      subst hvote
      rw [hlogged, ← List.map_append] at hrest'
      rw [List.map_cons, List.map_cons, ih (hwithin.append hlog) hrest hrest', hreply, hreply',
        reply_of_renames hrename hlocate hwithin hhead]

end Rename

omit [DecidableEq κ] in
/-- Consistent spellings are a renaming of the stored names. -/
theorem Consistent.exists_renames {locate : Str → κ}
    (hlocate : ∀ filename, locate (cString filename) = locate filename)
    {requests requests' : List Request} (h : Consistent requests requests')
    (hrespelled : List.Forall₂ (Respells locate) requests requests') :
    ∃ rename keys, Set.InjOn rename keys ∧ (∀ key ∈ keys, locate (rename key) = locate key) ∧
      List.Forall₂ (Renames rename keys) requests requests' := by
  obtain ⟨hlength, hzip⟩ := List.forall₂_iff_zip.mp hrespelled
  let pairs : Set (Str × Str) := fun names => ∃ pair ∈ requests.zip requests',
    ∃ filename filename', pair.1.filename? = some filename ∧
      pair.2.filename? = some filename' ∧ names = (cString filename, cString filename')
  obtain ⟨rename, hmaps, hinj⟩ : ∃ rename : Str → Str,
      (∀ pair ∈ pairs, rename pair.1 = pair.2) ∧ Set.InjOn rename (Prod.fst '' pairs) := by
    apply exists_renaming
    rintro _ ⟨pair, hpair, filename, filename', hname, hname', rfl⟩ _
      ⟨other, hother, otherName, otherName', hother₁, hother₂, rfl⟩
    exact h pair hpair other hother _ _ _ _ hname hname' hother₁ hother₂
  refine ⟨rename, Prod.fst '' pairs, hinj, ?_, List.forall₂_iff_zip.mpr ⟨hlength, ?_⟩⟩
  · rintro _ ⟨names, hnames, rfl⟩
    rw [hmaps names hnames]
    obtain ⟨⟨request, request'⟩, hpair, filename, filename', hname, hname', rfl⟩ := hnames
    show locate (cString filename') = locate (cString filename)
    rw [hlocate, hlocate]
    rcases (hzip hpair).cases with ⟨_, name, name', rfl, rfl, hfile⟩ |
      ⟨_, name, name', _, rfl, rfl, hfile⟩ | rfl
    · obtain ⟨rfl, rfl⟩ := And.intro (Option.some.inj hname) (Option.some.inj hname')
      exact hfile.symm
    · obtain ⟨rfl, rfl⟩ := And.intro (Option.some.inj hname) (Option.some.inj hname')
      exact hfile.symm
    · obtain rfl := Option.some.inj (hname.symm.trans hname')
      rfl
  · intro request request' hpair
    have hpairs : ∀ filename filename', request.filename? = some filename →
        request'.filename? = some filename' →
        cString filename ∈ Prod.fst '' pairs ∧ rename (cString filename) = cString filename' := by
      intro filename filename' hname hname'
      have hmem : (cString filename, cString filename') ∈ pairs :=
        ⟨(request, request'), hpair, filename, filename', hname, hname', rfl⟩
      exact ⟨⟨_, hmem, rfl⟩, hmaps _ hmem⟩
    rcases (hzip hpair).cases with ⟨transactionId, name, name', rfl, rfl, -⟩ |
      ⟨transactionId, name, name', data, rfl, rfl, -⟩ | rfl
    · exact ⟨rfl, hpairs name name' rfl rfl⟩
    · exact ⟨rfl, rfl, hpairs name name' rfl rfl⟩
    · cases request with
      | read transactionId filename => exact ⟨rfl, hpairs filename filename rfl rfl⟩
      | write transactionId filename data => exact ⟨rfl, rfl, hpairs filename filename rfl rfl⟩
      | _ => exact ⟨rfl, rfl⟩

/-- The reply of an outcome, up to the filename it repeats. -/
def replied (outcome : Serve.Outcome) : Except Failure Ptree :=
  outcome.2.map dropFilename

/-- **Respelling filenames.**  In auto mode, where nothing fails, let the files of
reads and writes be spelled in any other way.  No file of the final directory
changes; no read changes of a file that its transaction has not written before; and
if the new spellings agree exactly where the old ones did, no reply changes at all,
up to the filename it repeats. -/
theorem run_respelled {system : System κ} (hauto : system.cfg.autoMode = true)
    {disk : κ → Option Str} {console : List Str} {requests requests' : List Request}
    (hrespelled : List.Forall₂ (Respells system.locate) requests requests')
    {outcomes outcomes' : List Serve.Outcome} {final final' : World κ}
    (hrun : Serve.run system (.initial disk console) requests = (outcomes, final))
    (hrun' : Serve.run system (.initial disk console) requests' = (outcomes', final')) :
    final'.files.disk = final.files.disk ∧
    (∀ n transactionId filename, requests[n]? = some (.read transactionId filename) →
      (∀ owner name data, .write owner name data ∈ requests.take n →
        cString owner = cString transactionId → system.locate name ≠ system.locate filename) →
      (outcomes'[n]?).map replied = (outcomes[n]?).map replied) ∧
    (Consistent requests requests' → outcomes'.map replied = outcomes.map replied) := by
  obtain ⟨exchanges, history, rfl, rfl, hserves, hdisk⟩ := run_serves hauto hrun
  obtain ⟨exchanges', history', rfl, rfl, hserves', hdisk'⟩ := run_serves hauto hrun'
  have hexchanges : List.Forall₂
      (fun exchange exchange' => Respells system.locate exchange.1 exchange'.1)
      exchanges exchanges' := by
    simpa using hrespelled
  refine ⟨?_, ?_, ?_⟩
  · rw [hdisk, hdisk']
    exact (locatedDisk_congr
      (byFile_serves system.locate_cString hexchanges rfl hserves hserves')).symm
  · intro n transactionId filename hread hnot
    have hsame := reply_of_not_written system.locate_cString hexchanges rfl hserves hserves' hread
      nofun hnot
    have hok := congrArg (Option.map fun tree => (.ok tree : Except Failure Ptree)) hsame
    simpa [answered, Option.map_map, Function.comp_def, replied, Except.map] using hok
  · intro hconsistent
    obtain ⟨rename, keys, hinj, hlocate, hrenames⟩ :=
      hconsistent.exists_renames system.locate_cString hrespelled
    have hrenames' : List.Forall₂
        (fun exchange exchange' => Renames rename keys exchange.1 exchange'.1)
        exchanges exchanges' := by
      simpa using hrenames
    have hsame := replies_of_renames hinj hlocate hrenames' (Within.nil _ _) hserves hserves'
    have hok := congrArg (List.map fun tree => (.ok tree : Except Failure Ptree)) hsame
    simpa [answered, Function.comp_def, replied, Except.map] using hok

/-- A server with the shared directory `dir`. -/
def directorySystem : System (List Str) :=
  .rooted ⟨true⟩ (text "dir") fun _ => none

/-- `T` reads its own write of `a` under that name, but not as `./a`. -/
theorem run_respelled_own_write :
    directorySystem.locate (text "./a") =
        directorySystem.locate (text "a") ∧
      ∃ outcomes final outcomes' final',
        Serve.run directorySystem (.initial (fun _ => none) [])
          [.write (text "T") (text "a") (text "x"), .read (text "T") (text "a")] =
          (outcomes, final) ∧
        Serve.run directorySystem (.initial (fun _ => none) [])
          [.write (text "T") (text "a") (text "x"), .read (text "T") (text "./a")] =
          (outcomes', final') ∧
        outcomes[1]? = some (.read (text "T") (text "a"),
          .ok (makeReadResponseMessage (text "T") (text "a") (text "x"))) ∧
        outcomes'[1]? = some (.read (text "T") (text "./a"),
          .ok (makeReadResponseMessage (text "T") (text "./a") [])) := by
  exact ⟨rfl, _, _, _, _, rfl, rfl, rfl, rfl⟩

/-- `T` and `U` both spell the file `a` as `./a`. -/
theorem run_respelled_both :
    ∃ outcomes final outcomes' final',
      Serve.run directorySystem (.initial (fun _ => none) [])
        [.write (text "T") (text "a") (text "x"), .read (text "U") (text "a"),
          .globalCommit (text "T")] = (outcomes, final) ∧
      Serve.run directorySystem (.initial (fun _ => none) [])
        [.write (text "T") (text "./a") (text "x"), .read (text "U") (text "./a"),
          .globalCommit (text "T")] = (outcomes', final') ∧
      final'.files.disk = final.files.disk ∧ outcomes'.map replied = outcomes.map replied := by
  obtain ⟨outcomes, final, hrun⟩ : ∃ outcomes final,
      Serve.run directorySystem (.initial (fun _ => none) [])
        [.write (text "T") (text "a") (text "x"), .read (text "U") (text "a"),
          .globalCommit (text "T")] = (outcomes, final) := ⟨_, _, (Prod.eta _).symm⟩
  obtain ⟨outcomes', final', hrun'⟩ : ∃ outcomes final,
      Serve.run directorySystem (.initial (fun _ => none) [])
        [.write (text "T") (text "./a") (text "x"), .read (text "U") (text "./a"),
          .globalCommit (text "T")] = (outcomes, final) := ⟨_, _, (Prod.eta _).symm⟩
  have hrespelled : List.Forall₂ (Respells directorySystem.locate)
      [.write (text "T") (text "a") (text "x"), .read (text "U") (text "a"),
        .globalCommit (text "T")]
      [.write (text "T") (text "./a") (text "x"), .read (text "U") (text "./a"),
        .globalCommit (text "T")] :=
    .cons ⟨rfl, rfl, rfl⟩ (.cons ⟨rfl, rfl⟩ (.cons rfl .nil))
  obtain ⟨hdisk, -, hreplies⟩ := run_respelled rfl hrespelled hrun hrun'
  refine ⟨outcomes, final, outcomes', final', hrun, hrun', hdisk, hreplies ?_⟩
  -- all names are `a` on the one side and `./a` on the other
  simp only [Consistent, List.zip_cons_cons, List.zip_nil_right, List.forall_mem_cons,
    Request.filename?, Option.some.injEq, reduceCtorEq, false_imp_iff, implies_true, and_true,
    List.not_mem_nil]
  refine ⟨⟨?_, ?_⟩, ?_, ?_⟩ <;> rintro _ _ _ _ rfl rfl rfl rfl <;> exact iff_of_true rfl rfl

end DistributedFileServer
