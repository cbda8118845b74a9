import DistributedFileServer.DeferredUpdate.History
import Mathlib.Data.Set.Function

/-!
# Histories under other names

The owners, the keys and the values of a history may be renamed.  What a
transaction wrote, its last values and the store are renamed along, as long as
the new names tell apart the owners and the keys that occur.  Votes play no part
in what a history does to the store.
-/

namespace DeferredUpdate

variable {τ τ' κ κ' ν ν' : Type}

/-- Rename the owner, the key and the value of an entry. -/
def Act.map (f : τ → τ') (g : κ → κ') (h : ν → ν') : Act τ κ ν → Act τ' κ' ν'
  | read owner key => read (f owner) (g key)
  | write owner key value => write (f owner) (g key) (h value)
  | vote owner granted => vote (f owner) granted
  | commit owner => commit (f owner)
  | abort owner => abort (f owner)

/-- Forget which vote was cast. -/
def Act.forgetVote : Act τ κ ν → Act τ κ ν
  | vote owner _ => vote owner true
  | act => act

/-- The owners and the keys of the history are among these. -/
structure Within (owners : Set τ) (keys : Set κ) (history : History τ κ ν) : Prop where
  owner : ∀ act ∈ history, act.owner ∈ owners
  key : ∀ act ∈ history, ∀ key, act.key? = some key → key ∈ keys

section Map

variable {f : τ → τ'} {g : κ → κ'} {h : ν → ν'}

@[simp] theorem Act.owner_map (act : Act τ κ ν) : (act.map f g h).owner = f act.owner := by
  cases act <;> rfl

@[simp] theorem Act.write?_map (act : Act τ κ ν) :
    (act.map f g h).write? = act.write?.map (Prod.map g h) := by
  cases act <;> rfl

@[simp] theorem Act.read?_map (act : Act τ κ ν) : (act.map f g h).read? = act.read?.map g := by
  cases act <;> rfl

@[simp] theorem Act.key?_map (act : Act τ κ ν) : (act.map f g h).key? = act.key?.map g := by
  cases act <;> rfl

end Map

theorem map_map_id (history : History τ κ ν) : history.map (Act.map id id id) = history := by
  apply List.map_id''
  intro act
  cases act <;> rfl

/-- Keys that are renamed and then located are located as if by their old names. -/
theorem map_map_locate {γ : Type} {f : τ → τ'} {g : κ → κ'} {locate : κ → γ} {locate' : κ' → γ}
    {owners : Set τ} {keys : Set κ} {history : History τ κ ν}
    (hwithin : Within owners keys history) (hlocate : ∀ key ∈ keys, locate' (g key) = locate key) :
    (history.map (Act.map f g id)).map (Act.map id locate' id) =
      history.map (Act.map f locate id) := by
  rw [List.map_map]
  apply List.map_congr_left
  intro act hact
  have hkey := hwithin.key act hact
  cases act with
  | read owner key => simp [Act.map, hlocate key (hkey key rfl)]
  | write owner key value => simp [Act.map, hlocate key (hkey key rfl)]
  | _ => rfl

theorem Within.singleton {owners : Set τ} {keys : Set κ} {act : Act τ κ ν}
    (howner : act.owner ∈ owners) (hkey : ∀ key, act.key? = some key → key ∈ keys) :
    Within owners keys [act] := by
  constructor
  · intro other hother
    obtain rfl := List.mem_singleton.mp hother
    exact howner
  · intro other hother
    obtain rfl := List.mem_singleton.mp hother
    exact hkey

theorem Within.nil (owners : Set τ) (keys : Set κ) :
    Within owners keys ([] : History τ κ ν) := by
  constructor
  · intro act hact
    cases hact
  · intro act hact
    cases hact

theorem Within.append {owners : Set τ} {keys : Set κ} {first second : History τ κ ν}
    (hfirst : Within owners keys first) (hsecond : Within owners keys second) :
    Within owners keys (first ++ second) := by
  constructor
  · intro act hact
    rcases List.mem_append.mp hact with hact | hact
    · exact hfirst.owner act hact
    · exact hsecond.owner act hact
  · intro act hact
    rcases List.mem_append.mp hact with hact | hact
    · exact hfirst.key act hact
    · exact hsecond.key act hact

section Writes

variable [DecidableEq τ] [DecidableEq τ'] {f : τ → τ'} {g : κ → κ'} {h : ν → ν'}
  {owners : Set τ} {transaction : τ} {history : History τ κ ν}

/-- What a transaction wrote is renamed along. -/
theorem writesOf_map (hf : Set.InjOn f owners) (hhistory : ∀ act ∈ history, act.owner ∈ owners)
    (htransaction : transaction ∈ owners) :
    writesOf (history.map (Act.map f g h)) (f transaction) =
      (writesOf history transaction).map (Prod.map g h) := by
  unfold writesOf
  rw [List.filterMap_map, List.map_filterMap]
  apply List.filterMap_congr
  intro act hact
  simp only [Function.comp_apply, Act.owner_map, Act.write?_map,
    hf.eq_iff (hhistory act hact) htransaction]
  split_ifs <;> rfl

/-- What a transaction read is renamed along. -/
theorem readsOf_map (hf : Set.InjOn f owners) (hhistory : ∀ act ∈ history, act.owner ∈ owners)
    (htransaction : transaction ∈ owners) :
    readsOf (history.map (Act.map f g h)) (f transaction) =
      (readsOf history transaction).map g := by
  unfold readsOf
  rw [List.filterMap_map, List.map_filterMap]
  apply List.filterMap_congr
  intro act hact
  simp only [Function.comp_apply, Act.owner_map, Act.read?_map,
    hf.eq_iff (hhistory act hact) htransaction]
  split_ifs <;> rfl

omit [DecidableEq τ'] in
/-- With the owners kept, no two of them need to be told apart. -/
theorem writesOf_map_id (history : History τ κ ν) (transaction : τ) :
    writesOf (history.map (Act.map id g h)) transaction =
      (writesOf history transaction).map (Prod.map g h) :=
  writesOf_map (Set.injOn_id Set.univ) (fun _ _ => Set.mem_univ _) (Set.mem_univ transaction)

omit [DecidableEq τ'] in
theorem writesOf_map_forgetVote (history : History τ κ ν) (transaction : τ) :
    writesOf (history.map Act.forgetVote) transaction = writesOf history transaction := by
  unfold writesOf
  rw [List.filterMap_map]
  apply List.filterMap_congr
  intro act _
  cases act <;> rfl

/-- The keys of a transaction's writes are keys of the history. -/
theorem Within.key_of_mem_writesOf {keys : Set κ} (hwithin : Within owners keys history)
    {write : κ × ν} (hwrite : write ∈ writesOf history transaction) : write.1 ∈ keys :=
  hwithin.key _ (mem_writesOf_iff.mp hwrite) _ rfl

end Writes

/-- The last value of a key is the last value of its new name. -/
theorem lastValue_map [DecidableEq κ] [DecidableEq κ'] {g : κ → κ'} {h : ν → ν'}
    {writes : List (κ × ν)} {key : κ} (hkey : ∀ write ∈ writes, g write.1 = g key → write.1 = key) :
    lastValue (writes.map (Prod.map g h)) (g key) = (lastValue writes key).map h := by
  induction writes using List.reverseRecOn with
  | nil => rfl
  | append_singleton writes write ih =>
      obtain ⟨key', value⟩ := write
      have hbefore := ih fun write hwrite => hkey write (List.mem_append_left _ hwrite)
      rw [List.map_append, List.map_singleton, Prod.map_apply, lastValue_concat, lastValue_concat,
        hbefore]
      by_cases hsame : key = key'
      · subst hsame
        simp
      · have hne : g key ≠ g key' := by
          intro heq
          exact hsame (hkey (key', value) (by simp) heq.symm).symm
        rw [if_neg hne, if_neg hsame]

section Replay

variable [DecidableEq τ] [DecidableEq κ] [DecidableEq τ'] [DecidableEq κ']

omit [DecidableEq κ] in
/-- The store does not depend on the names of the owners. -/
theorem replay_map {f : τ → τ'} {g : κ → κ'} {h : ν → ν'} {owners : Set τ}
    (hf : Set.InjOn f owners) (initial : Store κ' ν') {history : History τ κ ν}
    (hhistory : ∀ act ∈ history, act.owner ∈ owners) :
    replay initial (history.map (Act.map f g h)) =
      replay initial (history.map (Act.map id g h)) := by
  induction history using List.reverseRecOn with
  | nil => rfl
  | append_singleton history act ih =>
      have hbefore : ∀ act ∈ history, act.owner ∈ owners :=
        fun act hact => hhistory act (List.mem_append_left _ hact)
      rw [List.map_append, List.map_append, List.map_singleton, List.map_singleton,
        replay_concat, replay_concat, ih hbefore]
      cases act with
      | commit owner =>
          have howner : owner ∈ owners := hhistory (.commit owner) (by simp)
          show applyWrites (writesOf _ (f owner)) _ = applyWrites (writesOf _ owner) _
          rw [writesOf_map hf hbefore howner, writesOf_map_id]
      | _ => rfl

omit [DecidableEq τ'] [DecidableEq κ'] in
/-- The store does not depend on the votes. -/
theorem replay_map_forgetVote (initial : Store κ ν) (history : History τ κ ν) :
    replay initial (history.map Act.forgetVote) = replay initial history := by
  induction history using List.reverseRecOn with
  | nil => rfl
  | append_singleton history act ih =>
      rw [List.map_append, List.map_singleton, replay_concat, replay_concat, ih]
      cases act with
      | commit owner =>
          show applyWrites (writesOf _ owner) _ = applyWrites (writesOf _ owner) _
          rw [writesOf_map_forgetVote]
      | _ => rfl

/-- What a read finds where the keys of the history lead to the keys of the store:
the transaction's own last write under this key, or else the store. -/
def locatedValue (locate : κ → κ') (initial : Store κ' ν) (history : History τ κ ν)
    (transaction : τ) (key : κ) : Option ν :=
  (lastValue (writesOf history transaction) key).or
    (replay initial (history.map (Act.map id locate id)) (locate key))

/-- **Renaming.**  What a read finds does not depend on the names, as long as they
tell apart what occurs and lead to the same keys of the store. -/
theorem locatedValue_map {γ : Type} [DecidableEq γ] {f : τ → τ'} {g : κ → κ'} {locate : κ → γ}
    {locate' : κ' → γ} {owners : Set τ} {keys : Set κ} {history : History τ κ ν}
    (hf : Set.InjOn f owners) (hg : Set.InjOn g keys) (hwithin : Within owners keys history)
    (hlocate : ∀ key ∈ keys, locate' (g key) = locate key) (initial : Store γ ν)
    {transaction : τ} (htransaction : transaction ∈ owners) {key : κ} (hkey : key ∈ keys) :
    locatedValue locate' initial (history.map (Act.map f g id)) (f transaction) (g key) =
      locatedValue locate initial history transaction key := by
  unfold locatedValue
  have hreflect : ∀ write ∈ writesOf history transaction, g write.1 = g key → write.1 = key :=
    fun write hwrite heq => hg (hwithin.key_of_mem_writesOf hwrite) hkey heq
  rw [writesOf_map hf hwithin.owner htransaction, lastValue_map hreflect, Option.map_id,
    map_map_locate hwithin hlocate, replay_map hf initial hwithin.owner, hlocate key hkey]
  rfl

end Replay

end DeferredUpdate
