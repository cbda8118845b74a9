import DistributedFileServer.DeferredUpdate.Relabelling
import DistributedFileServer.DeferredUpdate.Swap

/-!
# First-file validation

The vote on a transaction looks at two of its keys only, the one of its first
write and the one of its first read, and at the entries that committed
transactions logged after its own first entry.  This file states that rule on
histories, without row ids, and shows on which entries it depends.
-/

namespace DistributedFileServer

open DeferredUpdate

variable {τ κ ν : Type} [DecidableEq τ]

/-- The entries after the first entry of the transaction. -/
def since (history : History τ κ ν) (transaction : τ) : History τ κ ν :=
  (history.dropWhile fun act => act.owner ≠ transaction).tail

/-- The key of the transaction's first write. -/
def firstWritten (history : History τ κ ν) (transaction : τ) : Option κ :=
  (writesOf history transaction).head?.map Prod.fst

/-- The key of the transaction's first read. -/
def firstRead (history : History τ κ ν) (transaction : τ) : Option κ :=
  (readsOf history transaction).head?

/-- The entry clashes with the keys the vote looks at: it names the key of the
first write, or it writes the key of the first read. -/
def Clashes (history : History τ κ ν) (transaction : τ) (act : Act τ κ ν) : Prop :=
  (∃ key, firstWritten history transaction = some key ∧ act.key? = some key) ∨
    ∃ key value, firstRead history transaction = some key ∧ act.write? = some (key, value)

/-- `other` committed, and logged a clashing entry after the transaction's
first entry. -/
def InterceptedBy (history : History τ κ ν) (transaction other : τ) : Prop :=
  Act.commit other ∈ history ∧
    ∃ act ∈ since history transaction, act.owner = other ∧ Clashes history transaction act

/-- Some other transaction intercepts the transaction. -/
def Intercepted (history : History τ κ ν) (transaction : τ) : Prop :=
  ∃ other, other ≠ transaction ∧ InterceptedBy history transaction other

/-- Votes agree where each other transaction intercepts in both histories or in
none. -/
theorem intercepted_congr {history history' : History τ κ ν} {transaction : τ}
    (h : ∀ other, other ≠ transaction →
      (InterceptedBy history transaction other ↔ InterceptedBy history' transaction other)) :
    Intercepted history transaction ↔ Intercepted history' transaction := by
  constructor
  · rintro ⟨other, hother, hby⟩
    exact ⟨other, hother, (h other hother).mp hby⟩
  · rintro ⟨other, hother, hby⟩
    exact ⟨other, hother, (h other hother).mpr hby⟩

@[simp] theorem since_nil (transaction : τ) : since ([] : History τ κ ν) transaction = [] := rfl

theorem since_cons_of_eq {act : Act τ κ ν} {transaction : τ} (h : act.owner = transaction)
    (history : History τ κ ν) : since (act :: history) transaction = history := by
  simp [since, h]

theorem since_cons_of_ne {act : Act τ κ ν} {transaction : τ} (h : act.owner ≠ transaction)
    (history : History τ κ ν) : since (act :: history) transaction = since history transaction := by
  simp [since, h]

theorem since_append_of_ne {front : History τ κ ν} {transaction : τ}
    (h : ∀ act ∈ front, act.owner ≠ transaction) (back : History τ κ ν) :
    since (front ++ back) transaction = since back transaction := by
  induction front with
  | nil => rfl
  | cons act front ih =>
      rw [List.cons_append, since_cons_of_ne (h act List.mem_cons_self),
        ih fun other hother => h other (List.mem_cons_of_mem _ hother)]

/-- An entry lies after the first entry of a transaction exactly if some entry
of the transaction comes before it. -/
theorem mem_since_iff {history : History τ κ ν} {transaction : τ} {act : Act τ κ ν} :
    act ∈ since history transaction ↔
      ∃ before after, history = before ++ act :: after ∧
        ∃ earlier ∈ before, earlier.owner = transaction := by
  induction history with
  | nil => simp
  | cons head history ih =>
      -- either the head is the first entry, or it plays no part
      by_cases howner : head.owner = transaction
      · rw [since_cons_of_eq howner]
        constructor
        · intro hmem
          obtain ⟨before, after, hsplit⟩ := List.append_of_mem hmem
          exact ⟨head :: before, after, by rw [hsplit, List.cons_append], head,
            List.mem_cons_self, howner⟩
        · rintro ⟨before, after, hsplit, earlier, hearlier, -⟩
          cases before with
          | nil => cases hearlier
          | cons first before =>
              obtain ⟨-, rfl⟩ := List.cons.inj hsplit
              simp
      · rw [since_cons_of_ne howner, ih]
        constructor
        · rintro ⟨before, after, rfl, earlier, hearlier, hown⟩
          exact ⟨head :: before, after, rfl, earlier, List.mem_cons_of_mem _ hearlier, hown⟩
        · rintro ⟨before, after, hsplit, earlier, hearlier, hown⟩
          cases before with
          | nil => cases hearlier
          | cons first before =>
              obtain ⟨rfl, rfl⟩ := List.cons.inj hsplit
              refine ⟨before, after, rfl, earlier, ?_, hown⟩
              rcases List.mem_cons.mp hearlier with rfl | hearlier
              · exact absurd hown howner
              · exact hearlier

theorem mem_since_append {first : History τ κ ν} {transaction : τ} {act : Act τ κ ν}
    (h : act ∈ since first transaction) (second : History τ κ ν) :
    act ∈ since (first ++ second) transaction := by
  rw [mem_since_iff] at h ⊢
  obtain ⟨before, after, rfl, hearlier⟩ := h
  exact ⟨before, after ++ second, by simp, hearlier⟩

/-- A first write stays the first write. -/
theorem firstWritten_append {first : History τ κ ν} {transaction : τ}
    (h : writesOf first transaction ≠ []) (second : History τ κ ν) :
    firstWritten (first ++ second) transaction = firstWritten first transaction := by
  unfold firstWritten
  rw [writesOf_append, List.head?_append_of_ne_nil _ h]

/-- A first read stays the first read. -/
theorem firstRead_append {first : History τ κ ν} {transaction : τ}
    (h : readsOf first transaction ≠ []) (second : History τ κ ν) :
    firstRead (first ++ second) transaction = firstRead first transaction := by
  unfold firstRead
  rw [readsOf_append, List.head?_append_of_ne_nil _ h]

/-- The first written key was written. -/
theorem write_mem_of_firstWritten {history : History τ κ ν} {transaction : τ} {key : κ}
    (h : firstWritten history transaction = some key) :
    ∃ value, Act.write transaction key value ∈ history := by
  obtain ⟨⟨key', value⟩, hhead, rfl⟩ := Option.map_eq_some_iff.mp h
  exact ⟨value, mem_writesOf_iff.mp (List.mem_of_head? hhead)⟩

/-- The first read key was read. -/
theorem read_mem_of_firstRead {history : History τ κ ν} {transaction : τ} {key : κ}
    (h : firstRead history transaction = some key) : Act.read transaction key ∈ history :=
  mem_readsOf_iff.mp (List.mem_of_head? h)

/-- What clashes with the first keys clashes with them in every continuation. -/
theorem Clashes.append {first : History τ κ ν} {transaction : τ} {act : Act τ κ ν}
    (h : Clashes first transaction act) (second : History τ κ ν) :
    Clashes (first ++ second) transaction act := by
  rcases h with ⟨key, hfirst, hkey⟩ | ⟨key, value, hfirst, hwrite⟩
  · have hne : writesOf first transaction ≠ [] := by
      rintro hnil
      simp [firstWritten, hnil] at hfirst
    exact Or.inl ⟨key, by rw [firstWritten_append hne, hfirst], hkey⟩
  · have hne : readsOf first transaction ≠ [] := by
      rintro hnil
      simp [firstRead, hnil] at hfirst
    exact Or.inr ⟨key, value, by rw [firstRead_append hne, hfirst], hwrite⟩

/-- **Verdicts are final.**  An intercepted transaction stays intercepted, whatever
is logged later. -/
theorem Intercepted.append {first : History τ κ ν} {transaction : τ}
    (h : Intercepted first transaction) (second : History τ κ ν) :
    Intercepted (first ++ second) transaction := by
  obtain ⟨other, hother, hcommit, act, hact, howner, hclash⟩ := h
  exact ⟨other, hother, List.mem_append_left _ hcommit, act, mem_since_append hact second,
    howner, hclash.append second⟩

/-- Dropping entries of other transactions before or after the first entry
drops just these from what comes after it. -/
theorem since_filter {keep : Act τ κ ν → Bool} {transaction : τ}
    (hkeep : ∀ act : Act τ κ ν, act.owner = transaction → keep act = true)
    (history : History τ κ ν) :
    since (history.filter keep) transaction = (since history transaction).filter keep := by
  induction history with
  | nil => rfl
  | cons act history ih =>
      by_cases howner : act.owner = transaction
      · rw [List.filter_cons_of_pos (hkeep act howner), since_cons_of_eq howner,
          since_cons_of_eq howner]
      · rw [since_cons_of_ne howner]
        cases hact : keep act with
        | true => rw [List.filter_cons_of_pos hact, since_cons_of_ne howner, ih]
        | false => rw [List.filter_cons_of_neg (by simp [hact]), ih]

/-- The keys the vote looks at depend on the transaction's own entries only. -/
theorem clashes_filter {keep : Act τ κ ν → Bool} {transaction : τ}
    (hkeep : ∀ act : Act τ κ ν, act.owner = transaction → keep act = true)
    (history : History τ κ ν) (act : Act τ κ ν) :
    Clashes (history.filter keep) transaction act ↔ Clashes history transaction act := by
  unfold Clashes firstWritten firstRead
  rw [writesOf_filter hkeep, readsOf_filter hkeep]

/-- Whether one transaction intercepts another depends on the entries of these
two only. -/
theorem interceptedBy_filter {keep : Act τ κ ν → Bool} {transaction other : τ}
    (hkeep : ∀ act : Act τ κ ν, act.owner = transaction → keep act = true)
    (hkeep' : ∀ act : Act τ κ ν, act.owner = other → keep act = true)
    (history : History τ κ ν) :
    InterceptedBy (history.filter keep) transaction other ↔
      InterceptedBy history transaction other := by
  unfold InterceptedBy
  rw [since_filter hkeep]
  constructor
  · rintro ⟨hcommit, act, hact, howner, hclash⟩
    exact ⟨(List.mem_filter.mp hcommit).1, act, (List.mem_filter.mp hact).1, howner,
      (clashes_filter hkeep history act).mp hclash⟩
  · rintro ⟨hcommit, act, hact, howner, hclash⟩
    exact ⟨List.mem_filter.mpr ⟨hcommit, hkeep' _ rfl⟩, act,
      List.mem_filter.mpr ⟨hact, hkeep' _ howner⟩, howner,
      (clashes_filter hkeep history act).mpr hclash⟩

/-- The vote depends on the entries of the transaction and of the committed
transactions only. -/
theorem intercepted_filter {keep : Act τ κ ν → Bool} {history : History τ κ ν}
    {transaction : τ} (hkeep : ∀ act : Act τ κ ν, act.owner = transaction → keep act = true)
    (hcommitted : ∀ other, Act.commit other ∈ history →
      ∀ act : Act τ κ ν, act.owner = other → keep act = true) :
    Intercepted (history.filter keep) transaction ↔ Intercepted history transaction := by
  constructor
  · rintro ⟨other, hother, hby⟩
    have hcommit : Act.commit other ∈ history := (List.mem_filter.mp hby.1).1
    exact ⟨other, hother,
      (interceptedBy_filter hkeep (hcommitted other hcommit) history).mp hby⟩
  · rintro ⟨other, hother, hby⟩
    exact ⟨other, hother,
      (interceptedBy_filter hkeep (hcommitted other hby.1) history).mpr hby⟩

/-- A transaction that never commits does not enter any other vote. -/
theorem intercepted_filter_of_no_commit {history : History τ κ ν} {transaction absent : τ}
    (hne : transaction ≠ absent) (habsent : Act.commit absent ∉ history) :
    Intercepted (history.filter fun act => act.owner ≠ absent) transaction ↔
      Intercepted history transaction := by
  apply intercepted_filter
  · intro act howner
    simpa [howner] using hne
  · intro other hcommit act howner
    have hpresent : other ≠ absent := by
      rintro rfl
      exact habsent hcommit
    simpa [howner] using hpresent

theorem mem_of_mem_since {history : History τ κ ν} {transaction : τ} {act : Act τ κ ν}
    (h : act ∈ since history transaction) : act ∈ history :=
  (List.dropWhile_sublist _).mem (List.mem_of_mem_tail h)

/-- A transaction that runs after all others is not intercepted. -/
theorem not_intercepted_last {front own : History τ κ ν} {transaction : τ}
    (hfront : ∀ act ∈ front, act.owner ≠ transaction)
    (hown : ∀ act ∈ own, act.owner = transaction) :
    ¬ Intercepted (front ++ own) transaction := by
  rintro ⟨other, hother, -, act, hact, rfl, -⟩
  rw [since_append_of_ne hfront] at hact
  exact hother (hown act (mem_of_mem_since hact))

/-- The key of the first write is named by the transaction. -/
theorem key?_of_firstWritten {history : History τ κ ν} {transaction : τ} {key : κ}
    (h : firstWritten history transaction = some key) :
    ∃ act ∈ history, act.owner = transaction ∧ act.key? = some key := by
  obtain ⟨value, hwrite⟩ := write_mem_of_firstWritten h
  exact ⟨_, hwrite, rfl, rfl⟩

/-- The key of the first read is named by the transaction. -/
theorem key?_of_firstRead {history : History τ κ ν} {transaction : τ} {key : κ}
    (h : firstRead history transaction = some key) :
    ∃ act ∈ history, act.owner = transaction ∧ act.key? = some key :=
  ⟨_, read_mem_of_firstRead h, rfl, rfl⟩

/-- Transactions that name no common key do not intercept each other. -/
theorem not_interceptedBy_of_apart {history : History τ κ ν} {transaction other : τ}
    (hapart : Apart history transaction other) : ¬ InterceptedBy history transaction other := by
  rintro ⟨-, act, hact, howner, hclash⟩
  have hmem := mem_of_mem_since hact
  rcases hclash with ⟨key, hfirst, hkey⟩ | ⟨key, value, hfirst, hwrite⟩
  · obtain ⟨own, hown, howner', hnames⟩ := key?_of_firstWritten hfirst
    exact hapart own hown act hmem howner' howner key hnames hkey
  · obtain ⟨own, hown, howner', hnames⟩ := key?_of_firstRead hfirst
    exact hapart own hown act hmem howner' howner key hnames (Act.key?_of_write? hwrite)

/-- Two histories with the same entries of two transactions agree on whether one
of these intercepts the other. -/
theorem interceptedBy_congr {history history' : History τ κ ν} {transaction other : τ}
    (h : (history.filter fun act => act.owner = transaction ∨ act.owner = other) =
      history'.filter fun act => act.owner = transaction ∨ act.owner = other) :
    InterceptedBy history transaction other ↔ InterceptedBy history' transaction other := by
  have hown : ∀ act : Act τ κ ν, act.owner = transaction →
      decide (act.owner = transaction ∨ act.owner = other) = true :=
    fun act howner => decide_eq_true (Or.inl howner)
  have hother : ∀ act : Act τ κ ν, act.owner = other →
      decide (act.owner = transaction ∨ act.owner = other) = true :=
    fun act howner => decide_eq_true (Or.inr howner)
  rw [← interceptedBy_filter hown hother history, h, interceptedBy_filter hown hother history']

/-- No vote sees the exchange of two neighbouring entries of apart transactions. -/
theorem intercepted_of_swappedAt {history swapped : History τ κ ν} {left right : τ}
    (h : SwappedAt left right history swapped) (hne : left ≠ right)
    (hapart : Apart history left right) (transaction : τ) :
    Intercepted history transaction ↔ Intercepted swapped transaction := by
  have hapart' : Apart swapped left right := hapart.mono fun act hact => h.mem hact
  apply intercepted_congr
  intro other hother
  by_cases hboth : (left = transaction ∧ right = other) ∨ (right = transaction ∧ left = other)
  · -- the two apart transactions themselves
    rcases hboth with ⟨rfl, rfl⟩ | ⟨rfl, rfl⟩
    · exact iff_of_false (not_interceptedBy_of_apart hapart)
        (not_interceptedBy_of_apart hapart')
    · exact iff_of_false (not_interceptedBy_of_apart hapart.symm)
        (not_interceptedBy_of_apart hapart'.symm)
  · -- at most one of them is looked at
    apply interceptedBy_congr
    apply h.filter_eq
    by_cases hleft : left = transaction ∨ left = other
    · right
      rintro act rfl
      apply decide_eq_false
      rintro (hright | hright)
      · rcases hleft with rfl | rfl
        · exact hne hright.symm
        · exact hboth (Or.inr ⟨hright, rfl⟩)
      · rcases hleft with rfl | rfl
        · exact hboth (Or.inl ⟨rfl, hright⟩)
        · exact hne hright.symm
    · left
      rintro act rfl
      exact decide_eq_false hleft

/-- An entry of a transaction that is apart does not change the vote. -/
theorem intercepted_concat_of_apart {history : History τ κ ν} {act : Act τ κ ν}
    {transaction : τ} (hne : act.owner ≠ transaction)
    (hapart : Apart (history ++ [act]) transaction act.owner) :
    Intercepted (history ++ [act]) transaction ↔ Intercepted history transaction := by
  apply intercepted_congr
  intro other hother
  by_cases hsame : act.owner = other
  · subst hsame
    exact iff_of_false (not_interceptedBy_of_apart hapart)
      (not_interceptedBy_of_apart
        (hapart.mono fun act hact => List.mem_append_left _ hact))
  · apply interceptedBy_congr
    simp [List.filter_append, hne, hsame]

/-! ## Renaming -/

section Map

variable {τ' κ' ν' : Type} [DecidableEq τ'] {f : τ → τ'} {g : κ → κ'} {h : ν → ν'}
  {owners : Set τ} {keys : Set κ} {history : History τ κ ν} {transaction : τ}

/-- What comes after the first entry is renamed along. -/
theorem since_map (hf : Set.InjOn f owners) (hhistory : ∀ act ∈ history, act.owner ∈ owners)
    (htransaction : transaction ∈ owners) :
    since (history.map (Act.map f g h)) (f transaction) =
      (since history transaction).map (Act.map f g h) := by
  induction history with
  | nil => rfl
  | cons act history ih =>
      have hrest : ∀ act ∈ history, act.owner ∈ owners :=
        fun act hact => hhistory act (List.mem_cons_of_mem _ hact)
      rw [List.map_cons]
      by_cases howner : act.owner = transaction
      · rw [since_cons_of_eq howner, since_cons_of_eq (by rw [Act.owner_map, howner])]
      · have hne : (act.map f g h).owner ≠ f transaction := by
          rw [Act.owner_map]
          intro heq
          exact howner (hf (hhistory act List.mem_cons_self) htransaction heq)
        rw [since_cons_of_ne howner, since_cons_of_ne hne, ih hrest]

/-- The clashing entries are the same ones. -/
theorem clashes_map (hf : Set.InjOn f owners) (hg : Set.InjOn g keys)
    (hwithin : Within owners keys history) (htransaction : transaction ∈ owners) {act : Act τ κ ν}
    (hact : act ∈ history) :
    Clashes (history.map (Act.map f g h)) (f transaction) (act.map f g h) ↔
      Clashes history transaction act := by
  have hwritten : firstWritten (history.map (Act.map f g h)) (f transaction) =
      (firstWritten history transaction).map g := by
    unfold firstWritten
    rw [writesOf_map hf hwithin.owner htransaction, List.head?_map, Option.map_map, Option.map_map]
    rfl
  have hread : firstRead (history.map (Act.map f g h)) (f transaction) =
      (firstRead history transaction).map g := by
    unfold firstRead
    rw [readsOf_map hf hwithin.owner htransaction, List.head?_map]
  unfold Clashes
  rw [hwritten, hread]
  constructor
  · rintro (⟨_, hmapped, hnamed⟩ | ⟨_, _, hmapped, hnamed⟩)
    · obtain ⟨key, hfirst, rfl⟩ := Option.map_eq_some_iff.mp hmapped
      rw [Act.key?_map] at hnamed
      obtain ⟨key', hkey, heq⟩ := Option.map_eq_some_iff.mp hnamed
      obtain ⟨value, hmem⟩ := write_mem_of_firstWritten hfirst
      obtain rfl := hg (hwithin.key act hact key' hkey) (hwithin.key _ hmem key rfl) heq
      exact Or.inl ⟨key', hfirst, hkey⟩
    · obtain ⟨key, hfirst, rfl⟩ := Option.map_eq_some_iff.mp hmapped
      rw [Act.write?_map] at hnamed
      obtain ⟨⟨key', value⟩, hwrite, heq⟩ := Option.map_eq_some_iff.mp hnamed
      have hmem := read_mem_of_firstRead hfirst
      obtain rfl := hg (hwithin.key act hact key' (Act.key?_of_write? hwrite))
        (hwithin.key _ hmem key rfl) (congrArg Prod.fst heq)
      exact Or.inr ⟨key', value, hfirst, hwrite⟩
  · rintro (⟨key, hfirst, hkey⟩ | ⟨key, value, hfirst, hwrite⟩)
    · exact Or.inl ⟨g key, by rw [hfirst]; rfl, by rw [Act.key?_map, hkey]; rfl⟩
    · exact Or.inr ⟨g key, h value, by rw [hfirst]; rfl, by rw [Act.write?_map, hwrite]; rfl⟩

/-- **Renaming.**  The vote does not depend on the names, as long as they tell
apart the transactions and the keys that occur. -/
theorem intercepted_map (hf : Set.InjOn f owners) (hg : Set.InjOn g keys)
    (hwithin : Within owners keys history) (htransaction : transaction ∈ owners) :
    Intercepted (history.map (Act.map f g h)) (f transaction) ↔
      Intercepted history transaction := by
  constructor
  · rintro ⟨_, hne, hcommit, _, hmem, howner, hclash⟩
    rw [since_map hf hwithin.owner htransaction] at hmem
    obtain ⟨act, hact, rfl⟩ := List.mem_map.mp hmem
    have hin := mem_of_mem_since hact
    obtain ⟨committing, hcommitting, heq⟩ := List.mem_map.mp hcommit
    -- the committing entry and the clashing one are one transaction's
    have hsame : committing = .commit act.owner := by
      cases committing with
      | commit owner =>
          obtain rfl := (Act.commit.injEq .. ▸ heq : f owner = _)
          rw [Act.owner_map] at howner
          rw [hf (hwithin.owner act hin) (hwithin.owner _ hcommitting) howner]
          rfl
      | _ => cases heq
    refine ⟨act.owner, ?_, hsame ▸ hcommitting, act, hact, rfl,
      (clashes_map hf hg hwithin htransaction hin).mp hclash⟩
    rintro rfl
    exact hne (by rw [← howner, Act.owner_map])
  · rintro ⟨other, hne, hcommit, act, hact, rfl, hclash⟩
    have hin := mem_of_mem_since hact
    refine ⟨f act.owner, ?_, List.mem_map.mpr ⟨_, hcommit, rfl⟩, act.map f g h, ?_,
      Act.owner_map act, (clashes_map hf hg hwithin htransaction hin).mpr hclash⟩
    · intro heq
      exact hne (hf (hwithin.owner act hin) htransaction heq)
    · rw [since_map hf hwithin.owner htransaction]
      exact List.mem_map_of_mem hact

end Map

end DistributedFileServer
