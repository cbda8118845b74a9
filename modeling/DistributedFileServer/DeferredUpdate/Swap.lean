import DistributedFileServer.DeferredUpdate.History

/-!
# Swapping neighbours of two apart transactions

Two transactions are apart in a history if they name no common key in it.
Exchanging two neighbouring entries of two such transactions changes neither
what any transaction has written nor the replay.
-/

namespace DeferredUpdate

variable {τ κ ν : Type}

/-- `left` and `right` name no common key. -/
def Apart (history : History τ κ ν) (left right : τ) : Prop :=
  ∀ act ∈ history, ∀ act' ∈ history, act.owner = left → act'.owner = right →
    ∀ key, act.key? = some key → act'.key? ≠ some key

/-- `swapped` is `history`, or `history` with one entry of `left` and the next
one of `right` exchanged. -/
def SwappedAt (left right : τ) (history swapped : History τ κ ν) : Prop :=
  history = swapped ∨ ∃ before act act' after,
    act.owner = left ∧ act'.owner = right ∧
      history = before ++ act :: act' :: after ∧ swapped = before ++ act' :: act :: after

theorem Apart.symm {history : History τ κ ν} {left right : τ} (h : Apart history left right) :
    Apart history right left := by
  intro act hact act' hact' howner howner' key hkey hkey'
  exact h act' hact' act hact howner' howner key hkey' hkey

theorem Apart.mono {history history' : History τ κ ν} {left right : τ}
    (h : Apart history left right) (hsubset : ∀ act ∈ history', act ∈ history) :
    Apart history' left right := by
  intro act hact act' hact'
  exact h act (hsubset act hact) act' (hsubset act' hact')

theorem SwappedAt.mem {history swapped : History τ κ ν} {left right : τ}
    (h : SwappedAt left right history swapped) {act : Act τ κ ν} (hact : act ∈ swapped) :
    act ∈ history := by
  rcases h with rfl | ⟨before, first, second, after, -, -, rfl, rfl⟩
  · exact hact
  · simp only [List.mem_append, List.mem_cons] at hact ⊢
    tauto

theorem SwappedAt.append {history swapped : History τ κ ν} {left right : τ}
    (h : SwappedAt left right history swapped) (rest : History τ κ ν) :
    SwappedAt left right (history ++ rest) (swapped ++ rest) := by
  rcases h with rfl | ⟨before, first, second, after, hleft, hright, rfl, rfl⟩
  · exact Or.inl rfl
  · exact Or.inr ⟨before, first, second, after ++ rest, hleft, hright, by simp, by simp⟩

/-- A selection that drops the entries of `left`, or those of `right`, does not
see the exchange. -/
theorem SwappedAt.filter_eq {history swapped : History τ κ ν} {left right : τ}
    (h : SwappedAt left right history swapped) {keep : Act τ κ ν → Bool}
    (hkeep : (∀ act, act.owner = left → keep act = false) ∨
      ∀ act, act.owner = right → keep act = false) :
    history.filter keep = swapped.filter keep := by
  rcases h with rfl | ⟨before, first, second, after, hleft, hright, rfl, rfl⟩
  · rfl
  rcases hkeep with hdropped | hdropped
  · have hfirst : keep first = false := hdropped first hleft
    simp [List.filter_append, List.filter_cons, hfirst]
  · have hsecond : keep second = false := hdropped second hright
    simp [List.filter_append, List.filter_cons, hsecond]

section Writes

variable [DecidableEq τ]

/-- No transaction's writes see the exchange. -/
theorem SwappedAt.writesOf_eq {history swapped : History τ κ ν} {left right : τ}
    (h : SwappedAt left right history swapped) (hne : left ≠ right) (transaction : τ) :
    writesOf history transaction = writesOf swapped transaction := by
  have hown : ∀ act : Act τ κ ν, act.owner = transaction →
      decide (act.owner = transaction) = true := by
    intro act howner
    exact decide_eq_true howner
  rw [← writesOf_filter hown history, ← writesOf_filter hown swapped]
  apply congrArg (fun kept => writesOf kept transaction)
  apply h.filter_eq
  by_cases hleft : left = transaction
  · right
    rintro act rfl
    exact decide_eq_false fun h => hne (hleft.trans h.symm)
  · left
    rintro act rfl
    exact decide_eq_false hleft

/-- A written key is named by its writer. -/
theorem key?_of_mem_writesOf {history : History τ κ ν} {transaction : τ} {write : κ × ν}
    (h : write ∈ writesOf history transaction) :
    ∃ act ∈ history, act.owner = transaction ∧ act.key? = some write.1 :=
  ⟨_, mem_writesOf_iff.mp h, rfl, rfl⟩

end Writes

section Replay

variable [DecidableEq τ] [DecidableEq κ]

/-- Two neighbouring entries of apart transactions commute on every store. -/
theorem effect_comm {past : History τ κ ν} {first second : Act τ κ ν}
    (hne : first.owner ≠ second.owner) (hapart : Apart past first.owner second.owner)
    (store : Store κ ν) :
    second.effect (past ++ [first]) (first.effect past store) =
      first.effect (past ++ [second]) (second.effect past store) := by
  cases first with
  | commit owner =>
      have hsecond : writesOf (past ++ [second]) owner = writesOf past owner :=
        writesOf_concat_of_ne (fun h => absurd h.symm hne) past
      cases second with
      | commit owner' =>
          have hfirst : writesOf (past ++ [Act.commit owner]) owner' = writesOf past owner' :=
            writesOf_concat_of_ne (fun _ => rfl) past
          simp only [Act.effect, hfirst, hsecond]
          apply applyWrites_comm
          intro write hwrite write' hwrite' hkey
          obtain ⟨act, hact, howner, hnames⟩ := key?_of_mem_writesOf hwrite
          obtain ⟨act', hact', howner', hnames'⟩ := key?_of_mem_writesOf hwrite'
          rw [hkey] at hnames
          exact hapart act' hact' act hact howner' howner _ hnames' hnames
      | _ => simp only [Act.effect, hsecond]
  | _ =>
      cases second with
      | commit owner' =>
          exact congrArg (applyWrites · store)
            (writesOf_concat_of_ne (fun h => absurd h hne) past)
      | _ => rfl

/-- The replay does not see the exchange. -/
theorem SwappedAt.replay_eq {initial : Store κ ν} {history swapped : History τ κ ν}
    {left right : τ} (h : SwappedAt left right history swapped) (hne : left ≠ right)
    (hapart : Apart history left right) :
    replay initial history = replay initial swapped := by
  rcases h with rfl | ⟨before, first, second, after, rfl, rfl, rfl, rfl⟩
  · rfl
  have hbefore : Apart before first.owner second.owner :=
    hapart.mono fun act hact => List.mem_append_left _ hact
  rw [replay_append, replay_append]
  simp only [replayFrom]
  rw [effect_comm hne hbefore]
  apply replayFrom_congr
  intro transaction
  have hswapped : SwappedAt first.owner second.owner
      (before ++ [first] ++ [second]) (before ++ [second] ++ [first]) :=
    Or.inr ⟨before, first, second, [], rfl, rfl, by simp, by simp⟩
  exact hswapped.writesOf_eq hne transaction

/-- An entry of another transaction leaves alone the keys it does not share. -/
theorem replay_concat_apply_of_apart {initial : Store κ ν} {history : History τ κ ν}
    {act : Act τ κ ν} {key : κ}
    (hunnamed : ∀ act' ∈ history, act'.owner = act.owner → act'.key? ≠ some key) :
    replay initial (history ++ [act]) key = replay initial history key := by
  rw [replay_concat]
  cases act with
  | commit owner =>
      have hnone : lastValue (writesOf history owner) key = none := by
        rw [lastValue_eq_none_iff]
        rintro write hwrite rfl
        obtain ⟨act', hact', howner, hnames⟩ := key?_of_mem_writesOf hwrite
        exact hunnamed act' hact' howner hnames
      simp [Act.effect, applyWrites_apply, hnone]
  | _ => rfl

end Replay

end DeferredUpdate
