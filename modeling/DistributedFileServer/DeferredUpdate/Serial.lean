import DistributedFileServer.DeferredUpdate.Grouping
import DistributedFileServer.DeferredUpdate.History
import Mathlib.Data.List.Nodup

/-!
# Serial executions

Grouping the entries of a history by their owners turns it into the serial
execution of its transactions.  Under deferred update the store at the end only
depends on the order of the commits, so the serial execution in this order ends
in the same store.  A read finds in it what it found in the history, unless
somebody committed a write of its key between the read and the reader's commit.
-/

namespace DeferredUpdate

/-! ## The order of the commits -/

section Commits

variable {τ κ ν : Type}

/-- The transaction a commit entry commits. -/
def Act.commit? : Act τ κ ν → Option τ
  | commit owner => some owner
  | read _ _ | write _ _ _ | vote _ _ | abort _ => none

/-- The committed transactions, in the order of their commits. -/
def commitOrder (history : History τ κ ν) : List τ :=
  history.filterMap Act.commit?

/-- A transaction does nothing after its own commit. -/
def EndsAtCommit (history : History τ κ ν) : Prop :=
  history.Pairwise fun earlier later => earlier ≠ .commit later.owner

theorem Act.commit?_eq_some_iff {act : Act τ κ ν} {transaction : τ} :
    act.commit? = some transaction ↔ act = commit transaction := by
  cases act <;> simp [commit?]

@[simp] theorem commitOrder_append (first second : History τ κ ν) :
    commitOrder (first ++ second) = commitOrder first ++ commitOrder second :=
  List.filterMap_append

theorem commitOrder_cons_commit (transaction : τ) (history : History τ κ ν) :
    commitOrder (Act.commit transaction :: history) = transaction :: commitOrder history := rfl

theorem mem_commitOrder_iff {history : History τ κ ν} {transaction : τ} :
    transaction ∈ commitOrder history ↔ Act.commit transaction ∈ history := by
  unfold commitOrder
  rw [List.mem_filterMap]
  simp only [Act.commit?_eq_some_iff, exists_eq_right]

theorem EndsAtCommit.of_append {first second : History τ κ ν}
    (h : EndsAtCommit (first ++ second)) : EndsAtCommit first :=
  (List.pairwise_append.mp h).1

/-- What comes after a commit belongs to other transactions. -/
theorem EndsAtCommit.owner_ne {first second : History τ κ ν} {act : Act τ κ ν} {transaction : τ}
    (h : EndsAtCommit (first ++ second)) (hcommit : Act.commit transaction ∈ first)
    (hact : act ∈ second) : act.owner ≠ transaction := by
  rintro rfl
  exact (List.pairwise_append.mp h).2.2 _ hcommit act hact rfl

/-- Nobody commits twice. -/
theorem EndsAtCommit.nodup_commitOrder {history : History τ κ ν} (h : EndsAtCommit history) :
    (commitOrder history).Nodup := by
  unfold commitOrder List.Nodup
  rw [List.pairwise_filterMap]
  apply h.imp
  intro earlier later hne transaction hearlier transaction' hlater
  rw [Act.commit?_eq_some_iff] at hearlier hlater
  subst hearlier hlater
  rintro rfl
  exact hne rfl

/-- The parts of a history in which everybody ends at the own commit. -/
theorem commitOrder_split {history past future : History τ κ ν} {transaction : τ}
    (hends : EndsAtCommit history) (hsplit : history = past ++ Act.commit transaction :: future)
    {earlier later : List τ} (horder : commitOrder history = earlier ++ transaction :: later) :
    earlier = commitOrder past := by
  have hnodup := hends.nodup_commitOrder
  rw [hsplit, commitOrder_append, commitOrder_cons_commit] at horder hnodup
  rcases List.append_eq_append_iff.mp horder with ⟨rest, hearlier, hrest⟩ | ⟨rest, hpast, hrest⟩
  · cases rest with
    | nil => rw [hearlier, List.append_nil]
    | cons head rest =>
        -- the transaction would be committed twice
        obtain ⟨rfl, htail⟩ := List.cons.inj hrest
        have hcons := (List.nodup_append.mp hnodup).2.1
        exact absurd (by rw [htail]; simp) (List.nodup_cons.mp hcons).1
  · cases rest with
    | nil => rw [hpast, List.append_nil]
    | cons head rest =>
        obtain ⟨rfl, -⟩ := List.cons.inj hrest
        have hdisjoint := (List.nodup_append.mp hnodup).2.2
        exact absurd rfl (hdisjoint transaction (by rw [hpast]; simp) transaction (by simp))

/-- In the order of the commits a transaction does not come before itself. -/
theorem EndsAtCommit.notMem_earlier {history : History τ κ ν} {transaction : τ}
    {earlier later : List τ} (h : EndsAtCommit history)
    (horder : commitOrder history = earlier ++ transaction :: later) :
    transaction ∉ earlier := by
  intro hmem
  have hnodup := h.nodup_commitOrder
  rw [horder] at hnodup
  exact (List.nodup_append.mp hnodup).2.2 transaction hmem transaction (by simp) rfl

variable [DecidableEq τ]

/-- The entries of a transaction that ends at its commit. -/
theorem commitOrder_group {history : History τ κ ν} {order : List τ}
    (hends : EndsAtCommit history)
    (hcommitted : ∀ transaction ∈ order, Act.commit transaction ∈ history) :
    commitOrder (group Act.owner order history) = order := by
  induction order with
  | nil => rfl
  | cons transaction order ih =>
      have hown : commitOrder (history.filter fun act => act.owner = transaction) =
          [transaction] := by
        obtain ⟨past, future, rfl⟩ := List.append_of_mem (hcommitted transaction (by simp))
        -- neither before its commit nor after it does the transaction commit
        have hpast : commitOrder (past.filter fun act => act.owner = transaction) = [] := by
          rw [List.eq_nil_iff_forall_not_mem]
          intro other hother
          obtain ⟨hcommit, howner⟩ := List.mem_filter.mp (mem_commitOrder_iff.mp hother)
          obtain rfl : other = transaction := of_decide_eq_true howner
          exact hends.owner_ne hcommit List.mem_cons_self rfl
        have hfuture : future.filter (fun act => act.owner = transaction) = [] := by
          rw [List.filter_eq_nil_iff]
          intro act hact howner
          have hends' : EndsAtCommit ((past ++ [Act.commit transaction]) ++ future) := by
            rw [List.append_assoc]
            exact hends
          exact hends'.owner_ne (by simp) hact (of_decide_eq_true howner)
        rw [List.filter_append, commitOrder_append, hpast, List.nil_append,
          List.filter_cons_of_pos (by simp), hfuture]
        rfl
      rw [group_cons, commitOrder_append, hown,
        ih fun other hother => hcommitted other (List.mem_cons_of_mem _ hother)]
      rfl

theorem EndsAtCommit.group {history : History τ κ ν} {order : List τ}
    (hends : EndsAtCommit history) (hnodup : order.Nodup) :
    EndsAtCommit (group Act.owner order history) := by
  unfold EndsAtCommit DeferredUpdate.group
  rw [List.pairwise_flatMap]
  constructor
  · intro transaction _
    exact hends.sublist List.filter_sublist
  · apply hnodup.imp
    rintro transaction other hne earlier hearlier later hlater rfl
    have hearlierOwner : later.owner = transaction :=
      of_decide_eq_true (List.mem_filter.mp hearlier).2
    have hlaterOwner : later.owner = other := of_decide_eq_true (List.mem_filter.mp hlater).2
    exact hne (hearlierOwner.symm.trans hlaterOwner)

/-- After its commit a transaction writes nothing more. -/
theorem EndsAtCommit.writesOf_append {first second : History τ κ ν} {transaction : τ}
    (h : EndsAtCommit (first ++ second)) (hcommit : Act.commit transaction ∈ first) :
    writesOf (first ++ second) transaction = writesOf first transaction := by
  have hnone : writesOf second transaction = [] := by
    unfold writesOf
    rw [List.filterMap_eq_nil_iff]
    intro act hact
    exact if_neg (h.owner_ne hcommit hact)
  rw [DeferredUpdate.writesOf_append, hnone, List.append_nil]

/-- What a transaction writes in a serial execution is what it wrote. -/
theorem writesOf_group {order : List τ} (hnodup : order.Nodup) {transaction : τ}
    (hmem : transaction ∈ order) (history : History τ κ ν) :
    writesOf (group Act.owner order history) transaction = writesOf history transaction := by
  rw [← writesOf_filter_owner, filter_group hnodup hmem, writesOf_filter_owner]

theorem writesOf_group_of_notMem {order : List τ} {transaction : τ}
    (hmem : transaction ∉ order) (history : History τ κ ν) :
    writesOf (group Act.owner order history) transaction = [] := by
  rw [← writesOf_filter_owner, filter_group_of_notMem hmem, writesOf_nil]

end Commits

/-! ## The store of a serial execution -/

section Stores

variable {τ κ ν : Type} [DecidableEq κ]

/-- Lay the writes of the transactions over the store, one transaction after
another. -/
def commitAll (writes : τ → List (κ × ν)) (order : List τ) (store : Store κ ν) : Store κ ν :=
  order.foldl (fun store transaction => applyWrites (writes transaction) store) store

theorem commitAll_append (writes : τ → List (κ × ν)) (first second : List τ)
    (store : Store κ ν) :
    commitAll writes (first ++ second) store =
      commitAll writes second (commitAll writes first store) :=
  List.foldl_append

theorem commitAll_congr {writes writes' : τ → List (κ × ν)} {order : List τ}
    (h : ∀ transaction ∈ order, writes transaction = writes' transaction) (store : Store κ ν) :
    commitAll writes order store = commitAll writes' order store := by
  unfold commitAll
  apply List.foldl_ext
  intro store transaction hmem
  rw [h transaction hmem]

variable [DecidableEq τ]

/-- **Commit order.**  The store depends on the order of the commits and on what
the committed transactions wrote, and on nothing else. -/
theorem replay_eq_commitAll (initial : Store κ ν) {history : History τ κ ν}
    (hends : EndsAtCommit history) :
    replay initial history =
      commitAll (writesOf history) (commitOrder history) initial := by
  induction history using List.reverseRecOn with
  | nil => rfl
  | append_singleton history act ih =>
      have hbefore := hends.of_append
      -- earlier commits are not touched by the last entry
      have hsame : commitAll (writesOf (history ++ [act])) (commitOrder history) initial =
          commitAll (writesOf history) (commitOrder history) initial := by
        apply commitAll_congr
        intro transaction hmem
        exact hends.writesOf_append (mem_commitOrder_iff.mp hmem)
      rw [replay_concat, commitOrder_append, commitAll_append, hsame, ← ih hbefore]
      cases act with
      | commit owner =>
          have hwrites : writesOf (history ++ [Act.commit owner]) owner =
              writesOf history owner :=
            writesOf_concat_of_ne (fun _ => rfl) history
          show applyWrites (writesOf history owner) (replay initial history) =
            applyWrites (writesOf (history ++ [Act.commit owner]) owner) (replay initial history)
          rw [hwrites]
      | _ => rfl

/-- The store after a serial execution of committed transactions. -/
theorem replay_group (initial : Store κ ν) {history : History τ κ ν} {order : List τ}
    (hends : EndsAtCommit history) (hnodup : order.Nodup)
    (hcommitted : ∀ transaction ∈ order, Act.commit transaction ∈ history) :
    replay initial (group Act.owner order history) =
      commitAll (writesOf history) order initial := by
  rw [replay_eq_commitAll initial (hends.group hnodup), commitOrder_group hends hcommitted]
  apply commitAll_congr
  intro transaction hmem
  exact writesOf_group hnodup hmem history

/-- **The store is serializable.**  The serial execution in the order of the
commits passes through the store after every part of the history. -/
theorem replay_group_commitOrder (initial : Store κ ν) {before after : History τ κ ν}
    (hends : EndsAtCommit (before ++ after)) :
    replay initial (group Act.owner (commitOrder before) (before ++ after)) =
      replay initial before := by
  have hcommitted : ∀ transaction ∈ commitOrder before,
      Act.commit transaction ∈ before ++ after := by
    intro transaction hmem
    exact List.mem_append_left _ (mem_commitOrder_iff.mp hmem)
  rw [replay_group initial hends hends.of_append.nodup_commitOrder hcommitted,
    replay_eq_commitAll initial hends.of_append]
  apply commitAll_congr
  intro transaction hmem
  exact hends.writesOf_append (mem_commitOrder_iff.mp hmem)

/-- `other` commits a write of the key after the transaction has read the key
from the store and before the transaction commits; `past` is what came before
the commit of `other`. -/
structure Overwrite (history : History τ κ ν) (transaction other : τ) (key : κ)
    (past future : History τ κ ν) : Prop where
  split : history = past ++ .commit other :: future
  other_ne : other ≠ transaction
  wrote : ∃ value, .write other key value ∈ past
  read : ∃ before after, past = before ++ .read transaction key :: after ∧
    ∀ value, .write transaction key value ∉ before
  commits : .commit transaction ∈ future

omit [DecidableEq κ] [DecidableEq τ] in
/-- The entries of an overwrite, in their order. -/
theorem Overwrite.sublist {history past future : History τ κ ν} {transaction other : τ} {key : κ}
    (h : Overwrite history transaction other key past future) :
    [.read transaction key, .commit other, .commit transaction].Sublist history := by
  obtain ⟨before, after, hpast, -⟩ := h.read
  have hread : [Act.read transaction key].Sublist past := by
    rw [List.singleton_sublist, hpast]
    simp
  have hcommits : [Act.commit other, .commit transaction].Sublist (.commit other :: future) :=
    (List.singleton_sublist.mpr h.commits).cons_cons _
  rw [h.split]
  exact hread.append hcommits

/-- Without an overwrite the key is still, at the transaction's commit, what it
was at the transaction's read. -/
theorem replay_apply_of_not_overwrite (initial : Store κ ν) {past mid rest : History τ κ ν}
    {transaction : τ} {key : κ}
    (hends : EndsAtCommit (past ++ .read transaction key :: (mid ++ .commit transaction :: rest)))
    (hunwritten : ∀ value, .write transaction key value ∉ past)
    (hkept : ∀ other before after,
      ¬ Overwrite (past ++ .read transaction key :: (mid ++ .commit transaction :: rest))
        transaction other key before after) :
    replay initial (past ++ .read transaction key :: mid) key = replay initial past key := by
  rw [replay_append]
  apply replayFrom_apply_of_no_commit
  intro before other after hsplit
  cases before with
  | nil => cases (List.cons.inj hsplit).1
  | cons head before =>
      obtain ⟨rfl, rfl⟩ := List.cons.inj hsplit
      rw [lastValue_eq_none_iff]
      rintro ⟨key', value⟩ hwrite rfl
      have hne : other ≠ transaction := by
        rintro rfl
        -- nobody commits twice
        have hends' : EndsAtCommit ((past ++ .read other key' :: (before ++ [.commit other])) ++
            (after ++ .commit other :: rest)) := by
          simpa using hends
        have hcommit : Act.commit other ∈
            past ++ .read other key' :: (before ++ [.commit other]) := by simp
        exact hends'.owner_ne hcommit (List.mem_append_right _ List.mem_cons_self) rfl
      refine hkept other (past ++ .read transaction key' :: before)
        (after ++ .commit transaction :: rest)
        ⟨by simp, hne, ⟨value, mem_writesOf_iff.mp hwrite⟩, ⟨past, before, rfl, hunwritten⟩, ?_⟩
      simp

omit [DecidableEq κ] [DecidableEq τ] in
/-- An entry of a transaction that commits is followed by the commit. -/
theorem EndsAtCommit.commit_after {past future : History τ κ ν} {act : Act τ κ ν}
    {transaction : τ} (hends : EndsAtCommit (past ++ act :: future))
    (hcommit : .commit transaction ∈ past ++ act :: future) (howner : act.owner = transaction)
    (hact : act ≠ .commit transaction) :
    .commit transaction ∉ past ∧ ∃ mid rest, future = mid ++ .commit transaction :: rest := by
  have hpast : Act.commit transaction ∉ past := by
    intro hmem
    exact hends.owner_ne hmem List.mem_cons_self howner
  refine ⟨hpast, ?_⟩
  rcases List.mem_append.mp hcommit with hmem | hmem
  · exact absurd hmem hpast
  · rcases List.mem_cons.mp hmem with heq | hmem
    · exact absurd heq.symm hact
    · exact List.append_of_mem hmem

/-- The store before a transaction's own part of the serial execution is the one
at its commit; the transaction's entries up to one before its commit do not
change it. -/
theorem replay_group_own (initial : Store κ ν) {past act mid rest : History τ κ ν}
    {transaction : τ} {earlier later : List τ}
    (hends : EndsAtCommit (past ++ act ++ mid ++ .commit transaction :: rest))
    (horder : commitOrder (past ++ act ++ mid ++ .commit transaction :: rest) =
      earlier ++ transaction :: later)
    (hpast : .commit transaction ∉ past) :
    replay initial (group Act.owner earlier (past ++ act ++ mid ++ .commit transaction :: rest) ++
        past.filter fun act => act.owner = transaction) =
      replay initial (past ++ act ++ mid) := by
  have hserial : replay initial (group Act.owner earlier
      (past ++ act ++ mid ++ .commit transaction :: rest)) =
        replay initial (past ++ act ++ mid) := by
    rw [commitOrder_split hends rfl horder]
    exact replay_group_commitOrder initial hends
  rw [replay_append, hserial]
  apply replayFrom_of_no_commit
  intro other hmem
  obtain ⟨hmemPast, howner⟩ := List.mem_filter.mp hmem
  obtain rfl : other = transaction := of_decide_eq_true howner
  exact hpast hmemPast

/-- **Reads are serializable** where nothing is overwritten: in the serial
execution in the order of the commits, a committed transaction reads from a key
what it read from it in the history. -/
theorem readValue_group (initial : Store κ ν) {past future : History τ κ ν}
    {transaction : τ} {key : κ} {earlier later : List τ}
    (hends : EndsAtCommit (past ++ .read transaction key :: future))
    (horder : commitOrder (past ++ .read transaction key :: future) =
      earlier ++ transaction :: later)
    (hkept : ∀ other before after, ¬ Overwrite (past ++ .read transaction key :: future)
      transaction other key before after) :
    readValue initial (group Act.owner earlier (past ++ .read transaction key :: future) ++
        past.filter fun act => act.owner = transaction) transaction key =
      readValue initial past transaction key := by
  have hwrites : writesOf (group Act.owner earlier (past ++ .read transaction key :: future) ++
      past.filter fun act => act.owner = transaction) transaction =
        writesOf past transaction := by
    rw [writesOf_append, writesOf_group_of_notMem (hends.notMem_earlier horder),
      List.nil_append, writesOf_filter_owner]
  unfold readValue
  rw [hwrites]
  cases hlast : lastValue (writesOf past transaction) key with
  | some value => rfl
  | none =>
      -- the read goes to the store, which no other commit changes in time
      have hunwritten : ∀ value, Act.write transaction key value ∉ past := by
        intro value hmem
        exact (lastValue_eq_none_iff _ _).mp hlast _ (mem_writesOf_iff.mpr hmem) rfl
      have hcommit : Act.commit transaction ∈ past ++ .read transaction key :: future := by
        rw [← mem_commitOrder_iff, horder]
        simp
      obtain ⟨hpast, mid, rest, rfl⟩ := hends.commit_after hcommit rfl nofun
      have hkey := replay_apply_of_not_overwrite initial hends hunwritten hkept
      have hsplit : past ++ .read transaction key :: (mid ++ .commit transaction :: rest) =
          past ++ [.read transaction key] ++ mid ++ .commit transaction :: rest := by simp
      rw [hsplit] at hends horder ⊢
      rw [replay_group_own initial hends horder hpast, List.append_assoc, List.singleton_append,
        hkey]

end Stores

end DeferredUpdate
