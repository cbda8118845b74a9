import DistributedFileServer.DeferredUpdate.Overlay
import Mathlib.Data.List.Basic

/-!
# Histories of deferred-update transactions

A history lists what the transactions did, oldest entry first.  Under deferred
update a write has no effect on the store until its transaction commits; the
commit then lays everything the transaction has written so far over the store.
Nothing here says who may commit and when: commits may be repeated, follow an
abort, or be followed by further writes.
-/

namespace DeferredUpdate

variable {τ κ ν : Type}

/-- One entry of a history.  `vote` records a vote asked for by the owner. -/
inductive Act (τ κ ν : Type) where
  | read (owner : τ) (key : κ)
  | write (owner : τ) (key : κ) (value : ν)
  | vote (owner : τ) (granted : Bool)
  | commit (owner : τ)
  | abort (owner : τ)
  deriving DecidableEq

namespace Act

/-- The transaction an entry belongs to. -/
def owner : Act τ κ ν → τ
  | read owner _ => owner
  | write owner _ _ => owner
  | vote owner _ => owner
  | commit owner => owner
  | abort owner => owner

/-- The pair a write entry writes. -/
def write? : Act τ κ ν → Option (κ × ν)
  | write _ key value => some (key, value)
  | read _ _ | vote _ _ | commit _ | abort _ => none

/-- The key a read entry reads. -/
def read? : Act τ κ ν → Option κ
  | read _ key => some key
  | write _ _ _ | vote _ _ | commit _ | abort _ => none

/-- The key a read or a write entry names. -/
def key? : Act τ κ ν → Option κ
  | read _ key => some key
  | write _ key _ => some key
  | vote _ _ | commit _ | abort _ => none

@[simp] theorem owner_read (owner : τ) (key : κ) :
    (read owner key : Act τ κ ν).owner = owner := rfl

@[simp] theorem owner_write (owner : τ) (key : κ) (value : ν) :
    (write owner key value).owner = owner := rfl

@[simp] theorem owner_vote (owner : τ) (granted : Bool) :
    (vote owner granted : Act τ κ ν).owner = owner := rfl

@[simp] theorem owner_commit (owner : τ) : (commit owner : Act τ κ ν).owner = owner := rfl

@[simp] theorem owner_abort (owner : τ) : (abort owner : Act τ κ ν).owner = owner := rfl

@[simp] theorem write?_read (owner : τ) (key : κ) :
    (read owner key : Act τ κ ν).write? = none := rfl

@[simp] theorem write?_write (owner : τ) (key : κ) (value : ν) :
    (write owner key value).write? = some (key, value) := rfl

@[simp] theorem write?_vote (owner : τ) (granted : Bool) :
    (vote owner granted : Act τ κ ν).write? = none := rfl

@[simp] theorem write?_commit (owner : τ) : (commit owner : Act τ κ ν).write? = none := rfl

@[simp] theorem write?_abort (owner : τ) : (abort owner : Act τ κ ν).write? = none := rfl

theorem eq_write_of_write? {act : Act τ κ ν} {key : κ} {value : ν}
    (h : act.write? = some (key, value)) : act = write act.owner key value := by
  cases act with
  | write owner key' value' =>
      obtain ⟨rfl, rfl⟩ : key' = key ∧ value' = value := by simpa using h
      rfl
  | _ => simp at h

/-- A named key is read or written. -/
theorem read_or_write_of_key? {act : Act τ κ ν} {key : κ} (h : act.key? = some key) :
    act = read act.owner key ∨ ∃ value, act = write act.owner key value := by
  cases act with
  | read owner key' =>
      obtain rfl : key' = key := by simpa [key?] using h
      exact Or.inl rfl
  | write owner key' value =>
      obtain rfl : key' = key := by simpa [key?] using h
      exact Or.inr ⟨value, rfl⟩
  | _ => simp [key?] at h

theorem key?_of_write? {act : Act τ κ ν} {key : κ} {value : ν}
    (h : act.write? = some (key, value)) : act.key? = some key := by
  cases act <;> simp_all [key?]

end Act

/-- A history, oldest entry first. -/
abbrev History (τ κ ν : Type) := List (Act τ κ ν)

section Writes

variable [DecidableEq τ]

/-- What a transaction has written, in order. -/
def writesOf (history : History τ κ ν) (transaction : τ) : List (κ × ν) :=
  history.filterMap fun act => if act.owner = transaction then act.write? else none

/-- What a transaction has read, in order. -/
def readsOf (history : History τ κ ν) (transaction : τ) : List κ :=
  history.filterMap fun act => if act.owner = transaction then act.read? else none

@[simp] theorem writesOf_nil (transaction : τ) :
    writesOf ([] : History τ κ ν) transaction = [] := rfl

@[simp] theorem writesOf_append (first second : History τ κ ν) (transaction : τ) :
    writesOf (first ++ second) transaction =
      writesOf first transaction ++ writesOf second transaction :=
  List.filterMap_append

@[simp] theorem readsOf_append (first second : History τ κ ν) (transaction : τ) :
    readsOf (first ++ second) transaction =
      readsOf first transaction ++ readsOf second transaction :=
  List.filterMap_append

/-- An entry that is no write, or another transaction's, adds no write. -/
theorem writesOf_concat_of_ne {act : Act τ κ ν} {transaction : τ}
    (h : act.owner = transaction → act.write? = none) (history : History τ κ ν) :
    writesOf (history ++ [act]) transaction = writesOf history transaction := by
  have hsingle : writesOf [act] transaction = [] := by
    by_cases howner : act.owner = transaction
    · simp [writesOf, h howner]
    · simp [writesOf, howner]
  rw [writesOf_append, hsingle, List.append_nil]

@[simp] theorem writesOf_concat_write (history : History τ κ ν) (owner : τ) (key : κ)
    (value : ν) :
    writesOf (history ++ [Act.write owner key value]) owner =
      writesOf history owner ++ [(key, value)] := by
  simp [writesOf]

theorem mem_writesOf_iff {history : History τ κ ν} {transaction : τ} {key : κ} {value : ν} :
    (key, value) ∈ writesOf history transaction ↔
      Act.write transaction key value ∈ history := by
  unfold writesOf
  rw [List.mem_filterMap]
  constructor
  · rintro ⟨act, hact, hwrite⟩
    split_ifs at hwrite with howner
    cases act with
    | write owner key' value' =>
        obtain ⟨rfl, rfl⟩ : key' = key ∧ value' = value := by simpa using hwrite
        obtain rfl : owner = transaction := howner
        exact hact
    | _ => simp at hwrite
  · intro hact
    exact ⟨_, hact, by simp⟩

theorem mem_readsOf_iff {history : History τ κ ν} {transaction : τ} {key : κ} :
    key ∈ readsOf history transaction ↔ Act.read transaction key ∈ history := by
  unfold readsOf
  rw [List.mem_filterMap]
  constructor
  · rintro ⟨act, hact, hread⟩
    split_ifs at hread with howner
    cases act with
    | read owner key' =>
        obtain rfl : key' = key := by simpa [Act.read?] using hread
        obtain rfl : owner = transaction := howner
        exact hact
    | _ => simp [Act.read?] at hread
  · intro hact
    exact ⟨_, hact, by simp [Act.read?]⟩

/-- Entries that are mapped to nothing may be dropped before mapping. -/
private theorem filterMap_filter_of_none {α β : Type} {select : α → Option β} {keep : α → Bool}
    (h : ∀ element, keep element = false → select element = none) (list : List α) :
    (list.filter keep).filterMap select = list.filterMap select := by
  rw [List.filterMap_filter]
  apply List.filterMap_congr
  intro element _
  cases hkeep : keep element with
  | true => simp
  | false => simp [h element hkeep]

/-- Only the transaction's own entries matter for its writes. -/
theorem writesOf_filter {keep : Act τ κ ν → Bool} {transaction : τ}
    (hkeep : ∀ act : Act τ κ ν, act.owner = transaction → keep act = true)
    (history : History τ κ ν) :
    writesOf (history.filter keep) transaction = writesOf history transaction := by
  apply filterMap_filter_of_none
  intro act hdropped
  have howner : act.owner ≠ transaction := fun h => by simp [hkeep act h] at hdropped
  exact if_neg howner

theorem writesOf_filter_owner (history : History τ κ ν) (transaction : τ) :
    writesOf (history.filter fun act => act.owner = transaction) transaction =
      writesOf history transaction :=
  writesOf_filter (fun _ howner => decide_eq_true howner) history

/-- Only the transaction's own entries matter for its reads. -/
theorem readsOf_filter {keep : Act τ κ ν → Bool} {transaction : τ}
    (hkeep : ∀ act : Act τ κ ν, act.owner = transaction → keep act = true)
    (history : History τ κ ν) :
    readsOf (history.filter keep) transaction = readsOf history transaction := by
  apply filterMap_filter_of_none
  intro act hdropped
  have howner : act.owner ≠ transaction := fun h => by simp [hkeep act h] at hdropped
  exact if_neg howner

end Writes

section Replay

variable [DecidableEq τ] [DecidableEq κ]

/-- What one entry does to the store, after the entries of `past`. -/
def Act.effect (past : History τ κ ν) (store : Store κ ν) : Act τ κ ν → Store κ ν
  | commit owner => applyWrites (writesOf past owner) store
  | read _ _ | write _ _ _ | vote _ _ | abort _ => store

/-- Replay a history on a store that is the result of `past`. -/
def replayFrom (past : History τ κ ν) (store : Store κ ν) : History τ κ ν → Store κ ν
  | [] => store
  | act :: rest => replayFrom (past ++ [act]) (act.effect past store) rest

/-- The store after a history that started on `initial`. -/
def replay (initial : Store κ ν) (history : History τ κ ν) : Store κ ν :=
  replayFrom [] initial history

/-- What a read by `transaction` finds: its own last write, or else the store. -/
def readValue (initial : Store κ ν) (history : History τ κ ν) (transaction : τ) (key : κ) :
    Option ν :=
  (lastValue (writesOf history transaction) key).or (replay initial history key)

theorem replayFrom_append (past first second : History τ κ ν) (store : Store κ ν) :
    replayFrom past store (first ++ second) =
      replayFrom (past ++ first) (replayFrom past store first) second := by
  induction first generalizing past store with
  | nil => simp [replayFrom]
  | cons act first ih => simp [replayFrom, ih]

@[simp] theorem replay_nil (initial : Store κ ν) :
    replay initial ([] : History τ κ ν) = initial := rfl

theorem replay_append (initial : Store κ ν) (first second : History τ κ ν) :
    replay initial (first ++ second) = replayFrom first (replay initial first) second := by
  unfold replay
  rw [replayFrom_append, List.nil_append]

theorem replay_concat (initial : Store κ ν) (history : History τ κ ν) (act : Act τ κ ν) :
    replay initial (history ++ [act]) = act.effect history (replay initial history) := by
  rw [replay_append]
  rfl

/-- A value in the replayed store was written or was there at the start. -/
theorem forall_value_replay {P : ν → Prop} {initial : Store κ ν} {history : History τ κ ν}
    (hinitial : ∀ key value, initial key = some value → P value)
    (hwrites : ∀ owner key value, Act.write owner key value ∈ history → P value) :
    ∀ {key value}, replay initial history key = some value → P value := by
  induction history using List.reverseRecOn with
  | nil => exact hinitial _ _
  | append_singleton history act ih =>
      intro key value hvalue
      have hbefore : ∀ {key value}, replay initial history key = some value → P value :=
        ih fun owner key value hmem => hwrites owner key value (List.mem_append_left _ hmem)
      rw [replay_concat] at hvalue
      cases act with
      | commit owner =>
          refine forall_value_applyWrites ?_ (fun _ _ => hbefore) hvalue
          rintro ⟨key', value'⟩ hwrite
          exact hwrites owner key' value' (List.mem_append_left _ (mem_writesOf_iff.mp hwrite))
      | _ => exact hbefore hvalue

/-- A value that is read was written or was there at the start. -/
theorem forall_value_readValue {P : ν → Prop} {initial : Store κ ν} {history : History τ κ ν}
    (hinitial : ∀ key value, initial key = some value → P value)
    (hwrites : ∀ owner key value, Act.write owner key value ∈ history → P value)
    {transaction : τ} {key : κ} {value : ν}
    (h : readValue initial history transaction key = some value) : P value := by
  unfold readValue at h
  rw [← applyWrites_apply] at h
  refine forall_value_applyWrites ?_ (fun _ _ => forall_value_replay hinitial hwrites) h
  rintro ⟨key', value'⟩ hwrite
  exact hwrites transaction key' value' (mem_writesOf_iff.mp hwrite)

/-- The past enters a replay only through what each transaction wrote. -/
theorem replayFrom_congr {past past' : History τ κ ν}
    (hpast : ∀ transaction, writesOf past transaction = writesOf past' transaction)
    (store : Store κ ν) (history : History τ κ ν) :
    replayFrom past store history = replayFrom past' store history := by
  induction history generalizing past past' store with
  | nil => rfl
  | cons act history ih =>
      have heffect : act.effect past store = act.effect past' store := by
        cases act <;> simp [Act.effect, hpast]
      rw [replayFrom, replayFrom, heffect]
      apply ih
      intro transaction
      rw [writesOf_append, writesOf_append, hpast]

/-- A stretch without a commit leaves the store alone. -/
theorem replayFrom_of_no_commit {past : History τ κ ν} {store : Store κ ν}
    {history : History τ κ ν} (h : ∀ transaction, Act.commit transaction ∉ history) :
    replayFrom past store history = store := by
  induction history generalizing past store with
  | nil => rfl
  | cons act history ih =>
      have heffect : act.effect past store = store := by
        cases act with
        | commit owner => exact absurd (List.mem_cons_self) (h owner)
        | _ => rfl
      rw [replayFrom, heffect]
      apply ih
      intro transaction hmem
      exact h transaction (List.mem_cons_of_mem _ hmem)

/-- A stretch leaves a key alone unless it holds a commit of a transaction that
has written the key by then. -/
theorem replayFrom_apply_of_no_commit {past : History τ κ ν} {store : Store κ ν}
    {history : History τ κ ν} {key : κ}
    (h : ∀ before transaction after, history = before ++ Act.commit transaction :: after →
      lastValue (writesOf (past ++ before) transaction) key = none) :
    replayFrom past store history key = store key := by
  induction history generalizing past store with
  | nil => rfl
  | cons act history ih =>
      have heffect : act.effect past store key = store key := by
        cases act with
        | commit owner =>
            have hnone := h [] owner history rfl
            rw [List.append_nil] at hnone
            simp [Act.effect, applyWrites_apply, hnone]
        | _ => rfl
      rw [replayFrom, ih, heffect]
      intro before transaction after hsplit
      have := h (act :: before) transaction after (by rw [hsplit, List.cons_append])
      simpa using this

/-- A transaction that never commits does not enter the replay. -/
theorem replay_filter_of_no_commit {initial : Store κ ν} {history : History τ κ ν}
    {transaction : τ} (h : Act.commit transaction ∉ history) :
    replay initial (history.filter fun act => act.owner ≠ transaction) =
      replay initial history := by
  induction history using List.reverseRecOn with
  | nil => rfl
  | append_singleton history act ih =>
      have hbefore : Act.commit transaction ∉ history := fun hmem =>
        h (List.mem_append_left _ hmem)
      rw [replay_concat, List.filter_append, ← ih hbefore]
      by_cases howner : act.owner = transaction
      · -- a dropped entry is no commit
        have hdropped : [act].filter (fun act => act.owner ≠ transaction) = [] := by
          simp [howner]
        rw [hdropped, List.append_nil]
        cases act with
        | commit owner =>
            obtain rfl : owner = transaction := howner
            exact absurd (by simp) h
        | _ => rfl
      · have hkept : [act].filter (fun act => act.owner ≠ transaction) = [act] := by
          simp [howner]
        rw [hkept, replay_concat]
        cases act with
        | commit owner =>
            have hwrites : writesOf (history.filter fun act => act.owner ≠ transaction) owner =
                writesOf history owner := by
              apply writesOf_filter
              intro act hact
              simpa [hact] using howner
            simp only [Act.effect, hwrites]
        | _ => rfl

end Replay

end DeferredUpdate
