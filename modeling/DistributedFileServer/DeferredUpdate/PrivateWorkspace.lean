import DistributedFileServer.DeferredUpdate.History

/-!
# Private workspaces

The abstract machine that deferred update implements.  It holds one committed
store and one workspace per transaction; a write goes into the workspace, a
commit lays the whole workspace over the store at once, and a decided
transaction loses its workspace.

A history in which no transaction acts after its own decision drives the machine
into the replay of the history, with the workspace of every undecided
transaction made of its last writes.
-/

namespace DeferredUpdate

variable {τ κ ν : Type} [DecidableEq τ] [DecidableEq κ]

/-- A committed store and a workspace for every transaction. -/
structure Workspaces (τ κ ν : Type) where
  store : Store κ ν
  workspace : τ → Store κ ν

namespace Workspaces

/-- All workspaces empty. -/
def initial (store : Store κ ν) : Workspaces τ κ ν where
  store := store
  workspace := fun _ _ => none

/-- The transaction's workspace shadows the store. -/
def read (spec : Workspaces τ κ ν) (transaction : τ) (key : κ) : Option ν :=
  (spec.workspace transaction key).or (spec.store key)

def write (spec : Workspaces τ κ ν) (transaction : τ) (key : κ) (value : ν) :
    Workspaces τ κ ν :=
  { spec with
    workspace := Function.update spec.workspace transaction
      (Function.update (spec.workspace transaction) key (some value)) }

def discard (spec : Workspaces τ κ ν) (transaction : τ) : Workspaces τ κ ν :=
  { spec with workspace := Function.update spec.workspace transaction fun _ => none }

def commit (spec : Workspaces τ κ ν) (transaction : τ) : Workspaces τ κ ν :=
  { spec.discard transaction with store := spec.read transaction }

def abort (spec : Workspaces τ κ ν) (transaction : τ) : Workspaces τ κ ν :=
  spec.discard transaction

/-- One entry of a history; reads and votes change nothing. -/
def step (spec : Workspaces τ κ ν) : Act τ κ ν → Workspaces τ κ ν
  | .read _ _ => spec
  | .write owner key value => spec.write owner key value
  | .vote _ _ => spec
  | .commit owner => spec.commit owner
  | .abort owner => spec.abort owner

/-- The machine after a history. -/
def after (store : Store κ ν) (history : History τ κ ν) : Workspaces τ κ ν :=
  history.foldl step (initial store)

@[simp] theorem after_nil (store : Store κ ν) :
    after store ([] : History τ κ ν) = initial store := rfl

@[simp] theorem after_concat (store : Store κ ν) (history : History τ κ ν) (act : Act τ κ ν) :
    after store (history ++ [act]) = (after store history).step act :=
  List.foldl_concat ..

end Workspaces

/-- The entry is the transaction's commit or abort. -/
def Act.Decides (act : Act τ κ ν) (transaction : τ) : Prop :=
  act = .commit transaction ∨ act = .abort transaction

/-- The transaction has a decision in the history. -/
def Decided (history : History τ κ ν) (transaction : τ) : Prop :=
  ∃ act ∈ history, act.Decides transaction

/-- No transaction acts after its own decision. -/
def QuietAfterDecision (history : History τ κ ν) : Prop :=
  history.Pairwise fun earlier later => ¬ earlier.Decides later.owner

instance decidableDecides [DecidableEq ν] (act : Act τ κ ν) (transaction : τ) :
    Decidable (act.Decides transaction) :=
  inferInstanceAs (Decidable (_ ∨ _))

instance decidableQuietAfterDecision [DecidableEq ν] (history : History τ κ ν) :
    Decidable (QuietAfterDecision history) :=
  inferInstanceAs (Decidable (List.Pairwise _ _))

omit [DecidableEq τ] [DecidableEq κ] in
theorem QuietAfterDecision.concat {history : History τ κ ν} {act : Act τ κ ν}
    (h : QuietAfterDecision (history ++ [act])) :
    QuietAfterDecision history ∧ ¬ Decided history act.owner := by
  obtain ⟨hbefore, -, hlast⟩ := List.pairwise_append.mp h
  refine ⟨hbefore, ?_⟩
  rintro ⟨earlier, hearlier, hdecides⟩
  exact hlast earlier hearlier act (by simp) hdecides

/-- **Simulation.**  The machine's store is the replay of the history, and an
undecided transaction's workspace holds its last writes. -/
theorem workspaces_simulate (store : Store κ ν) {history : History τ κ ν}
    (hquiet : QuietAfterDecision history) :
    (Workspaces.after store history).store = replay store history ∧
      ∀ transaction, ¬ Decided history transaction →
        (Workspaces.after store history).workspace transaction =
          lastValue (writesOf history transaction) := by
  induction history using List.reverseRecOn with
  | nil => exact ⟨rfl, fun _ _ => rfl⟩
  | append_singleton history act ih =>
      obtain ⟨hbefore, hundecided⟩ := hquiet.concat
      obtain ⟨hstore, hworkspace⟩ := ih hbefore
      have hearlier : ∀ transaction, ¬ Decided (history ++ [act]) transaction →
          ¬ Decided history transaction := by
        intro transaction hnot ⟨earlier, hmem, hdecides⟩
        exact hnot ⟨earlier, List.mem_append_left _ hmem, hdecides⟩
      rw [Workspaces.after_concat, replay_concat]
      cases act with
      | read owner key =>
          refine ⟨hstore, ?_⟩
          intro transaction hnot
          rw [writesOf_concat_of_ne (fun _ => rfl)]
          exact hworkspace transaction (hearlier transaction hnot)
      | vote owner granted =>
          refine ⟨hstore, ?_⟩
          intro transaction hnot
          rw [writesOf_concat_of_ne (fun _ => rfl)]
          exact hworkspace transaction (hearlier transaction hnot)
      | write owner key value =>
          refine ⟨hstore, ?_⟩
          intro transaction hnot
          have hsame := hworkspace transaction (hearlier transaction hnot)
          simp only [Workspaces.step, Workspaces.write]
          by_cases howner : transaction = owner
          · subst howner
            ext key' value'
            rw [Function.update_self, writesOf_concat_write, lastValue_concat, hsame,
              Function.update_apply]
          · rw [Function.update_of_ne howner, hsame,
              writesOf_concat_of_ne (fun h => absurd h.symm howner)]
      | commit owner =>
          constructor
          · ext key value
            simp only [Workspaces.step, Workspaces.commit, Workspaces.read, Act.effect,
              applyWrites_apply]
            rw [hworkspace owner hundecided, hstore]
          · intro transaction hnot
            have hne : transaction ≠ owner := by
              rintro rfl
              exact hnot ⟨_, by simp, Or.inl rfl⟩
            simp only [Workspaces.step, Workspaces.commit, Workspaces.discard]
            rw [Function.update_of_ne hne, writesOf_concat_of_ne (fun _ => rfl)]
            exact hworkspace transaction (hearlier transaction hnot)
      | abort owner =>
          refine ⟨hstore, ?_⟩
          intro transaction hnot
          have hne : transaction ≠ owner := by
            rintro rfl
            exact hnot ⟨_, by simp, Or.inr rfl⟩
          simp only [Workspaces.step, Workspaces.abort, Workspaces.discard]
          rw [Function.update_of_ne hne, writesOf_concat_of_ne (fun _ => rfl)]
          exact hworkspace transaction (hearlier transaction hnot)

/-- What an undecided transaction reads is what the machine lets it read. -/
theorem readValue_eq_read (store : Store κ ν) {history : History τ κ ν}
    (hquiet : QuietAfterDecision history) {transaction : τ}
    (hundecided : ¬ Decided history transaction) (key : κ) :
    readValue store history transaction key =
      (Workspaces.after store history).read transaction key := by
  obtain ⟨hstore, hworkspace⟩ := workspaces_simulate store hquiet
  unfold readValue Workspaces.read
  rw [hstore, hworkspace transaction hundecided]

end DeferredUpdate
