import CardanoSdk.Wallet.UtxoTracker

/-!
The `scan` of `signed$` in `wallet/src/services/TransactionsTracker.ts`: the transactions
that are signed and not submitted yet.
-/

namespace CardanoSdk.Wallet

open InputSelection (TransactionId)

structure WitnessedTx where
  id : TransactionId
  inputs : List TxIn
  /-- `validityInterval?.invalidHereafter` -/
  invalidHereafter : Option ℕ := none
  deriving DecidableEq

inductive SignedAction where
  | add (witnessedTx : WitnessedTx)
  | remove (id : TransactionId)
  | checkInputs (inputs : List TxIn)
  | checkInterval (slot : ℕ)
  deriving DecidableEq

namespace SignedTransactions

/-- `invalidHereafter && invalidHereafter > action.slot` -/
def isWithinInterval (slot : ℕ) (tx : WitnessedTx) : Bool :=
  match tx.invalidHereafter with
  | some invalidHereafter => invalidHereafter ≠ 0 && invalidHereafter > slot
  | none => false

def anyUtxoIsUsed (inputs : List TxIn) (tx : WitnessedTx) : Bool :=
  tx.inputs.any fun input => inputs.any fun historicalInput =>
    input.txId = historicalInput.txId ∧ input.index = historicalInput.index

/-- The function given to `scan`. -/
def step (signed : List WitnessedTx) : SignedAction → List WitnessedTx
  | .add witnessedTx => signed ++ [witnessedTx]
  | .remove id => signed.filter fun tx => tx.id ≠ id
  | .checkInterval slot => signed.filter (isWithinInterval slot)
  | .checkInputs inputs => signed.filter fun tx => !anyUtxoIsUsed inputs tx

def run (actions : List SignedAction) : List WitnessedTx := actions.foldl step []

/-- An action that filters the list keeps the transaction. -/
def Keeps (tx : WitnessedTx) : SignedAction → Prop
  | .add _ => True
  | .remove id => tx.id ≠ id
  | .checkInterval slot => isWithinInterval slot tx = true
  | .checkInputs inputs => anyUtxoIsUsed inputs tx = false

variable {tx : WitnessedTx} {actions : List SignedAction}

variable {signed : List WitnessedTx} {action : SignedAction} {after : List SignedAction}

theorem mem_step_iff :
    tx ∈ step signed action ↔ tx ∈ signed ∧ Keeps tx action ∨ action = .add tx := by
  cases action with
  | add witnessedTx => simp [step, Keeps, eq_comm]
  | remove id => simp [step, Keeps]
  | checkInputs inputs => simp [step, Keeps]
  | checkInterval slot => simp [step, Keeps]

theorem mem_foldl_step_iff : tx ∈ actions.foldl step signed ↔
      (tx ∈ signed ∧ ∀ action ∈ actions, Keeps tx action) ∨
        ∃ before after, actions = before ++ .add tx :: after ∧ ∀ action ∈ after, Keeps tx action := by
  induction actions using List.reverseRecOn with
  | nil => simp
  | append_singleton actions last ih =>
    rw [List.foldl_append]
    change tx ∈ step (actions.foldl step signed) last ↔ _
    rw [mem_step_iff, ih]
    constructor
    · rintro (⟨(⟨hmem, hall⟩ | ⟨before, after, rfl, hall⟩), hlast⟩ | rfl)
      · exact Or.inl ⟨hmem, List.forall_mem_append.mpr ⟨hall, List.forall_mem_singleton.mpr hlast⟩⟩
      · refine Or.inr ⟨before, after ++ [last], by rw [List.append_assoc]; rfl, ?_⟩
        exact List.forall_mem_append.mpr ⟨hall, List.forall_mem_singleton.mpr hlast⟩
      · exact Or.inr ⟨actions, [], rfl, fun _ hmem => (List.not_mem_nil hmem).elim⟩
    · rintro (⟨hmem, hall⟩ | ⟨before, after, hsplit, hall⟩)
      · obtain ⟨hall, hlast⟩ := List.forall_mem_append.mp hall
        exact Or.inl ⟨Or.inl ⟨hmem, hall⟩, hlast last (List.mem_singleton_self _)⟩
      · rcases List.eq_nil_or_concat after with rfl | ⟨after, action, rfl⟩
        · obtain ⟨-, hlast⟩ := List.append_inj' hsplit rfl
          exact Or.inr (List.singleton_inj.mp hlast)
        · rw [List.concat_eq_append, ← List.cons_append, ← List.append_assoc] at hsplit
          obtain ⟨rfl, hlast⟩ := List.append_inj' hsplit rfl
          obtain rfl := List.singleton_inj.mp hlast
          rw [List.concat_eq_append] at hall
          obtain ⟨hall, hlast⟩ := List.forall_mem_append.mp hall
          exact Or.inl ⟨Or.inr ⟨before, after, rfl, hall⟩, hlast last (List.mem_singleton_self _)⟩

structure LastAddition (tx : WitnessedTx) (actions after : List SignedAction) : Prop where
  added : ∃ before, actions = before ++ .add tx :: after
  last : .add tx ∉ after

theorem LastAddition.subset {before' after' : List SignedAction}
    (h : LastAddition tx actions after) (hsplit : actions = before' ++ .add tx :: after') :
    after ⊆ after' := by
  obtain ⟨before, rfl⟩ := h.added
  rcases List.append_eq_append_iff.mp hsplit with ⟨middle, -, hafter⟩ | ⟨middle, -, hafter⟩
  · rcases List.cons_eq_append_iff.mp hafter with ⟨-, hsame⟩ | ⟨middle', -, hafter⟩
    · cases hsame
      exact List.Subset.refl _
    · rw [hafter] at h
      exact absurd (List.mem_append_right _ List.mem_cons_self) h.last
  · rcases List.cons_eq_append_iff.mp hafter with ⟨-, hsame⟩ | ⟨middle', -, hafter⟩
    · cases hsame
      exact List.Subset.refl _
    · rw [hafter]
      exact fun action hmem => List.mem_append_right _ (List.mem_cons_of_mem _ hmem)

theorem mem_run_iff (h : LastAddition tx actions after) :
    tx ∈ run actions ↔ ∀ action ∈ after, Keeps tx action := by
  rw [run, mem_foldl_step_iff]
  constructor
  · rintro (⟨hmem, -⟩ | ⟨before', after', hsplit, hall⟩)
    · exact (List.not_mem_nil hmem).elim
    · exact fun action hmem => hall action (h.subset hsplit hmem)
  · obtain ⟨before, hsplit⟩ := h.added
    exact fun hall => Or.inr ⟨before, after, hsplit, hall⟩

def SignedAction.adds (id : TransactionId) : SignedAction → Bool
  | .add tx => tx.id = id
  | _ => false

theorem countP_step_le (id : TransactionId) (signed : List WitnessedTx) (action : SignedAction) :
    (step signed action).countP (fun tx => tx.id = id) ≤
      signed.countP (fun tx => tx.id = id) + if SignedAction.adds id action then 1 else 0 := by
  have hfilter (p : WitnessedTx → Bool) :
      (signed.filter p).countP (fun tx => tx.id = id) ≤ signed.countP (fun tx => tx.id = id) :=
    List.filter_sublist.countP_le
  cases action with
  | add tx =>
    rw [step, List.countP_append, List.countP_singleton]
    exact le_rfl
  | remove id' => exact hfilter _
  | checkInputs inputs => exact hfilter _
  | checkInterval slot => exact hfilter _

theorem countP_run_le (id : TransactionId) (actions : List SignedAction) :
    (run actions).countP (fun tx => tx.id = id) ≤ actions.countP (SignedAction.adds id) := by
  induction actions using List.reverseRecOn with
  | nil => exact le_rfl
  | append_singleton actions last ih =>
    rw [run, List.foldl_append, List.countP_append, List.countP_singleton]
    exact (countP_step_le id (run actions) last).trans (Nat.add_le_add_right ih _)

/-- The action does not tell that the transaction cannot be submitted any more:
it was not seen in flight, none of its inputs is spent and it is not too late for it. -/
def Submittable (tx : WitnessedTx) : SignedAction → Prop
  | .add _ => True
  | .remove id => tx.id ≠ id
  | .checkInputs inputs => ∀ input ∈ tx.inputs, input ∉ inputs
  | .checkInterval slot => ∀ invalidHereafter, tx.invalidHereafter = some invalidHereafter →
      slot < invalidHereafter

theorem anyUtxoIsUsed_eq_false_iff {inputs : List TxIn} :
    anyUtxoIsUsed inputs tx = false ↔ ∀ input ∈ tx.inputs, input ∉ inputs := by
  rw [anyUtxoIsUsed, List.any_eq_false]
  refine forall₂_congr fun input _ => not_congr ?_
  rw [List.any_eq_true]
  constructor
  · rintro ⟨historicalInput, hmem, hsame⟩
    obtain ⟨hid, hindex⟩ := of_decide_eq_true hsame
    have heq : input = historicalInput := by
      cases input
      cases historicalInput
      exact congrArg₂ TxIn.mk hid hindex
    exact heq ▸ hmem
  · exact fun hmem => ⟨input, hmem, decide_eq_true ⟨rfl, rfl⟩⟩

theorem keeps_iff : Keeps tx action ↔
    Submittable tx action ∧ ∀ slot, action = .checkInterval slot → tx.invalidHereafter ≠ none := by
  cases action with
  | add witnessedTx => simp [Keeps, Submittable]
  | remove id => simp [Keeps, Submittable]
  | checkInputs inputs => simp [Keeps, Submittable, anyUtxoIsUsed_eq_false_iff]
  | checkInterval slot =>
    cases hend : tx.invalidHereafter with
    | none => simp [Keeps, isWithinInterval, hend]
    | some invalidHereafter =>
      simp only [Keeps, isWithinInterval, hend, Submittable, Bool.and_eq_true, decide_eq_true_eq]
      constructor
      · rintro ⟨-, hlater⟩
        refine ⟨fun bound hbound => ?_, fun _ _ hnone => by cases hnone⟩
        cases hbound
        exact hlater
      · rintro ⟨hlater, -⟩
        have hslot := hlater invalidHereafter rfl
        exact ⟨by simpa using (by omega : invalidHereafter ≠ 0), hslot⟩

/-- Signed transactions are kept until they cannot be submitted any more. -/
def KeepsSubmittable (actions : List SignedAction) : Prop :=
  ∀ tx after, LastAddition tx actions after →
    (tx ∈ run actions ↔ ∀ action ∈ after, Submittable tx action)

/-- No tip is checked while a transaction that never expires could be submitted. -/
def NoTipForUnbounded (actions : List SignedAction) : Prop :=
  ∀ tx after, LastAddition tx actions after → tx.invalidHereafter = none →
    (∀ action ∈ after, Submittable tx action) → ∀ slot, .checkInterval slot ∉ after

/-- After any actions the list has the transactions that can be submitted exactly
if no tip was checked for one that never expires, and it has no id more often than
it was added. -/
theorem signed_keeps_iff (actions : List SignedAction) :
    (KeepsSubmittable actions ↔ NoTipForUnbounded actions) ∧
      ∀ id, (run actions).countP (fun tx => tx.id = id) ≤ actions.countP (SignedAction.adds id) := by
  refine ⟨?_, fun id => countP_run_le id actions⟩
  constructor
  · intro hkeeps tx after hlast hnone hall slot hmem
    have hkept := (mem_run_iff hlast).mp ((hkeeps tx after hlast).mpr hall) _ hmem
    exact (keeps_iff.mp hkept).2 slot rfl hnone
  · intro htips tx after hlast
    rw [mem_run_iff hlast]
    constructor
    · exact fun hall action hmem => (keeps_iff.mp (hall action hmem)).1
    · intro hall action hmem
      refine keeps_iff.mpr ⟨hall action hmem, ?_⟩
      rintro slot rfl hnone
      exact htips tx after hlast hnone hall slot hmem

def unboundedTx : WitnessedTx := { id := List.replicate 32 1, inputs := [] }

/-- The first tip that is checked removes it. -/
theorem signed_drops_unbounded :
    ¬ KeepsSubmittable [.add unboundedTx, .checkInterval 0] := by
  intro hkeeps
  have hlast : LastAddition unboundedTx [.add unboundedTx, .checkInterval 0] [.checkInterval 0] :=
    ⟨⟨[], rfl⟩, by decide⟩
  have hmem := (hkeeps _ _ hlast).mpr fun action hmem => by
    obtain rfl := List.mem_singleton.mp hmem
    exact fun _ hsome => by cases hsome
  exact List.not_mem_nil hmem

end SignedTransactions

end CardanoSdk.Wallet
