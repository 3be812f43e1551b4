import Mathlib.Logic.Relation
import Mathlib.Tactic

/-!
Actions on a state that may throw, where a throw keeps the state as it was at that point.
-/

namespace CardanoSdk.Lib

variable {ε σ α β : Type}

variable {s : σ} {first action : EStateM ε σ α} {next : α → EStateM ε σ β}

theorem run_bind_ok {s' : σ} {a : α} (h : first s = .ok a s') : (first >>= next) s = next a s' := by
  change EStateM.bind first next s = _
  rw [EStateM.bind, h]

theorem run_bind_error {s' : σ} {e : ε} (h : first s = .error e s') :
    (first >>= next) s = .error e s' := by
  change EStateM.bind first next s = _
  rw [EStateM.bind, h]

theorem run_bind_eq_ok {s'' : σ} {b : β} (h : (first >>= next) s = .ok b s'') :
    ∃ a s', first s = .ok a s' ∧ next a s' = .ok b s'' := by
  cases hfirst : first s with
  | ok a s' => exact ⟨a, s', rfl, by rwa [run_bind_ok hfirst] at h⟩
  | error e s' =>
    rw [run_bind_error hfirst] at h
    cases h

def finalState : EStateM.Result ε σ α → σ
  | .ok _ s => s
  | .error _ s => s

/-- However the action ends, the state went through steps of `R`. -/
def Moves (R : σ → σ → Prop) (action : EStateM ε σ α) : Prop :=
  ∀ s, Relation.ReflTransGen R s (finalState (action s))

variable {R : σ → σ → Prop}

theorem Moves.pure (a : α) : Moves R (pure a : EStateM ε σ α) :=
  fun _ => Relation.ReflTransGen.refl

theorem Moves.throw (e : ε) : Moves R (throw e : EStateM ε σ α) :=
  fun _ => Relation.ReflTransGen.refl

theorem Moves.get : Moves R (get : EStateM ε σ σ) := fun _ => Relation.ReflTransGen.refl

theorem Moves.bind (hfirst : Moves R first) (hnext : ∀ a, Moves R (next a)) :
    Moves R (first >>= next) := by
  intro s
  have hstart := hfirst s
  cases hrun : first s with
  | ok a s' =>
    rw [hrun] at hstart
    rw [run_bind_ok hrun]
    exact hstart.trans (hnext a s')
  | error e s' =>
    rw [hrun] at hstart
    rw [run_bind_error hrun]
    exact hstart

theorem Moves.of_step (h : ∀ s, finalState (action s) = s ∨ R s (finalState (action s))) :
    Moves R action := by
  intro s
  rcases h s with hsame | hstep
  · rw [hsame]
  · exact Relation.ReflTransGen.single hstep

theorem Moves.keeps (h : Moves R action) {P : σ → Prop} (hstep : ∀ s s', P s → R s s' → P s')
    (hs : P s) : P (finalState (action s)) := by
  have hsteps := h s
  generalize finalState (action s) = final at hsteps ⊢
  induction hsteps with
  | refl => exact hs
  | tail _ hlast ih => exact hstep _ _ ih hlast

def thrown : EStateM.Result ε σ α → Option ε
  | .ok _ _ => none
  | .error e _ => some e

/-- An action that throws here leaves the state as it was. -/
def AtomicAt (action : EStateM ε σ α) (s : σ) : Prop := ∀ e s', action s = .error e s' → s' = s

def NeverThrows (action : EStateM ε σ α) : Prop := ∀ s, ∃ a s', action s = .ok a s'

/-- The last step that can throw is the first that changes the state. -/
theorem AtomicAt.bind (hfirst : AtomicAt first s) (hnext : ∀ a, NeverThrows (next a)) :
    AtomicAt (first >>= next) s := by
  intro e s' herror
  cases hrun : first s with
  | ok a middle =>
    obtain ⟨b, final, hok⟩ := hnext a middle
    rw [run_bind_ok hrun, hok] at herror
    cases herror
  | error e' middle =>
    rw [run_bind_error hrun] at herror
    cases herror
    exact hfirst e s' hrun

theorem AtomicAt.finalState_eq (h : AtomicAt action s) {e : ε}
    (hthrown : thrown (action s) = some e) : finalState (action s) = s := by
  cases hrun : action s with
  | ok a s' =>
    rw [hrun] at hthrown
    cases hthrown
  | error e' s' => exact h e' s' hrun

/-- From here the action throws none of these. -/
def Avoids (Bad : ε → Prop) (action : EStateM ε σ α) (s : σ) : Prop :=
  ∀ e s', action s = .error e s' → ¬ Bad e

variable {Bad : ε → Prop}

theorem Avoids.pure (a : α) (s : σ) : Avoids Bad (pure a : EStateM ε σ α) s := by
  intro e s' herror
  cases herror

theorem Avoids.throw {e : ε} (he : ¬ Bad e) (s : σ) :
    Avoids Bad (throw e : EStateM ε σ α) s := by
  intro e' s' herror
  cases herror
  exact he

theorem Avoids.bind (hfirst : Avoids Bad first s)
    (hnext : ∀ a s', first s = .ok a s' → Avoids Bad (next a) s') :
    Avoids Bad (first >>= next) s := by
  intro e s' herror
  cases hrun : first s with
  | ok a middle =>
    rw [run_bind_ok hrun] at herror
    exact hnext a middle hrun e s' herror
  | error e' middle =>
    rw [run_bind_error hrun] at herror
    cases herror
    exact hfirst e s' hrun

end CardanoSdk.Lib
