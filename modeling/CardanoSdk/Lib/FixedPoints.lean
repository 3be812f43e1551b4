import Mathlib.Order.Iterate
import Mathlib.Tactic

/-!
Loops that repeat a round until it changes nothing. The iterates of a monotone
function only move one way, so below a bound they come to rest.
-/

namespace CardanoSdk.Lib

section Iterates

variable {f : ℕ → ℕ} {bound n : ℕ}

variable {rounds : ℕ}

theorem le_iterate_of_moves (hup : Monotone fun k => f^[k] n)
    (hmoves : ∀ k < rounds, f^[k + 1] n ≠ f^[k] n) : rounds ≤ f^[rounds] n := by
  induction rounds with
  | zero => exact Nat.zero_le _
  | succ rounds ih =>
    have hbefore := ih fun k hk => hmoves k (by omega)
    have hstep : f^[rounds] n ≤ f^[rounds + 1] n := hup (by omega)
    have hmove := hmoves rounds (by omega)
    omega

theorem iterate_add_le_of_moves (hdown : Antitone fun k => f^[k] n)
    (hmoves : ∀ k < rounds, f^[k + 1] n ≠ f^[k] n) : f^[rounds] n + rounds ≤ n := by
  induction rounds with
  | zero => exact le_refl n
  | succ rounds ih =>
    have hbefore := ih fun k hk => hmoves k (by omega)
    have hstep : f^[rounds + 1] n ≤ f^[rounds] n := hdown (by omega)
    have hmove := hmoves rounds (by omega)
    omega

theorem exists_iterate_rests (hf : Monotone f) (hbound : ∀ m, f m ≤ bound) (hn : n ≤ bound) :
    ∃ k ≤ bound, f^[k + 1] n = f^[k] n := by
  by_contra hnone
  push Not at hnone
  have hmoves : ∀ k < bound + 1, f^[k + 1] n ≠ f^[k] n := fun k hk => hnone k (by omega)
  rcases le_total n (f n) with hup | hdown
  · have hpassed := le_iterate_of_moves (hf.monotone_iterate_of_le_map hup) hmoves
    have hlast : f^[bound + 1] n ≤ bound := by
      rw [Function.iterate_succ_apply']
      exact hbound _
    omega
  · have hused := iterate_add_le_of_moves (hf.antitone_iterate_of_map_le hdown) hmoves
    omega

theorem iterate_le_of_map_le (hf : Monotone f) (h : f n ≤ n) (k : ℕ) : f^[k] n ≤ n :=
  hf.antitone_iterate_of_map_le h (Nat.zero_le k)

theorem le_iterate_of_le_map (hf : Monotone f) (h : n ≤ f n) (k : ℕ) : n ≤ f^[k] n :=
  hf.monotone_iterate_of_le_map h (Nat.zero_le k)

end Iterates

section Loop

variable {ε α : Type} [DecidableEq α]

/-- Rounds until one changes nothing, within the given number of them. -/
def untilStable (round : α → Except ε α) : ℕ → α → Except ε (Option α)
  | 0, _ => .ok none
  | rounds + 1, value => do
      let next ← round value
      if value = next then return some next else untilStable round rounds next

theorem untilStable_of_rests {round : α → Except ε α} {f : α → α} {k rounds : ℕ} {value : α}
    (hround : ∀ k, round (f^[k] value) = .ok (f (f^[k] value)))
    (hrests : f^[k + 1] value = f^[k] value) (hrounds : k < rounds) :
    untilStable round rounds value = .ok (some (f^[k] value)) := by
  induction k generalizing rounds value with
  | zero =>
    obtain ⟨rounds, rfl⟩ := Nat.exists_eq_add_of_lt hrounds
    rw [Nat.zero_add, untilStable, show round value = .ok (f value) from hround 0]
    exact (if_pos (show value = f value from hrests.symm)).trans
      (congrArg (fun last => Except.ok (some last)) hrests)
  | succ k ih =>
    obtain ⟨rounds, rfl⟩ := Nat.exists_eq_add_of_lt hrounds
    rw [untilStable, show round value = .ok (f value) from hround 0]
    change (if value = f value then _ else _) = _
    split
    · rename_i hrests'
      -- the loop stops early, where all later iterates are
      have hfixed : f^[k + 1] value = value := Function.iterate_fixed hrests'.symm (k + 1)
      rw [hfixed, ← hrests']
      rfl
    · rw [Function.iterate_succ_apply]
      refine ih (fun j => ?_) ?_ (by omega)
      · exact hround (j + 1)
      · exact hrests

/-- Where a round computes a monotone function below a bound, the loop ends
after that many rounds and one more, with a number that a round keeps. -/
theorem untilStable_monotone {round : ℕ → Except ε ℕ} {f : ℕ → ℕ} {bound n : ℕ}
    (hf : Monotone f) (hbound : ∀ m, f m ≤ bound) (hn : n ≤ bound)
    (hround : ∀ k, round (f^[k] n) = .ok (f (f^[k] n))) :
    ∃ k, f (f^[k] n) = f^[k] n ∧
      ∀ rounds > bound, untilStable round rounds n = .ok (some (f^[k] n)) := by
  obtain ⟨k, hk, hrests⟩ := exists_iterate_rests hf hbound hn
  refine ⟨k, ?_, fun rounds hrounds => ?_⟩
  · rwa [Function.iterate_succ_apply'] at hrests
  · exact untilStable_of_rests hround hrests (by omega)

end Loop

end CardanoSdk.Lib
