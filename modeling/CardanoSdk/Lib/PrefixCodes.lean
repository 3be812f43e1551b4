import Mathlib.InformationTheory.Coding.UniquelyDecodable

/-!
Prefix codes: a sequence of words is found again in their concatenation.
-/

namespace CardanoSdk.Lib

open InformationTheory (UniquelyDecodable)

variable {α : Type*} {words : Set (List α)}

theorem uniquelyDecodable_of_prefixFree (hnil : [] ∉ words)
    (hbegins : ∀ word ∈ words, ∀ word' ∈ words, word <+: word' → word = word') :
    UniquelyDecodable words := by
  intro sequence
  induction sequence with
  | nil =>
    rintro (_ | ⟨word', _⟩) _ hwords' heq
    · rfl
    · have hempty : word' = [] := (List.append_eq_nil_iff.mp heq.symm).1
      exact absurd (hempty ▸ hwords' word' List.mem_cons_self) hnil
  | cons word rest ih =>
    rintro (_ | ⟨word', rest'⟩) hwords hwords' heq
    · have hempty : word = [] := (List.append_eq_nil_iff.mp heq).1
      exact absurd (hempty ▸ hwords word List.mem_cons_self) hnil
    · obtain ⟨hword, hrest⟩ := List.forall_mem_cons.mp hwords
      obtain ⟨hword', hrest'⟩ := List.forall_mem_cons.mp hwords'
      have hsame : word = word' := by
        rcases List.append_eq_append_iff.mp heq with ⟨_, hmore, _⟩ | ⟨_, hmore, _⟩
        · exact hbegins _ hword _ hword' ⟨_, hmore.symm⟩
        · exact (hbegins _ hword' _ hword ⟨_, hmore.symm⟩).symm
      subst hsame
      rw [ih rest' hrest hrest' (List.append_cancel_left heq)]

end CardanoSdk.Lib
