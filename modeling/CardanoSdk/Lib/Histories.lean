import Mathlib.Data.List.Induction
import Mathlib.Data.List.DropRight
import Mathlib.Data.List.Nodup
import Mathlib.Data.Set.Function

/-!
Lists read as histories: last elements, runs at the end, and keys that are registered and
deregistered in turn.
-/

namespace CardanoSdk.Lib

variable {α β γ : Type*}

def lastMatch (f : α → Option β) (l : List α) : Option β := l.reverse.findSome? f

section LastMatch

variable {f : α → Option β} {l : List α}

theorem lastMatch_append (l l' : List α) :
    lastMatch f (l ++ l') = (lastMatch f l').or (lastMatch f l) := by
  rw [lastMatch, List.reverse_append, List.findSome?_append]
  rfl

theorem lastMatch_singleton (a : α) : lastMatch f [a] = f a := by
  rw [lastMatch, List.reverse_singleton, List.findSome?_cons]
  cases f a <;> rfl

theorem lastMatch_eq_none_iff : lastMatch f l = none ↔ ∀ a ∈ l, f a = none := by
  rw [lastMatch, List.findSome?_eq_none_iff]
  simp only [List.mem_reverse]

theorem lastMatch_eq_some_iff {b : β} : lastMatch f l = some b ↔
    ∃ before a after, l = before ++ a :: after ∧ f a = some b ∧ ∀ later ∈ after, f later = none := by
  rw [lastMatch, List.findSome?_eq_some_iff]
  constructor
  · rintro ⟨after, a, before, hsplit, hvalue, hnone⟩
    refine ⟨before.reverse, a, after.reverse, ?_, hvalue, fun later hmem => ?_⟩
    · rw [← List.reverse_reverse l, hsplit, List.reverse_append, List.reverse_cons,
        List.append_assoc]
      rfl
    · exact hnone later (List.mem_reverse.mp hmem)
  · rintro ⟨before, a, after, rfl, hvalue, hnone⟩
    refine ⟨after.reverse, a, before.reverse, ?_, hvalue, fun later hmem => ?_⟩
    · rw [List.reverse_append, List.reverse_cons, List.append_assoc]
      rfl
    · exact hnone later (List.mem_reverse.mp hmem)

theorem lastMatch_flatMap (f : β → Option γ) (parts : α → List β) (l : List α) :
    lastMatch f (l.flatMap parts) = lastMatch (fun a => lastMatch f (parts a)) l := by
  induction l using List.reverseRecOn with
  | nil => rfl
  | append_singleton l a ih =>
    rw [List.flatMap_append, lastMatch_append, lastMatch_append, ih, lastMatch_singleton,
      List.flatMap_singleton]

theorem lastMatch_map (g : β → γ) :
    lastMatch (fun a => (f a).map g) l = (lastMatch f l).map g := by
  induction l using List.reverseRecOn with
  | nil => rfl
  | append_singleton l a ih =>
    rw [lastMatch_append, lastMatch_append, ih, lastMatch_singleton, lastMatch_singleton]
    cases f a <;> rfl

end LastMatch

theorem rtake_suffix (list : List α) (n : ℕ) : list.rtake n <:+ list :=
  List.drop_suffix _ _

theorem length_rtake (list : List α) (n : ℕ) : (list.rtake n).length = min n list.length := by
  rw [List.rtake, List.length_drop]
  omega

variable {n : ℕ}

theorem rtake_of_length_le {list : List α} (h : list.length ≤ n) : list.rtake n = list := by
  rw [List.rtake, Nat.sub_eq_zero_of_le h, List.drop_zero]

theorem reverse_take_reverse (list : List α) (n : ℕ) :
    (list.reverse.take n).reverse = list.rtake n :=
  (List.rtake_eq_reverse_take_reverse _ _).symm

theorem rtake_append_of_le (before : List α) {rest : List α} (h : n ≤ rest.length) :
    (before ++ rest).rtake n = rest.rtake n := by
  rw [List.rtake, List.rtake, List.length_append, List.drop_append]
  have hall : before.length ≤ before.length + rest.length - n := by omega
  rw [List.drop_of_length_le hall, List.nil_append]
  congr 1
  omega

theorem rtake_append_of_ge (before : List α) {rest : List α} (h : rest.length ≤ n) :
    (before ++ rest).rtake n = before.rtake (n - rest.length) ++ rest := by
  rw [List.rtake, List.rtake, List.length_append, List.drop_append]
  congr 1
  · congr 1
    omega
  · have hnone : before.length + rest.length - n - before.length = 0 := by omega
    rw [hnone, List.drop_zero]

theorem rtake_append_suffix_iff (kept before rest : List α) (n : ℕ) :
    (kept ++ rest).rtake n <:+ before ++ rest ↔ kept.rtake (n - rest.length) <:+ before := by
  rcases Nat.le_total n rest.length with h | h
  · rw [rtake_append_of_le kept h, Nat.sub_eq_zero_of_le h, List.rtake_zero]
    exact iff_of_true ((rtake_suffix rest n).trans (List.suffix_append before rest))
      (List.nil_suffix)
  · rw [rtake_append_of_ge kept h]
    exact List.suffix_append_self_iff

section RunAtEnd

variable {p : α → Bool} {before run : List α}

theorem rtakeWhile_append (hbefore : ∀ a ∈ before, p a = false) (hrun : ∀ a ∈ run, p a = true) :
    (before ++ run).rtakeWhile p = run := by
  have hstop : before.reverse.takeWhile p = [] := by
    cases hlast : before.reverse with
    | nil => rfl
    | cons a rest =>
      have hmem : a ∈ before := List.mem_reverse.mp (hlast ▸ List.mem_cons_self)
      rw [List.takeWhile_cons_of_neg (by rw [hbefore a hmem]; exact Bool.false_ne_true)]
  rw [List.rtakeWhile, List.reverse_append,
    List.takeWhile_append_of_pos fun a ha => hrun a (List.mem_reverse.mp ha), hstop,
    List.append_nil, List.reverse_reverse]

theorem rdropWhile_append (hbefore : ∀ a ∈ before, p a = false) (hrun : ∀ a ∈ run, p a = true) :
    (before ++ run).rdropWhile p = before := by
  have hsplit := List.rdropWhile_append_rtakeWhile (l := before ++ run) (p := p)
  rw [rtakeWhile_append hbefore hrun] at hsplit
  exact List.append_cancel_right hsplit

end RunAtEnd

variable {κ μ : Type*}

inductive RegistrationChange (κ : Type*) where
  | register (key : κ)
  | deregister (key : κ)

namespace RegistrationChange

def apply (registered : Set κ) : RegistrationChange κ → Set κ
  | .register key => insert key registered
  | .deregister key => registered \ {key}

def Permitted (registered : Set κ) : RegistrationChange κ → Prop
  | .register key => key ∉ registered
  | .deregister key => key ∈ registered

def map (f : κ → μ) : RegistrationChange κ → RegistrationChange μ
  | .register key => .register (f key)
  | .deregister key => .deregister (f key)

end RegistrationChange

open RegistrationChange

def registeredAfter (registered : Set κ) (changes : List (RegistrationChange κ)) : Set κ :=
  changes.foldl RegistrationChange.apply registered

/-- Each change registers a key that is not registered at that point, or
deregisters one that is. -/
def ValidChanges (registered : Set κ) : List (RegistrationChange κ) → Prop
  | [] => True
  | change :: changes => change.Permitted registered ∧ ValidChanges (change.apply registered) changes

theorem validChanges_append {registered : Set κ} {changes changes' : List (RegistrationChange κ)} :
    ValidChanges registered (changes ++ changes') ↔
      ValidChanges registered changes ∧
        ValidChanges (registeredAfter registered changes) changes' := by
  induction changes generalizing registered with
  | nil => exact (and_iff_right trivial).symm
  | cons change changes ih =>
    rw [List.cons_append, ValidChanges, ValidChanges, ih, and_assoc]
    rfl

/-- At no point are two keys with one image registered. -/
def KeptApart (f : κ → μ) (registered : Set κ) : List (RegistrationChange κ) → Prop
  | [] => Set.InjOn f registered
  | change :: changes => Set.InjOn f registered ∧ KeptApart f (change.apply registered) changes

section KeptApart

variable {f : κ → μ} {registered : Set κ} {changes changes' : List (RegistrationChange κ)}

theorem KeptApart.injOn (h : KeptApart f registered changes) : Set.InjOn f registered := by
  cases changes with
  | nil => exact h
  | cons change changes => exact h.1

theorem KeptApart.of_append (h : KeptApart f registered (changes ++ changes')) :
    KeptApart f registered changes ∧
      KeptApart f (registeredAfter registered changes) changes' := by
  induction changes generalizing registered with
  | nil => exact ⟨h.injOn, h⟩
  | cons change changes ih => exact ⟨⟨h.1, (ih h.2).1⟩, (ih h.2).2⟩

theorem apply_map {change : RegistrationChange κ} (hpermitted : change.Permitted registered)
    (hbefore : Set.InjOn f registered) (hafter : Set.InjOn f (change.apply registered)) :
    (change.map f).Permitted (Set.image f registered) ∧
      (change.map f).apply (Set.image f registered) = Set.image f (change.apply registered) := by
  cases change with
  | register key =>
    refine ⟨?_, (Set.image_insert_eq).symm⟩
    rintro ⟨other, hother, heq⟩
    have hsame := hafter (Set.mem_insert_of_mem key hother) (Set.mem_insert key registered) heq
    exact hpermitted (hsame ▸ hother)
  | deregister key =>
    refine ⟨Set.mem_image_of_mem f hpermitted, ?_⟩
    have himage := hbefore.image_sdiff_subset (Set.singleton_subset_iff.mpr hpermitted)
    rw [Set.image_singleton] at himage
    exact himage.symm

theorem validChanges_map (hvalid : ValidChanges registered changes)
    (h : KeptApart f registered changes) :
    ValidChanges (Set.image f registered) (changes.map (RegistrationChange.map f)) ∧
      registeredAfter (Set.image f registered) (changes.map (RegistrationChange.map f)) =
        Set.image f (registeredAfter registered changes) := by
  induction changes generalizing registered with
  | nil => exact ⟨trivial, rfl⟩
  | cons change changes ih =>
    obtain ⟨hpermitted, happly⟩ := apply_map hvalid.1 h.1 h.2.injOn
    obtain ⟨hrest, hafter⟩ := ih hvalid.2 h.2
    rw [← happly] at hrest hafter
    exact ⟨⟨hpermitted, hrest⟩, hafter⟩

end KeptApart

end CardanoSdk.Lib
