import Mathlib.Data.List.Forall2
import CardanoSdk.Lib.Collections

/-!
Maps whose entries are converted one by one: the keys are walked, the value of each is
looked up again under a structural equality, and the result is set in a map that compares
its keys in another way.
-/

namespace CardanoSdk.Lib

variable {ε Object Core : Type}

/-- An entry with the conversions of its key and its value, which may throw. -/
structure Conversion (ε Object Core : Type) where
  key : Object
  coreKey : Except ε Core
  coreValue : Except ε Core

/-- `Map.set`: the value of a key that is the same is replaced. -/
def setEntry (same : Core → Core → Bool) (key value : Core) :
    List (Core × Core) → List (Core × Core)
  | [] => [(key, value)]
  | (key', value') :: rest =>
    if same key key' then (key', value) :: rest
    else (key', value') :: setEntry same key value rest

def setEntries (same : Core → Core → Bool) (entries map : List (Core × Core)) :
    List (Core × Core) :=
  entries.foldl (fun map entry => setEntry same entry.1 entry.2 map) map

/-- The converted value of the first entry whose key equals this one. -/
def valueOf (missing : ε) (equals : Object → Object → Bool) (key : Object)
    (entries : List (Conversion ε Object Core)) : Except ε Core :=
  match entries.find? (fun entry => equals entry.key key) with
  | some entry => entry.coreValue
  | none => .error missing

def convertMap (missing : ε) (equals : Object → Object → Bool) (same : Core → Core → Bool)
    (entries : List (Conversion ε Object Core)) : Except ε (List (Core × Core)) :=
  entries.foldlM (fun map entry => do
    let key ← entry.coreKey
    let value ← valueOf missing equals entry.key entries
    return setEntry same key value map) []

section Setting

variable {same : Core → Core → Bool}

theorem setEntry_cases (key value : Core) (map : List (Core × Core)) :
    setEntry same key value map = map ++ [(key, value)] ∨
      (setEntry same key value map).length = map.length := by
  induction map with
  | nil => exact Or.inl rfl
  | cons entry rest ih =>
    obtain ⟨key', value'⟩ := entry
    rw [setEntry]
    split
    · exact Or.inr rfl
    · rcases ih with happend | hlength
      · left
        rw [happend, List.cons_append]
      · right
        rw [List.length_cons, List.length_cons, hlength]

variable {map : List (Core × Core)}

theorem setEntry_new {key : Core} (value : Core) (h : ∀ entry ∈ map, same key entry.1 = false) :
    setEntry same key value map = map ++ [(key, value)] := by
  induction map with
  | nil => rfl
  | cons entry rest ih =>
    obtain ⟨key', value'⟩ := entry
    rw [List.forall_mem_cons] at h
    rw [setEntry, if_neg (by simp [h.1]), ih h.2, List.cons_append]

theorem length_setEntries_le (entries map : List (Core × Core)) :
    (setEntries same entries map).length ≤ map.length + entries.length := by
  induction entries generalizing map with
  | nil => exact Nat.le_refl _
  | cons entry entries ih =>
    have hrest := ih (setEntry same entry.1 entry.2 map)
    change (setEntries same entries (setEntry same entry.1 entry.2 map)).length ≤ _
    rw [List.length_cons]
    rcases @setEntry_cases _ same entry.1 entry.2 map with happend | hlength
    · rw [happend, List.length_append, List.length_singleton] at hrest
      rw [happend]
      omega
    · rw [hlength] at hrest
      omega

theorem setEntries_eq_append {entries map : List (Core × Core)}
    (h : (setEntries same entries map).length = map.length + entries.length) :
    setEntries same entries map = map ++ entries := by
  induction entries generalizing map with
  | nil => exact (List.append_nil _).symm
  | cons entry entries ih =>
    change (setEntries same entries (setEntry same entry.1 entry.2 map)).length = _ at h
    change setEntries same entries (setEntry same entry.1 entry.2 map) = _
    have hle := @length_setEntries_le _ same entries (setEntry same entry.1 entry.2 map)
    rw [List.length_cons] at h
    rcases @setEntry_cases _ same entry.1 entry.2 map with happend | hlength
    · rw [happend] at h ⊢
      rw [ih (by rw [h, List.length_append, List.length_singleton]; omega), List.append_assoc,
        List.singleton_append]
    · omega

theorem key_of_mem_setEntry {key value : Core} {entry : Core × Core}
    (h : entry ∈ setEntry same key value map) :
    entry.1 = key ∨ ∃ other ∈ map, entry.1 = other.1 := by
  induction map with
  | nil =>
    cases List.mem_singleton.mp h
    exact Or.inl rfl
  | cons other rest ih =>
    rw [setEntry] at h
    split at h
    · rcases List.mem_cons.mp h with rfl | hmem
      · exact Or.inr ⟨other, List.mem_cons_self, rfl⟩
      · exact Or.inr ⟨entry, List.mem_cons_of_mem _ hmem, rfl⟩
    · rcases List.mem_cons.mp h with rfl | hmem
      · exact Or.inr ⟨other, List.mem_cons_self, rfl⟩
      · rcases ih hmem with heq | ⟨other, hother, heq⟩
        · exact Or.inl heq
        · exact Or.inr ⟨other, List.mem_cons_of_mem _ hother, heq⟩

/-- No key is the same as one before it. -/
def DistinctKeys (same : Core → Core → Bool) (map : List (Core × Core)) : Prop :=
  map.Pairwise fun entry entry' => same entry'.1 entry.1 = false

theorem DistinctKeys.setEntry {map : List (Core × Core)} (h : DistinctKeys same map)
    (key value : Core) : DistinctKeys same (setEntry same key value map) := by
  induction map with
  | nil => exact List.pairwise_singleton _ _
  | cons entry rest ih =>
    obtain ⟨key', value'⟩ := entry
    obtain ⟨hfirst, hrest⟩ := List.pairwise_cons.mp h
    rw [Lib.setEntry]
    split
    · exact List.pairwise_cons.mpr ⟨hfirst, hrest⟩
    · rename_i hdifferent
      refine List.pairwise_cons.mpr ⟨?_, ih hrest⟩
      intro entry hentry
      rcases key_of_mem_setEntry hentry with heq | ⟨other, hother, heq⟩
      · rw [heq]
        simpa using hdifferent
      · rw [heq]
        exact hfirst other hother

theorem DistinctKeys.setEntries {map : List (Core × Core)} (h : DistinctKeys same map)
    (entries : List (Core × Core)) : DistinctKeys same (setEntries same entries map) := by
  induction entries generalizing map with
  | nil => exact h
  | cons entry entries ih => exact ih (h.setEntry entry.1 entry.2)

theorem DistinctKeys.setEntries_eq {entries : List (Core × Core)}
    (h : DistinctKeys same (map ++ entries)) :
    Lib.setEntries same entries map = map ++ entries := by
  induction entries generalizing map with
  | nil => exact (List.append_nil _).symm
  | cons entry entries ih =>
    have hnew : ∀ other ∈ map, same entry.1 other.1 = false := by
      intro other hother
      exact (List.pairwise_append.mp h).2.2 other hother entry List.mem_cons_self
    change Lib.setEntries same entries (Lib.setEntry same entry.1 entry.2 map) = _
    rw [setEntry_new entry.2 hnew, ih (by rwa [List.append_assoc, List.singleton_append]),
      List.append_assoc, List.singleton_append]

/-- A map is built from its own entries exactly if its keys are distinct. -/
theorem setEntries_eq_iff {entries own : List (Core × Core)} (hlength : entries.length = own.length) :
    setEntries same entries [] = own ↔ entries = own ∧ DistinctKeys same own := by
  constructor
  · rintro rfl
    have heq := @setEntries_eq_append _ same entries [] (by rw [← hlength]; simp)
    rw [List.nil_append] at heq
    refine ⟨heq.symm, DistinctKeys.setEntries List.Pairwise.nil entries⟩
  · rintro ⟨rfl, hdistinct⟩
    exact DistinctKeys.setEntries_eq hdistinct

theorem distinctKeys_iff_nodup {P : Type} {primitive : Core → Option P}
    (hsame : ∀ key key', same key' key = true ↔ ∃ value, primitive key = some value ∧
      primitive key' = some value) (map : List (Core × Core)) :
    DistinctKeys same map ↔ (map.filterMap fun entry => primitive entry.1).Nodup := by
  induction map with
  | nil => exact iff_of_true List.Pairwise.nil List.nodup_nil
  | cons entry rest ih =>
    unfold DistinctKeys at ih ⊢
    rw [List.pairwise_cons, ih]
    cases hkey : primitive entry.1 with
    | none =>
      simp only [List.filterMap_cons, hkey]
      refine and_iff_right fun other _ => ?_
      rw [← Bool.not_eq_true, hsame]
      simp [hkey]
    | some value =>
      simp only [List.filterMap_cons, hkey, List.nodup_cons]
      refine and_congr_left fun _ => ?_
      constructor
      · intro hdistinct hmem
        obtain ⟨other, hother, hvalue⟩ := List.mem_filterMap.mp hmem
        have hsame' := (hsame entry.1 other.1).mpr ⟨value, hkey, hvalue⟩
        rw [hdistinct other hother] at hsame'
        cases hsame'
      · intro hfresh other hother
        rw [← Bool.not_eq_true, hsame]
        rintro ⟨value', hvalue, hvalue'⟩
        rw [hkey] at hvalue
        cases hvalue
        exact hfresh (List.mem_filterMap.mpr ⟨other, hother, hvalue'⟩)

end Setting

section Loop

variable {missing : ε} {equals : Object → Object → Bool} {same : Core → Core → Bool}
  {entries : List (Conversion ε Object Core)} {result : List (Core × Core)}

def Finds (missing : ε) (equals : Object → Object → Bool)
    (entries : List (Conversion ε Object Core)) (entry : Conversion ε Object Core)
    (found : Core × Core) : Prop :=
  entry.coreKey = .ok found.1 ∧ valueOf missing equals entry.key entries = .ok found.2

theorem convertMap_suffix {all suffix : List (Conversion ε Object Core)} {map : List (Core × Core)} :
    suffix.foldlM (fun map entry => do
        let key ← entry.coreKey
        let value ← valueOf missing equals entry.key all
        return setEntry same key value map) map = Except.ok result ↔
      ∃ found, List.Forall₂ (Finds missing equals all) suffix found ∧
        result = setEntries same found map := by
  induction suffix generalizing map with
  | nil =>
    constructor
    · intro h
      cases h
      exact ⟨[], List.Forall₂.nil, rfl⟩
    · rintro ⟨found, hfound, rfl⟩
      cases hfound
      rfl
  | cons entry suffix ih =>
    rw [List.foldlM_cons]
    constructor
    · intro h
      obtain ⟨map', hentry, hrest⟩ := bind_ok h
      obtain ⟨key, hkey, hentry⟩ := bind_ok hentry
      obtain ⟨value, hvalue, hentry⟩ := bind_ok hentry
      cases hentry
      obtain ⟨found, hfound, rfl⟩ := ih.mp hrest
      exact ⟨(key, value) :: found, List.Forall₂.cons ⟨hkey, hvalue⟩ hfound, rfl⟩
    · rintro ⟨found, hfound, rfl⟩
      cases hfound with
      | @cons _ pair _ found hpair hfound =>
        rw [hpair.1, hpair.2]
        exact ih.mpr ⟨found, hfound, rfl⟩

theorem convertMap_eq_ok_iff : convertMap missing equals same entries = .ok result ↔
    ∃ found, List.Forall₂ (Finds missing equals entries) entries found ∧
      result = setEntries same found [] :=
  convertMap_suffix

theorem exists_finds_iff {all : List (Conversion ε Object Core)} :
    (∃ found, List.Forall₂ (Finds missing equals all) entries found) ↔ ∀ entry ∈ entries,
      (∃ key, entry.coreKey = .ok key) ∧ ∃ value, valueOf missing equals entry.key all = .ok value := by
  induction entries with
  | nil => exact ⟨fun _ => by simp, fun _ => ⟨[], List.Forall₂.nil⟩⟩
  | cons entry entries ih =>
    rw [List.forall_mem_cons, ← ih]
    constructor
    · rintro ⟨found, hfound⟩
      cases hfound with
      | cons hpair hfound => exact ⟨⟨⟨_, hpair.1⟩, _, hpair.2⟩, _, hfound⟩
    · rintro ⟨⟨⟨key, hkey⟩, value, hvalue⟩, found, hfound⟩
      exact ⟨(key, value) :: found, List.Forall₂.cons ⟨hkey, hvalue⟩ hfound⟩

theorem convertMap_succeeds_iff : (∃ result, convertMap missing equals same entries = .ok result) ↔
    ∀ entry ∈ entries, (∃ key, entry.coreKey = .ok key) ∧
      ∃ value, valueOf missing equals entry.key entries = .ok value := by
  rw [← exists_finds_iff]
  constructor
  · rintro ⟨result, hresult⟩
    obtain ⟨found, hfound, _⟩ := convertMap_eq_ok_iff.mp hresult
    exact ⟨found, hfound⟩
  · rintro ⟨found, hfound⟩
    exact ⟨_, convertMap_eq_ok_iff.mpr ⟨found, hfound, rfl⟩⟩

/-- The entries of the map come out in order, each with its own key and value,
exactly if each finds its own value and their keys are distinct. -/
theorem convertMap_own_iff {own : List (Core × Core)} (hlength : entries.length = own.length) :
    convertMap missing equals same entries = .ok own ↔
      List.Forall₂ (Finds missing equals entries) entries own ∧ DistinctKeys same own := by
  rw [convertMap_eq_ok_iff]
  constructor
  · rintro ⟨found, hfound, hown⟩
    have hsame := hfound.length_eq.symm.trans hlength
    obtain ⟨rfl, hdistinct⟩ := (setEntries_eq_iff hsame).mp hown.symm
    exact ⟨hfound, hdistinct⟩
  · rintro ⟨hfound, hdistinct⟩
    exact ⟨own, hfound, ((setEntries_eq_iff rfl).mpr ⟨rfl, hdistinct⟩).symm⟩

/-- What is found for an entry: the value of the first equal key before it, or its own. -/
theorem valueOf_split {before after : List (Conversion ε Object Core)}
    {entry : Conversion ε Object Core} (hself : equals entry.key entry.key = true) :
    valueOf missing equals entry.key (before ++ entry :: after) =
      match before.find? (fun other => equals other.key entry.key) with
      | some other => other.coreValue
      | none => entry.coreValue := by
  unfold valueOf
  rw [List.find?_append]
  cases before.find? (fun other => equals other.key entry.key) with
  | some other => rfl
  | none =>
    have hfind : (entry :: after).find? (fun other => equals other.key entry.key) = some entry :=
      List.find?_cons_of_pos hself
    rw [hfind]
    rfl

end Loop

end CardanoSdk.Lib
