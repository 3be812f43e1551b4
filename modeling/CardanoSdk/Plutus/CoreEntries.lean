import CardanoSdk.Plutus.CoreRoundTrip

/-!
The entries of plutus maps in the core type, against trees in which every entry stands
with its own key and value.
-/

namespace CardanoSdk.Plutus

open Lib Cbor

mutual

/-- The tree of a datum, with every entry of its maps in order. -/
def PlutusData.meaning : PlutusData → CoreData
  | .constr _ alternative data => .constr none alternative none (meaningAll data)
  | .map _ _ entries => .map none (meaningEntries entries)
  | .list _ items => .list none (meaningAll items)
  | .integer _ value => .integer value
  | .bytes _ value => .bytes value

def meaningAll : List PlutusData → List CoreData
  | [] => []
  | item :: items => item.meaning :: meaningAll items

def meaningEntries : List (PlutusData × PlutusData) → List (CoreData × CoreData)
  | [] => []
  | (key, value) :: entries => (key.meaning, value.meaning) :: meaningEntries entries

end

def DistinctIntegerKeys (entries : List (PlutusData × PlutusData)) : Prop :=
  (entries.filterMap fun entry => entry.1.asInteger).Nodup

mutual

/-- In no map is an integer key repeated, and a key that equals an earlier one
has a value that means the same as the first of them. -/
def PlutusData.Unmixed : PlutusData → Prop
  | .constr _ _ data => AllUnmixed data
  | .map _ _ entries => DistinctIntegerKeys entries ∧ EntriesUnmixed [] entries
  | .list _ items => AllUnmixed items
  | .integer _ _ => True
  | .bytes _ _ => True

def AllUnmixed : List PlutusData → Prop
  | [] => True
  | item :: items => item.Unmixed ∧ AllUnmixed items

def EntriesUnmixed (seen : List (PlutusData × PlutusData)) : List (PlutusData × PlutusData) → Prop
  | [] => True
  | (key, value) :: entries =>
    key.Unmixed ∧
    (match seen.find? (fun entry => entry.1.equals key) with
      | some entry => entry.2.meaning = value.meaning
      | none => value.Unmixed) ∧
    EntriesUnmixed (seen ++ [(key, value)]) entries

end

theorem coreInteger_meaning (data : PlutusData) : coreInteger data.meaning = data.asInteger := by
  cases data <;> simp [PlutusData.meaning, coreInteger, PlutusData.asInteger]

theorem integers_meaningEntries (entries : List (PlutusData × PlutusData)) :
    (meaningEntries entries).filterMap (fun entry => coreInteger entry.1) =
      entries.filterMap fun entry => entry.1.asInteger := by
  induction entries with
  | nil => rw [meaningEntries, List.filterMap_nil, List.filterMap_nil]
  | cons entry entries ih =>
    obtain ⟨key, value⟩ := entry
    rw [meaningEntries, List.filterMap_cons, List.filterMap_cons, ih]
    simp only [coreInteger_meaning]

theorem distinctKeys_meaning (entries : List (PlutusData × PlutusData)) :
    DistinctKeys sameCore (meaningEntries entries) ↔ DistinctIntegerKeys entries := by
  rw [distinctKeys_iff_nodup sameCore_iff, integers_meaningEntries]
  rfl

theorem length_foundEntries (seen : List (PlutusData × CoreData))
    (entries : List (PlutusData × PlutusData)) :
    (foundEntries seen (coreEntries entries)).length = (meaningEntries entries).length := by
  induction entries generalizing seen with
  | nil => rw [coreEntries, foundEntries, meaningEntries]
  | cons entry entries ih =>
    obtain ⟨key, value⟩ := entry
    rw [coreEntries, foundEntries, meaningEntries, List.length_cons, List.length_cons, ih]

def noteMeanings (seen : List (PlutusData × PlutusData)) : List (PlutusData × CoreData) :=
  seen.map fun entry => (entry.1, entry.2.meaning)

theorem valueUnder_noteMeanings (seen : List (PlutusData × PlutusData)) (key : PlutusData)
    (value : CoreData) :
    valueUnder (noteMeanings seen) key value =
      match seen.find? (fun entry => entry.1.equals key) with
      | some entry => entry.2.meaning
      | none => value := by
  have hfind : (noteMeanings seen).find? (fun entry => entry.1.equals key) =
      (seen.find? fun entry => entry.1.equals key).map fun entry => (entry.1, entry.2.meaning) :=
    List.find?_map
  unfold valueUnder
  rw [hfind]
  cases seen.find? (fun entry => entry.1.equals key) <;> rfl

mutual

theorem core_eq_meaning_iff : (data : PlutusData) → (data.core = data.meaning ↔ data.Unmixed)
  | .constr _ alternative data => by
    rw [PlutusData.core, PlutusData.meaning, PlutusData.Unmixed, ← coreAll_eq_iff data]
    simp
  | .map _ indefinite entries => by
    rw [PlutusData.core, PlutusData.meaning, PlutusData.Unmixed, ← foundEntries_eq_iff entries [],
      ← distinctKeys_meaning entries]
    have hiff := @setEntries_eq_iff _ sameCore _ _ (length_foundEntries [] entries)
    simp only [CoreData.map.injEq, true_and]
    rw [hiff, and_comm]
    rfl
  | .list _ items => by
    rw [PlutusData.core, PlutusData.meaning, PlutusData.Unmixed, ← coreAll_eq_iff items]
    simp
  | .integer _ value => by simp [PlutusData.core, PlutusData.meaning, PlutusData.Unmixed]
  | .bytes _ value => by simp [PlutusData.core, PlutusData.meaning, PlutusData.Unmixed]

theorem coreAll_eq_iff : (items : List PlutusData) →
    (coreAll items = meaningAll items ↔ AllUnmixed items)
  | [] => by simp [coreAll, meaningAll, AllUnmixed]
  | item :: items => by
    rw [coreAll, meaningAll, AllUnmixed, List.cons.injEq, core_eq_meaning_iff item,
      coreAll_eq_iff items]

theorem foundEntries_eq_iff : (entries seen : List (PlutusData × PlutusData)) →
    (foundEntries (noteMeanings seen) (coreEntries entries) = meaningEntries entries ↔
      EntriesUnmixed seen entries)
  | [], seen => by simp [coreEntries, foundEntries, meaningEntries, EntriesUnmixed]
  | (key, value) :: entries, seen => by
    have hrest := foundEntries_eq_iff entries (seen ++ [(key, value)])
    have hnote : noteMeanings (seen ++ [(key, value)]) = noteMeanings seen ++ [(key, value.meaning)] :=
      List.map_append
    rw [coreEntries, foundEntries, meaningEntries, EntriesUnmixed, ← hrest, hnote,
      ← core_eq_meaning_iff key]
    rw [List.cons.injEq, Prod.mk.injEq, valueUnder_noteMeanings, and_assoc]
    refine and_congr_right fun _ => ?_
    cases seen.find? (fun entry => entry.1.equals key) with
    | some entry =>
      dsimp only
      refine and_congr_right fun hvalue => ?_
      rw [hvalue]
    | none =>
      dsimp only
      rw [← core_eq_meaning_iff value]
      refine and_congr_right fun hvalue => ?_
      rw [hvalue]

end

/-- Every entry of every map comes out in order, with its own key and value. -/
def PlutusData.KeepsEntries (data : PlutusData) : Prop :=
  ∃ core, data.toCore = .ok core ∧ core.strip = data.meaning

theorem PlutusData.keepsEntries_iff {data : PlutusData} (h : data.Cached) :
    data.KeepsEntries ↔ data.Unmixed := by
  obtain ⟨core, hcore, hstrip⟩ := toCore_ok data h
  rw [← core_eq_meaning_iff, ← hstrip]
  constructor
  · rintro ⟨core', hcore', hmeaning⟩
    rw [hcore] at hcore'
    cases hcore'
    exact hmeaning
  · intro hmeaning
    exact ⟨core, hcore, hmeaning⟩

end CardanoSdk.Plutus
