import CardanoSdk.Plutus.CoreEntries
import CardanoSdk.Serialization.TransactionMetadatum

/-!
The entries of metadatum maps in the core type. An object that was read under a foreign
tag means nothing.
-/

namespace CardanoSdk.Serialization

open Lib Cbor Plutus Cardano

namespace TransactionMetadatum

mutual

def meaning : TransactionMetadatum → Option Metadatum
  | .new _ => none
  | .bytes _ value => some (.bytes value)
  | .text _ value => some (.text value)
  | .integer _ value => some (.integer value)
  | .list _ _ items => do
      let items ← meaningAll items
      some (.list items)
  | .map _ _ entries => do
      let entries ← meaningEntries entries
      some (.map entries)

def meaningAll : List TransactionMetadatum → Option (List Metadatum)
  | [] => some []
  | item :: items => do
      let first ← item.meaning
      let rest ← meaningAll items
      some (first :: rest)

def meaningEntries : List (TransactionMetadatum × TransactionMetadatum) →
    Option (List (Metadatum × Metadatum))
  | [] => some []
  | (key, value) :: entries => do
      let first ← key.meaning
      let second ← value.meaning
      let rest ← meaningEntries entries
      some ((first, second) :: rest)

end

def primitive : TransactionMetadatum → Option (ℤ ⊕ String)
  | .integer _ value => some (.inl value)
  | .text _ value => some (.inr value)
  | _ => none

def DistinctPrimitiveKeys (entries : List (TransactionMetadatum × TransactionMetadatum)) : Prop :=
  (entries.filterMap fun entry => entry.1.primitive).Nodup

mutual

/-- In no map is an integer or a text repeated as a key, and a key that equals
an earlier one has a value that means the same as the first of them. Nothing
was read under a foreign tag. -/
def Unmixed : TransactionMetadatum → Prop
  | .new _ => False
  | .bytes _ _ => True
  | .text _ _ => True
  | .integer _ _ => True
  | .list _ _ items => AllUnmixed items
  | .map _ _ entries => DistinctPrimitiveKeys entries ∧ EntriesUnmixed [] entries

def AllUnmixed : List TransactionMetadatum → Prop
  | [] => True
  | item :: items => item.Unmixed ∧ AllUnmixed items

def EntriesUnmixed (seen : List (TransactionMetadatum × TransactionMetadatum)) :
    List (TransactionMetadatum × TransactionMetadatum) → Prop
  | [] => True
  | (key, value) :: entries =>
    key.Unmixed ∧
    (match seen.find? (fun entry => entry.1.equals key) with
      | some entry => entry.2.meaning = value.meaning
      | none => value.Unmixed) ∧
    EntriesUnmixed (seen ++ [(key, value)]) entries

end

/-- Every entry of every map comes out in order, with its own key and value. -/
def KeepsEntries (data : TransactionMetadatum) : Prop :=
  ∃ core, data.toCore = .ok core ∧ data.meaning = some core

mutual

theorem equals_self : (data : TransactionMetadatum) → {core : Metadatum} →
    data.meaning = some core → data.equals data = true
  | .new _, _, h => by cases h
  | .bytes _ value, _, _ => by simp [equals]
  | .text _ value, _, _ => by simp [equals]
  | .integer _ value, _, _ => by simp [equals]
  | .list _ _ items, _, h => by
    rw [meaning] at h
    obtain ⟨cores, hcores, _⟩ := Option.bind_eq_some_iff.mp h
    rw [equals, equals_self_all items hcores]
  | .map _ indefinite entries, _, h => by
    rw [meaning] at h
    obtain ⟨cores, hcores, _⟩ := Option.bind_eq_some_iff.mp h
    rw [equals, equals_self_entries entries hcores]
    simp

theorem equals_self_all : (items : List TransactionMetadatum) → {cores : List Metadatum} →
    meaningAll items = some cores → metadataEqual items items = true
  | [], _, _ => by rw [metadataEqual]
  | item :: items, _, h => by
    rw [meaningAll] at h
    obtain ⟨first, hfirst, h⟩ := Option.bind_eq_some_iff.mp h
    obtain ⟨rest, hrest, _⟩ := Option.bind_eq_some_iff.mp h
    rw [metadataEqual, equals_self item hfirst, equals_self_all items hrest]
    rfl

theorem equals_self_entries : (entries : List (TransactionMetadatum × TransactionMetadatum)) →
    {cores : List (Metadatum × Metadatum)} → meaningEntries entries = some cores →
    metadatumEntriesEqual entries entries = true
  | [], _, _ => by rw [metadatumEntriesEqual]
  | (key, value) :: entries, _, h => by
    rw [meaningEntries] at h
    obtain ⟨first, hfirst, h⟩ := Option.bind_eq_some_iff.mp h
    obtain ⟨second, hsecond, h⟩ := Option.bind_eq_some_iff.mp h
    obtain ⟨rest, hrest, _⟩ := Option.bind_eq_some_iff.mp h
    rw [metadatumEntriesEqual, equals_self key hfirst, equals_self value hsecond,
      equals_self_entries entries hrest]
    rfl

end

mutual

theorem equals_trans : (data data' data'' : TransactionMetadatum) → data.equals data' = true →
    data'.equals data'' = true → data.equals data'' = true
  | .new _, data', data'', h, h' => by cases data' <;> simp [equals] at h
  | .bytes _ value, data', data'', h, h' => by
    cases data' <;> cases data'' <;> simp_all [equals]
  | .text _ value, data', data'', h, h' => by
    cases data' <;> cases data'' <;> simp_all [equals]
  | .integer _ value, data', data'', h, h' => by
    cases data' <;> cases data'' <;> simp_all [equals]
  | .list _ _ items, data', data'', h, h' => by
    cases data' <;> simp only [equals, Bool.false_eq_true] at h
    cases data'' <;> simp only [equals, Bool.false_eq_true] at h'
    rw [equals]
    exact equals_trans_all items _ _ h h'
  | .map _ indefinite entries, data', data'', h, h' => by
    cases data' <;> simp only [equals, Bool.false_eq_true, Bool.and_eq_true,
      decide_eq_true_eq] at h
    cases data'' <;> simp only [equals, Bool.false_eq_true, Bool.and_eq_true,
      decide_eq_true_eq] at h'
    rw [equals, equals_trans_entries entries _ _ h.2 h'.2, h.1, h'.1]
    simp

theorem equals_trans_all : (items items' items'' : List TransactionMetadatum) →
    metadataEqual items items' = true → metadataEqual items' items'' = true →
    metadataEqual items items'' = true
  | [], items', items'', h, h' => by
    cases items' <;> simp only [metadataEqual, Bool.false_eq_true] at h
    exact h'
  | item :: items, items', items'', h, h' => by
    cases items' <;> simp only [metadataEqual, Bool.false_eq_true, Bool.and_eq_true] at h
    cases items'' <;> simp only [metadataEqual, Bool.false_eq_true, Bool.and_eq_true] at h'
    rw [metadataEqual, equals_trans item _ _ h.1 h'.1, equals_trans_all items _ _ h.2 h'.2]
    rfl

theorem equals_trans_entries :
    (entries entries' entries'' : List (TransactionMetadatum × TransactionMetadatum)) →
    metadatumEntriesEqual entries entries' = true →
    metadatumEntriesEqual entries' entries'' = true →
    metadatumEntriesEqual entries entries'' = true
  | [], entries', entries'', h, h' => by
    cases entries' <;> simp only [metadatumEntriesEqual, Bool.false_eq_true] at h
    exact h'
  | (key, value) :: entries, entries', entries'', h, h' => by
    cases entries' <;> simp only [metadatumEntriesEqual, Bool.false_eq_true, Bool.and_eq_true] at h
    cases entries'' <;>
      simp only [metadatumEntriesEqual, Bool.false_eq_true, Bool.and_eq_true] at h'
    rw [metadatumEntriesEqual, equals_trans key _ _ h.1.1 h'.1.1,
      equals_trans value _ _ h.1.2 h'.1.2, equals_trans_entries entries _ _ h.2 h'.2]
    rfl

end

def corePrimitive : Metadatum → Option (ℤ ⊕ String)
  | .integer value => some (.inl value)
  | .text value => some (.inr value)
  | _ => none

theorem sameMetadatum_iff (key key' : Metadatum) :
    sameMetadatum key' key = true ↔ ∃ value, corePrimitive key = some value ∧
      corePrimitive key' = some value := by
  cases key <;> cases key' <;> simp [sameMetadatum, corePrimitive]

theorem corePrimitive_meaning {data : TransactionMetadatum} {core : Metadatum}
    (h : data.meaning = some core) : corePrimitive core = data.primitive := by
  cases data with
  | new => cases h
  | bytes original value =>
    cases h
    rfl
  | text original value =>
    cases h
    rfl
  | integer original value =>
    cases h
    rfl
  | list original indefinite items =>
    rw [meaning] at h
    obtain ⟨cores, _, hcore⟩ := Option.bind_eq_some_iff.mp h
    cases hcore
    rfl
  | map original indefinite entries =>
    rw [meaning] at h
    obtain ⟨cores, _, hcore⟩ := Option.bind_eq_some_iff.mp h
    cases hcore
    rfl

variable {entries seen : List (TransactionMetadatum × TransactionMetadatum)}
  {key value : TransactionMetadatum} {own : List (Metadatum × Metadatum)}

theorem meaningEntries_cons :
    meaningEntries ((key, value) :: entries) = some own ↔ ∃ first second rest,
      key.meaning = some first ∧ value.meaning = some second ∧
      meaningEntries entries = some rest ∧ own = (first, second) :: rest := by
  rw [meaningEntries]
  constructor
  · intro h
    obtain ⟨first, hfirst, h⟩ := Option.bind_eq_some_iff.mp h
    obtain ⟨second, hsecond, h⟩ := Option.bind_eq_some_iff.mp h
    obtain ⟨rest, hrest, h⟩ := Option.bind_eq_some_iff.mp h
    exact ⟨first, second, rest, hfirst, hsecond, hrest, (Option.some.inj h).symm⟩
  · rintro ⟨first, second, rest, hfirst, hsecond, hrest, rfl⟩
    rw [hfirst, hsecond, hrest]
    rfl

theorem keys_meaningEntries (h : meaningEntries entries = some own) :
    entries.length = own.length ∧ own.filterMap (fun entry => corePrimitive entry.1) =
      entries.filterMap fun entry => entry.1.primitive := by
  induction entries generalizing own with
  | nil =>
    cases h
    exact ⟨rfl, rfl⟩
  | cons entry entries ih =>
    obtain ⟨key, value⟩ := entry
    obtain ⟨first, second, rest, hfirst, _, hrest, rfl⟩ := meaningEntries_cons.mp h
    obtain ⟨hlength, hkeys⟩ := ih hrest
    refine ⟨by rw [List.length_cons, List.length_cons, hlength], ?_⟩
    rw [List.filterMap_cons, List.filterMap_cons, hkeys]
    simp only [corePrimitive_meaning hfirst]

theorem distinctKeys_meaning (h : meaningEntries entries = some own) :
    DistinctKeys sameMetadatum own ↔ DistinctPrimitiveKeys entries := by
  rw [distinctKeys_iff_nodup sameMetadatum_iff, (keys_meaningEntries h).2]
  rfl

theorem metadatumConversions_eq (entries : List (TransactionMetadatum × TransactionMetadatum)) :
    metadatumConversions entries =
      entries.map fun entry => ⟨entry.1, entry.1.toCore, entry.2.toCore⟩ := by
  induction entries with
  | nil => rw [metadatumConversions, List.map_nil]
  | cons entry entries ih =>
    obtain ⟨key, value⟩ := entry
    rw [metadatumConversions, ih, List.map_cons]

/-- The first entry under any key keeps what its value means. -/
def Answers (seen : List (TransactionMetadatum × TransactionMetadatum)) : Prop :=
  ∀ key entry, seen.find? (fun entry => entry.1.equals key) = some entry → entry.2.KeepsEntries

theorem Answers.snoc (hanswers : Answers seen)
    (hvalue : seen.find? (fun entry => entry.1.equals key) = none → value.KeepsEntries) :
    Answers (seen ++ [(key, value)]) := by
  intro key' entry hfind
  rw [List.find?_append] at hfind
  cases hseen : seen.find? (fun entry => entry.1.equals key') with
  | some found =>
    rw [hseen] at hfind
    cases hfind
    exact hanswers key' _ hseen
  | none =>
    rw [hseen, Option.none_or, List.find?_singleton] at hfind
    split at hfind
    · rename_i hequals
      cases hfind
      apply hvalue
      rw [List.find?_eq_none] at hseen ⊢
      intro entry hentry hearlier
      exact hseen entry hentry (equals_trans _ _ _ hearlier hequals)
    · cases hfind

theorem valueOf_seen (hself : key.equals key = true) :
    valueOf .undefinedAccess equals key (metadatumConversions (seen ++ (key, value) :: entries)) =
      match seen.find? (fun entry => entry.1.equals key) with
      | some entry => entry.2.toCore
      | none => value.toCore := by
  have hsplit : metadatumConversions (seen ++ (key, value) :: entries) =
      metadatumConversions seen ++ ⟨key, key.toCore, value.toCore⟩ ::
        metadatumConversions entries := by
    simp only [metadatumConversions_eq, List.map_append, List.map_cons]
  have hfind : (metadatumConversions seen).find? (fun other => other.key.equals key) =
      (seen.find? fun entry => entry.1.equals key).map
        fun entry => ⟨entry.1, entry.1.toCore, entry.2.toCore⟩ := by
    rw [metadatumConversions_eq]
    exact List.find?_map
  have hvalue := @valueOf_split EncodeException _ _ .undefinedAccess equals
    (metadatumConversions seen) (metadatumConversions entries) ⟨key, key.toCore, value.toCore⟩ hself
  rw [hsplit, hvalue, hfind]
  cases seen.find? (fun entry => entry.1.equals key) <;> rfl

theorem finds_iff {first second : Metadatum} (hanswers : Answers seen)
    (hfirst : key.meaning = some first) (hsecond : value.meaning = some second) :
    Finds .undefinedAccess equals (metadatumConversions (seen ++ (key, value) :: entries))
        ⟨key, key.toCore, value.toCore⟩ (first, second) ↔
      key.KeepsEntries ∧ (match seen.find? (fun entry => entry.1.equals key) with
        | some entry => entry.2.meaning = value.meaning
        | none => value.KeepsEntries) := by
  have hkeeps {data : TransactionMetadatum} {core : Metadatum} (h : data.meaning = some core) :
      data.toCore = .ok core ↔ data.KeepsEntries := by
    constructor
    · exact fun hcore => ⟨core, hcore, h⟩
    · rintro ⟨core', hcore', h'⟩
      rw [h] at h'
      cases h'
      exact hcore'
  unfold Finds
  rw [valueOf_seen (equals_self key hfirst)]
  refine and_congr (hkeeps hfirst) ?_
  cases hfind : seen.find? (fun entry => entry.1.equals key) with
  | none => exact hkeeps hsecond
  | some entry =>
    obtain ⟨core, hcore, hmeaning⟩ := hanswers key entry hfind
    dsimp only
    rw [hcore, hmeaning, hsecond]
    constructor
    · intro h
      cases h
      rfl
    · intro h
      cases h
      rfl

def AllFound (seen entries : List (TransactionMetadatum × TransactionMetadatum)) : Prop :=
  ∃ own, meaningEntries entries = some own ∧
    List.Forall₂ (Finds .undefinedAccess equals (metadatumConversions (seen ++ entries)))
      (metadatumConversions entries) own

theorem allFound_cons (hanswers : Answers seen) :
    AllFound seen ((key, value) :: entries) ↔ key.KeepsEntries ∧ value.meaning.isSome ∧
      (match seen.find? (fun entry => entry.1.equals key) with
        | some entry => entry.2.meaning = value.meaning
        | none => value.KeepsEntries) ∧ AllFound (seen ++ [(key, value)]) entries := by
  unfold AllFound
  rw [List.append_assoc, List.singleton_append, metadatumConversions]
  constructor
  · rintro ⟨own, hown, hfinds⟩
    obtain ⟨first, second, rest, hfirst, hsecond, hrest, rfl⟩ := meaningEntries_cons.mp hown
    obtain ⟨hentry, hfinds⟩ := List.forall₂_cons.mp hfinds
    obtain ⟨hkey, hvalue⟩ := (finds_iff hanswers hfirst hsecond).mp hentry
    exact ⟨hkey, by rw [hsecond]; rfl, hvalue, rest, hrest, hfinds⟩
  · rintro ⟨hkey, hsome, hvalue, rest, hrest, hfinds⟩
    obtain ⟨first, _, hfirst⟩ := id hkey
    obtain ⟨second, hsecond⟩ := Option.isSome_iff_exists.mp hsome
    refine ⟨(first, second) :: rest,
      meaningEntries_cons.mpr ⟨first, second, rest, hfirst, hsecond, hrest, rfl⟩, ?_⟩
    exact List.Forall₂.cons ((finds_iff hanswers hfirst hsecond).mpr ⟨hkey, hvalue⟩) hfinds

theorem keepsEntries_map {original : Option (List UInt8)} {indefinite : Bool} :
    KeepsEntries (.map original indefinite entries) ↔
      DistinctPrimitiveKeys entries ∧ AllFound [] entries := by
  unfold KeepsEntries AllFound
  rw [toCore, meaning, List.nil_append]
  constructor
  · rintro ⟨core, hcore, hmeaning⟩
    obtain ⟨own, hown, hpure⟩ := Option.bind_eq_some_iff.mp hmeaning
    obtain ⟨coreMap, hconvert, hpure'⟩ := bind_ok hcore
    cases hpure
    cases hpure'
    have hlength : (metadatumConversions entries).length = own.length := by
      rw [metadatumConversions_eq, List.length_map, (keys_meaningEntries hown).1]
    obtain ⟨hfinds, hdistinct⟩ := (convertMap_own_iff hlength).mp hconvert
    exact ⟨(distinctKeys_meaning hown).mp hdistinct, own, hown, hfinds⟩
  · rintro ⟨hdistinct, own, hown, hfinds⟩
    have hconvert := (convertMap_own_iff hfinds.length_eq).mpr
      ⟨hfinds, (distinctKeys_meaning hown).mpr hdistinct⟩
    refine ⟨.map own, ?_, ?_⟩
    · rw [hconvert]
      rfl
    · rw [hown]
      rfl

mutual

theorem keepsEntries_iff : (data : TransactionMetadatum) → (data.KeepsEntries ↔ data.Unmixed)
  | .new _ => by simp [KeepsEntries, toCore, Unmixed]
  | .bytes _ value => by simp [KeepsEntries, toCore, meaning, Unmixed]
  | .text _ value => by simp [KeepsEntries, toCore, meaning, Unmixed]
  | .integer _ value => by simp [KeepsEntries, toCore, meaning, Unmixed]
  | .list _ _ items => by
    rw [Unmixed, ← keepsAll_iff items]
    unfold KeepsEntries
    rw [toCore, meaning]
    constructor
    · rintro ⟨core, hcore, hmeaning⟩
      obtain ⟨cores, hcores, hpure⟩ := Option.bind_eq_some_iff.mp hmeaning
      obtain ⟨cores', hcores', hpure'⟩ := bind_ok hcore
      cases hpure
      cases hpure'
      exact ⟨cores, hcores', hcores⟩
    · rintro ⟨cores, hcores, hmeaning⟩
      rw [hcores, hmeaning]
      exact ⟨.list cores, rfl, rfl⟩
  | .map _ _ entries => by
    have hnone : Answers [] := by
      intro key entry hfind
      cases hfind
    rw [keepsEntries_map, Unmixed, allFound_iff entries [] hnone]

theorem keepsAll_iff : (items : List TransactionMetadatum) →
    ((∃ cores, metadataToCore items = .ok cores ∧ meaningAll items = some cores) ↔ AllUnmixed items)
  | [] => by simp [metadataToCore, meaningAll, AllUnmixed]
  | item :: items => by
    rw [AllUnmixed, ← keepsEntries_iff item, ← keepsAll_iff items, metadataToCore, meaningAll]
    unfold KeepsEntries
    constructor
    · rintro ⟨cores, hcores, hmeaning⟩
      obtain ⟨first, hfirst, hcores⟩ := bind_ok hcores
      obtain ⟨rest, hrest, hpure⟩ := bind_ok hcores
      obtain ⟨first', hfirst', hmeaning⟩ := Option.bind_eq_some_iff.mp hmeaning
      obtain ⟨rest', hrest', hpure'⟩ := Option.bind_eq_some_iff.mp hmeaning
      cases hpure
      cases hpure'
      exact ⟨⟨first, hfirst, hfirst'⟩, rest, hrest, hrest'⟩
    · rintro ⟨⟨first, hfirst, hfirst'⟩, rest, hrest, hrest'⟩
      rw [hfirst, hfirst', hrest, hrest']
      exact ⟨first :: rest, rfl, rfl⟩

theorem allFound_iff : (entries seen : List (TransactionMetadatum × TransactionMetadatum)) →
    Answers seen → (AllFound seen entries ↔ EntriesUnmixed seen entries)
  | [], seen, _ => by
    rw [EntriesUnmixed]
    refine iff_of_true ⟨[], by rw [meaningEntries], ?_⟩ trivial
    rw [metadatumConversions]
    exact List.Forall₂.nil
  | (key, value) :: entries, seen, hanswers => by
    have hvalueIff := keepsEntries_iff value
    rw [allFound_cons hanswers, EntriesUnmixed, ← keepsEntries_iff key]
    refine and_congr_right fun _ => ?_
    cases hfind : seen.find? (fun entry => entry.1.equals key) with
    | some entry =>
      dsimp only
      have hrest := allFound_iff entries (seen ++ [(key, value)])
        (hanswers.snoc fun hnone => by rw [hfind] at hnone; cases hnone)
      rw [hrest]
      refine and_iff_right_of_imp fun hunmixed => ?_
      obtain ⟨core, _, hcore⟩ := hanswers key entry hfind
      rw [← hunmixed.1, hcore]
      rfl
    | none =>
      dsimp only
      rw [← hvalueIff]
      constructor
      · rintro ⟨_, hvalue, hrest⟩
        exact ⟨hvalue, (allFound_iff entries (seen ++ [(key, value)])
          (hanswers.snoc fun _ => hvalue)).mp hrest⟩
      · rintro ⟨hvalue, hrest⟩
        obtain ⟨core, _, hcore⟩ := id hvalue
        exact ⟨by rw [hcore]; rfl, hvalue, (allFound_iff entries (seen ++ [(key, value)])
          (hanswers.snoc fun _ => hvalue)).mpr hrest⟩

end

end TransactionMetadatum

/-- Of decoded data, `toCore` keeps every entry with its own key and value
exactly if in no map a key is repeated that the core map finds again, or that
is given another's value. -/
theorem toCore_keepsEntries_iff (cbor : List UInt8) :
    (∀ data, PlutusData.fromCbor cbor = .ok data → (data.KeepsEntries ↔ data.Unmixed)) ∧
    (∀ data, TransactionMetadatum.fromCbor cbor = .ok data →
      (data.KeepsEntries ↔ data.Unmixed)) := by
  constructor
  · intro data hdata
    exact PlutusData.keepsEntries_iff (cached_of_fromCborWithin hdata).2
  · intro data _
    exact data.keepsEntries_iff

def differentKeys : List UInt8 := [0xa3, 0x01, 0x02, 0x41, 0x00, 0x03, 0x41, 0x01, 0x04]

/-- The map of an integer and two byte strings, not the same, to integers. -/
def PlutusData.hasDifferentKeys : PlutusData → Bool
  | .map _ _ [(.integer _ _, .integer _ _), (.bytes _ key, .integer _ _),
      (.bytes _ key', .integer _ _)] => !(key = key')
  | _ => false

def TransactionMetadatum.hasDifferentKeys : TransactionMetadatum → Bool
  | .map _ _ [(.integer _ _, .integer _ _), (.bytes _ key, .integer _ _),
      (.bytes _ key', .integer _ _)] => !(key = key')
  | _ => false

theorem toCore_keepsEntries_differentKeys :
    (∃ data, PlutusData.fromCbor differentKeys = .ok data ∧ data.KeepsEntries) ∧
    (∃ data, TransactionMetadatum.fromCbor differentKeys = .ok data ∧ data.KeepsEntries) := by
  have hplutus : okAnd PlutusData.hasDifferentKeys (PlutusData.fromCbor differentKeys) = true := by
    decide +kernel
  have hmetadatum : okAnd TransactionMetadatum.hasDifferentKeys
      (TransactionMetadatum.fromCbor differentKeys) = true := by
    decide +kernel
  constructor
  · obtain ⟨data, hdata, hkeys⟩ := okAnd_iff.mp hplutus
    unfold PlutusData.hasDifferentKeys at hkeys
    split at hkeys
    · refine ⟨_, hdata, ((toCore_keepsEntries_iff _).1 _ hdata).mpr ?_⟩
      simp_all [PlutusData.Unmixed, EntriesUnmixed, DistinctIntegerKeys, PlutusData.asInteger,
        PlutusData.equals]
    · cases hkeys
  · obtain ⟨data, hdata, hkeys⟩ := okAnd_iff.mp hmetadatum
    unfold TransactionMetadatum.hasDifferentKeys at hkeys
    split at hkeys
    · refine ⟨_, hdata, ((toCore_keepsEntries_iff _).2 _ hdata).mpr ?_⟩
      simp_all [TransactionMetadatum.Unmixed, TransactionMetadatum.EntriesUnmixed,
        TransactionMetadatum.DistinctPrimitiveKeys, TransactionMetadatum.primitive,
        TransactionMetadatum.equals]
    · cases hkeys

def repeatedKey : List UInt8 := [0xa2, 0x41, 0x00, 0x01, 0x41, 0x00, 0x02]

def PlutusData.hasRepeatedKey : PlutusData → Bool
  | .map _ _ [(key, .integer _ 1), (key', .integer _ 2)] => key.equals key'
  | _ => false

theorem not_keepsEntries_repeatedKey :
    ¬(∀ data, PlutusData.fromCbor repeatedKey = .ok data → data.KeepsEntries) := by
  intro hkeeps
  have hdecoded : okAnd PlutusData.hasRepeatedKey (PlutusData.fromCbor repeatedKey) = true := by
    decide +kernel
  obtain ⟨data, hdata, hkeys⟩ := okAnd_iff.mp hdecoded
  unfold PlutusData.hasRepeatedKey at hkeys
  split at hkeys
  · have hunmixed := (PlutusData.keepsEntries_iff (cached_of_fromCborWithin hdata).2).mp
      (hkeeps _ hdata)
    simp [PlutusData.Unmixed, EntriesUnmixed, hkeys, PlutusData.meaning] at hunmixed
  · cases hkeys

end CardanoSdk.Serialization
