import CardanoSdk.Plutus.Core
import CardanoSdk.Plutus.RoundTrip

/-!
Core data through `fromCore`, `toCbor`, `fromCbor` and `toCore`.
-/

namespace CardanoSdk.Plutus

open Lib Cbor Serialization

def PlutusData.originalBytes : PlutusData → Option (List UInt8)
  | .constr original _ _ => original
  | .map original _ _ => original
  | .list original _ => original
  | .integer original _ => original
  | .bytes original _ => original

mutual

/-- Every part has the bytes it was decoded from. -/
def PlutusData.Cached : PlutusData → Prop
  | .constr original _ data => original.isSome ∧ AllCached data
  | .map original _ entries => original.isSome ∧ EntriesCached entries
  | .list original items => original.isSome ∧ AllCached items
  | .integer original _ => original.isSome
  | .bytes original _ => original.isSome

def AllCached : List PlutusData → Prop
  | [] => True
  | item :: items => item.Cached ∧ AllCached items

def EntriesCached : List (PlutusData × PlutusData) → Prop
  | [] => True
  | (key, value) :: entries => key.Cached ∧ value.Cached ∧ EntriesCached entries

end

section Decoders

variable {fromCbor : List UInt8 → Except DecodeException PlutusData}

theorem readElements_cached (h : ∀ cbor data, fromCbor cbor = .ok data → data.Cached)
    (rounds : ℕ) : Returns (readElements fromCbor rounds) AllCached := by
  induction rounds with
  | zero => exact Returns.throw
  | succ rounds ih =>
    rw [readElements]
    refine Returns.read fun state => ?_
    split
    · exact Returns.pure (by rw [AllCached]; trivial)
    · refine Returns.read fun encoded => Returns.decode fun item hitem => ?_
      refine Returns.bind ih fun items hitems => Returns.pure ?_
      rw [AllCached]
      exact ⟨h _ _ hitem, hitems⟩

theorem readPlutusEntries_cached (h : ∀ cbor data, fromCbor cbor = .ok data → data.Cached)
    (rounds : ℕ) : Returns (readPlutusEntries fromCbor rounds) EntriesCached := by
  induction rounds with
  | zero => exact Returns.throw
  | succ rounds ih =>
    rw [readPlutusEntries]
    refine Returns.read fun state => ?_
    split
    · exact Returns.pure (by rw [EntriesCached]; trivial)
    · refine Returns.read fun encodedKey => Returns.decode fun key hkey => ?_
      refine Returns.read fun encodedValue => Returns.decode fun value hvalue => ?_
      refine Returns.bind ih fun entries hentries => Returns.pure ?_
      rw [EntriesCached]
      exact ⟨h _ _ hkey, h _ _ hvalue, hentries⟩

variable {cbor : List UInt8}

theorem plutusListFromCbor_cached (h : ∀ cbor data, fromCbor cbor = .ok data → data.Cached)
    {items : List PlutusData} (hitems : plutusListFromCbor fromCbor cbor = .ok items) :
    AllCached items :=
  Returns.decodeWith (Returns.read fun _ => Returns.bind (readElements_cached h _)
    fun _ hitems => Returns.read fun _ => Returns.pure hitems) hitems

theorem plutusMapFromCbor_cached (h : ∀ cbor data, fromCbor cbor = .ok data → data.Cached)
    {result : Bool × List (PlutusData × PlutusData)}
    (hresult : plutusMapFromCbor fromCbor cbor = .ok result) : EntriesCached result.2 :=
  @Returns.decodeWith _ (fun result => EntriesCached result.2) _
    (Returns.read fun _ => Returns.bind (readPlutusEntries_cached h _)
      fun _ hentries => Returns.read fun _ => Returns.pure hentries) _ _ hresult

theorem constrFromCbor_cached (h : ∀ cbor data, fromCbor cbor = .ok data → data.Cached)
    {result : ℤ × List PlutusData} (hresult : constrFromCbor fromCbor cbor = .ok result) :
    AllCached result.2 := by
  refine @Returns.decodeWith _ (fun result => AllCached result.2) _
    (Returns.read fun tag => ?_) _ _ hresult
  split
  · refine Returns.read fun _ => Returns.read fun _ => Returns.read fun encoded => ?_
    refine Returns.decode fun data hdata => Returns.read fun _ => Returns.pure ?_
    exact plutusListFromCbor_cached h hdata
  · refine Returns.read fun encoded => Returns.decode fun data hdata => Returns.pure ?_
    exact plutusListFromCbor_cached h hdata

end Decoders

variable {data : PlutusData} {cbor : List UInt8} {seen : List (PlutusData × CoreData)}
  {entries : List (CoreData × CoreData)}

theorem cached_of_fromCborWithin {fuel : ℕ} (h : fromCborWithin fuel cbor = .ok data) :
    data.originalBytes = some cbor ∧ data.Cached := by
  induction fuel generalizing cbor data with
  | zero => cases h
  | succ fuel ih =>
    have hcached : ∀ cbor data, fromCborWithin fuel cbor = .ok data → data.Cached :=
      fun _ _ hdata => (ih hdata).2
    rw [fromCborWithin] at h
    refine @Returns.decodeWith _ (fun data => data.originalBytes = some cbor ∧ data.Cached) _
      (Returns.read fun state => ?_) _ _ h
    have hinteger : ∀ value : ℤ,
        (PlutusData.integer (some cbor) value).originalBytes = some cbor ∧
          (PlutusData.integer (some cbor) value).Cached := by
      intro value
      rw [PlutusData.Cached]
      exact ⟨rfl, rfl⟩
    have hbytes : ∀ value : List UInt8,
        (PlutusData.bytes (some cbor) value).originalBytes = some cbor ∧
          (PlutusData.bytes (some cbor) value).Cached := by
      intro value
      rw [PlutusData.Cached]
      exact ⟨rfl, rfl⟩
    cases state with
    | tag =>
      refine Returns.read fun tag => ?_
      dsimp only
      split
      · exact Returns.read fun _ => Returns.read fun _ => Returns.pure (hinteger _)
      · split
        · exact Returns.read fun _ => Returns.read fun _ => Returns.pure (hinteger _)
        · refine Returns.read fun encoded => Returns.decode fun result hresult => ?_
          refine Returns.pure ?_
          rw [PlutusData.Cached]
          exact ⟨rfl, rfl, constrFromCbor_cached hcached hresult⟩
    | startArray =>
      refine Returns.read fun encoded => Returns.decode fun items hitems => Returns.pure ?_
      rw [PlutusData.Cached]
      exact ⟨rfl, rfl, plutusListFromCbor_cached hcached hitems⟩
    | startMap =>
      refine Returns.read fun encoded => Returns.decode fun result hresult => Returns.pure ?_
      rw [PlutusData.Cached]
      exact ⟨rfl, rfl, plutusMapFromCbor_cached hcached hresult⟩
    | negativeInteger => exact Returns.read fun _ => Returns.pure (hinteger _)
    | unsignedInteger => exact Returns.read fun _ => Returns.pure (hinteger _)
    | byteString => exact Returns.read fun _ => Returns.pure (hbytes _)
    | startIndefiniteLengthByteString => exact Returns.read fun _ => Returns.pure (hbytes _)
    | _ => exact Returns.throw

theorem toCbor_of_originalBytes (h : data.originalBytes = some cbor) : data.toCbor = .ok cbor := by
  cases data with
  | constr original alternative items =>
    cases h
    rw [PlutusData.toCbor]
  | map original useIndefiniteEncoding entries =>
    cases h
    rw [PlutusData.toCbor]
  | list original items =>
    cases h
    rw [PlutusData.toCbor]
  | integer original value =>
    cases h
    rw [PlutusData.toCbor]
  | bytes original value =>
    cases h
    rw [PlutusData.toCbor]

theorem PlutusData.Cached.toCbor_ok (h : data.Cached) : ∃ cbor, data.toCbor = .ok cbor := by
  have hsome : data.originalBytes.isSome := by
    cases data
    all_goals
      rw [PlutusData.Cached] at h
      first
        | exact h
        | exact h.1
  obtain ⟨cbor, hcbor⟩ := Option.isSome_iff_exists.mp hsome
  exact ⟨cbor, toCbor_of_originalBytes hcbor⟩

mutual

theorem forget_forget : (data : PlutusData) → data.forget.forget = data.forget
  | .constr original alternative data => by
    rw [PlutusData.forget, PlutusData.forget, forgetAll_forgetAll data]
  | .map original useIndefiniteEncoding entries => by
    rw [PlutusData.forget, PlutusData.forget, forgetEntries_forgetEntries entries]
  | .list original items => by
    rw [PlutusData.forget, PlutusData.forget, forgetAll_forgetAll items]
  | .integer original value => by rw [PlutusData.forget, PlutusData.forget]
  | .bytes original value => by rw [PlutusData.forget, PlutusData.forget]

theorem forgetAll_forgetAll : (items : List PlutusData) →
    forgetAll (forgetAll items) = forgetAll items
  | [] => by rw [forgetAll, forgetAll]
  | item :: items => by
    rw [forgetAll, forgetAll, forget_forget item, forgetAll_forgetAll items]

theorem forgetEntries_forgetEntries : (entries : List (PlutusData × PlutusData)) →
    forgetEntries (forgetEntries entries) = forgetEntries entries
  | [] => by rw [forgetEntries, forgetEntries]
  | (key, value) :: entries => by
    rw [forgetEntries, forgetEntries, forget_forget key, forget_forget value,
      forgetEntries_forgetEntries entries]

end

mutual

theorem equals_iff : (data data' : PlutusData) → (data.equals data' = true ↔ data.forget = data'.forget)
  | .constr _ alternative items, .constr _ alternative' items' => by
    have hitems := itemsEqual_iff items items'
    simp only [PlutusData.equals, PlutusData.forget, Bool.and_eq_true, decide_eq_true_eq, hitems,
      PlutusData.constr.injEq, true_and]
  | .map _ useIndefiniteEncoding entries, .map _ useIndefiniteEncoding' entries' => by
    have hentries := entriesEqual_iff entries entries'
    simp only [PlutusData.equals, PlutusData.forget, Bool.and_eq_true, decide_eq_true_eq,
      hentries, PlutusData.map.injEq, true_and]
  | .list _ items, .list _ items' => by
    have hitems := itemsEqual_iff items items'
    simp only [PlutusData.equals, PlutusData.forget, hitems, PlutusData.list.injEq, true_and]
  | .integer _ value, .integer _ value' => by
    simp only [PlutusData.equals, PlutusData.forget, decide_eq_true_eq,
      PlutusData.integer.injEq, true_and]
  | .bytes _ value, .bytes _ value' => by
    simp only [PlutusData.equals, PlutusData.forget, decide_eq_true_eq, PlutusData.bytes.injEq,
      true_and]
  | .constr _ _ _, .map _ _ _ | .constr _ _ _, .list _ _ | .constr _ _ _, .integer _ _
  | .constr _ _ _, .bytes _ _ | .map _ _ _, .constr _ _ _ | .map _ _ _, .list _ _
  | .map _ _ _, .integer _ _ | .map _ _ _, .bytes _ _ | .list _ _, .constr _ _ _
  | .list _ _, .map _ _ _ | .list _ _, .integer _ _ | .list _ _, .bytes _ _
  | .integer _ _, .constr _ _ _ | .integer _ _, .map _ _ _ | .integer _ _, .list _ _
  | .integer _ _, .bytes _ _ | .bytes _ _, .constr _ _ _ | .bytes _ _, .map _ _ _
  | .bytes _ _, .list _ _ | .bytes _ _, .integer _ _ => by
    simp [PlutusData.equals, PlutusData.forget]

theorem itemsEqual_iff : (items items' : List PlutusData) →
    (itemsEqual items items' = true ↔ forgetAll items = forgetAll items')
  | [], [] => by simp [itemsEqual, forgetAll]
  | item :: items, item' :: items' => by
    have hitem := equals_iff item item'
    have hitems := itemsEqual_iff items items'
    simp only [itemsEqual, forgetAll, Bool.and_eq_true, hitem, hitems, List.cons.injEq]
  | [], _ :: _ | _ :: _, [] => by simp [itemsEqual, forgetAll]

theorem entriesEqual_iff : (entries entries' : List (PlutusData × PlutusData)) →
    (entriesEqual entries entries' = true ↔ forgetEntries entries = forgetEntries entries')
  | [], [] => by simp [entriesEqual, forgetEntries]
  | (key, value) :: entries, (key', value') :: entries' => by
    have hkey := equals_iff key key'
    have hvalue := equals_iff value value'
    have hentries := entriesEqual_iff entries entries'
    simp only [entriesEqual, forgetEntries, Bool.and_eq_true, hkey, hvalue, hentries,
      List.cons.injEq, Prod.mk.injEq]
  | [], _ :: _ | _ :: _, [] => by simp [entriesEqual, forgetEntries]

end

mutual

def CoreData.strip : CoreData → CoreData
  | .integer value => .integer value
  | .bytes value => .bytes value
  | .list _ items => .list none (stripAll items)
  | .map _ data => .map none (stripEntries data)
  | .constr _ alternative _ fields => .constr none alternative none (stripAll fields)

def stripAll : List CoreData → List CoreData
  | [] => []
  | item :: items => item.strip :: stripAll items

def stripEntries : List (CoreData × CoreData) → List (CoreData × CoreData)
  | [] => []
  | (key, value) :: entries => (key.strip, value.strip) :: stripEntries entries

end

def valueUnder (seen : List (PlutusData × CoreData)) (key : PlutusData) (value : CoreData) :
    CoreData :=
  match seen.find? (fun entry => entry.1.equals key) with
  | some entry => entry.2
  | none => value

def foundEntries (seen : List (PlutusData × CoreData)) :
    List (PlutusData × CoreData × CoreData) → List (CoreData × CoreData)
  | [] => []
  | (key, coreKey, coreValue) :: entries =>
    let found := valueUnder seen key coreValue
    (coreKey, found) :: foundEntries (seen ++ [(key, found)]) entries

mutual

def PlutusData.core : PlutusData → CoreData
  | .constr _ alternative data => .constr none alternative none (coreAll data)
  | .map _ _ entries =>
    .map none (setEntries sameCore (foundEntries [] (coreEntries entries)) [])
  | .list _ items => .list none (coreAll items)
  | .integer _ value => .integer value
  | .bytes _ value => .bytes value

def coreAll : List PlutusData → List CoreData
  | [] => []
  | item :: items => item.core :: coreAll items

def coreEntries : List (PlutusData × PlutusData) → List (PlutusData × CoreData × CoreData)
  | [] => []
  | (key, value) :: entries => (key, key.core, value.core) :: coreEntries entries

end

theorem sameCore_strip (key key' : CoreData) : sameCore key.strip key'.strip = sameCore key key' := by
  cases key <;> cases key' <;> simp only [CoreData.strip, sameCore]

theorem stripEntries_setEntry (key value : CoreData) (coreMap : List (CoreData × CoreData)) :
    stripEntries (setEntry sameCore key value coreMap) =
      setEntry sameCore key.strip value.strip (stripEntries coreMap) := by
  induction coreMap with
  | nil => rw [setEntry, stripEntries, stripEntries, stripEntries, setEntry]
  | cons entry rest ih =>
    obtain ⟨key', value'⟩ := entry
    rw [setEntry, stripEntries, setEntry, sameCore_strip]
    split
    · rw [stripEntries]
    · rw [stripEntries, ih]

theorem stripEntries_setEntries (entries coreMap : List (CoreData × CoreData)) :
    stripEntries (setEntries sameCore entries coreMap) =
      setEntries sameCore (stripEntries entries) (stripEntries coreMap) := by
  induction entries generalizing coreMap with
  | nil => rw [stripEntries]; rfl
  | cons entry entries ih =>
    obtain ⟨key, value⟩ := entry
    change stripEntries (setEntries sameCore entries (setEntry sameCore key value coreMap)) = _
    rw [ih, stripEntries_setEntry, stripEntries]
    rfl

structure ConvertsEntry (converted : Conversion RangeError PlutusData CoreData)
    (entry : PlutusData × CoreData × CoreData) : Prop where
  key : converted.key = entry.1
  coreKey : ∃ core, converted.coreKey = .ok core ∧ core.strip = entry.2.1
  coreValue : ∃ core, converted.coreValue = .ok core ∧ core.strip = entry.2.2

/-- The entries seen so far, under the values found for them, answer as the entries themselves. -/
def Answers (converted : List (Conversion RangeError PlutusData CoreData))
    (seen : List (PlutusData × CoreData)) : Prop :=
  ∀ key : PlutusData,
    (∃ entry, converted.find? (fun entry => entry.key.equals key) = some entry ∧
      ∃ core found, entry.coreValue = .ok core ∧
        seen.find? (fun entry => entry.1.equals key) = some found ∧ core.strip = found.2) ∨
    converted.find? (fun entry => entry.key.equals key) = none ∧
      seen.find? (fun entry => entry.1.equals key) = none

theorem equals_self (data : PlutusData) : data.equals data = true := by
  rw [equals_iff]

theorem equals_trans {data' data'' : PlutusData} (h : data.equals data' = true)
    (h' : data'.equals data'' = true) : data.equals data'' = true := by
  rw [equals_iff] at h h' ⊢
  exact h.trans h'

variable {converted : Conversion RangeError PlutusData CoreData}
  {all suffix seenConverted : List (Conversion RangeError PlutusData CoreData)}

theorem valueOf_ok {rest : List (Conversion RangeError PlutusData CoreData)}
    {seen : List (PlutusData × CoreData)} {entry : PlutusData × CoreData × CoreData}
    (hanswers : Answers seenConverted seen) (hentry : ConvertsEntry converted entry) :
    ∃ core, valueOf .outOfRange PlutusData.equals converted.key
        (seenConverted ++ converted :: rest) = .ok core ∧
      core.strip = valueUnder seen entry.1 entry.2.2 := by
  rw [valueOf_split (equals_self _), hentry.key, valueUnder]
  rcases hanswers entry.1 with ⟨found, hfound, core, value, hcore, hvalue, hstrip⟩ | ⟨hnone, hnone'⟩
  · rw [hfound, hvalue]
    exact ⟨core, hcore, hstrip⟩
  · rw [hnone, hnone']
    exact hentry.coreValue

theorem Answers.snoc {entry : PlutusData × CoreData × CoreData} (hanswers : Answers seenConverted seen)
    (hentry : ConvertsEntry converted entry) :
    Answers (seenConverted ++ [converted])
      (seen ++ [(entry.1, valueUnder seen entry.1 entry.2.2)]) := by
  intro key
  rw [List.find?_append, List.find?_append]
  rcases hanswers key with ⟨found, hfound, core, value, hcore, hvalue, hstrip⟩ | ⟨hnone, hnone'⟩
  · rw [hfound, hvalue]
    exact Or.inl ⟨found, rfl, core, value, hcore, rfl, hstrip⟩
  · rw [hnone, hnone']
    by_cases hkey : entry.1.equals key = true
    · -- the entries before do not answer for this key, so not for that of the new entry
      have hbefore : seen.find? (fun other => other.1.equals entry.1) = none := by
        rw [List.find?_eq_none] at hnone' ⊢
        intro other hmem hother
        exact hnone' other hmem (equals_trans hother hkey)
      obtain ⟨core, hcore, hstrip⟩ := hentry.coreValue
      refine Or.inl ⟨converted, ?_, core, (entry.1, entry.2.2), hcore, ?_, hstrip⟩
      · simp [hentry.key, hkey]
      · simp [valueUnder, hbefore, hkey]
    · right
      simp [hentry.key, hkey]

theorem exists_finds {entries : List (PlutusData × CoreData × CoreData)}
    {seen : List (PlutusData × CoreData)} (hall : all = seenConverted ++ suffix)
    (hentries : List.Forall₂ ConvertsEntry suffix entries) (hanswers : Answers seenConverted seen) :
    ∃ found, List.Forall₂ (Finds .outOfRange PlutusData.equals all) suffix found ∧
      stripEntries found = foundEntries seen entries := by
  induction hentries generalizing seenConverted seen with
  | nil => exact ⟨[], List.Forall₂.nil, by rw [stripEntries, foundEntries]⟩
  | @cons converted entry suffix entries hentry _ ih =>
    obtain ⟨key, hkey, hstripKey⟩ := hentry.coreKey
    obtain ⟨value, hvalue, hstripValue⟩ := @valueOf_ok _ _ suffix _ _ hanswers hentry
    rw [← hall] at hvalue
    have hall' : all = (seenConverted ++ [converted]) ++ suffix := by
      rw [hall, List.append_assoc, List.singleton_append]
    obtain ⟨found, hfound, hstrip⟩ := ih hall' (hanswers.snoc hentry)
    refine ⟨(key, value) :: found, List.Forall₂.cons ⟨hkey, hvalue⟩ hfound, ?_⟩
    obtain ⟨entryKey, coreKey, coreValue⟩ := entry
    rw [stripEntries, foundEntries, hstrip, hstripKey, hstripValue]

theorem convertMap_ok {entries : List (PlutusData × CoreData × CoreData)}
    (hentries : List.Forall₂ ConvertsEntry all entries) :
    ∃ result, convertMap .outOfRange PlutusData.equals sameCore all = .ok result ∧
      stripEntries result = setEntries sameCore (foundEntries [] entries) [] := by
  obtain ⟨found, hfound, hstrip⟩ :=
    @exists_finds all all [] entries [] rfl hentries fun _ => Or.inr ⟨rfl, rfl⟩
  refine ⟨_, convertMap_eq_ok_iff.mpr ⟨found, hfound, rfl⟩, ?_⟩
  rw [stripEntries_setEntries, hstrip, stripEntries]

mutual

theorem toCore_ok : (data : PlutusData) → data.Cached →
    ∃ core, data.toCore = .ok core ∧ core.strip = data.core
  | .constr original alternative data, h => by
    obtain ⟨cbor, hcbor⟩ := h.toCbor_ok
    rw [PlutusData.Cached] at h
    obtain ⟨fields, hfields, hstrip⟩ := itemsToCore_ok data h.2
    obtain ⟨elements, helements⟩ := elementsToCbor_ok data h.2
    refine ⟨.constr (some cbor) alternative (some (listBytes elements)) fields, ?_, ?_⟩
    · rw [PlutusData.toCore, hcbor, hfields, helements]
      change (encodeWith (writePlutusList elements) >>= _) = _
      rw [encodeWith_ok (writes_plutusList elements)]
      rfl
    · rw [CoreData.strip, PlutusData.core, hstrip]
  | .map original useIndefiniteEncoding entries, h => by
    obtain ⟨cbor, hcbor⟩ := h.toCbor_ok
    rw [PlutusData.Cached] at h
    obtain ⟨coreMap, hmap, hstrip⟩ := convertMap_ok (convertEntries_ok entries h.2)
    refine ⟨.map (some cbor) coreMap, ?_, ?_⟩
    · rw [PlutusData.toCore, hmap, hcbor]
      rfl
    · rw [CoreData.strip, PlutusData.core, hstrip]
  | .list original items, h => by
    rw [PlutusData.Cached] at h
    obtain ⟨coreItems, hitems, hstrip⟩ := itemsToCore_ok items h.2
    obtain ⟨elements, helements⟩ := elementsToCbor_ok items h.2
    refine ⟨.list (some (listBytes elements)) coreItems, ?_, ?_⟩
    · rw [PlutusData.toCore, hitems, helements]
      change (encodeWith (writePlutusList elements) >>= _) = _
      rw [encodeWith_ok (writes_plutusList elements)]
      rfl
    · rw [CoreData.strip, PlutusData.core, hstrip]
  | .integer original value, _ => ⟨.integer value, by rw [PlutusData.toCore], by
      rw [CoreData.strip, PlutusData.core]⟩
  | .bytes original value, _ => ⟨.bytes value, by rw [PlutusData.toCore], by
      rw [CoreData.strip, PlutusData.core]⟩

theorem itemsToCore_ok : (items : List PlutusData) → AllCached items →
    ∃ core, itemsToCore items = .ok core ∧ stripAll core = coreAll items
  | [], _ => ⟨[], by rw [itemsToCore], by rw [stripAll, coreAll]⟩
  | item :: items, h => by
    rw [AllCached] at h
    obtain ⟨first, hfirst, hstrip⟩ := toCore_ok item h.1
    obtain ⟨rest, hrest, hstripRest⟩ := itemsToCore_ok items h.2
    refine ⟨first :: rest, ?_, ?_⟩
    · rw [itemsToCore, hfirst, hrest]
      rfl
    · rw [stripAll, coreAll, hstrip, hstripRest]

theorem elementsToCbor_ok : (items : List PlutusData) → AllCached items →
    ∃ elements, elementsToCbor items = .ok elements
  | [], _ => ⟨[], by rw [elementsToCbor]⟩
  | item :: items, h => by
    rw [AllCached] at h
    obtain ⟨first, hfirst⟩ := h.1.toCbor_ok
    obtain ⟨rest, hrest⟩ := elementsToCbor_ok items h.2
    refine ⟨first :: rest, ?_⟩
    rw [elementsToCbor, hfirst, hrest]
    rfl

theorem convertEntries_ok : (entries : List (PlutusData × PlutusData)) → EntriesCached entries →
    List.Forall₂ ConvertsEntry (convertEntries entries) (coreEntries entries)
  | [], _ => by
    rw [convertEntries, coreEntries]
    exact List.Forall₂.nil
  | (key, value) :: entries, h => by
    rw [EntriesCached] at h
    rw [convertEntries, coreEntries]
    exact List.Forall₂.cons ⟨rfl, toCore_ok key h.1, toCore_ok value h.2.1⟩
      (convertEntries_ok entries h.2.2)

end

def forgetKey (entry : PlutusData × CoreData × CoreData) : PlutusData × CoreData × CoreData :=
  (entry.1.forget, entry.2)

theorem forget_forget_equals (data data' : PlutusData) :
    data.forget.equals data'.forget = data.equals data' := by
  rw [Bool.eq_iff_iff, equals_iff, equals_iff, forget_forget, forget_forget]

theorem foundEntries_forget (entries : List (PlutusData × CoreData × CoreData))
    (seen : List (PlutusData × CoreData)) :
    foundEntries (seen.map fun entry => (entry.1.forget, entry.2)) (entries.map forgetKey) =
      foundEntries seen entries := by
  induction entries generalizing seen with
  | nil => rfl
  | cons entry entries ih =>
    obtain ⟨key, coreKey, coreValue⟩ := entry
    have hvalue : valueUnder (seen.map fun entry => (entry.1.forget, entry.2)) key.forget
        coreValue = valueUnder seen key coreValue := by
      unfold valueUnder
      rw [List.find?_map]
      simp only [Function.comp_def, forget_forget_equals]
      cases seen.find? (fun entry => entry.1.equals key) <;> rfl
    have hrest := ih (seen ++ [(key, valueUnder seen key coreValue)])
    rw [List.map_append] at hrest
    simp only [List.map_cons, forgetKey, foundEntries, hvalue]
    exact congrArg _ hrest

mutual

theorem core_forget : (data : PlutusData) → data.forget.core = data.core
  | .constr original alternative data => by
    rw [PlutusData.forget, PlutusData.core, PlutusData.core, coreAll_forget data]
  | .map original useIndefiniteEncoding entries => by
    rw [PlutusData.forget, PlutusData.core, PlutusData.core, coreEntries_forget entries,
      ← foundEntries_forget (coreEntries entries) [], List.map_nil]
  | .list original items => by
    rw [PlutusData.forget, PlutusData.core, PlutusData.core, coreAll_forget items]
  | .integer original value => by rw [PlutusData.forget, PlutusData.core, PlutusData.core]
  | .bytes original value => by rw [PlutusData.forget, PlutusData.core, PlutusData.core]

theorem coreAll_forget : (items : List PlutusData) → coreAll (forgetAll items) = coreAll items
  | [] => by rw [forgetAll]
  | item :: items => by
    rw [forgetAll, coreAll, coreAll, core_forget item, coreAll_forget items]

theorem coreEntries_forget : (entries : List (PlutusData × PlutusData)) →
    coreEntries (forgetEntries entries) = (coreEntries entries).map forgetKey
  | [] => by rw [forgetEntries, coreEntries, List.map_nil]
  | (key, value) :: entries => by
    rw [forgetEntries, coreEntries, coreEntries, List.map_cons, core_forget key,
      core_forget value, coreEntries_forget entries, forgetKey]

end

/-- The keys that `Map.set` finds again. -/
def integerKeys : List (CoreData × CoreData) → List ℤ
  | [] => []
  | (.integer number, _) :: entries => number :: integerKeys entries
  | _ :: entries => integerKeys entries

theorem integerKeys_strip (entries : List (CoreData × CoreData)) :
    integerKeys (stripEntries entries) = integerKeys entries := by
  induction entries with
  | nil => rfl
  | cons entry entries ih =>
    obtain ⟨key, value⟩ := entry
    cases key <;> simp [stripEntries, CoreData.strip, integerKeys, ih]

def coreInteger : CoreData → Option ℤ
  | .integer number => some number
  | _ => none

theorem sameCore_iff (key key' : CoreData) :
    sameCore key' key = true ↔ ∃ number, coreInteger key = some number ∧
      coreInteger key' = some number := by
  cases key <;> cases key' <;> simp [sameCore, coreInteger]

theorem distinctKeys_iff_integerKeys (entries : List (CoreData × CoreData)) :
    DistinctKeys sameCore entries ↔ (integerKeys entries).Nodup := by
  have hkeys : integerKeys entries = entries.filterMap fun entry => coreInteger entry.1 := by
    induction entries with
    | nil => rfl
    | cons entry entries ih =>
      obtain ⟨key, value⟩ := entry
      cases key <;> simp [integerKeys, coreInteger, ih]
  rw [distinctKeys_iff_nodup sameCore_iff, hkeys]

/-- The bytes are one data item that decodes to the datum. -/
def CacheOf (cbor : List UInt8) (datum : CoreData) : Prop :=
  DataItem cbor ∧ ∃ data core, PlutusData.fromCbor cbor = .ok data ∧ data.toCore = .ok core ∧
    core.strip = datum.strip

mutual

/-- Cached bytes are those of the datum they are attached to. Elsewhere
constructors are words, maps have a size that is a number and, as in any
JavaScript map, every integer is the key of one entry. -/
def CoreData.WellFormed : CoreData → Prop
  | .integer _ => True
  | .bytes _ => True
  | .list cbor items =>
    match truthy cbor with
    | some bytes => CacheOf bytes (.list cbor items)
    | none => AllWellFormed items
  | .map cbor data =>
    match truthy cbor with
    | some bytes => CacheOf bytes (.map cbor data)
    | none => data.length < 2 ^ 53 ∧ (integerKeys data).Nodup ∧ EntriesWellFormed data
  | .constr cbor alternative fieldsCbor fields =>
    match truthy cbor with
    | some bytes => CacheOf bytes (.constr cbor alternative fieldsCbor fields)
    | none => 0 ≤ alternative ∧ alternative < 2 ^ 64 ∧ AllWellFormed fields

def AllWellFormed : List CoreData → Prop
  | [] => True
  | item :: items => item.WellFormed ∧ AllWellFormed items

def EntriesWellFormed : List (CoreData × CoreData) → Prop
  | [] => True
  | (key, value) :: entries => key.WellFormed ∧ value.WellFormed ∧ EntriesWellFormed entries

end

def sameKey (key key' : CoreData) : Bool :=
  match PlutusData.fromCore key, PlutusData.fromCore key' with
  | .ok data, .ok data' => data.reread.equals data'.reread
  | _, _ => false

mutual

/-- What is encoded anew has no integer below the negative words, and in its
maps every key after an equal one has the value of the first of them. -/
def CoreData.Kept : CoreData → Prop
  | .integer value => -(2 ^ 64) ≤ value
  | .bytes _ => True
  | .list cbor items => (truthy cbor).isSome ∨ AllKept items
  | .map cbor data => (truthy cbor).isSome ∨ EntriesKept [] data
  | .constr cbor _ _ fields => (truthy cbor).isSome ∨ AllKept fields

def AllKept : List CoreData → Prop
  | [] => True
  | item :: items => item.Kept ∧ AllKept items

def EntriesKept (seen : List (CoreData × CoreData)) : List (CoreData × CoreData) → Prop
  | [] => True
  | (key, value) :: entries =>
    key.Kept ∧
    (match seen.find? (fun entry => sameKey entry.1 key) with
      | some first => value.strip = first.2.strip
      | none => value.Kept) ∧
    EntriesKept (seen ++ [(key, value)]) entries

end

/-- The object that a datum is converted to, and what becomes of it. -/
structure Converts (datum : CoreData) (data : PlutusData) : Prop where
  converted : PlutusData.fromCore datum = .ok data
  sound : data.Sound
  kept_iff : data.reread.core = datum.strip ↔ datum.Kept

theorem sound_of_decodes (h : DecodesPart PlutusData.fromCbor cbor data) :
    data.Sound ∧ data.reread = data.forget := by
  have horiginal := (cached_of_fromCborWithin h.decoded).1
  cases data
  all_goals
    cases horiginal
    rw [PlutusData.Sound, PlutusData.reread, PlutusData.forget]
    exact ⟨h, rfl⟩

variable {datum : CoreData}

theorem converts_cached (hfrom : PlutusData.fromCore datum = PlutusData.fromCbor cbor)
    (hcache : CacheOf cbor datum) (hkept : datum.Kept) : ∃ data, Converts datum data := by
  obtain ⟨hitem, data, core, hdata, hcore, hstrip⟩ := hcache
  obtain ⟨hsound, hreread⟩ := sound_of_decodes ⟨hitem, hdata⟩
  obtain ⟨core', hcore', hstrip'⟩ := toCore_ok data (cached_of_fromCborWithin hdata).2
  rw [hcore] at hcore'
  cases hcore'
  refine ⟨data, hfrom.trans hdata, hsound, iff_of_true ?_ hkept⟩
  rw [hreread, core_forget, ← hstrip', hstrip]

def SeenAs (seen : PlutusData × CoreData) (entry : CoreData × CoreData) : Prop :=
  ∃ data, PlutusData.fromCore entry.1 = .ok data ∧ seen.1 = data.reread ∧ seen.2 = entry.2.strip

theorem valueUnder_iff (hseen : List.Forall₂ SeenAs seen entries) {key value : CoreData}
    {keyData valueData : PlutusData} (hkey : Converts key keyData)
    (hvalue : Converts value valueData) :
    valueUnder seen keyData.reread valueData.reread.core = value.strip ↔
      match entries.find? (fun entry => sameKey entry.1 key) with
      | some first => value.strip = first.2.strip
      | none => value.Kept := by
  induction hseen with
  | nil => exact hvalue.kept_iff
  | @cons first entry seen entries hfirst _ ih =>
    obtain ⟨data, hdata, hreread, hfound⟩ := hfirst
    have hsame : sameKey entry.1 key = first.1.equals keyData.reread := by
      rw [sameKey, hdata, hkey.converted, hreread]
    unfold valueUnder at ih ⊢
    rw [List.find?_cons, List.find?_cons, hsame]
    cases hequals : first.1.equals keyData.reread with
    | true =>
      dsimp only
      rw [hfound]
      exact eq_comm
    | false => exact ih

/-- The entries come back exactly if they are kept, by induction on the entries
with those before them at hand. -/
theorem foundEntries_iff {data : List (PlutusData × PlutusData)}
    {before : List (CoreData × CoreData)}
    (hentries : List.Forall₂ (fun entry data => Converts entry.1 data.1 ∧ Converts entry.2 data.2)
      entries data) (hseen : List.Forall₂ SeenAs seen before) :
    foundEntries seen (coreEntries (rereadEntries data)) = stripEntries entries ↔
      EntriesKept before entries := by
  induction hentries generalizing before seen with
  | nil => simp [rereadEntries, coreEntries, foundEntries, stripEntries, EntriesKept]
  | @cons entry object entries data hentry _ ih =>
    obtain ⟨key, value⟩ := entry
    obtain ⟨keyData, valueData⟩ := object
    obtain ⟨hkey, hvalue⟩ := hentry
    rw [rereadEntries, coreEntries, foundEntries, stripEntries, EntriesKept, List.cons.injEq,
      Prod.mk.injEq, hkey.kept_iff, valueUnder_iff hseen hkey hvalue, and_assoc]
    refine and_congr_right fun _ => and_congr_right fun hfound => ?_
    rw [← valueUnder_iff hseen hkey hvalue] at hfound
    apply ih
    exact List.rel_append hseen (List.Forall₂.cons ⟨keyData, hkey.converted, rfl, hfound⟩
      List.Forall₂.nil)

theorem stripEntries_length (entries : List (CoreData × CoreData)) :
    (stripEntries entries).length = entries.length := by
  induction entries with
  | nil => rfl
  | cons entry entries ih =>
    rw [stripEntries, List.length_cons, List.length_cons, ih]

theorem foundEntries_length (entries : List (PlutusData × CoreData × CoreData))
    (seen : List (PlutusData × CoreData)) : (foundEntries seen entries).length = entries.length := by
  induction entries generalizing seen with
  | nil => rfl
  | cons entry entries ih =>
    rw [foundEntries, List.length_cons, List.length_cons, ih]

theorem coreEntries_length (data : List (PlutusData × PlutusData)) :
    (coreEntries (rereadEntries data)).length = data.length := by
  induction data with
  | nil => rfl
  | cons object data ih =>
    rw [rereadEntries, coreEntries, List.length_cons, List.length_cons, ih]

/-- The map that is built from the entries found is the map of old exactly if every entry is
kept: an entry that replaced another would leave it smaller. -/
theorem setEntries_found_iff {data : List (PlutusData × PlutusData)}
    (hnodup : (integerKeys entries).Nodup)
    (hentries : List.Forall₂ (fun entry data => Converts entry.1 data.1 ∧ Converts entry.2 data.2)
      entries data) :
    setEntries sameCore (foundEntries [] (coreEntries (rereadEntries data))) [] =
      stripEntries entries ↔ EntriesKept [] entries := by
  have hdistinct : DistinctKeys sameCore (stripEntries entries) := by
    rwa [distinctKeys_iff_integerKeys, integerKeys_strip]
  rw [← foundEntries_iff hentries List.Forall₂.nil, setEntries_eq_iff, and_iff_left hdistinct]
  rw [foundEntries_length, coreEntries_length, stripEntries_length, hentries.length_eq]

mutual

/-- Every well-formed datum is converted, by induction on the datum. -/
theorem converts : (datum : CoreData) → datum.WellFormed → ∃ data, Converts datum data
  | .integer value, _ => by
    refine ⟨.integer none value, by rw [PlutusData.fromCore], by rw [PlutusData.Sound]; trivial, ?_⟩
    rw [PlutusData.reread, PlutusData.core, CoreData.strip, CoreData.Kept, CoreData.integer.injEq,
      rereadInteger]
    split <;> omega
  | .bytes value, _ => by
    refine ⟨.bytes none value, by rw [PlutusData.fromCore], by rw [PlutusData.Sound]; trivial, ?_⟩
    rw [PlutusData.reread, PlutusData.core, CoreData.strip, CoreData.Kept]
    exact iff_of_true rfl trivial
  | .list cbor items, h => by
    rw [CoreData.WellFormed] at h
    cases htruthy : truthy cbor with
    | some bytes =>
      rw [htruthy] at h
      apply converts_cached _ h
      · rw [CoreData.Kept, htruthy]
        exact Or.inl rfl
      · rw [PlutusData.fromCore, htruthy]
    | none =>
      rw [htruthy] at h
      obtain ⟨data, hdata, hsound, hkept⟩ := allConvert items h
      refine ⟨.list none data, ?_, by rwa [PlutusData.Sound], ?_⟩
      · rw [PlutusData.fromCore, htruthy, hdata]
        rfl
      · rw [PlutusData.reread, PlutusData.core, CoreData.strip, CoreData.Kept, htruthy,
          CoreData.list.injEq, hkept]
        simp
  | .map cbor entries, h => by
    rw [CoreData.WellFormed] at h
    cases htruthy : truthy cbor with
    | some bytes =>
      rw [htruthy] at h
      apply converts_cached _ h
      · rw [CoreData.Kept, htruthy]
        exact Or.inl rfl
      · rw [PlutusData.fromCore, htruthy]
    | none =>
      rw [htruthy] at h
      obtain ⟨data, hdata, hsound, hentries⟩ := entriesConvert entries h.2.2
      refine ⟨.map none false data, ?_, ?_, ?_⟩
      · rw [PlutusData.fromCore, htruthy, hdata]
        rfl
      · rw [PlutusData.Sound, ← hentries.length_eq]
        exact ⟨h.1, hsound⟩
      · rw [PlutusData.reread, PlutusData.core, CoreData.strip, CoreData.Kept, htruthy,
          CoreData.map.injEq, setEntries_found_iff h.2.1 hentries]
        simp
  | .constr cbor alternative fieldsCbor fields, h => by
    rw [CoreData.WellFormed] at h
    cases htruthy : truthy cbor with
    | some bytes =>
      rw [htruthy] at h
      apply converts_cached _ h
      · rw [CoreData.Kept, htruthy]
        exact Or.inl rfl
      · rw [PlutusData.fromCore, htruthy]
    | none =>
      rw [htruthy] at h
      obtain ⟨data, hdata, hsound, hkept⟩ := allConvert fields h.2.2
      refine ⟨.constr none alternative data, ?_, ?_, ?_⟩
      · rw [PlutusData.fromCore, htruthy, hdata]
        rfl
      · rw [PlutusData.Sound]
        exact ⟨h.1, h.2.1, hsound⟩
      · rw [PlutusData.reread, PlutusData.core, CoreData.strip, CoreData.Kept, htruthy,
          CoreData.constr.injEq, hkept]
        simp

theorem allConvert : (items : List CoreData) → AllWellFormed items →
    ∃ data, itemsFromCore items = .ok data ∧ AllSound data ∧
      (coreAll (rereadAll data) = stripAll items ↔ AllKept items)
  | [], _ => by
    refine ⟨[], by rw [itemsFromCore], by rw [AllSound]; trivial, ?_⟩
    rw [rereadAll, coreAll, stripAll, AllKept]
    exact iff_of_true rfl trivial
  | item :: items, h => by
    rw [AllWellFormed] at h
    obtain ⟨first, hfirst⟩ := converts item h.1
    obtain ⟨rest, hrest, hsound, hkept⟩ := allConvert items h.2
    refine ⟨first :: rest, ?_, ?_, ?_⟩
    · rw [itemsFromCore, hfirst.converted, hrest]
      rfl
    · rw [AllSound]
      exact ⟨hfirst.sound, hsound⟩
    · rw [rereadAll, coreAll, stripAll, AllKept, List.cons.injEq, hfirst.kept_iff, hkept]

theorem entriesConvert : (entries : List (CoreData × CoreData)) → EntriesWellFormed entries →
    ∃ data, entriesFromCore entries = .ok data ∧ EntriesSound data ∧
      List.Forall₂ (fun entry data => Converts entry.1 data.1 ∧ Converts entry.2 data.2)
        entries data
  | [], _ => by
    refine ⟨[], by rw [entriesFromCore], by rw [EntriesSound]; trivial, List.Forall₂.nil⟩
  | (key, value) :: entries, h => by
    rw [EntriesWellFormed] at h
    obtain ⟨first, hfirst⟩ := converts key h.1
    obtain ⟨second, hsecond⟩ := converts value h.2.1
    obtain ⟨rest, hrest, hsound, hentries⟩ := entriesConvert entries h.2.2
    refine ⟨(first, second) :: rest, ?_, ?_, List.Forall₂.cons ⟨hfirst, hsecond⟩ hentries⟩
    · rw [entriesFromCore, hfirst.converted, hsecond.converted, hrest]
      rfl
    · rw [EntriesSound]
      exact ⟨hfirst.sound, hsecond.sound, hsound⟩

end

/-- A well-formed datum is encoded as one data item. If that fits in a typed
array it is decoded again, and to the datum exactly if the datum is kept. -/
theorem datum_round_trip (h : datum.WellFormed) :
    ∃ data cbor, PlutusData.fromCore datum = .ok data ∧ data.toCbor = .ok cbor ∧ DataItem cbor ∧
      (cbor.length < 2 ^ 53 → ∃ decoded core, PlutusData.fromCbor cbor = .ok decoded ∧
        decoded.toCore = .ok core ∧ (core.strip = datum.strip ↔ datum.Kept)) := by
  obtain ⟨data, hdata⟩ := converts datum h
  obtain ⟨cbor, hcbor, hitem, hdecoded⟩ := survives_tree data hdata.sound
  refine ⟨data, cbor, hdata.converted, hcbor, hitem, fun hlength => ?_⟩
  obtain ⟨decoded, hread, hsame⟩ := hdecoded (cbor.length + 1) (Nat.lt_succ_self _) hlength
  obtain ⟨core, hcore, hstrip⟩ := toCore_ok decoded (cached_of_fromCborWithin hread).2
  refine ⟨decoded, core, hread, hcore, ?_⟩
  rw [hstrip, ← core_forget, hsame]
  exact hdata.kept_iff

end CardanoSdk.Plutus
