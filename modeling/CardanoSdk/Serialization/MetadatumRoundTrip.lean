import CardanoSdk.Serialization.Integers
import CardanoSdk.Serialization.MetadatumEntries

/-!
Trees of core metadata come back from their encoding, and so do the metadata under their
labels.
-/

namespace CardanoSdk.Cardano

open Lib Cbor Plutus

mutual

/-- Integers are not below the negative words, texts and bytes are not too long
and the keys of a map are different. The bytes of an integer fit in a typed
array, and the lengths are those of arrays. -/
def Metadatum.Valid : Metadatum → Prop
  | .integer value => -(2 ^ 64) ≤ value ∧ (bigintToBuffer value).length < 2 ^ 53
  | .text value => (utf8Encode value).length ≤ 64
  | .bytes value => value.length ≤ 64
  | .list items => items.length < 2 ^ 32 ∧ AllMetadataValid items
  | .map entries =>
    entries.length < 2 ^ 32 ∧ (entries.map Prod.fst).Nodup ∧ AllMetadatumEntriesValid entries

def AllMetadataValid : List Metadatum → Prop
  | [] => True
  | item :: items => item.Valid ∧ AllMetadataValid items

def AllMetadatumEntriesValid : List (Metadatum × Metadatum) → Prop
  | [] => True
  | (key, value) :: entries => key.Valid ∧ value.Valid ∧ AllMetadatumEntriesValid entries

end

structure ValidTxMetadata (blob : TxMetadata) : Prop where
  labels : (blob.map Prod.fst).Nodup
  count : blob.length < 2 ^ 32
  words : ∀ entry ∈ blob, 0 ≤ entry.1 ∧ entry.1 < 2 ^ 64
  valid : ∀ entry ∈ blob, entry.2.Valid

end CardanoSdk.Cardano

namespace CardanoSdk.Serialization

open Lib Cbor Plutus Cardano

namespace TransactionMetadatum

mutual

theorem meaning_eq_of_equals : (data data' : TransactionMetadatum) → data.equals data' = true →
    data.meaning = data'.meaning
  | .new _, data', h => by cases data' <;> simp [equals] at h
  | .bytes _ value, data', h => by
    cases data' <;> simp only [equals, Bool.false_eq_true, decide_eq_true_eq] at h
    rw [meaning, meaning, h]
  | .text _ value, data', h => by
    cases data' <;> simp only [equals, Bool.false_eq_true, decide_eq_true_eq] at h
    rw [meaning, meaning, h]
  | .integer _ value, data', h => by
    cases data' <;> simp only [equals, Bool.false_eq_true, decide_eq_true_eq] at h
    rw [meaning, meaning, h]
  | .list _ _ items, data', h => by
    cases data' <;> simp only [equals, Bool.false_eq_true] at h
    rw [meaning, meaning, meaningAll_eq_of_equals items _ h]
  | .map _ _ entries, data', h => by
    cases data' <;> simp only [equals, Bool.false_eq_true, Bool.and_eq_true] at h
    rw [meaning, meaning, meaningEntries_eq_of_equals entries _ h.2]

theorem meaningAll_eq_of_equals : (items items' : List TransactionMetadatum) →
    metadataEqual items items' = true → meaningAll items = meaningAll items'
  | [], items', h => by
    cases items' <;> simp only [metadataEqual, Bool.false_eq_true] at h
    rfl
  | item :: items, items', h => by
    cases items' <;> simp only [metadataEqual, Bool.false_eq_true, Bool.and_eq_true] at h
    rw [meaningAll, meaningAll, meaning_eq_of_equals item _ h.1,
      meaningAll_eq_of_equals items _ h.2]

theorem meaningEntries_eq_of_equals :
    (entries entries' : List (TransactionMetadatum × TransactionMetadatum)) →
    metadatumEntriesEqual entries entries' = true → meaningEntries entries = meaningEntries entries'
  | [], entries', h => by
    cases entries' <;> simp only [metadatumEntriesEqual, Bool.false_eq_true] at h
    rfl
  | (key, value) :: entries, entries', h => by
    cases entries' <;>
      simp only [metadatumEntriesEqual, Bool.false_eq_true, Bool.and_eq_true] at h
    rw [meaningEntries, meaningEntries, meaning_eq_of_equals key _ h.1.1,
      meaning_eq_of_equals value _ h.1.2, meaningEntries_eq_of_equals entries _ h.2]

end

theorem corePrimitive_inj {key key' : Metadatum} {value : ℤ ⊕ String}
    (h : corePrimitive key = some value) (h' : corePrimitive key' = some value) : key = key' := by
  cases key <;> simp only [corePrimitive, Option.some.injEq, reduceCtorEq] at h
  all_goals
    subst h
    cases key' <;> simp_all [corePrimitive]

theorem distinctPrimitiveKeys_of_meaning
    {entries : List (TransactionMetadatum × TransactionMetadatum)}
    {own : List (Metadatum × Metadatum)} (h : meaningEntries entries = some own)
    (hkeys : (own.map Prod.fst).Nodup) : DistinctPrimitiveKeys entries := by
  unfold DistinctPrimitiveKeys
  have hnodup := hkeys.filterMap fun key key' value hvalue hvalue' =>
    corePrimitive_inj hvalue hvalue'
  rw [List.filterMap_map] at hnodup
  rw [← (keys_meaningEntries h).2]
  exact hnodup

mutual

theorem unmixed_of_meaning : (data : TransactionMetadatum) → {core : Metadatum} →
    data.meaning = some core → core.Valid → data.Unmixed
  | .new _, _, h, _ => by cases h
  | .bytes _ value, _, _, _ => by
    rw [Unmixed]
    trivial
  | .text _ value, _, _, _ => by
    rw [Unmixed]
    trivial
  | .integer _ value, _, _, _ => by
    rw [Unmixed]
    trivial
  | .list _ _ items, _, h, hvalid => by
    rw [meaning] at h
    obtain ⟨cores, hcores, hpure⟩ := Option.bind_eq_some_iff.mp h
    cases hpure
    rw [Metadatum.Valid] at hvalid
    rw [Unmixed]
    exact allUnmixed_of_meaning items hcores hvalid.2
  | .map _ _ entries, _, h, hvalid => by
    rw [meaning] at h
    obtain ⟨own, hown, hpure⟩ := Option.bind_eq_some_iff.mp h
    cases hpure
    rw [Metadatum.Valid] at hvalid
    rw [Unmixed]
    exact ⟨distinctPrimitiveKeys_of_meaning hown hvalid.2.1,
      entriesUnmixed_of_meaning entries [] hown hvalid.2.2 hvalid.2.1 (by simp)⟩

theorem allUnmixed_of_meaning : (items : List TransactionMetadatum) → {cores : List Metadatum} →
    meaningAll items = some cores → AllMetadataValid cores → AllUnmixed items
  | [], _, _, _ => by
    rw [AllUnmixed]
    trivial
  | item :: items, _, h, hvalid => by
    rw [meaningAll] at h
    obtain ⟨first, hfirst, h⟩ := Option.bind_eq_some_iff.mp h
    obtain ⟨rest, hrest, hpure⟩ := Option.bind_eq_some_iff.mp h
    cases hpure
    rw [AllMetadataValid] at hvalid
    rw [AllUnmixed]
    exact ⟨unmixed_of_meaning item hfirst hvalid.1, allUnmixed_of_meaning items hrest hvalid.2⟩

theorem entriesUnmixed_of_meaning :
    (entries seen : List (TransactionMetadatum × TransactionMetadatum)) →
    {own : List (Metadatum × Metadatum)} → meaningEntries entries = some own →
    AllMetadatumEntriesValid own → (own.map Prod.fst).Nodup →
    (∀ entry ∈ seen, ∀ key ∈ own.map Prod.fst, entry.1.meaning ≠ some key) →
    EntriesUnmixed seen entries
  | [], _, _, _, _, _, _ => by
    rw [EntriesUnmixed]
    trivial
  | (key, value) :: entries, seen, _, h, hvalid, hkeys, hseen => by
    obtain ⟨first, second, rest, hfirst, hsecond, hrest, rfl⟩ := meaningEntries_cons.mp h
    rw [AllMetadatumEntriesValid] at hvalid
    rw [List.map_cons, List.nodup_cons] at hkeys
    have hnew : seen.find? (fun entry => entry.1.equals key) = none := by
      rw [List.find?_eq_none]
      intro entry hentry hequals
      have hsame := (meaning_eq_of_equals _ _ hequals).trans hfirst
      exact hseen entry hentry first (by simp) hsame
    rw [EntriesUnmixed, hnew]
    refine ⟨unmixed_of_meaning key hfirst hvalid.1, unmixed_of_meaning value hsecond hvalid.2.1,
      entriesUnmixed_of_meaning entries _ hrest hvalid.2.2 hkeys.2 ?_⟩
    intro entry hentry other hother hmeaning
    rcases List.mem_append.mp hentry with hearlier | hlast
    · exact hseen entry hearlier other (List.mem_cons_of_mem _ hother) hmeaning
    · cases List.mem_singleton.mp hlast
      rw [hfirst] at hmeaning
      cases hmeaning
      exact hkeys.1 hother

end

theorem toCore_of_meaning {data : TransactionMetadatum} {core : Metadatum}
    (h : data.meaning = some core) (hvalid : core.Valid) : data.toCore = .ok core := by
  obtain ⟨core', hcore, hmeaning⟩ := (keepsEntries_iff data).mpr (unmixed_of_meaning data h hvalid)
  rw [h] at hmeaning
  cases hmeaning
  exact hcore

end TransactionMetadatum

section Reading

variable {fuel : ℕ} {bytes : List UInt8} {declared : Option ℕ}

theorem metadatumWithin_list {elements : List (List UInt8)} {items : List TransactionMetadatum}
    (h : List.Forall₂ (DecodesPart (metadatumWithin fuel)) elements items)
    (hframed : Framed 4 elements.length elements.flatten declared bytes)
    (hlength : bytes.length < 2 ^ 53) :
    metadatumWithin (fuel + 1) bytes = .ok (.list (some bytes) declared.isNone items) := by
  have hitems := DecodesPart.dataItems h
  have hcount := length_le_flatten hitems
  have hcontent := hframed.content_lt
  have hlist : metadatumListFromCbor (metadatumWithin fuel) bytes = .ok (declared.isNone, items) := by
    have hread := @readsItem_parts _ _ _ _ _ _ (bytes.length + 1) h hframed (by omega)
    exact ReadsItem.decodeWith (hread.map fun _ => rfl) hlength
  have hitem := hframed.array (items_of_wellFormed hitems)
  apply decodeWith_peek (begins_framed (Or.inl rfl) hframed) hlength
  intro reader hbytes haccepts
  exact Succeeds.bind (readsItem_part hitem hlist reader [] hbytes haccepts) Succeeds.pure

theorem metadatumWithin_map {encoded : List (List UInt8 × List UInt8)}
    {entries : List (TransactionMetadatum × TransactionMetadatum)}
    (h : List.Forall₂ (DecodesParts (metadatumWithin fuel)) encoded entries)
    (hframed : Framed 5 encoded.length (entriesBytes encoded) declared bytes)
    (hlength : bytes.length < 2 ^ 53) :
    metadatumWithin (fuel + 1) bytes = .ok (.map (some bytes) declared.isNone entries) := by
  have hcontent := hframed.content_lt
  have hmap : metadatumMapFromCbor (metadatumWithin fuel) bytes = .ok (declared.isNone, entries) := by
    have hread := @readsItem_entries _ _ _ _ _ _ (bytes.length + 1) h hframed (by omega)
    exact ReadsItem.decodeWith (hread.map fun _ => rfl) hlength
  have hitem := hframed.map (items_entriesBytes (DecodesParts.dataItems h))
  apply decodeWith_peek (begins_framed (Or.inr rfl) hframed) hlength
  intro reader hbytes haccepts
  exact Succeeds.bind (readsItem_part hitem hmap reader [] hbytes haccepts) Succeeds.pure

theorem metadatumWithin_bytes {value : List UInt8} (hlength : (encodeChunk value).length < 2 ^ 53) :
    metadatumWithin (fuel + 1) (encodeChunk value) = .ok (.bytes (some (encodeChunk value)) value) := by
  have hshort : value.length < 2 ^ 64 := by
    rw [encodeChunk, List.length_append] at hlength
    omega
  apply decodeWith_peek (begins_encodeHead (by decide) hshort value) hlength
  intro reader hbytes haccepts
  exact Succeeds.bind (readsItem_byteString hshort reader [] hbytes haccepts) Succeeds.pure

def encodeText (value : String) : List UInt8 :=
  encodeHead .utf8String (utf8Encode value).length ++ utf8Encode value

theorem metadatumWithin_text {value : String} (hlength : (encodeText value).length < 2 ^ 53) :
    metadatumWithin (fuel + 1) (encodeText value) = .ok (.text (some (encodeText value)) value) := by
  have hshort : (utf8Encode value).length < 2 ^ 64 := by
    rw [encodeText, List.length_append] at hlength
    omega
  apply decodeWith_peek (begins_encodeHead (by decide) hshort _) hlength
  intro reader hbytes haccepts
  exact Succeeds.bind (readsItem_text hshort reader [] hbytes haccepts) Succeeds.pure

end Reading

/-- A core metadatum, the object that is made of it, its encoding and what is
read from that. Every level of nesting takes a byte of the fuel. -/
structure Survives (core : Metadatum) (object : TransactionMetadatum) (bytes : List UInt8) : Prop where
  made : TransactionMetadatum.fromCore core = .ok object
  written : object.toCbor = .ok bytes
  item : DataItem bytes
  read : bytes.length < 2 ^ 53 → ∀ fuel, bytes.length ≤ fuel →
    ∃ decoded, metadatumWithin (fuel + 1) bytes = .ok decoded ∧ decoded.meaning = some core

structure AllSurvive (cores : List Metadatum) (objects : List TransactionMetadatum)
    (elements : List (List UInt8)) : Prop where
  made : metadataFromCore cores = .ok objects
  written : metadataToCbor objects = .ok elements
  count : elements.length = cores.length
  items : ∀ item ∈ elements, DataItem item
  read : elements.flatten.length < 2 ^ 53 → ∀ fuel, elements.flatten.length ≤ fuel →
    ∃ decoded, List.Forall₂ (DecodesPart (metadatumWithin (fuel + 1))) elements decoded ∧
      TransactionMetadatum.meaningAll decoded = some cores

structure EntriesSurvive (cores : List (Metadatum × Metadatum))
    (objects : List (TransactionMetadatum × TransactionMetadatum))
    (encoded : List (List UInt8 × List UInt8)) : Prop where
  made : metadatumEntriesFromCore cores = .ok objects
  written : metadatumEntriesToCbor objects = .ok encoded
  count : encoded.length = cores.length
  items : ∀ entry ∈ encoded, DataItem entry.1 ∧ DataItem entry.2
  read : (entriesBytes encoded).length < 2 ^ 53 → ∀ fuel, (entriesBytes encoded).length ≤ fuel →
    ∃ decoded, List.Forall₂ (DecodesParts (metadatumWithin (fuel + 1))) encoded decoded ∧
      TransactionMetadatum.meaningEntries decoded = some cores

section Collections

variable {cores : List Metadatum} {objects : List TransactionMetadatum}
  {elements : List (List UInt8)}

theorem AllSurvive.list (h : AllSurvive cores objects elements) (hcount : cores.length < 2 ^ 32) :
    Survives (.list cores) (.newList objects)
      (encodeHead .array elements.length ++ elements.flatten) where
  made := by
    rw [TransactionMetadatum.fromCore, h.made]
    rfl
  written := by
    have hwrites : Writes (writeMetadatumList false elements)
        (encodeHead .array elements.length ++ elements.flatten) := by
      have hcontent := (writes_elements elements).bind Writes.pure
      rw [List.append_nil] at hcontent
      exact (writes_startArray (by rw [h.count]; omega)).bind hcontent
    rw [TransactionMetadatum.newList, TransactionMetadatum.toCbor, h.written]
    exact encodeAsHex_ok (encodes_writing hwrites)
  item := DataItem.array (head_encodeHead .array (by rw [h.count]; omega))
    (items_of_wellFormed h.items)
  read := by
    intro hlength fuel hfuel
    have hframed : Framed 4 elements.length elements.flatten _ _ :=
      Framed.definite (head_encodeHead .array (by rw [h.count]; omega))
    have hcontent := hframed.content_lt
    obtain ⟨fuel, rfl⟩ : ∃ n, fuel = n + 1 := ⟨fuel - 1, by omega⟩
    obtain ⟨decoded, hdecoded, hmeaning⟩ := h.read (by omega) fuel (by omega)
    refine ⟨_, metadatumWithin_list hdecoded hframed hlength, ?_⟩
    rw [TransactionMetadatum.meaning, hmeaning]
    rfl

theorem EntriesSurvive.map {cores : List (Metadatum × Metadatum)}
    {objects : List (TransactionMetadatum × TransactionMetadatum)}
    {encoded : List (List UInt8 × List UInt8)} (h : EntriesSurvive cores objects encoded)
    (hcount : cores.length < 2 ^ 32) :
    Survives (.map cores) (.newMap objects) (mapBytes false encoded) where
  made := by
    rw [TransactionMetadatum.fromCore, h.made]
    rfl
  written := by
    rw [TransactionMetadatum.newMap, TransactionMetadatum.toCbor, h.written]
    exact encodeAsHex_ok (encodes_writing (writes_plutusMap false (by rw [h.count]; omega)))
  item := dataItem_mapBytes false (by rw [h.count]; omega) h.items
  read := by
    intro hlength fuel hfuel
    have hframed : Framed 5 encoded.length (entriesBytes encoded) _ (mapBytes false encoded) :=
      Framed.definite (head_encodeHead .map (by rw [h.count]; omega))
    have hcontent := hframed.content_lt
    obtain ⟨fuel, rfl⟩ : ∃ n, fuel = n + 1 := ⟨fuel - 1, by omega⟩
    obtain ⟨decoded, hdecoded, hmeaning⟩ := h.read (by omega) fuel (by omega)
    refine ⟨_, metadatumWithin_map hdecoded hframed hlength, ?_⟩
    rw [TransactionMetadatum.meaning, hmeaning]
    rfl

end Collections

variable {value : ℤ}

theorem dataItem_metadatumIntegerBytes (hlength : (bigintToBuffer value).length < 2 ^ 64) :
    DataItem (metadatumIntegerBytes value) := by
  unfold metadatumIntegerBytes
  split
  · rename_i hword
    unfold maxWord64 at hword
    exact dataItem_encodeInt (by omega) (by omega)
  · apply DataItem.tag (head_encodeHead .tag _) (dataItem_encodeChunk hlength)
    split <;> decide

theorem survives_integer (hlower : -(2 ^ 64) ≤ value)
    (hlength : (bigintToBuffer value).length < 2 ^ 53) :
    Survives (.integer value) (.newInteger value) (metadatumIntegerBytes value) where
  made := by rw [TransactionMetadatum.fromCore]
  written := toCbor_newInteger_metadatum (by omega)
  item := dataItem_metadatumIntegerBytes (by omega)
  read := by
    intro hlength fuel _
    refine ⟨_, metadatumWithin_integer value fuel hlength, ?_⟩
    rw [TransactionMetadatum.meaning, rereadInteger, if_neg (by omega)]

theorem survives_bytes {value : List UInt8} (h : value.length ≤ 64) :
    Survives (.bytes value) (.newBytes value) (encodeChunk value) where
  made := by
    rw [TransactionMetadatum.fromCore, checkBytes, check64Length, if_neg (by unfold maxMetadatumLength; omega)]
    rfl
  written := by
    rw [TransactionMetadatum.newBytes, TransactionMetadatum.toCbor, checkBytes, check64Length,
      if_neg (by unfold maxMetadatumLength; omega)]
    exact encodeAsHex_ok (encodes_writing (writes_byteString (by omega)))
  item := dataItem_encodeChunk (by omega)
  read := by
    intro hlength fuel _
    refine ⟨_, metadatumWithin_bytes hlength, ?_⟩
    rw [TransactionMetadatum.meaning]

theorem survives_text {value : String} (h : (utf8Encode value).length ≤ 64) :
    Survives (.text value) (.newText value) (encodeText value) where
  made := by
    rw [TransactionMetadatum.fromCore, checkText, check64Length, if_neg (by unfold maxMetadatumLength; omega)]
    rfl
  written := by
    rw [TransactionMetadatum.newText, TransactionMetadatum.toCbor, checkText, check64Length,
      if_neg (by unfold maxMetadatumLength; omega)]
    exact encodeAsHex_ok (encodes_writing (writes_textString (by omega)))
  item := DataItem.string (Or.inr rfl)
    (StringItem.mk (head_encodeHead .utf8String (by omega)) rfl)
  read := by
    intro hlength fuel _
    refine ⟨_, metadatumWithin_text hlength, ?_⟩
    rw [TransactionMetadatum.meaning]

mutual

theorem metadatum_survives : (core : Metadatum) → core.Valid →
    ∃ object bytes, Survives core object bytes
  | .integer value, hvalid => by
    rw [Metadatum.Valid] at hvalid
    exact ⟨_, _, survives_integer hvalid.1 hvalid.2⟩
  | .text value, hvalid => by
    rw [Metadatum.Valid] at hvalid
    exact ⟨_, _, survives_text hvalid⟩
  | .bytes value, hvalid => by
    rw [Metadatum.Valid] at hvalid
    exact ⟨_, _, survives_bytes hvalid⟩
  | .list items, hvalid => by
    rw [Metadatum.Valid] at hvalid
    obtain ⟨objects, elements, hall⟩ := metadata_survive items hvalid.2
    exact ⟨_, _, hall.list hvalid.1⟩
  | .map entries, hvalid => by
    rw [Metadatum.Valid] at hvalid
    obtain ⟨objects, encoded, hall⟩ := metadatumEntries_survive entries hvalid.2.2
    exact ⟨_, _, hall.map hvalid.1⟩

theorem metadata_survive : (cores : List Metadatum) → AllMetadataValid cores →
    ∃ objects elements, AllSurvive cores objects elements
  | [], _ => by
    refine ⟨[], [], by rw [metadataFromCore], by rw [metadataToCbor], rfl, by simp, ?_⟩
    intro _ fuel _
    exact ⟨[], List.Forall₂.nil, by rw [TransactionMetadatum.meaningAll]⟩
  | item :: items, hvalid => by
    rw [AllMetadataValid] at hvalid
    obtain ⟨object, bytes, hitem⟩ := metadatum_survives item hvalid.1
    obtain ⟨objects, elements, hall⟩ := metadata_survive items hvalid.2
    refine ⟨object :: objects, bytes :: elements, ?_, ?_, ?_, ?_, ?_⟩
    · rw [metadataFromCore, hitem.made, hall.made]
      rfl
    · rw [metadataToCbor, hitem.written, hall.written]
      rfl
    · rw [List.length_cons, List.length_cons, hall.count]
    · exact List.forall_mem_cons.mpr ⟨hitem.item, hall.items⟩
    · intro hlength fuel hfuel
      rw [List.flatten_cons, List.length_append] at hlength hfuel
      obtain ⟨first, hfirst, hmeaning⟩ := hitem.read (by omega) fuel (by omega)
      obtain ⟨rest, hrest, hmeanings⟩ := hall.read (by omega) fuel (by omega)
      refine ⟨first :: rest, List.Forall₂.cons ⟨hitem.item, hfirst⟩ hrest, ?_⟩
      rw [TransactionMetadatum.meaningAll, hmeaning, hmeanings]
      rfl

theorem metadatumEntries_survive : (cores : List (Metadatum × Metadatum)) →
    AllMetadatumEntriesValid cores → ∃ objects encoded, EntriesSurvive cores objects encoded
  | [], _ => by
    refine ⟨[], [], by rw [metadatumEntriesFromCore], by rw [metadatumEntriesToCbor], rfl,
      by simp, ?_⟩
    intro _ fuel _
    exact ⟨[], List.Forall₂.nil, by rw [TransactionMetadatum.meaningEntries]⟩
  | (key, value) :: entries, hvalid => by
    rw [AllMetadatumEntriesValid] at hvalid
    obtain ⟨keyObject, keyBytes, hkey⟩ := metadatum_survives key hvalid.1
    obtain ⟨object, bytes, hvalue⟩ := metadatum_survives value hvalid.2.1
    obtain ⟨objects, encoded, hall⟩ := metadatumEntries_survive entries hvalid.2.2
    refine ⟨(keyObject, object) :: objects, (keyBytes, bytes) :: encoded, ?_, ?_, ?_, ?_, ?_⟩
    · rw [metadatumEntriesFromCore, hkey.made, hvalue.made, hall.made]
      rfl
    · rw [metadatumEntriesToCbor, hkey.written, hvalue.written, hall.written]
      rfl
    · rw [List.length_cons, List.length_cons, hall.count]
    · exact List.forall_mem_cons.mpr ⟨⟨hkey.item, hvalue.item⟩, hall.items⟩
    · intro hlength fuel hfuel
      rw [entriesBytes, List.flatMap_cons, List.length_append, List.length_append] at hlength hfuel
      change keyBytes.length + bytes.length + (entriesBytes encoded).length < _ at hlength
      change keyBytes.length + bytes.length + (entriesBytes encoded).length ≤ _ at hfuel
      obtain ⟨first, hfirst, hmeaning⟩ := hkey.read (by omega) fuel (by omega)
      obtain ⟨second, hsecond, hmeaning'⟩ := hvalue.read (by omega) fuel (by omega)
      obtain ⟨rest, hrest, hmeanings⟩ := hall.read (by omega) fuel (by omega)
      refine ⟨(first, second) :: rest,
        List.Forall₂.cons ⟨⟨hkey.item, hfirst⟩, ⟨hvalue.item, hsecond⟩⟩ hrest, ?_⟩
      exact TransactionMetadatum.meaningEntries_cons.mpr
        ⟨_, _, _, hmeaning, hmeaning', hmeanings, rfl⟩

end

structure LabelSurvives (entry : ℤ × Metadatum) (object : ℤ × TransactionMetadatum)
    (bytes : List UInt8) : Prop where
  label : object.1 = entry.1
  word : 0 ≤ entry.1 ∧ entry.1 < 2 ^ 64
  valid : entry.2.Valid
  metadatum : ∃ encoded, bytes = encodeInt entry.1 ++ encoded ∧ Survives entry.2 object.2 encoded

def writeLabelled (entry : ℤ × TransactionMetadatum) : EncodeM Unit := do
  writing (writeInt entry.1)
  writePart TransactionMetadatum.toCbor entry.2

section Labels

variable {entry : ℤ × Metadatum} {object : ℤ × TransactionMetadatum} {bytes : List UInt8}

theorem LabelSurvives.encodes (h : LabelSurvives entry object bytes) :
    Encodes (writeLabelled object) bytes := by
  obtain ⟨encoded, rfl, hsurvives⟩ := h.metadatum
  have hword := h.word
  rw [← h.label] at hword ⊢
  apply Encodes.write (writes_int (by omega) hword.2)
  exact Encodes.encode hsurvives.written (encodes_writing (writes_encodedValue encoded))

theorem LabelSurvives.items (h : LabelSurvives entry object bytes) : Items 2 bytes := by
  obtain ⟨encoded, rfl, hsurvives⟩ := h.metadatum
  have hword := h.word
  exact Items.cons (dataItem_encodeInt (by omega) hword.2) (items_one hsurvives.item)

theorem LabelSurvives.readsRound (h : LabelSurvives entry object bytes)
    (hlength : bytes.length < 2 ^ 53) (metadata : JsMap ℤ TransactionMetadatum) :
    ∃ decoded, decoded.toCore = .ok entry.2 ∧
      ReadsRound (GeneralTransactionMetadata.readLabelled metadata) 2 bytes
        (metadata.set entry.1 decoded) := by
  obtain ⟨encoded, rfl, hsurvives⟩ := h.metadatum
  have hword := h.word
  rw [List.length_append] at hlength
  obtain ⟨decoded, hdecoded, hmeaning⟩ :=
    hsurvives.read (by omega) encoded.length le_rfl
  refine ⟨decoded, TransactionMetadatum.toCore_of_meaning hmeaning h.valid, ?_⟩
  have hpart : ReadsItem (readPart TransactionMetadatum.fromCbor) encoded decoded :=
    readsItem_part hsurvives.item hdecoded
  have hitem := dataItem_encodeInt (show -(2 ^ 64) ≤ entry.1 by omega) hword.2
  have hlabel := readsItem_int (show -(2 ^ 64) ≤ entry.1 by omega) hword.2
  unfold GeneralTransactionMetadata.readLabelled
  change ReadsRound _ (1 + 1) _ _
  refine Serialization.readsRound hitem hlabel ?_
  exact hpart.last fun _ => rfl

end Labels

inductive LabelsSurvive : TxMetadata → List (ℤ × TransactionMetadatum) → List UInt8 → Prop
  | nil : LabelsSurvive [] [] []
  | cons {entry : ℤ × Metadatum} {object : ℤ × TransactionMetadatum} {bytes : List UInt8}
      {blob : TxMetadata} {objects : List (ℤ × TransactionMetadatum)} {content : List UInt8}
      (hentry : LabelSurvives entry object bytes) (hrest : LabelsSurvive blob objects content) :
      LabelsSurvive (entry :: blob) (object :: objects) (bytes ++ content)

section Labels

variable {blob : TxMetadata} {objects : List (ℤ × TransactionMetadatum)} {content : List UInt8}

theorem labels_survive : (blob : TxMetadata) → (∀ entry ∈ blob, 0 ≤ entry.1 ∧ entry.1 < 2 ^ 64) →
    (∀ entry ∈ blob, entry.2.Valid) → ∃ objects content, LabelsSurvive blob objects content ∧
      (blob.mapM fun (label, metadatum) => do
        let object ← TransactionMetadatum.fromCore metadatum
        return (label, object)) = .ok objects
  | [], _, _ => ⟨[], [], LabelsSurvive.nil, rfl⟩
  | (label, metadatum) :: blob, hwords, hvalid => by
    rw [List.forall_mem_cons] at hwords hvalid
    obtain ⟨object, encoded, hsurvives⟩ := metadatum_survives metadatum hvalid.1
    obtain ⟨objects, content, hrest, hmade⟩ := labels_survive blob hwords.2 hvalid.2
    have hentry : LabelSurvives (label, metadatum) (label, object) (encodeInt label ++ encoded) :=
      ⟨rfl, hwords.1, hvalid.1, encoded, rfl, hsurvives⟩
    refine ⟨_, _, LabelsSurvive.cons hentry hrest, ?_⟩
    rw [List.mapM_cons]
    dsimp only
    rw [hsurvives.made, hmade]
    rfl

theorem LabelsSurvive.labels (h : LabelsSurvive blob objects content) :
    objects.map Prod.fst = blob.map Prod.fst := by
  induction h with
  | nil => rfl
  | cons hentry _ ih => rw [List.map_cons, List.map_cons, hentry.label, ih]

theorem LabelsSurvive.encodes (h : LabelsSurvive blob objects content) :
    Encodes (objects.forM writeLabelled) content := by
  induction h with
  | nil => exact Encodes.pure
  | cons hentry _ ih => exact hentry.encodes.bind ih

theorem LabelsSurvive.items (h : LabelsSurvive blob objects content) :
    Items (2 * objects.length) content := by
  induction h with
  | nil => exact Items.nil
  | cons hentry _ ih =>
    rw [List.length_cons, Nat.mul_succ, Nat.add_comm]
    exact hentry.items.append ih

theorem LabelsSurvive.rounds (h : LabelsSurvive blob objects content)
    (hlength : content.length < 2 ^ 53) (metadata : JsMap ℤ TransactionMetadatum) :
    ∃ decoded : List (ℤ × TransactionMetadatum), decoded.map Prod.fst = blob.map Prod.fst ∧
      (decoded.mapM fun (label, metadatum) => do
        let core ← TransactionMetadatum.toCore metadatum
        return (label, core)) = .ok blob ∧
      Rounds GeneralTransactionMetadata.readLabelled metadata (2 * objects.length) content
        (decoded.foldl (fun metadata entry => metadata.set entry.1 entry.2) metadata) := by
  induction h generalizing metadata with
  | nil => exact ⟨[], rfl, rfl, Rounds.nil metadata⟩
  | @cons entry object bytes blob objects content hentry _ ih =>
    rw [List.length_append] at hlength
    obtain ⟨first, hcore, hround⟩ := hentry.readsRound (by omega) metadata
    obtain ⟨rest, hlabels, hcores, hrounds⟩ := ih (by omega) (metadata.set entry.1 first)
    refine ⟨(entry.1, first) :: rest, ?_, ?_, ?_⟩
    · rw [List.map_cons, List.map_cons, hlabels]
    · rw [List.mapM_cons]
      dsimp only
      rw [hcore, hcores]
      rfl
    · rw [List.length_cons, Nat.mul_succ, Nat.add_comm, List.foldl_cons]
      exact Rounds.cons hround hrounds

end Labels

/-- The metadata of the core type, as they are written and as they are read. -/
structure MetadataSurvive (blob : TxMetadata) (general : GeneralTransactionMetadata)
    (bytes : List UInt8) : Prop where
  made : GeneralTransactionMetadata.fromCore blob = .ok general
  size : general.metadata.size = blob.length
  written : general.toCbor = .ok bytes
  item : DataItem bytes
  begins : Begins bytes .startMap
  read : bytes.length < 2 ^ 53 → ∃ decoded, GeneralTransactionMetadata.fromCbor bytes = .ok decoded ∧
    decoded.toCore = .ok blob

theorem generalMetadata_survive {blob : TxMetadata} (hvalid : ValidTxMetadata blob) :
    ∃ general bytes, MetadataSurvive blob general bytes := by
  obtain ⟨objects, content, hall, hmade⟩ := labels_survive blob hvalid.words hvalid.valid
  have hlabels := hall.labels
  have hcount : objects.length = blob.length := by
    simpa using congrArg List.length hlabels
  have hentries : (JsMap.ofList objects).entries = objects :=
    JsMap.entries_ofList_of_nodup (by rw [hlabels]; exact hvalid.labels)
  have hsmall := hvalid.count
  have hhead := head_encodeHead .map (show objects.length < 2 ^ 64 by omega)
  have hframed : Framed 5 objects.length content _ (encodeHead .map objects.length ++ content) :=
    Framed.definite hhead
  refine ⟨⟨JsMap.ofList objects⟩, encodeHead .map objects.length ++ content, ?_, ?_, ?_,
    DataItem.map hhead hall.items, begins_framed (Or.inr rfl) hframed, ?_⟩
  · unfold GeneralTransactionMetadata.fromCore
    rw [hmade]
    rfl
  · unfold JsMap.size
    rw [hentries, hcount]
  · have hwrites : Encodes (do
        writing (writeStartMap (some objects.length))
        objects.forM writeLabelled) (encodeHead .map objects.length ++ content) :=
      Encodes.write (writes_startMap (by omega)) hall.encodes
    unfold GeneralTransactionMetadata.toCbor JsMap.size
    rw [hentries]
    exact encodeAsHex_ok hwrites
  · intro hlength
    have hlt := hframed.content_lt
    obtain ⟨decoded, hkeys, hcore, hrounds⟩ := hall.rounds (by omega) JsMap.empty
    have hdecoded : (JsMap.ofList decoded).entries = decoded :=
      JsMap.entries_ofList_of_nodup (by rw [hkeys]; exact hvalid.labels)
    have hrounds' := Nat.lt_succ_of_lt hlt
    have hread := readsItem_fields hrounds hall.items.le_length hrounds'
    refine ⟨⟨JsMap.ofList decoded⟩, ReadsItem.decodeWith (hread.map fun _ => rfl) hlength, ?_⟩
    unfold GeneralTransactionMetadata.toCore
    rw [hdecoded]
    exact hcore

end CardanoSdk.Serialization
