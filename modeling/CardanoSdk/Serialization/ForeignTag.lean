import CardanoSdk.Serialization.AuxiliaryDataRoundTrip

/-!
Metadata that are accepted and yet cannot be converted: under a tag that is not that of a
big integer the decoder reads nothing.
-/

namespace CardanoSdk.Serialization

open Lib Cbor Plutus Cardano

namespace TransactionMetadatum

def Convertible (data : TransactionMetadatum) : Prop := ∃ core, data.toCore = .ok core

def Means (data : TransactionMetadatum) : Prop := ∃ core, data.meaning = some core

variable {original : Option (List UInt8)} {indefinite : Bool} {items : List TransactionMetadatum}
  {entries : List (TransactionMetadatum × TransactionMetadatum)}

theorem convertible_all :
    (∃ cores, metadataToCore items = .ok cores) ↔ ∀ item ∈ items, item.Convertible := by
  induction items with
  | nil => exact ⟨fun _ => by simp, fun _ => ⟨[], by rw [metadataToCore]⟩⟩
  | cons item items ih =>
    rw [List.forall_mem_cons, ← ih, metadataToCore]
    constructor
    · rintro ⟨cores, h⟩
      obtain ⟨first, hfirst, h⟩ := bind_ok h
      obtain ⟨rest, hrest, _⟩ := bind_ok h
      exact ⟨⟨first, hfirst⟩, rest, hrest⟩
    · rintro ⟨⟨first, hfirst⟩, rest, hrest⟩
      refine ⟨first :: rest, ?_⟩
      rw [hfirst, hrest]
      rfl

theorem convertible_list :
    (TransactionMetadatum.list original indefinite items).Convertible ↔
      ∀ item ∈ items, item.Convertible := by
  rw [← convertible_all]
  unfold Convertible
  simp only [toCore]
  constructor
  · rintro ⟨core, h⟩
    obtain ⟨cores, hcores, _⟩ := bind_ok h
    exact ⟨cores, hcores⟩
  · rintro ⟨cores, hcores⟩
    refine ⟨.list cores, ?_⟩
    rw [hcores]
    rfl

theorem convertible_map :
    (TransactionMetadatum.map original indefinite entries).Convertible ↔
      ∀ entry ∈ entries, entry.1.Convertible ∧ ∃ first,
        entries.find? (fun other => other.1.equals entry.1) = some first ∧ first.2.Convertible := by
  have hmap : (TransactionMetadatum.map original indefinite entries).Convertible ↔
      ∃ coreMap, convertMap .undefinedAccess equals sameMetadatum (metadatumConversions entries) =
        .ok coreMap := by
    unfold Convertible
    simp only [toCore]
    constructor
    · rintro ⟨core, h⟩
      obtain ⟨coreMap, hcoreMap, _⟩ := bind_ok h
      exact ⟨coreMap, hcoreMap⟩
    · rintro ⟨coreMap, hcoreMap⟩
      refine ⟨.map coreMap, ?_⟩
      rw [hcoreMap]
      rfl
  have hvalue (key : TransactionMetadatum) :
      (∃ value, valueOf EncodeException.undefinedAccess equals key (entries.map fun entry =>
        ⟨entry.1, entry.1.toCore, entry.2.toCore⟩) = .ok value) ↔ ∃ first,
          entries.find? (fun other => other.1.equals key) = some first ∧ first.2.Convertible := by
    unfold valueOf
    rw [List.find?_map]
    unfold Function.comp
    dsimp only
    cases entries.find? (fun other => other.1.equals key) with
    | none => simp
    | some first => simp [Convertible]
  rw [hmap, convertMap_succeeds_iff, metadatumConversions_eq, List.forall_mem_map]
  simp only [hvalue]
  rfl

theorem means_all : (∃ cores, meaningAll items = some cores) ↔ ∀ item ∈ items, item.Means := by
  induction items with
  | nil => exact ⟨fun _ => by simp, fun _ => ⟨[], by rw [meaningAll]⟩⟩
  | cons item items ih =>
    rw [List.forall_mem_cons, ← ih, meaningAll]
    constructor
    · rintro ⟨cores, h⟩
      obtain ⟨first, hfirst, h⟩ := Option.bind_eq_some_iff.mp h
      obtain ⟨rest, hrest, _⟩ := Option.bind_eq_some_iff.mp h
      exact ⟨⟨first, hfirst⟩, rest, hrest⟩
    · rintro ⟨⟨first, hfirst⟩, rest, hrest⟩
      refine ⟨first :: rest, ?_⟩
      rw [hfirst, hrest]
      rfl

theorem means_list :
    (TransactionMetadatum.list original indefinite items).Means ↔ ∀ item ∈ items, item.Means := by
  rw [← means_all]
  unfold Means
  rw [meaning]
  constructor
  · rintro ⟨core, h⟩
    obtain ⟨cores, hcores, _⟩ := Option.bind_eq_some_iff.mp h
    exact ⟨cores, hcores⟩
  · rintro ⟨cores, hcores⟩
    refine ⟨.list cores, ?_⟩
    rw [hcores]
    rfl

theorem means_entries :
    (∃ own, meaningEntries entries = some own) ↔
      ∀ entry ∈ entries, entry.1.Means ∧ entry.2.Means := by
  induction entries with
  | nil => exact ⟨fun _ => by simp, fun _ => ⟨[], by rw [meaningEntries]⟩⟩
  | cons entry entries ih =>
    rw [List.forall_mem_cons, ← ih]
    constructor
    · rintro ⟨own, h⟩
      obtain ⟨first, second, rest, hfirst, hsecond, hrest, _⟩ := meaningEntries_cons.mp h
      exact ⟨⟨⟨first, hfirst⟩, second, hsecond⟩, rest, hrest⟩
    · rintro ⟨⟨⟨first, hfirst⟩, second, hsecond⟩, rest, hrest⟩
      exact ⟨_, meaningEntries_cons.mpr ⟨first, second, rest, hfirst, hsecond, hrest, rfl⟩⟩

theorem means_map :
    (TransactionMetadatum.map original indefinite entries).Means ↔
      ∀ entry ∈ entries, entry.1.Means ∧ entry.2.Means := by
  rw [← means_entries]
  unfold Means
  rw [meaning]
  constructor
  · rintro ⟨core, h⟩
    obtain ⟨own, hown, _⟩ := Option.bind_eq_some_iff.mp h
    exact ⟨own, hown⟩
  · rintro ⟨own, hown⟩
    refine ⟨.map own, ?_⟩
    rw [hown]
    rfl

mutual

theorem means_of_equals : (data data' : TransactionMetadatum) → data.equals data' = true → data.Means
  | .new _, data', h => by cases data' <;> simp [equals] at h
  | .bytes _ value, _, _ => ⟨.bytes value, by rw [meaning]⟩
  | .text _ value, _, _ => ⟨.text value, by rw [meaning]⟩
  | .integer _ value, _, _ => ⟨.integer value, by rw [meaning]⟩
  | .list _ _ items, data', h => by
    cases data' <;> simp only [equals, Bool.false_eq_true] at h
    exact means_list.mpr (allMean_of_equal items _ h)
  | .map _ _ entries, data', h => by
    cases data' <;> simp only [equals, Bool.false_eq_true, Bool.and_eq_true] at h
    exact means_map.mpr (entriesMean_of_equal entries _ h.2)

theorem allMean_of_equal : (items items' : List TransactionMetadatum) →
    metadataEqual items items' = true → ∀ item ∈ items, item.Means
  | [], _, _ => by simp
  | item :: items, items', h => by
    cases items' <;> simp only [metadataEqual, Bool.false_eq_true, Bool.and_eq_true] at h
    exact List.forall_mem_cons.mpr ⟨means_of_equals item _ h.1, allMean_of_equal items _ h.2⟩

theorem entriesMean_of_equal :
    (entries entries' : List (TransactionMetadatum × TransactionMetadatum)) →
    metadatumEntriesEqual entries entries' = true →
    ∀ entry ∈ entries, entry.1.Means ∧ entry.2.Means
  | [], _, _ => by simp
  | (key, value) :: entries, entries', h => by
    cases entries' <;>
      simp only [metadatumEntriesEqual, Bool.false_eq_true, Bool.and_eq_true] at h
    exact List.forall_mem_cons.mpr ⟨⟨means_of_equals key _ h.1.1, means_of_equals value _ h.1.2⟩,
      entriesMean_of_equal entries _ h.2⟩

end

/-- A map is converted exactly if nothing in its keys was read under a foreign
tag and the first value under every key is converted. -/
theorem convertible_map_iff (hkeys : ∀ entry ∈ entries, entry.1.Means → entry.1.Convertible) :
    (TransactionMetadatum.map original indefinite entries).Convertible ↔
      (∀ entry ∈ entries, entry.1.Means) ∧ ∀ before key value after,
        entries = before ++ (key, value) :: after →
          (∀ earlier ∈ before, ¬ earlier.1.equals key = true) → value.Convertible := by
  rw [convertible_map]
  constructor
  · intro h
    have hmeans : ∀ entry ∈ entries, entry.1.Means := by
      intro entry hentry
      obtain ⟨_, first, hfirst, _⟩ := h entry hentry
      have hequals := List.find?_some hfirst
      obtain ⟨core, hcore⟩ := means_of_equals _ _ hequals
      exact ⟨core, (meaning_eq_of_equals _ _ hequals).symm.trans hcore⟩
    refine ⟨hmeans, ?_⟩
    rintro before key value after rfl hbefore
    have hmem : (key, value) ∈ before ++ (key, value) :: after :=
      List.mem_append_right _ List.mem_cons_self
    obtain ⟨core, hcore⟩ := hmeans _ hmem
    obtain ⟨_, first, hfirst, hvalue⟩ := h _ hmem
    have hnone : before.find? (fun other => other.1.equals key) = none :=
      List.find?_eq_none.mpr hbefore
    have hself : ((key, value) :: after).find? (fun other => other.1.equals key) = some (key, value) :=
      List.find?_cons_of_pos (equals_self key hcore)
    rw [List.find?_append, hnone, Option.none_or, hself] at hfirst
    cases hfirst
    exact hvalue
  · rintro ⟨hmeans, hvalues⟩ entry hentry
    refine ⟨hkeys entry hentry (hmeans entry hentry), ?_⟩
    obtain ⟨core, hcore⟩ := hmeans entry hentry
    have hsome : (entries.find? fun other => other.1.equals entry.1).isSome := by
      rw [List.find?_isSome]
      exact ⟨entry, hentry, equals_self entry.1 hcore⟩
    obtain ⟨first, hfirst⟩ := Option.isSome_iff_exists.mp hsome
    refine ⟨first, hfirst, ?_⟩
    obtain ⟨hequals, before, after, rfl, hbefore⟩ := List.find?_eq_some_iff_append.mp hfirst
    refine hvalues before first.1 first.2 after rfl fun earlier hearlier hsame => ?_
    have hno := hbefore earlier hearlier
    rw [equals_trans _ _ _ hsame hequals] at hno
    cases hno

end TransactionMetadatum

/-- What the branches read with a decoder of parts, they read with one that decodes more. -/
theorem readMetadatum_refines {fromCbor fromCbor' : List UInt8 → Except DecodeException TransactionMetadatum}
    (h : ∀ cbor data, fromCbor cbor = .ok data → fromCbor' cbor = .ok data) (cbor : List UInt8)
    (state : CborReaderState) :
    Refines (readMetadatum fromCbor cbor state) (readMetadatum fromCbor' cbor state) := by
  cases state with
  | startArray =>
    refine Refines.bind (readPart_refines fun encoded result hresult => ?_) fun _ => Refines.refl _
    exact Refines.decodeWith (Refines.bind (readArray_refines (addPart_refines h) _ _)
      fun _ => Refines.refl _) hresult
  | startMap =>
    refine Refines.bind (readPart_refines fun encoded result hresult => ?_) fun _ => Refines.refl _
    exact Refines.decodeWith (Refines.bind (readMap_refines (insertParts_refines h) _ _)
      fun _ => Refines.refl _) hresult
  | _ => exact Refines.refl _

variable {cbor : List UInt8} {fuel : ℕ} {data : TransactionMetadatum}

theorem metadatumWithin_succ (h : metadatumWithin fuel cbor = .ok data) :
    metadatumWithin (fuel + 1) cbor = .ok data := by
  induction fuel generalizing cbor data with
  | zero => cases h
  | succ fuel ih =>
    rw [metadatumWithin] at h ⊢
    exact Refines.decodeWith (Refines.read fun state =>
      readMetadatum_refines (fun _ _ => ih) cbor state) h

theorem metadatumWithin_le {fuel' : ℕ} (hle : fuel ≤ fuel')
    (h : metadatumWithin fuel cbor = .ok data) : metadatumWithin fuel' cbor = .ok data := by
  induction hle with
  | refl => exact h
  | step _ ih => exact metadatumWithin_succ ih

/-- Whatever fuel they are decoded with, the keys of these bytes are equal. -/
def EqualKeys (bytes bytes' : List UInt8) : Prop :=
  ∃ fuel key key', metadatumWithin fuel bytes = .ok key ∧ metadatumWithin fuel bytes' = .ok key' ∧
    key.equals key' = true

variable {bytes : List UInt8} {key : TransactionMetadatum}
  {encoded : List (List UInt8 × List UInt8)}

theorem equalKeys_iff {bytes' : List UInt8} {key' : TransactionMetadatum}
    (hkey : metadatumWithin fuel bytes = .ok key) (hkey' : metadatumWithin fuel bytes' = .ok key') :
    EqualKeys bytes bytes' ↔ key.equals key' = true := by
  constructor
  · rintro ⟨fuel', other, other', hother, hother', hequals⟩
    have hsame := (metadatumWithin_le (le_max_left fuel fuel') hkey).symm.trans
      (metadatumWithin_le (le_max_right fuel fuel') hother)
    have hsame' := (metadatumWithin_le (le_max_left fuel fuel') hkey').symm.trans
      (metadatumWithin_le (le_max_right fuel fuel') hother')
    cases hsame
    cases hsame'
    exact hequals
  · intro hequals
    exact ⟨fuel, key, key', hkey, hkey', hequals⟩

/-- The bytes hold a tag that is not that of a big integer: anywhere in their
trees, or where the conversion gets to. That is any place but the value of a
key that equals an earlier key of the same map, and all of a key. -/
inductive ForeignTag : (anywhere : Bool) → List UInt8 → Prop
  | tag {anywhere : Bool} {number : ℕ} {head : List UInt8} (hhead : Head 6 number head)
      (hunsigned : number ≠ unsignedBigNumTag) (hnegative : number ≠ negativeBigNumTag)
      (rest : List UInt8) : ForeignTag anywhere (head ++ rest)
  | element {anywhere : Bool} {elements : List (List UInt8)} {declared : Option ℕ}
      {bytes element : List UInt8} (hitems : ∀ item ∈ elements, DataItem item)
      (hframed : Framed 4 elements.length elements.flatten declared bytes)
      (hmem : element ∈ elements) (helement : ForeignTag anywhere element) (rest : List UInt8) :
      ForeignTag anywhere (bytes ++ rest)
  | key {anywhere : Bool} {encoded : List (List UInt8 × List UInt8)} {declared : Option ℕ}
      {bytes : List UInt8} {entry : List UInt8 × List UInt8}
      (hitems : ∀ entry ∈ encoded, DataItem entry.1 ∧ DataItem entry.2)
      (hframed : Framed 5 encoded.length (entriesBytes encoded) declared bytes)
      (hmem : entry ∈ encoded) (hkey : ForeignTag true entry.1) (rest : List UInt8) :
      ForeignTag anywhere (bytes ++ rest)
  | value {anywhere : Bool} {encoded before after : List (List UInt8 × List UInt8)}
      {declared : Option ℕ} {bytes : List UInt8} {entry : List UInt8 × List UInt8}
      (hitems : ∀ entry ∈ encoded, DataItem entry.1 ∧ DataItem entry.2)
      (hframed : Framed 5 encoded.length (entriesBytes encoded) declared bytes)
      (hencoded : encoded = before ++ entry :: after)
      (hfirst : anywhere = false → ∀ earlier ∈ before, ¬ EqualKeys earlier.1 entry.1)
      (hvalue : ForeignTag anywhere entry.2) (rest : List UInt8) :
      ForeignTag anywhere (bytes ++ rest)

theorem begins_foreignTag {anywhere : Bool} (h : ForeignTag anywhere cbor) :
    Begins cbor .tag ∨ Begins cbor .startArray ∨ Begins cbor .startMap := by
  cases h with
  | tag hhead _ _ rest => exact Or.inl (@begins_head .tag (by decide) _ _ hhead rest)
  | element _ hframed _ _ rest =>
    exact Or.inr (Or.inl ((@begins_framed _ _ _ _ .array (Or.inl rfl) hframed).append rest))
  | key _ hframed _ _ rest =>
    exact Or.inr (Or.inr ((@begins_framed _ _ _ _ .map (Or.inr rfl) hframed).append rest))
  | value _ hframed _ _ _ rest =>
    exact Or.inr (Or.inr ((@begins_framed _ _ _ _ .map (Or.inr rfl) hframed).append rest))

theorem Begins.inj {state state' : CborReaderState} (h : Begins cbor state)
    (h' : Begins cbor state') (hlength : cbor.length < 2 ^ 53) : state = state' := by
  have hpeek : decodeWith cbor (reading peekState >>= fun state => pure state) = .ok state :=
    decodeWith_peek h hlength fun _ _ _ => Succeeds.pure
  obtain ⟨_, state'', reader, reader', hpeeked, hpure⟩ := decodeWith_peek_eq_ok hpeek
  rw [hpeeked.begins state h, hpeeked.begins state' h']

theorem entries_inj {encoded' : List (List UInt8 × List UInt8)}
    (hitems : ∀ entry ∈ encoded, DataItem entry.1 ∧ DataItem entry.2)
    (hitems' : ∀ entry ∈ encoded', DataItem entry.1 ∧ DataItem entry.2)
    (heq : entriesBytes encoded = entriesBytes encoded')
    (hlength : (entriesBytes encoded).length < 2 ^ 53) : encoded = encoded' := by
  induction encoded generalizing encoded' with
  | nil =>
    cases encoded' with
    | nil => rfl
    | cons entry encoded' =>
      rw [List.forall_mem_cons] at hitems'
      obtain ⟨first, tail, hfirst, _⟩ := hitems'.1.1.exists_cons
      rw [entriesBytes, entriesBytes, List.flatMap_cons, hfirst] at heq
      cases heq
  | cons entry encoded ih =>
    rw [List.forall_mem_cons] at hitems
    cases encoded' with
    | nil =>
      obtain ⟨first, tail, hfirst, _⟩ := hitems.1.1.exists_cons
      rw [entriesBytes, entriesBytes, List.flatMap_cons, hfirst] at heq
      cases heq
    | cons entry' encoded' =>
      rw [List.forall_mem_cons] at hitems'
      rw [entriesBytes, entriesBytes, List.flatMap_cons, List.flatMap_cons, List.append_assoc,
        List.append_assoc] at heq
      rw [entriesBytes, List.flatMap_cons, List.append_assoc] at hlength
      have hkey := dataItem_eq_of_append hitems.1.1 hitems'.1.1 heq hlength
      rw [hkey] at heq
      have hrest := List.append_cancel_left heq
      rw [List.length_append] at hlength
      have hvalue := dataItem_eq_of_append hitems.1.2 hitems'.1.2 hrest (by omega)
      rw [hvalue] at hrest
      rw [List.length_append] at hlength
      have htail := ih hitems.2 hitems'.2 (List.append_cancel_left hrest) (by
        unfold entriesBytes
        omega)
      rw [htail, Prod.ext hkey hvalue]

section Frames

variable {anywhere : Bool} {declared : Option ℕ} {bytes rest : List UInt8}

theorem foreignTag_array {elements : List (List UInt8)} (hitems : ∀ item ∈ elements, DataItem item)
    (hframed : Framed 4 elements.length elements.flatten declared bytes)
    (hlength : (bytes ++ rest).length < 2 ^ 53) :
    ForeignTag anywhere (bytes ++ rest) ↔ ∃ element ∈ elements, ForeignTag anywhere element := by
  have hbegins : Begins (bytes ++ rest) .startArray :=
    (@begins_framed _ _ _ _ .array (Or.inl rfl) hframed).append rest
  constructor
  · generalize hcbor : bytes ++ rest = cbor at hlength hbegins
    intro h
    cases h with
    | tag hhead _ _ rest' =>
      cases hbegins.inj (@begins_head .tag (by decide) _ _ hhead rest') hlength
    | @element _ elements' _ bytes' element hitems' hframed' hmem helement rest' =>
      have hsame : bytes = bytes' := dataItem_eq_of_append
        (hframed.array (items_of_wellFormed hitems)) (hframed'.array (items_of_wellFormed hitems'))
        hcbor (by rw [hcbor]; exact hlength)
      subst hsame
      have hcontent := hframed.content_eq (by decide) hframed'
      have hshort := hframed.content_lt
      have hbound := congrArg List.length hcbor
      rw [List.length_append] at hbound
      have helements := dataItems_inj hitems hitems' hcontent (by omega)
      subst helements
      exact ⟨element, hmem, helement⟩
    | key _ hframed' _ _ rest' =>
      cases hbegins.inj ((@begins_framed _ _ _ _ .map (Or.inr rfl) hframed').append rest') hlength
    | value _ hframed' _ _ _ rest' =>
      cases hbegins.inj ((@begins_framed _ _ _ _ .map (Or.inr rfl) hframed').append rest') hlength
  · rintro ⟨element, hmem, helement⟩
    exact ForeignTag.element hitems hframed hmem helement rest

theorem foreignTag_map {encoded : List (List UInt8 × List UInt8)}
    (hitems : ∀ entry ∈ encoded, DataItem entry.1 ∧ DataItem entry.2)
    (hframed : Framed 5 encoded.length (entriesBytes encoded) declared bytes)
    (hlength : (bytes ++ rest).length < 2 ^ 53) :
    ForeignTag anywhere (bytes ++ rest) ↔ (∃ entry ∈ encoded, ForeignTag true entry.1) ∨
      ∃ before entry after, encoded = before ++ entry :: after ∧
        (anywhere = false → ∀ earlier ∈ before, ¬ EqualKeys earlier.1 entry.1) ∧
        ForeignTag anywhere entry.2 := by
  have hbegins : Begins (bytes ++ rest) .startMap :=
    (@begins_framed _ _ _ _ .map (Or.inr rfl) hframed).append rest
  constructor
  · generalize hcbor : bytes ++ rest = cbor at hlength hbegins
    have hsame {encoded' : List (List UInt8 × List UInt8)} {declared' : Option ℕ}
        {bytes' rest' : List UInt8} (heq : bytes ++ rest = bytes' ++ rest')
        (hitems' : ∀ entry ∈ encoded', DataItem entry.1 ∧ DataItem entry.2)
        (hframed' : Framed 5 encoded'.length (entriesBytes encoded') declared' bytes') :
        encoded = encoded' := by
      have hbytes : bytes = bytes' := dataItem_eq_of_append
        (hframed.map (items_entriesBytes hitems)) (hframed'.map (items_entriesBytes hitems'))
        heq (by rw [hcbor]; exact hlength)
      subst hbytes
      have hcontent := hframed.content_eq (by decide) hframed'
      have hshort := hframed.content_lt
      have hbound := congrArg List.length hcbor
      rw [List.length_append] at hbound
      exact entries_inj hitems hitems' hcontent (by omega)
    intro h
    cases h with
    | tag hhead _ _ rest' =>
      cases hbegins.inj (@begins_head .tag (by decide) _ _ hhead rest') hlength
    | element _ hframed' _ _ rest' =>
      cases hbegins.inj ((@begins_framed _ _ _ _ .array (Or.inl rfl) hframed').append rest') hlength
    | @key _ encoded' _ _ entry hitems' hframed' hmem hkey rest' =>
      have hencoded := hsame hcbor hitems' hframed'
      subst hencoded
      exact Or.inl ⟨entry, hmem, hkey⟩
    | @value _ encoded' before after _ _ entry hitems' hframed' hsplit hfirst hvalue rest' =>
      have hencoded := hsame hcbor hitems' hframed'
      subst hencoded
      exact Or.inr ⟨before, entry, after, hsplit, hfirst, hvalue⟩
  · rintro (⟨entry, hmem, hkey⟩ | ⟨before, entry, after, hsplit, hfirst, hvalue⟩)
    · exact ForeignTag.key hitems hframed hmem hkey rest
    · exact ForeignTag.value hitems hframed hsplit hfirst hvalue rest

end Frames

/-- What a decoder of metadata read, given the decoder of its parts. -/
inductive MetadatumForm (fromCbor : List UInt8 → Except DecodeException TransactionMetadatum)
    (cbor : List UInt8) : TransactionMetadatum → Prop
  | leaf {data : TransactionMetadatum} (hmeans : data.Means) (hconvertible : data.Convertible)
      (hnone : ∀ anywhere, ¬ ForeignTag anywhere cbor) : MetadatumForm fromCbor cbor data
  | foreign (htag : ∀ anywhere, ForeignTag anywhere cbor) :
      MetadatumForm fromCbor cbor (.new (some cbor))
  | list {elements : List (List UInt8)} {items : List TransactionMetadatum} {declared : Option ℕ}
      {bytes rest : List UInt8} (hparts : List.Forall₂ (DecodesPart fromCbor) elements items)
      (hframed : Framed 4 elements.length elements.flatten declared bytes)
      (hcbor : cbor = bytes ++ rest) :
      MetadatumForm fromCbor cbor (.list (some cbor) declared.isNone items)
  | map {encoded : List (List UInt8 × List UInt8)}
      {entries : List (TransactionMetadatum × TransactionMetadatum)} {declared : Option ℕ}
      {bytes rest : List UInt8} (hparts : List.Forall₂ (DecodesParts fromCbor) encoded entries)
      (hframed : Framed 5 encoded.length (entriesBytes encoded) declared bytes)
      (hcbor : cbor = bytes ++ rest) :
      MetadatumForm fromCbor cbor (.map (some cbor) declared.isNone entries)

section Forms

variable {fromCbor : List UInt8 → Except DecodeException TransactionMetadatum} {cbor : List UInt8}
  {data : TransactionMetadatum} {state : CborReaderState} {reader reader' : CborReader}

theorem form_leaf (hpeeked : Peeked reader cbor state)
    (hstate : state ≠ .tag ∧ state ≠ .startArray ∧ state ≠ .startMap) (hmeans : data.Means)
    (hconvertible : data.Convertible) : MetadatumForm fromCbor cbor data := by
  apply MetadatumForm.leaf hmeans hconvertible
  intro anywhere h
  rcases begins_foreignTag h with htag | harray | hmap
  · exact hstate.1 (hpeeked.begins _ htag).symm
  · exact hstate.2.1 (hpeeked.begins _ harray).symm
  · exact hstate.2.2 (hpeeked.begins _ hmap).symm

theorem means_integer (original : Option (List UInt8)) (value : ℤ) :
    (TransactionMetadatum.integer original value).Means :=
  ⟨.integer value, by rw [TransactionMetadatum.meaning]⟩

theorem convertible_integer (original : Option (List UInt8)) (value : ℤ) :
    (TransactionMetadatum.integer original value).Convertible :=
  ⟨.integer value, by rw [TransactionMetadatum.toCore]⟩

theorem means_bytes (original : Option (List UInt8)) (value : List UInt8) :
    (TransactionMetadatum.bytes original value).Means :=
  ⟨.bytes value, by rw [TransactionMetadatum.meaning]⟩

theorem convertible_bytes (original : Option (List UInt8)) (value : List UInt8) :
    (TransactionMetadatum.bytes original value).Convertible :=
  ⟨.bytes value, by rw [TransactionMetadatum.toCore]⟩

theorem means_text (original : Option (List UInt8)) (value : String) :
    (TransactionMetadatum.text original value).Means :=
  ⟨.text value, by rw [TransactionMetadatum.meaning]⟩

theorem convertible_text (original : Option (List UInt8)) (value : String) :
    (TransactionMetadatum.text original value).Convertible :=
  ⟨.text value, by rw [TransactionMetadatum.toCore]⟩

theorem form_bigInteger {tag bytesRead : ℕ} {value : ℤ} (hpeeked : Peeked reader cbor .tag)
    (htag : peekTagCore reader = .ok (tag, bytesRead))
    (hknown : tag = unsignedBigNumTag ∨ tag = negativeBigNumTag) :
    MetadatumForm fromCbor cbor (.integer (some cbor) value) := by
  apply MetadatumForm.leaf (means_integer _ _) (convertible_integer _ _)
  intro anywhere h
  cases h with
  | @tag _ number head hhead hunsigned hnegative rest =>
    have hnumber := peekTagCore_eq hhead hpeeked.bytes htag
    rcases hknown with rfl | rfl
    · exact hunsigned ((roundToDouble_eq_iff (by decide)).mp hnumber.symm)
    · exact hnegative ((roundToDouble_eq_iff (by decide)).mp hnumber.symm)
  | element _ hframed _ _ rest =>
    cases hpeeked.begins _ ((@begins_framed _ _ _ _ .array (Or.inl rfl) hframed).append rest)
  | key _ hframed _ _ rest =>
    cases hpeeked.begins _ ((@begins_framed _ _ _ _ .map (Or.inr rfl) hframed).append rest)
  | value _ hframed _ _ _ rest =>
    cases hpeeked.begins _ ((@begins_framed _ _ _ _ .map (Or.inr rfl) hframed).append rest)

theorem form_tagged (hpeeked : Peeked reader cbor .tag)
    (hrun : readTagged cbor reader = .ok data reader') : MetadatumForm fromCbor cbor data := by
  obtain ⟨tag, middle, hpeekTag, hbranch⟩ := run_bind_eq_ok hrun
  obtain ⟨rfl, bytesRead, htag⟩ := peekTag_eq_ok hpeekTag
  split at hbranch
  · rename_i hunsigned
    obtain ⟨_, _, _, hbranch⟩ := run_bind_eq_ok hbranch
    obtain ⟨_, _, _, hbranch⟩ := run_bind_eq_ok hbranch
    cases hbranch
    exact form_bigInteger hpeeked htag (Or.inl hunsigned)
  · rename_i hunsigned
    split at hbranch
    · rename_i hnegative
      obtain ⟨_, _, _, hbranch⟩ := run_bind_eq_ok hbranch
      obtain ⟨_, _, _, hbranch⟩ := run_bind_eq_ok hbranch
      cases hbranch
      exact form_bigInteger hpeeked htag (Or.inr hnegative)
    · rename_i hnegative
      cases hbranch
      obtain ⟨number, head, rest, hhead, hbytes, _⟩ := peekTagCore_eq_ok htag
      have hnumber := peekTagCore_eq hhead hbytes htag
      apply MetadatumForm.foreign
      intro anywhere
      rw [← hpeeked.bytes, hbytes]
      apply ForeignTag.tag hhead
      · intro h
        exact hunsigned (hnumber.trans ((roundToDouble_eq_iff (by decide)).mpr h))
      · intro h
        exact hnegative (hnumber.trans ((roundToDouble_eq_iff (by decide)).mpr h))

theorem metadatumForm (h : metadatumWithin (fuel + 1) cbor = .ok data) :
    cbor.length < 2 ^ 53 ∧ MetadatumForm (metadatumWithin fuel) cbor data := by
  obtain ⟨hlength, state, reader, reader', hpeeked, hrun⟩ := decodeWith_peek_eq_ok h
  refine ⟨hlength, ?_⟩
  unfold readMetadatum at hrun
  split at hrun
  · exact form_tagged hpeeked hrun
  · obtain ⟨value, _, _, hpure⟩ := run_bind_eq_ok hrun
    cases hpure
    exact form_leaf hpeeked (by simp) (means_integer _ _) (convertible_integer _ _)
  · obtain ⟨value, _, _, hpure⟩ := run_bind_eq_ok hrun
    cases hpure
    exact form_leaf hpeeked (by simp) (means_integer _ _) (convertible_integer _ _)
  · obtain ⟨value, _, _, hpure⟩ := run_bind_eq_ok hrun
    cases hpure
    exact form_leaf hpeeked (by simp) (means_bytes _ _) (convertible_bytes _ _)
  · obtain ⟨value, _, _, hpure⟩ := run_bind_eq_ok hrun
    cases hpure
    exact form_leaf hpeeked (by simp) (means_bytes _ _) (convertible_bytes _ _)
  · obtain ⟨value, _, _, hpure⟩ := run_bind_eq_ok hrun
    cases hpure
    exact form_leaf hpeeked (by simp) (means_text _ _) (convertible_text _ _)
  · obtain ⟨value, _, _, hpure⟩ := run_bind_eq_ok hrun
    cases hpure
    exact form_leaf hpeeked (by simp) (means_text _ _) (convertible_text _ _)
  · -- an array is read to its end from the bytes of its item
    obtain ⟨⟨indefinite, items⟩, middle, hpart, hpure⟩ := run_bind_eq_ok hrun
    cases hpure
    obtain ⟨_, bytes, htaken, rfl, hitem, hlist⟩ := takes_part _ _ _ _ hpeeked.plain hpart
    obtain ⟨rest, hrest⟩ := htaken.bytes
    obtain ⟨_, fresh, final, hfresh, _, hrun⟩ := decodeWith_eq_ok hlist
    obtain ⟨⟨declared, items'⟩, left, hread, hpure⟩ := run_bind_eq_ok hrun
    cases hpure
    obtain ⟨elements, framed, hparts, hframed, hpassed⟩ := readParts_eq_ok hread
    obtain ⟨tail, htail⟩ := exists_append_of_fresh hfresh hpassed
    exact @MetadatumForm.list _ _ _ _ _ _ (tail ++ rest) hparts hframed (by
      rw [← hpeeked.bytes, hrest, htail, List.append_assoc])
  · obtain ⟨⟨indefinite, entries⟩, middle, hpart, hpure⟩ := run_bind_eq_ok hrun
    cases hpure
    obtain ⟨_, bytes, htaken, rfl, hitem, hmap⟩ := takes_part _ _ _ _ hpeeked.plain hpart
    obtain ⟨rest, hrest⟩ := htaken.bytes
    obtain ⟨_, fresh, final, hfresh, _, hrun⟩ := decodeWith_eq_ok hmap
    obtain ⟨⟨declared, entries'⟩, left, hread, hpure⟩ := run_bind_eq_ok hrun
    cases hpure
    obtain ⟨encoded, framed, hparts, hframed, hpassed⟩ := readEntries_eq_ok hread
    obtain ⟨tail, htail⟩ := exists_append_of_fresh hfresh hpassed
    exact @MetadatumForm.map _ _ _ _ _ _ (tail ++ rest) hparts hframed (by
      rw [← hpeeked.bytes, hrest, htail, List.append_assoc])
  · cases hrun

end Forms

section Pairs

variable {α β : Type} {R : α → β → Prop}

theorem forall₂_split {l : List α} {before after : List β} {b : β}
    (h : List.Forall₂ R l (before ++ b :: after)) :
    ∃ before' a after', l = before' ++ a :: after' ∧ List.Forall₂ R before' before ∧ R a b := by
  have hbefore := List.forall₂_take_append l before (b :: after) h
  have hrest := List.forall₂_drop_append l before (b :: after) h
  cases hdrop : l.drop before.length with
  | nil =>
    rw [hdrop] at hrest
    cases hrest
  | cons a after' =>
    rw [hdrop] at hrest
    cases hrest with
    | cons hab _ =>
      refine ⟨l.take before.length, a, after', ?_, hbefore, hab⟩
      rw [← hdrop, List.take_append_drop]

theorem forall_iff_not_exists {l : List α} {l' : List β} {P : β → Prop} {Q : α → Prop}
    (h : List.Forall₂ R l l') (hpair : ∀ a b, R a b → (P b ↔ ¬ Q a)) :
    (∀ b ∈ l', P b) ↔ ¬ ∃ a ∈ l, Q a := by
  induction h with
  | nil => simp
  | cons hab _ ih =>
    rw [List.forall_mem_cons, ih, hpair _ _ hab, List.exists_mem_cons_iff, not_or]

end Pairs

/-- The decoder that the keys of a map were decoded with tells which are equal. -/
theorem forall_unequal_iff {before : List (List UInt8 × List UInt8)}
    {decoded : List (TransactionMetadatum × TransactionMetadatum)}
    (h : List.Forall₂ (DecodesParts (metadatumWithin fuel)) before decoded)
    (hkey : metadatumWithin fuel bytes = .ok key) :
    (∀ earlier ∈ before, ¬ EqualKeys earlier.1 bytes) ↔
      ∀ earlier ∈ decoded, ¬ earlier.1.equals key = true := by
  induction h with
  | nil => simp
  | cons hentry _ ih =>
    rw [List.forall_mem_cons, List.forall_mem_cons, ih, equalKeys_iff hentry.1.decoded hkey]

theorem ForeignTag.anywhere {anywhere : Bool} (h : ForeignTag anywhere cbor) :
    ForeignTag true cbor := by
  induction h with
  | tag hhead hunsigned hnegative rest => exact ForeignTag.tag hhead hunsigned hnegative rest
  | element hitems hframed hmem _ rest ih => exact ForeignTag.element hitems hframed hmem ih rest
  | key hitems hframed hmem _ rest ih => exact ForeignTag.key hitems hframed hmem ih rest
  | value hitems hframed hencoded _ _ rest ih =>
    exact ForeignTag.value hitems hframed hencoded (fun h => by cases h) ih rest

theorem exists_value_anywhere :
    (∃ before entry after, encoded = before ++ entry :: after ∧
      (true = false → ∀ earlier ∈ before, ¬ EqualKeys earlier.1 entry.1) ∧
      ForeignTag true entry.2) ↔ ∃ entry ∈ encoded, ForeignTag true entry.2 := by
  constructor
  · rintro ⟨before, entry, after, rfl, _, htag⟩
    exact ⟨entry, List.mem_append_right _ List.mem_cons_self, htag⟩
  · rintro ⟨entry, hentry, htag⟩
    obtain ⟨before, after, rfl⟩ := List.append_of_mem hentry
    exact ⟨before, entry, after, rfl, (fun h => by cases h), htag⟩

/-- What an accepted metadatum holds decides whether it means something and
whether it is converted, by induction on the nesting it was decoded with. -/
theorem foreignTag_iff (h : metadatumWithin fuel cbor = .ok data) :
    (data.Means ↔ ¬ ForeignTag true cbor) ∧ (data.Convertible ↔ ¬ ForeignTag false cbor) := by
  induction fuel generalizing cbor data with
  | zero => cases h
  | succ fuel ih =>
    obtain ⟨hlength, hform⟩ := metadatumForm h
    cases hform with
    | leaf hmeans hconvertible hnone =>
      exact ⟨iff_of_true hmeans (hnone true), iff_of_true hconvertible (hnone false)⟩
    | foreign htag =>
      constructor
      · refine iff_of_false ?_ (not_not_intro (htag true))
        rintro ⟨core, hcore⟩
        cases hcore
      · refine iff_of_false ?_ (not_not_intro (htag false))
        rintro ⟨core, hcore⟩
        rw [TransactionMetadatum.toCore] at hcore
        cases hcore
    | @list elements items declared bytes rest hparts hframed hcbor =>
      subst hcbor
      have hitems := DecodesPart.dataItems hparts
      rw [TransactionMetadatum.means_list, TransactionMetadatum.convertible_list,
        foreignTag_array hitems hframed hlength, foreignTag_array hitems hframed hlength]
      constructor
      · exact forall_iff_not_exists hparts fun element item hpart => (ih hpart.decoded).1
      · exact forall_iff_not_exists hparts fun element item hpart => (ih hpart.decoded).2
    | @map encoded entries declared bytes rest hparts hframed hcbor =>
      subst hcbor
      have hitems := DecodesParts.dataItems hparts
      have hkeys := @forall_iff_not_exists _ _ _ _ _ (fun entry => entry.1.Means)
        (fun encoded => ForeignTag true encoded.1) hparts fun _ _ hpart => (ih hpart.1.decoded).1
      constructor
      · rw [TransactionMetadatum.means_map, foreignTag_map hitems hframed hlength, not_or, ← hkeys,
          exists_value_anywhere, ← @forall_iff_not_exists _ _ _ _ _ (fun entry => entry.2.Means)
            _ hparts fun _ _ hpart => (ih hpart.2.decoded).1]
        simp only [imp_and, forall_and]
      · have hconvertible : ∀ entry ∈ entries, entry.1.Means → entry.1.Convertible := by
          intro entry hentry hmeans
          obtain ⟨before, after, rfl⟩ := List.append_of_mem hentry
          obtain ⟨_, encodedEntry, _, _, _, hpart⟩ := forall₂_split hparts
          have hkey := ih hpart.1.decoded
          exact hkey.2.mpr fun htag => hkey.1.mp hmeans htag.anywhere
        rw [TransactionMetadatum.convertible_map_iff hconvertible,
          foreignTag_map hitems hframed hlength, not_or, ← hkeys]
        refine and_congr_right fun _ => ?_
        constructor
        · rintro hvalues ⟨before, entry, after, rfl, hfirst, htag⟩
          obtain ⟨before', entry', after', rfl, hbefore, hpart⟩ := forall₂_split hparts.flip
          have hunequal := (forall_unequal_iff hbefore.flip hpart.1.decoded).mp (hfirst rfl)
          have hvalue := hvalues before' entry'.1 entry'.2 after' rfl hunequal
          exact (ih hpart.2.decoded).2.mp hvalue htag
        · rintro hnone before key value after rfl hunequal
          obtain ⟨before', entry', after', rfl, hbefore, hpart⟩ := forall₂_split hparts
          apply (ih hpart.2.decoded).2.mpr
          intro htag
          refine hnone ⟨before', entry', after', rfl, fun _ => ?_, htag⟩
          exact (forall_unequal_iff hbefore hpart.1.decoded).mpr hunequal

/-- The auxiliary data of a core value come back grouped by language, and the
tagged map declares as many entries as it has. Accepted metadata are converted
exactly if the conversion gets to no foreign tag. -/
theorem auxiliaryData_codec (data : Cardano.AuxiliaryData) :
    (ValidAuxiliaryData data → auxiliaryDataCodec.RoundTrips GroupedByLanguage data) ∧
    (∀ object, ValidAuxiliaryData data → AuxiliaryData.fromCore data = .ok object →
      object.CountsEntries) ∧
    ∀ cbor metadatum, TransactionMetadatum.fromCbor cbor = .ok metadatum →
      ((∃ core, metadatum.toCore = .ok core) ↔ ¬ ForeignTag false cbor) :=
  ⟨auxiliaryData_roundTrips, fun _ hvalid hobject => countsEntries_fromCore hvalid hobject,
    fun _ _ h => (foreignTag_iff h).2⟩

def sampleAuxiliaryData : Cardano.AuxiliaryData where
  blob := some [(674, .map [(.text "msg", .list [.text "hello", .integer (-1)])])]
  scripts := some [.plutus ⟨[0x46, 0x01], .v2⟩, .native (.requireTimeAfter 5)]

theorem auxiliaryData_codec_sample :
    ValidAuxiliaryData sampleAuxiliaryData ∧
    auxiliaryDataCodec.RoundTrips GroupedByLanguage sampleAuxiliaryData ∧
    (∃ object, AuxiliaryData.fromCore sampleAuxiliaryData = .ok object ∧ object.CountsEntries) ∧
    ∃ data, TransactionMetadatum.fromCbor [0x20] = .ok data ∧
      ((∃ core, data.toCore = .ok core) ↔ ¬ ForeignTag false [0x20]) := by
  have hvalid : ValidAuxiliaryData sampleAuxiliaryData := by
    constructor
    · rintro blob ⟨⟩
      refine ⟨by simp, by simp, by simp, by simp, ?_⟩
      simp only [List.mem_singleton, forall_eq]
      simp only [Metadatum.Valid, AllMetadataValid, AllMetadatumEntriesValid]
      exact ⟨by decide, List.nodup_singleton _, by decide, ⟨by decide, by decide, by decide, trivial⟩,
        trivial⟩
    · decide
    · intro script hscript
      rcases List.mem_cons.mp hscript with rfl | hscript
      · exact @plutusScript_roundTrips ⟨[0x46, 0x01], .v2⟩ (by decide)
      · obtain rfl := List.mem_singleton.mp hscript
        apply nativeScript_roundTrips
        simp [NativeScript.Valid, SafeInteger]
  obtain ⟨object, _, _, hobject⟩ := auxiliaryData_survive hvalid
  have hcodec := auxiliaryData_codec sampleAuxiliaryData
  exact ⟨hvalid, hcodec.1 hvalid, ⟨object, hobject.made, hcodec.2.1 _ hvalid hobject.made⟩,
    _, rfl, hcodec.2.2 [0x20] _ rfl⟩

def taggedTime : List UInt8 := [0xc0, 0x20]

theorem not_convertible_taggedTime :
    ¬ ((∀ data, ValidAuxiliaryData data → auxiliaryDataCodec.RoundTrips GroupedByLanguage data) ∧
      (∀ data object, ValidAuxiliaryData data → AuxiliaryData.fromCore data = .ok object →
        object.CountsEntries) ∧
      ∀ cbor data, TransactionMetadatum.fromCbor cbor = .ok data →
        ∃ core, data.toCore = .ok core) := by
  rintro ⟨_, _, h⟩
  obtain ⟨core, hcore⟩ := h taggedTime (.new (some taggedTime)) rfl
  rw [TransactionMetadatum.toCore] at hcore
  cases hcore

end CardanoSdk.Serialization
