import CardanoSdk.Serialization.Nullables

/-!
Maps that are written in an order of their own and read entry by entry.
-/

namespace CardanoSdk.Serialization

open Lib Cbor Plutus

variable {κ μ ν ε σ : Type}

/-- Rounds for a loop inside an object: no typed array has as many bytes. -/
def maxRounds : ℕ := 2 ^ 53

/-- The entries of a map in the order of `[...map].sort(compare)`. -/
def writeSorted (compare : List UInt8 × ν → List UInt8 × ν → ℤ)
    (writeEntry : List UInt8 × ν → EncodeM Unit) (map : JsMap (List UInt8) ν) : EncodeM Unit := do
  let sortedCanonically := sortBy compare map.entries
  writing (writeStartMap (some sortedCanonically.length))
  sortedCanonically.forM writeEntry

def readEntry (readKey : DecodeM κ) (readValue : DecodeM μ) (insert : σ → κ × μ → σ) (s : σ) :
    DecodeM σ := do
  let key ← readKey
  let value ← readValue
  pure (insert s (key, value))

section Kept

variable {readKey : DecodeM κ} {readValue : DecodeM μ} {insert : σ → κ × μ → σ}

/-- A key and a value are written, and from those that fit an entry of this kind is read. -/
def KeptEntry (write : EncodeM Unit) (readKey : DecodeM κ) (readValue : DecodeM μ)
    (holds : κ × μ → Prop) : Prop :=
  ∃ keyBytes valueBytes entry, Encodes write (keyBytes ++ valueBytes) ∧ DataItem keyBytes ∧
    DataItem valueBytes ∧ ((keyBytes ++ valueBytes).length < 2 ^ 53 →
      ReadsItem readKey keyBytes entry.1 ∧ Reads readValue 1 valueBytes entry.2 ∧ holds entry)

theorem dataItem_of_items {bytes : List UInt8} (h : Items 1 bytes) : DataItem bytes := by
  cases h with
  | cons hitem hrest =>
    cases hrest
    rwa [List.append_nil]

theorem KeptItem.entry {write : EncodeM Unit} {others : Unit → EncodeM Unit} {isKey : κ → Prop}
    {isValue : μ → Prop} (hkey : KeptItem write readKey isKey)
    (hvalue : KeptItems (others ()) readValue 1 isValue) :
    KeptEntry (write >>= others) readKey readValue fun entry => isKey entry.1 ∧ isValue entry.2 := by
  obtain ⟨keyBytes, key, hencodes, hitem, hread⟩ := hkey
  obtain ⟨valueBytes, value, hencodes', hitems, hread'⟩ := hvalue
  refine ⟨keyBytes, valueBytes, (key, value), hencodes.bind hencodes', hitem,
    dataItem_of_items hitems, fun hlength => ?_⟩
  rw [List.length_append] at hlength
  obtain ⟨hreads, hisKey⟩ := hread (by omega)
  obtain ⟨hreads', hisValue⟩ := hread' (by omega)
  exact ⟨hreads, hreads', hisKey, hisValue⟩

theorem kept_entries {entries : List ε} {writeEntry : ε → EncodeM Unit} {holds : ε → κ × μ → Prop}
    (h : ∀ entry ∈ entries, KeptEntry (writeEntry entry) readKey readValue (holds entry)) :
    ∃ content read, Encodes (entries.forM writeEntry) content ∧
      Items (2 * entries.length) content ∧ (content.length < 2 ^ 53 →
        List.Forall₂ holds entries read ∧ ∀ s : σ, Rounds (readEntry readKey readValue insert) s
          (2 * entries.length) content (read.foldl insert s)) := by
  induction entries with
  | nil => exact ⟨[], [], Encodes.pure, Items.nil, fun _ => ⟨List.Forall₂.nil, Rounds.nil⟩⟩
  | cons entry entries ih =>
    rw [List.forall_mem_cons] at h
    obtain ⟨keyBytes, valueBytes, first, hencodes, hkey, hvalue, hread⟩ := h.1
    obtain ⟨content, rest, hencodes', hitems, hrest⟩ := ih h.2
    refine ⟨keyBytes ++ valueBytes ++ content, first :: rest, hencodes.bind hencodes', ?_,
      fun hlength => ?_⟩
    · rw [List.append_assoc]
      exact Items.cons hkey (Items.cons hvalue hitems)
    · rw [List.length_append] at hlength
      obtain ⟨hreadKey, hreadValue, hfirst⟩ := hread (by omega)
      obtain ⟨hall, hrounds⟩ := hrest (by omega)
      refine ⟨List.Forall₂.cons hfirst hall, fun s => ?_⟩
      have hround : ReadsRound (readEntry readKey readValue insert s) (1 + 1)
          (keyBytes ++ valueBytes) (insert s first) :=
        readsRound hkey hreadKey (hreadValue.map fun _ => rfl)
      rw [List.length_cons, Nat.mul_succ, Nat.add_comm]
      exact Rounds.cons hround (hrounds (insert s first))

theorem keptItem_map {entries : List ε} {writeEntry : ε → EncodeM Unit} {holds : ε → κ × μ → Prop}
    (hcount : entries.length < 2 ^ 64)
    (h : ∀ entry ∈ entries, KeptEntry (writeEntry entry) readKey readValue (holds entry)) (s : σ) :
    KeptItem (writing (writeStartMap (some entries.length)) >>= fun _ => entries.forM writeEntry)
      (readFields (readEntry readKey readValue insert) maxRounds s) fun result =>
        ∃ read, List.Forall₂ holds entries read ∧ result = read.foldl insert s := by
  obtain ⟨content, read, hencodes, hitems, hread⟩ := @kept_entries _ _ _ _ _ _ insert _ _ _ h
  refine ⟨encodeHead .map entries.length ++ content, read.foldl insert s,
    Encodes.write (writes_startMap hcount) hencodes,
    DataItem.map (head_encodeHead .map hcount) hitems, fun hlength => ?_⟩
  rw [List.length_append] at hlength
  obtain ⟨hall, hrounds⟩ := hread (by omega)
  refine ⟨readsItem_fields (hrounds s) hitems.le_length ?_, read, hall, rfl⟩
  rw [maxRounds]
  omega

theorem keptItem_sorted {compare : List UInt8 × ν → List UInt8 × ν → ℤ}
    {writeEntry : List UInt8 × ν → EncodeM Unit} {map : JsMap (List UInt8) ν}
    {holds : List UInt8 × ν → κ × μ → Prop} (hcount : map.entries.length < 2 ^ 64)
    (h : ∀ entry ∈ map.entries, KeptEntry (writeEntry entry) readKey readValue (holds entry)) (s : σ) :
    KeptItem (writeSorted compare writeEntry map)
      (readFields (readEntry readKey readValue insert) maxRounds s) fun result =>
        ∃ sorted read, sorted.Perm map.entries ∧ List.Forall₂ holds sorted read ∧
          result = read.foldl insert s := by
  have hperm := perm_sortBy compare map.entries
  have hmap := @keptItem_map _ _ _ _ readKey readValue insert (sortBy compare map.entries) writeEntry
    holds (by rwa [hperm.length_eq]) (fun entry hmem => h entry (hperm.mem_iff.mp hmem)) s
  refine hmap.mono ?_
  rintro result ⟨read, hall, hresult⟩
  exact ⟨_, read, hperm, hall, hresult⟩

end Kept

section Encoded

variable {readKey : DecodeM κ} {readValue : DecodeM μ} {insert : σ → κ × μ → σ}
  {encodeKey : κ → Except EncodeException (List UInt8)} {writeKey : List UInt8 → EncodeM Unit}
  {writeValue : ν → EncodeM Unit} {isKey : κ → Prop}

def withKeyBytes (encodeKey : κ → Except EncodeException (List UInt8)) (entries : List (κ × ν)) :
    Except EncodeException (List (List UInt8 × ν)) :=
  entries.mapM fun entry => do
    let bytes ← encodeKey entry.1
    return (bytes, entry.2)

/-- Keys whose bytes tell them apart, and that are read from these. -/
structure KeyBytes (encodeKey : κ → Except EncodeException (List UInt8))
    (writeKey : List UInt8 → EncodeM Unit) (readKey : DecodeM κ) (isKey : κ → Prop) : Prop where
  kept : ∀ key, isKey key → ∃ bytes, encodeKey key = .ok bytes ∧
    KeptItem (writeKey bytes) readKey (· = key)
  unique : ∀ key key' bytes, isKey key → isKey key' → encodeKey key = .ok bytes →
    encodeKey key' = .ok bytes → key = key'

def IsEncoded (encodeKey : κ → Except EncodeException (List UInt8)) (isKey : κ → Prop)
    (bytes : List UInt8) (key : κ) : Prop :=
  isKey key ∧ encodeKey key = .ok bytes

def EncodedEntry (encodeKey : κ → Except EncodeException (List UInt8)) (isKey : κ → Prop)
    (encoded : List UInt8 × ν) (entry : κ × ν) : Prop :=
  IsEncoded encodeKey isKey encoded.1 entry.1 ∧ encoded.2 = entry.2

theorem KeyBytes.biUnique (h : KeyBytes encodeKey writeKey readKey isKey) :
    Relator.BiUnique (IsEncoded encodeKey isKey) := by
  constructor
  · rintro bytes key bytes' ⟨-, hbytes⟩ ⟨-, hbytes'⟩
    exact Except.ok.inj (hbytes.symm.trans hbytes')
  · rintro bytes key key' ⟨hkey, hbytes⟩ ⟨hkey', hbytes'⟩
    exact h.unique key key' bytes hkey hkey' hbytes hbytes'

theorem KeyBytes.withKeyBytes_ok (h : KeyBytes encodeKey writeKey readKey isKey)
    {entries : List (κ × ν)} (hkeys : ∀ entry ∈ entries, isKey entry.1)
    (hnodup : (entries.map Prod.fst).Nodup) :
    ∃ encoded, withKeyBytes encodeKey entries = .ok encoded ∧
      List.Forall₂ (flip (EncodedEntry encodeKey isKey)) entries encoded ∧
      (JsMap.ofList encoded).entries = encoded := by
  obtain ⟨encoded, hencoded, hall⟩ := @mapM_ok_forall₂ EncodeException _ _
    (flip (EncodedEntry encodeKey isKey))
    (fun entry => do
      let bytes ← encodeKey entry.1
      return (bytes, entry.2)) entries fun entry hmem => by
        obtain ⟨bytes, hbytes, -⟩ := h.kept entry.1 (hkeys entry hmem)
        exact ⟨(bytes, entry.2), bind_of_ok hbytes, ⟨hkeys entry hmem, hbytes⟩, rfl⟩
  refine ⟨encoded, hencoded, hall, JsMap.entries_ofList_of_nodup ?_⟩
  have hkeyBytes : List.Forall₂ (IsEncoded encodeKey isKey) (encoded.map Prod.fst)
      (entries.map Prod.fst) := by
    rw [List.forall₂_map_left_iff, List.forall₂_map_right_iff]
    exact hall.flip.imp fun _ _ hentry => hentry.1
  exact (List.rel_nodup h.biUnique hkeyBytes).mpr hnodup

theorem forall₂_join {α β γ : Type} {r : α → β → Prop} {s : α → γ → Prop} {t : β → γ → Prop}
    {as : List α} {bs : List β} {cs : List γ} (h : List.Forall₂ r as bs)
    (h' : List.Forall₂ s as cs) (hjoin : ∀ a b c, r a b → s a c → t b c) :
    List.Forall₂ t bs cs := by
  induction h generalizing cs with
  | nil =>
    cases h'
    exact List.Forall₂.nil
  | cons hhead _ ih =>
    cases h' with
    | cons hhead' htail' => exact List.Forall₂.cons (hjoin _ _ _ hhead hhead') (ih htail')

theorem KeyBytes.keptItem (h : KeyBytes encodeKey writeKey readKey isKey)
    {compare : List UInt8 × ν → List UInt8 × ν → ℤ} {kind : κ × ν → μ → Prop}
    {entries : List (κ × ν)} (hkeys : ∀ entry ∈ entries, isKey entry.1)
    (hnodup : (entries.map Prod.fst).Nodup) (hcount : entries.length < 2 ^ 64)
    (hvalue : ∀ entry ∈ entries, KeptItems (writeValue entry.2) readValue 1 (kind entry))
    (s : σ) :
    ∃ encoded, withKeyBytes encodeKey entries = .ok encoded ∧
      KeptItem (writeSorted compare (fun entry => do
          writeKey entry.1
          writeValue entry.2) (JsMap.ofList encoded))
        (readFields (readEntry readKey readValue insert) maxRounds s) fun result =>
          ∃ sorted read, sorted.Perm entries ∧
            List.Forall₂ (fun entry read => read.1 = entry.1 ∧ kind entry read.2) sorted read ∧
            result = read.foldl insert s := by
  obtain ⟨encoded, hencoded, hall, hentries⟩ := h.withKeyBytes_ok hkeys hnodup
  refine ⟨encoded, hencoded, ?_⟩
  have hsorted := @keptItem_sorted _ _ _ _ readKey readValue insert compare
    (fun entry => do
      writeKey entry.1
      writeValue entry.2) (JsMap.ofList encoded)
    (fun encoded read => ∃ entry, EncodedEntry encodeKey isKey encoded entry ∧
      read.1 = entry.1 ∧ kind entry read.2) (by rwa [hentries, ← hall.length_eq])
    (fun encoded hmem => ?_) s
  · refine hsorted.mono ?_
    rintro result ⟨order, read, hperm, hread, hresult⟩
    rw [hentries] at hperm
    obtain ⟨sorted, hsorted, hsortedPerm⟩ := List.perm_comp_forall₂ hperm hall.flip
    refine ⟨sorted, read, hsortedPerm, forall₂_join hsorted hread ?_, hresult⟩
    rintro encoded entry found ⟨⟨hkey, hbytes⟩, hvalue⟩ ⟨entry', ⟨⟨hkey', hbytes'⟩, hvalue'⟩, hfound, hkind⟩
    obtain rfl : entry = entry' :=
      Prod.ext (h.unique _ _ encoded.1 hkey hkey' hbytes hbytes') (hvalue.symm.trans hvalue')
    exact ⟨hfound, hkind⟩
  · rw [hentries] at hmem
    obtain ⟨entry, hentry, ⟨hkey, hbytes⟩, hsame⟩ := exists_of_forall₂_right hall hmem
    obtain ⟨bytes, hbytes', hkept⟩ := h.kept entry.1 hkey
    cases hbytes.symm.trans hbytes'
    have hvalueKept := hvalue entry hentry
    rw [← hsame] at hvalueKept
    have hboth : KeptEntry (writeKey encoded.1 >>= fun _ => writeValue encoded.2) readKey readValue
        fun read => read.1 = entry.1 ∧ kind entry read.2 := hkept.entry hvalueKept
    obtain ⟨keyBytes, valueBytes, read, hencodes, hkeyItem, hvalueItem, hread⟩ := hboth
    refine ⟨keyBytes, valueBytes, read, hencodes, hkeyItem, hvalueItem, fun hlength => ?_⟩
    obtain ⟨hreadKey, hreadValue, hfound, hkind⟩ := hread hlength
    exact ⟨hreadKey, hreadValue, entry, ⟨⟨hkey, hbytes⟩, hsame⟩, hfound, hkind⟩

end Encoded

section Taken

variable {readKey : DecodeM κ} {readValue : DecodeM μ} {insert : σ → κ × μ → σ}

def EmptyMap (bytes : List UInt8) : Prop := ∃ declared, Framed 5 0 [] declared bytes

theorem Takes.ne_nil {action : DecodeM μ} {makes : ℕ → List UInt8 → μ → Prop}
    (h : Takes action makes) : Takes action fun _ bytes _ => bytes ≠ [] := by
  intro reader value reader' hplain hrun
  obtain ⟨count, bytes, htaken, -⟩ := h _ _ _ hplain hrun
  refine ⟨count, bytes, htaken, ?_⟩
  rintro rfl
  have hpos := htaken.pos
  have hle := htaken.items.le_length
  rw [List.length_nil] at hle
  omega

theorem takes_entry (hkey : Takes readKey (OneItem fun bytes _ => DataItem bytes))
    (hvalue : Takes readValue (OneItem fun bytes _ => DataItem bytes)) (s : σ) :
    Takes (readEntry readKey readValue insert s) fun _ bytes _ => bytes ≠ [] := by
  have hinsert (key : κ) := @Takes.map _ _ readValue (fun value => pure (insert s (key, value))) _
    (fun value s' => s' = insert s (key, value)) hvalue
    (fun value reader s' reader' hrun => by cases hrun; exact ⟨rfl, rfl⟩)
  exact Takes.ne_nil (Takes.bind hkey hinsert)

theorem Chain.eq_of_nil {makes : σ → ℕ → List UInt8 → σ → Prop} {s s' : σ} {count : ℕ}
    {content : List UInt8} (h : Chain makes s count content s')
    (hne : ∀ s count bytes s', makes s count bytes s' → bytes ≠ []) (hnil : content = []) :
    s' = s := by
  cases h with
  | nil => rfl
  | cons hstep _ => exact absurd (List.append_eq_nil_iff.mp hnil).1 (hne _ _ _ _ hstep)

theorem takes_fields {step : σ → DecodeM σ} (hstep : ∀ s, Takes (step s) fun _ bytes _ => bytes ≠ [])
    (rounds : ℕ) (s : σ) : Takes (readFields step rounds s)
      (OneItem fun bytes s' => DataItem bytes ∧ (EmptyMap bytes → s' = s)) := by
  intro reader s' reader' _ hrun
  rw [readFields_eq] at hrun
  obtain ⟨⟨declared, result⟩, middle, hread, hpure⟩ := run_bind_eq_ok hrun
  cases hpure
  obtain ⟨count, content, bytes, hframed, hchain, hitems, hpassed⟩ := readMap_eq_ok hstep hread
  have hitem := hframed.map hitems
  refine ⟨1, bytes, taken_item hitem hpassed, rfl, hitem, ?_⟩
  rintro ⟨declared', hempty⟩
  exact hchain.eq_of_nil (fun _ _ _ _ h => h) (hempty.content_eq (by omega) hframed).symm

theorem takes_map (hkey : Takes readKey (OneItem fun bytes _ => DataItem bytes))
    (hvalue : Takes readValue (OneItem fun bytes _ => DataItem bytes)) (rounds : ℕ) (s : σ) :
    Takes (readFields (readEntry readKey readValue insert) rounds s)
      (OneItem fun bytes s' => DataItem bytes ∧ (EmptyMap bytes → s' = s)) :=
  takes_fields (takes_entry hkey hvalue) rounds s

end Taken

end CardanoSdk.Serialization
