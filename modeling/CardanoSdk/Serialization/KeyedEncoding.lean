import CardanoSdk.Serialization.KeyedMap
import CardanoSdk.Serialization.Records

/-!
Encoders of maps whose keys are integers that stand for the fields of an object.
-/

namespace CardanoSdk.Serialization

open Lib Cbor Plutus

/-- One round of a loop whose `switch` has a default. -/
def KeyedFields.stepOr {σ : Type} (fields : KeyedFields σ) (other : ℤ → σ → DecodeM σ) (s : σ) :
    DecodeM σ := do
  let key ← reading readInt
  match fields.ofKey? key with
  | some field => do
      let value ← fields.read field
      pure (fields.set s field value)
  | none => other key s

section Encoding

variable {σ : Type} {fields : KeyedFields σ} {key : fields.Field → ℤ}
  {other : ℤ → σ → DecodeM σ} {write : (field : fields.Field) → fields.Value field → EncodeM Unit}
  {values values' : (field : fields.Field) → Option (fields.Value field)}

def setFields (values : (field : fields.Field) → Option (fields.Value field))
    (order : List fields.Field) : List fields.Field :=
  order.filter fun field => (values field).isSome

theorem length_of_keys {entries : List KeyedEntry} {order : List fields.Field}
    (h : entries.map KeyedEntry.key = (setFields values order).map key) :
    entries.length = order.countP fun field => (values field).isSome := by
  have hlength := congrArg List.length h
  rw [List.length_map, List.length_map] at hlength
  rw [hlength, List.countP_eq_length_filter]
  rfl

/-- Keys that fit in a head, and that the decoder takes for the fields they stand for. -/
structure KeyOf (fields : KeyedFields σ) (key : fields.Field → ℤ) : Prop where
  range : ∀ field, -(2 ^ 64) ≤ key field ∧ key field < 2 ^ 64
  known : ∀ field, fields.ofKey? (key field) = some field

/-- What is put in a field that has no value is found there, and nowhere else. -/
structure KeyedFields.Puts (fields : KeyedFields σ) : Prop where
  get_set_new : ∀ s field value, fields.get s field = none →
    fields.get (fields.set s field value) field = some value
  get_set_other : ∀ s field value other, other ≠ field →
    fields.get (fields.set s field value) other = fields.get s other

theorem KeyedFields.Lawful.puts (h : fields.Lawful) : fields.Puts where
  get_set_new s field value _ := h.get_set_self s field value
  get_set_other := h.get_set_other

/-- What is read from these entries into fields that have no values: the values
that were written. -/
def ReadsBack (fields : KeyedFields σ) (other : ℤ → σ → DecodeM σ) (order : List fields.Field)
    (values' : (field : fields.Field) → Option (fields.Value field))
    (entries : List KeyedEntry) : Prop :=
  ∀ s, (∀ field ∈ order, fields.get s field = none) →
    ∃ s', Rounds (fields.stepOr other) s (2 * entries.length) (entryItems entries).flatten s' ∧
      ∀ field, fields.get s' field = if field ∈ order then values' field else fields.get s field

theorem readsBack_nil : ReadsBack fields other [] values' [] := by
  intro s _
  refine ⟨s, Rounds.nil s, fun field => ?_⟩
  rw [if_neg List.not_mem_nil]

theorem ReadsBack.unset {field : fields.Field} {order : List fields.Field}
    {entries : List KeyedEntry} (h : ReadsBack fields other order values' entries)
    (hunset : values' field = none) : ReadsBack fields other (field :: order) values' entries := by
  intro s hempty
  rw [List.forall_mem_cons] at hempty
  obtain ⟨s', hrounds, hget⟩ := h s hempty.2
  refine ⟨s', hrounds, fun found => ?_⟩
  rw [hget]
  by_cases hfield : found = field
  · subst hfield
    rw [if_pos List.mem_cons_self, hunset, hempty.1]
    exact ite_self _
  · have hmem : found ∈ field :: order ↔ found ∈ order := by
      rw [List.mem_cons, or_iff_right hfield]
    simp only [hmem]

theorem ReadsBack.set (hputs : fields.Puts) (hkey : KeyOf fields key) {field : fields.Field}
    {order : List fields.Field} {entries : List KeyedEntry} {entry : KeyedEntry}
    {value : fields.Value field} (h : ReadsBack fields other order values' entries)
    (hfresh : field ∉ order) (hentry : entry.key = key field) (hset : values' field = some value)
    (hvalue : ReadsItem (fields.read field) entry.value value) :
    ReadsBack fields other (field :: order) values' (entry :: entries) := by
  intro s hempty
  rw [List.forall_mem_cons] at hempty
  have hround : ReadsRound (fields.stepOr other s) (1 + 1) (entry.head ++ entry.value)
      (fields.set s field value) := by
    refine readsRound entry.isKey.dataItem (readsItem_integerHead entry.isKey) ?_
    rw [hentry, hkey.known field]
    exact hvalue.last fun _ => rfl
  obtain ⟨s', hrounds, hget⟩ := h (fields.set s field value) fun found hmem => by
    rw [hputs.get_set_other s field value found (fun hsame => hfresh (hsame ▸ hmem))]
    exact hempty.2 found hmem
  refine ⟨s', ?_, fun found => ?_⟩
  · have hall := Rounds.cons hround hrounds
    rw [List.append_assoc] at hall
    rwa [List.length_cons, Nat.mul_succ, Nat.add_comm]
  · rw [hget]
    by_cases hfield : found = field
    · subst hfield
      rw [if_neg hfresh, if_pos List.mem_cons_self, hputs.get_set_new s found value hempty.1, hset]
    · have hmem : found ∈ field :: order ↔ found ∈ order := by
        rw [List.mem_cons, or_iff_right hfield]
      simp only [hmem, hputs.get_set_other s field value found hfield]

theorem exists_entries (hputs : fields.Puts) (hkey : KeyOf fields key)
    {encoded : fields.Field → Option (List UInt8)}
    (hvalues : ∀ field, Rewritten (write field) (fields.read field) (values field)
      (encoded field) (values' field))
    {order : List fields.Field} (hnodup : order.Nodup) :
    ∃ entries : List KeyedEntry,
      entries.map KeyedEntry.key = (setFields values order).map key ∧
      Encodes (order.forM fun field => writeField (key field) (values field) (write field))
        (entryItems entries).flatten ∧
      ((entryItems entries).flatten.length < 2 ^ 53 →
        ReadsBack fields other order values' entries) := by
  induction order with
  | nil => exact ⟨[], rfl, Encodes.pure, fun _ => readsBack_nil⟩
  | cons field order ih =>
    obtain ⟨hfresh, hnodup⟩ := List.nodup_cons.mp hnodup
    obtain ⟨entries, hkeys, hencodes, hreads⟩ := ih hnodup
    have hwritten := (hvalues field).encodes (key field) (hkey.range field)
    have hall : Encodes ((field :: order).forM fun field =>
        writeField (key field) (values field) (write field))
        (fieldBytes (key field) (encoded field) ++ (entryItems entries).flatten) :=
      hwritten.bind hencodes
    cases hvalue : values field with
    | none =>
      obtain ⟨hencoded, hunset⟩ : encoded field = none ∧ values' field = none := by
        have hrewritten := hvalues field
        rw [hvalue] at hrewritten
        generalize encoded field = written at hrewritten ⊢
        generalize values' field = reread at hrewritten ⊢
        cases hrewritten with
        | none => exact ⟨rfl, rfl⟩
      rw [hencoded] at hall
      have hkept : setFields values (field :: order) = setFields values order :=
        List.filter_cons_of_neg (by simp [hvalue])
      exact ⟨entries, by rw [hkept, hkeys], hall, fun hlength => (hreads hlength).unset hunset⟩
    | some value =>
      have hrewritten := hvalues field
      rw [hvalue] at hrewritten
      obtain ⟨bytes, reread, hencoded, hset, -, hitem, hreread⟩ := hrewritten.exists_some
      have hhead := integerHead_encodeInt (hkey.range field).1 (hkey.range field).2
      rw [hencoded] at hall
      have hkept : setFields values (field :: order) = field :: setFields values order :=
        List.filter_cons_of_pos (by simp [hvalue])
      refine ⟨⟨key field, encodeInt (key field), bytes, hhead, hitem⟩ :: entries, ?_, ?_, ?_⟩
      · rw [hkept, List.map_cons, List.map_cons, hkeys]
      · change Encodes _ (encodeInt (key field) ++ (bytes ++ (entryItems entries).flatten))
        rw [← List.append_assoc]
        exact hall
      · intro hlength
        change (encodeInt (key field) ++ (bytes ++ (entryItems entries).flatten)).length <
          2 ^ 53 at hlength
        rw [List.length_append, List.length_append] at hlength
        exact (hreads (by omega)).set hputs hkey hfresh rfl hset (hreread (by omega))

theorem exists_keyedMap (hputs : fields.Puts) (hkey : KeyOf fields key)
    {encoded : fields.Field → Option (List UInt8)}
    (hvalues : ∀ field, Rewritten (write field) (fields.read field) (values field)
      (encoded field) (values' field))
    {order : List fields.Field} (hnodup : order.Nodup) (hfew : order.length < 2 ^ 64) :
    ∃ (entries : List KeyedEntry) (cbor : List UInt8),
      cbor = encodeHead .map entries.length ++ (entryItems entries).flatten ∧
      entries.map KeyedEntry.key = (setFields values order).map key ∧
      Encodes (writing (writeStartMap (some (order.countP fun field => (values field).isSome))) >>=
        fun _ => order.forM fun field => writeField (key field) (values field) (write field)) cbor ∧
      DataItem cbor ∧
      (∀ field ∈ order, ∀ bytes, encoded field = some bytes → bytes.length ≤ cbor.length) ∧
      (cbor.length < 2 ^ 53 → ∀ s, (∀ field ∈ order, fields.get s field = none) →
        ∃ s', ReadsItem (readFields (fields.stepOr other) (cbor.length + 1) s) cbor s' ∧
          ∀ field, fields.get s' field =
            if field ∈ order then values' field else fields.get s field) := by
  obtain ⟨entries, hkeys, hencodes, hreads⟩ :=
    @exists_entries _ _ _ other _ _ _ hputs hkey _ hvalues order hnodup
  have hcount := length_of_keys hkeys
  have hle := @List.countP_le_length _ (fun field => (values field).isSome) order
  have hitems := items_of_wellFormed (dataItems_entryItems entries)
  rw [length_entryItems] at hitems
  have hall : Encodes (order.forM fun field => writeField (key field) (values field) (write field))
      (order.flatMap fun field => fieldBytes (key field) (encoded field)) :=
    Encodes.forM fun field _ => (hvalues field).encodes (key field) (hkey.range field)
  have hbytes := hencodes.unique hall
  refine ⟨entries, _, rfl, hkeys, ?_, ?_, ?_, fun hlength s hempty => ?_⟩
  · rw [← hcount]
    exact Encodes.write (writes_startMap (by omega)) hencodes
  · exact DataItem.map (head_encodeHead .map (by omega)) hitems
  · intro field hmem bytes hencoded
    have hpart := @length_le_flatMap _ _ (fun field => fieldBytes (key field) (encoded field)) _ _ hmem
    rw [hencoded, fieldBytes, List.length_append, ← hbytes] at hpart
    rw [List.length_append]
    omega
  · rw [List.length_append] at hlength
    obtain ⟨s', hrounds, hget⟩ := hreads (by omega) s hempty
    refine ⟨s', readsItem_fields hrounds hitems.le_length ?_, hget⟩
    rw [List.length_append]
    omega

end Encoding

end CardanoSdk.Serialization
