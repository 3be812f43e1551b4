import CardanoSdk.Serialization.Framing

/-!
Decoders of maps whose keys are integers that stand for the fields of an object. Under a
key that stands for no field nothing is read.
-/

namespace CardanoSdk.Serialization

open Lib Cbor Plutus

/-- The fields that a decoder knows: their keys, how their values are read, and
where these are put and found again. -/
structure KeyedFields (σ : Type) where
  Field : Type
  [decidableEq : DecidableEq Field]
  Value : Field → Type
  ofKey? : ℤ → Option Field
  read : (field : Field) → DecodeM (Value field)
  set : σ → (field : Field) → Value field → σ
  get : σ → (field : Field) → Option (Value field)

attribute [instance] KeyedFields.decidableEq

/-- One round of the loop: a `switch` over the key that has no default. -/
def KeyedFields.step {σ : Type} (fields : KeyedFields σ) (s : σ) : DecodeM σ := do
  let key ← reading readInt
  match fields.ofKey? key with
  | some field => do
      let value ← fields.read field
      pure (fields.set s field value)
  | none => pure s

structure KeyedEntry where
  key : ℤ
  head : List UInt8
  value : List UInt8
  isKey : IntegerHead head key
  isItem : DataItem value

def entryItems (entries : List KeyedEntry) : List (List UInt8) :=
  entries.flatMap fun entry => [entry.head, entry.value]

theorem length_entryItems (entries : List KeyedEntry) :
    (entryItems entries).length = 2 * entries.length := by
  induction entries with
  | nil => rfl
  | cons entry entries ih =>
    rw [List.length_cons, Nat.mul_succ, ← ih]
    rfl

theorem dataItems_entryItems (entries : List KeyedEntry) :
    ∀ item ∈ entryItems entries, DataItem item := by
  intro item h
  obtain ⟨entry, _, hmem⟩ := List.mem_flatMap.mp h
  simp only [List.mem_cons, List.not_mem_nil, or_false] at hmem
  rcases hmem with rfl | rfl
  · exact entry.isKey.dataItem
  · exact entry.isItem

def IsKeyedMap (entries : List KeyedEntry) (bytes : List UInt8) : Prop :=
  ∃ declared, Framed 5 entries.length (entryItems entries).flatten declared bytes

theorem key_unique {head : List UInt8} {key key' : ℤ} (h : IntegerHead head key)
    (h' : IntegerHead head key') (hlength : head.length < 2 ^ 53) : key = key' := by
  have hread := (readsItem_integerHead h).decodeWith hlength
  rw [(readsItem_integerHead h').decodeWith hlength] at hread
  exact (Except.ok.inj hread).symm

section Loop

variable {σ : Type} (fields : KeyedFields σ)

/-- The loop takes items one by one: a key, and behind a key that it knows a
value. These are the keys that it takes on the way from one state to another. -/
inductive Dispatched : σ → List (List UInt8) → List ℤ → σ → Prop
  | nil (s : σ) : Dispatched s [] [] s
  | known {s s' : σ} {head item : List UInt8} {items : List (List UInt8)} {key : ℤ} {keys : List ℤ}
      {field : fields.Field} {value : fields.Value field} (hkey : IntegerHead head key)
      (hfield : fields.ofKey? key = some field) (hvalue : ReadsItem (fields.read field) item value)
      (hrest : Dispatched (fields.set s field value) items keys s') :
      Dispatched s (head :: item :: items) (key :: keys) s'
  | unknown {s s' : σ} {head : List UInt8} {items : List (List UInt8)} {key : ℤ} {keys : List ℤ}
      (hkey : IntegerHead head key) (hfield : fields.ofKey? key = none)
      (hrest : Dispatched s items keys s') : Dispatched s (head :: items) (key :: keys) s'

/-- Reading takes one item, and what was put in a field is found there. -/
structure KeyedFields.Lawful : Prop where
  takes : ∀ field, TakesItem (fields.read field)
  get_set_self : ∀ s field value, fields.get (fields.set s field value) field = some value
  get_set_other : ∀ s field value other, other ≠ field →
    fields.get (fields.set s field value) other = fields.get s other

variable {fields}

theorem takes_step (hlawful : fields.Lawful) (s : σ) :
    Takes (fields.step s) fun count bytes s' => ∃ head key, IntegerHead head key ∧
      ((∃ item field value, fields.ofKey? key = some field ∧ DataItem item ∧
          ReadsItem (fields.read field) item value ∧ count = 2 ∧ bytes = head ++ item ∧
          s' = fields.set s field value) ∨
        (fields.ofKey? key = none ∧ count = 1 ∧ bytes = head ∧ s' = s)) := by
  intro reader s' reader' hplain hrun
  obtain ⟨key, middle, hkey, hrun⟩ := run_bind_eq_ok hrun
  obtain ⟨_, head, htaken, rfl, hhead⟩ := takes_int _ _ _ hplain hkey
  cases hfield : fields.ofKey? key with
  | none =>
    rw [hfield] at hrun
    cases hrun
    exact ⟨1, head, htaken, head, key, hhead, Or.inr ⟨hfield, rfl, rfl, rfl⟩⟩
  | some field =>
    rw [hfield] at hrun
    obtain ⟨value, last, hvalue, hset⟩ := run_bind_eq_ok hrun
    cases hset
    obtain ⟨_, item, htaken', rfl, hitem, hread⟩ :=
      hlawful.takes field _ _ _ (htaken.plain hplain) hvalue
    exact ⟨2, head ++ item, htaken.trans htaken', head, key, hhead,
      Or.inl ⟨item, field, value, hfield, hitem, hread, rfl, rfl, rfl⟩⟩

variable {s s' : σ} {keys : List ℤ} {entries : List KeyedEntry} {items : List (List UInt8)}

theorem dispatched_of_chain {count : ℕ} {content : List UInt8}
    (h : Chain (fun s count bytes s' => ∃ head key, IntegerHead head key ∧
      ((∃ item field value, fields.ofKey? key = some field ∧ DataItem item ∧
          ReadsItem (fields.read field) item value ∧ count = 2 ∧ bytes = head ++ item ∧
          s' = fields.set s field value) ∨
        (fields.ofKey? key = none ∧ count = 1 ∧ bytes = head ∧ s' = s))) s count content s') :
    ∃ items keys, (∀ item ∈ items, DataItem item) ∧ items.flatten = content ∧
      Dispatched fields s items keys s' := by
  induction h with
  | nil s => exact ⟨[], [], by simp, rfl, Dispatched.nil s⟩
  | cons hstep _ ih =>
    obtain ⟨items, keys, hitems, rfl, hrest⟩ := ih
    obtain ⟨head, key, hkey, ⟨item, field, value, hfield, hitem, hvalue, rfl, rfl, rfl⟩ |
      ⟨hfield, rfl, rfl, rfl⟩⟩ := hstep
    · refine ⟨head :: item :: items, key :: keys, ?_, by simp,
        Dispatched.known hkey hfield hvalue hrest⟩
      exact List.forall_mem_cons.mpr ⟨hkey.dataItem, List.forall_mem_cons.mpr ⟨hitem, hitems⟩⟩
    · exact ⟨_ :: items, key :: keys, List.forall_mem_cons.mpr ⟨hkey.dataItem, hitems⟩, rfl,
        Dispatched.unknown hkey hfield hrest⟩

theorem Dispatched.rounds (h : Dispatched fields s items keys s') :
    Rounds fields.step s items.length items.flatten s' := by
  induction h with
  | nil s => exact Rounds.nil s
  | @known s s' head item items key keys field value hkey hfield hvalue hrest ih =>
    have hround : ReadsRound (fields.step s) (1 + 1) (head ++ item) (fields.set s field value) := by
      refine readsRound hkey.dataItem (readsItem_integerHead hkey) ?_
      rw [hfield]
      exact hvalue.last fun _ => rfl
    have hrounds := Rounds.cons hround ih
    rw [List.append_assoc] at hrounds
    rwa [List.length_cons, List.length_cons, List.flatten_cons, List.flatten_cons,
      show items.length + 1 + 1 = 1 + 1 + items.length by omega]
  | @unknown s s' head items key keys hkey hfield hrest ih =>
    have hround : ReadsRound (fields.step s) (1 + 0) (head ++ []) s := by
      refine readsRound hkey.dataItem (readsItem_integerHead hkey) ?_
      rw [hfield]
      exact Reads.pure s
    have hrounds := Rounds.cons hround ih
    rwa [List.append_nil, Nat.add_zero, Nat.add_comm] at hrounds

theorem readsItem_keyedMap {bytes : List UInt8} {rounds : ℕ} (hmap : IsKeyedMap entries bytes)
    (henough : bytes.length < rounds) (h : Dispatched fields s (entryItems entries) keys s') :
    ReadsItem (readFields fields.step rounds s) bytes s' := by
  obtain ⟨declared, hframed⟩ := hmap
  have hcontent := hframed.content_lt
  have hcount := length_le_flatten (dataItems_entryItems entries)
  have hrounds := h.rounds
  rw [length_entryItems] at hrounds hcount
  rw [readFields_eq]
  exact (readsItem_map hframed hrounds hcount (by omega)).map fun _ => rfl

theorem chain_of_readFields {makes : σ → ℕ → List UInt8 → σ → Prop} {step : σ → DecodeM σ}
    (hstep : ∀ s, Takes (step s) (makes s)) {bytes rest : List UInt8} {rounds : ℕ}
    {reader reader' : CborReader} (hmap : IsKeyedMap entries bytes)
    (hbytes : reader.getRemainingBytes = bytes ++ rest)
    (hrun : readFields step rounds s reader = .ok s' reader') :
    (∃ count, Chain makes s count (entryItems entries).flatten s') ∧
      (entryItems entries).flatten.length < 2 ^ 53 := by
  rw [readFields_eq] at hrun
  obtain ⟨⟨declared, result⟩, middle, hread, hpure⟩ := run_bind_eq_ok hrun
  cases hpure
  obtain ⟨count, content, bytes', hframed', hchain, hitems', hpassed⟩ := readMap_eq_ok hstep hread
  obtain ⟨declared', hframed⟩ := hmap
  have hlt := reader.getRemainingBytes_lt
  rw [hbytes, List.length_append] at hlt
  obtain ⟨rest', hbytes'⟩ := hpassed.bytes
  rw [hbytes] at hbytes'
  have hentries := items_of_wellFormed (dataItems_entryItems entries)
  rw [length_entryItems] at hentries
  have hsame := dataItem_eq_of_append (hframed.map hentries) (hframed'.map hitems') hbytes'
    (by rw [List.length_append]; omega)
  subst hsame
  have hlt' := hframed.content_lt
  rw [hframed.content_eq (by omega) hframed'] at hlt' ⊢
  exact ⟨⟨_, hchain⟩, by omega⟩

theorem dispatched_of_readFields (hlawful : fields.Lawful) {bytes rest : List UInt8} {rounds : ℕ}
    {reader reader' : CborReader} (hmap : IsKeyedMap entries bytes)
    (hbytes : reader.getRemainingBytes = bytes ++ rest)
    (hrun : readFields fields.step rounds s reader = .ok s' reader') :
    ∃ keys, Dispatched fields s (entryItems entries) keys s' := by
  obtain ⟨⟨count, hchain⟩, hlt⟩ := chain_of_readFields (takes_step hlawful) hmap hbytes hrun
  obtain ⟨items, keys, hitems, hcontent, hdispatched⟩ := dispatched_of_chain hchain
  rw [dataItems_inj (dataItems_entryItems entries) hitems hcontent.symm hlt]
  exact ⟨keys, hdispatched⟩

variable (fields)

/-- The entry whose value a field should have: the last one of its key. -/
def lastEntry (field : fields.Field) (entries : List KeyedEntry) : Option KeyedEntry :=
  entries.reverse.find? fun entry => fields.ofKey? entry.key = some field

/-- Every field of the object has what is read from the value that stands with
its key, and nothing if its key is absent. -/
def HasValues (entries : List KeyedEntry) (s : σ) : Prop :=
  ∀ field, match lastEntry fields field entries with
    | some entry =>
      ∃ value, decodeWith entry.value (fields.read field) = .ok value ∧
        fields.get s field = some value
    | none => fields.get s field = none

/-- The keys that the loop took are the keys of the map, and the object that was
made of its last state has the values of the map. -/
def KeepsStep (s : σ) (entries : List KeyedEntry) (finish : σ → σ) (result : σ) : Prop :=
  ∃ s', Dispatched fields s (entryItems entries) (entries.map KeyedEntry.key) s' ∧
    result = finish s' ∧ HasValues fields entries result

def Knows (entries : List KeyedEntry) : Prop :=
  ∀ entry ∈ entries, fields.ofKey? entry.key ≠ none

/-- Items that can be taken to their end: where a key is taken there is an
integer, and behind a key that the decoder knows an item that its field accepts. -/
inductive ReadsOut : List (List UInt8) → Prop
  | nil : ReadsOut []
  | known {head item : List UInt8} {items : List (List UInt8)} {key : ℤ} {field : fields.Field}
      (hkey : IntegerHead head key) (hfield : fields.ofKey? key = some field)
      (hvalue : ∃ value, decodeWith item (fields.read field) = .ok value)
      (hrest : ReadsOut items) : ReadsOut (head :: item :: items)
  | unknown {head : List UInt8} {items : List (List UInt8)} {key : ℤ}
      (hkey : IntegerHead head key) (hfield : fields.ofKey? key = none)
      (hrest : ReadsOut items) : ReadsOut (head :: items)

variable {fields}

theorem Dispatched.length_eq (h : Dispatched fields s items keys s') :
    items.length = keys.length + keys.countP fun key => fields.ofKey? key ≠ none := by
  induction h with
  | nil s => rfl
  | known _ hfield _ _ ih =>
    rw [List.countP_cons_of_pos (by simp [hfield]), List.length_cons, List.length_cons,
      List.length_cons, ih]
    omega
  | unknown _ hfield _ ih =>
    rw [List.countP_cons_of_neg (by simp [hfield]), List.length_cons, List.length_cons, ih]
    omega

theorem knows_of_dispatched
    (h : Dispatched fields s (entryItems entries) (entries.map KeyedEntry.key) s') :
    Knows fields entries := by
  have hlength := h.length_eq
  rw [length_entryItems, List.length_map] at hlength
  have hcount : (entries.map KeyedEntry.key).countP (fun key => fields.ofKey? key ≠ none) =
      (entries.map KeyedEntry.key).length := by
    rw [List.length_map]
    omega
  rw [List.countP_eq_length] at hcount
  intro entry hmem
  exact of_decide_eq_true (hcount entry.key (List.mem_map_of_mem hmem))

theorem lastEntry_cons (field : fields.Field) (entry : KeyedEntry) (entries : List KeyedEntry) :
    lastEntry fields field (entry :: entries) = (lastEntry fields field entries).or
      (if fields.ofKey? entry.key = some field then some entry else none) := by
  unfold lastEntry
  rw [List.reverse_cons, List.find?_append]
  congr 1
  by_cases h : fields.ofKey? entry.key = some field
  · simp [h]
  · simp [h]

/-- A loop that knows all keys of the map takes just these, and puts the value of
each entry in the field of its key. The induction is on the entries. -/
theorem dispatched_of_knows (hlawful : fields.Lawful) (hknows : Knows fields entries)
    (hlength : (entryItems entries).flatten.length < 2 ^ 53)
    (h : Dispatched fields s (entryItems entries) keys s') :
    keys = entries.map KeyedEntry.key ∧
      ∀ field, match lastEntry fields field entries with
        | some entry => ∃ value, decodeWith entry.value (fields.read field) = .ok value ∧
            fields.get s' field = some value
        | none => fields.get s' field = fields.get s field := by
  induction entries generalizing s keys with
  | nil =>
    cases h with
    | nil s => exact ⟨rfl, fun field => rfl⟩
  | cons entry entries ih =>
    rw [Knows, List.forall_mem_cons] at hknows
    change (entry.head ++ (entry.value ++ (entryItems entries).flatten)).length < 2 ^ 53 at hlength
    rw [List.length_append, List.length_append] at hlength
    generalize hitems : entryItems (entry :: entries) = items at h
    cases h with
    | nil s => cases hitems
    | unknown hkey hfield hrest =>
      cases hitems
      rw [← key_unique entry.isKey hkey (by omega)] at hfield
      exact absurd hfield hknows.1
    | @known _ _ _ _ _ key keys field value hkey hfield hvalue hrest =>
      cases hitems
      have hsame := key_unique entry.isKey hkey (by omega)
      subst hsame
      obtain ⟨rfl, hvalues⟩ := ih hknows.2 (by omega) hrest
      refine ⟨rfl, fun other => ?_⟩
      have hother := hvalues other
      rw [lastEntry_cons]
      cases hlast : lastEntry fields other entries with
      | some last =>
        rw [hlast] at hother
        exact hother
      | none =>
        rw [hlast] at hother
        rw [Option.none_or]
        by_cases hsame : other = field
        · subst hsame
          rw [if_pos hfield]
          refine ⟨value, hvalue.decodeWith (by omega), ?_⟩
          rw [hother, hlawful.get_set_self]
        · rw [if_neg (by rw [hfield]; simpa using Ne.symm hsame)]
          change fields.get s' other = fields.get s other
          rw [hother, hlawful.get_set_other _ _ _ _ hsame]

theorem Dispatched.readsOut (hlength : items.flatten.length < 2 ^ 53)
    (h : Dispatched fields s items keys s') : ReadsOut fields items := by
  induction h with
  | nil s => exact ReadsOut.nil
  | known hkey hfield hvalue _ ih =>
    rw [List.flatten_cons, List.flatten_cons, List.length_append, List.length_append] at hlength
    exact ReadsOut.known hkey hfield ⟨_, hvalue.decodeWith (by omega)⟩ (ih (by omega))
  | unknown hkey hfield _ ih =>
    rw [List.flatten_cons, List.length_append] at hlength
    exact ReadsOut.unknown hkey hfield (ih (by omega))

theorem ReadsOut.dispatched (hlawful : fields.Lawful) (hitems : ∀ item ∈ items, DataItem item)
    (h : ReadsOut fields items) (s : σ) : ∃ keys s', Dispatched fields s items keys s' := by
  induction h generalizing s with
  | nil => exact ⟨[], s, Dispatched.nil s⟩
  | known hkey hfield hvalue _ ih =>
    obtain ⟨value, hvalue⟩ := hvalue
    rw [List.forall_mem_cons, List.forall_mem_cons] at hitems
    have hread := (hlawful.takes _).readsItem hitems.2.1 hvalue
    obtain ⟨keys, s', hrest⟩ := ih hitems.2.2 (fields.set s _ value)
    exact ⟨_, s', Dispatched.known hkey hfield hread hrest⟩
  | unknown hkey hfield _ ih =>
    rw [List.forall_mem_cons] at hitems
    obtain ⟨keys, s', hrest⟩ := ih hitems.2 s
    exact ⟨_, s', Dispatched.unknown hkey hfield hrest⟩

/-- A decoder that runs the loop keeps in step with a map exactly if it knows all
its keys, or the items of the map do not read out. -/
theorem keepsStep_iff (hlawful : fields.Lawful)
    (hlength : (entryItems entries).flatten.length < 2 ^ 53) {finish : σ → σ}
    (hempty : ∀ field, fields.get s field = none)
    (hfinish : ∀ s field, fields.get (finish s) field = fields.get s field)
    {run : Except DecodeException σ}
    (hrun : ∀ result, run = .ok result ↔
      ∃ keys s', Dispatched fields s (entryItems entries) keys s' ∧ result = finish s') :
    (∀ result, run = .ok result → KeepsStep fields s entries finish result) ↔
      Knows fields entries ∨ ¬ ReadsOut fields (entryItems entries) := by
  constructor
  · intro hkeeps
    by_cases hends : ReadsOut fields (entryItems entries)
    · obtain ⟨keys, s', hdispatched⟩ := hends.dispatched hlawful (dataItems_entryItems entries) s
      obtain ⟨last, hkeys, _⟩ := hkeeps _ ((hrun _).mpr ⟨keys, s', hdispatched, rfl⟩)
      exact Or.inl (knows_of_dispatched hkeys)
    · exact Or.inr hends
  · rintro (hknows | hends) result hresult
    · obtain ⟨keys, s', hdispatched, rfl⟩ := (hrun result).mp hresult
      obtain ⟨rfl, hvalues⟩ := dispatched_of_knows hlawful hknows hlength hdispatched
      refine ⟨s', hdispatched, rfl, fun field => ?_⟩
      have hvalue := hvalues field
      rw [hfinish]
      rw [hempty] at hvalue
      exact hvalue
    · obtain ⟨keys, s', hdispatched, _⟩ := (hrun result).mp hresult
      exact absurd (hdispatched.readsOut hlength) hends

end Loop

end CardanoSdk.Serialization
