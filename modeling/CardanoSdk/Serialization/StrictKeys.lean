import CardanoSdk.Serialization.KeyedEncoding

/-!
Decoders of maps with integers for keys that throw at a key they do not know.
-/

namespace CardanoSdk.Serialization

open Lib Cbor Plutus

section Runs

variable {σ : Type} {moves : σ → KeyedEntry → σ → Prop}

inductive EntryRun (moves : σ → KeyedEntry → σ → Prop) : σ → List KeyedEntry → σ → Prop
  | nil (s : σ) : EntryRun moves s [] s
  | cons {s s' s'' : σ} {entry : KeyedEntry} {entries : List KeyedEntry}
      (hmoves : moves s entry s') (hrest : EntryRun moves s' entries s'') :
      EntryRun moves s (entry :: entries) s''

def TakesEntry (moves : σ → KeyedEntry → σ → Prop) (step : σ → DecodeM σ) : Prop :=
  ∀ s, Takes (step s) fun count bytes s' => count = 2 ∧
    ∃ entry : KeyedEntry, bytes = entry.head ++ entry.value ∧ moves s entry s'

variable {s s' : σ} {entries : List KeyedEntry}

theorem entryRun_of_chain {count : ℕ} {content : List UInt8}
    (h : Chain (fun s count bytes s' => count = 2 ∧
      ∃ entry : KeyedEntry, bytes = entry.head ++ entry.value ∧ moves s entry s')
      s count content s') :
    ∃ entries, (entryItems entries).flatten = content ∧ EntryRun moves s entries s' := by
  induction h with
  | nil s => exact ⟨[], rfl, EntryRun.nil s⟩
  | cons hstep _ ih =>
    obtain ⟨-, entry, rfl, hmoves⟩ := hstep
    obtain ⟨entries, rfl, hrun⟩ := ih
    refine ⟨entry :: entries, ?_, EntryRun.cons hmoves hrun⟩
    change entry.head ++ (entry.value ++ (entryItems entries).flatten) = _
    rw [List.append_assoc]

theorem keyedEntries_inj {entries' : List KeyedEntry}
    (h : entryItems entries = entryItems entries')
    (hlength : (entryItems entries).flatten.length < 2 ^ 53) : entries = entries' := by
  induction entries generalizing entries' with
  | nil =>
    cases entries' with
    | nil => rfl
    | cons entry' entries' => cases h
  | cons entry entries ih =>
    cases entries' with
    | nil => cases h
    | cons entry' entries' =>
      obtain ⟨key, head, value, hkey, hitem⟩ := entry
      obtain ⟨key', head', value', hkey', hitem'⟩ := entry'
      change head :: value :: entryItems entries = head' :: value' :: entryItems entries' at h
      change (head ++ (value ++ (entryItems entries).flatten)).length < 2 ^ 53 at hlength
      rw [List.length_append, List.length_append] at hlength
      rw [List.cons.injEq, List.cons.injEq] at h
      obtain ⟨rfl, rfl, hentries⟩ := h
      obtain rfl := key_unique hkey hkey' (by omega)
      rw [ih hentries (by omega)]

theorem entryRun_of_readFields {step : σ → DecodeM σ} (hstep : TakesEntry moves step)
    {bytes rest : List UInt8} {rounds : ℕ} {reader reader' : CborReader}
    (hmap : IsKeyedMap entries bytes) (hbytes : reader.getRemainingBytes = bytes ++ rest)
    (hrun : readFields step rounds s reader = .ok s' reader') : EntryRun moves s entries s' := by
  obtain ⟨⟨count, hchain⟩, hlt⟩ := chain_of_readFields hstep hmap hbytes hrun
  obtain ⟨entries', hcontent, hentries'⟩ := entryRun_of_chain hchain
  have hitems := dataItems_inj (dataItems_entryItems entries) (dataItems_entryItems entries')
    hcontent.symm hlt
  rw [keyedEntries_inj hitems hlt]
  exact hentries'

theorem EntryRun.forall {P : KeyedEntry → Prop} (h : EntryRun moves s entries s')
    (hmoves : ∀ s entry s', moves s entry s' → P entry) : ∀ entry ∈ entries, P entry := by
  induction h with
  | nil s => exact fun _ hmem => (List.not_mem_nil hmem).elim
  | cons hentry _ ih => exact List.forall_mem_cons.mpr ⟨hmoves _ _ _ hentry, ih⟩

end Runs

section Fields

variable {σ : Type} {fields : KeyedFields σ} {other : ℤ → σ → DecodeM σ}
  {admits : fields.Field → List UInt8 → Prop}

/-- The entry is put in the field of its key, which admits its value. -/
def PutsEntry (fields : KeyedFields σ) (admits : fields.Field → List UInt8 → Prop) (s : σ)
    (entry : KeyedEntry) (s' : σ) : Prop :=
  ∃ field value, fields.ofKey? entry.key = some field ∧ admits field entry.value ∧
    s' = fields.set s field value

/-- Where the default of the `switch` throws, a round takes an entry that it knows. -/
theorem takesEntry_stepOr
    (hread : ∀ field, Takes (fields.read field)
      (OneItem fun bytes _ => DataItem bytes ∧ admits field bytes))
    (hother : ∀ key s reader s' reader', other key s reader ≠ .ok s' reader') :
    TakesEntry (PutsEntry fields admits) (fields.stepOr other) := by
  intro s reader s' reader' hplain hrun
  obtain ⟨key, middle, hkey, hrun⟩ := run_bind_eq_ok hrun
  obtain ⟨_, head, htaken, rfl, hhead⟩ := takes_int _ _ _ hplain hkey
  cases hfield : fields.ofKey? key with
  | none =>
    rw [hfield] at hrun
    exact absurd hrun (hother _ _ _ _ _)
  | some field =>
    rw [hfield] at hrun
    obtain ⟨value, last, hvalue, hset⟩ := run_bind_eq_ok hrun
    cases hset
    obtain ⟨_, item, htaken', rfl, hitem, hadmits⟩ :=
      hread field _ _ _ (htaken.plain hplain) hvalue
    exact ⟨2, head ++ item, htaken.trans htaken', rfl, ⟨key, head, item, hhead, hitem⟩, rfl,
      field, value, hfield, hadmits, rfl⟩

theorem EntryRun.get_absent (hputs : fields.Puts) {field : fields.Field} {s s' : σ}
    {entries : List KeyedEntry} (h : EntryRun (PutsEntry fields admits) s entries s')
    (habsent : ∀ entry ∈ entries, fields.ofKey? entry.key ≠ some field) :
    fields.get s' field = fields.get s field := by
  induction h with
  | nil s => rfl
  | cons hmoves _ ih =>
    rw [List.forall_mem_cons] at habsent
    obtain ⟨found, value, hfound, -, rfl⟩ := hmoves
    rw [ih habsent.2, hputs.get_set_other]
    rintro rfl
    exact habsent.1 hfound

end Fields

end CardanoSdk.Serialization
