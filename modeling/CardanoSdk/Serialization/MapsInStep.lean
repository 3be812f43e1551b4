import CardanoSdk.Serialization.AuxiliaryData
import CardanoSdk.Serialization.ProtocolParamUpdate

/-!
The decoders of auxiliary data and of protocol parameter updates are loops over
a map of integer keys. They read nothing under a key that they do not know.
-/

namespace CardanoSdk.Serialization

open Lib Cbor Plutus Cardano

theorem AuxiliaryData.lawful_fields (rounds : ℕ) : (AuxiliaryData.fields rounds).Lawful where
  takes field := by
    cases field with
    | metadata => exact takesItem_part _
    | nativeScripts => exact takesItem_list _ _
    | plutusScripts version => exact takesItem_list _ _
  get_set_self data field value := by
    cases field with
    | metadata => rfl
    | nativeScripts => rfl
    | plutusScripts version => exact Function.update_self version (some value) data.plutusScripts
  get_set_other data field value other hother := by
    cases field with
    | metadata => cases other <;> first | rfl | exact absurd rfl hother
    | nativeScripts => cases other <;> first | rfl | exact absurd rfl hother
    | plutusScripts version =>
      cases other with
      | metadata => rfl
      | nativeScripts => rfl
      | plutusScripts version' =>
        have hversion : version' ≠ version := fun h => hother (h ▸ rfl)
        exact Function.update_of_ne hversion (some value) data.plutusScripts

theorem takesItem_extraEntropy : TakesItem readExtraEntropy := by
  apply takesItem_closedArray
  intro declared
  have hskip : TakesItems (reading readEncodedValue) := by
    refine takes_encodedValue.mono ?_
    rintro items bytes value ⟨rfl, hitem, rfl⟩
    exact (readsItem_encodedValue hitem).reads
  have hentropy : TakesItems (reading readByteString) := by
    refine takes_byteString.mono ?_
    rintro items bytes value ⟨rfl, hitem⟩
    exact (readsItem_byteStringItem hitem).reads
  unfold readEntropy
  by_cases hlength : declared = some 1
  · simp only [if_pos hlength]
    exact hskip.map fun _ => []
  · simp only [if_neg hlength]
    exact hskip.bind fun _ => hentropy

theorem takesItem_param (kind : ParamKind) : TakesItem kind.read := by
  cases kind with
  | coin => exact takesItem_int
  | number => exact takesItem_int.map toNumber
  | entropy => exact takesItem_extraEntropy
  | interval => exact takesItem_part _
  | protocolVersion => exact takesItem_part _
  | costModels => exact takesItem_part _
  | prices => exact takesItem_part _
  | exUnits => exact takesItem_part _
  | poolThresholds => exact takesItem_part _
  | drepThresholds => exact takesItem_part _

theorem ProtocolParamUpdate.lawful_fields : ProtocolParamUpdate.fields.Lawful where
  takes param := takesItem_param _
  get_set_self update param value := by
    change Function.update update.params param (some value) param = _
    exact Function.update_self param _ update.params
  get_set_other update param value other hother := by
    change Function.update update.params param (some value) other = _
    exact Function.update_of_ne hother _ update.params

variable {entries : List KeyedEntry} {map : List UInt8}

theorem AuxiliaryData.fromCbor_eq_ok_iff {head : List UInt8} {data : AuxiliaryData}
    (hhead : Head 6 alonzoAuxTag head) (hmap : IsKeyedMap entries map)
    (hlength : (head ++ map).length < 2 ^ 53) :
    AuxiliaryData.fromCbor (head ++ map) = .ok data ↔
      ∃ keys s, Dispatched (AuxiliaryData.fields ((head ++ map).length + 1)) {} (entryItems entries)
        keys s ∧ data = { s with originalBytes := some (head ++ map) } := by
  have htag : roundToDouble alonzoAuxTag = alonzoAuxTag := roundToDouble_of_lt (by decide)
  have hbegins : Begins (head ++ map) .tag :=
    @begins_head .tag (by simp) alonzoAuxTag head hhead map
  constructor
  · intro hrun
    obtain ⟨_, reader, reader', hfresh, _, hrun⟩ := decodeWith_eq_ok hrun
    obtain ⟨state, peeked, hpeek, hrun⟩ := run_bind_eq_ok hrun
    obtain ⟨hstate, rfl⟩ := peekState_eq_ok hfresh.cachedState hpeek
    rw [hbegins reader [] hfresh.bytes hfresh.accepts] at hstate
    cases hstate
    obtain ⟨s, last, hformat, hpure⟩ := run_bind_eq_ok hrun
    cases hpure
    change readTagged _ (reader.cached .tag) = _ at hformat
    have hbytes : (reader.cached .tag).getRemainingBytes = head ++ (map ++ []) := by
      rw [← List.append_assoc]
      exact hfresh.bytes
    have htagged := reading_ok (readTag_ok hhead hbytes fun first _ => hfresh.accepts first)
    unfold readTagged at hformat
    rw [run_bind_ok htagged, htag, if_neg (by simp)] at hformat
    have hrest : ((reader.cached .tag).tagged head.length).getRemainingBytes = map ++ [] := by
      rw [CborReader.getRemainingBytes_tagged, hbytes, List.drop_left]
    obtain ⟨keys, hdispatched⟩ := dispatched_of_readFields (lawful_fields _) hmap hrest hformat
    exact ⟨keys, s, hdispatched, rfl⟩
  · rintro ⟨keys, s, hdispatched, rfl⟩
    apply decodeWith_peek hbegins hlength
    intro reader hbytes haccepts
    have hfields : ReadsItem (readFields (fields ((head ++ map).length + 1)).step
        ((head ++ map).length + 1) {}) map s :=
      readsItem_keyedMap hmap (by rw [List.length_append]; omega) hdispatched
    have hread : ReadsItem (readTagged ((head ++ map).length + 1)) (head ++ map) s := by
      apply readsItem_tagHead hhead
      rw [htag, if_neg (by simp)]
      exact hfields
    exact Succeeds.bind (hread reader [] hbytes haccepts) Succeeds.pure

theorem ProtocolParamUpdate.fromCbor_eq_ok_iff {update : ProtocolParamUpdate}
    (hmap : IsKeyedMap entries map) (hlength : map.length < 2 ^ 53) :
    ProtocolParamUpdate.fromCbor map = .ok update ↔
      ∃ keys s, Dispatched ProtocolParamUpdate.fields {} (entryItems entries) keys s ∧
        update = { s with originalBytes := some map } := by
  constructor
  · intro hrun
    obtain ⟨_, reader, reader', hfresh, _, hrun⟩ := decodeWith_eq_ok hrun
    obtain ⟨s, last, hfields, hpure⟩ := run_bind_eq_ok hrun
    cases hpure
    obtain ⟨keys, hdispatched⟩ := dispatched_of_readFields lawful_fields hmap hfresh.bytes hfields
    exact ⟨keys, s, hdispatched, rfl⟩
  · rintro ⟨keys, s, hdispatched, rfl⟩
    have hfields : ReadsItem (readFields fields.step (map.length + 1) {}) map s :=
      readsItem_keyedMap hmap (Nat.lt_succ_self _) hdispatched
    apply decodeWith_ok hlength
    intro reader hfresh
    exact Succeeds.bind (hfields reader [] hfresh.bytes hfresh.accepts) Succeeds.pure

/-- The decoder throws, or it keeps in step with the map. -/
def AuxiliaryData.KeepsStepIn (entries : List KeyedEntry) (cbor : List UInt8) : Prop :=
  ∀ data, AuxiliaryData.fromCbor cbor = .ok data →
    KeepsStep (AuxiliaryData.fields (cbor.length + 1)) {} entries
      (fun s => { s with originalBytes := some cbor }) data

/-- The decoder throws, or it keeps in step with the map. -/
def ProtocolParamUpdate.KeepsStepIn (entries : List KeyedEntry) (cbor : List UInt8) : Prop :=
  ∀ update, ProtocolParamUpdate.fromCbor cbor = .ok update →
    KeepsStep ProtocolParamUpdate.fields {} entries
      (fun s => { s with originalBytes := some cbor }) update

/-- Auxiliary data in the tagged format and protocol parameter updates, from any
map of integer keys: if the decoder returns an object, it took the keys of the
map for keys and every field has the value of its key, exactly if it knows all
keys or the items of the map do not read out. -/
theorem mapDecoders_keepStep_iff {entries : List KeyedEntry} {head map : List UInt8}
    (hhead : Head 6 alonzoAuxTag head) (hmap : IsKeyedMap entries map)
    (hlength : (head ++ map).length < 2 ^ 53) :
    (AuxiliaryData.KeepsStepIn entries (head ++ map) ↔
      Knows (AuxiliaryData.fields ((head ++ map).length + 1)) entries ∨
        ¬ ReadsOut (AuxiliaryData.fields ((head ++ map).length + 1)) (entryItems entries)) ∧
    (ProtocolParamUpdate.KeepsStepIn entries map ↔
      Knows ProtocolParamUpdate.fields entries ∨
        ¬ ReadsOut ProtocolParamUpdate.fields (entryItems entries)) := by
  have hmapLength : map.length < 2 ^ 53 := by
    rw [List.length_append] at hlength
    omega
  obtain ⟨declared, hframed⟩ := id hmap
  have hcontent : (entryItems entries).flatten.length < 2 ^ 53 :=
    Nat.lt_trans hframed.content_lt hmapLength
  constructor
  · apply keepsStep_iff (AuxiliaryData.lawful_fields _) hcontent
    · intro field
      cases field <;> rfl
    · intro data field
      cases field <;> rfl
    · intro data
      exact AuxiliaryData.fromCbor_eq_ok_iff hhead hmap hlength
  · apply keepsStep_iff ProtocolParamUpdate.lawful_fields hcontent
    · intro param
      rfl
    · intro update param
      rfl
    · intro update
      exact ProtocolParamUpdate.fromCbor_eq_ok_iff hmap hmapLength

/-- A map from integers to integers: `{15: 0, 40: 41}`. -/
def strayEntries : List KeyedEntry :=
  [⟨15, encodeInt 15, encodeInt 0, integerHead_encodeInt (by decide) (by decide),
      (integerHead_encodeInt (by decide) (by decide)).dataItem⟩,
    ⟨40, encodeInt 40, encodeInt 41, integerHead_encodeInt (by decide) (by decide),
      (integerHead_encodeInt (by decide) (by decide)).dataItem⟩]

def strayMap : List UInt8 := encodeHead .map 2 ++ (entryItems strayEntries).flatten

def strayAuxiliaryData : List UInt8 := encodeHead .tag alonzoAuxTag ++ strayMap

theorem isKeyedMap_stray : IsKeyedMap strayEntries strayMap :=
  ⟨_, Framed.definite (head_encodeHead .map (by decide))⟩

theorem mapDecoders_keepStep_iff_stray :
    (AuxiliaryData.KeepsStepIn strayEntries strayAuxiliaryData ↔
      Knows (AuxiliaryData.fields (strayAuxiliaryData.length + 1)) strayEntries ∨
        ¬ ReadsOut (AuxiliaryData.fields (strayAuxiliaryData.length + 1))
          (entryItems strayEntries)) ∧
    (ProtocolParamUpdate.KeepsStepIn strayEntries strayMap ↔
      Knows ProtocolParamUpdate.fields strayEntries ∨
        ¬ ReadsOut ProtocolParamUpdate.fields (entryItems strayEntries)) :=
  mapDecoders_keepStep_iff (head_encodeHead .tag (by decide)) isKeyedMap_stray (by decide)

/-- The update takes the value under key 15 for key 0 and the key 40 for its
value. -/
theorem mapDecoders_out_of_step :
    (∃ update, ProtocolParamUpdate.fromCbor strayMap = .ok update ∧
      update.params .minFeeA = some (40 : ℤ)) ∧
    lastEntry ProtocolParamUpdate.fields .minFeeA strayEntries = none ∧
    ¬ ProtocolParamUpdate.KeepsStepIn strayEntries strayMap := by
  have hkey (value : ℤ) (hlower : -(2 ^ 64) ≤ value) (hupper : value < 2 ^ 64) :
      IntegerHead (encodeInt value) value :=
    integerHead_encodeInt hlower hupper
  have hdispatched : Dispatched ProtocolParamUpdate.fields {} (entryItems strayEntries) [15, 0, 41]
      (ProtocolParamUpdate.fields.set {} .minFeeA (40 : ℤ)) := by
    apply Dispatched.unknown (hkey 15 (by decide) (by decide)) rfl
    apply Dispatched.known (hkey 0 (by decide) (by decide)) rfl
      (readsItem_integerHead (hkey 40 (by decide) (by decide)))
    exact Dispatched.unknown (hkey 41 (by decide) (by decide)) rfl (Dispatched.nil _)
  have hrun : ∃ update, ProtocolParamUpdate.fromCbor strayMap = .ok update ∧
      update.params .minFeeA = some (40 : ℤ) := by
    refine ⟨_, (ProtocolParamUpdate.fromCbor_eq_ok_iff isKeyedMap_stray (by decide)).mpr
      ⟨_, _, hdispatched, rfl⟩, rfl⟩
  refine ⟨hrun, rfl, ?_⟩
  intro hkeeps
  obtain ⟨update, hupdate, hvalue⟩ := hrun
  obtain ⟨_, _, _, hvalues⟩ := hkeeps update hupdate
  have hnone : update.params .minFeeA = none := hvalues ProtocolParam.minFeeA
  rw [hvalue] at hnone
  cases hnone

end CardanoSdk.Serialization
