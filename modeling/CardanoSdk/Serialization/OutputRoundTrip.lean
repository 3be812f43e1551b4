import CardanoSdk.Cardano.AddressCodec
import CardanoSdk.Plutus.CoreRoundTrip
import CardanoSdk.Serialization.TransactionOutput

/-!
A transaction output through `fromCore`, `toCbor`, `fromCbor` and `toCore`.
-/

namespace CardanoSdk.Serialization

open Lib Cbor Plutus Cardano
open TxConstruction (Hash)

section Output

variable {CoreScript Script : Type} {text : TextEncodings} {script : Codec CoreScript Script}

variable {props : AddressProps}

theorem rewritten_address {data bytes : List UInt8}
    (hprops : AddressProps.fromBytes text data = .ok props)
    (hbytes : props.toBytes text = .ok bytes) (hlength : bytes.length < 2 ^ 53) :
    Rewritten (writeAddress text) (readAddress text) (some props) (some (encodeChunk bytes))
      (some props.written) := by
  have hread := fromBytes_toBytes hprops hbytes hlength
  have hshort : bytes.length < 2 ^ 64 := by omega
  refine Rewritten.some ?_ (dataItem_encodeChunk hshort) fun _ => ?_
  · exact Encodes.encode hbytes (encodes_writing (writes_byteString hshort))
  · exact (readsItem_byteString hshort).map fun _ => decoding_ok hread

theorem rewritten_amount {amount : Value} (horiginal : amount.originalBytes = none)
    (hvalid : ValidValue amount.coin (tokenEntries amount.multiasset)) :
    ∃ cbor amount', Rewritten writeAmount (readPart Value.fromCbor) (some amount) (some cbor)
        (some amount') ∧
      (cbor.length < 2 ^ 53 → Holds amount' amount.coin (tokenEntries amount.multiasset)) := by
  obtain ⟨cbor, hcbor, hitem, hdecoded⟩ := value_round_trip horiginal hvalid
  obtain ⟨amount', hamount'⟩ := exists_of_fits amount hdecoded
  refine ⟨cbor, amount', Rewritten.some ?_ hitem fun hlength => ?_, fun h => (hamount' h).2⟩
  · exact Encodes.encode hcbor (encodes_writing (writes_encodedValue cbor))
  · exact readsItem_part hitem (hamount' hlength).1

inductive DatumReread : Option Datum → Option Datum → Prop
  | none : DatumReread none none
  | dataHash (hash : Hash) : DatumReread (some (.dataHash hash)) (some (.dataHash hash))
  | inlineData {data data' : PlutusData} {cbor : List UInt8} (hcbor : data.toCbor = .ok cbor)
      (hread : PlutusData.fromCbor cbor = .ok data') :
      DatumReread (some (.inlineData data)) (some (.inlineData data'))

/-- A hash of 32 bytes, or data whose encoding fits in a typed array. -/
inductive DatumFits : Datum → Prop
  | dataHash {hash : Hash} (h : hash.length = 32) : DatumFits (.dataHash hash)
  | inlineData {data data' : PlutusData} {cbor : List UInt8} (hcbor : data.toCbor = .ok cbor)
      (hread : PlutusData.fromCbor cbor = .ok data') (hlength : cbor.length < 2 ^ 53) :
      DatumFits (.inlineData data)

def datumBytes (kind : DatumKind) (content : List UInt8) : List UInt8 :=
  encodeHead .array 2 ++ (encodeInt kind.toInt ++ content)

variable {hash : Hash} {cbor : List UInt8}

theorem truthy_of_length (h : hash.length = 32) : truthy (some hash) = some hash := by
  cases hash with
  | nil => cases h
  | cons byte bytes => rfl

theorem writes_kind (kind : DatumKind) : Writes (writeInt kind.toInt) (encodeInt kind.toInt) := by
  cases kind
  all_goals exact writes_int (by decide) (by decide)

theorem dataItem_datumBytes (kind : DatumKind) {content : List UInt8} (h : DataItem content) :
    DataItem (datumBytes kind content) := by
  have hkind : DataItem (encodeInt kind.toInt) := by
    cases kind
    all_goals exact dataItem_encodeInt (by decide) (by decide)
  have hitems := Items.cons hkind (Items.cons h Items.nil)
  rw [List.append_nil] at hitems
  exact DataItem.array (head_encodeHead .array (by decide)) hitems

theorem rewritten_dataHash (h : hash.length = 32) :
    ∃ bytes, Rewritten writeDatum (readPart readDatum) (some (.dataHash hash)) (some bytes)
      (some (.dataHash hash)) := by
  have hshort : hash.length < 2 ^ 64 := by rw [h]; decide
  have hitem := dataItem_datumBytes .dataHash (dataItem_encodeChunk hshort)
  refine ⟨_, Rewritten.some ?_ hitem fun hlength => readsItem_part hitem ?_⟩
  · exact Encodes.write (writes_startArray (by decide)) (Encodes.write
      (writes_kind _) (encodes_writing (writes_byteString hshort)))
  · have hnew : newDatum (some hash) none = .ok (.dataHash hash) := by
      simp [newDatum, truthy_of_length h]
    apply decodeWith_array (by decide) hlength
    change Reads (reading readInt >>= _) (1 + 1) _ _
    have hkind : ReadsItem (reading readInt) (encodeInt 0) 0 := readsItem_int (by decide) (by decide)
    apply hkind.bind
    rw [if_pos (by decide)]
    exact (readsItem_byteString hshort).last fun _ => checking_ok hnew

theorem rewritten_inlineData {data data' : PlutusData} (hcbor : data.toCbor = .ok cbor)
    (hread : PlutusData.fromCbor cbor = .ok data') (hlength : cbor.length < 2 ^ 53) :
    ∃ bytes, Rewritten writeDatum (readPart readDatum) (some (.inlineData data)) (some bytes)
      (some (.inlineData data')) := by
  have hshort : cbor.length < 2 ^ 64 := by omega
  have hitem := dataItem_datumBytes .inlineData (@dataItem_encodeTag encodedCborDataItemTag _
    (by decide) (dataItem_encodeChunk hshort))
  refine ⟨_, Rewritten.some ?_ hitem fun hlength => readsItem_part hitem ?_⟩
  · have htag := @writes_typeValue .tag encodedCborDataItemTag (by decide)
    have hencoded : data.toCbor.mapError EncodeException.range = .ok cbor := by
      rw [hcbor]
      rfl
    exact Encodes.write (writes_startArray (by decide)) (Encodes.write
      (writes_kind _) (Encodes.write htag
        (Encodes.encode hencoded (encodes_writing (writes_byteString hshort)))))
  · apply decodeWith_array (by decide) hlength
    change Reads (reading readInt >>= _) (1 + 1) _ _
    have hkind : ReadsItem (reading readInt) (encodeInt 1) 1 := readsItem_int (by decide) (by decide)
    apply hkind.bind
    rw [if_neg (by decide), if_pos (by decide)]
    apply ReadsItem.reads
    apply readsItem_tag (by decide)
    rw [if_neg (by simp)]
    apply (readsItem_byteString hshort).map
    intro reader
    rw [run_bind_ok (decoding_ok hread)]
    rfl

theorem rewritten_datum {datum : Option Datum} (h : ∀ value ∈ datum, DatumFits value) :
    ∃ encoded datum', Rewritten writeDatum (readPart readDatum) datum encoded datum' ∧
      DatumReread datum datum' := by
  cases datum with
  | none => exact ⟨none, none, Rewritten.none, DatumReread.none⟩
  | some datum =>
    cases h datum rfl with
    | dataHash hlength =>
      obtain ⟨bytes, hbytes⟩ := rewritten_dataHash hlength
      exact ⟨some bytes, _, hbytes, DatumReread.dataHash _⟩
    | inlineData hcbor hread hlength =>
      obtain ⟨bytes, hbytes⟩ := rewritten_inlineData hcbor hread hlength
      exact ⟨some bytes, _, hbytes, DatumReread.inlineData hcbor hread⟩

theorem rewritten_scriptRef {scriptRef scriptRef' : Script}
    (hcbor : script.toCbor scriptRef = .ok cbor) (hread : script.fromCbor cbor = .ok scriptRef')
    (hlength : cbor.length < 2 ^ 53) :
    ∃ bytes, Rewritten (writeScriptRef script) (readPart (readScriptRef script)) (some scriptRef)
      (some bytes) (some scriptRef') := by
  have hshort : cbor.length < 2 ^ 64 := by omega
  have hitem := @dataItem_encodeTag encodedCborDataItemTag _ (by decide)
    (dataItem_encodeChunk hshort)
  refine ⟨_, Rewritten.some ?_ hitem fun hlength => readsItem_part hitem ?_⟩
  · have htag := @writes_typeValue .tag encodedCborDataItemTag (by decide)
    exact Encodes.write htag
      (Encodes.encode hcbor (encodes_writing (writes_byteString hshort)))
  · refine ReadsItem.decodeWith (readsItem_tag (by decide) ?_) hlength
    rw [if_neg (by simp)]
    exact (readsItem_byteString hshort).map fun _ => decoding_ok hread

inductive ScriptReread (script : Codec CoreScript Script) : Option Script → Option Script → Prop
  | none : ScriptReread script none none
  | some {scriptRef scriptRef' : Script} {cbor : List UInt8}
      (hcbor : script.toCbor scriptRef = .ok cbor) (hread : script.fromCbor cbor = .ok scriptRef')
      (hlength : cbor.length < 2 ^ 53) : ScriptReread script (some scriptRef) (some scriptRef')

theorem rewritten_script {scriptRef scriptRef' : Option Script}
    (h : ScriptReread script scriptRef scriptRef') :
    ∃ encoded, Rewritten (writeScriptRef script) (readPart (readScriptRef script)) scriptRef encoded
      scriptRef' := by
  cases h with
  | none => exact ⟨none, Rewritten.none⟩
  | some hcbor hread hlength =>
    obtain ⟨bytes, hbytes⟩ := rewritten_scriptRef hcbor hread hlength
    exact ⟨some bytes, hbytes⟩

section Formats

variable {output : TransactionOutput Script} {address' : AddressProps} {amount' : Value}
  {datum' : Option Datum} {scriptRef' : Option Script} {addressBytes amountBytes : List UInt8}
  {datumEncoded scriptEncoded : Option (List UInt8)} (strict : Bool)

/-- The output that its fields are put together to. -/
def outputOf (cbor : List UInt8) (address : AddressProps) (amount : Value) (datum : Option Datum)
    (scriptRef : Option Script) : TransactionOutput Script where
  address := address
  amount := amount
  datum := datum
  scriptRef := scriptRef
  originalBytes := some cbor

def outputMapBytes (size : ℕ) (addressBytes amountBytes : List UInt8)
    (datumEncoded scriptEncoded : Option (List UInt8)) : List UInt8 :=
  encodeHead .map size ++ (fieldBytes 0 (some addressBytes) ++ (fieldBytes 1 (some amountBytes) ++
    (fieldBytes 2 datumEncoded ++ fieldBytes 3 scriptEncoded)))

theorem getMapSize_le (output : TransactionOutput Script) : output.getMapSize ≤ 4 := by
  unfold TransactionOutput.getMapSize requiredFieldsCount fieldCount
  have hdatum : output.datum.toList.length ≤ 1 := by
    cases output.datum <;> simp
  have hscript : output.scriptRef.toList.length ≤ 1 := by
    cases output.scriptRef <;> simp
  omega

section Map

variable
  (haddress : Rewritten (writeAddress text) (readAddress text) (some output.address)
    (some addressBytes) (some address'))
  (hamount : Rewritten writeAmount (readPart Value.fromCbor) (some output.amount)
    (some amountBytes) (some amount'))
  (hdatum : Rewritten writeDatum (readPart readDatum) output.datum datumEncoded datum')
  (hscript : Rewritten (writeScriptRef script) (readPart (readScriptRef script)) output.scriptRef
    scriptEncoded scriptRef')

include haddress hamount hdatum hscript

theorem encodes_outputMap : Encodes (output.encodeMap text script)
    (outputMapBytes output.getMapSize addressBytes amountBytes datumEncoded scriptEncoded) := by
  have hsize := getMapSize_le output
  refine Encodes.write (writes_startMap (by omega)) ?_
  refine (haddress.encodes 0 (by decide)).bind ?_
  refine (hamount.encodes 1 (by decide)).bind ?_
  exact (hdatum.encodes 2 (by decide)).bind (hscript.encodes 3 (by decide))

theorem items_outputMap : Items (2 * output.getMapSize) (fieldBytes 0 (some addressBytes) ++
    (fieldBytes 1 (some amountBytes) ++
      (fieldBytes 2 datumEncoded ++ fieldBytes 3 scriptEncoded))) := by
  have hitems := (haddress.items 0 (by decide)).append ((hamount.items 1 (by decide)).append
    ((hdatum.items 2 (by decide)).append (hscript.items 3 (by decide))))
  have hcount : 2 * fieldCount (some output.address) + (2 * fieldCount (some output.amount) +
      (2 * fieldCount output.datum + 2 * fieldCount output.scriptRef)) = 2 * output.getMapSize := by
    unfold TransactionOutput.getMapSize requiredFieldsCount
    change 2 * 1 + (2 * 1 + _) = _
    omega
  rwa [hcount] at hitems

theorem rounds_outputMap (hlength : (outputMapBytes output.getMapSize addressBytes amountBytes
      datumEncoded scriptEncoded).length < 2 ^ 53) :
    Rounds (fun fields => do
        let key ← reading readInt
        readOutputField text script strict fields key) {} (2 * output.getMapSize)
      (fieldBytes 0 (some addressBytes) ++ (fieldBytes 1 (some amountBytes) ++
        (fieldBytes 2 datumEncoded ++ fieldBytes 3 scriptEncoded)))
      { address := some address', value := some amount', datum := datum', scriptRef := scriptRef' } := by
  unfold outputMapBytes at hlength
  simp only [List.length_append] at hlength
  let step : OutputFields Script → DecodeM (OutputFields Script) := fun fields => do
    let key ← reading readInt
    readOutputField text script strict fields key
  let first : OutputFields Script := { address := some address' }
  let second : OutputFields Script := { first with value := some amount' }
  let third : OutputFields Script := { second with datum := datum' }
  let last : OutputFields Script := { third with scriptRef := scriptRef' }
  have hthird : datum'.elim second (fun datum => { second with datum := some datum }) = third := by
    cases datum' <;> rfl
  have hlast : scriptRef'.elim third (fun scriptRef => { third with scriptRef := some scriptRef }) =
      last := by
    cases scriptRef' <;> rfl
  have haddressRounds : Rounds step {} _ (fieldBytes 0 _) first :=
    haddress.rounds 0 (by decide) rfl rfl rfl (by omega)
  have hamountRounds : Rounds step first _ (fieldBytes 1 _) second :=
    hamount.rounds 1 (by decide) rfl rfl rfl (by omega)
  have hdatumRounds : Rounds step second _ (fieldBytes 2 _) third :=
    hdatum.rounds 2 (by decide) rfl rfl hthird (by omega)
  have hscriptRounds : Rounds step third _ (fieldBytes 3 _) last :=
    hscript.rounds 3 (by decide) rfl rfl hlast (by omega)
  have hrounds :=
    haddressRounds.trans (hamountRounds.trans (hdatumRounds.trans hscriptRounds))
  have hcount : 2 * fieldCount (some output.address) + (2 * fieldCount (some output.amount) +
      (2 * fieldCount output.datum + 2 * fieldCount output.scriptRef)) = 2 * output.getMapSize := by
    unfold TransactionOutput.getMapSize requiredFieldsCount
    change 2 * 1 + (2 * 1 + _) = _
    omega
  rwa [hcount] at hrounds

theorem fromCbor_outputMap {cbor : List UInt8} (hcbor : cbor = outputMapBytes output.getMapSize
      addressBytes amountBytes datumEncoded scriptEncoded) (hlength : cbor.length < 2 ^ 53) :
    TransactionOutput.fromCbor text script strict cbor =
      .ok (outputOf cbor address' amount' datum' scriptRef') := by
  have hsize := getMapSize_le output
  have hitems := items_outputMap haddress hamount hdatum hscript
  rw [hcbor] at hlength
  have hrounds := rounds_outputMap strict haddress hamount hdatum hscript hlength
  have hbegins : Begins cbor .startMap := by
    rw [hcbor]
    exact @begins_encodeHead .map (by decide) output.getMapSize (by omega) _
  have henough : (fieldBytes 0 (some addressBytes) ++ (fieldBytes 1 (some amountBytes) ++
      (fieldBytes 2 datumEncoded ++ fieldBytes 3 scriptEncoded))).length < cbor.length + 1 := by
    rw [hcbor, outputMapBytes]
    simp only [List.length_append]
    omega
  have hread := readsItem_fields hrounds hitems.le_length henough
  rw [← outputMapBytes, ← hcbor] at hread
  refine decodeWith_peek hbegins (hcbor ▸ hlength) fun reader hbytes haccepts => ?_
  rw [if_pos rfl]
  exact Succeeds.bind (hread reader [] hbytes haccepts) Succeeds.pure

end Map

def outputArrayBytes (size : ℕ) (addressBytes amountBytes hashBytes : List UInt8) : List UInt8 :=
  encodeHead .array size ++ (addressBytes ++ (amountBytes ++ hashBytes))

theorem compact_iff (output : TransactionOutput Script) : output.isCompact ↔
    output.scriptRef = none ∧
      (output.datum = none ∨ ∃ hash, output.datum = some (.dataHash hash)) := by
  unfold TransactionOutput.isCompact TransactionOutput.getMapSize requiredFieldsCount fieldCount
  cases hscript : output.scriptRef with
  | none =>
    cases hdatum : output.datum with
    | none => simp
    | some datum => cases datum <;> simp [Datum.kind]
  | some scriptRef =>
    cases hdatum : output.datum with
    | none => simp
    | some datum => simp

section Array

variable
  (haddress : Rewritten (writeAddress text) (readAddress text) (some output.address)
    (some addressBytes) (some address'))
  (hamount : Rewritten writeAmount (readPart Value.fromCbor) (some output.amount)
    (some amountBytes) (some amount'))

include haddress hamount

variable {hashBytes : List UInt8} {items : ℕ}

theorem fromCbor_outputArray {cbor : List UInt8} (hsize : 1 + (1 + items) < 2 ^ 53)
    (hcbor : cbor = outputArrayBytes (1 + (1 + items)) addressBytes amountBytes hashBytes)
    (hlength : cbor.length < 2 ^ 53)
    (hhash : Reads (readDatumHash (some (1 + (1 + items)))) items hashBytes datum') :
    TransactionOutput.fromCbor text script strict cbor =
      .ok (outputOf cbor address' amount' datum' none) := by
  have hbegins : Begins cbor .startArray := by
    rw [hcbor]
    exact @begins_encodeHead .array (by decide) _ (by omega) _
  have hparts := hlength
  rw [hcbor, outputArrayBytes] at hparts
  simp only [List.length_append] at hparts
  cases haddress with
  | some _ _ hreadAddress =>
    cases hamount with
    | some _ _ hreadAmount =>
      have hfields : Reads (readAddress text >>= fun address => readPart Value.fromCbor >>=
          fun value => readDatumHash (some (1 + (1 + items))) >>= fun datum =>
          (pure { address := some address, value := some value, datum := datum } :
            DecodeM (OutputFields Script))) (1 + (1 + items))
          (addressBytes ++ (amountBytes ++ hashBytes))
          { address := some address', value := some amount', datum := datum' } :=
        (hreadAddress (by omega)).bind ((hreadAmount (by omega)).bind
          (hhash.map fun _ => rfl))
      refine decodeWith_peek hbegins hlength fun reader hbytes haccepts => ?_
      rw [if_neg (by decide)]
      rw [hcbor, outputArrayBytes] at hbytes
      have harray : @Succeeds (OutputFields Script) (readOutputArray text) reader
          { address := some address', value := some amount', datum := datum' } := by
        unfold readOutputArray
        exact succeeds_array hsize hbytes haccepts hfields
      obtain ⟨reader', hrun⟩ := harray
      exact Succeeds.bind hrun Succeeds.pure

theorem encodes_outputArray (hitems : items < 2) (hsize : output.getMapSize = 1 + (1 + items))
    (hhash : Encodes (match output.datum with
      | some datum => writeDataHash datum
      | none => pure ()) hashBytes) :
    Encodes (output.encodeArray text)
      (outputArrayBytes (1 + (1 + items)) addressBytes amountBytes hashBytes) := by
  cases haddress with
  | some hwritesAddress _ _ =>
    cases hamount with
    | some hwritesAmount _ _ =>
      rw [← hsize]
      refine Encodes.write (writes_startArray (by omega)) ?_
      exact hwritesAddress.bind (hwritesAmount.bind hhash)

theorem dataItem_outputArray (hitems : items < 2) (hhash : Items items hashBytes) :
    DataItem (outputArrayBytes (1 + (1 + items)) addressBytes amountBytes hashBytes) := by
  cases haddress with
  | some _ haddressItem _ =>
    cases hamount with
    | some _ hamountItem _ =>
      have hcontent := Items.cons haddressItem (Items.cons hamountItem hhash)
      rw [show items + 1 + 1 = 1 + (1 + items) by omega] at hcontent
      exact DataItem.array (head_encodeHead .array (by omega)) hcontent

end Array

end Formats

structure OutputReread (script : Codec CoreScript Script)
    (output output' : TransactionOutput Script) : Prop where
  address : output'.address = output.address.written
  amount : Holds output'.amount output.amount.coin (tokenEntries output.amount.multiasset)
  datum : DatumReread output.datum output'.datum
  scriptRef : ScriptReread script output.scriptRef output'.scriptRef

structure OutputFits (text : TextEncodings) (script : Codec CoreScript Script)
    (output : TransactionOutput Script) : Prop where
  uncached : output.originalBytes = none
  address : ∃ data bytes, AddressProps.fromBytes text data = .ok output.address ∧
    output.address.toBytes text = .ok bytes ∧ bytes.length < 2 ^ 53
  uncachedAmount : output.amount.originalBytes = none
  amount : ValidValue output.amount.coin (tokenEntries output.amount.multiasset)
  datum : ∀ value ∈ output.datum, DatumFits value
  scriptRef : ∃ scriptRef', ScriptReread script output.scriptRef scriptRef'

theorem output_survives (strict : Bool) {output : TransactionOutput Script}
    (h : OutputFits text script output) :
    ∃ cbor, output.toCbor text script = .ok cbor ∧ DataItem cbor ∧
      (cbor.length < 2 ^ 53 → ∃ output',
        TransactionOutput.fromCbor text script strict cbor = .ok output' ∧
          OutputReread script output output') := by
  obtain ⟨data, bytes, hdata, hbytes, hlength⟩ := h.address
  have haddress := rewritten_address hdata hbytes hlength
  obtain ⟨amountBytes, amount', hamount, hholds⟩ := rewritten_amount h.uncachedAmount h.amount
  have huncached : truthy output.originalBytes = none := by rw [h.uncached]; rfl
  unfold TransactionOutput.toCbor
  rw [huncached]
  dsimp only
  by_cases hcompact : output.isCompact
  · rw [if_pos hcompact]
    obtain ⟨hscript, hdatum⟩ := (compact_iff output).mp hcompact
    have hscriptReread : ScriptReread script output.scriptRef none := by
      rw [hscript]
      exact ScriptReread.none
    rcases hdatum with hdatum | ⟨hash, hdatum⟩
    · have hsize : output.getMapSize = 1 + (1 + 0) := by
        simp [TransactionOutput.getMapSize, requiredFieldsCount, fieldCount, hscript, hdatum]
      refine ⟨_, encodeAsHex_ok (encodes_outputArray haddress hamount (by decide) hsize ?_),
        dataItem_outputArray haddress hamount (by decide) Items.nil, fun hlength => ?_⟩
      · rw [hdatum]
        exact Encodes.pure
      · refine ⟨_, fromCbor_outputArray strict haddress hamount (by decide) rfl hlength
          (Reads.pure none), rfl, ?_, ?_, hscriptReread⟩
        · unfold outputArrayBytes at hlength
          simp only [List.length_append] at hlength
          exact hholds (by omega)
        · rw [hdatum]
          exact DatumReread.none
    · have hsize : output.getMapSize = 1 + (1 + 1) := by
        simp [TransactionOutput.getMapSize, requiredFieldsCount, fieldCount, hscript, hdatum]
      have hhash : hash.length = 32 := by
        cases h.datum _ hdatum with
        | dataHash hhash => exact hhash
      have hshort : hash.length < 2 ^ 64 := by rw [hhash]; decide
      have hnew : newDatum (some hash) none = .ok (.dataHash hash) := by
        simp [newDatum, truthy_of_length hhash]
      have hitems := Items.cons (dataItem_encodeChunk hshort) Items.nil
      rw [List.append_nil] at hitems
      refine ⟨_, encodeAsHex_ok (encodes_outputArray haddress hamount (by decide) hsize ?_),
        dataItem_outputArray haddress hamount (by decide) hitems, fun hlength => ?_⟩
      · rw [hdatum]
        exact encodes_writing (writes_byteString hshort)
      · have hread : Reads (readDatumHash (some (1 + (1 + 1)))) 1 (encodeChunk hash)
            (some (.dataHash hash)) := by
          rw [readDatumHash, if_pos rfl]
          apply (readsItem_byteString hshort).last
          intro reader
          rw [run_bind_ok (checking_ok hnew)]
          rfl
        refine ⟨_, fromCbor_outputArray strict haddress hamount (by decide) rfl hlength hread,
          rfl, ?_, ?_, hscriptReread⟩
        · unfold outputArrayBytes at hlength
          simp only [List.length_append] at hlength
          exact hholds (by omega)
        · rw [hdatum]
          exact DatumReread.dataHash hash
  · rw [if_neg hcompact]
    obtain ⟨datumEncoded, datum', hdatum, hdatumReread⟩ := rewritten_datum h.datum
    obtain ⟨scriptRef', hscriptReread⟩ := h.scriptRef
    obtain ⟨scriptEncoded, hscript⟩ := rewritten_script hscriptReread
    have hsize := getMapSize_le output
    have hitem := DataItem.map (@head_encodeHead .map output.getMapSize (by omega))
      (items_outputMap haddress hamount hdatum hscript)
    refine ⟨_, encodeAsHex_ok (encodes_outputMap haddress hamount hdatum hscript), hitem,
      fun hlength => ?_⟩
    refine ⟨_, fromCbor_outputMap strict haddress hamount hdatum hscript rfl hlength, rfl, ?_,
      hdatumReread, hscriptReread⟩
    unfold outputMapBytes fieldBytes at hlength
    simp only [List.length_append] at hlength
    exact hholds (by omega)

/-- An output as the core type describes it: its address is a text of an
address, it has one datum at most, and its script comes back from the codec of
scripts. -/
structure ValidTxOut (text : TextEncodings) (script : Codec CoreScript Script)
    (core : TxOut CoreScript) : Prop where
  address : ∃ props, AddressProps.fromString text core.address = some props
  value : ValidValue core.value.coins (tokenEntries core.value.assets)
  oneDatum : core.datum = none ∨ core.datumHash = none
  datumHash : ∀ hash ∈ core.datumHash, hash.length = 32
  datum : ∀ datum ∈ core.datum, datum.WellFormed
  scriptReference : ∀ reference ∈ core.scriptReference, script.RoundTrips (· = ·) reference

structure FitsTxOut (text : TextEncodings) (script : Codec CoreScript Script)
    (core : TxOut CoreScript) : Prop where
  address : ∀ props bytes, AddressProps.fromString text core.address = some props →
    props.toBytes text = .ok bytes → bytes.length < 2 ^ 53
  datum : ∀ datum ∈ core.datum, ∀ data cbor, PlutusData.fromCore datum = .ok data →
    data.toCbor = .ok cbor → cbor.length < 2 ^ 53
  scriptReference : ∀ reference ∈ core.scriptReference, script.Fits reference
  output : ∀ output cbor, TransactionOutput.fromCore text script core = .ok output →
    output.toCbor text script = .ok cbor → cbor.length < 2 ^ 53

/-- The same output, up to the order of its tokens and cached bytes. No token
map is the same as an empty one. -/
structure SameTxOut (core core' : TxOut CoreScript) : Prop where
  address : core.address = core'.address
  coins : core.value.coins = core'.value.coins
  assets : (tokenEntries core.value.assets).Perm (tokenEntries core'.value.assets)
  datum : core.datum.map CoreData.strip = core'.datum.map CoreData.strip
  datumHash : core.datumHash = core'.datumHash
  scriptReference : core.scriptReference = core'.scriptReference

def DatumKept (core : TxOut CoreScript) : Prop :=
  ∀ datum ∈ core.datum, datum ≠ .integer 0 ∧ datum.Kept

theorem ValidValue.perm {coin : ℤ} {tokens tokens' : List (InputSelection.AssetId × ℤ)}
    (h : ValidValue coin tokens) (hperm : tokens'.Perm tokens) : ValidValue coin tokens' where
  coin := h.coin
  quantities := fun token htoken => h.quantities token (hperm.mem_iff.mp htoken)
  tokens := {
    ids := fun token htoken => h.tokens.ids token (hperm.mem_iff.mp htoken)
    quantities := fun token htoken => h.tokens.quantities token (hperm.mem_iff.mp htoken)
    count := by rw [hperm.length_eq]; exact h.tokens.count }

theorem datum_survives {datum : Option CoreData} {datumHash : Option Hash}
    (hone : datum = none ∨ datumHash = none) (hhash : ∀ hash ∈ datumHash, hash.length = 32)
    (hdatum : ∀ value ∈ datum, value.WellFormed)
    (hfits : ∀ value ∈ datum, ∀ data cbor, PlutusData.fromCore value = .ok data →
      data.toCbor = .ok cbor → cbor.length < 2 ^ 53) :
    ∃ object, datumFromCore datum datumHash = .ok object ∧ (∀ value ∈ object, DatumFits value) ∧
      ∀ object', DatumReread object object' → ∃ result, inlineDataToCore object' = .ok result ∧
        asDataHash object' = datumHash ∧ (result.map CoreData.strip = datum.map CoreData.strip ↔
          ∀ value ∈ datum, value ≠ .integer 0 ∧ value.Kept) := by
  cases datumHash with
  | some hash =>
    obtain rfl : datum = none := hone.resolve_right (by simp)
    have hlength := hhash hash rfl
    refine ⟨some (.dataHash hash), ?_, ?_, ?_⟩
    · simp [datumFromCore, truthyDatum, hashDatum, newDatum, truthy_of_length hlength]
      rfl
    · rintro value hvalue
      cases hvalue
      exact DatumFits.dataHash hlength
    · rintro object' hreread
      cases hreread
      exact ⟨none, rfl, rfl, by simp⟩
  | none =>
    cases datum with
    | none =>
      refine ⟨none, rfl, by simp, ?_⟩
      rintro object' hreread
      cases hreread
      exact ⟨none, rfl, rfl, by simp⟩
    | some datum =>
      by_cases hzero : datum = .integer 0
      · -- zero is falsy, so that no datum is set
        subst hzero
        refine ⟨none, rfl, by simp, ?_⟩
        rintro object' hreread
        cases hreread
        exact ⟨none, rfl, rfl, by simp⟩
      · have htruthy : truthyDatum (some datum) = some datum := by
          unfold truthyDatum
          split
          · rename_i heq
            cases heq
            exact absurd rfl hzero
          · rfl
        obtain ⟨data, cbor, hdata, hcbor, _, hdecoded⟩ := datum_round_trip (hdatum datum rfl)
        have hlength := hfits datum rfl data cbor hdata hcbor
        obtain ⟨decoded, core, hread, hcore, hkept⟩ := hdecoded hlength
        refine ⟨some (.inlineData data), ?_, ?_, ?_⟩
        · unfold datumFromCore
          rw [htruthy, Option.mapM_some, inlineDatum, hdata]
          rfl
        · rintro value hvalue
          cases hvalue
          exact DatumFits.inlineData hcbor hread hlength
        · rintro object' hreread
          cases hreread with
          | inlineData hcbor' hread' =>
            rw [hcbor] at hcbor'
            cases hcbor'
            rw [hread] at hread'
            cases hread'
            refine ⟨some core, ?_, rfl, ?_⟩
            · rw [inlineDataToCore, hcore]
              rfl
            · rw [Option.map_some, Option.map_some, Option.some.injEq, hkept]
              simp [hzero]

theorem scriptReference_survives {scriptReference : Option CoreScript}
    (hscript : ∀ reference ∈ scriptReference, script.RoundTrips (· = ·) reference)
    (hfits : ∀ reference ∈ scriptReference, script.Fits reference) :
    ∃ object, scriptReference.mapM script.fromCore = .ok object ∧
      (∃ object', ScriptReread script object object') ∧
      ∀ object', ScriptReread script object object' →
        object'.mapM script.toCore = .ok scriptReference := by
  cases scriptReference with
  | none =>
    refine ⟨none, rfl, ⟨none, ScriptReread.none⟩, ?_⟩
    rintro object' hreread
    cases hreread
    rfl
  | some reference =>
    obtain ⟨object, cbor, hobject, hcbor, _, hdecoded⟩ := hscript reference rfl
    have hlength := hfits reference rfl object cbor hobject hcbor
    obtain ⟨decoded, core', hread, hcore, rfl⟩ := hdecoded hlength
    refine ⟨some object, ?_, ⟨some decoded, ScriptReread.some hcbor hread hlength⟩, ?_⟩
    · rw [Option.mapM_some, hobject]
      rfl
    · rintro object' hreread
      cases hreread with
      | some hcbor' hread' _ =>
        rw [hcbor] at hcbor'
        cases hcbor'
        rw [hread] at hread'
        cases hread'
        rw [Option.mapM_some, hcore]
        rfl

/-- A core output whose address can be written goes down to its bytes and up to
an object, which is converted to the same output exactly if its address has that
text and its datum is kept. -/
theorem transactionOutput_survives (strict : Bool) {core : TxOut CoreScript} {props : AddressProps}
    {bytes : List UInt8} (hvalid : ValidTxOut text script core) (hfits : FitsTxOut text script core)
    (hprops : AddressProps.fromString text core.address = some props)
    (hbytes : props.toBytes text = .ok bytes) :
    ∃ output cbor output', TransactionOutput.fromCore text script core = .ok output ∧
      output.toCbor text script = .ok cbor ∧ DataItem cbor ∧
      TransactionOutput.fromCbor text script strict cbor = .ok output' ∧
      ((∃ result, output'.toCore text script = .ok result ∧ SameTxOut result core) ↔
        props.toText text = .ok core.address ∧ DatumKept core) := by
  obtain ⟨data, hdata⟩ := fromBytes_of_fromString hprops
  obtain ⟨amount, hamount, huncached, hholds⟩ := @newValue_ok core.value.coins
    core.value.assets hvalid.value.tokens.ids
  obtain ⟨datum, hdatum, hdatumFits, hdatumBack⟩ := datum_survives hvalid.oneDatum hvalid.datumHash
    hvalid.datum hfits.datum
  obtain ⟨scriptRef, hscript, hscriptFits, hscriptBack⟩ :=
    scriptReference_survives hvalid.scriptReference hfits.scriptReference
  let output : TransactionOutput Script :=
    { address := props, amount := amount, datum := datum, scriptRef := scriptRef }
  have hfrom : TransactionOutput.fromCore text script core = .ok output := by
    unfold TransactionOutput.fromCore Value.fromCore
    rw [hprops, hamount, hdatum, hscript]
    rfl
  have houtput : OutputFits text script output := {
    uncached := rfl
    address := ⟨data, bytes, hdata, hbytes, hfits.address props bytes hprops hbytes⟩
    uncachedAmount := huncached
    amount := by
      rw [hholds.coin]
      exact hvalid.value.perm hholds.tokens
    datum := hdatumFits
    scriptRef := hscriptFits }
  obtain ⟨cbor, hcbor, hitem, hdecoded⟩ := output_survives strict houtput
  obtain ⟨output', hread, hreread⟩ := hdecoded (hfits.output output cbor hfrom hcbor)
  obtain ⟨result, hresult, hhash, hkept⟩ := hdatumBack output'.datum hreread.datum
  have hscriptCore := hscriptBack output'.scriptRef hreread.scriptRef
  have htext : output'.address.toText text = props.toText text := by
    rw [hreread.address]
    exact toText_written text props
  let back (address : String) : TxOut CoreScript := {
    address := address
    value := output'.amount.toCore
    datumHash := asDataHash output'.datum
    datum := result
    scriptReference := core.scriptReference }
  have hcore : output'.toCore text script = props.toText text >>= fun address =>
      .ok (back address) := by
    unfold TransactionOutput.toCore
    rw [htext, hresult, hscriptCore]
    rfl
  have hamounts := hreread.amount
  refine ⟨output, cbor, output', hfrom, hcbor, hitem, hread, ?_, ?_⟩
  · rintro ⟨core', hback, hsame⟩
    rw [hcore] at hback
    obtain ⟨address, haddress, hback⟩ := bind_ok hback
    cases hback
    have hsameAddress : address = core.address := hsame.address
    rw [← hsameAddress]
    exact ⟨haddress, hkept.mp hsame.datum⟩
  · rintro ⟨haddress, hdatumKept⟩
    refine ⟨back core.address, ?_, ?_⟩
    · rw [hcore, haddress]
      rfl
    · exact {
        address := rfl
        coins := hamounts.coin.trans hholds.coin
        assets := hamounts.tokens.trans hholds.tokens
        datum := hkept.mpr hdatumKept
        datumHash := hhash
        scriptReference := rfl }

theorem toBytes_of_writeAddress {props : AddressProps} {writer writer' : CborWriter}
    (h : writeAddress text props writer = .ok () writer') :
    ∃ bytes, props.toBytes text = .ok bytes := by
  obtain ⟨bytes, _, hbytes, _⟩ := run_bind_eq_ok h
  refine ⟨bytes, ?_⟩
  cases hresult : props.toBytes text with
  | ok result =>
    rw [hresult] at hbytes
    cases hbytes
    rfl
  | error exception =>
    rw [hresult] at hbytes
    cases hbytes

theorem toBytes_of_toCbor {output : TransactionOutput Script} (huncached : output.originalBytes = none)
    (h : output.toCbor text script = .ok cbor) : ∃ bytes, output.address.toBytes text = .ok bytes := by
  unfold TransactionOutput.toCbor at h
  rw [huncached] at h
  change encodeAsHex _ = _ at h
  unfold encodeAsHex at h
  split at h
  · rename_i writer hcalls
    split at hcalls
    · obtain ⟨_, _, _, hcalls⟩ := run_bind_eq_ok hcalls
      obtain ⟨_, _, haddress, _⟩ := run_bind_eq_ok hcalls
      exact toBytes_of_writeAddress haddress
    · obtain ⟨_, _, _, hcalls⟩ := run_bind_eq_ok hcalls
      obtain ⟨_, _, hfield, _⟩ := run_bind_eq_ok hcalls
      obtain ⟨_, _, _, haddress⟩ := run_bind_eq_ok hfield
      exact toBytes_of_writeAddress haddress
  · cases h

theorem fromCore_eq_ok {core : TxOut CoreScript} {output : TransactionOutput Script}
    (h : TransactionOutput.fromCore text script core = .ok output) :
    AddressProps.fromString text core.address = some output.address ∧ output.originalBytes = none := by
  unfold TransactionOutput.fromCore at h
  split at h
  · cases h
  · rename_i props hprops
    obtain ⟨_, _, h⟩ := bind_ok h
    obtain ⟨_, _, h⟩ := bind_ok h
    obtain ⟨_, _, h⟩ := bind_ok h
    cases h
    exact ⟨hprops, rfl⟩

/-- A core output comes back from its encoding exactly if its address is the text
of canonical bytes and its datum is kept. -/
theorem transactionOutput_round_trips_iff (strict : Bool) {core : TxOut CoreScript}
    (hvalid : ValidTxOut text script core) (hfits : FitsTxOut text script core) :
    (transactionOutputCodec text script strict).RoundTrips SameTxOut core ↔
      CanonicalText text core.address ∧ DatumKept core := by
  obtain ⟨props, hprops⟩ := hvalid.address
  rw [← toText_fromString_iff hprops fun bytes hbytes => hfits.address props bytes hprops hbytes]
  constructor
  · rintro ⟨object, cbor, hobject, hcbor, _, hdecoded⟩
    obtain ⟨hread, huncached⟩ := fromCore_eq_ok hobject
    obtain ⟨bytes, hbytes⟩ := toBytes_of_toCbor huncached hcbor
    cases hprops.symm.trans hread
    obtain ⟨output, cbor', output', hfrom, hcbor', _, hdecode', hiff⟩ :=
      transactionOutput_survives strict hvalid hfits hprops hbytes
    cases hfrom.symm.trans hobject
    cases hcbor'.symm.trans hcbor
    obtain ⟨decoded, core', hdecode, hcore, hsame⟩ := hdecoded (hfits.output _ _ hfrom hcbor)
    cases hdecode'.symm.trans hdecode
    exact hiff.mp ⟨core', hcore, hsame⟩
  · rintro ⟨htext, hkept⟩
    obtain ⟨bytes, hbytes⟩ := toBytes_of_toText htext
    obtain ⟨output, cbor, output', hfrom, hcbor, hitem, hread, hiff⟩ :=
      transactionOutput_survives strict hvalid hfits hprops hbytes
    obtain ⟨result, hresult, hsame⟩ := hiff.mpr ⟨htext, hkept⟩
    exact ⟨output, cbor, hfrom, hcbor, hitem, fun _ => ⟨output', result, hread, hresult, hsame⟩⟩

end Output

/-- The key hash is all zeros. -/
def enterpriseBytes : List UInt8 := 0x61 :: List.replicate 28 0

def enterpriseText : String := "addr1vyqqqqqqqqqqqqqqqqqqqqqqqqqqqqqqqqqqqqqqqqqqqqqkdl5mw"

def enterpriseEncodings : TextEncodings where
  bech32Encode hrp bytes :=
    if hrp = "addr" ∧ bytes = enterpriseBytes then some enterpriseText else none
  bech32Decode address := if address = enterpriseText then some enterpriseBytes else none
  base58Encode _ := ""
  base58Decode _ := none
  crc32 _ := 0

def noScripts : Codec Empty Empty where
  fromCore := nofun
  toCbor := nofun
  fromCbor _ := .error (.error "")
  toCore := nofun

def outputWithDatum (datum : CoreData) : TxOut Empty where
  address := enterpriseText
  value := { coins := 1000000, assets := none }
  datum := some datum

theorem validTxOut_outputWithDatum {datum : CoreData} (h : datum.WellFormed) :
    ValidTxOut enterpriseEncodings noScripts (outputWithDatum datum) where
  address := ⟨_, rfl⟩
  value := {
    coin := ⟨by norm_num [outputWithDatum], by norm_num [outputWithDatum]⟩
    quantities := nofun
    tokens := ⟨nofun, nofun, by norm_num [outputWithDatum, tokenEntries]⟩ }
  oneDatum := Or.inr rfl
  datumHash := nofun
  datum := by
    rintro value hvalue
    cases hvalue
    exact h
  scriptReference := nofun

theorem fitsTxOut_outputWithDatum_one :
    FitsTxOut enterpriseEncodings noScripts (outputWithDatum (.integer 1)) where
  address := by
    rintro props bytes hprops hbytes
    cases hprops
    cases hbytes
    decide
  datum := by
    rintro value hvalue data cbor hdata hcbor
    cases hvalue
    cases hdata
    cases hcbor
    decide
  scriptReference := nofun
  output := by
    rintro output cbor houtput hcbor
    cases houtput
    cases hcbor
    decide

theorem transactionOutput_round_trips_one :
    (transactionOutputCodec enterpriseEncodings noScripts true).RoundTrips SameTxOut
      (outputWithDatum (.integer 1)) := by
  have hwellFormed : (CoreData.integer 1).WellFormed := by
    rw [CoreData.WellFormed]
    trivial
  apply (transactionOutput_round_trips_iff true (validTxOut_outputWithDatum hwellFormed)
    fitsTxOut_outputWithDatum_one).mpr
  refine ⟨⟨_, enterpriseBytes, rfl, rfl, trivial, rfl⟩, ?_⟩
  rintro datum hdatum
  cases hdatum
  refine ⟨by simp, ?_⟩
  rw [CoreData.Kept]
  norm_num

/-- The datum zero is lost. -/
theorem transactionOutput_loses_zero :
    ¬ (transactionOutputCodec enterpriseEncodings noScripts true).RoundTrips SameTxOut
      (outputWithDatum (.integer 0)) := by
  rintro ⟨output, cbor, houtput, hcbor, _, hdecoded⟩
  cases houtput
  cases hcbor
  obtain ⟨decoded, core, hread, hcore, hsame⟩ := hdecoded (by decide)
  cases hread
  cases hcore
  have hdatum := hsame.datum
  simp [outputWithDatum] at hdatum

end CardanoSdk.Serialization
