import CardanoSdk.Serialization.CborSet
import CardanoSdk.Serialization.NativeScriptRoundTrip
import CardanoSdk.Serialization.SortedMaps

/-!
`Hash`, `TransactionInput`, `AccountBalanceInterval`, `Guards` and `Credential` of
`core/src/Serialization`. A `Hash` and a `Credential` are given by the core values that
they hold.
-/

namespace CardanoSdk.Cardano

structure TxIn where
  txId : TxConstruction.Hash
  index : ℤ
  deriving DecidableEq

/-- Half open; a bound may be absent. -/
structure AccountBalanceInterval where
  inclusiveLowerBound : Option ℤ := none
  exclusiveUpperBound : Option ℤ := none
  deriving DecidableEq

end CardanoSdk.Cardano

namespace CardanoSdk.Serialization

open Lib Cbor Plutus Cardano
open TxConstruction (Credential Hash)

def hashCodec : Codec Hash Hash where
  fromCore hash := .ok hash
  toCbor hash := encodeAsHex (writing (writeByteString hash))
  fromCbor cbor := decodeWith cbor (reading readByteString)
  toCore hash := .ok hash

variable {hash : Hash} {credential : Credential}

theorem hashToCbor_ok (h : hash.length < 2 ^ 64) : hashCodec.toCbor hash = .ok (encodeChunk hash) :=
  encodeAsHex_ok (encodes_writing (writes_byteString h))

theorem hash_roundTrips (h : hash.length < 2 ^ 64) : hashCodec.RoundTrips Eq hash :=
  ⟨hash, encodeChunk hash, rfl, hashToCbor_ok h, dataItem_encodeChunk h, fun hlength =>
    ⟨hash, hash, (readsItem_byteString h).decodeWith hlength, rfl, rfl⟩⟩

def credentialCodec : Codec Credential Credential where
  fromCore credential := .ok credential
  toCbor := credentialToCbor
  fromCbor := credentialFromCbor
  toCore credential := .ok credential

theorem credential_roundTrips (h : credential.hash.length < 2 ^ 64) :
    credentialCodec.RoundTrips Eq credential := by
  obtain ⟨item, hwritten, hitem⟩ := credentialToCbor_ok h
  exact ⟨credential, item, rfl, hwritten, hitem.dataItem, fun hlength =>
    ⟨credential, credential, hitem.fromCbor hlength, rfl, rfl⟩⟩

theorem CredentialItem.begins {bytes : List UInt8} (h : CredentialItem credential bytes) :
    Begins bytes .startArray := by
  cases h with
  | mk hhead hnumber hhash => exact @begins_head .array (by simp) _ _ hhead _

structure TransactionInput where
  id : Hash
  index : ℤ
  originalBytes : Option (List UInt8) := none
  deriving DecidableEq

def transactionInputArraySize : ℕ := 2

def readTransactionInputParts (cbor : List UInt8) : DecodeM TransactionInput := do
  let txId ← reading readByteString
  let index ← reading readInt
  pure { id := txId, index := index, originalBytes := some cbor }

/-- The end of the array is not read. -/
def transactionInputCodec : Codec TxIn TransactionInput where
  fromCore coreTransactionInput :=
    .ok { id := coreTransactionInput.txId, index := coreTransactionInput.index }
  toCbor input := cachedOr input.originalBytes <| encodeAsHex do
    writing (writeStartArray (some transactionInputArraySize))
    writing (writeByteString input.id)
    writing (writeInt input.index)
  fromCbor cbor :=
    decodeWith cbor (readOpenArray transactionInputArraySize (readTransactionInputParts cbor))
  toCore input := .ok { txId := input.id, index := toNumber input.index }

theorem transactionInput_roundTrips {core : TxIn} (hid : core.txId.length < 2 ^ 64)
    (hindex : IsNumber core.index) : transactionInputCodec.RoundTrips Eq core := by
  refine Codec.roundTrips_array rfl rfl
    (@decodesRecord_open _ _ readTransactionInputParts _ (by decide) fun _ => rfl) (by decide)
    fun cbor => ?_
  change KeptItems _ _ (1 + 1) _
  refine KeptItems.exact (keptItem_byteString hid) ?_
  refine KeptItems.last (keptItem_int hindex.fits) (fun _ _ => rfl) ?_
  rintro index rfl
  refine ⟨core, ?_, rfl⟩
  change Except.ok (TxIn.mk core.txId (toNumber core.index)) = _
  rw [hindex.exact]

structure AccountBalanceInterval where
  inclusiveLowerBound : Option ℤ
  exclusiveUpperBound : Option ℤ
  originalBytes : Option (List UInt8) := none

namespace AccountBalanceInterval

def intervalArraySize : ℕ := 2

def bothNilMessage : String := "Both interval bounds cannot be nil."

/-- A bound that is absent is written as null. -/
def writeBound (bound : Option ℤ) : EncodeM Unit :=
  writeNullable (fun value => writing (writeInt value)) bound

def readBound : DecodeM (Option ℤ) := readNullable (reading readInt)

def toCbor (interval : AccountBalanceInterval) : Except EncodeException (List UInt8) :=
  cachedOr interval.originalBytes <|
    if interval.inclusiveLowerBound = none ∧ interval.exclusiveUpperBound = none then
      .error (.error (invalidState bothNilMessage))
    else encodeAsHex do
      writing (writeStartArray (some intervalArraySize))
      writeBound interval.inclusiveLowerBound
      writeBound interval.exclusiveUpperBound

def unexpectedIntervalLength (length : Option ℕ) : DecodeException :=
  .error (serializationError "INVALID_TYPE" ("account_balance_interval must be an array of " ++
    toString intervalArraySize ++ " elements, but got " ++ (length.map numberText).getD "null"))

def readBounds : DecodeM (Option ℤ × Option ℤ) := do
  let inclusiveLowerBound ← readBound
  let exclusiveUpperBound ← readBound
  pure (inclusiveLowerBound, exclusiveUpperBound)

def fromCbor (cbor : List UInt8) : Except DecodeException AccountBalanceInterval := do
  let bounds ← decodeWith cbor (readArrayOf unexpectedIntervalLength intervalArraySize readBounds)
  if bounds.1 = none ∧ bounds.2 = none then
    .error (.error (serializationError "INVALID_TYPE" bothNilMessage))
  else .ok {
    inclusiveLowerBound := bounds.1
    exclusiveUpperBound := bounds.2
    originalBytes := some cbor }

def toCore (interval : AccountBalanceInterval) : Cardano.AccountBalanceInterval where
  inclusiveLowerBound := interval.inclusiveLowerBound
  exclusiveUpperBound := interval.exclusiveUpperBound

def fromCore (interval : Cardano.AccountBalanceInterval) :
    Except DecodeException AccountBalanceInterval :=
  if interval.inclusiveLowerBound = none ∧ interval.exclusiveUpperBound = none then
    .error (.error (invalidArgument "interval" bothNilMessage))
  else .ok {
    inclusiveLowerBound := interval.inclusiveLowerBound
    exclusiveUpperBound := interval.exclusiveUpperBound }

end AccountBalanceInterval

def accountBalanceIntervalCodec : Codec Cardano.AccountBalanceInterval AccountBalanceInterval where
  fromCore := AccountBalanceInterval.fromCore
  toCbor := AccountBalanceInterval.toCbor
  fromCbor := AccountBalanceInterval.fromCbor
  toCore interval := .ok interval.toCore

/-- A bound is there, and bounds fit in a head. -/
structure ValidInterval (interval : Cardano.AccountBalanceInterval) : Prop where
  bounded : ¬ (interval.inclusiveLowerBound = none ∧ interval.exclusiveUpperBound = none)
  lower : ∀ bound, interval.inclusiveLowerBound = some bound → FitsHead bound
  upper : ∀ bound, interval.exclusiveUpperBound = some bound → FitsHead bound

theorem refuses_int : Refuses (reading readInt) := by
  have hrefused : (decodeWith nullBytes (reading readInt)).toOption = none := by decide
  intro value h
  rw [h] at hrefused
  cases hrefused

theorem refuses_byteString : Refuses (reading readByteString) := by
  have hrefused : (decodeWith nullBytes (reading readByteString)).toOption = none := by
    decide
  intro value h
  rw [h] at hrefused
  cases hrefused

theorem keptItems_bound {bound : Option ℤ} (h : ∀ value, bound = some value → FitsHead value) :
    KeptItems (AccountBalanceInterval.writeBound bound) AccountBalanceInterval.readBound 1
      (· = bound) := by
  have hkept := keptItems_nullable refuses_int fun value hvalue => keptItem_int (h value hvalue)
  refine hkept.mono fun read hread => ?_
  rw [eq_map_of_rel hread, Option.map_id']

theorem interval_roundTrips {interval : Cardano.AccountBalanceInterval} (h : ValidInterval interval) :
    accountBalanceIntervalCodec.RoundTrips Eq interval := by
  have hparts : KeptItems (do
        AccountBalanceInterval.writeBound interval.inclusiveLowerBound
        AccountBalanceInterval.writeBound interval.exclusiveUpperBound)
      AccountBalanceInterval.readBounds 2
      (· = (interval.inclusiveLowerBound, interval.exclusiveUpperBound)) := by
    change KeptItems _ _ (1 + 1) _
    refine KeptItems.append (keptItems_bound h.lower) fun lower => ?_
    refine KeptItems.map (keptItems_bound h.upper) (fun _ _ => rfl) ?_
    rintro upper rfl rfl
    rfl
  obtain ⟨content, cbor, bounds, rfl, -, hitems, hcbor, hdecoded⟩ := record_survives
    (@decodesRecord_arrayOf _ _ (fun _ => AccountBalanceInterval.readBounds) _
      AccountBalanceInterval.unexpectedIntervalLength (by decide) fun _ => rfl)
    (by decide) fun _ => hparts
  refine ⟨⟨interval.inclusiveLowerBound, interval.exclusiveUpperBound, none⟩, _,
    if_neg h.bounded, ?_, dataItem_fixedArray (by decide) hitems, fun hlength => ?_⟩
  · exact (if_neg h.bounded).trans hcbor
  · obtain ⟨hread, rfl⟩ := hdecoded hlength
    refine ⟨⟨interval.inclusiveLowerBound, interval.exclusiveUpperBound,
      some (encodeHead .array 2 ++ content)⟩, interval, ?_, rfl, rfl⟩
    exact (bind_of_ok hread).trans (if_neg h.bounded)

/-- A single instance has one of the two forms. -/
structure Guards where
  keyHashes : Option (CborSet Hash) := none
  credentials : Option (CborSet Credential) := none

namespace Guards

def toCbor (inConwayEra : Bool) (guards : Guards) : Except EncodeException (List UInt8) :=
  match guards.keyHashes with
  | some keyHashes => CborSet.toCbor inConwayEra hashCodec.toCbor keyHashes
  | none =>
    match guards.credentials with
    | some credentials => CborSet.toCbor inConwayEra credentialCodec.toCbor credentials
    | none => .error (.error (invalidState "Guards instance has no values"))

def peekElement : DecodeM CborReaderState := do
  let state ← reading peekState
  CborSet.readSetTag state
  let _ ← reading readStartArray
  reading peekState

def fromCbor (cbor : List UInt8) : Except DecodeException Guards := do
  let state ← decodeWith cbor peekElement
  if state = .startArray then do
    let credentials ← CborSet.fromCbor credentialCodec.fromCbor cbor
    return { credentials := some credentials }
  else do
    let keyHashes ← CborSet.fromCbor hashCodec.fromCbor cbor
    return { keyHashes := some keyHashes }

def fromKeyHashes (keyHashes : List Hash) : Except DecodeException Guards := do
  let set ← CborSet.fromCore hashCodec.fromCore keyHashes
  return { keyHashes := some set }

def fromCredentials (credentials : List Credential) : Except DecodeException Guards :=
  if credentials.length = 0 then .error (.error (invalidArgument "credentials"
    "Credential form guards must contain at least one element"))
  else do
    let set ← CborSet.fromCore credentialCodec.fromCore credentials
    return { credentials := some set }

def size (guards : Guards) : ℕ :=
  match guards.keyHashes with
  | some keyHashes => keyHashes.size
  | none =>
    match guards.credentials with
    | some credentials => credentials.size
    | none => 0

end Guards

theorem peekElement_ok {inConwayEra : Bool} {first : List UInt8} {elements : List (List UInt8)}
    {token : CborReaderState} (hlength : (setBytes inConwayEra (first :: elements)).length < 2 ^ 53)
    (hitems : ∀ item ∈ first :: elements, DataItem item) (hbegins : Begins first token) :
    decodeWith (setBytes inConwayEra (first :: elements)) Guards.peekElement = .ok token := by
  have hsmall := length_le_flatten hitems
  have hsize := hlength
  rw [setBytes, arrayBytes, List.length_append, List.length_append] at hsize
  refine decodeWith_ok hlength fun reader hfresh => ?_
  refine succeeds_setHead (by omega) hfresh.bytes hfresh.accepts hfresh.cachedState ?_
  intro reader hbytes haccepts
  refine succeeds_enterArray (by omega) hbytes haccepts fun inner hinner hroom => ?_
  rw [List.flatten_cons, List.append_assoc] at hinner
  have hpeek := hbegins inner _ hinner hroom.accepts
  exact ⟨_, reading_ok (peekState_ok hpeek (Or.inl hroom.cachedState))⟩

theorem set_survives_peek {Core Object : Type} {codec : Codec Core Object} {inConwayEra : Bool}
    {token : CborReaderState} {cores : List Core} (hne : cores ≠ []) (hcount : cores.length < 2 ^ 64)
    (hbegins : ∀ core ∈ cores, ∀ object element, codec.fromCore core = .ok object →
      codec.toCbor object = .ok element → Begins element token)
    (h : ∀ core ∈ cores, codec.RoundTrips Eq core) :
    ∃ set bytes decoded, CborSet.fromCore codec.fromCore cores = .ok set ∧
      set.size = cores.length ∧ CborSet.toCbor inConwayEra codec.toCbor set = .ok bytes ∧
      DataItem bytes ∧ (bytes.length < 2 ^ 53 →
        decodeWith bytes Guards.peekElement = .ok token ∧
        CborSet.fromCbor codec.fromCbor bytes = .ok decoded ∧
        CborSet.toCore codec.toCore decoded = .ok cores) := by
  obtain ⟨objects, elements, hparts⟩ := parts_survive h
  have hobjects : objects.length = cores.length := hparts.made.length_eq.symm
  have helements : elements.length = objects.length := hparts.written.length_eq.symm
  have hfew : elements.length < 2 ^ 64 := by omega
  obtain ⟨core, rest, rfl⟩ := List.exists_cons_of_ne_nil hne
  obtain ⟨object, others, hobject, -, rfl⟩ := List.forall₂_cons_left_iff.mp hparts.made
  obtain ⟨first, tail, hfirst, -, rfl⟩ := List.forall₂_cons_left_iff.mp hparts.written
  have htoken := hbegins core List.mem_cons_self object first hobject hfirst
  obtain ⟨decoded, hdecoded⟩ := exists_of_fits [] hparts.read
  refine ⟨⟨object :: others, none⟩, setBytes inConwayEra (first :: tail),
    ⟨decoded, some (setBytes inConwayEra (first :: tail))⟩, ?_, hobjects,
    encodes_set hfew hparts.written, dataItem_setBytes hfew hparts.items, fun hlength => ?_⟩
  · rw [CborSet.fromCore, mapM_of_forall₂ hparts.made]
    rfl
  · have hcontent := hlength
    rw [setBytes, arrayBytes, List.length_append, List.length_append] at hcontent
    obtain ⟨hdecodes, hrestores⟩ := hdecoded (by omega)
    obtain ⟨cores', hcores, hsame⟩ := mapM_toCore hrestores
    rw [List.forall₂_eq_eq_eq] at hsame
    subst hsame
    exact ⟨peekElement_ok hlength hparts.items htoken, decodes_set hlength hdecodes, hcores⟩

structure GuardsSurvive (inConwayEra : Bool) (guards : Guards) (count : ℕ)
    (keyHashes : Option (List Hash)) (credentials : Option (List Credential)) : Prop where
  size : guards.size = count
  written : ∃ bytes decoded, guards.toCbor inConwayEra = .ok bytes ∧ DataItem bytes ∧
    (bytes.length < 2 ^ 53 → Guards.fromCbor bytes = .ok decoded ∧
      decoded.keyHashes.mapM (CborSet.toCore hashCodec.toCore) = .ok keyHashes ∧
      decoded.credentials.mapM (CborSet.toCore credentialCodec.toCore) = .ok credentials)

theorem keyHashes_survive {inConwayEra : Bool} {keyHashes : List Hash} (hne : keyHashes ≠ [])
    (hcount : keyHashes.length < 2 ^ 64) (h : ∀ hash ∈ keyHashes, hash.length < 2 ^ 64) :
    ∃ guards, Guards.fromKeyHashes keyHashes = .ok guards ∧
      GuardsSurvive inConwayEra guards keyHashes.length (some keyHashes) none := by
  obtain ⟨set, bytes, decoded, hmade, hsize, hwritten, hitem, hread⟩ :=
    @set_survives_peek _ _ hashCodec inConwayEra .byteString keyHashes hne hcount
      (fun hash hmem object element hobject helement => by
        cases hobject
        cases (hashToCbor_ok (h hash hmem)).symm.trans helement
        exact begins_encodeHead (by simp) (h hash hmem) hash)
      (fun hash hmem => hash_roundTrips (h hash hmem))
  refine ⟨{ keyHashes := some set }, bind_of_ok hmade, hsize, bytes, { keyHashes := some decoded },
    hwritten, hitem, fun hlength => ?_⟩
  obtain ⟨hpeek, hdecoded, hcore⟩ := hread hlength
  refine ⟨?_, bind_of_ok hcore, rfl⟩
  exact (bind_of_ok hpeek).trans (bind_of_ok hdecoded)

theorem credentials_survive {inConwayEra : Bool} {credentials : List Credential}
    (hne : credentials ≠ []) (hcount : credentials.length < 2 ^ 64)
    (h : ∀ credential ∈ credentials, credential.hash.length < 2 ^ 64) :
    ∃ guards, Guards.fromCredentials credentials = .ok guards ∧
      GuardsSurvive inConwayEra guards credentials.length none (some credentials) := by
  obtain ⟨set, bytes, decoded, hmade, hsize, hwritten, hitem, hread⟩ :=
    @set_survives_peek _ _ credentialCodec inConwayEra .startArray credentials hne hcount
      (fun credential hmem object element hobject helement => by
        cases hobject
        obtain ⟨item, hwritten, hitem⟩ := credentialToCbor_ok (h credential hmem)
        cases hwritten.symm.trans helement
        exact hitem.begins)
      (fun credential hmem => credential_roundTrips (h credential hmem))
  have hpositive := List.length_pos_iff.mpr hne
  refine ⟨{ credentials := some set }, (if_neg (by omega)).trans (bind_of_ok hmade), hsize, bytes,
    { credentials := some decoded }, hwritten, hitem, fun hlength => ?_⟩
  obtain ⟨hpeek, hdecoded, hcore⟩ := hread hlength
  refine ⟨?_, rfl, bind_of_ok hcore⟩
  exact (bind_of_ok hpeek).trans (bind_of_ok hdecoded)

end CardanoSdk.Serialization
