import CardanoSdk.KeyManagement.Witnesser

/-!
The stub signs for at least as many keys as the key agent.
-/

namespace CardanoSdk.KeyManagement

open Lib TxConstruction
open Cbor (RangeError encodeHead length_encodeHead_mono WritesWhen writesWhen_typeValue
  writesWhen_byteString writes_encodedValue)
open Plutus (encodeWith encodeWith_eq_ok writes_elements)
open Serialization (cborSetToCbor setTag)

def addedWitnesses (tx : Transaction) (result : Signatures) : ℕ :=
  result.size - tx.signatures.size

/-- The keys the stub draws are different, also from those already there. -/
def DistinctStubKeys (randomPublicKey : ℕ → Ed25519PublicKey) (tx : Transaction)
    (context : SignTransactionContext) (options : WitnessOptions) : Prop :=
  ∀ total, totalSignature tx.body.core context options = .ok total →
    ((List.range total).map randomPublicKey ++ tx.signatures.keys).Nodup

/-- The context names the key agent's own DRep key. -/
def OwnDRepKeyHash (agent : InMemoryKeyAgent) (context : SignTransactionContext) : Prop :=
  ∀ dRepKey, agent.derivePublicKey dRepKeyDerivationPath = .ok dRepKey →
    context.dRepKeyHashHex = some (agent.hash dRepKey)

variable {signatures : Signatures} {txBody : TransactionBody}

variable {agent : InMemoryKeyAgent} {context : SignTransactionContext} {options : WitnessOptions}
  {cbor : List UInt8}

theorem signTransaction_ok (hdRep : OwnDRepKeyHash agent context)
    (h : agent.signTransaction txBody context options = .ok signatures) :
    ∃ derivationPaths, requiredKeyPaths txBody.core context context.dRepKeyHashHex =
        .ok derivationPaths ∧
      signatures.size ≤ (uniqWith (sameKey roleAndIndex)
        (derivationPaths ++ options.additionalKeyPaths.getD [])).length := by
  obtain ⟨dRepKey, hderive, h⟩ := bind_ok h
  obtain ⟨derivationPaths, hpaths, h⟩ := bind_ok h
  obtain ⟨signed, hsigned, h⟩ := bind_ok h
  cases h
  refine ⟨derivationPaths, ?_, ?_⟩
  · rw [hdRep dRepKey hderive]
    exact hpaths
  · have hlength := (forall₂_of_mapM_ok hsigned).length_eq
    have hle := JsMap.size_ofList_le signed
    omega

theorem size_extraSigners_le {extraSigners : List TransactionSigner} {result : Signatures}
    (h : extraSigners.foldlM (fun signatures extraSigner => do
      let extraSignature ← extraSigner txBody
      return signatures.set extraSignature.pubKey extraSignature.signature) signatures =
        .ok result) : result.size ≤ signatures.size + extraSigners.length := by
  induction extraSigners generalizing signatures with
  | nil =>
    cases h
    exact le_rfl
  | cons extraSigner rest ih =>
    rw [List.foldlM_cons] at h
    obtain ⟨next, hnext, h⟩ := bind_ok h
    obtain ⟨extraSignature, _, hset⟩ := bind_ok hnext
    cases hset
    have hrest := ih h
    have hone := JsMap.size_set_le signatures extraSignature.pubKey extraSignature.signature
    rw [List.length_cons]
    omega

theorem getSignatures_le_total (hdRep : OwnDRepKeyHash agent context)
    (h : getSignatures agent txBody context options = .ok signatures) :
    ∃ total, totalSignature txBody.core context options = .ok total ∧ signatures.size ≤ total := by
  obtain ⟨own, hown, h⟩ := bind_ok h
  obtain ⟨derivationPaths, hpaths, hsize⟩ := signTransaction_ok hdRep hown
  have hextra := size_extraSigners_le h
  have hunique := @length_uniqWith_le _ _ _ roleAndIndex _
    (derivationPaths ++ options.additionalKeyPaths.getD [])
  refine ⟨_, ?_, hextra.trans (Nat.add_le_add_right (hsize.trans hunique) _)⟩
  unfold totalSignature
  rw [hpaths]
  rfl

def stubSignatures (randomPublicKey : ℕ → Ed25519PublicKey) (total : ℕ) : Signatures :=
  (List.range total).foldl (fun signatureMap i =>
    signatureMap.set (randomPublicKey i) mockSignature) JsMap.empty

theorem entries_stub {randomPublicKey : ℕ → Ed25519PublicKey} {total : ℕ}
    (h : ((List.range total).map randomPublicKey).Nodup) :
    (stubSignatures randomPublicKey total).entries =
      (List.range total).map fun i => (randomPublicKey i, mockSignature) := by
  have hkeys : (((List.range total).map fun i => (randomPublicKey i, mockSignature)).map
      Prod.fst).Nodup := by
    rw [List.map_map]
    exact h
  rw [← JsMap.entries_ofList_of_nodup hkeys, JsMap.ofList, List.foldl_map]
  rfl

theorem length_vkeyWitnessToCbor {vkey : Ed25519PublicKey} {signature : Ed25519Signature}
    (h : vkeyWitnessToCbor vkey signature = .ok cbor) : cbor.length = 101 := by
  have hwrites := (writesWhen_typeValue .array 2).bind
    ((writesWhen_byteString vkey.1).bind (writesWhen_byteString signature.1))
  obtain ⟨_, rfl⟩ := encodeWith_eq_ok hwrites h
  simp only [List.length_append, vkey.2, signature.2]
  rfl

theorem length_flatten_vkeyWitnesses
    {entries : List (Ed25519PublicKey × Ed25519Signature)} {elements : List (List UInt8)}
    (h : List.Forall₂ (fun entry element => vkeyWitnessToCbor entry.1 entry.2 = .ok element)
      entries elements) : elements.flatten.length = 101 * entries.length := by
  induction h with
  | nil => rfl
  | cons helement _ ih =>
    have hlength := length_vkeyWitnessToCbor helement
    rw [List.flatten_cons, List.length_append, List.length_cons, ih]
    omega

theorem length_vkeysToCbor {inConwayEra : Bool}
    (h : vkeysToCbor inConwayEra signatures = .ok cbor) :
    cbor.length = (if inConwayEra then 3 else 0) +
      (encodeHead .array signatures.size).length + 101 * signatures.size := by
  obtain ⟨elements, helements, hset⟩ := bind_ok h
  have hrelated := forall₂_of_mapM_ok helements
  have hlength : elements.length = signatures.size := hrelated.length_eq.symm
  have hflatten : elements.flatten.length = 101 * signatures.size :=
    length_flatten_vkeyWitnesses hrelated
  have harray := (writesWhen_typeValue .array elements.length).bind
    (writes_elements elements).always
  cases inConwayEra with
  | false =>
    obtain ⟨_, rfl⟩ := encodeWith_eq_ok (Cbor.Writes.pure.always.bind harray) hset
    rw [List.nil_append, List.length_append, hflatten, hlength]
    simp
  | true =>
    obtain ⟨_, rfl⟩ := encodeWith_eq_ok ((writesWhen_typeValue .tag setTag).bind harray) hset
    have htag : (encodeHead .tag setTag).length = 3 := rfl
    rw [List.length_append, List.length_append, hflatten, hlength, htag]
    simp [Nat.add_assoc]

/-- For the same arguments the key agent adds at most as many key witnesses as
the stub, and the encoding of the key witnesses is no longer. -/
theorem witness_le_stub {agent : InMemoryKeyAgent} {randomPublicKey : ℕ → Ed25519PublicKey}
    {tx : Transaction} {context : SignTransactionContext} {options : WitnessOptions}
    {signed : Signatures} (hdRep : OwnDRepKeyHash agent context)
    (hdistinct : DistinctStubKeys randomPublicKey tx context options)
    (h : witness agent randomPublicKey tx context { options with stubSign := some false } =
      .ok signed) :
    ∃ stub, witness agent randomPublicKey tx context { options with stubSign := some true } =
        .ok stub ∧
      addedWitnesses tx signed ≤ addedWitnesses tx stub ∧
      ∀ inConwayEra signedCbor stubCbor, vkeysToCbor inConwayEra signed = .ok signedCbor →
        vkeysToCbor inConwayEra stub = .ok stubCbor → signedCbor.length ≤ stubCbor.length := by
  obtain ⟨signatures, hsignatures, h⟩ := bind_ok h
  cases h
  obtain ⟨total, htotal, hsize⟩ := getSignatures_le_total hdRep hsignatures
  have hkeys := hdistinct total htotal
  have hstub := entries_stub (List.nodup_append.mp hkeys).1
  have hstubSize : (JsMap.ofList ((stubSignatures randomPublicKey total).entries ++
      tx.signatures.entries)).size = total + tx.signatures.size := by
    have hkeysEq : (((List.range total).map fun i => (randomPublicKey i, mockSignature)) ++
        tx.signatures.entries).map Prod.fst = (List.range total).map randomPublicKey ++
          tx.signatures.keys := by
      rw [List.map_append, List.map_map]
      rfl
    rw [hstub, JsMap.size, JsMap.entries_ofList_of_nodup (by rw [hkeysEq]; exact hkeys),
      List.length_append, List.length_map, List.length_range]
    rfl
  have hsignedSize : (JsMap.ofList (signatures.entries ++ tx.signatures.entries)).size ≤
      total + tx.signatures.size := by
    apply (JsMap.size_ofList_le _).trans
    rw [List.length_append]
    exact Nat.add_le_add_right hsize _
  refine ⟨JsMap.ofList ((stubSignatures randomPublicKey total).entries ++ tx.signatures.entries),
    ?_, ?_, ?_⟩
  · have htotal' : totalSignature tx.body.core context { options with stubSign := some true } =
        .ok total := htotal
    unfold witness stubSignTransaction
    rw [if_pos rfl, htotal']
    rfl
  · unfold addedWitnesses
    rw [hstubSize]
    omega
  · intro inConwayEra signedCbor stubCbor hsigned hstubCbor
    rw [length_vkeysToCbor hsigned, length_vkeysToCbor hstubCbor, hstubSize]
    have hhead := length_encodeHead_mono .array hsignedSize
    omega

def sampleKey (byte : UInt8) : Ed25519PublicKey := ⟨List.replicate 32 byte, List.length_replicate⟩

def sampleAgent : InMemoryKeyAgent where
  derivePublicKey path := .ok (sampleKey (UInt8.ofNat path.role.toNat))
  hash key := key.1.take 1
  signBlob path _ := .ok (sampleKey (UInt8.ofNat path.role.toNat), mockSignature)

/-- A transaction without inputs of the wallet, signed for one path given twice. -/
def sampleTransaction : Transaction where
  body := { core := { inputs := [], outputs := [], fee := 0 }, hash := [] }
  signatures := JsMap.empty

def sampleContext : SignTransactionContext where
  txInKeyPathMap := JsMap.empty
  knownAddresses := []
  dRepKeyHashHex := some [3]

def sampleOptions : WitnessOptions where
  additionalKeyPaths := some [⟨.stake, 0⟩, ⟨.stake, 0⟩, ⟨.external, 4⟩]

theorem witness_le_stub_sample : ∃ signed stub,
    witness sampleAgent (fun i => sampleKey (UInt8.ofNat i)) sampleTransaction sampleContext
      { sampleOptions with stubSign := some false } = .ok signed ∧
    witness sampleAgent (fun i => sampleKey (UInt8.ofNat i)) sampleTransaction sampleContext
      { sampleOptions with stubSign := some true } = .ok stub ∧
    addedWitnesses sampleTransaction signed ≤ addedWitnesses sampleTransaction stub := by
  have hdRep : OwnDRepKeyHash sampleAgent sampleContext := by
    intro dRepKey hkey
    cases hkey
    rfl
  have htotal : totalSignature sampleTransaction.body.core sampleContext sampleOptions = .ok 2 := rfl
  have hdistinct : DistinctStubKeys (fun i => sampleKey (UInt8.ofNat i)) sampleTransaction
      sampleContext sampleOptions := by
    intro total h
    rw [htotal] at h
    cases h
    decide
  have hsigned : ∃ signed, witness sampleAgent (fun i => sampleKey (UInt8.ofNat i))
      sampleTransaction sampleContext { sampleOptions with stubSign := some false } =
        .ok signed := ⟨_, rfl⟩
  obtain ⟨signed, hsigned⟩ := hsigned
  obtain ⟨stub, hstub, hadded, _⟩ := witness_le_stub hdRep hdistinct hsigned
  exact ⟨signed, stub, hsigned, hstub, hadded⟩

end CardanoSdk.KeyManagement
