import CardanoSdk.KeyManagement.OwnSignatures

/-!
`createTxInKeyPathMap`: the paths of the keys that the inputs of a body are locked with,
resolved at the same time and stored in the order in which they are resolved.
-/

namespace CardanoSdk.KeyManagement

open Lib TxConstruction
open InputSelection (TxIn)
open Cardano (AddressProps)

section Inputs

variable (knownAddresses : List GroupedAddress) (resolveInput : TxIn → Option AddressProps)

def ownAddress? (txIn : TxIn) : Option GroupedAddress :=
  (resolveInput txIn).bind fun address => knownAddresses.find? fun own => own.address = address

/-- The inputs and collaterals of the body, in the order in which they are resolved. -/
def createTxInKeyPathMap (txInputs : List TxIn) : TxInKeyPathMap :=
  txInputs.foldl (fun result txIn =>
    match ownAddress? knownAddresses resolveInput txIn with
    | some own => result.set (txInId txIn) (some own.paymentKeyPath)
    | none => result) JsMap.empty

def lockingKey (txIn : TxIn) : Option Hash :=
  match (resolveInput txIn).bind AddressProps.paymentPart with
  | some ⟨.keyHash, hash⟩ => some hash
  | _ => none

def ResolvesIds : Prop :=
  ∀ txIn txIn' : TxIn, txIn.txId = txIn'.txId → txIn.index = txIn'.index →
    resolveInput txIn = resolveInput txIn'

variable {knownAddresses resolveInput} {txIn txIn' : TxIn} {txInputs : List TxIn}

theorem txInId_inj :
    txInId txIn = txInId txIn' ↔ txIn.txId = txIn'.txId ∧ txIn.index = txIn'.index := by
  constructor
  · intro h
    have hchars := String.ofList_injective h
    rw [List.append_cons_inj_of_notMem (not_mem_hexDigits (by decide) _)
      (not_mem_toDigits (by decide) _)] at hchars
    refine ⟨toHex_injective (congrArg String.ofList hchars.1), ?_⟩
    rw [← @Nat.ofDigitChars_ten_toDigits txIn.index, hchars.2.2, Nat.ofDigitChars_ten_toDigits]
  · rintro ⟨hid, hindex⟩
    rw [txInId, txInId, hid, hindex]

theorem createTxInKeyPathMap_concat : createTxInKeyPathMap knownAddresses resolveInput
    (txInputs ++ [txIn]) =
      match ownAddress? knownAddresses resolveInput txIn with
      | some own => (createTxInKeyPathMap knownAddresses resolveInput txInputs).set (txInId txIn)
          (some own.paymentKeyPath)
      | none => createTxInKeyPathMap knownAddresses resolveInput txInputs :=
  List.foldl_concat ..

theorem get?_createTxInKeyPathMap (hresolves : ResolvesIds resolveInput) :
    (createTxInKeyPathMap knownAddresses resolveInput txInputs).get? (txInId txIn) =
      if txInId txIn ∈ txInputs.map txInId then
        (ownAddress? knownAddresses resolveInput txIn).map fun own => some own.paymentKeyPath
      else none := by
  induction txInputs using List.reverseRecOn with
  | nil => simp [createTxInKeyPathMap]
  | append_singleton others last ih =>
    rw [createTxInKeyPathMap_concat]
    simp only [List.map_append, List.map_cons, List.map_nil, List.mem_append, List.mem_singleton]
    by_cases heq : txInId txIn = txInId last
    · -- another input of the id is the same output
      obtain ⟨hid, hindex⟩ := txInId_inj.mp heq
      have hsame : ownAddress? knownAddresses resolveInput last =
          ownAddress? knownAddresses resolveInput txIn := by
        rw [ownAddress?, ownAddress?, hresolves _ _ hid hindex]
      rw [if_pos (Or.inr heq), ← hsame]
      cases hown : ownAddress? knownAddresses resolveInput last with
      | none => simp [ih, ← hsame, hown]
      | some own => simp [heq]
    · simp only [heq, or_false, ← ih]
      cases ownAddress? knownAddresses resolveInput last with
      | none => rfl
      | some own => rw [JsMap.get?_set, if_neg heq]

theorem mem_keys_createTxInKeyPathMap {id : TxInId}
    (h : id ∈ (createTxInKeyPathMap knownAddresses resolveInput txInputs).keys) :
    id ∈ txInputs.map txInId := by
  induction txInputs using List.reverseRecOn with
  | nil => cases h
  | append_singleton others last ih =>
    rw [createTxInKeyPathMap_concat] at h
    rw [List.map_append, List.mem_append]
    split at h
    · rcases JsMap.mem_keys_set.mp h with rfl | hid
      · exact Or.inr (List.mem_singleton_self _)
      · exact Or.inl (ih hid)
    · exact Or.inl (ih h)

end Inputs

theorem paymentPart_eq {address : AddressProps} {credential : Credential}
    (h : paymentCredential? address = some credential) : address.paymentPart = some credential := by
  unfold paymentCredential? at h
  split at h
  all_goals first | exact h | cases h

/-- Whichever promise is settled first, the map is correct exactly if every input that is
locked with an own payment key is at a known address, and that of the key's path. -/
theorem createTxInKeyPathMap_correct_iff (known : KnownAddresses)
    {resolveInput : TxIn → Option AddressProps} (hresolves : ResolvesIds resolveInput)
    (body : TxBody) {txInputs : List TxIn}
    (hinputs : txInputs.Perm (body.inputs ++ body.collaterals.getD [])) :
    (createTxInKeyPathMap known.addresses resolveInput txInputs).Correct known
        (lockingKey resolveInput) body ↔
      ∀ txIn ∈ body.inputs ++ body.collaterals.getD [], ∀ hash path,
        lockingKey resolveInput txIn = some hash → known.Owns none (.payment hash path) →
          (ownAddress? known.addresses resolveInput txIn).map GroupedAddress.paymentKeyPath =
            some path := by
  have hget : ∀ txIn ∈ body.inputs ++ body.collaterals.getD [], ∀ path,
      (createTxInKeyPathMap known.addresses resolveInput txInputs).get? (txInId txIn) =
          some (some path) ↔
        (ownAddress? known.addresses resolveInput txIn).map GroupedAddress.paymentKeyPath =
          some path := by
    intro txIn hmem path
    rw [get?_createTxInKeyPathMap hresolves,
      if_pos (List.mem_map_of_mem (hinputs.mem_iff.mpr hmem))]
    simp
  constructor
  · intro hcorrect txIn hmem hash path hlocked hown
    exact (hget txIn hmem path).mp ((hcorrect.paths txIn hmem path).mpr ⟨hash, hlocked, hown⟩)
  · intro hknown
    refine ⟨fun txIn hmem path => ?_, fun id hid => ?_⟩
    · rw [hget txIn hmem]
      constructor
      · intro hpath
        obtain ⟨own, hown, rfl⟩ := Option.map_eq_some_iff.mp hpath
        obtain ⟨address, hresolved, hfound⟩ := Option.bind_eq_some_iff.mp hown
        have haddress := List.find?_some hfound
        obtain rfl := of_decide_eq_true haddress
        obtain ⟨hash, hpayment⟩ := known.paymentKeys own (List.mem_of_find?_eq_some hfound)
        refine ⟨hash, ?_, .payment (List.mem_of_find?_eq_some hfound) ?_⟩
        · rw [lockingKey, hresolved, Option.bind_some, paymentPart_eq hpayment]
        · rw [GroupedAddress.paymentHash?, hpayment]
          rfl
      · rintro ⟨hash, hlocked, hown⟩
        exact hknown txIn hmem hash path hlocked hown
    · obtain ⟨txIn, hmem, hid⟩ := List.mem_map.mp (mem_keys_createTxInKeyPathMap hid)
      exact ⟨txIn, hinputs.mem_iff.mp hmem, hid⟩

/-- The outputs of one transaction are at the own address, all others at a foreign one. -/
def resolvesOwnTransaction (txIn : TxIn) : Option AddressProps :=
  if txIn.txId = List.replicate 32 4 then some baseAddress.address
  else some { baseAddress.address with paymentPart := some ⟨.keyHash, List.replicate 28 9⟩ }

def mixedInputsBody : TxBody where
  inputs := [ownTxIn, ⟨1, List.replicate 32 9, 0⟩, ⟨2, List.replicate 32 4, 1⟩]
  outputs := []
  fee := 0
  collaterals := some [⟨3, List.replicate 32 4, 2⟩]

theorem createTxInKeyPathMap_correct_iff_sample :
    (createTxInKeyPathMap oneBaseAddress.addresses resolvesOwnTransaction
      [⟨3, List.replicate 32 4, 2⟩, ⟨1, List.replicate 32 9, 0⟩, ownTxIn,
        ⟨2, List.replicate 32 4, 1⟩]).Correct oneBaseAddress (lockingKey resolvesOwnTransaction)
          mixedInputsBody := by
  have hresolves : ResolvesIds resolvesOwnTransaction := by
    intro txIn txIn' hid _
    rw [resolvesOwnTransaction, resolvesOwnTransaction, hid]
  refine (createTxInKeyPathMap_correct_iff oneBaseAddress hresolves mixedInputsBody
    (by decide)).mpr fun txIn hmem hash path hlocked hown => ?_
  by_cases htxId : txIn.txId = List.replicate 32 4
  · cases hown with
    | payment haddress _ =>
      rw [List.mem_singleton.mp haddress, ownAddress?, resolvesOwnTransaction, if_pos htxId]
      rfl
  · rw [lockingKey, resolvesOwnTransaction, if_neg htxId] at hlocked
    cases hlocked
    cases hown with
    | payment haddress hpayment =>
      rw [List.mem_singleton.mp haddress] at hpayment
      cases hpayment

end CardanoSdk.KeyManagement
