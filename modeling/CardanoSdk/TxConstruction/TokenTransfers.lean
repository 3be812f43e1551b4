import CardanoSdk.Lib.Tables
import CardanoSdk.TxConstruction.TransactionSummary

/-!
`core/src/util/tokenTransferInspector.ts` up to the infos of the assets: what every
address gives away and receives.
-/

namespace CardanoSdk.TxConstruction

open Lib InputSelection

abbrev AddressMap := JsMap PaymentAddress Value

structure TokenTransferInspection where
  fromAddress : AddressMap
  toAddress : AddressMap

/-- `{ assets: new Map(), coins: 0n }` -/
def emptyValue : Value := { coins := 0, assets := some JsMap.empty }

section Coalesce

variable {T : Type} (address : T → PaymentAddress) (value : T → Value)

/-- The function given to `reduce`. -/
def pushToGroup (acc : JsMap PaymentAddress (List T)) (elem : T) : JsMap PaymentAddress (List T) :=
  let acc := if !acc.has (address elem) then acc.set (address elem) [] else acc
  acc.updateWhere (fun key _ => key = address elem) (fun group => group ++ [elem])

def groupByAddress (elements : List T) : JsMap PaymentAddress (List T) :=
  elements.foldl (pushToGroup address) JsMap.empty

def coalesceByAddress (elements : List T) : AddressMap :=
  (groupByAddress address elements).entries.foldl (fun coalescedByAddress entry =>
    coalescedByAddress.set entry.1 (coalesceValueQuantities (entry.2.map value))) JsMap.empty

end Coalesce

def initializeAddressMap (addresses : List PaymentAddress) : AddressMap :=
  JsMap.ofList (addresses.map fun address => (address, emptyValue))

/-- The assignments to `addressMap.get(key)!`, of the quantities that count. -/
def updateAddressMap (counts : ℤ → Bool) (addressMap : AddressMap) (key : PaymentAddress)
    (value : Value) : AddressMap :=
  let withCoins :=
    if counts value.coins then
      addressMap.updateWhere (fun address _ => address = key)
        (fun entry => { entry with coins := value.coins })
    else addressMap
  ((value.assets.map JsMap.entries).getD []).foldl (fun addressMap asset =>
    if counts asset.2 then
      addressMap.updateWhere (fun address _ => address = key)
        (fun entry =>
          { entry with assets := entry.assets.map fun assets => assets.set asset.1 asset.2 })
    else addressMap) withCoins

def updateFromAddressMap : AddressMap → PaymentAddress → Value → AddressMap :=
  updateAddressMap (fun quantity => quantity < 0)

def updateToAddressMap : AddressMap → PaymentAddress → Value → AddressMap :=
  updateAddressMap (fun quantity => quantity > 0)

/-- The loop over the inputs takes each from the outputs of its address. -/
def addInputDifference (outputs : AddressMap) (maps : TokenTransferInspection)
    (input : PaymentAddress × Value) : TokenTransferInspection :=
  let outputValue := (outputs.get? input.1).getD emptyValue
  let difference := subtractValueQuantities outputValue input.2
  { fromAddress := updateFromAddressMap maps.fromAddress input.1 difference
    toAddress := updateToAddressMap maps.toAddress input.1 difference }

/-- The loop over the outputs is for addresses without inputs. -/
def addOutputDifference (inputs toAddress : AddressMap) (output : PaymentAddress × Value) :
    AddressMap :=
  if !inputs.has output.1 then updateToAddressMap toAddress output.1 output.2 else toAddress

def computeNetDifferences (inputs outputs : AddressMap) (maps : TokenTransferInspection) :
    TokenTransferInspection :=
  let maps := inputs.entries.foldl (addInputDifference outputs) maps
  { maps with toAddress := outputs.entries.foldl (addOutputDifference inputs) maps.toAddress }

/-- `value.coins === 0n && value.assets?.size === 0` -/
def isZeroBalance (value : Value) : Bool :=
  value.coins = 0 && value.assets.map JsMap.size = some 0

def removeZeroBalanceEntries (addressMap : AddressMap) : AddressMap :=
  addressMap.entries.foldl (fun addressMap entry =>
    if isZeroBalance entry.2 then addressMap.delete entry.1 else addressMap) addressMap

def tokenTransfers (resolvedInputs : List ResolvedInput) (outputs : List TxOut) :
    TokenTransferInspection :=
  let coalescedInputsByAddress :=
    coalesceByAddress ResolvedInput.address ResolvedInput.value resolvedInputs
  let coalescedOutputsByAddress := coalesceByAddress TxOut.address TxOut.value outputs
  let addresses := uniq (coalescedInputsByAddress.keys ++ coalescedOutputsByAddress.keys)
  let differences := computeNetDifferences coalescedInputsByAddress coalescedOutputsByAddress
    { fromAddress := initializeAddressMap addresses, toAddress := initializeAddressMap addresses }
  { fromAddress := removeZeroBalanceEntries differences.fromAddress
    toAddress := removeZeroBalanceEntries differences.toAddress }

/-- The inputs count if they are resolved in time. -/
def inspectedInputs (inputResolver : TxIn → Option TxOut) (inTime : Bool) (tx : InspectedTx) :
    List ResolvedInput :=
  if inTime then (resolveInputs tx.body.inputs inputResolver).resolvedInputs else []

def tokenTransferInspector (inputResolver : TxIn → Option TxOut) (inTime : Bool)
    (tx : InspectedTx) : TokenTransferInspection :=
  tokenTransfers (inspectedInputs inputResolver inTime tx) tx.body.outputs

section Coalesce

variable {T : Type} {address : T → PaymentAddress} {value : T → Value}

theorem get?_pushToGroup (acc : JsMap PaymentAddress (List T)) (elem : T) (key : PaymentAddress) :
    (pushToGroup address acc elem).get? key =
      if address elem = key then some ((acc.get? key).getD [] ++ [elem]) else acc.get? key := by
  unfold pushToGroup
  rw [JsMap.get?_updateWhere]
  by_cases hkey : address elem = key
  · subst hkey
    cases hget : acc.get? (address elem) with
    | none => simp [JsMap.has, hget]
    | some group => simp [JsMap.has, hget]
  · have hne : key ≠ address elem := fun heq => hkey heq.symm
    have hsame : (if !acc.has (address elem) then acc.set (address elem) [] else acc).get? key =
        acc.get? key := by
      split
      · rw [JsMap.get?_set, if_neg hne]
      · rfl
    rw [hsame]
    simp [hkey, hne]

theorem get?_groupByAddress (elements : List T) (key : PaymentAddress) :
    (groupByAddress address elements).get? key =
      if key ∈ elements.map address then some (elements.filter fun elem => address elem = key)
      else none := by
  induction elements using List.reverseRecOn with
  | nil => rfl
  | append_singleton elements last ih =>
    have hstep : groupByAddress address (elements ++ [last]) =
        pushToGroup address (groupByAddress address elements) last := List.foldl_append
    rw [hstep, get?_pushToGroup, ih]
    by_cases hlast : address last = key
    · by_cases hmem : key ∈ elements.map address
      · simp [hlast, hmem]
      · have hnone : elements.filter (fun elem => address elem = key) = [] := by
          rw [List.filter_eq_nil_iff]
          intro elem helem hsame
          exact hmem (List.mem_map.mpr ⟨elem, helem, of_decide_eq_true hsame⟩)
        simp [hlast, hmem, hnone]
    · have hne : key ≠ address last := fun heq => hlast heq.symm
      simp [hlast, hne]

theorem get?_coalesceByAddress (elements : List T) (key : PaymentAddress) :
    (coalesceByAddress address value elements).get? key =
      if key ∈ elements.map address then
        some (coalesceValueQuantities
          ((elements.filter fun elem => address elem = key).map value))
      else none := by
  have hgroups : (coalesceByAddress address value elements) =
      (groupByAddress address elements).mapValues fun group =>
        coalesceValueQuantities (group.map value) := by
    have hnodup := ((groupByAddress address elements).mapValues fun group =>
      coalesceValueQuantities (group.map value)).nodup
    apply JsMap.ext
    rw [← JsMap.entries_ofList_of_nodup hnodup, JsMap.mapValues, JsMap.ofList, List.foldl_map]
    rfl
  rw [hgroups, JsMap.get?_mapValues, get?_groupByAddress]
  split <;> rfl

theorem mem_keys_coalesceByAddress {elements : List T} {key : PaymentAddress} :
    key ∈ (coalesceByAddress address value elements).keys ↔ key ∈ elements.map address := by
  rw [← JsMap.has_iff, JsMap.has, get?_coalesceByAddress]
  split
  · rename_i hmem
    exact iff_of_true rfl hmem
  · rename_i hmem
    exact iff_of_false Bool.false_ne_true hmem

theorem amount_coalesceByAddress (elements : List T) (key : PaymentAddress) (token : TokenKind) :
    (((coalesceByAddress address value elements).get? key).getD emptyValue).amount token =
      total token ((elements.filter fun elem => address elem = key).map value) := by
  rw [get?_coalesceByAddress]
  split
  · rw [Option.getD_some, amount_coalesceValueQuantities]
  · rename_i hmem
    have hnone : elements.filter (fun elem => address elem = key) = [] := by
      rw [List.filter_eq_nil_iff]
      intro elem helem hsame
      exact hmem (List.mem_map.mpr ⟨elem, helem, of_decide_eq_true hsame⟩)
    rw [hnone, Option.getD_none]
    cases token <;> rfl

end Coalesce

def assignCounted (counts : ℤ → Bool) (value entry : Value) : Value where
  coins := if counts value.coins then value.coins else entry.coins
  assets := entry.assets.map fun assets =>
    ((value.assets.map JsMap.entries).getD []).foldl
      (fun assets asset => if counts asset.2 then assets.set asset.1 asset.2 else assets) assets

theorem get?_updateAddressMap (counts : ℤ → Bool) (addressMap : AddressMap) (key : PaymentAddress)
    (value : Value) (address : PaymentAddress) :
    (updateAddressMap counts addressMap key value).get? address =
      if key = address then (addressMap.get? address).map (assignCounted counts value)
      else addressMap.get? address := by
  have hassets (assets : List (AssetId × ℤ)) (addressMap : AddressMap) :
      (assets.foldl (fun addressMap asset =>
        if counts asset.2 then
          addressMap.updateWhere (fun address _ => address = key)
            (fun entry =>
              { entry with assets := entry.assets.map fun assets => assets.set asset.1 asset.2 })
        else addressMap) addressMap).get? address =
      (addressMap.get? address).map fun entry =>
        if key = address then
          { entry with
            assets := entry.assets.map fun stored => assets.foldl (fun stored asset =>
              if counts asset.2 then stored.set asset.1 asset.2 else stored) stored }
        else entry := by
    induction assets generalizing addressMap with
    | nil =>
      simp only [List.foldl_nil, Option.map_id', ite_self]
    | cons asset rest ih =>
      rw [List.foldl_cons, ih]
      by_cases hcounts : counts asset.2 = true
      · rw [if_pos hcounts, JsMap.get?_updateWhere, Option.map_map]
        by_cases hkey : key = address
        · subst hkey
          simp [Function.comp_def, hcounts]
        · have hne : address ≠ key := fun heq => hkey heq.symm
          simp [Function.comp_def, hkey, hne]
      · rw [if_neg hcounts]
        simp only [List.foldl_cons, if_neg hcounts]
  unfold updateAddressMap
  rw [hassets]
  by_cases hkey : key = address
  · subst hkey
    have hassign : assignCounted counts value = fun entry => assignCounted counts value entry := rfl
    rw [if_pos rfl, hassign]
    by_cases hcounts : counts value.coins = true
    · simp only [if_pos hcounts, JsMap.get?_updateWhere, Option.map_map, Function.comp_def,
        decide_true, if_true, assignCounted]
    · simp only [if_neg hcounts, if_true, assignCounted]
  · have hne : address ≠ key := fun heq => hkey heq.symm
    by_cases hcounts : counts value.coins = true
    · simp [hcounts, hkey, hne, JsMap.get?_updateWhere]
    · simp [hcounts, hkey]

theorem assignCounted_emptyValue (counts : ℤ → Bool) (value : Value) :
    assignCounted counts value emptyValue =
      { coins := if counts value.coins then value.coins else 0
        assets := some ((value.assets.getD JsMap.empty).filter fun _ quantity => counts quantity) } := by
  unfold assignCounted emptyValue
  cases hassets : value.assets with
  | none => rfl
  | some assets =>
    rw [← ofList_mintInspector, JsMap.ofList, List.foldl_filter]
    rfl

variable {counts : ℤ → Bool}

theorem amount_assignCounted (hzero : counts 0 = false) (value : Value) (token : TokenKind) :
    (assignCounted counts value emptyValue).amount token =
      if counts (value.amount token) then value.amount token else 0 := by
  rw [assignCounted_emptyValue]
  cases token with
  | lovelace => rfl
  | asset id =>
    cases hassets : value.assets with
    | none => simp [Value.amount, assetsQuantity, hassets, JsMap.quantity_filter, hzero]
    | some assets =>
      simp [Value.amount, assetsQuantity, hassets, JsMap.quantity_filter]

theorem isZeroBalance_assignCounted (hzero : counts 0 = false) (value : Value) :
    isZeroBalance (assignCounted counts value emptyValue) = true ↔
      ∀ token, (assignCounted counts value emptyValue).amount token = 0 := by
  rw [assignCounted_emptyValue, isZeroBalance, Bool.and_eq_true, decide_eq_true_iff,
    decide_eq_true_iff, Option.map_some, Option.some_inj, JsMap.size_eq_zero_iff]
  constructor
  · rintro ⟨hcoins, hassets⟩ token
    cases token with
    | lovelace => exact hcoins
    | asset id =>
      dsimp only [Value.amount, assetsQuantity]
      rw [hassets]
      rfl
  · intro hall
    refine ⟨hall .lovelace, JsMap.ext (List.filter_eq_nil_iff.mpr ?_)⟩
    intro entry hentry hcounts
    have hget := JsMap.get?_eq_some_iff.mpr hentry
    have hnone := hall (.asset entry.1)
    dsimp only [Value.amount, assetsQuantity] at hnone
    rw [JsMap.quantity_filter, JsMap.quantity, hget, Option.getD_some, if_pos hcounts] at hnone
    dsimp only at hcounts
    rw [hnone, hzero] at hcounts
    exact Bool.false_ne_true hcounts

def netDifference (inputs outputs : AddressMap) (address : PaymentAddress) : Value :=
  (inputs.get? address).elim ((outputs.get? address).getD emptyValue) fun inputValue =>
    subtractValueQuantities ((outputs.get? address).getD emptyValue) inputValue

theorem amount_netDifference (inputs outputs : AddressMap) (address : PaymentAddress)
    (token : TokenKind) : (netDifference inputs outputs address).amount token =
      ((outputs.get? address).getD emptyValue).amount token -
        ((inputs.get? address).getD emptyValue).amount token := by
  unfold netDifference
  cases inputs.get? address with
  | none =>
    have hnone : emptyValue.amount token = 0 := by cases token <;> rfl
    rw [Option.elim_none, Option.getD_none, hnone, sub_zero]
  | some inputValue =>
    cases token with
    | lovelace => rfl
    | asset id => exact assetsQuantity_subtractTokenMaps _ _ id

section Differences

variable (inputs outputs : AddressMap) (maps : TokenTransferInspection) (address : PaymentAddress)

abbrev assignNegative : Value → Value → Value := assignCounted fun quantity => quantity < 0

abbrev assignPositive : Value → Value → Value := assignCounted fun quantity => quantity > 0

def TokenTransferInspection.get? (maps : TokenTransferInspection) (address : PaymentAddress) :
    Option Value × Option Value :=
  (maps.fromAddress.get? address, maps.toAddress.get? address)

def inputChange (input : PaymentAddress × Value) (entries : Option Value × Option Value) :
    Option Value × Option Value :=
  let difference := subtractValueQuantities ((outputs.get? input.1).getD emptyValue) input.2
  (entries.1.map (assignNegative difference), entries.2.map (assignPositive difference))

theorem get?_addInputDifference (input : PaymentAddress × Value) :
    (addInputDifference outputs maps input).get? address =
      if input.1 = address then inputChange outputs input (maps.get? address)
      else maps.get? address := by
  unfold TokenTransferInspection.get? addInputDifference updateFromAddressMap updateToAddressMap
  rw [get?_updateAddressMap, get?_updateAddressMap]
  split <;> rfl

theorem get?_foldl_addInputDifference :
    (inputs.entries.foldl (addInputDifference outputs) maps).get? address =
      if inputs.has address then
        ((maps.fromAddress.get? address).map (assignNegative (netDifference inputs outputs address)),
          (maps.toAddress.get? address).map (assignPositive (netDifference inputs outputs address)))
      else maps.get? address := by
  rw [foldl_view_elim (fun maps input address => get?_addInputDifference outputs maps address input)
    inputs.nodup, JsMap.find?_entries]
  unfold netDifference JsMap.has
  cases inputs.get? address with
  | none => rfl
  | some inputValue => rfl

def outputChange (output : PaymentAddress × Value) (entry : Option Value) : Option Value :=
  if !inputs.has output.1 then entry.map (assignPositive output.2) else entry

theorem get?_addOutputDifference (toAddress : AddressMap) (output : PaymentAddress × Value) :
    (addOutputDifference inputs toAddress output).get? address =
      if output.1 = address then outputChange inputs output (toAddress.get? address)
      else toAddress.get? address := by
  unfold addOutputDifference outputChange updateToAddressMap
  by_cases hspends : (!inputs.has output.1) = true
  · rw [if_pos hspends, if_pos hspends, get?_updateAddressMap]
  · rw [if_neg hspends, if_neg hspends, ite_self]

theorem get?_foldl_addOutputDifference (toAddress : AddressMap) :
    (outputs.entries.foldl (addOutputDifference inputs) toAddress).get? address =
      if !inputs.has address && outputs.has address then
        (toAddress.get? address).map (assignPositive (netDifference inputs outputs address))
      else toAddress.get? address := by
  rw [foldl_view_elim (fun toAddress output address =>
    get?_addOutputDifference inputs address toAddress output) outputs.nodup, JsMap.find?_entries]
  unfold netDifference
  cases houtput : outputs.get? address with
  | none => simp [JsMap.has, houtput]
  | some outputValue =>
    cases hinput : inputs.get? address with
    | none => simp [JsMap.has, houtput, hinput, outputChange]
    | some inputValue => simp [JsMap.has, houtput, hinput, outputChange]

end Differences

theorem get?_removeZeroBalanceEntries (addressMap : AddressMap) (address : PaymentAddress) :
    (removeZeroBalanceEntries addressMap).get? address =
      (addressMap.get? address).filter fun value => !isZeroBalance value := by
  have hstep (m : AddressMap) (entry : PaymentAddress × Value) (address : PaymentAddress) :
      JsMap.get? (if isZeroBalance entry.2 then m.delete entry.1 else m) address =
        if entry.1 = address then if isZeroBalance entry.2 then none else m.get? address
        else m.get? address := by
    by_cases hzero : isZeroBalance entry.2 = true
    · rw [if_pos hzero, if_pos hzero, JsMap.get?_delete]
      exact if_congr eq_comm rfl rfl
    · rw [if_neg hzero, if_neg hzero, ite_self]
  have hloop := @foldl_view_elim AddressMap (Option Value) PaymentAddress (PaymentAddress × Value) _
    JsMap.get? (fun m entry => if isZeroBalance entry.2 then m.delete entry.1 else m) Prod.fst
    (fun entry current => if isZeroBalance entry.2 then none else current)
    hstep _ addressMap.nodup addressMap address
  rw [JsMap.find?_entries] at hloop
  refine hloop.trans ?_
  cases addressMap.get? address with
  | none => rfl
  | some value =>
    rw [Option.filter_some]
    by_cases hzero : isZeroBalance value = true <;> simp [hzero]

/-- The amount at an address, nothing where it is not listed. -/
def amountAt (addressMap : AddressMap) (address : PaymentAddress) (token : TokenKind) : ℤ :=
  ((addressMap.get? address).map fun value => value.amount token).getD 0

inductive HasCounted (counts : ℤ → Bool) (difference : Value) : Option Value → Prop where
  | assigned : HasCounted counts difference (some (assignCounted counts difference emptyValue))
  | initial (h : ∀ token, counts (difference.amount token) = false) :
      HasCounted counts difference (some emptyValue)
  | missing (h : ∀ token, counts (difference.amount token) = false) :
      HasCounted counts difference none

theorem filter_emptyValue : (some emptyValue).filter (fun value => !isZeroBalance value) = none :=
  rfl

section Counted

variable {counts : ℤ → Bool} {difference : Value} {addressMap : AddressMap}
  {address : PaymentAddress} {entry : Option Value}

theorem amountAt_removeZeroBalanceEntries (hzero : counts 0 = false)
    (h : HasCounted counts difference entry) (hget : addressMap.get? address = entry)
    (token : TokenKind) :
    amountAt (removeZeroBalanceEntries addressMap) address token =
      if counts (difference.amount token) then difference.amount token else 0 := by
  unfold amountAt
  rw [get?_removeZeroBalanceEntries, hget]
  cases h with
  | assigned =>
    rw [← amount_assignCounted hzero, Option.filter_some]
    by_cases hbalance : isZeroBalance (assignCounted counts difference emptyValue) = true
    · rw [(isZeroBalance_assignCounted hzero difference).mp hbalance]
      simp [hbalance]
    · simp [hbalance]
  | initial hnone =>
    rw [filter_emptyValue, hnone token]
    rfl
  | missing hnone => simp [hnone token]

theorem mem_keys_removeZeroBalanceEntries (hzero : counts 0 = false)
    (h : HasCounted counts difference entry) (hget : addressMap.get? address = entry) :
    address ∈ (removeZeroBalanceEntries addressMap).keys ↔
      ∃ token, amountAt (removeZeroBalanceEntries addressMap) address token ≠ 0 := by
  rw [← not_iff_not, ← JsMap.get?_eq_none_iff]
  simp only [amountAt_removeZeroBalanceEntries hzero h hget, ne_eq, not_exists, not_not]
  rw [get?_removeZeroBalanceEntries, hget]
  cases h with
  | assigned =>
    simp only [← amount_assignCounted hzero, ← isZeroBalance_assignCounted hzero]
    rw [Option.filter_some]
    by_cases hbalance : isZeroBalance (assignCounted counts difference emptyValue) = true <;>
      simp [hbalance]
  | initial hnone =>
    rw [filter_emptyValue]
    simp [hnone]
  | missing hnone => simp [hnone]

end Counted

theorem get?_initializeAddressMap (addresses : List PaymentAddress) (address : PaymentAddress) :
    (initializeAddressMap addresses).get? address =
      if address ∈ addresses then some emptyValue else none := by
  have hset := JsMap.get?_foldl_set_const id emptyValue addresses JsMap.empty address
  unfold initializeAddressMap JsMap.ofList
  rw [List.foldl_map]
  rw [List.map_id] at hset
  split
  · rename_i hmem
    exact hset.1 hmem
  · rename_i hmem
    exact hset.2 hmem

section Entries

variable {inputs outputs : AddressMap} {address : PaymentAddress}

def initialMaps (inputs outputs : AddressMap) : TokenTransferInspection where
  fromAddress := initializeAddressMap (uniq (inputs.keys ++ outputs.keys))
  toAddress := initializeAddressMap (uniq (inputs.keys ++ outputs.keys))

theorem get?_initialMaps : (initialMaps inputs outputs).get? address =
    if inputs.has address || outputs.has address then (some emptyValue, some emptyValue)
    else (none, none) := by
  have hmem : address ∈ uniq (inputs.keys ++ outputs.keys) ↔
      (inputs.has address || outputs.has address) = true := by
    rw [mem_uniq, List.mem_append, Bool.or_eq_true, JsMap.has_iff, JsMap.has_iff]
  unfold initialMaps TokenTransferInspection.get?
  rw [get?_initializeAddressMap]
  simp only [hmem]
  split <;> rfl

theorem hasCounted_fromAddress
    (hnonneg : inputs.has address = false →
      ∀ token, 0 ≤ (netDifference inputs outputs address).amount token) :
    HasCounted (fun quantity => quantity < 0) (netDifference inputs outputs address)
      ((computeNetDifferences inputs outputs (initialMaps inputs outputs)).fromAddress.get?
        address) := by
  have hloop := congrArg Prod.fst
    (get?_foldl_addInputDifference inputs outputs (initialMaps inputs outputs) address)
  have hinitial := @get?_initialMaps inputs outputs address
  change JsMap.get? (computeNetDifferences inputs outputs _).fromAddress address = _ at hloop
  rw [hloop]
  cases hinputs : inputs.has address with
  | true =>
    rw [hinputs, Bool.true_or, if_pos rfl] at hinitial
    rw [if_pos rfl]
    dsimp only
    rw [(Prod.mk.inj hinitial).1]
    exact .assigned
  | false =>
    have hnone (token : TokenKind) :
        decide ((netDifference inputs outputs address).amount token < 0) = false :=
      decide_eq_false (not_lt.mpr (hnonneg hinputs token))
    rw [hinputs] at hinitial
    rw [if_neg Bool.false_ne_true, hinitial]
    cases outputs.has address with
    | true => exact .initial hnone
    | false => exact .missing hnone

theorem hasCounted_toAddress :
    HasCounted (fun quantity => quantity > 0) (netDifference inputs outputs address)
      ((computeNetDifferences inputs outputs (initialMaps inputs outputs)).toAddress.get?
        address) := by
  have hloop := congrArg Prod.snd
    (get?_foldl_addInputDifference inputs outputs (initialMaps inputs outputs) address)
  have hinitial := @get?_initialMaps inputs outputs address
  unfold computeNetDifferences
  dsimp only
  rw [get?_foldl_addOutputDifference]
  unfold TokenTransferInspection.get? at hloop
  dsimp only at hloop
  rw [hloop]
  cases hinputs : inputs.has address with
  | true =>
    rw [hinputs, Bool.true_or, if_pos rfl] at hinitial
    rw [Bool.not_true, Bool.false_and, if_neg Bool.false_ne_true, if_pos rfl]
    dsimp only
    rw [(Prod.mk.inj hinitial).2]
    exact .assigned
  | false =>
    rw [hinputs, Bool.false_or] at hinitial
    rw [if_neg Bool.false_ne_true, Bool.not_false, Bool.true_and]
    cases houtputs : outputs.has address with
    | true =>
      rw [houtputs, if_pos rfl] at hinitial
      rw [if_pos rfl]
      dsimp only
      rw [(Prod.mk.inj hinitial).2]
      exact .assigned
    | false =>
      rw [houtputs, if_neg Bool.false_ne_true] at hinitial
      rw [if_neg Bool.false_ne_true]
      dsimp only
      rw [(Prod.mk.inj hinitial).2]
      refine .missing fun token => ?_
      have hin : inputs.get? address = none := by
        rwa [JsMap.has, Option.isSome_eq_false_iff, Option.isNone_iff_eq_none] at hinputs
      have hout : outputs.get? address = none := by
        rwa [JsMap.has, Option.isSome_eq_false_iff, Option.isNone_iff_eq_none] at houtputs
      rw [amount_netDifference, hin, hout, sub_self]
      rfl

end Entries

section Transfers

variable {resolvedInputs : List ResolvedInput} {outputs : List TxOut} {address : PaymentAddress}

def inputsOf (resolvedInputs : List ResolvedInput) (address : PaymentAddress) : List Value :=
  (resolvedInputs.filter fun input => input.address = address).map ResolvedInput.value

def outputsOf (outputs : List TxOut) (address : PaymentAddress) : List Value :=
  (outputs.filter fun out => out.address = address).map TxOut.value

/-- The inspection says of an address what it gave away and received. -/
structure ExactTransfer (inspection : TokenTransferInspection) (resolvedInputs : List ResolvedInput)
    (outputs : List TxOut) (address : PaymentAddress) : Prop where
  difference : ∀ token,
    amountAt inspection.fromAddress address token + amountAt inspection.toAddress address token =
      total token (outputsOf outputs address) - total token (inputsOf resolvedInputs address)
  given : ∀ token, amountAt inspection.fromAddress address token ≤ 0
  received : ∀ token, 0 ≤ amountAt inspection.toAddress address token
  oneSided : ∀ token, amountAt inspection.fromAddress address token = 0 ∨
    amountAt inspection.toAddress address token = 0
  listedFrom : address ∈ inspection.fromAddress.keys ↔
    ∃ token, amountAt inspection.fromAddress address token ≠ 0
  listedTo : address ∈ inspection.toAddress.keys ↔
    ∃ token, amountAt inspection.toAddress address token ≠ 0

theorem amount_coalescedDifference (token : TokenKind) :
    (netDifference (coalesceByAddress ResolvedInput.address ResolvedInput.value resolvedInputs)
        (coalesceByAddress TxOut.address TxOut.value outputs) address).amount token =
      total token (outputsOf outputs address) - total token (inputsOf resolvedInputs address) := by
  rw [amount_netDifference, amount_coalesceByAddress, amount_coalesceByAddress]
  rfl

theorem exactTransfer_tokenTransfers (resolvedInputs : List ResolvedInput) (outputs : List TxOut)
    (houtputs : ∀ out ∈ outputs, out.value.Nonneg) (address : PaymentAddress) :
    ExactTransfer (tokenTransfers resolvedInputs outputs) resolvedInputs outputs address := by
  have hdifference := @amount_coalescedDifference resolvedInputs outputs address
  have hreceives (hspends : (coalesceByAddress ResolvedInput.address ResolvedInput.value
      resolvedInputs).has address = false) (token : TokenKind) :
      0 ≤ (netDifference (coalesceByAddress ResolvedInput.address ResolvedInput.value
        resolvedInputs) (coalesceByAddress TxOut.address TxOut.value outputs) address).amount
          token := by
    have hnone : inputsOf resolvedInputs address = [] := by
      rw [← Bool.not_eq_true, JsMap.has_iff, mem_keys_coalesceByAddress] at hspends
      refine List.map_eq_nil_iff.mpr (List.filter_eq_nil_iff.mpr fun input hmem hsame => ?_)
      exact hspends (List.mem_map.mpr ⟨input, hmem, of_decide_eq_true hsame⟩)
    rw [hdifference, hnone, total_nil, sub_zero]
    refine total_nonneg (fun value hvalue => ?_) token
    obtain ⟨out, hout, rfl⟩ := List.mem_map.mp hvalue
    exact houtputs out (List.mem_of_mem_filter hout)
  have hfrom := hasCounted_fromAddress hreceives
  have hto := @hasCounted_toAddress
    (coalesceByAddress ResolvedInput.address ResolvedInput.value resolvedInputs)
    (coalesceByAddress TxOut.address TxOut.value outputs) address
  have hgiven (token : TokenKind) := amountAt_removeZeroBalanceEntries
    (decide_eq_false (lt_irrefl 0)) hfrom rfl token
  have hreceived (token : TokenKind) := amountAt_removeZeroBalanceEntries
    (decide_eq_false (lt_irrefl 0)) hto rfl token
  simp only [hdifference, decide_eq_true_eq] at hgiven hreceived
  refine
    { difference := fun token => ?_
      given := fun token => ?_
      received := fun token => ?_
      oneSided := fun token => ?_
      listedFrom := mem_keys_removeZeroBalanceEntries (decide_eq_false (lt_irrefl 0)) hfrom rfl
      listedTo := mem_keys_removeZeroBalanceEntries (decide_eq_false (lt_irrefl 0)) hto rfl }
  · refine (congrArg₂ (· + ·) (hgiven token) (hreceived token)).trans ?_
    split <;> split <;> omega
  · refine (hgiven token).trans_le ?_
    split <;> omega
  · refine le_of_le_of_eq ?_ (hreceived token).symm
    split <;> omega
  · by_cases hnegative : total token (outputsOf outputs address) -
        total token (inputsOf resolvedInputs address) < 0
    · exact Or.inr ((hreceived token).trans (if_neg (by omega)))
    · exact Or.inl ((hgiven token).trans (if_neg hnegative))

/-- Both maps are exact for any lists, as long as no output pays a negative quantity, and so
they are for the inputs that the inspector resolves and the outputs of its transaction. -/
theorem tokenTransfers_exact (address : PaymentAddress) :
    (∀ (resolvedInputs : List ResolvedInput) (outputs : List TxOut),
      (∀ out ∈ outputs, out.value.Nonneg) →
        ExactTransfer (tokenTransfers resolvedInputs outputs) resolvedInputs outputs address) ∧
    ∀ (inputResolver : TxIn → Option TxOut) (inTime : Bool) (tx : InspectedTx),
      (∀ out ∈ tx.body.outputs, out.value.Nonneg) →
        ExactTransfer (tokenTransferInspector inputResolver inTime tx)
          (inspectedInputs inputResolver inTime tx) tx.body.outputs address :=
  ⟨fun resolvedInputs outputs houtputs =>
      exactTransfer_tokenTransfers resolvedInputs outputs houtputs address,
    fun inputResolver inTime tx houtputs =>
      exactTransfer_tokenTransfers (inspectedInputs inputResolver inTime tx) _ houtputs address⟩

/-- A payment with an asset, from the address that every input is resolved to. -/
def inspectedPayment : InspectedTx where
  body :=
    { inputs := [⟨0, [1], 0⟩]
      outputs := [{ address := "to", value := { coins := 4, assets := some (.ofList [([2], 3)]) } }]
      fee := 1 }

def resolvesToSender (_ : TxIn) : Option TxOut :=
  some { address := "from", value := { coins := 5, assets := some (.ofList [([2], 3)]) } }

theorem tokenTransfers_exact_payment :
    ExactTransfer (tokenTransferInspector resolvesToSender true inspectedPayment)
      [⟨⟨0, [1], 0⟩, "from", { coins := 5, assets := some (.ofList [([2], 3)]) }⟩]
      inspectedPayment.body.outputs "to" :=
  (tokenTransfers_exact "to").2 resolvesToSender true inspectedPayment (by decide)

end Transfers

end CardanoSdk.TxConstruction
