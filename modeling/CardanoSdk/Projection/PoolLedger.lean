import CardanoSdk.Projection.EpochBoundary
import CardanoSdk.Projection.StakePools
import CardanoSdk.Util.SlotCalculators

/-!
The certificates of pools along a chain, what the ledger permits of them, and what
`withStakePools` makes of a block.
-/

namespace CardanoSdk.Projection

open Lib Util
open TxConstruction (PoolId)
open Wallet (PartialBlockHeader)

inductive PoolAction where
  | registration
  | retirement (epoch : ℕ)
  deriving DecidableEq

def poolAction? (poolId : PoolId) : PoolCertificate → Option PoolAction
  | .poolRegistration poolParameters =>
    if poolParameters.id = poolId then some .registration else none
  | .poolRetirement id epoch => if id = poolId then some (.retirement epoch) else none
  | .other => none

/-- A pool is registered until the epoch at which its last certificate retires it. -/
def Registered (epochNo : ℕ) : Option PoolAction → Prop
  | none => False
  | some .registration => True
  | some (.retirement epoch) => epochNo < epoch

/-- Only registered pools retire, and not before the next epoch. -/
def PoolAction.Permitted (epochNo : ℕ) (last : Option PoolAction) : PoolAction → Prop
  | .registration => True
  | .retirement epoch => Registered epochNo last ∧ epochNo < epoch

/-- The actions of one pool within an epoch, after its last one before. -/
def PermittedActions (epochNo : ℕ) : Option PoolAction → List PoolAction → Prop
  | _, [] => True
  | last, action :: actions =>
    action.Permitted epochNo last ∧ PermittedActions epochNo (some action) actions

/-- The actions of a block are those of the transactions that passed validation. -/
def blockActions (poolId : PoolId) (block : Block PoolCertificate) : List PoolAction :=
  ((block.body.filter fun tx => !isPhase2ValidationErrTx tx).flatMap fun tx =>
    tx.body.certificates.getD []).filterMap (poolAction? poolId)

def lastAction (poolId : PoolId) : List (Block PoolCertificate) → Option PoolAction
  | [] => none
  | block :: chain => (blockActions poolId block).getLast?.or (lastAction poolId chain)

/-- A block that the ledger accepts on top of the chain. There is space in it for
so many transactions and certificates at most. -/
structure ValidBlock (eraSummaries : List EraSummary) (chain : List (Block PoolCertificate))
    (block : Block PoolCertificate) (epochNo : ℕ) : Prop where
  later : ∀ earlier ∈ chain, earlier.header.slot < block.header.slot
  epoch : createSlotEpochCalc eraSummaries block.header.slot = .ok epochNo
  space : ∀ certificate ∈ blockCertificates block,
    certificate.pointer.txIndex ≤ MaxCertificatePointerIdTxIndex ∧
      certificate.pointer.certIndex ≤ MaxCertificatePointerIdCertificateIndex
  permitted : ∀ poolId,
    PermittedActions epochNo (lastAction poolId chain) (blockActions poolId block)

def ValidChain (eraSummaries : List EraSummary) : List (Block PoolCertificate) → Prop
  | [] => True
  | block :: chain => ValidChain eraSummaries chain ∧
      ∃ epochNo, ValidBlock eraSummaries chain block epochNo

def actionsOf (poolId : PoolId) (certificates : List (OnChainCertificate PoolCertificate)) :
    List PoolAction :=
  certificates.filterMap fun certificate => poolAction? poolId certificate.certificate

theorem actionsOf_append (poolId : PoolId)
    (certificates : List (OnChainCertificate PoolCertificate))
    (certificate : OnChainCertificate PoolCertificate) :
    actionsOf poolId (certificates ++ [certificate]) =
      actionsOf poolId certificates ++ (poolAction? poolId certificate.certificate).toList := by
  rw [actionsOf, List.filterMap_append]
  cases h : poolAction? poolId certificate.certificate with
  | none => simp [actionsOf, h]
  | some action => simp [actionsOf, h]

theorem blockActions_eq (poolId : PoolId) (block : Block PoolCertificate) :
    blockActions poolId block = actionsOf poolId (blockCertificates block) := by
  rw [blockActions, ← certificates_blockCertificates, List.filterMap_map]
  rfl

theorem PermittedActions.retirement {epochNo epoch : ℕ} {last : Option PoolAction}
    {actions : List PoolAction} (h : PermittedActions epochNo last actions)
    (hmem : PoolAction.retirement epoch ∈ actions) :
    epochNo < epoch ∧ (PoolAction.registration ∉ actions → Registered epochNo last) := by
  induction actions generalizing last with
  | nil => cases hmem
  | cons action actions ih =>
    rcases List.mem_cons.mp hmem with rfl | hrest
    · exact ⟨h.1.2, fun _ => h.1.1⟩
    · obtain ⟨hepoch, _⟩ := ih h.2 hrest
      refine ⟨hepoch, ?_⟩
      intro hnone
      cases action with
      | registration => exact absurd List.mem_cons_self hnone
      | retirement _ => exact h.1.1

theorem certificatePointerToId_div {pointer : Pointer}
    (htx : pointer.txIndex ≤ MaxCertificatePointerIdTxIndex)
    (hcert : pointer.certIndex ≤ MaxCertificatePointerIdCertificateIndex) :
    certificatePointerToId pointer / 10000000000 = pointer.slot := by
  rw [MaxCertificatePointerIdTxIndex] at htx
  rw [MaxCertificatePointerIdCertificateIndex] at hcert
  rw [certificatePointerToId]
  omega

variable {Certificate : Type} {block : Block Certificate}

theorem mem_blockCertificates {certificate : OnChainCertificate Certificate}
    (h : certificate ∈ blockCertificates block) : certificate.pointer.slot = block.header.slot :=
  (mem_blockCertificates_iff.mp h).1

theorem blockCertificates_pairwise
    (hspace : ∀ certificate ∈ blockCertificates block,
      certificate.pointer.txIndex ≤ MaxCertificatePointerIdTxIndex ∧
        certificate.pointer.certIndex ≤ MaxCertificatePointerIdCertificateIndex) :
    (blockCertificates block).Pairwise fun certificate certificate' =>
      certificatePointerToId certificate.pointer < certificatePointerToId certificate'.pointer := by
  refine (pairwise_blockCertificates block).imp_of_mem ?_
  intro certificate certificate' hmem _ hbefore
  obtain ⟨htx, hcert⟩ := hspace certificate hmem
  exact certificatePointerToId_lt ⟨htx, hcert⟩ hbefore

/-- What the records hold of a pool, by the actions of the certificates. -/
structure PoolRecords.Hold (records : PoolRecords) (poolId : PoolId)
    (certificates : List (OnChainCertificate PoolCertificate)) : Prop where
  registered : (records.updates.get? poolId).isSome = true ↔
    PoolAction.registration ∈ actionsOf poolId certificates
  last : ∀ epoch, (actionsOf poolId certificates).getLast? = some (.retirement epoch) ↔
    ∃ retirement, records.retirements.get? poolId = some retirement ∧ retirement.epoch = epoch
  update : ∀ update, records.updates.get? poolId = some update →
    update.poolParameters.id = poolId ∧
      ∃ certificate ∈ certificates, certificate.pointer = update.source ∧
        poolAction? poolId certificate.certificate = some .registration
  retirement : ∀ retirement, records.retirements.get? poolId = some retirement →
    retirement.poolId = poolId ∧
      ∃ certificate ∈ certificates, certificate.pointer = retirement.source ∧
        poolAction? poolId certificate.certificate = some (.retirement retirement.epoch)
  order : ∀ update retirement, records.updates.get? poolId = some update →
    records.retirements.get? poolId = some retirement →
    certificatePointerToId update.source < certificatePointerToId retirement.source

theorem poolRecords_append (certificates : List (OnChainCertificate PoolCertificate))
    (certificate : OnChainCertificate PoolCertificate) :
    poolRecords (certificates ++ [certificate]) = (poolRecords certificates).add certificate := by
  rw [poolRecords, List.foldl_append]
  rfl

theorem exists_mem_append_left {α : Type} {P : α → Prop} {list : List α} {a : α}
    (h : ∃ b ∈ list, P b) : ∃ b ∈ list ++ [a], P b := by
  obtain ⟨b, hmem, hb⟩ := h
  exact ⟨b, List.mem_append_left _ hmem, hb⟩

theorem PoolRecords.Hold.other {records : PoolRecords} {poolId : PoolId}
    {certificates : List (OnChainCertificate PoolCertificate)} (h : records.Hold poolId certificates)
    {certificate : OnChainCertificate PoolCertificate}
    (hother : poolAction? poolId certificate.certificate = none) :
    (records.add certificate).Hold poolId (certificates ++ [certificate]) := by
  have hget : (records.add certificate).updates.get? poolId = records.updates.get? poolId ∧
      (records.add certificate).retirements.get? poolId = records.retirements.get? poolId := by
    rw [PoolRecords.add]
    cases hcertificate : certificate.certificate with
    | poolRegistration poolParameters =>
      rw [hcertificate] at hother
      have hne : poolId ≠ poolParameters.id := by
        intro heq
        rw [poolAction?, if_pos heq.symm] at hother
        cases hother
      exact ⟨by rw [JsMap.get?_set, if_neg hne], by rw [JsMap.get?_delete, if_neg hne]⟩
    | poolRetirement id epoch =>
      rw [hcertificate] at hother
      have hne : poolId ≠ id := by
        intro heq
        rw [poolAction?, if_pos heq.symm] at hother
        cases hother
      exact ⟨rfl, by rw [JsMap.get?_set, if_neg hne]⟩
    | other => exact ⟨rfl, rfl⟩
  have hactions : actionsOf poolId (certificates ++ [certificate]) =
      actionsOf poolId certificates := by
    rw [actionsOf_append, hother]
    exact List.append_nil _
  constructor
  · rw [hget.1, hactions]
    exact h.registered
  · rw [hget.2, hactions]
    exact h.last
  · intro update hupdate
    rw [hget.1] at hupdate
    obtain ⟨hid, hsource⟩ := h.update update hupdate
    exact ⟨hid, exists_mem_append_left hsource⟩
  · intro retirement hretirement
    rw [hget.2] at hretirement
    obtain ⟨hid, hsource⟩ := h.retirement retirement hretirement
    exact ⟨hid, exists_mem_append_left hsource⟩
  · rw [hget.1, hget.2]
    exact h.order

theorem PoolRecords.hold_poolRegistration (records : PoolRecords) (poolParameters : PoolParameters)
    (pointer : Pointer) (certificates : List (OnChainCertificate PoolCertificate)) :
    (records.add { pointer, certificate := .poolRegistration poolParameters }).Hold
      poolParameters.id
      (certificates ++ [{ pointer, certificate := .poolRegistration poolParameters }]) := by
  have hactions : actionsOf poolParameters.id
        (certificates ++ [{ pointer, certificate := .poolRegistration poolParameters }]) =
      actionsOf poolParameters.id certificates ++ [.registration] := by
    rw [actionsOf_append, poolAction?, if_pos rfl]
    rfl
  have hnone : (records.add { pointer, certificate := .poolRegistration poolParameters }).retirements.get?
      poolParameters.id = none := by
    rw [PoolRecords.add, JsMap.get?_delete, if_pos rfl]
  constructor
  · rw [hactions, PoolRecords.add]
    simp
  · intro epoch
    rw [hactions, hnone]
    simp
  · intro update hupdate
    rw [PoolRecords.add, JsMap.get?_set_self] at hupdate
    cases hupdate
    exact ⟨rfl, _, List.mem_append_right _ List.mem_cons_self, rfl, if_pos rfl⟩
  · intro retirement hretirement
    rw [hnone] at hretirement
    cases hretirement
  · intro update retirement _ hretirement
    rw [hnone] at hretirement
    cases hretirement

theorem PoolRecords.Hold.poolRetirement {records : PoolRecords} {poolId : PoolId} {epoch : ℕ}
    {pointer : Pointer} {certificates : List (OnChainCertificate PoolCertificate)}
    (h : records.Hold poolId certificates)
    (hlater : ∀ certificate ∈ certificates,
      certificatePointerToId certificate.pointer < certificatePointerToId pointer) :
    (records.add { pointer, certificate := .poolRetirement poolId epoch }).Hold poolId
      (certificates ++ [{ pointer, certificate := .poolRetirement poolId epoch }]) := by
  have hactions : actionsOf poolId
        (certificates ++ [{ pointer, certificate := .poolRetirement poolId epoch }]) =
      actionsOf poolId certificates ++ [.retirement epoch] := by
    rw [actionsOf_append, poolAction?, if_pos rfl]
    rfl
  have hadded : (records.add { pointer, certificate := .poolRetirement poolId epoch }).retirements.get?
      poolId = some { epoch, poolId, source := pointer } := by
    rw [PoolRecords.add, JsMap.get?_set_self]
  constructor
  · rw [hactions, PoolRecords.add]
    simp only [List.mem_append, List.mem_singleton, reduceCtorEq, or_false]
    exact h.registered
  · intro epoch'
    rw [hactions, hadded]
    simp
  · intro update hupdate
    obtain ⟨hid, hsource⟩ := h.update update hupdate
    exact ⟨hid, exists_mem_append_left hsource⟩
  · intro retirement hretirement
    rw [hadded] at hretirement
    cases hretirement
    exact ⟨rfl, _, List.mem_append_right _ List.mem_cons_self, rfl, if_pos rfl⟩
  · intro update retirement hupdate hretirement
    rw [hadded] at hretirement
    cases hretirement
    obtain ⟨_, certificate, hmem, hsource, _⟩ := h.update update hupdate
    rw [← hsource]
    exact hlater certificate hmem

theorem poolRecords_hold (poolId : PoolId)
    {certificates : List (OnChainCertificate PoolCertificate)}
    (horder : certificates.Pairwise fun certificate certificate' =>
      certificatePointerToId certificate.pointer < certificatePointerToId certificate'.pointer) :
    (poolRecords certificates).Hold poolId certificates := by
  induction certificates using List.reverseRecOn with
  | nil =>
    constructor <;> simp [poolRecords, actionsOf]
  | append_singleton certificates certificate ih =>
    rw [List.pairwise_append] at horder
    rw [poolRecords_append]
    have hbefore := ih horder.1
    obtain ⟨pointer, certificate⟩ := certificate
    cases hcertificate : poolAction? poolId certificate with
    | none => exact hbefore.other hcertificate
    | some action =>
      cases certificate with
      | poolRegistration poolParameters =>
        rw [poolAction?] at hcertificate
        split at hcertificate
        · rename_i heq
          subst heq
          exact (poolRecords certificates).hold_poolRegistration _ _ _
        · cases hcertificate
      | poolRetirement id epoch =>
        rw [poolAction?] at hcertificate
        split at hcertificate
        · rename_i heq
          subst heq
          have hlater : ∀ earlier ∈ certificates,
              certificatePointerToId earlier.pointer < certificatePointerToId pointer := by
            intro earlier hmem
            have hlast := horder.2.2 earlier hmem
            exact hlast ⟨pointer, _⟩ (List.mem_singleton_self _)
          exact hbefore.poolRetirement hlater
        · cases hcertificate
      | other => cases hcertificate

def StakePools.update? (stakePools : StakePools) (poolId : PoolId) : Option PoolUpdate :=
  stakePools.updates.find? fun update => update.poolParameters.id = poolId

def StakePools.retirement? (stakePools : StakePools) (poolId : PoolId) : Option PoolRetirement :=
  stakePools.retirements.find? fun retirement => retirement.poolId = poolId

section Lookup

variable {stakePools : StakePools} {poolId : PoolId}

variable {update : PoolUpdate}

theorem StakePools.mem_of_update? (h : stakePools.update? poolId = some update) :
    update ∈ stakePools.updates ∧ update.poolParameters.id = poolId := by
  rw [update?] at h
  have hid := List.find?_some h
  exact ⟨List.mem_of_find?_eq_some h, of_decide_eq_true hid⟩

theorem StakePools.mem_of_retirement? {retirement : PoolRetirement}
    (h : stakePools.retirement? poolId = some retirement) :
    retirement ∈ stakePools.retirements ∧ retirement.poolId = poolId := by
  rw [retirement?] at h
  have hid := List.find?_some h
  exact ⟨List.mem_of_find?_eq_some h, of_decide_eq_true hid⟩

theorem StakePools.update?_isSome (h : update ∈ stakePools.updates) :
    (stakePools.update? update.poolParameters.id).isSome = true := by
  rw [update?, List.find?_isSome]
  exact ⟨update, h, decide_eq_true rfl⟩

end Lookup

/-- The mapped certificates are those of the block that take effect, one per pool. -/
structure StakePools.Describe (stakePools : StakePools) (block : Block PoolCertificate) : Prop where
  updates_nodup : (stakePools.updates.map fun update => update.poolParameters.id).Nodup
  retirements_nodup : (stakePools.retirements.map PoolRetirement.poolId).Nodup
  registered : ∀ poolId, (stakePools.update? poolId).isSome = true ↔
    PoolAction.registration ∈ blockActions poolId block
  last : ∀ poolId epoch, (blockActions poolId block).getLast? = some (.retirement epoch) ↔
    ∃ retirement, stakePools.retirement? poolId = some retirement ∧ retirement.epoch = epoch
  update : ∀ update ∈ stakePools.updates, ∃ certificate ∈ blockCertificates block,
    certificate.pointer = update.source ∧
      poolAction? update.poolParameters.id certificate.certificate = some .registration
  retirement : ∀ retirement ∈ stakePools.retirements, ∃ certificate ∈ blockCertificates block,
    certificate.pointer = retirement.source ∧
      poolAction? retirement.poolId certificate.certificate = some (.retirement retirement.epoch)
  order : ∀ poolId update retirement, stakePools.update? poolId = some update →
    stakePools.retirement? poolId = some retirement →
    certificatePointerToId update.source < certificatePointerToId retirement.source

theorem withStakePools_describe {block : Block PoolCertificate}
    (hspace : ∀ certificate ∈ blockCertificates block,
      certificate.pointer.txIndex ≤ MaxCertificatePointerIdTxIndex ∧
        certificate.pointer.certIndex ≤ MaxCertificatePointerIdCertificateIndex) :
    (withStakePools (blockCertificates block)).Describe block := by
  have hhold : ∀ poolId, (poolRecords (blockCertificates block)).Hold poolId
      (blockCertificates block) := by
    intro poolId
    exact poolRecords_hold poolId (blockCertificates_pairwise hspace)
  have hupdates : ∀ poolId update,
      (poolRecords (blockCertificates block)).updates.get? poolId = some update →
        update.poolParameters.id = poolId := by
    intro poolId update hupdate
    exact ((hhold poolId).update update hupdate).1
  have hretirements : ∀ poolId retirement,
      (poolRecords (blockCertificates block)).retirements.get? poolId = some retirement →
        retirement.poolId = poolId := by
    intro poolId retirement hretirement
    exact ((hhold poolId).retirement retirement hretirement).1
  have hupdate? : ∀ poolId, (withStakePools (blockCertificates block)).update? poolId =
      (poolRecords (blockCertificates block)).updates.get? poolId := by
    intro poolId
    exact JsMap.find?_values hupdates poolId
  have hretirement? : ∀ poolId, (withStakePools (blockCertificates block)).retirement? poolId =
      (poolRecords (blockCertificates block)).retirements.get? poolId := by
    intro poolId
    exact JsMap.find?_values hretirements poolId
  constructor
  · rw [withStakePools, JsMap.map_keyOf_values hupdates]
    exact JsMap.nodup _
  · rw [withStakePools, JsMap.map_keyOf_values hretirements]
    exact JsMap.nodup _
  · intro poolId
    rw [hupdate?, blockActions_eq]
    exact (hhold poolId).registered
  · intro poolId epoch
    rw [hretirement?, blockActions_eq]
    exact (hhold poolId).last epoch
  · intro update hmem
    obtain ⟨⟨poolId, update⟩, hentry, rfl⟩ := List.mem_map.mp hmem
    obtain ⟨rfl, hsource⟩ := (hhold poolId).update update (JsMap.get?_eq_some_iff.mpr hentry)
    exact hsource
  · intro retirement hmem
    obtain ⟨⟨poolId, retirement⟩, hentry, rfl⟩ := List.mem_map.mp hmem
    obtain ⟨rfl, hsource⟩ :=
      (hhold poolId).retirement retirement (JsMap.get?_eq_some_iff.mpr hentry)
    exact hsource
  · intro poolId update retirement
    rw [hupdate?, hretirement?]
    exact (hhold poolId).order update retirement

end CardanoSdk.Projection
