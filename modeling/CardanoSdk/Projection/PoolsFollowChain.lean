import CardanoSdk.Projection.PoolTables

/-!
What holds of the tables of pools after chains are rolled forward, whatever the
certificates were.
-/

namespace CardanoSdk.Projection

open Lib Util
open TxConstruction (PoolId)

section Rolling

variable (eraSummaries : EraSummaries)

def epochOf (block : Block PoolCertificate) : Except SlotCalcException ℕ :=
  createSlotEpochCalc eraSummaries.1 block.header.slot

def eventBefore : List (Block PoolCertificate) → Except SlotCalcException (Option WithEpochNo)
  | [] => .ok none
  | tip :: _ => do
      let evt ← withEpochNo eraSummaries.1 (.forward tip.header)
      return some evt

/-- The event of a block on top of a chain that grows from the origin. -/
def mapBlock (chain : List (Block PoolCertificate)) (block : Block PoolCertificate) :
    Except SlotCalcException StakePoolEvent := do
  let evt ← withEpochNo eraSummaries.1 (.forward block.header)
  let before ← eventBefore eraSummaries chain
  let previous ← prevEpoch eraSummaries.1 .origin before
  return {
    slot := block.header.slot
    epochNo := evt.epochNo
    crossEpochBoundary := previous ≠ evt.epochNo
    stakePools := withStakePools (blockCertificates block) }

inductive RollsForward : List (Block PoolCertificate) → StakePoolTables → Prop where
  | origin : RollsForward [] StakePoolTables.empty
  | block {chain tables block evt next} (hchain : RollsForward chain tables)
      (hevent : mapBlock eraSummaries chain block = .ok evt)
      (hstore : rollForwardStakePools eraSummaries evt tables = .ok next) :
      RollsForward (block :: chain) next

end Rolling

variable {eraSummaries : EraSummaries}

variable {chain : List (Block PoolCertificate)}

variable {block : Block PoolCertificate} {evt : StakePoolEvent}

theorem mapBlock_ok (h : mapBlock eraSummaries chain block = .ok evt) :
    evt.slot = block.header.slot ∧ epochOf eraSummaries block = .ok evt.epochNo ∧
      evt.stakePools = withStakePools (blockCertificates block) ∧
      ∃ previous, evt.crossEpochBoundary = decide (previous ≠ evt.epochNo) ∧
        tipEpoch eraSummaries.1 (chain.map Block.header) = .ok previous := by
  obtain ⟨mapped, hmapped, h⟩ := bind_ok h
  obtain ⟨before, hbefore, h⟩ := bind_ok h
  obtain ⟨previous, hprevious, h⟩ := bind_ok h
  cases h
  refine ⟨rfl, (withEpochNo_ok hmapped).2, rfl, previous, rfl, ?_⟩
  cases chain with
  | nil =>
    cases hbefore
    exact hprevious
  | cons tip chain =>
    obtain ⟨tipEvent, htip, hbefore⟩ := bind_ok hbefore
    cases hbefore
    have hepoch := (withEpochNo_ok htip).2
    rw [prevEpoch] at hprevious
    split at hprevious
    · rename_i hzero
      cases hprevious
      rw [hzero] at hepoch
      exact hepoch
    · cases hprevious
      exact hepoch

/-- The slot that the id of a certificate begins with. -/
def slotOfId (id : ℕ) : ℕ := id / 10000000000

structure Follow (eraSummaries : EraSummaries) (chain : List (Block PoolCertificate))
    (tables : StakePoolTables) : Prop where
  registrationSlot : ∀ id row, tables.poolRegistrations.get? id = some row →
    slotOfId id = row.blockSlot ∧ ∃ block ∈ chain, block.header.slot = row.blockSlot
  retirementSlot : ∀ id row, tables.poolRetirements.get? id = some row →
    slotOfId id = row.blockSlot ∧ ∃ block ∈ chain, block.header.slot = row.blockSlot
  registrationPool : ∀ id row, tables.poolRegistrations.get? id = some row →
    (tables.stakePools.get? row.stakePool).isSome = true
  retirementPool : ∀ id row, tables.poolRetirements.get? id = some row →
    (tables.stakePools.get? row.stakePool).isSome = true
  exists_iff : ∀ poolId, (tables.stakePools.get? poolId).isSome = true ↔
    (lastAction poolId chain).isSome = true
  lastRegistration : ∀ poolId pool, tables.stakePools.get? poolId = some pool →
    ∃ id, pool.lastRegistration = some id ∧ (tables.registrationIds poolId).max? = some id
  lastRetirement : ∀ poolId pool id, tables.stakePools.get? poolId = some pool →
    pool.lastRetirement = some id →
      ∃ row, tables.poolRetirements.get? id = some row ∧ row.stakePool = poolId
  noted : ∀ poolId pool, tables.stakePools.get? poolId = some pool →
    pool.status = .retiring ∨ pool.status = .retired → pool.lastRetirement ≠ none
  /-- What is still to come about is a pending retirement. -/
  pending : ∀ poolId pool epochNo, tables.stakePools.get? poolId = some pool →
    tables.retiringAt epochNo pool = true →
    (∀ block ∈ chain, ∀ epoch, epochOf eraSummaries block = .ok epoch → epoch < epochNo) →
      pool.status = .retiring

theorem follow_origin : Follow eraSummaries [] StakePoolTables.empty := by
  constructor <;> simp [StakePoolTables.empty, lastAction]

/-- An event that tells of a block which the ledger accepts on top of the chain. -/
structure TellsOf (eraSummaries : EraSummaries) (evt : StakePoolEvent)
    (chain : List (Block PoolCertificate)) (block : Block PoolCertificate) : Prop where
  slot : evt.slot = block.header.slot
  describe : evt.stakePools.Describe block
  valid : ValidBlock eraSummaries.1 chain block evt.epochNo

theorem tellsOf {epochNo : ℕ} (hvalid : ValidBlock eraSummaries.1 chain block epochNo)
    (h : mapBlock eraSummaries chain block = .ok evt) : TellsOf eraSummaries evt chain block := by
  obtain ⟨hslot, hepoch, hpools, _⟩ := mapBlock_ok h
  have hsame : epochNo = evt.epochNo := Except.ok.inj (hvalid.epoch.symm.trans hepoch)
  refine ⟨hslot, ?_, hsame ▸ hvalid⟩
  rw [hpools]
  exact withStakePools_describe hvalid.space

section Step

variable {evt : StakePoolEvent} {chain : List (Block PoolCertificate)}
  {block : Block PoolCertificate} {tables next : StakePoolTables}

theorem TellsOf.slotOfId_update (h : TellsOf eraSummaries evt chain block) {update : PoolUpdate}
    (hmem : update ∈ evt.stakePools.updates) :
    slotOfId (certificatePointerToId update.source) = block.header.slot := by
  obtain ⟨certificate, hcertificate, hsource, _⟩ := h.describe.update update hmem
  obtain ⟨htx, hcert⟩ := h.valid.space certificate hcertificate
  rw [← hsource, slotOfId, certificatePointerToId_div htx hcert,
    mem_blockCertificates hcertificate]

theorem TellsOf.slotOfId_retirement (h : TellsOf eraSummaries evt chain block)
    {retirement : PoolRetirement} (hmem : retirement ∈ evt.stakePools.retirements) :
    slotOfId (certificatePointerToId retirement.source) = block.header.slot := by
  obtain ⟨certificate, hcertificate, hsource, _⟩ := h.describe.retirement retirement hmem
  obtain ⟨htx, hcert⟩ := h.valid.space certificate hcertificate
  rw [← hsource, slotOfId, certificatePointerToId_div htx hcert,
    mem_blockCertificates hcertificate]

theorem TellsOf.registered (h : TellsOf eraSummaries evt chain block) {poolId : PoolId}
    {retirement : PoolRetirement} (hretirement : evt.stakePools.retirement? poolId = some retirement) :
    evt.epochNo < retirement.epoch ∧ (evt.stakePools.update? poolId = none →
      Registered evt.epochNo (lastAction poolId chain)) := by
  have hlast := (h.describe.last poolId retirement.epoch).mpr ⟨retirement, hretirement, rfl⟩
  obtain ⟨hepoch, hregistered⟩ :=
    (h.valid.permitted poolId).retirement (List.mem_of_getLast? hlast)
  refine ⟨hepoch, ?_⟩
  intro hnone
  apply hregistered
  rw [← h.describe.registered, hnone]
  exact Bool.false_ne_true

variable {poolId : PoolId} {pool : StakePoolEntity} {id : ℕ}

theorem TellsOf.lt_id (h : TellsOf eraSummaries evt chain block) {new slot : ℕ}
    (hid : slotOfId id = slot ∧ ∃ earlier ∈ chain, earlier.header.slot = slot)
    (hnew : slotOfId new = block.header.slot) : id < new := by
  obtain ⟨hslot, earlier, hearlier, heq⟩ := hid
  have hlater := h.valid.later earlier hearlier
  rw [slotOfId] at hslot hnew
  omega

theorem foundPool_cases (h : foundPool eraSummaries evt tables poolId = some pool) :
    (∃ before, tables.stakePools.get? poolId = some before ∧ pool =
      { before with status :=
          rolledStatus eraSummaries evt.crossEpochBoundary evt.epochNo tables poolId before }) ∨
    tables.stakePools.get? poolId = none ∧ pool = { status := .activating } ∧
      (evt.stakePools.update? poolId).isSome = true := by
  rw [foundPool] at h
  cases hbefore : tables.stakePools.get? poolId with
  | some before =>
    rw [hbefore] at h
    cases h
    exact Or.inl ⟨before, rfl, rfl⟩
  | none =>
    rw [hbefore] at h
    cases hupdate : evt.stakePools.update? poolId with
    | none =>
      rw [hupdate] at h
      cases h
    | some update =>
      rw [hupdate] at h
      cases h
      exact Or.inr ⟨rfl, rfl, rfl⟩

theorem RolledForward.mem_registrationIds (h : RolledForward eraSummaries evt tables next) :
    id ∈ next.registrationIds poolId ↔ id ∈ tables.registrationIds poolId ∨
      ∃ update ∈ evt.stakePools.updates, update.poolParameters.id = poolId ∧
        id = certificatePointerToId update.source := by
  simp only [StakePoolTables.registrationIds, JsMap.mem_keysWhere, decide_eq_true_eq,
    JsMap.get?_insertRows h.registrations]
  constructor
  · rintro ⟨row, hold | hnew, hpool⟩
    · exact Or.inl ⟨row, hold, hpool⟩
    · obtain ⟨update, hmem, hrow⟩ := List.mem_map.mp hnew
      cases hrow
      exact Or.inr ⟨update, hmem, hpool, rfl⟩
  · rintro (⟨row, hold, hpool⟩ | ⟨update, hmem, hpool, rfl⟩)
    · exact ⟨row, Or.inl hold, hpool⟩
    · exact ⟨_, Or.inr (List.mem_map_of_mem hmem), hpool⟩

theorem RolledForward.get?_poolRetirements (h : RolledForward eraSummaries evt tables next)
    {row : PoolRetirementEntity} (hrow : tables.poolRetirements.get? id = some row) :
    next.poolRetirements.get? id = some row :=
  (JsMap.get?_insertRows h.retirements).mpr (Or.inl hrow)

theorem RolledForward.exists_found (h : RolledForward eraSummaries evt tables next)
    (hpool : next.stakePools.get? poolId = some pool) :
    ∃ found, foundPool eraSummaries evt tables poolId = some found ∧
      pool = evt.stakePools.store poolId found := by
  rw [h.pools, Option.map_eq_some_iff] at hpool
  obtain ⟨found, hfound, rfl⟩ := hpool
  exact ⟨found, hfound, rfl⟩

theorem Follow.retiringAt_next (h : Follow eraSummaries chain tables)
    (hnext : RolledForward eraSummaries evt tables next) {before : StakePoolEntity}
    (hbefore : tables.stakePools.get? poolId = some before)
    (hsame : pool.lastRetirement = before.lastRetirement) (epochNo : ℕ) :
    next.retiringAt epochNo pool = tables.retiringAt epochNo before := by
  rw [StakePoolTables.retiringAt, StakePoolTables.retiringAt, hsame]
  cases hlast : before.lastRetirement with
  | none => rfl
  | some id =>
    obtain ⟨row, hrow, _⟩ := h.lastRetirement poolId before id hbefore hlast
    rw [Option.bind_some, Option.bind_some, hrow, hnext.get?_poolRetirements hrow]

variable {epochNo : ℕ} {stakePools : StakePools}

theorem retiringAt_unique {epochNo' : ℕ} (h : tables.retiringAt epochNo pool = true)
    (h' : tables.retiringAt epochNo' pool = true) : epochNo = epochNo' := by
  rw [StakePoolTables.retiringAt] at h h'
  obtain ⟨row, hrow, heq⟩ := (Option.any_eq_true _ _).mp h
  obtain ⟨row', hrow', heq'⟩ := (Option.any_eq_true _ _).mp h'
  rw [hrow] at hrow'
  cases hrow'
  exact (of_decide_eq_true heq).symm.trans (of_decide_eq_true heq')

theorem Follow.registrationSlot_next (h : Follow eraSummaries chain tables)
    (hevt : TellsOf eraSummaries evt chain block)
    (hnext : RolledForward eraSummaries evt tables next) (id : ℕ) (row : PoolRegistrationEntity)
    (hrow : next.poolRegistrations.get? id = some row) :
    slotOfId id = row.blockSlot ∧ ∃ block' ∈ block :: chain, block'.header.slot = row.blockSlot := by
  rcases (JsMap.get?_insertRows hnext.registrations).mp hrow with hold | hnew
  · obtain ⟨hslot, earlier, hmem, heq⟩ := h.registrationSlot id row hold
    exact ⟨hslot, earlier, List.mem_cons_of_mem _ hmem, heq⟩
  · obtain ⟨update, hmem, hrow⟩ := List.mem_map.mp hnew
    cases hrow
    refine ⟨(hevt.slotOfId_update hmem).trans hevt.slot.symm, block, List.mem_cons_self, ?_⟩
    exact hevt.slot.symm

theorem Follow.retirementSlot_next (h : Follow eraSummaries chain tables)
    (hevt : TellsOf eraSummaries evt chain block)
    (hnext : RolledForward eraSummaries evt tables next) (id : ℕ) (row : PoolRetirementEntity)
    (hrow : next.poolRetirements.get? id = some row) :
    slotOfId id = row.blockSlot ∧ ∃ block' ∈ block :: chain, block'.header.slot = row.blockSlot := by
  rcases (JsMap.get?_insertRows hnext.retirements).mp hrow with hold | hnew
  · obtain ⟨hslot, earlier, hmem, heq⟩ := h.retirementSlot id row hold
    exact ⟨hslot, earlier, List.mem_cons_of_mem _ hmem, heq⟩
  · obtain ⟨retirement, hmem, hrow⟩ := List.mem_map.mp hnew
    cases hrow
    refine ⟨(hevt.slotOfId_retirement hmem).trans hevt.slot.symm, block, List.mem_cons_self, ?_⟩
    exact hevt.slot.symm

theorem RolledForward.isSome_pool (hnext : RolledForward eraSummaries evt tables next)
    (poolId : PoolId) : (next.stakePools.get? poolId).isSome = true ↔
      (tables.stakePools.get? poolId).isSome = true ∨
        (evt.stakePools.update? poolId).isSome = true := by
  rw [hnext.pools, Option.isSome_map, foundPool, Option.isSome_or, Option.isSome_map,
    Option.isSome_map, Bool.or_eq_true]

theorem Follow.exists_iff_next (h : Follow eraSummaries chain tables)
    (hevt : TellsOf eraSummaries evt chain block)
    (hnext : RolledForward eraSummaries evt tables next) (poolId : PoolId) :
    (next.stakePools.get? poolId).isSome = true ↔
      (lastAction poolId (block :: chain)).isSome = true := by
  rw [hnext.isSome_pool, h.exists_iff, hevt.describe.registered, lastAction, Option.isSome_or,
    Bool.or_eq_true, List.getLast?_isSome]
  constructor
  · rintro (hbefore | hregistered)
    · exact Or.inr hbefore
    · exact Or.inl (List.ne_nil_of_mem hregistered)
  · rintro (hactions | hbefore)
    · obtain ⟨action, hlast⟩ := Option.isSome_iff_exists.mp (List.getLast?_isSome.mpr hactions)
      cases action with
      | registration => exact Or.inr (List.mem_of_getLast? hlast)
      | retirement epoch =>
        by_cases hregistered : PoolAction.registration ∈ blockActions poolId block
        · exact Or.inr hregistered
        · obtain ⟨_, hpermitted⟩ :=
            (hevt.valid.permitted poolId).retirement (List.mem_of_getLast? hlast)
          have hbefore := hpermitted hregistered
          apply Or.inl
          cases hlastAction : lastAction poolId chain with
          | none =>
            rw [hlastAction] at hbefore
            exact hbefore.elim
          | some action => rfl
    · exact Or.inl hbefore

theorem Follow.lastRegistration_next (h : Follow eraSummaries chain tables)
    (hevt : TellsOf eraSummaries evt chain block)
    (hnext : RolledForward eraSummaries evt tables next) (poolId : PoolId) (pool : StakePoolEntity)
    (hpool : next.stakePools.get? poolId = some pool) :
    ∃ id, pool.lastRegistration = some id ∧ (next.registrationIds poolId).max? = some id := by
  obtain ⟨found, hfound, rfl⟩ := hnext.exists_found hpool
  cases hupdate : evt.stakePools.update? poolId with
  | some update =>
    obtain ⟨hmem, rfl⟩ := StakePools.mem_of_update? hupdate
    refine ⟨certificatePointerToId update.source, ?_, ?_⟩
    · rw [StakePools.store_lastRegistration, hupdate]
      rfl
    · rw [List.max?_eq_some_iff]
      refine ⟨hnext.mem_registrationIds.mpr (Or.inr ⟨update, hmem, rfl, rfl⟩), ?_⟩
      intro id hid
      rcases hnext.mem_registrationIds.mp hid with hold | ⟨update', hmem', hsame, rfl⟩
      · obtain ⟨row, hrow, _⟩ := JsMap.mem_keysWhere.mp hold
        exact (hevt.lt_id (h.registrationSlot id row hrow) (hevt.slotOfId_update hmem)).le
      · have heq := List.inj_on_of_nodup_map hevt.describe.updates_nodup hmem' hmem hsame
        exact heq ▸ le_refl _
  | none =>
    rcases foundPool_cases hfound with ⟨before, hbefore, rfl⟩ | ⟨_, _, hsome⟩
    · obtain ⟨id, hlast, hmax⟩ := h.lastRegistration poolId before hbefore
      refine ⟨id, ?_, ?_⟩
      · rw [StakePools.store_lastRegistration, hupdate]
        exact hlast
      · rw [List.max?_eq_some_iff] at hmax ⊢
        have hids : ∀ id', id' ∈ next.registrationIds poolId ↔ id' ∈ tables.registrationIds poolId := by
          intro id'
          rw [hnext.mem_registrationIds, or_iff_left]
          rintro ⟨update, hmem, rfl, _⟩
          have hsome := StakePools.update?_isSome hmem
          rw [hupdate] at hsome
          exact Bool.false_ne_true hsome
        exact ⟨(hids id).mpr hmax.1, fun id' hid => hmax.2 id' ((hids id').mp hid)⟩
    · rw [hupdate] at hsome
      exact absurd hsome Bool.false_ne_true

/-- The certificates of a block make a pool retire, activate it again, or leave its
status and last retirement. -/
theorem store_cases (found : StakePoolEntity) :
    (found.status ≠ .retired ∧ (stakePools.store poolId found).status = .retiring ∧
      ∃ retirement, stakePools.retirement? poolId = some retirement ∧
        (stakePools.store poolId found).lastRetirement =
          some (certificatePointerToId retirement.source)) ∨
    ((stakePools.store poolId found).lastRetirement = found.lastRetirement ∧
      found.status = .retired ∧ (stakePools.store poolId found).status = .activating) ∨
    ((stakePools.store poolId found).lastRetirement = found.lastRetirement ∧
      (stakePools.store poolId found).status = found.status) := by
  by_cases hstatus : found.status = .retired
  · obtain ⟨hlast, hnew⟩ := @StakePools.store_of_retired stakePools
      poolId _ hstatus
    split at hnew
    · exact Or.inr (Or.inl ⟨hlast, hstatus, hnew⟩)
    · exact Or.inr (Or.inr ⟨hlast, hnew.trans hstatus.symm⟩)
  · obtain ⟨hlast, hnew⟩ := @StakePools.store_of_not_retired stakePools
      poolId _ hstatus
    cases hretirement : stakePools.retirement? poolId with
    | none =>
      rw [hretirement] at hlast hnew
      exact Or.inr (Or.inr ⟨hlast, hnew⟩)
    | some retirement =>
      rw [hretirement] at hlast hnew
      exact Or.inl ⟨hstatus, hnew, retirement, rfl, hlast⟩

theorem store_lastRetirement_cases (found : StakePoolEntity) :
    (stakePools.store poolId found).lastRetirement = found.lastRetirement ∨
      ∃ retirement, stakePools.retirement? poolId = some retirement ∧
        (stakePools.store poolId found).lastRetirement =
          some (certificatePointerToId retirement.source) := by
  rcases store_cases found with ⟨_, _, hnew⟩ | ⟨hsame, _⟩ | ⟨hsame, _⟩
  · exact Or.inr hnew
  · exact Or.inl hsame
  · exact Or.inl hsame

theorem Follow.lastRetirement_next (h : Follow eraSummaries chain tables)
    (hnext : RolledForward eraSummaries evt tables next) (poolId : PoolId) (pool : StakePoolEntity)
    (id : ℕ) (hpool : next.stakePools.get? poolId = some pool)
    (hlast : pool.lastRetirement = some id) :
    ∃ row, next.poolRetirements.get? id = some row ∧ row.stakePool = poolId := by
  obtain ⟨found, hfound, rfl⟩ := hnext.exists_found hpool
  rcases store_lastRetirement_cases found with hsame | ⟨retirement, hretirement, hnew⟩
  · rw [hsame] at hlast
    rcases foundPool_cases hfound with ⟨before, hbefore, rfl⟩ | ⟨_, rfl, _⟩
    · obtain ⟨row, hrow, hpool⟩ := h.lastRetirement poolId before id hbefore hlast
      exact ⟨row, hnext.get?_poolRetirements hrow, hpool⟩
    · cases hlast
  · rw [hnew] at hlast
    cases hlast
    obtain ⟨hmem, hid⟩ := StakePools.mem_of_retirement? hretirement
    refine ⟨_, (JsMap.get?_insertRows hnext.retirements).mpr (Or.inr (List.mem_map_of_mem hmem)), ?_⟩
    exact hid

theorem retiringAt_lastRetirement (h : tables.retiringAt epochNo pool = true) :
    pool.lastRetirement ≠ none := by
  intro hnone
  rw [StakePoolTables.retiringAt, hnone] at h
  exact Bool.false_ne_true h

theorem Follow.noted_next (h : Follow eraSummaries chain tables)
    (hnext : RolledForward eraSummaries evt tables next) (poolId : PoolId) (pool : StakePoolEntity)
    (hpool : next.stakePools.get? poolId = some pool)
    (hstatus : pool.status = .retiring ∨ pool.status = .retired) : pool.lastRetirement ≠ none := by
  obtain ⟨found, hfound, rfl⟩ := hnext.exists_found hpool
  rcases store_cases found with ⟨_, _, _, _, hnew⟩ | ⟨_, _, hactivating⟩ | ⟨hsame, hkept⟩
  · rw [hnew]
    exact Option.some_ne_none _
  · rw [hactivating] at hstatus
    simp at hstatus
  · rw [hsame]
    rw [hkept] at hstatus
    rcases foundPool_cases hfound with ⟨before, hbefore, rfl⟩ | ⟨_, rfl, _⟩
    · rcases rolledStatus_cases eraSummaries evt.crossEpochBoundary evt.epochNo tables poolId before
        with ⟨_, hretiring, _⟩ | ⟨_, hactive⟩ | hrolled
      · exact retiringAt_lastRetirement hretiring
      · rw [hactive] at hstatus
        simp at hstatus
      · rw [hrolled] at hstatus
        exact h.noted poolId before hbefore hstatus
    · simp at hstatus

theorem Follow.pending_next (h : Follow eraSummaries chain tables)
    (hevt : TellsOf eraSummaries evt chain block)
    (hnext : RolledForward eraSummaries evt tables next) (poolId : PoolId) (pool : StakePoolEntity)
    (epochNo : ℕ) (hpool : next.stakePools.get? poolId = some pool)
    (hretiring : next.retiringAt epochNo pool = true)
    (hlater : ∀ block' ∈ block :: chain, ∀ epoch, epochOf eraSummaries block' = .ok epoch →
      epoch < epochNo) : pool.status = .retiring := by
  obtain ⟨found, hfound, rfl⟩ := hnext.exists_found hpool
  have hnow : evt.epochNo < epochNo := hlater block List.mem_cons_self _ hevt.valid.epoch
  -- a retirement from before the block is pending before it, and the boundary leaves it
  have hkept : ∀ {before : StakePoolEntity}, tables.stakePools.get? poolId = some before →
      (evt.stakePools.store poolId found).lastRetirement = before.lastRetirement →
        rolledStatus eraSummaries evt.crossEpochBoundary evt.epochNo tables poolId before =
          .retiring := by
    intro before hbefore hsame
    rw [h.retiringAt_next hnext hbefore hsame] at hretiring
    have hpending := h.pending poolId before epochNo hbefore hretiring
      (fun block' hmem => hlater block' (List.mem_cons_of_mem _ hmem))
    rcases rolledStatus_cases eraSummaries evt.crossEpochBoundary evt.epochNo tables poolId before
      with ⟨_, hnowRetiring, _⟩ | ⟨hactivating, _⟩ | hrolled
    · exact absurd (retiringAt_unique hnowRetiring hretiring) hnow.ne
    · rw [hpending] at hactivating
      cases hactivating
    · exact hrolled.trans hpending
  rcases store_cases found with ⟨_, hnew, _⟩ | ⟨hsame, hretired, _⟩ | ⟨hsame, hstatus⟩
  · exact hnew
  · rcases foundPool_cases hfound with ⟨before, hbefore, rfl⟩ | ⟨_, rfl, _⟩
    · have hrolled := hkept hbefore hsame
      exact StakePoolStatus.noConfusion (hretired.symm.trans hrolled)
    · cases hretired
  · rcases foundPool_cases hfound with ⟨before, hbefore, rfl⟩ | ⟨_, rfl, _⟩
    · exact hstatus.trans (hkept hbefore hsame)
    · exact absurd hsame (retiringAt_lastRetirement hretiring)

theorem Follow.step (h : Follow eraSummaries chain tables)
    (hevt : TellsOf eraSummaries evt chain block)
    (hnext : RolledForward eraSummaries evt tables next) :
    Follow eraSummaries (block :: chain) next where
  registrationSlot := h.registrationSlot_next hevt hnext
  retirementSlot := h.retirementSlot_next hevt hnext
  registrationPool id row hrow := by
    rw [hnext.isSome_pool]
    rcases (JsMap.get?_insertRows hnext.registrations).mp hrow with hold | hnew
    · exact Or.inl (h.registrationPool id row hold)
    · obtain ⟨update, hmem, hrow⟩ := List.mem_map.mp hnew
      cases hrow
      exact Or.inr (StakePools.update?_isSome hmem)
  retirementPool id row hrow := by
    rcases (JsMap.get?_insertRows hnext.retirements).mp hrow with hold | hnew
    · rw [hnext.isSome_pool]
      exact Or.inl (h.retirementPool id row hold)
    · obtain ⟨retirement, hmem, hrow⟩ := List.mem_map.mp hnew
      cases hrow
      exact hnext.retirementPool retirement hmem
  exists_iff := h.exists_iff_next hevt hnext
  lastRegistration := h.lastRegistration_next hevt hnext
  lastRetirement := h.lastRetirement_next hnext
  noted := h.noted_next hnext
  pending := h.pending_next hevt hnext

end Step

theorem rollsForward_follow {tables : StakePoolTables} (hvalid : ValidChain eraSummaries.1 chain)
    (h : RollsForward eraSummaries chain tables) : Follow eraSummaries chain tables := by
  induction h with
  | origin => exact follow_origin
  | block _ hevent hstore ih =>
    obtain ⟨hchain, epochNo, hblock⟩ := hvalid
    have hevt := tellsOf hblock hevent
    exact (ih hchain).step hevt (rolledForward hevt.describe hstore)

end CardanoSdk.Projection
