import CardanoSdk.Projection.PoolsFollowChain

/-!
A pool is retired by its last certificate, and by no other, as long as retirements stand.
The store notes a later registration but does not cancel the retirement, and does not note
the retirement of a pool that is retired.
-/

namespace CardanoSdk.Projection

open Lib Util
open TxConstruction (PoolId)

variable {eraSummaries : EraSummaries}

def Reached (eraSummaries : EraSummaries) (chain : List (Block PoolCertificate)) (epochNo : ℕ) : Prop :=
  ∃ block ∈ chain, epochOf eraSummaries block = .ok epochNo

/-- Where a block registers a pool whose last certificate is a retirement, the
registration is the last one of the block exactly if the retirement has come about. -/
def RetirementsStand (eraSummaries : EraSummaries) : List (Block PoolCertificate) → Prop
  | [] => True
  | block :: chain => RetirementsStand eraSummaries chain ∧
      ∀ poolId epoch, PoolAction.registration ∈ blockActions poolId block →
        lastAction poolId chain = some (.retirement epoch) →
          ((blockActions poolId block).getLast? = some .registration ↔
            Reached eraSummaries (block :: chain) epoch)

section Epochs

variable {chain : List (Block PoolCertificate)} {block : Block PoolCertificate}
  {evt : StakePoolEvent}

variable {epochNo : ℕ}

theorem TellsOf.epoch_le (heras : ValidEras eraSummaries.1)
    (hevt : TellsOf eraSummaries evt chain block) {earlier : Block PoolCertificate}
    (hmem : earlier ∈ block :: chain) (hepoch : epochOf eraSummaries earlier = .ok epochNo) :
    epochNo ≤ evt.epochNo := by
  rcases List.mem_cons.mp hmem with rfl | hmem
  · exact (Except.ok.inj (hepoch.symm.trans hevt.valid.epoch)).le
  · exact createSlotEpochCalc_mono heras (hevt.valid.later earlier hmem).le hepoch
      hevt.valid.epoch

theorem TellsOf.not_reached (heras : ValidEras eraSummaries.1)
    (hevt : TellsOf eraSummaries evt chain block) (hlater : evt.epochNo < epochNo) :
    ¬Reached eraSummaries (block :: chain) epochNo := by
  rintro ⟨earlier, hmem, hepoch⟩
  exact absurd (hevt.epoch_le heras hmem hepoch) (Nat.not_le_of_lt hlater)

theorem TellsOf.reached_iff (hevt : TellsOf eraSummaries evt chain block) :
    Reached eraSummaries (block :: chain) epochNo ↔
      Reached eraSummaries chain epochNo ∨ epochNo = evt.epochNo := by
  have hepoch : epochOf eraSummaries block = .ok evt.epochNo := hevt.valid.epoch
  rw [Reached, List.exists_mem_cons_iff, hepoch, Except.ok.injEq, or_comm]
  exact or_congr Iff.rfl eq_comm

theorem crossEpochBoundary_iff (heras : ValidEras eraSummaries.1)
    (hchain : ValidChain eraSummaries.1 chain) (hevt : TellsOf eraSummaries evt chain block)
    (hevent : mapBlock eraSummaries chain block = .ok evt) (hne : chain ≠ []) :
    evt.crossEpochBoundary = true ↔ ¬Reached eraSummaries chain evt.epochNo := by
  obtain ⟨_, _, _, previous, hcross, hprevious⟩ := mapBlock_ok hevent
  rw [hcross, decide_eq_true_iff, not_iff_not]
  cases chain with
  | nil => exact absurd rfl hne
  | cons tip chain =>
    have htip : epochOf eraSummaries tip = .ok previous := hprevious
    constructor
    · intro hsame
      exact ⟨tip, List.mem_cons_self, hsame ▸ htip⟩
    · rintro ⟨earlier, hmem, hepoch⟩
      obtain ⟨_, _, hvalid⟩ := hchain
      have hbefore : evt.epochNo ≤ previous := by
        rcases List.mem_cons.mp hmem with rfl | hmem
        · exact (Except.ok.inj (hepoch.symm.trans htip)).le
        · exact createSlotEpochCalc_mono heras (hvalid.later earlier hmem).le hepoch htip
      exact Nat.le_antisymm (hevt.epoch_le heras (List.mem_cons_of_mem _ List.mem_cons_self) htip)
        hbefore

end Epochs

def Agrees (eraSummaries : EraSummaries) (chain : List (Block PoolCertificate))
    (tables : StakePoolTables) (poolId : PoolId) : Option PoolAction → Prop
  | none => tables.stakePools.get? poolId = none
  | some .registration => ∃ pool, tables.stakePools.get? poolId = some pool ∧
      (pool.status = .activating ∨ pool.status = .active) ∧
      ∀ epochNo, tables.retiringAt epochNo pool = true → Reached eraSummaries chain epochNo
  | some (.retirement epochNo) => ∃ pool, tables.stakePools.get? poolId = some pool ∧
      (pool.status = .retiring ∨ pool.status = .retired) ∧
      (pool.status = .retired ↔ Reached eraSummaries chain epochNo) ∧
      tables.retiringAt epochNo pool = true ∧ pool.reregistered = false

section Step

variable {chain : List (Block PoolCertificate)} {block : Block PoolCertificate}
  {evt : StakePoolEvent} {tables next : StakePoolTables} {poolId : PoolId}

theorem lastAction_ne_nil {action : PoolAction} (h : lastAction poolId chain = some action) :
    chain ≠ [] := by
  rintro rfl
  cases h

theorem rolledStatus_of_registered (heras : ValidEras eraSummaries.1)
    (hchain : ValidChain eraSummaries.1 chain) (hevt : TellsOf eraSummaries evt chain block)
    (hevent : mapBlock eraSummaries chain block = .ok evt) (hne : chain ≠ []) {pool : StakePoolEntity}
    (hstatus : pool.status = .activating ∨ pool.status = .active)
    (hreached : ∀ epochNo, tables.retiringAt epochNo pool = true →
      Reached eraSummaries chain epochNo) :
    rolledStatus eraSummaries evt.crossEpochBoundary evt.epochNo tables poolId pool = .activating ∨
      rolledStatus eraSummaries evt.crossEpochBoundary evt.epochNo tables poolId pool = .active := by
  rcases rolledStatus_cases eraSummaries evt.crossEpochBoundary evt.epochNo tables poolId pool
    with ⟨hcross, hretiring, _⟩ | ⟨_, hactive⟩ | hsame
  · exact absurd (hreached _ hretiring)
      ((crossEpochBoundary_iff heras hchain hevt hevent hne).mp hcross)
  · exact Or.inr hactive
  · rw [hsame]
    exact hstatus

/-- A retiring pool is retired at the boundary of the epoch that its certificate
says, and at no other. -/
theorem rolledStatus_of_retiring (heras : ValidEras eraSummaries.1)
    (hchain : ValidChain eraSummaries.1 chain) (hevt : TellsOf eraSummaries evt chain block)
    (hevent : mapBlock eraSummaries chain block = .ok evt) (hne : chain ≠ []) {pool : StakePoolEntity}
    {epochNo : ℕ} (hstatus : pool.status = .retiring ∨ pool.status = .retired)
    (hretired : pool.status = .retired ↔ Reached eraSummaries chain epochNo)
    (hretiring : tables.retiringAt epochNo pool = true) :
    (rolledStatus eraSummaries evt.crossEpochBoundary evt.epochNo tables poolId pool = .retiring ∨
      rolledStatus eraSummaries evt.crossEpochBoundary evt.epochNo tables poolId pool = .retired) ∧
    (rolledStatus eraSummaries evt.crossEpochBoundary evt.epochNo tables poolId pool = .retired ↔
      Reached eraSummaries (block :: chain) epochNo) := by
  rw [hevt.reached_iff]
  rcases rolledStatus_cases eraSummaries evt.crossEpochBoundary evt.epochNo tables poolId pool
    with ⟨_, hnow, hrolled⟩ | ⟨hactivating, _⟩ | hrolled
  · have hsame := retiringAt_unique hretiring hnow
    rw [hrolled]
    exact ⟨Or.inr rfl, iff_of_true rfl (Or.inr hsame)⟩
  · rw [hactivating] at hstatus
    simp at hstatus
  · refine ⟨hrolled ▸ hstatus, ?_⟩
    rw [hrolled, hretired]
    refine (or_iff_left_of_imp ?_).symm
    -- were this the epoch, the boundary would have been crossed
    rintro rfl
    by_contra hnot
    have hcross := (crossEpochBoundary_iff heras hchain hevt hevent hne).mpr hnot
    have hnow : rolledStatus eraSummaries evt.crossEpochBoundary evt.epochNo tables poolId pool =
        .retired := by
      rw [rolledStatus, hcross, Bool.not_true, if_neg Bool.false_ne_true, if_pos hretiring]
    exact hnot (hretired.mp (hrolled.symm.trans hnow))

variable {found : StakePoolEntity} {retirement : PoolRetirement}

theorem not_reregistered (h : Follow eraSummaries chain tables)
    (hevt : TellsOf eraSummaries evt chain block)
    (hfound : foundPool eraSummaries evt tables poolId = some found)
    (hretirement : evt.stakePools.retirement? poolId = some retirement)
    (hlast : (evt.stakePools.store poolId found).lastRetirement =
      some (certificatePointerToId retirement.source)) :
    (evt.stakePools.store poolId found).reregistered = false := by
  obtain ⟨hmem, hid⟩ := StakePools.mem_of_retirement? hretirement
  have holder : ∀ id, (evt.stakePools.store poolId found).lastRegistration = some id →
      id < certificatePointerToId retirement.source := by
    intro id hregistration
    rw [StakePools.store_lastRegistration] at hregistration
    cases hupdate : evt.stakePools.update? poolId with
    | some update =>
      rw [hupdate] at hregistration
      cases hregistration
      exact hevt.describe.order poolId update retirement hupdate hretirement
    | none =>
      rw [hupdate] at hregistration
      rcases foundPool_cases hfound with ⟨before, hbefore, rfl⟩ | ⟨_, rfl, _⟩
      · obtain ⟨id', hlast', hmax⟩ := h.lastRegistration poolId before hbefore
        have hsame := Option.some.inj (hlast'.symm.trans hregistration)
        obtain ⟨row, hrow, _⟩ := JsMap.mem_keysWhere.mp (List.max?_mem hmax)
        rw [← hsame]
        exact hevt.lt_id (h.registrationSlot id' row hrow) (hevt.slotOfId_retirement hmem)
      · cases hregistration
  rw [Bool.eq_false_iff, ne_eq, StakePoolEntity.reregistered_iff]
  rintro ⟨id, id', hregistration, hretired, hlt⟩
  rw [hlast] at hretired
  cases hretired
  exact Nat.lt_asymm hlt (holder id hregistration)

theorem reregistered_of_update (h : Follow eraSummaries chain tables)
    (hevt : TellsOf eraSummaries evt chain block) {before : StakePoolEntity}
    (hbefore : tables.stakePools.get? poolId = some before) {id : ℕ}
    (hlast : before.lastRetirement = some id) {update : PoolUpdate}
    (hupdate : evt.stakePools.update? poolId = some update) (status : StakePoolStatus) :
    (evt.stakePools.noteRegistration poolId { before with status }).reregistered = true := by
  obtain ⟨row, hrow, _⟩ := h.lastRetirement poolId before id hbefore hlast
  obtain ⟨hmem, _⟩ := StakePools.mem_of_update? hupdate
  have hlt := hevt.lt_id (h.retirementSlot id row hrow) (hevt.slotOfId_update hmem)
  obtain ⟨_, hretirement⟩ := @StakePools.noteRegistration_rest evt.stakePools
    poolId { before with status }
  have hregistration := @StakePools.noteRegistration_lastRegistration
    evt.stakePools poolId { before with status }
  rw [hupdate, Option.map_some, Option.some_or] at hregistration
  exact StakePoolEntity.reregistered_iff.mpr
    ⟨_, id, hregistration, hretirement.trans hlast, hlt⟩

theorem Reached.cons {epochNo : ℕ} (h : Reached eraSummaries chain epochNo) :
    Reached eraSummaries (block :: chain) epochNo := by
  obtain ⟨earlier, hmem, hepoch⟩ := h
  exact ⟨earlier, List.mem_cons_of_mem _ hmem, hepoch⟩

theorem TellsOf.update?_eq_none (hevt : TellsOf eraSummaries evt chain block)
    (hnot : PoolAction.registration ∉ blockActions poolId block) :
    evt.stakePools.update? poolId = none := by
  rwa [← hevt.describe.registered, Bool.not_eq_true, Option.isSome_eq_false_iff,
    Option.isNone_iff_eq_none] at hnot

theorem TellsOf.retirement?_eq_none (hevt : TellsOf eraSummaries evt chain block)
    (hnot : ∀ epoch, (blockActions poolId block).getLast? ≠ some (.retirement epoch)) :
    evt.stakePools.retirement? poolId = none := by
  cases hretirement : evt.stakePools.retirement? poolId with
  | none => rfl
  | some retirement =>
    exact absurd ((hevt.describe.last poolId retirement.epoch).mpr ⟨_, hretirement, rfl⟩) (hnot _)

theorem agrees_of_retirement (heras : ValidEras eraSummaries.1)
    (h : Follow eraSummaries chain tables) (hevt : TellsOf eraSummaries evt chain block)
    (hnext : RolledForward eraSummaries evt tables next)
    (hfound : foundPool eraSummaries evt tables poolId = some found)
    (hstatus : found.status ≠ .retired)
    (hretirement : evt.stakePools.retirement? poolId = some retirement) :
    Agrees eraSummaries (block :: chain) next poolId (some (.retirement retirement.epoch)) := by
  obtain ⟨hlast, hretiring⟩ := @StakePools.store_of_not_retired evt.stakePools poolId _ hstatus
  rw [hretirement, Option.map_some, Option.some_or] at hlast
  rw [hretirement, Option.isSome_some, if_pos rfl] at hretiring
  have hpool : next.stakePools.get? poolId = some (evt.stakePools.store poolId found) := by
    rw [hnext.pools, hfound]
    rfl
  obtain ⟨hmem, _⟩ := StakePools.mem_of_retirement? hretirement
  have hrow : next.poolRetirements.get? (certificatePointerToId retirement.source) =
      some (poolRetirementRow evt.slot retirement).2 :=
    (JsMap.get?_insertRows hnext.retirements).mpr (Or.inr (List.mem_map_of_mem hmem))
  have hnot := hevt.not_reached heras (hevt.registered hretirement).1
  refine ⟨_, hpool, Or.inl hretiring, ?_, ?_, not_reregistered h hevt hfound hretirement hlast⟩
  · rw [hretiring]
    exact iff_of_false (fun heq => StakePoolStatus.noConfusion heq) hnot
  · rw [StakePoolTables.retiringAt, hlast, Option.bind_some, hrow]
    exact decide_eq_true rfl

theorem agrees_of_registered (heras : ValidEras eraSummaries.1)
    (hchain : ValidChain eraSummaries.1 chain) (h : Follow eraSummaries chain tables)
    (hevt : TellsOf eraSummaries evt chain block)
    (hevent : mapBlock eraSummaries chain block = .ok evt)
    (hnext : RolledForward eraSummaries evt tables next)
    (hlast : lastAction poolId chain = some .registration)
    (hbefore : Agrees eraSummaries chain tables poolId (some .registration)) :
    Agrees eraSummaries (block :: chain) next poolId (lastAction poolId (block :: chain)) := by
  obtain ⟨before, hpool, hstatus, hreached⟩ := hbefore
  have hrolled := @rolledStatus_of_registered _ _ _ _ tables poolId heras hchain hevt hevent
    (lastAction_ne_nil hlast) before hstatus hreached
  let status := rolledStatus eraSummaries evt.crossEpochBoundary evt.epochNo tables poolId before
  have hfound : foundPool eraSummaries evt tables poolId = some { before with status } := by
    rw [foundPool, hpool]
    rfl
  have hnextPool : next.stakePools.get? poolId =
      some (evt.stakePools.store poolId { before with status }) := by
    rw [hnext.pools, hfound]
    rfl
  have hnotRetired : status ≠ .retired := by
    intro heq
    rcases hrolled with hactivating | hactive
    · exact StakePoolStatus.noConfusion (hactivating.symm.trans heq)
    · exact StakePoolStatus.noConfusion (hactive.symm.trans heq)
  cases hretirement : evt.stakePools.retirement? poolId with
  | some retirement =>
    have haction := (hevt.describe.last poolId retirement.epoch).mpr ⟨_, hretirement, rfl⟩
    rw [lastAction, haction, Option.some_or]
    exact agrees_of_retirement heras h hevt hnext hfound hnotRetired hretirement
  | none =>
    have hregistered : lastAction poolId (block :: chain) = some .registration := by
      rw [lastAction, hlast]
      cases haction : (blockActions poolId block).getLast? with
      | none => rfl
      | some action =>
        cases action with
        | registration => rfl
        | retirement epoch =>
          obtain ⟨retirement, hsome, _⟩ := (hevt.describe.last poolId epoch).mp haction
          rw [hretirement] at hsome
          cases hsome
    obtain ⟨hsame, hkept⟩ := @StakePools.store_of_not_retired evt.stakePools poolId
      { before with status } hnotRetired
    rw [hretirement, Option.map_none, Option.none_or] at hsame
    rw [hretirement, Option.isSome_none, if_neg Bool.false_ne_true] at hkept
    rw [hregistered]
    refine ⟨_, hnextPool, ?_, ?_⟩
    · rw [hkept]
      exact hrolled
    · intro epochNo hretiring
      rw [h.retiringAt_next hnext hpool hsame] at hretiring
      exact (hreached epochNo hretiring).cons

theorem agrees_of_retiring (heras : ValidEras eraSummaries.1)
    (hchain : ValidChain eraSummaries.1 chain) (h : Follow eraSummaries chain tables)
    (hevt : TellsOf eraSummaries evt chain block)
    (hevent : mapBlock eraSummaries chain block = .ok evt)
    (hnext : RolledForward eraSummaries evt tables next) {epoch : ℕ}
    (hstand : PoolAction.registration ∈ blockActions poolId block →
      ((blockActions poolId block).getLast? = some .registration ↔
        Reached eraSummaries (block :: chain) epoch))
    (hlast : lastAction poolId chain = some (.retirement epoch))
    (hbefore : Agrees eraSummaries chain tables poolId (some (.retirement epoch))) :
    Agrees eraSummaries (block :: chain) next poolId (lastAction poolId (block :: chain)) := by
  obtain ⟨before, hpool, hstatus, hretired, hretiring, hfirst⟩ := hbefore
  obtain ⟨hrolled, hrolledRetired⟩ := @rolledStatus_of_retiring _ _ _ _ tables poolId heras hchain
    hevt hevent (lastAction_ne_nil hlast) before epoch hstatus hretired hretiring
  let status := rolledStatus eraSummaries evt.crossEpochBoundary evt.epochNo tables poolId before
  have hfound : foundPool eraSummaries evt tables poolId = some { before with status } := by
    rw [foundPool, hpool]
    rfl
  have hnextPool : next.stakePools.get? poolId =
      some (evt.stakePools.store poolId { before with status }) := by
    rw [hnext.pools, hfound]
    rfl
  cases haction : (blockActions poolId block).getLast? with
  | some action =>
    rw [lastAction, haction, Option.some_or]
    cases action with
    | retirement epoch' =>
      obtain ⟨retirement, hretirement, rfl⟩ := (hevt.describe.last poolId epoch').mp haction
      -- the earlier retirement is pending, or the ledger would not permit this one
      have hpending : ¬Reached eraSummaries (block :: chain) epoch := by
        by_cases hregistered : PoolAction.registration ∈ blockActions poolId block
        · rw [← hstand hregistered, haction]
          simp
        · have hpermitted := (hevt.registered hretirement).2 (hevt.update?_eq_none hregistered)
          rw [hlast] at hpermitted
          exact hevt.not_reached heras hpermitted
      exact agrees_of_retirement heras h hevt hnext hfound
        (fun heq => hpending (hrolledRetired.mp heq)) hretirement
    | registration =>
      have hmem := List.mem_of_getLast? haction
      have hreached := (hstand hmem).mp haction
      have hretiredNow : status = .retired := hrolledRetired.mpr hreached
      obtain ⟨update, hupdate⟩ := Option.isSome_iff_exists.mp
        ((hevt.describe.registered poolId).mpr hmem)
      obtain ⟨hsame, hactivated⟩ := @StakePools.store_of_retired evt.stakePools poolId
        { before with status } hretiredNow
      obtain ⟨id, hid⟩ := Option.ne_none_iff_exists'.mp (retiringAt_lastRetirement hretiring)
      rw [if_pos ⟨List.ne_nil_of_mem (StakePools.mem_of_update? hupdate).1,
        reregistered_of_update h hevt hpool hid hupdate status⟩] at hactivated
      refine ⟨_, hnextPool, Or.inl hactivated, ?_⟩
      intro epochNo hnow
      rw [h.retiringAt_next hnext hpool hsame] at hnow
      rw [retiringAt_unique hnow hretiring]
      exact hreached
  | none =>
    have hupdate := hevt.update?_eq_none fun hmem => by
      rw [List.getLast?_eq_none_iff.mp haction] at hmem
      cases hmem
    have hretirement := hevt.retirement?_eq_none fun epoch => by
      rw [haction]
      simp
    have hstore : evt.stakePools.store poolId { before with status } = { before with status } := by
      have hnote : evt.stakePools.noteRegistration poolId { before with status } =
          { before with status } := by
        rw [StakePools.noteRegistration, hupdate]
        rfl
      rw [StakePools.store, hnote, StakePools.noteRetirement, hretirement, Option.elim_none,
        StakePools.reactivate, if_neg]
      rintro ⟨_, _, hagain⟩
      exact Bool.false_ne_true (hfirst.symm.trans hagain)
    rw [hstore] at hnextPool
    rw [lastAction, haction, Option.none_or, hlast]
    refine ⟨_, hnextPool, hrolled, hrolledRetired, ?_, hfirst⟩
    exact (h.retiringAt_next hnext hpool rfl epoch).trans hretiring

theorem agrees_of_none (heras : ValidEras eraSummaries.1) (h : Follow eraSummaries chain tables)
    (hevt : TellsOf eraSummaries evt chain block)
    (hnext : RolledForward eraSummaries evt tables next)
    (hlast : lastAction poolId chain = none)
    (hbefore : tables.stakePools.get? poolId = none) :
    Agrees eraSummaries (block :: chain) next poolId (lastAction poolId (block :: chain)) := by
  have hfound : foundPool eraSummaries evt tables poolId =
      (evt.stakePools.update? poolId).map fun _ => { status := .activating } := by
    rw [foundPool, hbefore]
    rfl
  cases haction : (blockActions poolId block).getLast? with
  | some action =>
    rw [lastAction, haction, Option.some_or]
    have hmem : PoolAction.registration ∈ blockActions poolId block := by
      cases action with
      | registration => exact List.mem_of_getLast? haction
      | retirement epoch =>
        obtain ⟨_, hpermitted⟩ :=
          (hevt.valid.permitted poolId).retirement (List.mem_of_getLast? haction)
        by_contra hnone
        rw [hlast] at hpermitted
        exact (hpermitted hnone).elim
    obtain ⟨update, hupdate⟩ := Option.isSome_iff_exists.mp
      ((hevt.describe.registered poolId).mpr hmem)
    rw [hupdate] at hfound
    have hnotRetired : ({ status := .activating } : StakePoolEntity).status ≠ .retired :=
      fun heq => StakePoolStatus.noConfusion heq
    cases action with
    | retirement epoch =>
      obtain ⟨retirement, hretirement, rfl⟩ := (hevt.describe.last poolId epoch).mp haction
      exact agrees_of_retirement heras h hevt hnext hfound hnotRetired hretirement
    | registration =>
      have hnone := hevt.retirement?_eq_none fun epoch => by
        rw [haction]
        simp
      have hnextPool : next.stakePools.get? poolId =
          some (evt.stakePools.store poolId { status := .activating }) := by
        rw [hnext.pools, hfound]
        rfl
      obtain ⟨hsame, hkept⟩ := @StakePools.store_of_not_retired evt.stakePools poolId _ hnotRetired
      rw [hnone, Option.map_none, Option.none_or] at hsame
      rw [hnone, Option.isSome_none, if_neg Bool.false_ne_true] at hkept
      refine ⟨_, hnextPool, Or.inl hkept, ?_⟩
      intro epochNo hretiring
      exact absurd hsame (retiringAt_lastRetirement hretiring)
  | none =>
    have hnone := hevt.update?_eq_none fun hmem => by
      rw [List.getLast?_eq_none_iff.mp haction] at hmem
      cases hmem
    rw [lastAction, haction, Option.none_or, hlast]
    change next.stakePools.get? poolId = none
    rw [hnext.pools, hfound, hnone]
    rfl

theorem agrees_step (heras : ValidEras eraSummaries.1) (hchain : ValidChain eraSummaries.1 chain)
    (h : Follow eraSummaries chain tables) (hevt : TellsOf eraSummaries evt chain block)
    (hevent : mapBlock eraSummaries chain block = .ok evt)
    (hnext : RolledForward eraSummaries evt tables next)
    (hstand : RetirementsStand eraSummaries (block :: chain))
    (hbefore : Agrees eraSummaries chain tables poolId (lastAction poolId chain)) :
    Agrees eraSummaries (block :: chain) next poolId (lastAction poolId (block :: chain)) := by
  cases hlast : lastAction poolId chain with
  | none =>
    rw [hlast] at hbefore
    exact agrees_of_none heras h hevt hnext hlast hbefore
  | some action =>
    rw [hlast] at hbefore
    cases action with
    | registration => exact agrees_of_registered heras hchain h hevt hevent hnext hlast hbefore
    | retirement epoch =>
      exact agrees_of_retiring heras hchain h hevt hevent hnext
        (fun hmem => hstand.2 poolId epoch hmem hlast) hlast hbefore

end Step

variable {chain : List (Block PoolCertificate)}

variable {tables : StakePoolTables}

/-- After every chain on which retirements stand, the status of a pool is what its
last certificate says. -/
theorem rollsForward_agrees (heras : ValidEras eraSummaries.1)
    (hvalid : ValidChain eraSummaries.1 chain) (hstand : RetirementsStand eraSummaries chain)
    (h : RollsForward eraSummaries chain tables) (poolId : PoolId) :
    Agrees eraSummaries chain tables poolId (lastAction poolId chain) := by
  induction h with
  | origin => rfl
  | block hchain hevent hstore ih =>
    obtain ⟨hvalidChain, epochNo, hblock⟩ := hvalid
    have hevt := tellsOf hblock hevent
    exact agrees_step heras hvalidChain (rollsForward_follow hvalidChain hchain) hevt hevent
      (rolledForward hevt.describe hstore) hstand (ih hvalidChain hstand.1)

def statusOf (tables : StakePoolTables) (poolId : PoolId) : Option StakePoolStatus :=
  (tables.stakePools.get? poolId).map StakePoolEntity.status

def BecomesRetired (before after : StakePoolTables) (poolId : PoolId) : Prop :=
  statusOf before poolId ≠ some .retired ∧ statusOf after poolId = some .retired

/-- The first block of an epoch retires the pools whose last certificate before it
says so, and no others; those that it does not register again stay retired. A pool
whose last certificate is a registration is not retiring. -/
def RetiredByLastAction (eraSummaries : EraSummaries) (chain : List (Block PoolCertificate))
    (block : Block PoolCertificate) (evt : StakePoolEvent) (tables next : StakePoolTables)
    (poolId : PoolId) : Prop :=
  (¬Reached eraSummaries chain evt.epochNo →
    (BecomesRetired tables (onRollover eraSummaries evt.crossEpochBoundary evt.epochNo tables) poolId ↔
      lastAction poolId chain = some (.retirement evt.epochNo)) ∧
    (PoolAction.registration ∉ blockActions poolId block → (BecomesRetired tables next poolId ↔
      lastAction poolId chain = some (.retirement evt.epochNo)))) ∧
  (lastAction poolId (block :: chain) = some .registration →
    statusOf next poolId ≠ some .retiring)

section Retirement

variable {chain : List (Block PoolCertificate)} {block : Block PoolCertificate}
  {evt : StakePoolEvent} {tables next : StakePoolTables} {poolId : PoolId}

variable {pool : StakePoolEntity}

theorem statusOf_some (h : tables.stakePools.get? poolId = some pool) :
    statusOf tables poolId = some pool.status := by
  rw [statusOf, h]
  rfl

theorem statusOf_onRollover (tables : StakePoolTables) (crossEpochBoundary : Bool) (epochNo : ℕ)
    (h : tables.stakePools.get? poolId = some pool) :
    statusOf (onRollover eraSummaries crossEpochBoundary epochNo tables) poolId =
      some (rolledStatus eraSummaries crossEpochBoundary epochNo tables poolId pool) := by
  rw [statusOf, get?_onRollover, h]
  rfl

theorem Agrees.retired_iff
    (h : Agrees eraSummaries chain tables poolId (lastAction poolId chain)) :
    statusOf tables poolId = some .retired ↔
      ∃ epoch, lastAction poolId chain = some (.retirement epoch) ∧
        Reached eraSummaries chain epoch := by
  cases hlast : lastAction poolId chain with
  | none =>
    rw [hlast] at h
    have hnone : tables.stakePools.get? poolId = none := h
    rw [statusOf, hnone]
    simp
  | some action =>
    rw [hlast] at h
    cases action with
    | registration =>
      obtain ⟨pool, hpool, hactivating | hactive, _⟩ := h
      · simp [statusOf_some hpool, hactivating]
      · simp [statusOf_some hpool, hactive]
    | retirement epoch =>
      obtain ⟨pool, hpool, _, hretired, _⟩ := h
      rw [statusOf_some hpool, Option.some_inj, hretired]
      simp

theorem retired_onRollover_iff (heras : ValidEras eraSummaries.1)
    (hchain : ValidChain eraSummaries.1 chain) (hevt : TellsOf eraSummaries evt chain block)
    (hevent : mapBlock eraSummaries chain block = .ok evt)
    (hagrees : Agrees eraSummaries chain tables poolId (lastAction poolId chain)) :
    statusOf (onRollover eraSummaries evt.crossEpochBoundary evt.epochNo tables) poolId =
        some .retired ↔
      ∃ epoch, lastAction poolId chain = some (.retirement epoch) ∧
        Reached eraSummaries (block :: chain) epoch := by
  cases hlast : lastAction poolId chain with
  | none =>
    rw [hlast] at hagrees
    have hnone : tables.stakePools.get? poolId = none := hagrees
    rw [statusOf, get?_onRollover, hnone]
    simp
  | some action =>
    have hne := lastAction_ne_nil hlast
    rw [hlast] at hagrees
    cases action with
    | registration =>
      obtain ⟨pool, hpool, hstatus, hreached⟩ := hagrees
      rw [statusOf_onRollover tables _ _ hpool]
      rcases @rolledStatus_of_registered _ _ _ _ tables poolId heras hchain hevt hevent hne pool
        hstatus hreached with hrolled | hrolled
      · simp [hrolled]
      · simp [hrolled]
    | retirement epoch =>
      obtain ⟨pool, hpool, hstatus, hretired, hretiring, _⟩ := hagrees
      obtain ⟨_, hrolled⟩ := @rolledStatus_of_retiring _ _ _ _ tables poolId heras hchain hevt
        hevent hne pool epoch hstatus hretired hretiring
      rw [statusOf_onRollover tables _ _ hpool, Option.some_inj, hrolled]
      simp

theorem retired_next_iff (heras : ValidEras eraSummaries.1)
    (hevt : TellsOf eraSummaries evt chain block)
    (hagrees : Agrees eraSummaries (block :: chain) next poolId (lastAction poolId (block :: chain)))
    (hnone : PoolAction.registration ∉ blockActions poolId block) :
    statusOf next poolId = some .retired ↔
      ∃ epoch, lastAction poolId chain = some (.retirement epoch) ∧
        Reached eraSummaries (block :: chain) epoch := by
  rw [hagrees.retired_iff, lastAction]
  cases haction : (blockActions poolId block).getLast? with
  | none => rw [Option.none_or]
  | some action =>
    cases action with
    | registration => exact absurd (List.mem_of_getLast? haction) hnone
    | retirement epoch =>
      -- the retirements of the block and, before it, of the pool are still to come
      obtain ⟨hlater, hpermitted⟩ :=
        (hevt.valid.permitted poolId).retirement (List.mem_of_getLast? haction)
      have hregistered := hpermitted hnone
      apply iff_of_false
      · rintro ⟨_, heq, hreached⟩
        cases heq
        exact hevt.not_reached heras hlater hreached
      · rintro ⟨epoch', heq, hreached⟩
        rw [heq] at hregistered
        exact hevt.not_reached heras hregistered hreached

theorem becomesRetired_iff (hevt : TellsOf eraSummaries evt chain block)
    (hagrees : Agrees eraSummaries chain tables poolId (lastAction poolId chain))
    (hfirst : ¬Reached eraSummaries chain evt.epochNo)
    (hafter : statusOf next poolId = some .retired ↔
      ∃ epoch, lastAction poolId chain = some (.retirement epoch) ∧
        Reached eraSummaries (block :: chain) epoch) :
    BecomesRetired tables next poolId ↔
      lastAction poolId chain = some (.retirement evt.epochNo) := by
  rw [BecomesRetired, ne_eq, hagrees.retired_iff, hafter]
  constructor
  · rintro ⟨hnot, epoch, hlast, hreached⟩
    rcases hevt.reached_iff.mp hreached with hbefore | rfl
    · exact absurd ⟨epoch, hlast, hbefore⟩ hnot
    · exact hlast
  · intro hlast
    refine ⟨?_, evt.epochNo, hlast, hevt.reached_iff.mpr (Or.inr rfl)⟩
    rintro ⟨epoch, hlast', hreached⟩
    cases hlast.symm.trans hlast'
    exact hfirst hreached

theorem retired_by_last_certificate (heras : ValidEras eraSummaries.1)
    (hvalid : ValidChain eraSummaries.1 (block :: chain))
    (hstand : RetirementsStand eraSummaries (block :: chain))
    (hchain : RollsForward eraSummaries chain tables)
    (hevent : mapBlock eraSummaries chain block = .ok evt)
    (hstore : rollForwardStakePools eraSummaries evt tables = .ok next) (poolId : PoolId) :
    RetiredByLastAction eraSummaries chain block evt tables next poolId := by
  have hafter := rollsForward_agrees heras hvalid hstand (.block hchain hevent hstore) poolId
  obtain ⟨hvalidChain, epochNo, hblock⟩ := hvalid
  have hevt := tellsOf hblock hevent
  have hbefore := rollsForward_agrees heras hvalidChain hstand.1 hchain poolId
  constructor
  · intro hfirst
    refine ⟨?_, ?_⟩
    · exact becomesRetired_iff hevt hbefore hfirst
        (retired_onRollover_iff heras hvalidChain hevt hevent hbefore)
    · intro hnone
      exact becomesRetired_iff hevt hbefore hfirst (retired_next_iff heras hevt hafter hnone)
  · intro hlast
    rw [hlast] at hafter
    obtain ⟨pool, hpool, hstatus, _⟩ := hafter
    rw [statusOf_some hpool]
    rcases hstatus with hactivating | hactive
    · simp [hactivating]
    · simp [hactive]

end Retirement

/-! A pool is registered, retires, and is registered again before the epoch at which
it would have retired. -/

def tenSlotEras : EraSummaries := ⟨[tenSlotEra], List.cons_ne_nil _ _⟩

theorem tenSlotEras_valid : ValidEras tenSlotEras.1 where
  nonempty := List.cons_ne_nil _ _
  ascending := List.pairwise_singleton _ _
  positive := by decide
  aligned := List.isChain_singleton _

def poolTx (certificate : PoolCertificate) : OnChainTx PoolCertificate :=
  { id := [], inputSource := .inputs, body := { certificates := some [certificate] } }

def poolBlock (slot : ℕ) (certificate : PoolCertificate) : Block PoolCertificate :=
  { header := headerAt slot, body := [poolTx certificate] }

def registrationAt (slot : ℕ) : Block PoolCertificate :=
  poolBlock slot (.poolRegistration { id := [1] })

def retirementAt (slot epoch : ℕ) : Block PoolCertificate :=
  poolBlock slot (.poolRetirement [1] epoch)

def emptyBlock (slot : ℕ) : Block PoolCertificate := { header := headerAt slot, body := [] }

def tenSlotEvent (chain : List (Block PoolCertificate)) (block : Block PoolCertificate) :
    StakePoolEvent where
  slot := block.header.slot
  epochNo := block.header.slot / 10
  crossEpochBoundary := (chain.head?.map fun tip => tip.header.slot / 10).getD 0 ≠
    block.header.slot / 10
  stakePools := withStakePools (blockCertificates block)

theorem mapBlock_tenSlotEras (chain : List (Block PoolCertificate)) (block : Block PoolCertificate) :
    mapBlock tenSlotEras chain block = .ok (tenSlotEvent chain block) := by
  have hmapped : ∀ header, withEpochNo tenSlotEras.1 (.forward header) =
      .ok { event := .forward header, epochNo := header.slot / 10 } := by
    intro header
    rw [withEpochNo]
    exact congrArg (· >>= _) (createSlotEpochCalc_tenSlotEra header.slot)
  rw [mapBlock, hmapped]
  cases chain with
  | nil => rfl
  | cons tip chain =>
    rw [eventBefore, hmapped]
    by_cases hzero : tip.header.slot / 10 = 0
    · have hprevious : prevEpoch tenSlotEras.1 .origin
          (some { event := .forward tip.header, epochNo := tip.header.slot / 10 }) = .ok 0 :=
        if_pos hzero
      change (prevEpoch tenSlotEras.1 .origin _ >>= _) = _
      rw [hprevious, tenSlotEvent, List.head?_cons, Option.map_some, Option.getD_some, hzero]
      rfl
    · have hprevious : prevEpoch tenSlotEras.1 .origin
          (some { event := .forward tip.header, epochNo := tip.header.slot / 10 }) =
            .ok (tip.header.slot / 10) := if_neg hzero
      change (prevEpoch tenSlotEras.1 .origin _ >>= _) = _
      rw [hprevious]
      rfl

def tenSlotTables : List (Block PoolCertificate) → Except DatabaseError StakePoolTables
  | [] => .ok StakePoolTables.empty
  | block :: chain => do
      let tables ← tenSlotTables chain
      rollForwardStakePools tenSlotEras (tenSlotEvent chain block) tables

theorem rollsForward_tenSlotTables (h : tenSlotTables chain = .ok tables) :
    RollsForward tenSlotEras chain tables := by
  induction chain generalizing tables with
  | nil =>
    cases h
    exact .origin
  | cons block chain ih =>
    obtain ⟨before, hbefore, hstore⟩ := bind_ok h
    exact .block (ih hbefore) (mapBlock_tenSlotEras chain block) hstore

theorem blockActions_other {poolId : PoolId} (hne : [1] ≠ poolId) (slot epoch : ℕ) :
    blockActions poolId (registrationAt slot) = [] ∧
      blockActions poolId (retirementAt slot epoch) = [] := by
  have hnone : poolAction? poolId (.poolRegistration { id := [1] }) = none ∧
      poolAction? poolId (.poolRetirement [1] epoch) = none := ⟨if_neg hne, if_neg hne⟩
  constructor
  · exact congrArg Option.toList hnone.1
  · exact congrArg Option.toList hnone.2

theorem validBlock_tenSlotEras {block : Block PoolCertificate}
    (hlater : ∀ earlier ∈ chain, earlier.header.slot < block.header.slot)
    (hspace : ∀ certificate ∈ blockCertificates block,
      certificate.pointer.txIndex ≤ MaxCertificatePointerIdTxIndex ∧
        certificate.pointer.certIndex ≤ MaxCertificatePointerIdCertificateIndex)
    (hother : ∀ poolId, [1] ≠ poolId → blockActions poolId block = [])
    (hpool : PermittedActions (block.header.slot / 10) (lastAction [1] chain)
      (blockActions [1] block)) : ∃ epochNo, ValidBlock tenSlotEras.1 chain block epochNo := by
  refine ⟨_, hlater, createSlotEpochCalc_tenSlotEra _, hspace, ?_⟩
  intro poolId
  by_cases heq : [1] = poolId
  · rw [← heq]
    exact hpool
  · rw [hother poolId heq]
    trivial

def retiredChain : List (Block PoolCertificate) := [retirementAt 2 1, registrationAt 1]

def cancelledChain : List (Block PoolCertificate) := registrationAt 3 :: retiredChain

theorem retiredChain_valid : ValidChain tenSlotEras.1 retiredChain := by
  refine ⟨⟨trivial, validBlock_tenSlotEras (by decide) (by decide) ?_ ⟨trivial, trivial⟩⟩,
    validBlock_tenSlotEras (by decide) (by decide) ?_ ⟨⟨trivial, by decide⟩, trivial⟩⟩
  · intro poolId hne
    exact (blockActions_other hne 1 0).1
  · intro poolId hne
    exact (blockActions_other hne 2 1).2

theorem cancelledChain_valid : ValidChain tenSlotEras.1 cancelledChain := by
  refine ⟨retiredChain_valid, validBlock_tenSlotEras (by decide) (by decide) ?_ ⟨trivial, trivial⟩⟩
  intro poolId hne
  exact (blockActions_other hne 3 0).1

theorem emptyBlock_valid {slot : ℕ} (hchain : ValidChain tenSlotEras.1 chain)
    (hlater : ∀ earlier ∈ chain, earlier.header.slot < slot) :
    ValidChain tenSlotEras.1 (emptyBlock slot :: chain) := by
  refine ⟨hchain, validBlock_tenSlotEras hlater ?_ (fun _ _ => rfl) trivial⟩
  intro certificate hmem
  cases hmem

theorem retiredChain_stands : RetirementsStand tenSlotEras (emptyBlock 10 :: retiredChain) := by
  refine ⟨⟨⟨trivial, ?_⟩, ?_⟩, ?_⟩
  · intro poolId epoch _ hlast
    cases hlast
  · intro poolId epoch hmem
    have hnone : PoolAction.registration ∉ blockActions poolId (retirementAt 2 1) := by
      by_cases heq : [1] = poolId
      · subst heq
        decide
      · rw [(blockActions_other heq 2 1).2]
        exact List.not_mem_nil
    exact absurd hmem hnone
  · intro poolId epoch hmem
    cases hmem

/-- The pool retires at the epoch that its last certificate says. -/
theorem retired_by_last_certificate_retiredChain :
    ∃ evt tables next, evt.epochNo = 1 ∧
      RetiredByLastAction tenSlotEras retiredChain (emptyBlock 10) evt tables next [1] ∧
      lastAction [1] retiredChain = some (.retirement 1) ∧ statusOf next [1] = some .retired := by
  have hretired : okAnd (fun tables => statusOf tables [1] = some .retired)
      (tenSlotTables (emptyBlock 10 :: retiredChain)) = true := by decide
  obtain ⟨next, hnext, hafter⟩ := okAnd_iff.mp hretired
  obtain ⟨tables, htables, hstore⟩ := bind_ok hnext
  refine ⟨tenSlotEvent retiredChain (emptyBlock 10), tables, next, rfl, ?_, by decide,
    of_decide_eq_true hafter⟩
  exact retired_by_last_certificate tenSlotEras_valid
    (emptyBlock_valid retiredChain_valid (by decide)) retiredChain_stands
    (rollsForward_tenSlotTables htables) (mapBlock_tenSlotEras _ _) hstore [1]

theorem cancelledChain_not_reached : ¬Reached tenSlotEras cancelledChain 1 := by
  rintro ⟨block, hmem, hepoch⟩
  have hslot : block.header.slot / 10 = 1 :=
    Except.ok.inj ((createSlotEpochCalc_tenSlotEra _).symm.trans hepoch)
  have hearly : ∀ block ∈ cancelledChain, block.header.slot / 10 = 0 := by decide
  rw [hearly block hmem] at hslot
  cases hslot

/-- The retirement is not cancelled by a registration in a later block. -/
theorem not_retired_by_last_certificate :
    ValidChain tenSlotEras.1 (emptyBlock 10 :: cancelledChain) ∧
    lastAction [1] cancelledChain = some .registration ∧
    okAnd (fun tables => statusOf tables [1] = some .retiring) (tenSlotTables cancelledChain) = true ∧
    okAnd (fun tables => statusOf tables [1] = some .retired)
      (tenSlotTables (emptyBlock 10 :: cancelledChain)) = true ∧
    ¬∀ tables evt next, RollsForward tenSlotEras cancelledChain tables →
      mapBlock tenSlotEras cancelledChain (emptyBlock 10) = .ok evt →
      rollForwardStakePools tenSlotEras evt tables = .ok next →
      RetiredByLastAction tenSlotEras cancelledChain (emptyBlock 10) evt tables next [1] := by
  have hretiring : okAnd (fun tables => statusOf tables [1] = some .retiring)
      (tenSlotTables cancelledChain) = true := by decide
  have hretired : okAnd (fun tables => statusOf tables [1] = some .retired)
      (tenSlotTables (emptyBlock 10 :: cancelledChain)) = true := by decide
  refine ⟨emptyBlock_valid cancelledChain_valid (by decide), by decide, hretiring, hretired, ?_⟩
  intro hclaim
  obtain ⟨next, hnext, hafter⟩ := okAnd_iff.mp hretired
  obtain ⟨tables, htables, hstore⟩ := bind_ok hnext
  obtain ⟨tables', htables', hbefore⟩ := okAnd_iff.mp hretiring
  cases htables.symm.trans htables'
  obtain ⟨hfirst, _⟩ := hclaim tables _ next (rollsForward_tenSlotTables htables)
    (mapBlock_tenSlotEras _ _) hstore
  obtain ⟨_, hlast⟩ := hfirst cancelledChain_not_reached
  have hregistered := (hlast List.not_mem_nil).mp ⟨?_, of_decide_eq_true hafter⟩
  · have hlastAction : lastAction [1] cancelledChain = some .registration := by decide
    cases hlastAction.symm.trans hregistered
  · rw [of_decide_eq_true hbefore]
    simp

end CardanoSdk.Projection
