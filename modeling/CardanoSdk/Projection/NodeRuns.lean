import CardanoSdk.Projection.ChainLedger
import CardanoSdk.Projection.RolledBackBlocks

/-!
`fromCardanoNode`: a projection starts from the chain that it has stored and goes along
with a node that forks again and again. What the node sends is taken without the buffer
that it waits in.
-/

namespace CardanoSdk.Projection

open Lib
open Wallet (TxIn PartialBlockHeader)

def Signal.isError : Signal → Bool
  | .error _ => true
  | _ => false

def Signal.event? : Signal → Option (ChainEvent PartialBlockHeader)
  | .rollForward block => some (.forward block)
  | .rollBackward block => some (.backward block)
  | _ => none

def Rollback.events (rollback : Rollback) : List (ChainEvent PartialBlockHeader) :=
  rollback.signals.filterMap Signal.event?

/-- Nothing comes after an error. -/
def Rollback.andThen (rollback : Rollback) (next : StabilityWindowBuffer → Option Rollback) :
    Option Rollback :=
  if rollback.signals.any Signal.isError then some rollback
  else (next rollback.buffer).map fun last =>
    { last with signals := rollback.signals ++ last.signals }

section Model

variable (securityParameter fuel : ℕ)

def syncFromIntersection : List ChainSyncEvent → StabilityWindowBuffer → Option Rollback
  | [], buffer => some { signals := [], buffer }
  | event :: events, buffer => do
      let rollback ← withRolledBackBlock securityParameter fuel event buffer
      rollback.andThen (syncFromIntersection events)

/-- The tip and the origin are offered to the node. -/
def startFromTip (findIntersect : PartialBlockHeader → Bool) (buffer : StabilityWindowBuffer) :
    Option Rollback :=
  match buffer.tip with
  | none => some { signals := [.syncFromIntersection .origin], buffer }
  | some tip =>
    if findIntersect tip then some { signals := [.syncFromIntersection (pointOf tip)], buffer }
    else rollbackAndSyncFromIntersection securityParameter findIntersect fuel buffer

/-- The events are those that the node sends from the intersection on. -/
def fromCardanoNode (findIntersect : PartialBlockHeader → Bool) (events : List ChainSyncEvent)
    (buffer : StabilityWindowBuffer) : Option Rollback := do
  let started ← startFromTip securityParameter fuel findIntersect buffer
  started.andThen (syncFromIntersection securityParameter fuel events)

/-- The node extends its chain validly or goes back to a block of it, but no further than the
security parameter below the greatest height that the projection has seen. -/
inductive NodeRun (Valid : List PartialBlockHeader → Prop) :
    List PartialBlockHeader → ℕ → List ChainSyncEvent → List PartialBlockHeader → Prop where
  | nil {chain highest} : NodeRun Valid chain highest [] chain
  | rollForward {block chain highest events result} (hextends : Extends block chain)
      (hvalid : Valid (block :: chain))
      (hrest : NodeRun Valid (block :: chain) (max highest block.blockNo) events result) :
      NodeRun Valid chain highest (.rollForward block :: events) result
  | rollBackward {newer block older highest point events result}
      (hpoint : block.hash = point.hash) (hwindow : highest < block.blockNo + securityParameter + 1)
      (hrest : NodeRun Valid (block :: older) highest events result) :
      NodeRun Valid (newer ++ block :: older) highest (.rollBackward (.point point) :: events) result
  | atOrigin {highest events result} (hrest : NodeRun Valid [] highest events result) :
      NodeRun Valid [] highest (.rollBackward .origin :: events) result

/-- The first block that the node says to have is one of the window, and with it the
chain below. Each block is asked for once, so the node may fork between two answers. -/
inductive Forks (highest : ℕ) (findIntersect : PartialBlockHeader → Bool) :
    List PartialBlockHeader → List PartialBlockHeader → PointOrOrigin → Prop where
  | origin : Forks highest findIntersect [] [] .origin
  | block {newer block older} (hnewer : ∀ other ∈ newer, findIntersect other = false)
      (hfound : findIntersect block = true)
      (hwindow : highest < block.blockNo + securityParameter + 1) :
      Forks highest findIntersect (newer ++ block :: older) (block :: older) (pointOf block)

end Model

/-- Without an error, the events take the one chain to the other, of which the buffer
keeps the window. -/
structure Follows (securityParameter : ℕ) (Valid : List PartialBlockHeader → Prop)
    (chain result : List PartialBlockHeader) (highest : ℕ) (rollback : Rollback) : Prop where
  succeeds : ¬rollback.Errored
  along : RunsAlong Valid chain rollback.events result
  window : KeepsWindow securityParameter result highest rollback.buffer

section Following

variable {securityParameter fuel highest highest' : ℕ} {Valid : List PartialBlockHeader → Prop}
  {findIntersect : PartialBlockHeader → Bool}
  {chain middle result newer older : List PartialBlockHeader} {block : PartialBlockHeader}
  {events : List ChainSyncEvent} {buffer : StabilityWindowBuffer} {rollback last : Rollback}

theorem any_isError_iff : rollback.signals.any Signal.isError = true ↔ rollback.Errored := by
  rw [List.any_eq_true]
  constructor
  · rintro ⟨signal, hmem, herror⟩
    cases signal with
    | error message => exact ⟨message, hmem⟩
    | _ => cases herror
  · rintro ⟨message, hmem⟩
    exact ⟨_, hmem, rfl⟩

theorem Follows.andThen {next : StabilityWindowBuffer → Option Rollback}
    (h : Follows securityParameter Valid chain middle highest rollback)
    (hnext : next rollback.buffer = some last)
    (hlast : Follows securityParameter Valid middle result highest' last) :
    ∃ all, rollback.andThen next = some all ∧ rollback.signals <+: all.signals ∧
      Follows securityParameter Valid chain result highest' all := by
  refine ⟨{ last with signals := rollback.signals ++ last.signals }, ?_, List.prefix_append _ _, ?_,
    ?_, hlast.window⟩
  · rw [Rollback.andThen, if_neg (any_isError_iff.not.mpr h.succeeds), hnext]
    rfl
  · rintro ⟨message, hmem⟩
    rcases List.mem_append.mp hmem with hmem | hmem
    · exact h.succeeds ⟨message, hmem⟩
    · exact hlast.succeeds ⟨message, hmem⟩
  · rw [Rollback.events, List.filterMap_append]
    exact h.along.append hlast.along

theorem KeepsWindow.exists_blocks
    (h : KeepsWindow securityParameter (newer ++ block :: older) highest buffer)
    (hwindow : highest < block.blockNo + securityParameter + 1) :
    ∃ more, buffer.blocks = newer ++ block :: more := by
  obtain ⟨below, hsplit, hbelow⟩ := h.split
  have hnot : block ∉ below := fun hmem => absurd (hbelow block hmem) (by omega)
  rcases List.append_eq_append_iff.mp hsplit with ⟨between, hblocks, hrest⟩ | ⟨between, _, hrest⟩
  · cases between with
    | nil =>
      have hbelowEq : block :: older = below := hrest
      exact absurd (hbelowEq ▸ List.mem_cons_self) hnot
    | cons first more =>
      cases hrest
      exact ⟨more, hblocks⟩
  · exact absurd (hrest ▸ List.mem_append_right _ List.mem_cons_self) hnot

theorem KeepsWindow.distinct (h : KeepsWindow securityParameter chain highest buffer)
    (hdistinct : DistinctHashes chain) : DistinctHashes buffer.blocks := by
  obtain ⟨below, rfl, -⟩ := h.split
  exact ((List.prefix_append _ below).map PartialBlockHeader.hash).sublist.nodup hdistinct

theorem KeepsWindow.rolledBack {more : List PartialBlockHeader} {tip : TipOrOrigin}
    (h : KeepsWindow securityParameter (newer ++ block :: older) highest
      { blocks := newer ++ block :: more, tip }) :
    KeepsWindow securityParameter (block :: older) highest
      { blocks := block :: more, tip := some block } := by
  induction newer generalizing tip with
  | nil =>
    have htip : tip = some block := h.tip
    subst htip
    exact h
  | cons first newer ih =>
    obtain ⟨_, hhandled, hrest⟩ := h.backward (List.cons_ne_nil _ _)
    cases (handleEvent_tip first _ _).symm.trans hhandled
    exact ih hrest

theorem events_rollBackward (newer : List PartialBlockHeader) {last : Signal}
    (hlast : last.event? = none) (buffer : StabilityWindowBuffer) :
    Rollback.events { signals := newer.map .rollBackward ++ [last], buffer } =
      newer.map .backward := by
  rw [Rollback.events, List.filterMap_append, List.filterMap_map, List.filterMap_cons_none hlast]
  exact (List.append_nil _).trans (congrFun List.filterMap_eq_map newer)

theorem follows_rollForward (hwindow : KeepsWindow securityParameter chain highest buffer)
    (hextends : Extends block chain) (hvalid : Valid (block :: chain)) :
    ∃ rollback, withRolledBackBlock securityParameter fuel (.rollForward block) buffer =
      some rollback ∧
      Follows securityParameter Valid chain (block :: chain) (max highest block.blockNo) rollback := by
  obtain ⟨buffer', hhandled, hwindow'⟩ := hwindow.forward hextends
  refine ⟨{ signals := [.rollForward block], buffer := buffer' }, ?_, ?_, ?_, hwindow'⟩
  · rw [withRolledBackBlock, hhandled]
  · rintro ⟨message, hmem⟩
    cases List.mem_singleton.mp hmem
  · exact .forward hvalid .nil

theorem follows_rolledBack {last : Signal} (hlast : ∀ message, last ≠ .error message)
    (hevent : last.event? = none)
    (hwindow : KeepsWindow securityParameter (block :: older) highest buffer) :
    Follows securityParameter Valid (newer ++ block :: older) (block :: older) highest
      { signals := newer.map .rollBackward ++ [last], buffer } where
  succeeds := not_errored hlast newer buffer
  along := events_rollBackward newer hevent buffer ▸ .backwards newer (block :: older)
  window := hwindow

theorem follows_rollBackward {point : Point}
    (hwindow : KeepsWindow securityParameter (newer ++ block :: older) highest buffer)
    (hdistinct : DistinctHashes (newer ++ block :: older)) (hpoint : block.hash = point.hash)
    (hdepth : highest < block.blockNo + securityParameter + 1)
    (hfuel : securityParameter + 1 < fuel) :
    ∃ rollback, withRolledBackBlock securityParameter fuel (.rollBackward (.point point)) buffer =
      some rollback ∧
      Follows securityParameter Valid (newer ++ block :: older) (block :: older) highest rollback := by
  obtain ⟨more, hblocks⟩ := hwindow.exists_blocks hdepth
  have hbuffer := hwindow.distinct hdistinct
  have hbounded := hwindow.bounded
  obtain ⟨blocks, tip⟩ := buffer
  obtain rfl : blocks = newer ++ block :: more := hblocks
  obtain rfl : tip = (newer ++ block :: more).head? := hwindow.tip
  have hnewer := takeWhile_hash_ne hbuffer
  have hmore := @List.takeWhile_append_dropWhile _ (fun other : PartialBlockHeader =>
    decide (other.hash ≠ block.hash)) (newer ++ block :: more)
  rw [hnewer, List.append_cancel_left_eq] at hmore
  refine ⟨_, rollBackTo_eq hbuffer point (lt_of_le_of_lt hbounded hfuel), ?_⟩
  rw [← hpoint, hnewer, hmore]
  exact follows_rolledBack (fun _ => Signal.noConfusion) rfl hwindow.rolledBack

theorem syncFromIntersection_cons {event : ChainSyncEvent}
    (hfirst : ∃ rollback, withRolledBackBlock securityParameter fuel event buffer = some rollback ∧
      Follows securityParameter Valid chain middle highest rollback)
    (hrest : ∀ buffer, KeepsWindow securityParameter middle highest buffer → ∃ rollback highest',
      syncFromIntersection securityParameter fuel events buffer = some rollback ∧
        Follows securityParameter Valid middle result highest' rollback) :
    ∃ rollback highest', syncFromIntersection securityParameter fuel (event :: events) buffer =
      some rollback ∧ Follows securityParameter Valid chain result highest' rollback := by
  obtain ⟨first, hfirst, hfollows⟩ := hfirst
  obtain ⟨rest, highest', hrest, hrestFollows⟩ := hrest _ hfollows.window
  obtain ⟨all, hall, -, hallFollows⟩ := hfollows.andThen hrest hrestFollows
  exact ⟨all, highest', by rw [syncFromIntersection, hfirst, Option.bind_eq_bind, Option.bind_some,
    hall], hallFollows⟩

theorem syncFromIntersection_follows
    (h : NodeRun securityParameter Valid chain highest events result)
    (hwindow : KeepsWindow securityParameter chain highest buffer)
    (hdistinct : ∀ chain, Valid chain → DistinctHashes chain)
    (hbelow : ∀ block chain, Valid (block :: chain) → Valid chain) (hvalid : Valid chain)
    (hfuel : securityParameter + 1 < fuel) :
    ∃ rollback highest', syncFromIntersection securityParameter fuel events buffer =
      some rollback ∧ Follows securityParameter Valid chain result highest' rollback := by
  induction h generalizing buffer with
  | @nil chain highest =>
    exact ⟨_, highest, rfl, fun ⟨_, hmem⟩ => List.not_mem_nil hmem, .nil, hwindow⟩
  | rollForward hextends hnext _ ih =>
    exact syncFromIntersection_cons (follows_rollForward hwindow hextends hnext)
      fun _ hwindow => ih hwindow hnext
  | @rollBackward newer block older _ _ _ _ hpoint hdepth _ ih =>
    have hkept := (RunsAlong.backwards newer (block :: older)).valid hbelow hvalid
    exact syncFromIntersection_cons
      (follows_rollBackward hwindow (hdistinct _ hvalid) hpoint hdepth hfuel)
      fun _ hwindow => ih hwindow hkept
  | atOrigin _ ih =>
    obtain ⟨below, hsplit, -⟩ := hwindow.split
    have hblocks : buffer.blocks = [] := (List.append_eq_nil_iff.mp hsplit.symm).1
    have htip : buffer.tip = none := by rw [hwindow.tip, hblocks, List.head?_nil]
    refine syncFromIntersection_cons ⟨{ signals := [.requestNext], buffer }, ?_, ?_, .nil, hwindow⟩
      fun _ hwindow => ih hwindow hvalid
    · rw [withRolledBackBlock, syncFromOrigin, if_pos htip]
    · rintro ⟨message, hmem⟩
      cases List.mem_singleton.mp hmem

theorem startFromTip_follows {point : PointOrOrigin}
    (h : Forks securityParameter highest findIntersect chain middle point)
    (hwindow : KeepsWindow securityParameter chain highest buffer)
    (hdistinct : DistinctHashes chain) (hfuel : securityParameter + 1 < fuel) :
    ∃ started, startFromTip securityParameter fuel findIntersect buffer = some started ∧
      .syncFromIntersection point ∈ started.signals ∧
      Follows securityParameter Valid chain middle highest started := by
  have hbuffer := hwindow.distinct hdistinct
  have hbounded := hwindow.bounded
  have htip := hwindow.tip
  cases h with
  | origin =>
    obtain ⟨below, hsplit, -⟩ := hwindow.split
    rw [(List.append_eq_nil_iff.mp hsplit.symm).1] at htip
    refine ⟨{ signals := [.syncFromIntersection .origin], buffer }, ?_, List.mem_singleton_self _,
      ?_, .nil, hwindow⟩
    · rw [startFromTip, htip]
      rfl
    · rintro ⟨message, hmem⟩
      cases List.mem_singleton.mp hmem
  | @block newer block older hnewer hfound hdepth =>
    obtain ⟨more, hblocks⟩ := hwindow.exists_blocks hdepth
    obtain ⟨blocks, tip⟩ := buffer
    obtain rfl : blocks = newer ++ block :: more := hblocks
    obtain rfl : tip = (newer ++ block :: more).head? := htip
    have hfollows := @follows_rolledBack _ _ Valid newer older block _
      (.syncFromIntersection (pointOf block)) (fun _ => Signal.noConfusion) rfl hwindow.rolledBack
    refine ⟨_, ?_, List.mem_append_right _ (List.mem_singleton_self _), hfollows⟩
    cases newer with
    | nil => exact if_pos hfound
    | cons first newer =>
      obtain ⟨hfirst, hnewer⟩ := List.forall_mem_cons.mp hnewer
      have hall : ∀ other ∈ newer, (!findIntersect other) = true := fun other hother => by
        rw [hnewer other hother, Bool.not_false]
      refine (if_neg (by rw [hfirst]; decide)).trans ?_
      have hrolled := @rollbackAndSyncFromIntersection_eq securityParameter first fuel
        (newer ++ block :: more) hbuffer findIntersect (lt_of_le_of_lt hbounded hfuel)
      simp only [List.takeWhile_append_of_pos hall, List.dropWhile_append_of_pos hall,
        List.takeWhile_cons, List.dropWhile_cons, hfound, Bool.not_true, Bool.false_eq_true,
        if_false, List.append_nil] at hrolled
      exact hrolled

theorem fromCardanoNode_along {point : PointOrOrigin}
    (hwindow : KeepsWindow securityParameter chain highest buffer)
    (hdistinct : ∀ chain, Valid chain → DistinctHashes chain)
    (hbelow : ∀ block chain, Valid (block :: chain) → Valid chain) (hvalid : Valid chain)
    (hforks : Forks securityParameter highest findIntersect chain middle point)
    (hnode : NodeRun securityParameter Valid middle highest events result)
    (hfuel : securityParameter + 1 < fuel) :
    ∃ rollback highest', fromCardanoNode securityParameter fuel findIntersect events buffer =
        some rollback ∧
      .syncFromIntersection point ∈ rollback.signals ∧
      Follows securityParameter Valid chain result highest' rollback := by
  obtain ⟨started, hstarted, hpoint, hfollows⟩ :=
    startFromTip_follows hforks hwindow (hdistinct _ hvalid) hfuel
  have hmiddle := hfollows.along.valid hbelow hvalid
  obtain ⟨rest, highest', hrest, hrestFollows⟩ :=
    syncFromIntersection_follows hnode hfollows.window hdistinct hbelow hmiddle hfuel
  obtain ⟨all, hall, hbegins, hallFollows⟩ := hfollows.andThen hrest hrestFollows
  refine ⟨all, highest', ?_, hbegins.subset hpoint, hallFollows⟩
  rw [fromCardanoNode, hstarted, Option.bind_eq_bind, Option.bind_some, hall]

/-- From any state that it has reached, a projection that starts again goes along with the
node: whatever the node rolls back within the stability window, nothing fails, the buffer has
the last blocks of the node's chain, and every store that represents the chain after single
events represents the node's chain in the end. -/
theorem fromCardanoNode_follows {past : List (ChainEvent PartialBlockHeader)}
    {point : PointOrOrigin} (hpast : WindowRun securityParameter past chain highest)
    (hbuffer : bufferAfter securityParameter past = .ok buffer)
    (hdistinct : ∀ chain, Valid chain → DistinctHashes chain)
    (hbelow : ∀ block chain, Valid (block :: chain) → Valid chain) (hvalid : Valid chain)
    (hforks : Forks securityParameter highest findIntersect chain middle point)
    (hnode : NodeRun securityParameter Valid middle highest events result)
    (hfuel : securityParameter + 1 < fuel) :
    ∃ rollback highest', fromCardanoNode securityParameter fuel findIntersect events buffer =
        some rollback ∧
      ¬rollback.Errored ∧ .syncFromIntersection point ∈ rollback.signals ∧
      HoldsWindow securityParameter result highest' rollback.buffer ∧
      ∀ {Store : Type} (operator : StoreOperator PartialBlockHeader Store)
        (Represents : List PartialBlockHeader → Store → Prop),
        operator.Tracks Valid Represents → ∀ store, Represents chain store →
          Represents result (operator.run store rollback.events) := by
  obtain ⟨_, hbuffer', hwindow⟩ := keepsWindow_of_run hpast
  cases hbuffer.symm.trans hbuffer'
  obtain ⟨rollback, highest', hrollback, hpoint, hfollows⟩ :=
    fromCardanoNode_along hwindow hdistinct hbelow hvalid hforks hnode hfuel
  exact ⟨rollback, highest', hrollback, hfollows.succeeds, hpoint, hfollows.window.holds,
    fun operator Represents htracks store hstore =>
      htracks.run hbelow hfollows.along hvalid hstore⟩

/-- The node has replaced the upper one of two projected blocks. -/
theorem fromCardanoNode_follows_replaced : ∃ rollback highest',
    fromCardanoNode 1 3 (fun block => block.hash = "lower")
        [.rollBackward (.point ⟨20, "lower"⟩), .rollForward (projectedBlock 2 "other")]
        ⟨[upperBlock, lowerBlock], some upperBlock⟩ = some rollback ∧
      ¬rollback.Errored ∧ .syncFromIntersection (pointOf lowerBlock) ∈ rollback.signals ∧
      HoldsWindow 1 [projectedBlock 2 "other", lowerBlock] highest' rollback.buffer ∧
      ∀ {Store : Type} (operator : StoreOperator PartialBlockHeader Store)
        (Represents : List PartialBlockHeader → Store → Prop),
        operator.Tracks DistinctHashes Represents → ∀ store,
          Represents [upperBlock, lowerBlock] store →
          Represents [projectedBlock 2 "other", lowerBlock]
            (operator.run store rollback.events) := by
  have hlower : WindowRun 1 [.forward lowerBlock] [lowerBlock] 1 :=
    .rollForward .start fun _ hnone => by cases hnone
  have hupper : WindowRun 1 [.forward lowerBlock, .forward upperBlock] [upperBlock, lowerBlock] 2 :=
    .rollForward hlower fun tip htip => by cases htip; rfl
  have hforks : Forks 1 2 (fun block => block.hash = "lower") [upperBlock, lowerBlock] [lowerBlock]
      (pointOf lowerBlock) :=
    @Forks.block 1 2 _ [upperBlock] lowerBlock [] (by decide) (by decide) (by decide)
  have hnode : NodeRun 1 DistinctHashes [lowerBlock] 2
      [.rollBackward (.point ⟨20, "lower"⟩), .rollForward (projectedBlock 2 "other")]
      [projectedBlock 2 "other", lowerBlock] :=
    @NodeRun.rollBackward 1 _ [] lowerBlock [] _ _ _ _ rfl (by decide)
      (.rollForward (fun tip htip => by cases htip; rfl) (by unfold DistinctHashes; decide) .nil)
  exact fromCardanoNode_follows hupper rfl (fun _ hdistinct => hdistinct) distinctHashes_below
    (by unfold DistinctHashes; decide) hforks hnode (by decide)

end Following

section Stored

variable {Certificate : Type} {securityParameter fuel highest : ℕ}
  {findIntersect : PartialBlockHeader → Bool} {content : PartialBlockHeader → Block Certificate}
  {chain middle result : List PartialBlockHeader} {events : List ChainSyncEvent}
  {buffer : StabilityWindowBuffer} {genesis : TxIn → Prop} {hash : List UInt8 → List UInt8}

theorem distinctHashes_of_storable (hheader : ∀ block, (content block).header = block)
    (hvalid : Storable genesis (chain.map content)) : DistinctHashes chain := by
  induction chain with
  | nil => exact List.nodup_nil
  | cons block chain ih =>
    refine List.nodup_cons.mpr ⟨fun hmem => ?_, ih (storable_below _ _ hvalid)⟩
    obtain ⟨below, hbelow, hhash⟩ := List.mem_map.mp hmem
    refine (hvalid.1.1.header _ (List.mem_map_of_mem hbelow)).2.1 ?_
    rw [hheader, hheader, hhash]

end Stored

/-- The blocks of a chain on which two tokens are minted and one of them is burned. -/
def mintedContent (header : PartialBlockHeader) : Block Unit :=
  if header.blockNo = 1 then { mintingBlock with header } else { burningBlock with header }

theorem mintedContent_header (header : PartialBlockHeader) :
    (mintedContent header).header = header := by
  rw [mintedContent]
  split <;> rfl

end CardanoSdk.Projection
