import CardanoSdk.Projection.StabilityWindow

/-!
`withRolledBackBlock` and the rollback of `rollbackAndSyncFromIntersection`, fed back with
the tips of the buffer. Signals are listed in the order they are given; a block has been
processed before the signal after it. Each loop counts down `fuel`.
-/

namespace CardanoSdk.Projection

open Lib
open Wallet (PartialBlockHeader)

inductive Signal where
  | rollForward (block : PartialBlockHeader)
  | rollBackward (block : PartialBlockHeader)
  | requestNext
  | syncFromIntersection (intersection : PointOrOrigin)
  | error (message : String)
  deriving DecidableEq

inductive ChainSyncEvent where
  | rollForward (block : PartialBlockHeader)
  | rollBackward (point : PointOrOrigin)

structure Rollback where
  signals : List Signal
  buffer : StabilityWindowBuffer
  deriving DecidableEq

def Rollback.after (rollback : Rollback) (block : PartialBlockHeader) : Rollback :=
  { rollback with signals := .rollBackward block :: rollback.signals }

section Model

variable (securityParameter : ℕ)

/-- `requestNext` is called when the rollback ends, an error among the ends. -/
def rollBackTo (rollbackPoint : Point) : ℕ → StabilityWindowBuffer → Option Rollback
  | 0, _ => none
  | fuel + 1, buffer =>
    match buffer.tip with
    | none => some { signals := [.requestNext], buffer }
    | some tip =>
      if tip.hash = rollbackPoint.hash then some { signals := [.requestNext], buffer }
      else
        match buffer.getBlock tip.hash with
        | none =>
          some
            { signals := [.error ("Could not rollback to " ++ rollbackPoint.hash ++
                ": tip block not found in stability window buffer"), .requestNext]
              buffer }
        | some block =>
          match buffer.handleEvent securityParameter (.backward block) with
          | .error message =>
            some { signals := [.rollBackward block, .error message, .requestNext], buffer }
          | .ok buffer =>
            (rollBackTo rollbackPoint fuel buffer).map fun rollback => rollback.after block

def syncFromOrigin (buffer : StabilityWindowBuffer) : Rollback :=
  if buffer.tip = none then { signals := [.requestNext], buffer }
  else { signals := [.error "Rollback to origin: wrong network?"], buffer }

def withRolledBackBlock (fuel : ℕ) (event : ChainSyncEvent) (buffer : StabilityWindowBuffer) :
    Option Rollback :=
  match event with
  | .rollForward block =>
    match buffer.handleEvent securityParameter (.forward block) with
    | .error message => some { signals := [.rollForward block, .error message], buffer }
    | .ok buffer => some { signals := [.rollForward block], buffer }
  | .rollBackward .origin => some (syncFromOrigin buffer)
  | .rollBackward (.point point) => rollBackTo securityParameter point fuel buffer

def isIntersectionBlock (block : PartialBlockHeader) : PointOrOrigin → Bool
  | .origin => false
  | .point point => block.hash = point.hash

def pointOf (block : PartialBlockHeader) : PointOrOrigin :=
  .point { slot := block.slot, hash := block.hash }

/-- The node is asked for an intersection with each block but the first, or the
origin; `findIntersect` says which blocks it has. -/
def rollbackToIntersection (findIntersect : PartialBlockHeader → Bool) :
    ℕ → Bool → PointOrOrigin → StabilityWindowBuffer → Option Rollback
  | 0, _, _, _ => none
  | fuel + 1, skipFindingNewIntersection, intersection, buffer =>
    match buffer.tip with
    | none => some { signals := [.syncFromIntersection intersection], buffer }
    | some tip =>
      match buffer.getBlock tip.hash with
      | none => some { signals := [.error "Block not found in the buffer"], buffer }
      | some block =>
        let intersection :=
          if skipFindingNewIntersection then intersection
          else if findIntersect block then pointOf block
          else .origin
        if isIntersectionBlock block intersection then
          some { signals := [.syncFromIntersection intersection], buffer }
        else
          match buffer.handleEvent securityParameter (.backward block) with
          | .error message =>
            some { signals := [.rollBackward block, .error message], buffer }
          | .ok buffer =>
            (rollbackToIntersection findIntersect fuel false intersection buffer).map
              fun rollback => rollback.after block

/-- The tip and the origin are offered first. The tip is not on the node's chain, so
the intersection is the origin. -/
def rollbackAndSyncFromIntersection (findIntersect : PartialBlockHeader → Bool) (fuel : ℕ)
    (buffer : StabilityWindowBuffer) : Option Rollback :=
  rollbackToIntersection securityParameter findIntersect fuel true .origin buffer

end Model

def blocksAbove (chain : List PartialBlockHeader) : PointOrOrigin → List PartialBlockHeader
  | .origin => chain
  | .point point => chain.takeWhile fun block => block.hash ≠ point.hash

def IsAt (tip : TipOrOrigin) : PointOrOrigin → Prop
  | .origin => tip = none
  | .point point => ∃ block, tip = some block ∧ block.hash = point.hash

/-- All blocks above the point are rolled back, the tip is the point, and the last
signal is given once, after the last block. -/
structure Reaches (chain : List PartialBlockHeader) (point : PointOrOrigin) (last : Signal)
    (rollback : Rollback) : Prop where
  signals : rollback.signals = (blocksAbove chain point).map .rollBackward ++ [last]
  tip : IsAt rollback.buffer.tip point

def Rollback.Errored (rollback : Rollback) : Prop := ∃ message, .error message ∈ rollback.signals

section Reaches

variable {securityParameter : ℕ} {chain : List PartialBlockHeader}

variable {block : PartialBlockHeader} {fuel : ℕ} {buffer : StabilityWindowBuffer}

variable {below blocks newer : List PartialBlockHeader} {last : Signal}

theorem getBlock_tip (hdistinct : DistinctHashes (block :: below)) (tip : TipOrOrigin) :
    StabilityWindowBuffer.getBlock { blocks := block :: below, tip } block.hash = some block := by
  rw [DistinctHashes, List.map_cons, List.nodup_cons] at hdistinct
  rw [StabilityWindowBuffer.getBlock, List.reverse_cons, List.find?_append]
  have hnone : below.reverse.find? (fun other => other.hash = block.hash) = none := by
    rw [List.find?_eq_none]
    intro other hother
    rw [decide_eq_true_iff]
    intro heq
    exact hdistinct.1 (heq ▸ List.mem_map_of_mem (List.mem_reverse.mp hother))
  rw [hnone]
  simp

theorem handleEvent_tip (block : PartialBlockHeader) (below : List PartialBlockHeader)
    (tip : TipOrOrigin) :
    StabilityWindowBuffer.handleEvent securityParameter (.backward block)
      { blocks := block :: below, tip } = .ok { blocks := below, tip := below.head? } :=
  if_pos rfl

theorem rollBackTo_eq (hdistinct : DistinctHashes blocks) (point : Point)
    (hfuel : blocks.length < fuel) :
    rollBackTo securityParameter point fuel { blocks, tip := blocks.head? } =
      some
        { signals := (blocks.takeWhile fun block => block.hash ≠ point.hash).map .rollBackward ++
            [.requestNext]
          buffer :=
            { blocks := blocks.dropWhile fun block => block.hash ≠ point.hash
              tip := (blocks.dropWhile fun block => block.hash ≠ point.hash).head? } } := by
  induction blocks generalizing fuel with
  | nil =>
    cases fuel with
    | zero => exact absurd hfuel (Nat.lt_irrefl _)
    | succ fuel => rfl
  | cons block below ih =>
    cases fuel with
    | zero => exact absurd hfuel (Nat.not_lt_zero _)
    | succ fuel =>
      rw [rollBackTo]
      by_cases hpoint : block.hash = point.hash
      · simp [hpoint]
      · have hrest := ih (distinctHashes_below _ _ hdistinct) (Nat.lt_of_succ_lt_succ hfuel)
        simp only [List.head?_cons, if_neg hpoint, getBlock_tip hdistinct, handleEvent_tip, hrest]
        simp [hpoint, Rollback.after]

theorem rollbackToIntersection_eq {blocks : List PartialBlockHeader}
    (hdistinct : DistinctHashes blocks) (findIntersect : PartialBlockHeader → Bool) {fuel : ℕ}
    (hfuel : blocks.length < fuel) :
    rollbackToIntersection securityParameter findIntersect fuel false .origin
        { blocks, tip := blocks.head? } =
      some
        { signals := (blocks.takeWhile fun block => !findIntersect block).map .rollBackward ++
            [.syncFromIntersection
              (((blocks.dropWhile fun block => !findIntersect block).head?).elim .origin pointOf)]
          buffer :=
            { blocks := blocks.dropWhile fun block => !findIntersect block
              tip := (blocks.dropWhile fun block => !findIntersect block).head? } } := by
  induction blocks generalizing fuel with
  | nil =>
    cases fuel with
    | zero => exact absurd hfuel (Nat.lt_irrefl _)
    | succ fuel => rfl
  | cons block below ih =>
    cases fuel with
    | zero => exact absurd hfuel (Nat.not_lt_zero _)
    | succ fuel =>
      rw [rollbackToIntersection]
      cases hfound : findIntersect block with
      | true =>
        simp [getBlock_tip hdistinct, hfound, isIntersectionBlock, pointOf]
      | false =>
        have hrest := ih (distinctHashes_below _ _ hdistinct) (Nat.lt_of_succ_lt_succ hfuel)
        simp only [List.head?_cons, getBlock_tip hdistinct, handleEvent_tip, hfound,
          isIntersectionBlock, Bool.false_eq_true, if_false, hrest]
        simp [hfound, Rollback.after]

theorem rollbackAndSyncFromIntersection_eq (hdistinct : DistinctHashes (block :: below))
    (findIntersect : PartialBlockHeader → Bool) (hfuel : below.length + 1 < fuel) :
    rollbackAndSyncFromIntersection securityParameter findIntersect fuel
        { blocks := block :: below, tip := some block } =
      some
        { signals :=
            (block :: below.takeWhile fun block => !findIntersect block).map .rollBackward ++
            [.syncFromIntersection
              (((below.dropWhile fun block => !findIntersect block).head?).elim .origin pointOf)]
          buffer :=
            { blocks := below.dropWhile fun block => !findIntersect block
              tip := (below.dropWhile fun block => !findIntersect block).head? } } := by
  cases fuel with
  | zero => exact absurd hfuel (Nat.not_lt_zero _)
  | succ fuel =>
    have hrest := @rollbackToIntersection_eq securityParameter below
      (distinctHashes_below _ _ hdistinct) findIntersect fuel (Nat.lt_of_succ_lt_succ hfuel)
    rw [rollbackAndSyncFromIntersection, rollbackToIntersection]
    simp only [getBlock_tip hdistinct, handleEvent_tip, isIntersectionBlock, if_true,
      Bool.false_eq_true, if_false, hrest]
    rfl

theorem takeWhile_of_prefix (hwithin : blocks <+: chain) {p : PartialBlockHeader → Bool}
    (hblock : block ∈ blocks) (hstop : p block = false) :
    chain.takeWhile p = blocks.takeWhile p := by
  obtain ⟨older, rfl⟩ := hwithin
  rw [List.takeWhile_append, if_neg]
  intro hall
  have heq : blocks.takeWhile p = blocks :=
    (List.takeWhile_prefix p).eq_of_length hall
  rw [← heq] at hblock
  exact absurd (List.mem_takeWhile_imp hblock) (by simp [hstop])

theorem takeWhile_hash_ne {older : List PartialBlockHeader}
    (hdistinct : DistinctHashes (newer ++ block :: older)) :
    (newer ++ block :: older).takeWhile (fun other => other.hash ≠ block.hash) = newer := by
  rw [DistinctHashes, List.map_append, List.map_cons, List.nodup_append] at hdistinct
  rw [List.takeWhile_append_of_pos]
  · simp
  · intro other hother
    exact decide_eq_true fun heq =>
      hdistinct.2.2 _ (List.mem_map_of_mem hother) _ List.mem_cons_self heq

theorem rollBackward_injective : Function.Injective Signal.rollBackward := by
  intro block block' heq
  cases heq
  rfl

theorem not_errored (hlast : ∀ message, last ≠ .error message) (newer : List PartialBlockHeader)
    (buffer : StabilityWindowBuffer) :
    ¬Rollback.Errored { signals := newer.map .rollBackward ++ [last], buffer } := by
  rintro ⟨message, hmem⟩
  rcases List.mem_append.mp hmem with hmem | hmem
  · obtain ⟨_, _, heq⟩ := List.mem_map.mp hmem
    cases heq
  · exact hlast message (List.mem_singleton.mp hmem).symm

theorem reaches_iff {point : PointOrOrigin} {last' : Signal} :
    Reaches chain point last { signals := newer.map .rollBackward ++ [last'], buffer } ↔
      newer = blocksAbove chain point ∧ last' = last ∧ IsAt buffer.tip point := by
  constructor
  · rintro ⟨hsignals, htip⟩
    obtain ⟨hnewer, hlast⟩ := List.append_inj' hsignals rfl
    exact ⟨List.map_injective_iff.mpr rollBackward_injective hnewer, List.singleton_inj.mp hlast,
      htip⟩
  · rintro ⟨rfl, rfl, htip⟩
    exact ⟨rfl, htip⟩

/-- The point is in the window. At the origin there is nothing to roll back, or
there is a block to fail on. -/
def InWindow (chain : List PartialBlockHeader) (buffer : StabilityWindowBuffer) :
    PointOrOrigin → Prop
  | .origin => buffer.blocks ≠ [] ∨ chain = []
  | .point point => ∃ block ∈ buffer.blocks, block.hash = point.hash

theorem rollBackTo_reaches_iff (hwindow : Window chain buffer)
    (hdistinct : DistinctHashes buffer.blocks) (point : Point)
    (hfuel : buffer.blocks.length < fuel) :
    ∃ rollback, rollBackTo securityParameter point fuel buffer = some rollback ∧
      (rollback.Errored ∨ Reaches chain (.point point) .requestNext rollback ↔
        InWindow chain buffer (.point point)) := by
  obtain ⟨blocks, tip⟩ := buffer
  obtain ⟨hwithin, htip⟩ := hwindow
  change tip = blocks.head? at htip
  subst htip
  refine ⟨_, rollBackTo_eq hdistinct point hfuel, ?_, ?_⟩
  · rintro (⟨message, hmem⟩ | ⟨_, htip⟩)
    · simp at hmem
    · obtain ⟨block, hhead, hhash⟩ := htip
      have hmem := List.mem_of_mem_head? hhead
      exact ⟨block, (List.dropWhile_sublist _).subset hmem, hhash⟩
  · rintro ⟨block, hblock, hhash⟩
    have hstop : decide (block.hash ≠ point.hash) = false := decide_eq_false (not_not.mpr hhash)
    refine Or.inr ⟨?_, ?_⟩
    · rw [blocksAbove, takeWhile_of_prefix hwithin hblock hstop]
    · have hnonempty : blocks.dropWhile (fun block => block.hash ≠ point.hash) ≠ [] := by
        rw [Ne, List.dropWhile_eq_nil_iff]
        intro hall
        exact absurd (hall block hblock) (by simp [hhash])
      have hhead := List.head_dropWhile_not
        (fun block : PartialBlockHeader => decide (block.hash ≠ point.hash)) hnonempty
      exact ⟨_, List.head?_eq_some_head hnonempty, not_not.mp (of_decide_eq_false hhead)⟩

theorem syncFromOrigin_reaches_iff (hwindow : Window chain buffer) :
    (syncFromOrigin buffer).Errored ∨ Reaches chain .origin .requestNext (syncFromOrigin buffer) ↔
      InWindow chain buffer .origin := by
  obtain ⟨blocks, tip⟩ := buffer
  obtain ⟨hwithin, htip⟩ := hwindow
  change tip = blocks.head? at htip
  subst htip
  cases blocks with
  | cons block below =>
    exact iff_of_true (Or.inl ⟨_, List.mem_singleton_self _⟩) (Or.inl (List.cons_ne_nil _ _))
  | nil =>
    constructor
    · rintro (⟨message, hmem⟩ | ⟨hsignals, _⟩)
      · simp [syncFromOrigin] at hmem
      · refine Or.inr ?_
        cases chain with
        | nil => rfl
        | cons first rest => simp [syncFromOrigin, blocksAbove] at hsignals
    · rintro (hnonempty | rfl)
      · exact absurd rfl hnonempty
      · exact Or.inr ⟨rfl, rfl⟩

/-- A rollback at the start reaches an intersection if the window has one below its
tip, or has the whole chain. -/
theorem rollbackAndSync_reaches_iff (hwindow : Window chain buffer)
    (hdistinct : DistinctHashes buffer.blocks) (hnonempty : buffer.blocks ≠ [])
    (findIntersect : PartialBlockHeader → Bool) (hfuel : buffer.blocks.length < fuel) :
    ∃ rollback, rollbackAndSyncFromIntersection securityParameter findIntersect fuel buffer =
        some rollback ∧
      ((rollback.Errored ∨ ∃ intersection,
          Reaches chain intersection (.syncFromIntersection intersection) rollback) ↔
        (∃ block ∈ buffer.blocks.tail, findIntersect block = true) ∨ buffer.blocks = chain) := by
  obtain ⟨blocks, tip⟩ := buffer
  obtain ⟨hwithin, htip⟩ := hwindow
  change tip = blocks.head? at htip
  subst htip
  cases blocks with
  | nil => exact absurd rfl hnonempty
  | cons block below =>
    refine ⟨_, rollbackAndSyncFromIntersection_eq hdistinct findIntersect hfuel, ?_⟩
    have hnoError (intersection : PointOrOrigin) (message : String) :
        Signal.syncFromIntersection intersection ≠ .error message := Signal.noConfusion
    rw [or_iff_right (not_errored (hnoError _) _ _), List.tail_cons]
    have hsplit : (below.takeWhile fun block => !findIntersect block) ++
        (below.dropWhile fun block => !findIntersect block) = below :=
      List.takeWhile_append_dropWhile
    cases hrest : below.dropWhile fun block => !findIntersect block with
    | nil =>
      rw [hrest, List.append_nil] at hsplit
      have hnone : ¬∃ block ∈ below, findIntersect block = true := by
        rintro ⟨found, hmem, hfound⟩
        have hall := List.dropWhile_eq_nil_iff.mp hrest found hmem
        rw [hfound] at hall
        cases hall
      rw [or_iff_right hnone, hsplit]
      constructor
      · rintro ⟨intersection, hreaches⟩
        obtain ⟨hnewer, hlast, _⟩ := reaches_iff.mp hreaches
        cases hlast
        exact hnewer
      · intro hchain
        exact ⟨.origin, reaches_iff.mpr ⟨hchain, rfl, rfl⟩⟩
    | cons found older =>
      rw [hrest] at hsplit
      have hfound : findIntersect found = true := by
        have hhead := List.head_dropWhile_not (fun block => !findIntersect block)
          (List.ne_nil_of_mem (hrest ▸ List.mem_cons_self))
        simpa [hrest] using hhead
      have hmem : found ∈ below := hsplit ▸ List.mem_append_right _ List.mem_cons_self
      refine iff_of_true ⟨pointOf found, reaches_iff.mpr ⟨?_, rfl, found, rfl, rfl⟩⟩
        (Or.inl ⟨found, hmem, hfound⟩)
      rw [pointOf, blocksAbove, takeWhile_of_prefix hwithin (List.mem_cons_of_mem _ hmem)
        (decide_eq_false (not_not.mpr rfl))]
      conv_rhs => rw [← hsplit, ← List.cons_append]
      rw [takeWhile_hash_ne]
      rw [List.cons_append, hsplit]
      exact hdistinct

/-- Rollbacks of a node and at the start reach where they should, or fail, exactly
if the window goes down to there. -/
theorem rollback_reaches_iff {events : List (ChainEvent PartialBlockHeader)}
    {buffer : StabilityWindowBuffer} (hruns : RunsAlong DistinctHashes [] events chain)
    (hbuffer : (bufferOperator securityParameter).run (.ok .empty) events = .ok buffer)
    (point : PointOrOrigin) (findIntersect : PartialBlockHeader → Bool) {fuel : ℕ}
    (hfuel : buffer.blocks.length < fuel) :
    (∃ rollback, withRolledBackBlock securityParameter fuel (.rollBackward point) buffer =
        some rollback ∧
      (rollback.Errored ∨ Reaches chain point .requestNext rollback ↔
        InWindow chain buffer point)) ∧
    (buffer.blocks ≠ [] →
      ∃ rollback, rollbackAndSyncFromIntersection securityParameter findIntersect fuel buffer =
          some rollback ∧
        ((rollback.Errored ∨ ∃ intersection,
            Reaches chain intersection (.syncFromIntersection intersection) rollback) ↔
          (∃ block ∈ buffer.blocks.tail, findIntersect block = true) ∨ buffer.blocks = chain)) := by
  have hempty : Buffers [] (.ok StabilityWindowBuffer.empty) := by
    intro _ hok
    cases hok
    exact window_empty
  have hdistinctChain : DistinctHashes chain := hruns.valid distinctHashes_below List.nodup_nil
  have hwindow : Window chain buffer :=
    (bufferOperator_tracks securityParameter).run distinctHashes_below hruns List.nodup_nil hempty
      buffer hbuffer
  have hdistinct : DistinctHashes buffer.blocks :=
    (hwindow.blocks.map PartialBlockHeader.hash).sublist.nodup hdistinctChain
  constructor
  · cases point with
    | origin => exact ⟨_, rfl, syncFromOrigin_reaches_iff hwindow⟩
    | point point => exact rollBackTo_reaches_iff hwindow hdistinct point hfuel
  · intro hnonempty
    exact rollbackAndSync_reaches_iff hwindow hdistinct hnonempty findIntersect hfuel

def projectedBlock (blockNo : ℕ) (hash : String) : PartialBlockHeader :=
  { blockNo, slot := blockNo, hash }

def threeBlocks : List (ChainEvent PartialBlockHeader) :=
  [.forward (projectedBlock 1 "a"), .forward (projectedBlock 2 "b"),
    .forward (projectedBlock 3 "c")]

theorem runsAlong_threeBlocks : RunsAlong DistinctHashes [] threeBlocks
    [projectedBlock 3 "c", projectedBlock 2 "b", projectedBlock 1 "a"] :=
  .forward (List.nodup_singleton _)
    (.forward (by simp [DistinctHashes, projectedBlock])
      (.forward (by simp [DistinctHashes, projectedBlock]) .nil))

def windowOfTwo : StabilityWindowBuffer :=
  { blocks := [projectedBlock 3 "c", projectedBlock 2 "b"], tip := some (projectedBlock 3 "c") }

/-- The window is emptied on the way to the first block, which is not the tip then. -/
theorem rollback_misses_point :
    (bufferOperator 1).run (.ok .empty) threeBlocks = .ok windowOfTwo ∧
    withRolledBackBlock 1 3 (.rollBackward (.point { slot := 1, hash := "a" })) windowOfTwo =
      some
        { signals := [.rollBackward (projectedBlock 3 "c"), .rollBackward (projectedBlock 2 "b"),
            .requestNext]
          buffer := .empty } ∧
    ¬∀ rollback, withRolledBackBlock 1 3 (.rollBackward (.point { slot := 1, hash := "a" }))
        windowOfTwo = some rollback → rollback.Errored ∨
          Reaches [projectedBlock 3 "c", projectedBlock 2 "b", projectedBlock 1 "a"]
            (.point { slot := 1, hash := "a" }) .requestNext rollback := by
  have hrun : withRolledBackBlock 1 3 (.rollBackward (.point { slot := 1, hash := "a" }))
      windowOfTwo = some
        { signals := [.rollBackward (projectedBlock 3 "c"), .rollBackward (projectedBlock 2 "b"),
            .requestNext]
          buffer := .empty } := by
    decide
  refine ⟨rfl, hrun, ?_⟩
  intro hreaches
  rcases hreaches _ hrun with ⟨message, hmem⟩ | ⟨_, htip⟩
  · simp at hmem
  · obtain ⟨block, hblock, _⟩ := htip
    cases hblock

theorem rollback_reaches_iff_threeBlocks :
    ∃ rollback, withRolledBackBlock 1 3 (.rollBackward (.point { slot := 2, hash := "b" }))
        windowOfTwo = some rollback ∧
      (rollback.Errored ∨
        Reaches [projectedBlock 3 "c", projectedBlock 2 "b", projectedBlock 1 "a"]
          (.point { slot := 2, hash := "b" }) .requestNext rollback) := by
  obtain ⟨rollback, hrun, hiff⟩ := (@rollback_reaches_iff 1 _ _ windowOfTwo runsAlong_threeBlocks
    rfl (.point { slot := 2, hash := "b" }) (fun _ => false) 3 (by decide)).1
  exact ⟨rollback, hrun, hiff.mpr ⟨projectedBlock 2 "b", by decide, rfl⟩⟩

end Reaches

end CardanoSdk.Projection
