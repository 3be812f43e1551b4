import CardanoSdk.Lib.ForkRuns
import CardanoSdk.Projection.Types

/-!
`InMemoryStabilityWindowBuffer`: the last blocks of the projected chain, the last one
first, and the tip. Of a block the header is all that is read.
-/

namespace CardanoSdk.Projection

open Lib
open Wallet (PartialBlockHeader)

/-- `TipOrOrigin`, where `none` is the origin. -/
abbrev TipOrOrigin := Option PartialBlockHeader

structure StabilityWindowBuffer where
  blocks : List PartialBlockHeader
  tip : TipOrOrigin
  deriving DecidableEq

namespace StabilityWindowBuffer

def empty : StabilityWindowBuffer := { blocks := [], tip := none }

/-- `getBlock` looks from the oldest block on. -/
def getBlock (buffer : StabilityWindowBuffer) (id : String) : Option PartialBlockHeader :=
  buffer.blocks.reverse.find? fun block => block.hash = id

/-- `handleEvents`: blocks past the stability window are shifted out. -/
def handleEvent (securityParameter : ℕ) (event : ChainEvent PartialBlockHeader)
    (buffer : StabilityWindowBuffer) : Except String StabilityWindowBuffer :=
  match event with
  | .forward block =>
    .ok { blocks := block :: buffer.blocks.take securityParameter, tip := some block }
  | .backward block =>
    if buffer.blocks.head?.map PartialBlockHeader.hash = some block.hash then
      .ok { blocks := buffer.blocks.tail, tip := buffer.blocks.tail.head? }
    else .error "Assert: inconsistent stability window buffer at RollBackward"

end StabilityWindowBuffer

def bufferOperator (securityParameter : ℕ) :
    StoreOperator PartialBlockHeader (Except String StabilityWindowBuffer) where
  forward block store :=
    store.bind (StabilityWindowBuffer.handleEvent securityParameter (.forward block))
  backward block store :=
    store.bind (StabilityWindowBuffer.handleEvent securityParameter (.backward block))

def DistinctHashes (chain : List PartialBlockHeader) : Prop :=
  (chain.map PartialBlockHeader.hash).Nodup

structure Window (chain : List PartialBlockHeader) (buffer : StabilityWindowBuffer) : Prop where
  blocks : buffer.blocks <+: chain
  tip : buffer.tip = buffer.blocks.head?

theorem window_empty : Window [] StabilityWindowBuffer.empty := ⟨List.prefix_rfl, rfl⟩

/-- An inconsistent buffer ends the run. -/
def Buffers (chain : List PartialBlockHeader) (store : Except String StabilityWindowBuffer) : Prop :=
  ∀ buffer, store = .ok buffer → Window chain buffer

theorem bufferOperator_tracks (securityParameter : ℕ) :
    (bufferOperator securityParameter).Tracks DistinctHashes Buffers := by
  constructor
  · intro block chain store _ hstore buffer' hok
    cases store with
    | error message => cases hok
    | ok buffer =>
      cases hok
      refine ⟨List.cons_prefix_cons.mpr ⟨rfl, ?_⟩, rfl⟩
      exact (List.take_prefix _ _).trans (hstore buffer rfl).blocks
  · intro block chain store _ hstore buffer' hok
    cases store with
    | error message => cases hok
    | ok buffer =>
      have hwithin := (hstore buffer rfl).blocks
      change buffer.handleEvent securityParameter (.backward block) = .ok buffer' at hok
      rw [StabilityWindowBuffer.handleEvent] at hok
      split_ifs at hok with hlast
      cases hok
      refine ⟨?_, rfl⟩
      cases hblocks : buffer.blocks with
      | nil =>
        rw [hblocks] at hlast
        cases hlast
      | cons last below =>
        rw [hblocks] at hwithin
        exact (List.cons_prefix_cons.mp hwithin).2

theorem distinctHashes_below (block : PartialBlockHeader) (chain : List PartialBlockHeader)
    (h : DistinctHashes (block :: chain)) : DistinctHashes chain := by
  rw [DistinctHashes, List.map_cons] at h
  exact h.of_cons

variable {securityParameter : ℕ}

def bufferAfter (securityParameter : ℕ) (events : List (ChainEvent PartialBlockHeader)) :
    Except String StabilityWindowBuffer :=
  events.foldlM (fun buffer event => buffer.handleEvent securityParameter event)
    StabilityWindowBuffer.empty

def Extends (block : PartialBlockHeader) (chain : List PartialBlockHeader) : Prop :=
  ∀ tip ∈ chain.head?, block.blockNo = tip.blockNo + 1

/-- A run of events, the chain it leads to, and the largest height on the way. The
chain is extended, and rolled back while the buffer is not empty. -/
inductive WindowRun (securityParameter : ℕ) :
    List (ChainEvent PartialBlockHeader) → List PartialBlockHeader → ℕ → Prop where
  | start : WindowRun securityParameter [] [] 0
  | rollForward {events chain highest block} (hrun : WindowRun securityParameter events chain highest)
      (hextends : Extends block chain) :
      WindowRun securityParameter (events ++ [.forward block]) (block :: chain)
        (max highest block.blockNo)
  | rollBackward {events chain highest block buffer}
      (hrun : WindowRun securityParameter events (block :: chain) highest)
      (hbuffer : bufferAfter securityParameter events = .ok buffer) (hsome : buffer.blocks ≠ []) :
      WindowRun securityParameter (events ++ [.backward block]) chain highest

/-- What the buffer has of the chain: its last blocks, the ones of the stability
window among them. -/
structure HoldsWindow (securityParameter : ℕ) (chain : List PartialBlockHeader) (highest : ℕ)
    (buffer : StabilityWindowBuffer) : Prop where
  suffix : buffer.blocks <+: chain
  bounded : buffer.blocks.length ≤ securityParameter + 1
  complete : ∀ block ∈ chain, highest < block.blockNo + securityParameter + 1 →
    block ∈ buffer.blocks
  tip : buffer.tip = buffer.blocks.head?
  found : ∀ id block, buffer.getBlock id = some block → block ∈ buffer.blocks ∧ block.hash = id
  finds : ∀ block ∈ buffer.blocks, ∃ found, buffer.getBlock block.hash = some found ∧
    (DistinctHashes chain → found = block)
  refuses : ∀ block : PartialBlockHeader,
    buffer.blocks.head?.map PartialBlockHeader.hash ≠ some block.hash →
    buffer.handleEvent securityParameter (.backward block) =
      .error "Assert: inconsistent stability window buffer at RollBackward"

/-- The heights of the chain go down one by one, and the blocks that the buffer
does not have are below the stability window. -/
structure KeepsWindow (securityParameter : ℕ) (chain : List PartialBlockHeader) (highest : ℕ)
    (buffer : StabilityWindowBuffer) : Prop where
  heights : chain.IsChain fun block below => block.blockNo = below.blockNo + 1
  bounded : buffer.blocks.length ≤ securityParameter + 1
  split : ∃ below, chain = buffer.blocks ++ below ∧
    ∀ block ∈ below, block.blockNo + securityParameter + 1 ≤ highest
  tip : buffer.tip = buffer.blocks.head?

theorem keepsWindow_empty : KeepsWindow securityParameter [] 0 StabilityWindowBuffer.empty where
  heights := List.isChain_nil
  bounded := Nat.zero_le _
  split := ⟨[], rfl, fun _ hmem => (List.not_mem_nil hmem).elim⟩
  tip := rfl

theorem height_of_split {block below : PartialBlockHeader} {between after : List PartialBlockHeader}
    (h : (block :: (between ++ below :: after)).IsChain fun block below =>
      block.blockNo = below.blockNo + 1) :
    block.blockNo = below.blockNo + between.length + 1 := by
  induction between generalizing block with
  | nil => exact (List.isChain_cons_cons.mp h).1
  | cons first between ih =>
    rw [List.cons_append, List.isChain_cons_cons] at h
    have hrest := ih h.2
    rw [List.length_cons]
    omega

theorem KeepsWindow.forward {chain : List PartialBlockHeader} {highest : ℕ}
    {buffer : StabilityWindowBuffer} (h : KeepsWindow securityParameter chain highest buffer)
    {block : PartialBlockHeader} (hextends : Extends block chain) :
    ∃ buffer', buffer.handleEvent securityParameter (.forward block) = .ok buffer' ∧
      KeepsWindow securityParameter (block :: chain) (max highest block.blockNo) buffer' := by
  obtain ⟨below, rfl, hbelow⟩ := h.split
  have hheights : (block :: (buffer.blocks ++ below)).IsChain fun block below =>
      block.blockNo = below.blockNo + 1 := List.isChain_cons.mpr ⟨hextends, h.heights⟩
  refine ⟨⟨block :: buffer.blocks.take securityParameter, some block⟩, rfl, hheights, ?_, ?_, rfl⟩
  · rw [List.length_cons, List.length_take]
    omega
  · refine ⟨buffer.blocks.drop securityParameter ++ below, ?_, fun dropped hmem => ?_⟩
    · rw [List.cons_append, ← List.append_assoc, List.take_append_drop]
    · rcases List.mem_append.mp hmem with hmem | hmem
      · -- a block that is shifted out is as far below the new one as the window is long
        obtain ⟨before, after, hdrop⟩ := List.append_of_mem hmem
        have hlength := congrArg List.length hdrop
        rw [List.length_drop, List.length_append, List.length_cons] at hlength
        have hbounded := h.bounded
        rw [← List.take_append_drop securityParameter buffer.blocks, hdrop, List.append_assoc,
          List.append_assoc, ← List.append_assoc] at hheights
        have hheight := height_of_split hheights
        rw [List.length_append, List.length_take] at hheight
        omega
      · have hlow := hbelow dropped hmem
        omega

theorem KeepsWindow.backward {block : PartialBlockHeader} {chain : List PartialBlockHeader}
    {highest : ℕ} {buffer : StabilityWindowBuffer}
    (h : KeepsWindow securityParameter (block :: chain) highest buffer) (hsome : buffer.blocks ≠ []) :
    ∃ buffer', buffer.handleEvent securityParameter (.backward block) = .ok buffer' ∧
      KeepsWindow securityParameter chain highest buffer' := by
  obtain ⟨below, hsplit, hbelow⟩ := h.split
  obtain ⟨last, blocks, hblocks⟩ := List.exists_cons_of_ne_nil hsome
  rw [hblocks, List.cons_append] at hsplit
  cases hsplit
  refine ⟨⟨blocks, blocks.head?⟩, ?_, h.heights.tail, ?_, ⟨below, rfl, hbelow⟩, rfl⟩
  · rw [StabilityWindowBuffer.handleEvent, hblocks]
    exact if_pos rfl
  · have hbounded := h.bounded
    rw [hblocks, List.length_cons] at hbounded
    exact Nat.le_of_succ_le hbounded

variable {events : List (ChainEvent PartialBlockHeader)} {buffer : StabilityWindowBuffer}
  {chain : List PartialBlockHeader} {highest : ℕ}

theorem bufferAfter_append {event : ChainEvent PartialBlockHeader}
    (h : bufferAfter securityParameter events = .ok buffer) :
    bufferAfter securityParameter (events ++ [event]) =
      buffer.handleEvent securityParameter event := by
  rw [bufferAfter, List.foldlM_append]
  refine (bind_of_ok h).trans ?_
  cases hevent : buffer.handleEvent securityParameter event <;> simp [List.foldlM_cons, hevent]

theorem keepsWindow_of_run (h : WindowRun securityParameter events chain highest) :
    ∃ buffer, bufferAfter securityParameter events = .ok buffer ∧
      KeepsWindow securityParameter chain highest buffer := by
  induction h with
  | start => exact ⟨_, rfl, keepsWindow_empty⟩
  | rollForward hrun hextends ih =>
    obtain ⟨buffer, hbuffer, hkeeps⟩ := ih
    obtain ⟨buffer', hhandled, hkeeps'⟩ := hkeeps.forward hextends
    exact ⟨buffer', (bufferAfter_append hbuffer).trans hhandled, hkeeps'⟩
  | rollBackward hrun hbuffer hsome ih =>
    obtain ⟨buffer, hbuffer', hkeeps⟩ := ih
    cases hbuffer.symm.trans hbuffer'
    obtain ⟨buffer', hhandled, hkeeps'⟩ := hkeeps.backward hsome
    exact ⟨buffer', (bufferAfter_append hbuffer).trans hhandled, hkeeps'⟩

theorem KeepsWindow.holds (h : KeepsWindow securityParameter chain highest buffer) :
    HoldsWindow securityParameter chain highest buffer := by
  obtain ⟨below, rfl, hbelow⟩ := h.split
  have hfound (id : String) (block : PartialBlockHeader) (hget : buffer.getBlock id = some block) :
      block ∈ buffer.blocks ∧ block.hash = id :=
    ⟨List.mem_reverse.mp (List.mem_of_find?_eq_some hget), by
      have hhash := List.find?_some hget
      exact of_decide_eq_true hhash⟩
  refine ⟨List.prefix_append _ _, h.bounded, ?_, h.tip, hfound, ?_, ?_⟩
  · intro block hmem hhigh
    rcases List.mem_append.mp hmem with hmem | hmem
    · exact hmem
    · have hlow := hbelow block hmem
      omega
  · intro block hmem
    have hsome : (buffer.getBlock block.hash).isSome := by
      rw [StabilityWindowBuffer.getBlock, List.find?_isSome]
      exact ⟨block, List.mem_reverse.mpr hmem, decide_eq_true rfl⟩
    obtain ⟨found, hget⟩ := Option.isSome_iff_exists.mp hsome
    obtain ⟨hfoundMem, hhash⟩ := hfound _ _ hget
    refine ⟨found, hget, fun hdistinct => ?_⟩
    exact List.inj_on_of_nodup_map hdistinct (List.mem_append_left _ hfoundMem)
      (List.mem_append_left _ hmem) hhash
  · intro block hother
    exact if_neg hother

/-- In every run the events are handled, and the buffer is a suffix of the chain
with the blocks of the stability window. -/
theorem stabilityWindow_holds {events : List (ChainEvent PartialBlockHeader)}
    {chain : List PartialBlockHeader} {highest : ℕ}
    (h : WindowRun securityParameter events chain highest) :
    ∃ buffer, bufferAfter securityParameter events = .ok buffer ∧
      HoldsWindow securityParameter chain highest buffer := by
  obtain ⟨buffer, hbuffer, hkeeps⟩ := keepsWindow_of_run h
  exact ⟨buffer, hbuffer, hkeeps.holds⟩

def lowerBlock : PartialBlockHeader := ⟨1, 20, "lower"⟩

def upperBlock : PartialBlockHeader := ⟨2, 40, "upper"⟩

def topBlock : PartialBlockHeader := ⟨3, 60, "top"⟩

/-- The first block is shifted out of a window of one block, and the third is rolled back. -/
theorem stabilityWindow_holds_rolledBack : ∃ buffer,
    bufferAfter 1 [.forward lowerBlock, .forward upperBlock, .forward topBlock,
      .backward topBlock] = .ok buffer ∧
      buffer.blocks = [upperBlock] ∧ HoldsWindow 1 [upperBlock, lowerBlock] 3 buffer := by
  have hlower : WindowRun 1 [.forward lowerBlock] [lowerBlock] 1 :=
    .rollForward .start fun _ hnone => by cases hnone
  have hupper : WindowRun 1 [.forward lowerBlock, .forward upperBlock] [upperBlock, lowerBlock] 2 :=
    .rollForward hlower fun tip htip => by cases htip; rfl
  have htop : WindowRun 1 [.forward lowerBlock, .forward upperBlock, .forward topBlock]
      [topBlock, upperBlock, lowerBlock] 3 :=
    .rollForward hupper fun tip htip => by cases htip; rfl
  obtain ⟨buffer, hbuffer, hholds⟩ :=
    stabilityWindow_holds (.rollBackward htop rfl (List.cons_ne_nil _ _))
  refine ⟨buffer, hbuffer, ?_, hholds⟩
  cases hbuffer
  rfl

end CardanoSdk.Projection
