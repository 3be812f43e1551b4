import Mathlib.Init
import Mathlib.Data.List.Basic

/-!
Runs. What holds at the start and is kept by every permitted step holds in every state a
run of a machine reaches. A chain grows and shrinks at its tip; a store that represents
the chain after each single step does so after every run.
-/

namespace CardanoSdk.Lib

variable {State Action : Type}

/-- The states that runs of permitted steps reach. -/
inductive Reachable (step : State → Action → Option State) (Permitted : State → Action → Prop)
    (start : State) : State → Prop where
  | start : Reachable step Permitted start start
  | step {state next : State} (action : Action)
      (hreachable : Reachable step Permitted start state) (hpermitted : Permitted state action)
      (hstep : step state action = some next) :
      Reachable step Permitted start next

theorem Reachable.invariant {step : State → Action → Option State}
    {Permitted : State → Action → Prop} {start : State} {Invariant : State → Prop}
    (hstart : Invariant start)
    (hkeep : ∀ state action next, Invariant state → Permitted state action →
      step state action = some next → Invariant next) {state : State}
    (hreachable : Reachable step Permitted start state) : Invariant state := by
  induction hreachable with
  | start => exact hstart
  | step _ _ hpermitted hstep ih => exact hkeep _ _ _ ih hpermitted hstep

variable {Block Store : Type}

inductive ChainEvent (Block : Type) where
  | forward (block : Block)
  | backward (block : Block)

def ChainEvent.block : ChainEvent Block → Block
  | .forward block => block
  | .backward block => block

def ChainEvent.advance (chain : List Block) : ChainEvent Block → List Block
  | .forward block => block :: chain
  | .backward _ => chain.tail

/-- The run takes a chain to another one, over valid chains only. A chain has its
tip first. -/
inductive RunsAlong (Valid : List Block → Prop) :
    List Block → List (ChainEvent Block) → List Block → Prop where
  | nil {chain} : RunsAlong Valid chain [] chain
  | forward {block chain events result} (hvalid : Valid (block :: chain))
      (hrest : RunsAlong Valid (block :: chain) events result) :
      RunsAlong Valid chain (.forward block :: events) result
  | backward {block chain events result} (hrest : RunsAlong Valid chain events result) :
      RunsAlong Valid (block :: chain) (.backward block :: events) result

namespace RunsAlong

variable {Valid : List Block → Prop} {chain result : List Block} {events : List (ChainEvent Block)}

theorem valid (hbelow : ∀ block chain, Valid (block :: chain) → Valid chain)
    (hfollows : RunsAlong Valid chain events result) (hvalid : Valid chain) : Valid result := by
  induction hfollows with
  | nil => exact hvalid
  | forward hnext _ ih => exact ih hnext
  | backward _ ih => exact ih (hbelow _ _ hvalid)

theorem last {event : ChainEvent Block}
    (hfollows : RunsAlong Valid chain (events ++ [event]) result) :
    ∃ before, RunsAlong Valid chain events before ∧ RunsAlong Valid before [event] result := by
  induction events generalizing chain with
  | nil => exact ⟨chain, .nil, hfollows⟩
  | cons first events ih =>
    cases hfollows with
    | forward hvalid hrest =>
      obtain ⟨before, hbefore, hlast⟩ := ih hrest
      exact ⟨before, .forward hvalid hbefore, hlast⟩
    | backward hrest =>
      obtain ⟨before, hbefore, hlast⟩ := ih hrest
      exact ⟨before, .backward hbefore, hlast⟩

theorem append {middle : List Block} {events' : List (ChainEvent Block)}
    (hfirst : RunsAlong Valid chain events middle) (hnext : RunsAlong Valid middle events' result) :
    RunsAlong Valid chain (events ++ events') result := by
  induction hfirst with
  | nil => exact hnext
  | forward hvalid _ ih => exact .forward hvalid (ih hnext)
  | backward _ ih => exact .backward (ih hnext)

theorem forall_blocks {P : Block → Prop} (hfollows : RunsAlong Valid chain events result)
    (hevents : ∀ event ∈ events, P event.block) (hchain : ∀ block ∈ chain, P block) :
    RunsAlong (fun chain => Valid chain ∧ ∀ block ∈ chain, P block) chain events result := by
  induction hfollows with
  | nil => exact .nil
  | forward hvalid _ ih =>
    rw [List.forall_mem_cons] at hevents
    have hnext := List.forall_mem_cons.mpr ⟨hevents.1, hchain⟩
    exact .forward ⟨hvalid, hnext⟩ (ih hevents.2 hnext)
  | backward _ ih =>
    rw [List.forall_mem_cons] at hevents hchain
    exact .backward (ih hevents.2 hchain.2)

theorem backwards (newer older : List Block) :
    RunsAlong Valid (newer ++ older) (newer.map .backward) older := by
  induction newer with
  | nil => exact .nil
  | cons block newer ih => exact .backward ih

end RunsAlong

/-- What a store does with an event. -/
structure StoreOperator (Block Store : Type) where
  forward : Block → Store → Store
  backward : Block → Store → Store

def StoreOperator.apply (operator : StoreOperator Block Store) (store : Store) :
    ChainEvent Block → Store
  | .forward block => operator.forward block store
  | .backward block => operator.backward block store

def StoreOperator.run (operator : StoreOperator Block Store) (store : Store)
    (events : List (ChainEvent Block)) : Store :=
  events.foldl operator.apply store

theorem StoreOperator.run_last (operator : StoreOperator Block Store) (store : Store)
    (events : List (ChainEvent Block)) (event : ChainEvent Block) :
    operator.run store (events ++ [event]) = operator.apply (operator.run store events) event := by
  rw [run, List.foldl_append]
  rfl

/-- The store represents the chain, and goes along when the chain does. -/
structure StoreOperator.Tracks (operator : StoreOperator Block Store)
    (Valid : List Block → Prop) (Represents : List Block → Store → Prop) : Prop where
  forward : ∀ {block chain store}, Valid (block :: chain) → Represents chain store →
    Represents (block :: chain) (operator.forward block store)
  backward : ∀ {block chain store}, Valid (block :: chain) → Represents (block :: chain) store →
    Represents chain (operator.backward block store)

/-- A run over valid chains ends in the chain the store represents. The chain is
valid all along, and so are the chains below it. -/
theorem StoreOperator.Tracks.run {operator : StoreOperator Block Store}
    {Valid : List Block → Prop} {Represents : List Block → Store → Prop}
    (h : operator.Tracks Valid Represents)
    (hbelow : ∀ block chain, Valid (block :: chain) → Valid chain)
    {chain result : List Block} {events : List (ChainEvent Block)}
    (hfollows : RunsAlong Valid chain events result) (hvalid : Valid chain) {store : Store}
    (hstore : Represents chain store) : Represents result (operator.run store events) := by
  induction hfollows generalizing store with
  | nil => exact hstore
  | forward hnext _ ih => exact ih hnext (h.forward hnext hstore)
  | backward _ ih => exact ih (hbelow _ _ hvalid) (h.backward hvalid hstore)

def StoreOperator.comap {Content : Type} (operator : StoreOperator Content Store)
    (content : Block → Content) : StoreOperator Block Store where
  forward block := operator.forward (content block)
  backward block := operator.backward (content block)

theorem StoreOperator.Tracks.comap {Content : Type} {operator : StoreOperator Content Store}
    {Valid : List Content → Prop} {Represents : List Content → Store → Prop}
    (h : operator.Tracks Valid Represents) (content : Block → Content)
    {ValidBlocks : List Block → Prop}
    (hvalid : ∀ chain, ValidBlocks chain → Valid (chain.map content)) :
    (operator.comap content).Tracks ValidBlocks fun chain => Represents (chain.map content) where
  forward hnext := h.forward (hvalid _ hnext)
  backward hnext := h.backward (hvalid _ hnext)

end CardanoSdk.Lib
