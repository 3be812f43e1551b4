import CardanoSdk.Lib.ForkRuns
import Mathlib.Tactic

/-!
`bufferChainSyncEvent`: a pump between a source of events and their subscriber. Until a
call of either returns, its frame stays on the stack, and whatever happens in between
enters the pump again. A step is one thing that the surroundings do and what the pump does
about it, up to its next call. An error is an object.
-/

namespace CardanoSdk.Projection

open Lib

inductive Frame where
  | pulling
  | delivering
  deriving DecidableEq

inductive Notification where
  | complete
  | error
  deriving DecidableEq

/-- `lastPull`, when it is set, requests the event after the last received one. The
fields from `received` on are what has happened so far; `requested` is whether the
source has been asked for its next event, as it is for the first. -/
structure PumpState (α : Type) where
  buffer : List α := []
  lastPull : Bool := false
  subscriberReady : Bool := true
  sourceCompleted : Bool := false
  sourceError : Bool := false
  stack : List Frame := []
  received : List α := []
  delivered : List α := []
  acknowledged : ℕ := 0
  requested : Bool := true
  finished : Option Notification := none
  deriving DecidableEq

inductive PumpAction (α : Type) where
  | emit (value : α)
  | acknowledge
  | complete
  | error
  | resume

variable {α : Type}

namespace PumpState

def notification (state : PumpState α) : Option Notification :=
  if state.sourceCompleted then some .complete
  else if state.sourceError then some .error
  else none

/-- The part of `next` after the pull. -/
def deliver (state : PumpState α) : PumpState α :=
  if state.subscriberReady then
    match state.buffer with
    | [] =>
      if state.sourceCompleted then { state with finished := some .complete }
      else if state.sourceError then { state with finished := some .error }
      else state
    | value :: rest =>
      { state with
        buffer := rest
        subscriberReady := false
        delivered := state.delivered ++ [value]
        stack := .delivering :: state.stack }
  else state

def next (length : ℕ) (state : PumpState α) : PumpState α :=
  if state.finished.isSome then state
  else if state.buffer.length < length ∧ state.lastPull = true then
    { state with requested := true, stack := .pulling :: state.stack }
  else state.deliver

/-- A call returns. `lastPull` is cleared after the pull, whatever it is by then. -/
def resume (state : PumpState α) : Option (PumpState α) :=
  match state.stack with
  | [] => none
  | .pulling :: stack => some { state with lastPull := false, stack }.deliver
  | .delivering :: stack => some { state with stack }

/-- The source emits when asked to, and ends once; the subscriber acknowledges what it
was given once. -/
def step (length : ℕ) (state : PumpState α) : PumpAction α → Option (PumpState α)
  | .emit value =>
    if state.requested && !state.sourceCompleted && !state.sourceError then
      some (next length
        { state with
          lastPull := true
          requested := false
          buffer := state.buffer ++ [value]
          received := state.received ++ [value] })
    else none
  | .acknowledge =>
    if state.acknowledged < state.delivered.length then
      some (next length
        { state with subscriberReady := true, acknowledged := state.acknowledged + 1 })
    else none
  | .complete =>
    if state.sourceCompleted || state.sourceError then none
    else some (next length { state with sourceCompleted := true })
  | .error =>
    if state.sourceCompleted || state.sourceError then none
    else some (next length { state with sourceError := true })
  | .resume => state.resume

end PumpState

/-- Events come in order, each once, one at a time; not too many wait; the end comes
last; and nothing waits for a subscriber that has acknowledged all it was given. -/
structure InOrder (length : ℕ) (state : PumpState α) : Prop where
  order : state.received = state.delivered ++ state.buffer
  outstanding : state.delivered.length ≤ state.acknowledged + 1
  room : state.buffer.length ≤ length
  finished : state.finished ≠ none →
    state.buffer = [] ∧ state.acknowledged = state.delivered.length
  progress : state.stack.head? ≠ some .pulling → state.acknowledged = state.delivered.length →
    state.buffer = [] ∧ state.finished = state.notification

/-- The source has been asked for more whenever there is room. -/
structure Lossless (length : ℕ) (state : PumpState α) : Prop extends InOrder length state where
  requested : state.buffer.length < length → state.requested = true

/-- While the source is asked for an event nothing else happens. -/
def Sequential (state : PumpState α) (action : PumpAction α) : Prop :=
  state.stack.head? = some .pulling → action = .resume

/-- Nor is an event handed on from a full buffer. -/
structure Unhurried (length : ℕ) (state : PumpState α) (action : PumpAction α) : Prop where
  sequential : Sequential state action
  emit : ∀ value, action = .emit value → state.subscriberReady = true →
    state.buffer.length + 1 < length
  acknowledge : action = .acknowledge → state.buffer.length < length

/-- The source is asked late by as many places as are given in `slack`. -/
structure PumpInvariant (slack length : ℕ) (state : PumpState α) : Prop where
  order : state.received = state.delivered ++ state.buffer
  count : state.delivered.length = state.acknowledged + if state.subscriberReady then 0 else 1
  room : state.buffer.length ≤ length
  requested : state.requested = true → state.buffer.length < length
  unrequested : state.requested = false →
    state.subscriberReady = false ∧ length ≤ state.buffer.length + slack
  below : .pulling ∉ state.stack.tail
  idle : state.stack.head? ≠ some .pulling →
    state.lastPull = !state.requested ∧
      (state.subscriberReady = true → state.buffer = [] ∧ state.finished = state.notification)
  pulling : state.stack.head? = some .pulling → state.requested = true ∧ state.finished = none
  finished : state.finished ≠ none → state.buffer = [] ∧ state.subscriberReady = true ∧
    (state.sourceCompleted = true ∨ state.sourceError = true)

/-- The pump is entered with what the invariant says between calls, but for events
that may now be handed on. -/
structure Entering (slack length : ℕ) (state : PumpState α) : Prop where
  order : state.received = state.delivered ++ state.buffer
  count : state.delivered.length = state.acknowledged + if state.subscriberReady then 0 else 1
  room : state.buffer.length ≤ length
  requested : state.requested = true → state.buffer.length < length
  stack : .pulling ∉ state.stack
  lastPull : state.lastPull = !state.requested
  ready : state.subscriberReady = true → state.buffer.length < length ∨ slack = 1
  finished : state.finished = none

variable {slack length : ℕ} {state : PumpState α}

theorem head?_ne_pulling (h : Frame.pulling ∉ state.stack) :
    state.stack.head? ≠ some .pulling :=
  fun hhead => h (List.mem_of_mem_head? hhead)

theorem ended_of_notification (h : state.notification ≠ none) :
    state.sourceCompleted = true ∨ state.sourceError = true := by
  by_contra hended
  rw [not_or] at hended
  exact h ((if_neg hended.1).trans (if_neg hended.2))

theorem Entering.deliver (h : Entering slack length state) (hrequested : state.requested = true) :
    PumpInvariant slack length state.deliver := by
  have hbuffer := h.requested hrequested
  have hbelow : Frame.pulling ∉ state.stack.tail := fun hmem => h.stack (List.mem_of_mem_tail hmem)
  have hhead := head?_ne_pulling h.stack
  have hunrequested (P : Prop) (hfalse : state.requested = false) : P :=
    absurd (hrequested.symm.trans hfalse) Bool.false_ne_true.symm
  rw [PumpState.deliver]
  cases hready : state.subscriberReady with
  | false =>
    rw [if_neg Bool.false_ne_true]
    exact
      { order := h.order
        count := h.count
        room := h.room
        requested := fun _ => hbuffer
        unrequested := hunrequested _
        below := hbelow
        idle := fun _ => ⟨h.lastPull, fun htrue => absurd (hready.symm.trans htrue)
          Bool.false_ne_true⟩
        pulling := fun hpulling => absurd hpulling hhead
        finished := fun hfinished => absurd h.finished hfinished }
  | true =>
    rw [if_pos rfl]
    have hcount := h.count
    rw [hready, if_pos rfl] at hcount
    cases hvalues : state.buffer with
    | nil =>
      have hdrained (finished : Option Notification) (hended : finished = state.notification) :
          PumpInvariant slack length { state with finished } :=
        { order := h.order
          count := h.count
          room := h.room
          requested := fun _ => hbuffer
          unrequested := hunrequested _
          below := hbelow
          idle := fun _ => ⟨h.lastPull, fun _ => ⟨hvalues, hended⟩⟩
          pulling := fun hpulling => absurd hpulling hhead
          finished := fun hfinished => ⟨hvalues, hready,
            ended_of_notification (hended ▸ hfinished)⟩ }
      have hsame : state.notification = none → PumpInvariant slack length state :=
        fun hnone => hdrained state.finished (h.finished.trans hnone.symm)
      simp only [hvalues, hready] at hdrained
      dsimp only
      split_ifs with hcompleted herror
      · exact hdrained _ (if_pos hcompleted).symm
      · exact hdrained _ ((if_neg hcompleted).trans (if_pos herror)).symm
      · exact hsame ((if_neg hcompleted).trans (if_neg herror))
    | cons value rest =>
      have horder := h.order
      rw [hvalues] at horder hbuffer
      rw [List.length_cons] at hbuffer
      exact
        { order := by rw [horder, List.append_assoc]; rfl
          count := by rw [List.length_append, hcount]; rfl
          room := by dsimp only; omega
          requested := fun _ => by dsimp only; omega
          unrequested := hunrequested _
          below := h.stack
          idle := fun _ => ⟨h.lastPull, fun htrue => absurd htrue Bool.false_ne_true⟩
          pulling := fun hpulling => by cases hpulling
          finished := fun hfinished => absurd h.finished hfinished }

theorem Entering.next (hlength : 0 < length) (h : Entering slack length state) :
    PumpInvariant slack length (state.next length) := by
  have hbelow : Frame.pulling ∉ state.stack.tail := fun hmem => h.stack (List.mem_of_mem_tail hmem)
  rw [PumpState.next, h.finished, Option.isSome_none, if_neg Bool.false_ne_true]
  by_cases hpull : state.buffer.length < length ∧ state.lastPull = true
  · rw [if_pos hpull]
    exact
      { order := h.order
        count := h.count
        room := h.room
        requested := fun _ => hpull.1
        unrequested := fun hfalse => absurd hfalse Bool.false_ne_true.symm
        below := h.stack
        idle := fun hhead => absurd rfl hhead
        pulling := fun _ => ⟨rfl, rfl⟩
        finished := fun hfinished => absurd rfl hfinished }
  · rw [if_neg hpull]
    cases hrequested : state.requested with
    | true => exact h.deliver hrequested
    | false =>
      have hlastPull : state.lastPull = true := by rw [h.lastPull, hrequested]; rfl
      have hfull : length ≤ state.buffer.length :=
        Nat.le_of_not_lt fun hroom => hpull ⟨hroom, hlastPull⟩
      have hnot (P : Prop) (htrue : state.requested = true) : P :=
        absurd (hrequested.symm.trans htrue) Bool.false_ne_true
      have hcount := h.count
      rw [PumpState.deliver]
      cases hready : state.subscriberReady with
      | false =>
        rw [if_neg Bool.false_ne_true]
        exact
          { order := h.order
            count := h.count
            room := h.room
            requested := hnot _
            unrequested := fun _ => ⟨hready, hfull.trans (Nat.le_add_right _ _)⟩
            below := hbelow
            idle := fun _ => ⟨h.lastPull, fun htrue => absurd (hready.symm.trans htrue)
              Bool.false_ne_true⟩
            pulling := fun hpulling => absurd hpulling (head?_ne_pulling h.stack)
            finished := fun hfinished => absurd h.finished hfinished }
      | true =>
        -- handed on from a full buffer, without asking for the next event
        rw [if_pos rfl]
        have hslack : slack = 1 := (h.ready hready).resolve_left (Nat.not_lt_of_le hfull)
        rw [hready, if_pos rfl] at hcount
        have hroom := h.room
        have horder := h.order
        cases hvalues : state.buffer with
        | nil =>
          rw [hvalues] at hfull
          exact absurd hlength (Nat.not_lt_of_le hfull)
        | cons value rest =>
          rw [hvalues, List.length_cons] at hroom hfull
          rw [hvalues] at horder
          exact
            { order := by rw [horder, List.append_assoc]; rfl
              count := by rw [List.length_append, hcount]; rfl
              room := by dsimp only; omega
              requested := hnot _
              unrequested := fun _ => ⟨rfl, by dsimp only; omega⟩
              below := h.stack
              idle := fun _ => ⟨h.lastPull, fun htrue => absurd htrue Bool.false_ne_true⟩
              pulling := fun hpulling => by cases hpulling
              finished := fun hfinished => absurd h.finished hfinished }

theorem PumpInvariant.no_pull (h : PumpInvariant slack length state)
    (hhead : state.stack.head? ≠ some .pulling) : Frame.pulling ∉ state.stack := by
  cases hstack : state.stack with
  | nil => exact List.not_mem_nil
  | cons frame stack =>
    have hbelow := h.below
    rw [hstack] at hbelow hhead
    rw [List.mem_cons, not_or]
    exact ⟨fun heq => hhead (congrArg some heq.symm), hbelow⟩

theorem PumpInvariant.resume (h : PumpInvariant slack length state) {next : PumpState α}
    (hstep : state.resume = some next) : PumpInvariant slack length next := by
  rw [PumpState.resume] at hstep
  cases hstack : state.stack with
  | nil =>
    rw [hstack] at hstep
    cases hstep
  | cons frame stack =>
    have hbelow := h.below
    rw [hstack] at hstep hbelow
    cases frame with
    | pulling =>
      cases hstep
      obtain ⟨hrequested, hfinished⟩ := h.pulling (by rw [hstack]; rfl)
      have hroom := h.requested hrequested
      refine Entering.deliver ?_ hrequested
      exact
        { order := h.order
          count := h.count
          room := h.room
          requested := fun _ => hroom
          stack := hbelow
          lastPull := by dsimp only; rw [hrequested]; rfl
          ready := fun _ => Or.inl hroom
          finished := hfinished }
    | delivering =>
      cases hstep
      have hhead : state.stack.head? ≠ some .pulling := by
        rw [hstack]
        exact fun heq => Frame.noConfusion (Option.some.inj heq)
      exact
        { order := h.order
          count := h.count
          room := h.room
          requested := h.requested
          unrequested := h.unrequested
          below := fun hmem => hbelow (List.mem_of_mem_tail hmem)
          idle := fun _ => h.idle hhead
          pulling := fun hpulling => absurd (List.mem_of_mem_head? hpulling) hbelow
          finished := h.finished }

theorem PumpInvariant.ending (hlength : 0 < length) (h : PumpInvariant slack length state)
    (hhead : state.stack.head? ≠ some .pulling)
    (hended : ¬(state.sourceCompleted || state.sourceError) = true)
    (sourceCompleted sourceError : Bool) :
    Entering slack length { state with sourceCompleted, sourceError } where
  order := h.order
  count := h.count
  room := h.room
  requested := h.requested
  stack := h.no_pull hhead
  lastPull := (h.idle hhead).1
  ready := by
    intro hready
    have hempty : state.buffer = [] := ((h.idle hhead).2 hready).1
    rw [hempty]
    exact Or.inl hlength
  finished := by
    by_contra hfinished
    rw [Bool.or_eq_true] at hended
    exact hended (h.finished hfinished).2.2

/-- Whether events may be handed on from a full buffer. -/
def PermittedWith (slack length : ℕ) (state : PumpState α) (action : PumpAction α) : Prop :=
  Sequential state action ∧ (slack = 1 ∨ Unhurried length state action)

theorem PumpInvariant.step (hlength : 0 < length) (h : PumpInvariant slack length state)
    {action : PumpAction α} (hpermitted : PermittedWith slack length state action)
    {next : PumpState α} (hstep : state.step length action = some next) :
    PumpInvariant slack length next := by
  obtain ⟨hsequential, hunhurried⟩ := hpermitted
  cases action with
  | resume => exact h.resume hstep
  | emit value =>
    have hhead : state.stack.head? ≠ some .pulling := by
      intro hpulling
      cases hsequential hpulling
    rw [PumpState.step] at hstep
    split_ifs at hstep with hguard
    cases hstep
    rw [Bool.and_eq_true, Bool.and_eq_true, Bool.not_eq_true', Bool.not_eq_true'] at hguard
    have hroom := h.requested hguard.1.1
    apply Entering.next hlength
    exact
      { order := by rw [h.order, List.append_assoc]
        count := h.count
        room := by rw [List.length_append]; exact hroom
        requested := fun htrue => absurd htrue Bool.false_ne_true
        stack := h.no_pull hhead
        lastPull := rfl
        ready := by
          intro hready
          rw [List.length_append]
          rcases hunhurried with hslack | hunhurried
          · exact Or.inr hslack
          · exact Or.inl (hunhurried.emit value rfl hready)
        finished := by
          by_contra hfinished
          rcases (h.finished hfinished).2.2 with htrue | htrue
          · exact absurd (htrue.symm.trans hguard.1.2) Bool.false_ne_true.symm
          · exact absurd (htrue.symm.trans hguard.2) Bool.false_ne_true.symm }
  | acknowledge =>
    have hhead : state.stack.head? ≠ some .pulling := by
      intro hpulling
      cases hsequential hpulling
    rw [PumpState.step] at hstep
    split_ifs at hstep with hguard
    cases hstep
    have hready : state.subscriberReady = false := by
      by_contra htrue
      have hcount := h.count
      rw [Bool.not_eq_false] at htrue
      rw [htrue, if_pos rfl] at hcount
      omega
    have hcount := h.count
    rw [hready, if_neg Bool.false_ne_true] at hcount
    apply Entering.next hlength
    exact
      { order := h.order
        count := hcount
        room := h.room
        requested := h.requested
        stack := h.no_pull hhead
        lastPull := (h.idle hhead).1
        ready := by
          intro _
          rcases hunhurried with hslack | hunhurried
          · exact Or.inr hslack
          · exact Or.inl (hunhurried.acknowledge rfl)
        finished := by
          by_contra hfinished
          exact absurd (hready.symm.trans (h.finished hfinished).2.1) Bool.false_ne_true }
  | complete =>
    have hhead : state.stack.head? ≠ some .pulling := by
      intro hpulling
      cases hsequential hpulling
    rw [PumpState.step] at hstep
    split_ifs at hstep with hended
    cases hstep
    exact (h.ending hlength hhead hended true state.sourceError).next hlength
  | error =>
    have hhead : state.stack.head? ≠ some .pulling := by
      intro hpulling
      cases hsequential hpulling
    rw [PumpState.step] at hstep
    split_ifs at hstep with hended
    cases hstep
    exact (h.ending hlength hhead hended state.sourceCompleted true).next hlength

theorem pumpInvariant_start (hlength : 0 < length) :
    PumpInvariant slack length ({} : PumpState α) where
  order := rfl
  count := rfl
  room := Nat.zero_le _
  requested := fun _ => hlength
  unrequested := fun hfalse => absurd hfalse Bool.false_ne_true.symm
  below := List.not_mem_nil
  idle := fun _ => ⟨rfl, fun _ => ⟨rfl, rfl⟩⟩
  pulling := fun hpulling => by cases hpulling
  finished := fun hfinished => absurd rfl hfinished

theorem PumpInvariant.inOrder (h : PumpInvariant slack length state) : InOrder length state where
  order := h.order
  outstanding := by
    have hcount := h.count
    split_ifs at hcount <;> omega
  room := h.room
  finished := by
    intro hfinished
    obtain ⟨hempty, hready, _⟩ := h.finished hfinished
    have hcount := h.count
    rw [hready, if_pos rfl] at hcount
    exact ⟨hempty, hcount.symm⟩
  progress := by
    intro hhead hacknowledged
    have hready : state.subscriberReady = true := by
      by_contra hnot
      have hcount := h.count
      rw [if_neg hnot] at hcount
      omega
    exact (h.idle hhead).2 hready

/-- In every state that a run reaches in which nothing happens during a pull, events
are in order, and only while one is not acknowledged may one place be free and the
source not have been asked. In an unhurried run the source has always been asked. -/
theorem pump_run (hlength : 0 < length) (state : PumpState α) :
    (Reachable (PumpState.step length) Sequential {} state →
      InOrder length state ∧ (state.requested = false →
        state.acknowledged < state.delivered.length ∧ length ≤ state.buffer.length + 1)) ∧
    (Reachable (PumpState.step length) (Unhurried length) {} state → Lossless length state) := by
  constructor
  · intro hreachable
    have h : PumpInvariant 1 length state :=
      hreachable.invariant (pumpInvariant_start hlength) fun _ _ _ h hsequential hstep =>
        h.step hlength ⟨hsequential, Or.inl rfl⟩ hstep
    refine ⟨h.inOrder, ?_⟩
    intro hrequested
    obtain ⟨hready, hroom⟩ := h.unrequested hrequested
    have hcount := h.count
    rw [hready, if_neg Bool.false_ne_true] at hcount
    exact ⟨by omega, hroom⟩
  · intro hreachable
    have h : PumpInvariant 0 length state :=
      hreachable.invariant (pumpInvariant_start hlength) fun _ _ _ h hunhurried hstep =>
        h.step hlength ⟨hunhurried.sequential, Or.inr hunhurried⟩ hstep
    refine ⟨h.inOrder, ?_⟩
    intro hroom
    by_contra hrequested
    exact absurd (h.unrequested (Bool.not_eq_true _ ▸ hrequested)).2 (Nat.not_le_of_lt hroom)

/-- The source emits the second event when it is asked for it: what asks for the
third is forgotten when that call returns. -/
def stalled : PumpState ℕ :=
  { received := [1, 2], delivered := [1, 2], acknowledged := 2, requested := false }

theorem reachable_stalled :
    Reachable (PumpState.step 2) (fun _ _ => True) ({} : PumpState ℕ) stalled := by
  have hstart := @Reachable.start _ _ (PumpState.step 2) (fun _ _ => True) ({} : PumpState ℕ)
  have hpulling := hstart.step (.emit 1) trivial rfl
  have hdelivering := hpulling.step (.emit 2) trivial rfl
  have hreturned := hdelivering.step .resume trivial rfl
  have hpulled := hreturned.step .resume trivial rfl
  have hsecond := hpulled.step .acknowledge trivial rfl
  have hidle := hsecond.step .resume trivial rfl
  exact hidle.step .acknowledge trivial rfl

theorem not_lossless_stalled :
    Reachable (PumpState.step 2) (fun _ _ => True) ({} : PumpState ℕ) stalled ∧
    ¬Lossless 2 stalled ∧
    (∀ value, stalled.step 2 (.emit value) = none) ∧
    stalled.step 2 .acknowledge = none ∧ stalled.step 2 .resume = none := by
  refine ⟨reachable_stalled, ?_, fun _ => rfl, rfl, rfl⟩
  intro hlossless
  exact absurd (hlossless.requested (by decide)) (by decide)

/-- One event that is requested, received, handed on and acknowledged, and the end. -/
theorem pump_run_oneEvent : Lossless 2
    ({ stack := [.delivering], received := [1], delivered := [1], acknowledged := 1,
       sourceCompleted := true, finished := some .complete } : PumpState ℕ) := by
  have hunhurried (state : PumpState ℕ) (action : PumpAction ℕ)
      (hpulling : state.stack.head? = some .pulling → action = .resume)
      (hroom : state.buffer.length = 0) : Unhurried 2 state action := by
    constructor
    · exact hpulling
    · intro _ _ _
      omega
    · intro _
      omega
  refine (pump_run (by decide) _).2 ?_
  have hstart := @Reachable.start _ _ (PumpState.step 2) (Unhurried 2) ({} : PumpState ℕ)
  have hpulling := hstart.step (.emit 1) (hunhurried _ _ nofun rfl) rfl
  have hresume (state : PumpState ℕ) : Unhurried 2 state .resume := by
    constructor
    · exact fun _ => rfl
    · exact nofun
    · exact nofun
  have hdelivering := hpulling.step .resume (hresume _) rfl
  have hidle := hdelivering.step .acknowledge (hunhurried _ _ nofun rfl) rfl
  exact hidle.step .complete (hunhurried _ _ nofun rfl) rfl

end CardanoSdk.Projection
