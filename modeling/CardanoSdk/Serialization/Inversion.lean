import CardanoSdk.Lib.PrefixCodes
import CardanoSdk.Serialization.Containers

/-!
What decoders have read when they return: which data items they took and how their value
is made of them.
-/

namespace CardanoSdk.Serialization

open Lib Cbor Plutus

variable {α β σ : Type} {reader reader' : CborReader}

variable {item cbor bytes : List UInt8} {value : α} {number tag : ℕ}

theorem decodeWith_eq_ok {calls : DecodeM α} (h : decodeWith cbor calls = .ok value) :
    cbor.length < 2 ^ 53 ∧ ∃ reader reader', FreshReader reader cbor ∧
      reader.currentFrame.type = none ∧ calls reader = .ok value reader' := by
  unfold decodeWith at h
  split at h
  · rename_i hlength
    refine ⟨hlength, CborReader.new ⟨cbor, hlength⟩, ?_⟩
    cases hrun : calls (CborReader.new ⟨cbor, hlength⟩) with
    | ok value' reader' =>
      rw [hrun] at h
      cases h
      exact ⟨reader', ⟨(List.append_nil cbor).symm, fun _ => ⟨rfl, rfl⟩, rfl⟩, rfl, rfl⟩
    | error exception reader' =>
      rw [hrun] at h
      cases h
  · cases h

theorem peekState_eq_ok {state : CborReaderState} (hcached : reader.cachedState = .undefined)
    (h : reading peekState reader = .ok state reader') :
    peekStateCore reader = .ok state ∧ reader' = reader.cached state :=
  Cbor.peekState_eq_ok hcached (reading_eq_ok h)

theorem exists_append_of_fresh (hfresh : FreshReader reader cbor)
    (h : PassedItem reader bytes reader') : ∃ rest, cbor = bytes ++ rest := by
  obtain ⟨rest, hbytes⟩ := h.bytes
  rw [hfresh.bytes, List.append_nil] at hbytes
  exact ⟨rest, hbytes⟩

theorem remaining_append {rest : List UInt8} (h : reader.getRemainingBytes = item ++ rest ++ []) :
    reader.getRemainingBytes = item ++ rest := by
  rw [h, List.append_nil]

def Plain (frame : StackFrame) : Prop :=
  frame.type ≠ some .byteString ∧ frame.type ≠ some .utf8String

theorem plain_of_root {frame : StackFrame} (h : frame.type = none) : Plain frame := by
  unfold Plain
  rw [h]
  simp

/-- A reader of these bytes alone that has looked at its first token. -/
structure Peeked (reader : CborReader) (cbor : List UInt8) (state : CborReaderState) : Prop where
  bytes : reader.getRemainingBytes = cbor
  accepts : ∀ first, reader.currentFrame.Accepts first
  plain : Plain reader.currentFrame
  begins : ∀ state', Begins cbor state' → state' = state

theorem decodeWith_peek_eq_ok {calls : CborReaderState → DecodeM α}
    (h : decodeWith cbor (reading peekState >>= calls) = .ok value) :
    cbor.length < 2 ^ 53 ∧ ∃ state reader reader', Peeked reader cbor state ∧
      calls state reader = .ok value reader' := by
  obtain ⟨hlength, fresh, final, hfresh, hroot, hrun⟩ := decodeWith_eq_ok h
  obtain ⟨state, reader, hpeek, hrun⟩ := run_bind_eq_ok hrun
  obtain ⟨hcore, rfl⟩ := peekState_eq_ok hfresh.cachedState hpeek
  refine ⟨hlength, state, fresh.cached state, final, ⟨hfresh.bytes.trans (List.append_nil cbor),
    hfresh.accepts, plain_of_root hroot, fun state' hbegins => ?_⟩, hrun⟩
  have hcore' := hbegins fresh [] hfresh.bytes hfresh.accepts
  exact Except.ok.inj (hcore'.symm.trans hcore)

structure Taken (reader : CborReader) (count : ℕ) (taken : List UInt8) (reader' : CborReader) :
    Prop where
  pos : 0 < count
  items : Items count taken
  bytes : ∃ rest, reader.getRemainingBytes = taken ++ rest
  room : ∀ n, reader.currentFrame.definiteLength = some n → reader.currentFrame.itemsRead ≤ n →
    reader.currentFrame.itemsRead + count ≤ n
  state : reader' = reader.pass count taken.length

theorem Taken.rest {items : ℕ} {bytes rest : List UInt8} (h : Taken reader items bytes reader')
    (hbytes : reader.getRemainingBytes = bytes ++ rest) : reader'.getRemainingBytes = rest := by
  rw [h.state, CborReader.getRemainingBytes_pass, hbytes, List.drop_left]

variable {items : ℕ} {allowed : ℕ → Prop} {head : List UInt8}

theorem Taken.plain (h : Taken reader items bytes reader') (hplain : Plain reader.currentFrame) :
    Plain reader'.currentFrame := by
  rw [h.state]
  exact hplain

theorem Taken.trans {items' : ℕ} {bytes' : List UInt8} {reader'' : CborReader}
    (h : Taken reader items bytes reader') (h' : Taken reader' items' bytes' reader'') :
    Taken reader (items + items') (bytes ++ bytes') reader'' where
  pos := Nat.add_pos_left h.pos _
  items := h.items.append h'.items
  bytes := by
    obtain ⟨rest, hrest⟩ := h.bytes
    obtain ⟨rest', hrest'⟩ := h'.bytes
    rw [h.rest hrest] at hrest'
    exact ⟨rest', by rw [hrest, hrest', List.append_assoc]⟩
  room := by
    intro n hn hle
    have hle' := h.room n hn hle
    have hroom := h'.room n
    rw [h.state] at hroom
    have := hroom hn hle'
    change reader.currentFrame.itemsRead + items + items' ≤ n at this
    omega
  state := by
    rw [h'.state, h.state, CborReader.pass_pass, List.length_append]

theorem taken_item (hitem : DataItem item) (h : PassedItem reader item reader') :
    Taken reader 1 item reader' where
  pos := Nat.one_pos
  items := by
    have hitems := Items.cons hitem Items.nil
    rwa [List.append_nil] at hitems
  bytes := h.bytes
  room := by
    intro n hn hle
    obtain ⟨first, rest, rfl, _⟩ := hitem.exists_cons
    have hroom := (h.accepts first rfl).room
    rw [StackFrame.isComplete, hn] at hroom
    simp only [Option.some.injEq, decide_eq_false_iff_not] at hroom
    omega
  state := h.state

/-- Where any item may stand, the action takes items that make its value. -/
def Takes (action : DecodeM α) (makes : ℕ → List UInt8 → α → Prop) : Prop :=
  ∀ reader value reader', Plain reader.currentFrame → action reader = .ok value reader' →
    ∃ items bytes, Taken reader items bytes reader' ∧ makes items bytes value

theorem Takes.mono {action : DecodeM α} {makes makes' : ℕ → List UInt8 → α → Prop}
    (h : Takes action makes) (himp : ∀ items bytes value, makes items bytes value →
      makes' items bytes value) : Takes action makes' := by
  intro reader value reader' hplain hrun
  obtain ⟨items, bytes, htaken, hmakes⟩ := h reader value reader' hplain hrun
  exact ⟨items, bytes, htaken, himp _ _ _ hmakes⟩

def MakesBoth (makes : ℕ → List UInt8 → β → Prop) (makes' : β → ℕ → List UInt8 → α → Prop)
    (items : ℕ) (bytes : List UInt8) (value : α) : Prop :=
  ∃ items₁ items₂ bytes₁ bytes₂ b, items = items₁ + items₂ ∧ bytes = bytes₁ ++ bytes₂ ∧
    makes items₁ bytes₁ b ∧ makes' b items₂ bytes₂ value

theorem Takes.bind {first : DecodeM β} {next : β → DecodeM α} {makes : ℕ → List UInt8 → β → Prop}
    {makes' : β → ℕ → List UInt8 → α → Prop} (hfirst : Takes first makes)
    (hnext : ∀ b, Takes (next b) (makes' b)) : Takes (first >>= next) (MakesBoth makes makes') := by
  intro reader value reader' hplain hrun
  obtain ⟨b, middle, hrunFirst, hrunNext⟩ := run_bind_eq_ok hrun
  obtain ⟨items, bytes, htaken, hmakes⟩ := hfirst _ _ _ hplain hrunFirst
  obtain ⟨items', bytes', htaken', hmakes'⟩ := hnext b _ _ _ (htaken.plain hplain) hrunNext
  exact ⟨_, _, htaken.trans htaken', items, items', bytes, bytes', b, rfl, rfl, hmakes, hmakes'⟩

theorem Takes.map {first : DecodeM β} {next : β → DecodeM α} {makes : ℕ → List UInt8 → β → Prop}
    {gives : β → α → Prop} (hfirst : Takes first makes)
    (hnext : ∀ b reader value reader', next b reader = .ok value reader' →
      reader' = reader ∧ gives b value) :
    Takes (first >>= next) fun items bytes value => ∃ b, makes items bytes b ∧ gives b value := by
  intro reader value reader' hplain hrun
  obtain ⟨b, middle, hrunFirst, hrunNext⟩ := run_bind_eq_ok hrun
  obtain ⟨items, bytes, htaken, hmakes⟩ := hfirst _ _ _ hplain hrunFirst
  obtain ⟨rfl, hgives⟩ := hnext _ _ _ _ hrunNext
  exact ⟨items, bytes, htaken, b, hmakes, hgives⟩

def OneItem (makes : List UInt8 → α → Prop) (items : ℕ) (bytes : List UInt8) (value : α) : Prop :=
  items = 1 ∧ makes bytes value

theorem takes_encodedValue :
    Takes (reading readEncodedValue) (OneItem fun bytes value => DataItem bytes ∧ value = bytes) := by
  intro reader value reader' hplain hrun
  have hbreak : ¬AtByteStringBreak reader := fun h => hplain.1 h.1
  obtain ⟨hitem, hbytes, hallows, hstate⟩ := readEncodedValue_eq_ok hbreak (reading_eq_ok hrun)
  have haccepts := (allows_iff_accepts hitem).mp hallows
  exact ⟨1, value, taken_item hitem ⟨hbytes, haccepts, hstate⟩, rfl, hitem, rfl⟩

theorem dataItem_append_eq_nil {rest : List UInt8} (hitem : DataItem item)
    (hwhole : DataItem (item ++ rest)) (hlength : (item ++ rest).length < 2 ^ 53) : rest = [] := by
  have hpart : decodeWith (item ++ rest) (reading readEncodedValue) = .ok item := by
    refine decodeWith_ok hlength fun reader hfresh => ⟨_, readsItem_encodedValue hitem reader rest ?_
      hfresh.accepts⟩
    rw [hfresh.bytes, List.append_nil]
  rw [(readsItem_encodedValue hwhole).decodeWith hlength] at hpart
  have hsame : item ++ rest = item := Except.ok.inj hpart
  exact List.append_right_eq_self.mp hsame

theorem dataItem_eq_of_append {item' rest rest' : List UInt8} (hitem : DataItem item)
    (hitem' : DataItem item') (heq : item ++ rest = item' ++ rest')
    (hlength : (item ++ rest).length < 2 ^ 53) : item = item' := by
  have hlength' := congrArg List.length heq
  rw [List.length_append] at hlength
  rw [List.length_append, List.length_append] at hlength'
  rcases List.append_eq_append_iff.mp heq with ⟨more, rfl, _⟩ | ⟨more, rfl, _⟩
  · rw [List.length_append] at hlength'
    rw [dataItem_append_eq_nil hitem hitem' (by rw [List.length_append]; omega), List.append_nil]
  · rw [dataItem_append_eq_nil hitem' hitem (by omega), List.append_nil]

theorem takes_part (fromCbor : List UInt8 → Except DecodeException α) :
    Takes (readPart fromCbor) (OneItem (DecodesPart fromCbor)) := by
  have hmap := @Takes.map _ _ _ (fun encoded => decoding (fromCbor encoded)) _
    (fun encoded value => fromCbor encoded = .ok value) takes_encodedValue
    (fun b reader value reader' h => (decoding_eq_ok h).symm)
  refine hmap.mono ?_
  rintro items bytes value ⟨encoded, ⟨hone, hitem, rfl⟩, hvalue⟩
  exact ⟨hone, hitem, hvalue⟩

theorem readInt_eq_ok {value : ℤ} (h : readInt reader = .ok value reader') :
    ∃ head, IntegerHead head value ∧ PassedItem reader head reader' := by
  obtain ⟨bytes, hpeek, _, hstate⟩ := readItem_eq_ok h
  obtain ⟨first, hfirst, hdecode⟩ := bind_ok hpeek
  obtain ⟨haccepts, rest, hbytes⟩ := accepts_of_peekInitialByte hfirst
  cases htype : getMajorType first <;> rw [htype] at hdecode <;> try cases hdecode
  case unsignedInteger =>
    obtain ⟨⟨argument, bytesRead⟩, hdecode, hpure⟩ := bind_ok hdecode
    cases hpure
    obtain ⟨payload, rest', hsplit, rfl, hhead⟩ := head_of_decode hbytes hdecode
    rw [htype] at hhead
    exact ⟨first :: payload, IntegerHead.unsigned hhead, ⟨rest', hsplit⟩, by simpa using haccepts,
      hstate⟩
  case negativeInteger =>
    obtain ⟨⟨argument, bytesRead⟩, hdecode, hpure⟩ := bind_ok hdecode
    cases hpure
    obtain ⟨payload, rest', hsplit, rfl, hhead⟩ := head_of_decode hbytes hdecode
    rw [htype] at hhead
    exact ⟨first :: payload, IntegerHead.negative hhead, ⟨rest', hsplit⟩, by simpa using haccepts,
      hstate⟩

theorem takes_int : Takes (reading readInt) (OneItem IntegerHead) := by
  intro reader value reader' _ hrun
  obtain ⟨head, hhead, hpassed⟩ := readInt_eq_ok (reading_eq_ok hrun)
  exact ⟨1, head, taken_item hhead.dataItem hpassed, rfl, hhead⟩

theorem readsItem_byteStringItem {value : List UInt8} (h : ByteString allowed item value) :
    ReadsItem (reading readByteString) item value := by
  intro reader rest hbytes haccepts
  exact reading_ok (readByteString_ok h hbytes fun first _ => haccepts first)

theorem begins_byteString {value : List UInt8} (h : ByteString allowed item value) :
    Begins item .byteString ∨ Begins item .startIndefiniteLengthByteString := by
  cases h with
  | whole hhead => exact Or.inl (@begins_head .byteString (by simp) _ _ hhead _)
  | chunked => exact Or.inr (@begins_indefinite .byteString (by simp) _)

theorem takes_byteString : Takes (reading readByteString) (OneItem (ByteString AnyLength)) := by
  intro reader value reader' _ hrun
  obtain ⟨item, hitem, hpassed⟩ := readByteString_eq_ok (reading_eq_ok hrun)
  exact ⟨1, item, taken_item hitem.dataItem hpassed, rfl, hitem⟩

theorem roundToDouble_eq_iff {small : ℕ} (hsmall : small < 2 ^ 53) :
    roundToDouble number = small ↔ number = small := by
  constructor
  · intro h
    rcases @roundToDouble_eq_or number with heq | ⟨_, hlarge⟩
    · rw [← heq, h]
    · omega
  · rintro rfl
    exact roundToDouble_of_lt hsmall

theorem readTag_takes (h : reading readTag reader = .ok tag reader') :
    ∃ number head rest, Head 6 number head ∧ tag = roundToDouble number ∧
      reader.getRemainingBytes = head ++ rest ∧ reader'.getRemainingBytes = rest ∧
      reader'.currentFrame = reader.currentFrame := by
  have h := reading_eq_ok h
  obtain ⟨number, head, rest, hhead, hbytes, haccepts, rfl⟩ := readTag_eq_ok h
  rw [readTag_ok hhead hbytes haccepts] at h
  cases h
  refine ⟨number, head, rest, hhead, rfl, hbytes, ?_, rfl⟩
  rw [CborReader.getRemainingBytes_tagged, hbytes, List.drop_left]

theorem peekTag_ok {rest : List UInt8} (hhead : Head 6 number head)
    (hbytes : reader.getRemainingBytes = head ++ rest)
    (haccepts : ∀ first, reader.currentFrame.Accepts first) :
    peekTag reader = .ok (roundToDouble number) reader :=
  run_bind_ok (peeking_ok (peekTagCore_ok hhead hbytes fun first _ => haccepts first))

theorem peekTag_eq_ok (h : reading peekTag reader = .ok tag reader') :
    reader' = reader ∧ ∃ bytesRead, peekTagCore reader = .ok (tag, bytesRead) := by
  have h := reading_eq_ok h
  obtain ⟨⟨tag', bytesRead⟩, middle, hpeeking, hpure⟩ := run_bind_eq_ok h
  cases hpure
  obtain ⟨hpeek, rfl⟩ := peeking_eq_ok hpeeking
  exact ⟨rfl, bytesRead, hpeek⟩

theorem peekTagCore_eq {bytesRead : ℕ} {rest : List UInt8} (hhead : Head 6 number head)
    (hbytes : reader.getRemainingBytes = head ++ rest)
    (h : peekTagCore reader = .ok (tag, bytesRead)) : tag = roundToDouble number := by
  obtain ⟨first, hfirst, _⟩ := bind_ok h
  obtain ⟨haccepts, tail, htail⟩ := accepts_of_peekInitialByte hfirst
  have haccepts' : ∀ first ∈ head.head?, reader.currentFrame.Accepts first := by
    intro first' hfirst'
    obtain ⟨info, payload, _, rfl⟩ := hhead.exists_cons
    cases hfirst'
    rw [hbytes] at htail
    cases htail
    exact haccepts
  rw [peekTagCore_ok hhead hbytes haccepts'] at h
  cases h
  rfl

inductive Chain (step : σ → ℕ → List UInt8 → σ → Prop) : σ → ℕ → List UInt8 → σ → Prop
  | nil (s : σ) : Chain step s 0 [] s
  | cons {s s' s'' : σ} {items more : ℕ} {bytes bytes' : List UInt8} (hstep : step s items bytes s')
      (hrest : Chain step s' more bytes' s'') :
      Chain step s (items + more) (bytes ++ bytes') s''

/-- The frame of this type ends where the reader stands. -/
def EndsFrame (reader : CborReader) (type : CborMajorType) : Prop :=
  reader.currentFrame.definiteLength = some reader.currentFrame.itemsRead ∨
    reader.currentFrame.definiteLength = none ∧
      (type = .map → reader.currentFrame.itemsRead % 2 = 0) ∧
      ∃ rest, reader.getRemainingBytes = indefiniteLengthBreakByte :: rest

theorem endsFrame_of_peek {type : CborMajorType} (htype : type = .array ∨ type = .map)
    (hframe : reader.currentFrame.type = some type)
    (h : peekStateCore reader = .ok type.closing) : EndsFrame reader type := by
  rcases peekStateCore_eq_ok h with hstops | ⟨first, _, _, _, hstate⟩
  · generalize hstate : type.closing = state at hstops
    cases hstops with
    | finished => rcases htype with rfl | rfl <;> cases hstate
    | complete _ _ hcomplete => exact Or.inl hcomplete
    | @atBreak type' rest _ hframe' hindefinite hbytes heven _ =>
      have hsame : type = type' := Option.some.inj (hframe.symm.trans hframe')
      subst hsame
      exact Or.inr ⟨hindefinite, heven, rest, hbytes⟩
  · have hends := peekItem_ne_end first
    rcases htype with rfl | rfl
    · exact absurd hstate.symm hends.1
    · exact absurd hstate.symm hends.2

theorem endsFrame_of_readEndArray
    (hroom : ∀ n, reader.currentFrame.definiteLength = some n → reader.currentFrame.itemsRead ≤ n)
    (h : readEndArray reader = .ok () reader') : EndsFrame reader .array := by
  change (if reader.currentFrame.definiteLength = none then _ else _ : ReadM Unit) reader = _ at h
  split at h
  · rename_i hindefinite
    obtain ⟨_, _, hpeeking, _⟩ := run_bind_eq_ok h
    obtain ⟨hvalidate, _⟩ := peeking_eq_ok hpeeking
    obtain ⟨first, hfirst, hbreak⟩ := bind_ok hvalidate
    obtain ⟨_, rest, hbytes⟩ := accepts_of_peekInitialByte hfirst
    split at hbreak
    · cases hbreak
    · rename_i hsame
      rw [not_not.mp hsame] at hbytes
      exact Or.inr ⟨hindefinite, by simp, rest, hbytes⟩
  · rename_i hdefinite
    obtain ⟨n, hn⟩ := Option.ne_none_iff_exists'.mp hdefinite
    obtain ⟨_, _, hpop, _⟩ := run_bind_eq_ok h
    rcases popDataItem_cases .array reader with ⟨exception, herror⟩ | ⟨_, _, _, _, hend, _⟩
    · rw [herror] at hpop
      cases hpop
    · have hle := hend n hn
      have hge := hroom n hn
      exact Or.inl (by rw [hn, Nat.le_antisymm hle hge])

theorem untilEnd_eq_ok {closing : CborReaderState} {step : σ → DecodeM σ}
    {makes : σ → ℕ → List UInt8 → σ → Prop} {s s' : σ} {rounds : ℕ}
    (hstep : ∀ s, Takes (step s) (makes s)) (hplain : Plain reader.currentFrame)
    (hfresh : reader.pass 0 0 = reader)
    (h : untilEnd closing step rounds s reader = .ok s' reader') :
    ∃ items bytes, Chain makes s items bytes s' ∧ Items items bytes ∧
      (∃ rest, reader.getRemainingBytes = bytes ++ rest) ∧
      reader' = (reader.pass items bytes.length).cached closing ∧
      peekStateCore (reader.pass items bytes.length) = .ok closing := by
  induction rounds generalizing reader s with
  | zero => cases h
  | succ rounds ih =>
    rw [untilEnd] at h
    obtain ⟨state, middle, hpeek, hround⟩ := run_bind_eq_ok h
    have hcached : reader.cachedState = .undefined := congrArg CborReader.cachedState hfresh.symm
    obtain ⟨hcore, rfl⟩ := peekState_eq_ok hcached hpeek
    split at hround
    · rename_i hclosing
      subst hclosing
      cases hround
      refine ⟨0, [], Chain.nil _, Items.nil, ⟨_, rfl⟩, ?_, ?_⟩
      · rw [List.length_nil, hfresh]
      · rw [List.length_nil, hfresh]
        exact hcore
    · obtain ⟨s₁, middle, hrun, hrest⟩ := run_bind_eq_ok hround
      obtain ⟨items, bytes, htaken, hmakes⟩ := hstep s (reader.cached state) s₁ middle hplain hrun
      have hstate : middle = reader.pass items bytes.length := htaken.state
      have hplain' : Plain middle.currentFrame := htaken.plain hplain
      have hfresh' : middle.pass 0 0 = middle := by
        rw [hstate, CborReader.pass_pass]
        rfl
      obtain ⟨more, bytes', hchain, hitems, hbytes', hfinal, hend⟩ := ih hplain' hfresh' hrest
      obtain ⟨rest, hbytes⟩ := htaken.bytes
      obtain ⟨rest', hbytes'⟩ := hbytes'
      rw [htaken.rest hbytes] at hbytes'
      rw [hstate, CborReader.pass_pass, ← List.length_append] at hfinal hend
      refine ⟨items + more, bytes ++ bytes', Chain.cons hmakes hchain, htaken.items.append hitems,
        ⟨rest', ?_⟩, hfinal, hend⟩
      rw [show reader.getRemainingBytes = bytes ++ rest from hbytes, hbytes', List.append_assoc]

/-- The reader has entered a frame of this type. -/
inductive Entered (reader : CborReader) (type : CborMajorType) : Option ℕ → CborReader → Prop
  | definite {length : ℕ} {head : List UInt8} (hopens : OpensDefinite reader type length head) :
      Entered reader type (some (roundToDouble length))
        (reader.enter head.length type (some (declaredItems type length)))
  | indefinite (hopens : OpensIndefinite reader type) :
      Entered reader type none (reader.enter 1 type none)

section Frames

variable {type : CborMajorType} {declared : Option ℕ} {entered : CborReader}

theorem readStartArray_entered (h : readStartArray reader = .ok declared entered) :
    Entered reader .array declared entered := by
  have hvalue : entered.currentFrame.definiteLength = declared := by
    unfold readStartArray at h
    obtain ⟨first, middle, _, hmove⟩ := run_bind_eq_ok h
    split at hmove
    · obtain ⟨_, moved, _, hpush⟩ := run_bind_eq_ok hmove
      cases hpush
      rfl
    · obtain ⟨⟨length, bytesRead⟩, middle', _, hmove⟩ := run_bind_eq_ok hmove
      obtain ⟨_, moved, _, hpush⟩ := run_bind_eq_ok hmove
      cases hpush
      rfl
  rcases readStartArray_eq_ok h with ⟨hopens, rfl⟩ | ⟨length, head, hopens, rfl⟩
  · cases hvalue
    exact Entered.indefinite hopens
  · cases hvalue
    exact Entered.definite hopens

theorem readStartMap_entered (h : readStartMap reader = .ok declared entered) :
    Entered reader .map declared entered := by
  have hvalue : entered.currentFrame.definiteLength = declared.map (2 * ·) := by
    unfold readStartMap at h
    obtain ⟨first, middle, _, hmove⟩ := run_bind_eq_ok h
    split at hmove
    · obtain ⟨_, moved, _, hpush⟩ := run_bind_eq_ok hmove
      cases hpush
      rfl
    · obtain ⟨_, _, hget, hmove⟩ := run_bind_eq_ok hmove
      cases hget
      obtain ⟨⟨length, bytesRead⟩, middle', _, hmove⟩ := run_bind_eq_ok hmove
      dsimp only at hmove
      split at hmove
      · cases hmove
      · obtain ⟨_, moved, _, hpush⟩ := run_bind_eq_ok hmove
        cases hpush
        rfl
  rcases readStartMap_eq_ok h with ⟨hopens, rfl⟩ | ⟨length, head, hopens, rfl⟩
  · cases declared with
    | none => exact Entered.indefinite hopens
    | some size => cases hvalue
  · cases declared with
    | none => cases hvalue
    | some size =>
      have hsize : 2 * roundToDouble length = 2 * size := Option.some.inj hvalue
      obtain rfl : roundToDouble length = size := by omega
      exact Entered.definite hopens

theorem Entered.frame_type (h : Entered reader type declared entered) :
    entered.currentFrame.type = some type := by
  cases h <;> rfl

theorem Entered.itemsRead (h : Entered reader type declared entered) :
    entered.currentFrame.itemsRead = 0 := by
  cases h <;> rfl

theorem Entered.plain (h : Entered reader type declared entered)
    (htype : type = .array ∨ type = .map) : Plain entered.currentFrame := by
  unfold Plain
  rw [h.frame_type]
  rcases htype with rfl | rfl <;> simp

theorem Entered.fresh (h : Entered reader type declared entered) : entered.pass 0 0 = entered := by
  cases h <;> rfl

variable {items : ℕ} {content : List UInt8}

/-- The frame that ends where the reader stands is one item around its content. -/
theorem Entered.framed (h : Entered reader type declared entered)
    (htype : type = .array ∨ type = .map) (hitems : Items items content)
    (hcontent : ∃ rest, entered.getRemainingBytes = content ++ rest)
    (hend : EndsFrame (entered.pass items content.length) type) :
    ∃ count bytes footer, Framed type.toNat count content declared bytes ∧
      items = (if type = .map then 2 * count else count) ∧
      Closes (entered.pass items content.length) type reader.currentFrame reader.nestedItems footer ∧
      PassedItem reader bytes ((entered.pass items content.length).leave footer
        reader.currentFrame reader.nestedItems) := by
  obtain ⟨rest, hcontent⟩ := hcontent
  have hlt := reader.getRemainingBytes_lt
  cases h with
  | @definite length head hopens =>
    obtain ⟨tail, hbytes⟩ := hopens.bytes
    rw [CborReader.getRemainingBytes_enter, hbytes, List.drop_left] at hcontent
    rw [hbytes, hcontent, List.length_append, List.length_append] at hlt
    rcases hend with hcomplete | ⟨hindefinite, _⟩
    · have hdeclared : declaredItems type length = items := by
        have hcomplete : declaredItems type length = 0 + items := Option.some.inj hcomplete
        rwa [Nat.zero_add] at hcomplete
      have hcount := declaredItems_eq hitems (by omega) hdeclared
      have hle := hitems.le_length
      have hround : roundToDouble length = length := by
        apply roundToDouble_of_lt
        split at hcount <;> omega
      have hatEnd := atEnd_filled reader head.length items content.length type
      rw [← hdeclared] at hatEnd
      refine ⟨length, head ++ content, 0, ?_, hcount, ?_, ⟨rest, ?_⟩, ?_, ?_⟩
      · rw [hround]
        exact Framed.definite hopens.header
      · rw [← hdeclared]
        exact Closes.atEnd htype hatEnd
      · rw [hbytes, hcontent, List.append_assoc]
      · rw [head?_append_of_head hopens.header]
        exact hopens.accepts
      · rw [hdeclared, leave_filled]
    · cases hindefinite
  | indefinite hopens =>
    obtain ⟨tail, hbytes⟩ := hopens.bytes
    rw [CborReader.getRemainingBytes_enter, hbytes, List.drop_one, List.tail_cons] at hcontent
    rcases hend with hcomplete | ⟨_, heven, rest', hbreak⟩
    · cases hcomplete
    · rw [CborReader.getRemainingBytes_pass, CborReader.getRemainingBytes_enter, hbytes,
        List.drop_one, List.tail_cons, hcontent, List.drop_left] at hbreak
      have hsplit : reader.getRemainingBytes =
          initialByte type.toNat 31 :: (content ++ [breakByte]) ++ rest' := by
        rw [hbytes, hcontent, hbreak]
        simp [breakByte, indefiniteLengthBreakByte]
      have hatBreak := atBreak_filled type items hsplit
      have hhalf : type = .map → items % 2 = 0 := by
        intro hmap
        have heven := heven hmap
        change (0 + items) % 2 = 0 at heven
        rwa [Nat.zero_add] at heven
      refine ⟨if type = .map then items / 2 else items, _, 1, Framed.indefinite, ?_,
        Closes.atBreak (by tauto) heven hatBreak, ⟨rest', hsplit⟩, ?_, ?_⟩
      · split
        · have hhalf := hhalf (by assumption)
          omega
        · rfl
      · rintro first hfirst
        cases hfirst
        exact hopens.accepts
      · rw [leave_filled_break _ _ _ (initialByte type.toNat 31)]

variable {frame : StackFrame} {nestedItems : List StackFrame} {footer : ℕ}

theorem cached_closes (h : Closes reader type frame nestedItems footer) (state : CborReaderState) :
    Closes (reader.cached state) type frame nestedItems footer := by
  cases h with
  | atEnd htype h => exact Closes.atEnd htype (h.cached state)
  | atBreak htype heven h => exact Closes.atBreak htype heven (h.cached state)

theorem readEndArray_of_closes (h : Closes reader .array frame nestedItems footer) :
    readEndArray reader = .ok () (reader.leave footer frame nestedItems) := by
  cases h with
  | atEnd _ h => exact h.readEndArray
  | atBreak _ _ h => exact h.readEndArray

theorem readEndMap_of_closes (h : Closes reader .map frame nestedItems footer) :
    readEndMap reader = .ok () (reader.leave footer frame nestedItems) := by
  cases h with
  | atEnd _ h => exact h.readEndMap
  | atBreak _ heven h => exact h.readEndMap (heven rfl)

theorem closedArray_eq_ok {moved left : CborReader}
    (hstart : reading readStartArray reader = .ok declared entered)
    (htaken : Taken entered items content moved)
    (hleave : reading readEndArray moved = .ok () left) :
    ∃ bytes, Framed 4 items content declared bytes ∧ PassedItem reader bytes left := by
  have hentered := readStartArray_entered (reading_eq_ok hstart)
  have hleave := reading_eq_ok hleave
  rw [htaken.state] at hleave
  have hends : EndsFrame (entered.pass items content.length) .array := by
    refine endsFrame_of_readEndArray ?_ hleave
    intro n hn
    exact htaken.room n hn (by rw [hentered.itemsRead]; exact Nat.zero_le _)
  obtain ⟨_, bytes, footer, hframed, rfl, hcloses, hpassed⟩ :=
    hentered.framed (Or.inl rfl) htaken.items htaken.bytes hends
  rw [readEndArray_of_closes hcloses] at hleave
  cases hleave
  exact ⟨bytes, hframed, hpassed⟩

end Frames

section Containers

variable {step : σ → DecodeM σ} {makes : σ → ℕ → List UInt8 → σ → Prop} {s s' : σ} {rounds : ℕ}
  {declared : Option ℕ}

theorem readArray_eq_ok (hstep : ∀ s, Takes (step s) (makes s))
    (h : readArray step rounds s reader = .ok (declared, s') reader') :
    ∃ count content bytes, Framed 4 count content declared bytes ∧ Chain makes s count content s' ∧
      Items count content ∧ PassedItem reader bytes reader' := by
  obtain ⟨length, entered, hstart, h⟩ := run_bind_eq_ok h
  obtain ⟨final, looped, hloop, h⟩ := run_bind_eq_ok h
  obtain ⟨_, left, hleave, hpure⟩ := run_bind_eq_ok h
  cases hpure
  have hentered := readStartArray_entered (reading_eq_ok hstart)
  obtain ⟨count, content, hchain, hitems, hcontent, rfl, hend⟩ :=
    untilEnd_eq_ok hstep (hentered.plain (Or.inl rfl)) hentered.fresh hloop
  obtain ⟨_, bytes, footer, hframed, rfl, hcloses, hpassed⟩ :=
    hentered.framed (Or.inl rfl) hitems hcontent
      (endsFrame_of_peek (Or.inl rfl) hentered.frame_type hend)
  have hleave := reading_eq_ok hleave
  rw [readEndArray_of_closes (cached_closes hcloses .endArray), CborReader.cached_leave] at hleave
  cases hleave
  exact ⟨_, content, bytes, hframed, hchain, hitems, hpassed⟩

theorem readMap_eq_ok (hstep : ∀ s, Takes (step s) (makes s))
    (h : readMap step rounds s reader = .ok (declared, s') reader') :
    ∃ count content bytes, Framed 5 count content declared bytes ∧
      Chain makes s (2 * count) content s' ∧ Items (2 * count) content ∧
      PassedItem reader bytes reader' := by
  obtain ⟨length, entered, hstart, h⟩ := run_bind_eq_ok h
  obtain ⟨final, looped, hloop, h⟩ := run_bind_eq_ok h
  obtain ⟨_, left, hleave, hpure⟩ := run_bind_eq_ok h
  cases hpure
  have hentered := readStartMap_entered (reading_eq_ok hstart)
  obtain ⟨items, content, hchain, hitems, hcontent, rfl, hend⟩ :=
    untilEnd_eq_ok hstep (hentered.plain (Or.inr rfl)) hentered.fresh hloop
  obtain ⟨count, bytes, footer, hframed, rfl, hcloses, hpassed⟩ :=
    hentered.framed (Or.inr rfl) hitems hcontent
      (endsFrame_of_peek (Or.inr rfl) hentered.frame_type hend)
  have hleave := reading_eq_ok hleave
  rw [readEndMap_of_closes (cached_closes hcloses .endMap), CborReader.cached_leave] at hleave
  cases hleave
  exact ⟨count, content, bytes, hframed, hchain, hitems, hpassed⟩

end Containers

section Parts

variable {fromCbor : List UInt8 → Except DecodeException α}

theorem takes_addPart (before : List α) :
    Takes (addPart fromCbor before) fun items bytes after =>
      ∃ value, OneItem (DecodesPart fromCbor) items bytes value ∧ after = before ++ [value] := by
  refine Takes.map (takes_part fromCbor) ?_
  intro value reader after reader' h
  cases h
  exact ⟨rfl, rfl⟩

theorem takes_insertParts (before : List (α × α)) :
    Takes (insertParts fromCbor before) fun items bytes after =>
      ∃ encoded entry, items = 2 ∧ bytes = encoded.1 ++ encoded.2 ∧
        DecodesParts fromCbor encoded entry ∧ after = before ++ [entry] := by
  have hvalue (key : α) := @Takes.map _ _ (readPart fromCbor)
    (fun value => pure (before ++ [(key, value)])) _
    (fun value after => after = before ++ [(key, value)]) (takes_part fromCbor)
    (fun value reader after reader' h => by cases h; exact ⟨rfl, rfl⟩)
  refine (Takes.bind (takes_part fromCbor) hvalue).mono ?_
  rintro items bytes after ⟨one, one', encodedKey, encodedValue, key, rfl, rfl, ⟨rfl, hkey⟩, value,
    ⟨rfl, hvalue⟩, rfl⟩
  exact ⟨(encodedKey, encodedValue), (key, value), rfl, rfl, ⟨hkey, hvalue⟩, rfl⟩

variable {count : ℕ} {content : List UInt8} {declared : Option ℕ}

theorem chain_addPart {before after : List α}
    (h : Chain (fun before items bytes after => ∃ value,
      OneItem (DecodesPart fromCbor) items bytes value ∧ after = before ++ [value])
      before count content after) :
    ∃ elements items, List.Forall₂ (DecodesPart fromCbor) elements items ∧
      count = elements.length ∧ content = elements.flatten ∧ after = before ++ items := by
  induction h with
  | nil s => exact ⟨[], [], List.Forall₂.nil, rfl, rfl, (List.append_nil s).symm⟩
  | @cons _ _ _ _ _ encoded _ hstep _ ih =>
    obtain ⟨value, ⟨rfl, hvalue⟩, rfl⟩ := hstep
    obtain ⟨elements, items, hparts, rfl, rfl, rfl⟩ := ih
    refine ⟨encoded :: elements, value :: items, List.Forall₂.cons hvalue hparts, ?_, rfl, ?_⟩
    · rw [List.length_cons, Nat.add_comm]
    · rw [List.append_assoc, List.singleton_append]

theorem chain_insertParts {before after : List (α × α)}
    (h : Chain (fun before items bytes after => ∃ encoded entry, items = 2 ∧
      bytes = encoded.1 ++ encoded.2 ∧ DecodesParts fromCbor encoded entry ∧
      after = before ++ [entry]) before count content after) :
    ∃ encoded entries, List.Forall₂ (DecodesParts fromCbor) encoded entries ∧
      count = 2 * encoded.length ∧ content = entriesBytes encoded ∧ after = before ++ entries := by
  induction h with
  | nil s => exact ⟨[], [], List.Forall₂.nil, rfl, rfl, (List.append_nil s).symm⟩
  | cons hstep _ ih =>
    obtain ⟨encodedEntry, entry, rfl, rfl, hentry, rfl⟩ := hstep
    obtain ⟨encoded, entries, hparts, rfl, rfl, rfl⟩ := ih
    refine ⟨encodedEntry :: encoded, entry :: entries, List.Forall₂.cons hentry hparts, ?_, rfl, ?_⟩
    · rw [List.length_cons, Nat.mul_succ, Nat.add_comm]
    · rw [List.append_assoc, List.singleton_append]

variable {rounds : ℕ}

theorem readParts_eq_ok {items : List α}
    (h : readArray (addPart fromCbor) rounds [] reader = .ok (declared, items) reader') :
    ∃ elements bytes, List.Forall₂ (DecodesPart fromCbor) elements items ∧
      Framed 4 elements.length elements.flatten declared bytes ∧ PassedItem reader bytes reader' := by
  obtain ⟨count, content, bytes, hframed, hchain, _, hpassed⟩ := readArray_eq_ok takes_addPart h
  obtain ⟨elements, items, hparts, rfl, rfl, rfl⟩ := chain_addPart hchain
  exact ⟨elements, bytes, hparts, hframed, hpassed⟩

theorem length_of_untilEnd {before after : List α} {closing : CborReaderState}
    (h : untilEnd closing (addPart fromCbor) rounds before reader = .ok after reader') :
    after.length < before.length + rounds := by
  induction rounds generalizing before reader with
  | zero => cases h
  | succ rounds ih =>
    rw [untilEnd] at h
    obtain ⟨state, middle, _, hround⟩ := run_bind_eq_ok h
    split at hround
    · cases hround
      omega
    · obtain ⟨next, moved, hstep, hrest⟩ := run_bind_eq_ok hround
      obtain ⟨item, last, _, hadd⟩ := run_bind_eq_ok hstep
      cases hadd
      have hlength := ih hrest
      rw [List.length_append, List.length_singleton] at hlength
      omega

theorem readList_eq_ok {items : List α} (h : readList fromCbor rounds reader = .ok items reader') :
    ∃ elements declared bytes, List.Forall₂ (DecodesPart fromCbor) elements items ∧
      Framed 4 elements.length elements.flatten declared bytes ∧ elements.length < rounds ∧
      PassedItem reader bytes reader' := by
  obtain ⟨⟨declared, items'⟩, middle, hread, hpure⟩ := run_bind_eq_ok h
  cases hpure
  obtain ⟨elements, bytes, hparts, hframed, hpassed⟩ := readParts_eq_ok hread
  obtain ⟨_, entered, _, hread⟩ := run_bind_eq_ok hread
  obtain ⟨final, looped, hloop, hread⟩ := run_bind_eq_ok hread
  obtain ⟨_, left, _, hpure⟩ := run_bind_eq_ok hread
  cases hpure
  have hlength := length_of_untilEnd hloop
  rw [← hparts.length_eq, List.length_nil, Nat.zero_add] at hlength
  exact ⟨elements, declared, bytes, hparts, hframed, hlength, hpassed⟩

theorem readEntries_eq_ok {entries : List (α × α)}
    (h : readMap (insertParts fromCbor) rounds [] reader = .ok (declared, entries) reader') :
    ∃ encoded bytes, List.Forall₂ (DecodesParts fromCbor) encoded entries ∧
      Framed 5 encoded.length (entriesBytes encoded) declared bytes ∧
      PassedItem reader bytes reader' := by
  obtain ⟨count, content, bytes, hframed, hchain, _, hpassed⟩ := readMap_eq_ok takes_insertParts h
  obtain ⟨encoded, entries, hparts, hcount, rfl, rfl⟩ := chain_insertParts hchain
  obtain rfl : count = encoded.length := by omega
  exact ⟨encoded, bytes, hparts, hframed, hpassed⟩

end Parts

section Sequences

open Cbor.CborReader (getRemainingBytes_pass pass_pass)
open InformationTheory (UniquelyDecodable)

variable {data : Uint8Array} {items : List (List UInt8)}

def readSequence : ℕ → ReadM (List (List UInt8))
  | 0 => pure []
  | count + 1 => do
      let item ← readEncodedValue
      let items ← readSequence count
      pure (item :: items)

theorem readSequence_ok {read bytes : ℕ} (hitems : ∀ item ∈ items, DataItem item)
    (hbytes : ((CborReader.new data).pass read bytes).getRemainingBytes = items.flatten) :
    readSequence items.length ((CborReader.new data).pass read bytes) = .ok items
      ((CborReader.new data).pass (read + items.length) (bytes + items.flatten.length)) := by
  induction items generalizing read bytes with
  | nil => rfl
  | cons item items ih =>
    obtain ⟨hitem, hitems⟩ := List.forall_mem_cons.mp hitems
    rw [List.flatten_cons] at hbytes
    have hread := readEncodedValue_ok hitem hbytes fun _ _ => ⟨rfl, rfl⟩
    have hleft := congrArg (List.drop item.length) hbytes
    rw [← getRemainingBytes_pass, List.drop_left, pass_pass] at hleft
    rw [pass_pass] at hread
    rw [List.length_cons, readSequence, run_bind_ok hread, run_bind_ok (ih hitems hleft),
      List.flatten_cons, List.length_append, Nat.add_assoc, Nat.add_assoc, Nat.add_comm 1]
    rfl

theorem readSequence_eq_ok {count : ℕ} {reader reader' : CborReader}
    (hroot : reader.currentFrame.type = none)
    (h : readSequence count reader = .ok items reader') :
    items.length = count ∧ (∀ item ∈ items, DataItem item) ∧
      reader.getRemainingBytes = items.flatten ++ reader'.getRemainingBytes := by
  induction count generalizing reader items with
  | zero =>
    cases h
    exact ⟨rfl, nofun, rfl⟩
  | succ count ih =>
    obtain ⟨item, middle, hread, h⟩ := run_bind_eq_ok h
    obtain ⟨items, last, hrest, h⟩ := run_bind_eq_ok h
    cases h
    have hbreak : ¬AtByteStringBreak reader := by simp [AtByteStringBreak, hroot]
    obtain ⟨hitem, ⟨rest, hbytes⟩, -, rfl⟩ := readEncodedValue_eq_ok hbreak hread
    obtain ⟨hcount, hitems, hleft⟩ := @ih _ (reader.pass 1 item.length) hroot hrest
    rw [getRemainingBytes_pass, hbytes, List.drop_left] at hleft
    refine ⟨congrArg (· + 1) hcount, List.forall_mem_cons.mpr ⟨hitem, hitems⟩, ?_⟩
    rw [hbytes, hleft, List.flatten_cons, List.append_assoc]

/-- A root-level sequence of data items is read back item by item up to the end of the data;
what is read is such a sequence; and it is the only one of these bytes. -/
theorem root_sequence_reads (data : Uint8Array) :
    (∀ items : List (List UInt8), (∀ item ∈ items, DataItem item) → items.flatten = data.bytes →
      ∃ reader, readSequence items.length (CborReader.new data) = .ok items reader ∧
        peekState reader = .ok .finished (reader.cached .finished)) ∧
    (∀ count items reader, readSequence count (CborReader.new data) = .ok items reader →
      items.length = count ∧ (∀ item ∈ items, DataItem item) ∧
        data.bytes = items.flatten ++ reader.getRemainingBytes) ∧
    UniquelyDecodable {item : List UInt8 | DataItem item ∧ item.length < 2 ^ 53} := by
  refine ⟨fun items hitems hdata => ?_, fun count items reader => readSequence_eq_ok rfl, ?_⟩
  · have hread := @readSequence_ok data items 0 0 hitems hdata.symm
    rw [hdata, Nat.zero_add, Nat.zero_add] at hread
    exact ⟨_, hread, (finished_of_consumed data items.length).1⟩
  · apply uniquelyDecodable_of_prefixFree
    · exact fun hnil => absurd hnil.1.length_pos (Nat.lt_irrefl 0)
    · rintro item ⟨hitem, -⟩ _ ⟨hwhole, hlength⟩ ⟨rest, rfl⟩
      rw [dataItem_append_eq_nil hitem hwhole hlength, List.append_nil]

end Sequences

end CardanoSdk.Serialization
