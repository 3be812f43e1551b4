import CardanoSdk.Plutus.Leaves

/-!
Decoders that call a reader step by step, and rules for what they return on bytes that
were written for them.
-/

namespace CardanoSdk.Serialization

open Lib Cbor Plutus

variable {α β σ : Type} {reader : CborReader}

def checking (result : Except String α) : DecodeM α := decoding (result.mapError .error)

variable {bytes bytes' : List UInt8} {value : α} {items : ℕ} {b : β} {step : σ → DecodeM σ}
  {s s' : σ} {first : DecodeM β} {next : β → DecodeM α}

theorem checking_ok {result : Except String α} (h : result = .ok value) :
    checking result reader = .ok value reader := by
  subst h
  rfl

/-- `while (reader.peekState() !== closing) step`. Every round takes a byte,
which bounds the rounds. -/
def untilEnd (closing : CborReaderState) (step : σ → DecodeM σ) : ℕ → σ → DecodeM σ
  | 0, _ => throw .outOfFuel
  | rounds + 1, s => do
      let state ← reading peekState
      if state = closing then pure s
      else
        let s' ← step s
        untilEnd closing step rounds s'

def readFields (step : σ → DecodeM σ) (rounds : ℕ) (s : σ) : DecodeM σ := do
  let _ ← reading readStartMap
  let s' ← untilEnd .endMap step rounds s
  reading readEndMap
  pure s'

/-- Wherever the bytes stand next and an item is accepted, the action returns
the value and counts one item. -/
def ReadsItem (action : DecodeM α) (bytes : List UInt8) (value : α) : Prop :=
  ∀ (reader : CborReader) (rest : List UInt8), reader.getRemainingBytes = bytes ++ rest →
    (∀ first, reader.currentFrame.Accepts first) →
    action reader = .ok value (reader.pass 1 bytes.length)

variable {head : List UInt8} {state closing : CborReaderState} {rounds : ℕ}

theorem readsItem_integerHead {value : ℤ} (h : IntegerHead head value) :
    ReadsItem (reading readInt) head value := by
  intro reader rest hbytes haccepts
  cases h with
  | unsigned h => exact reading_ok (readInt_unsigned_ok h hbytes fun first _ => haccepts first)
  | negative h => exact reading_ok (readInt_negative_ok h hbytes fun first _ => haccepts first)

theorem readsItem_int {value : ℤ} (hlower : -(2 ^ 64) ≤ value) (hupper : value < 2 ^ 64) :
    ReadsItem (reading readInt) (encodeInt value) value :=
  readsItem_integerHead (integerHead_encodeInt hlower hupper)

theorem readsItem_uint {value : ℕ} (hvalue : value < 2 ^ 64) :
    ReadsItem (reading readUInt) (encodeInt value) value := by
  intro reader rest hbytes haccepts
  have hencode : encodeInt value = encodeHead .unsignedInteger value := by
    rw [encodeInt, if_neg (by omega), Int.toNat_natCast]
  rw [hencode] at hbytes ⊢
  exact reading_ok (readUInt_ok (head_encodeHead .unsignedInteger hvalue) hbytes
    (fun first _ => haccepts first))

theorem readsItem_byteString {value : List UInt8} (hlength : value.length < 2 ^ 64) :
    ReadsItem (reading readByteString) (encodeChunk value) value := by
  intro reader rest hbytes haccepts
  exact reading_ok (readString_ok .byteString (head_encodeHead .byteString hlength) hbytes
    (fun first _ => haccepts first))

theorem readsItem_text {value : String} (h : (utf8Encode value).length < 2 ^ 64) :
    ReadsItem (reading readTextString)
      (encodeHead .utf8String (utf8Encode value).length ++ utf8Encode value) value := by
  intro reader rest hbytes haccepts
  have hread := @readString_ok reader _ _ .utf8String _ (head_encodeHead .utf8String h) hbytes
    (fun first _ => haccepts first)
  have htext : readTextString reader = .ok (utf8Decode (utf8Encode value)) (reader.pass 1 _) :=
    run_bind_ok hread
  rw [utf8Decode_utf8Encode] at htext
  exact reading_ok htext

theorem readsItem_encodedValue {item : List UInt8} (hitem : DataItem item) :
    ReadsItem (reading readEncodedValue) item item := by
  intro reader rest hbytes haccepts
  exact reading_ok (readEncodedValue_ok hitem hbytes (fun first _ => haccepts first))

theorem ReadsItem.decodeWith {action : DecodeM α} {bytes : List UInt8} {value : α}
    (h : ReadsItem action bytes value) (hlength : bytes.length < 2 ^ 53) :
    Plutus.decodeWith bytes action = .ok value :=
  decodeWith_ok hlength fun reader hfresh => ⟨_, h reader [] hfresh.bytes hfresh.accepts⟩

theorem ReadsItem.map {action : DecodeM β} {next : β → DecodeM α} {bytes : List UInt8} {b : β}
    {value : α} (haction : ReadsItem action bytes b)
    (hnext : ∀ reader, next b reader = .ok value reader) :
    ReadsItem (action >>= next) bytes value := by
  intro reader rest hbytes haccepts
  rw [run_bind_ok (haction reader rest hbytes haccepts), hnext]

theorem readsItem_tagHead {next : ℕ → DecodeM α} {number : ℕ} (hhead : Head 6 number head)
    (hnext : ReadsItem (next (roundToDouble number)) bytes value) :
    ReadsItem (reading readTag >>= next) (head ++ bytes) value := by
  intro reader rest hbytes haccepts
  rw [List.append_assoc] at hbytes
  have hread := readTag_ok hhead hbytes (fun first _ => haccepts first)
  have hrest : (reader.tagged head.length).getRemainingBytes = bytes ++ rest := by
    rw [CborReader.getRemainingBytes_tagged, hbytes, List.drop_left]
  rw [run_bind_ok (reading_ok hread), hnext _ rest hrest haccepts, CborReader.tagged_pass,
    List.length_append]

theorem readsItem_tag {next : ℕ → DecodeM α} {tag : ℕ} {bytes : List UInt8} {value : α}
    (htag : tag < 2 ^ 53) (hnext : ReadsItem (next tag) bytes value) :
    ReadsItem (reading readTag >>= next) (encodeHead .tag tag ++ bytes) value := by
  rw [← roundToDouble_of_lt htag] at hnext
  exact readsItem_tagHead (head_encodeHead .tag (by omega)) hnext

/-- Wherever the bytes stand next and are accepted, this token is announced. -/
def Begins (bytes : List UInt8) (state : CborReaderState) : Prop :=
  ∀ (reader : CborReader) (rest : List UInt8), reader.getRemainingBytes = bytes ++ rest →
    (∀ first, reader.currentFrame.Accepts first) → peekStateCore reader = .ok state

/-- The token of a head of declared size. -/
def headToken : CborMajorType → CborReaderState
  | .unsignedInteger => .unsignedInteger
  | .negativeInteger => .negativeInteger
  | .byteString => .byteString
  | .utf8String => .textString
  | .array => .startArray
  | .map => .startMap
  | .tag => .tag
  | .simple => .simpleValue

theorem begins_head {type : CborMajorType} (htype : type ≠ .simple) {argument : ℕ}
    {head : List UInt8} (hhead : Head type.toNat argument head) (content : List UInt8) :
    Begins (head ++ content) (headToken type) := by
  intro reader rest hbytes haccepts
  rw [List.append_assoc] at hbytes
  obtain ⟨first, hmajor, hinfo, hpeek⟩ := peekStateCore_head type hhead hbytes haccepts
  rw [hpeek, peekItem, hmajor]
  cases type with
  | simple => exact absurd rfl htype
  | byteString => exact congrArg Except.ok (if_neg hinfo)
  | utf8String => exact congrArg Except.ok (if_neg hinfo)
  | unsignedInteger => rfl
  | negativeInteger => rfl
  | array => rfl
  | map => rfl
  | tag => rfl

theorem begins_encodeHead {type : CborMajorType} (htype : type ≠ .simple) {argument : ℕ}
    (hargument : argument < 2 ^ 64) (content : List UInt8) :
    Begins (encodeHead type argument ++ content) (headToken type) :=
  begins_head htype (head_encodeHead type hargument) content

theorem begins_indefinite {type : CborMajorType}
    (htype : type = .byteString ∨ type = .utf8String ∨ type = .array ∨ type = .map)
    (content : List UInt8) : Begins (initialByte type.toNat 31 :: content) type.opening := by
  intro reader rest hbytes haccepts
  exact (opens_indefinite htype hbytes (haccepts _)).1

theorem Begins.append (h : Begins bytes state) (rest : List UInt8) :
    Begins (bytes ++ rest) state := by
  intro reader rest' hbytes haccepts
  rw [List.append_assoc] at hbytes
  exact h reader _ hbytes haccepts

theorem decodeWith_peek {calls : CborReaderState → DecodeM α} (hbegins : Begins bytes state)
    (hlength : bytes.length < 2 ^ 53)
    (h : ∀ reader : CborReader, reader.getRemainingBytes = bytes ++ [] →
      (∀ first, reader.currentFrame.Accepts first) → Succeeds (calls state) reader value) :
    Plutus.decodeWith bytes (reading peekState >>= calls) = .ok value := by
  apply decodeWith_ok hlength
  intro reader hfresh
  have hpeek := hbegins reader [] hfresh.bytes hfresh.accepts
  apply Succeeds.read (peekState_ok hpeek (Or.inl hfresh.cachedState))
  exact h (reader.cached state) hfresh.bytes hfresh.accepts

/-- Inside a container that has room, the action reads so many items. -/
def Reads (action : DecodeM α) (items : ℕ) (bytes : List UInt8) (value : α) : Prop :=
  ∀ (reader : CborReader) (rest : List UInt8) (more : ℕ),
    reader.getRemainingBytes = bytes ++ rest → HasRoom reader (items + more) →
    action reader = .ok value (reader.pass items bytes.length)

theorem ReadsItem.reads {action : DecodeM α} (h : ReadsItem action bytes value) :
    Reads action 1 bytes value := by
  intro reader rest more hbytes hroom
  rw [Nat.add_comm] at hroom
  exact h reader rest hbytes hroom.accepts

theorem Reads.still {action : DecodeM α} (h : ∀ reader, action reader = .ok value reader) :
    Reads action 0 [] value := by
  intro reader rest more _ hroom
  rw [h, List.length_nil, hroom.fresh]

theorem Reads.pure (value : α) : Reads (pure value) 0 [] value := Reads.still fun _ => rfl

theorem Reads.bind {items' : ℕ} (hfirst : Reads first items bytes b)
    (hnext : Reads (next b) items' bytes' value) :
    Reads (first >>= next) (items + items') (bytes ++ bytes') value := by
  intro reader rest more hbytes hroom
  rw [List.append_assoc] at hbytes
  rw [Nat.add_assoc] at hroom
  have hrest : (reader.pass items bytes.length).getRemainingBytes = bytes' ++ rest := by
    rw [CborReader.getRemainingBytes_pass, hbytes, List.drop_left]
  rw [run_bind_ok (hfirst reader _ _ hbytes hroom), hnext _ rest more hrest (hroom.pass _),
    CborReader.pass_pass, List.length_append]

theorem Reads.map {first : DecodeM β} {next : β → DecodeM α} {items : ℕ} {bytes : List UInt8}
    {b : β} {value : α} (hfirst : Reads first items bytes b)
    (hnext : ∀ reader, next b reader = .ok value reader) :
    Reads (first >>= next) items bytes value := by
  intro reader rest more hbytes hroom
  rw [run_bind_ok (hfirst reader rest more hbytes hroom), hnext]

theorem ReadsItem.bind {first : DecodeM β} {next : β → DecodeM α} {items : ℕ}
    {bytes bytes' : List UInt8} {b : β} {value : α} (hfirst : ReadsItem first bytes b)
    (hnext : Reads (next b) items bytes' value) :
    Reads (first >>= next) (1 + items) (bytes ++ bytes') value :=
  hfirst.reads.bind hnext

theorem ReadsItem.last (hfirst : ReadsItem first bytes b)
    (hnext : ∀ reader, next b reader = .ok value reader) : Reads (first >>= next) 1 bytes value :=
  (hfirst.map hnext).reads

theorem Reads.decode {result : Except DecodeException β} (hresult : result = .ok b)
    (hnext : Reads (next b) items bytes value) :
    Reads (decoding result >>= next) items bytes value := by
  intro reader rest more hbytes hroom
  rw [run_bind_ok (decoding_ok hresult)]
  exact hnext reader rest more hbytes hroom

theorem reads_tag {next : ℕ → DecodeM α} {following : β → DecodeM α} {tag : ℕ}
    (htag : tag < 2 ^ 53) (hnext : next tag = first >>= following)
    (hfirst : ReadsItem first bytes b) (hfollowing : Reads (following b) items bytes' value) :
    Reads (reading readTag >>= next) (1 + items) (encodeHead .tag tag ++ (bytes ++ bytes')) value := by
  have hitem : ReadsItem (reading readTag >>= fun _ => first) (encodeHead .tag tag ++ bytes) b :=
    readsItem_tag htag hfirst
  have hreads := hitem.bind hfollowing
  rw [bind_assoc, List.append_assoc] at hreads
  intro reader rest more hbytes hroom
  rw [← hreads reader rest more hbytes hroom]
  rw [Nat.add_assoc, Nat.add_comm] at hroom
  rw [List.append_assoc] at hbytes
  obtain ⟨_, _, hread, _⟩ := readTag_encodeHead htag hbytes hroom.accepts
  rw [run_bind_ok (reading_ok hread), run_bind_ok (reading_ok hread), hnext]

structure ReadsRound (action : DecodeM α) (items : ℕ) (bytes : List UInt8) (value : α) : Prop where
  pos : 0 < items
  starts : ∃ first tail, bytes = first :: tail ∧ first ≠ indefiniteLengthBreakByte
  reads : ∀ (reader : CborReader) (rest : List UInt8) (more : ℕ) (state : CborReaderState),
    reader.getRemainingBytes = bytes ++ rest → HasRoom reader (items + more) →
    action (reader.cached state) = .ok value (reader.pass items bytes.length)

theorem readsRound (hitem : DataItem bytes) (hfirst : ReadsItem first bytes b)
    (hnext : Reads (next b) items bytes' value) :
    ReadsRound (first >>= next) (1 + items) (bytes ++ bytes') value where
  pos := by omega
  starts := by
    obtain ⟨byte, tail, rfl, hbreak⟩ := hitem.exists_cons
    exact ⟨byte, tail ++ bytes', rfl, hbreak⟩
  reads := by
    intro reader rest more state hbytes hroom
    rw [List.append_assoc] at hbytes
    rw [Nat.add_assoc] at hroom
    have hrest : (reader.pass 1 bytes.length).getRemainingBytes = bytes' ++ rest := by
      rw [CborReader.getRemainingBytes_pass, hbytes, List.drop_left]
    have haccepts : ∀ first, reader.currentFrame.Accepts first := by
      rw [Nat.add_comm] at hroom
      exact hroom.accepts
    rw [run_bind_ok (hfirst (reader.cached state) _ hbytes haccepts), CborReader.cached_pass,
      hnext _ rest more hrest (hroom.pass _), CborReader.pass_pass, List.length_append]

inductive Rounds (step : σ → DecodeM σ) : σ → ℕ → List UInt8 → σ → Prop
  | nil (s : σ) : Rounds step s 0 [] s
  | cons {s s' s'' : σ} {items more : ℕ} {bytes bytes' : List UInt8}
      (hround : ReadsRound (step s) items bytes s') (hrest : Rounds step s' more bytes' s'') :
      Rounds step s (items + more) (bytes ++ bytes') s''

theorem Rounds.single (h : ReadsRound (step s) items bytes s') : Rounds step s items bytes s' := by
  have hrounds := Rounds.cons h (Rounds.nil s')
  rwa [Nat.add_zero, List.append_nil] at hrounds

theorem Rounds.trans {s'' : σ} {more : ℕ} (hfirst : Rounds step s items bytes s')
    (hrest : Rounds step s' more bytes' s'') :
    Rounds step s (items + more) (bytes ++ bytes') s'' := by
  induction hfirst with
  | nil s => rwa [Nat.zero_add, List.nil_append]
  | cons hround _ ih =>
    rw [Nat.add_assoc, List.append_assoc]
    exact Rounds.cons hround (ih hrest)

theorem untilEnd_ok {rest : List UInt8} (hclosing : closing = .endArray ∨ closing = .endMap)
    (hrounds : Rounds step s items bytes s') (henough : items < rounds)
    (hbytes : reader.getRemainingBytes = bytes ++ rest) (hroom : HasRoom reader items)
    (hend : peekStateCore (reader.pass items bytes.length) = .ok closing) :
    untilEnd closing step rounds s reader =
      .ok s' ((reader.pass items bytes.length).cached closing) := by
  induction hrounds generalizing reader rounds with
  | nil s =>
    obtain ⟨rounds, rfl⟩ : ∃ n, rounds = n + 1 := ⟨rounds - 1, by omega⟩
    rw [List.length_nil, hroom.fresh] at hend ⊢
    rw [untilEnd, run_bind_ok (reading_ok (peekState_ok hend (Or.inl hroom.cachedState))),
      if_pos rfl]
    rfl
  | @cons s s' s'' items more bytes bytes' hround _ ih =>
    obtain ⟨first, tail, hcons, hbreak⟩ := hround.starts
    obtain ⟨rounds, rfl⟩ : ∃ n, rounds = n + 1 := ⟨rounds - 1, by omega⟩
    have hpos := hround.pos
    have haccepts : ∀ first, reader.currentFrame.Accepts first := by
      have hone : HasRoom reader (items - 1 + more + 1) := by
        rwa [show items - 1 + more + 1 = items + more by omega]
      exact hone.accepts
    rw [List.append_assoc] at hbytes
    have hfirst : reader.getRemainingBytes = first :: (tail ++ (bytes' ++ rest)) := by
      rw [hbytes, hcons, List.cons_append]
    have hpeek := peekStateCore_item hfirst hbreak (haccepts first)
    have hstate : peekItem first ≠ closing := by
      have hends := peekItem_ne_end first
      rcases hclosing with rfl | rfl
      · exact hends.1
      · exact hends.2
    have hrest : (reader.pass items bytes.length).getRemainingBytes = bytes' ++ rest := by
      rw [CborReader.getRemainingBytes_pass, hbytes, List.drop_left]
    rw [List.length_append] at hend ⊢
    rw [← CborReader.pass_pass] at hend ⊢
    rw [untilEnd, run_bind_ok (reading_ok (peekState_ok hpeek (Or.inl hroom.cachedState))),
      if_neg hstate, run_bind_ok (hround.reads reader _ more _ hbytes hroom)]
    exact ih (by omega) hrest (hroom.pass _) hend

theorem untilEnd_returns {P : σ → Prop} (hstep : ∀ s, P s → Returns (step s) P) (rounds : ℕ)
    (hs : P s) : Returns (untilEnd closing step rounds s) P := by
  induction rounds generalizing s with
  | zero => exact Returns.throw
  | succ rounds ih =>
    rw [untilEnd]
    refine Returns.read fun state => ?_
    split
    · exact Returns.pure hs
    · exact Returns.bind (hstep s hs) fun s' hs' => ih hs'

theorem readsItem_fields {count : ℕ} (hrounds : Rounds step s (2 * count) bytes s')
    (hcount : 2 * count ≤ bytes.length) (henough : bytes.length < rounds) :
    ReadsItem (readFields step rounds s) (encodeHead .map count ++ bytes) s' := by
  intro reader rest hbytes haccepts
  have hlt := reader.getRemainingBytes_lt
  rw [hbytes, List.length_append, List.length_append] at hlt
  have hframed : Framed 5 count bytes _ (encodeHead .map count ++ bytes) :=
    Framed.definite (head_encodeHead .map (by omega))
  obtain ⟨entered, hvisits⟩ := framed_visited .map hframed hcount hbytes haccepts
  obtain ⟨tail, hinner⟩ := hvisits.inner
  have hloop := untilEnd_ok (Or.inr rfl) hrounds (hcount.trans_lt henough) hinner hvisits.room
    hvisits.closes
  rw [readFields, run_bind_ok (reading_ok hvisits.enters), run_bind_ok hloop,
    run_bind_ok (reading_ok (hvisits.finish _))]
  rfl

section Unclosed

variable {body : Option ℕ → DecodeM α} {count items : ℕ} {bytes rest : List UInt8} {value : α}

theorem succeeds_enterArray (hcount : count < 2 ^ 53)
    (hbytes : reader.getRemainingBytes = encodeHead .array count ++ bytes ++ rest)
    (haccepts : ∀ first, reader.currentFrame.Accepts first)
    (hbody : ∀ inner, inner.getRemainingBytes = bytes ++ rest → HasRoom inner count →
      Succeeds (body (some count)) inner value) :
    Succeeds (reading readStartArray >>= body) reader value := by
  rw [List.append_assoc] at hbytes
  have hhead := head_encodeHead .array (show count < 2 ^ 64 by omega)
  have hstart := readStartArray_ok hhead hbytes (fun first _ => haccepts first)
  rw [roundToDouble_of_lt hcount] at hstart
  apply Succeeds.read hstart
  apply hbody
  · rw [CborReader.getRemainingBytes_enter, hbytes, List.drop_left]
  · exact hasRoom_enter (Or.inl rfl) _ _ (Or.inr rfl)

theorem succeeds_array (hcount : count < 2 ^ 53)
    (hbytes : reader.getRemainingBytes = encodeHead .array count ++ bytes ++ rest)
    (haccepts : ∀ first, reader.currentFrame.Accepts first)
    (hbody : Reads (body (some count)) count bytes value) :
    Succeeds (reading readStartArray >>= body) reader value :=
  succeeds_enterArray hcount hbytes haccepts fun inner hinner hroom =>
    ⟨_, hbody inner rest 0 hinner hroom⟩

theorem decodeWith_array (hcount : count < 2 ^ 53)
    (hlength : (encodeHead .array count ++ bytes).length < 2 ^ 53)
    (hbody : Reads (body (some count)) count bytes value) :
    Plutus.decodeWith (encodeHead .array count ++ bytes) (reading readStartArray >>= body) =
      .ok value :=
  decodeWith_ok hlength fun _ hfresh =>
    succeeds_array hcount hfresh.bytes hfresh.accepts hbody

end Unclosed

end CardanoSdk.Serialization
