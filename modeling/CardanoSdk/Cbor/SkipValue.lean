import CardanoSdk.Cbor.ReaderInvariant

/-!
The loop of `readEncodedValue` and `skipValue` moves past every well-formed
data item that the current frame accepts, by induction on the grammar.
-/

namespace CardanoSdk.Cbor

open Lib

variable {reader reader' : CborReader}

variable {rest item head content : List UInt8} {items number major info : ℕ} {type : CborMajorType}
  {state : CborReaderState}

theorem length_getRemainingBytes_tagged (hhead : Head 6 number head)
    (hbytes : reader.getRemainingBytes = head ++ rest) :
    (reader.tagged head.length).getRemainingBytes = rest ∧
      (reader.tagged head.length).getRemainingBytes.length < reader.getRemainingBytes.length := by
  have hpos := hhead.length_pos
  have hrest : (reader.tagged head.length).getRemainingBytes = rest := by
    rw [CborReader.getRemainingBytes_tagged, hbytes, List.drop_left]
  refine ⟨hrest, ?_⟩
  rw [hrest, hbytes, List.length_append]
  omega

theorem skipTags_done (hcore : peekStateCore reader = .ok state) (htag : state ≠ .tag)
    (rounds : ℕ) : skipTags (rounds + 1) reader = .ok state reader := by
  rw [skipTags, run_bind_ok (peeking_ok hcore), if_neg htag]
  rfl

variable {tag value argument : ℕ} {definiteLength : Option ℕ} {frame : StackFrame}
  {chunks : List UInt8}

theorem skipTags_tag (hcore : peekStateCore reader = .ok .tag)
    (hread : readTag reader = .ok tag reader') (rounds : ℕ) :
    skipTags (rounds + 1) reader = skipTags rounds reader' := by
  rw [skipTags, run_bind_ok (peeking_ok hcore), if_pos rfl, run_bind_ok hread]

theorem skipTags_rounds {rounds rounds' : ℕ} (h : reader.getRemainingBytes.length < rounds)
    (h' : reader.getRemainingBytes.length < rounds') :
    skipTags rounds reader = skipTags rounds' reader := by
  induction rounds generalizing reader rounds' with
  | zero => omega
  | succ rounds ih =>
    obtain ⟨rounds', rfl⟩ : ∃ n, rounds' = n + 1 := ⟨rounds' - 1, by omega⟩
    cases hcore : peekStateCore reader with
    | error exception =>
      rw [skipTags, skipTags, run_bind_error (peeking_error hcore),
        run_bind_error (peeking_error hcore)]
    | ok state =>
      by_cases htag : state = .tag
      · subst htag
        cases hread : readTag reader with
        | error exception reader' =>
          rw [skipTags, skipTags, run_bind_ok (peeking_ok hcore),
            run_bind_ok (peeking_ok hcore), if_pos rfl, if_pos rfl, run_bind_error hread,
            run_bind_error hread]
        | ok tag reader' =>
          obtain ⟨number, head, rest, hhead, hbytes, _, rfl⟩ := readTag_eq_ok hread
          have hlt := (length_getRemainingBytes_tagged hhead hbytes).2
          rw [skipTags_tag hcore hread, skipTags_tag hcore hread]
          exact ih (by omega) (by omega)
      · rw [skipTags_done hcore htag, skipTags_done hcore htag]

/-- The state after a round: the loop goes on below depth zero only. -/
def continueAt (rounds : ℕ) (depth : ℤ) (reader : CborReader) :
    EStateM.Result CborException CborReader Unit :=
  if depth > 0 then skipNodes rounds depth reader else .ok () reader

theorem skipNodes_round {depth depth' : ℤ} (hcore : peekStateCore reader = .ok state)
    (htag : state ≠ .tag) (htoken : skipToken depth state reader = .ok depth' reader')
    (rounds : ℕ) : skipNodes (rounds + 1) depth reader = continueAt rounds depth' reader' := by
  have hnode : skipNextNode depth reader = .ok depth' reader' := by
    change (skipTags _ >>= skipToken depth) reader = _
    rw [run_bind_ok (skipTags_done hcore htag _)]
    exact htoken
  rw [skipNodes, run_bind_ok hnode, continueAt]
  split <;> rfl

theorem skipNodes_tag (hcore : peekStateCore reader = .ok .tag)
    (hread : readTag reader = .ok tag reader') (rounds : ℕ) (depth : ℤ) :
    skipNodes (rounds + 1) depth reader = skipNodes (rounds + 1) depth reader' := by
  obtain ⟨number, head, rest, hhead, hbytes, _, rfl⟩ := readTag_eq_ok hread
  have hlt := (length_getRemainingBytes_tagged hhead hbytes).2
  have hnode : skipNextNode depth reader = skipNextNode depth (reader.tagged head.length) := by
    change (skipTags _ >>= skipToken depth) reader = (skipTags _ >>= skipToken depth) _
    have htags : skipTags (reader.getRemainingBytes.length + 1) reader =
        skipTags ((reader.tagged head.length).getRemainingBytes.length + 1)
          (reader.tagged head.length) := by
      rw [skipTags_tag hcore hread]
      exact skipTags_rounds hlt (by omega)
    change EStateM.bind _ _ _ = EStateM.bind _ _ _
    rw [EStateM.bind, EStateM.bind, htags]
  change EStateM.bind (skipNextNode depth) _ _ = EStateM.bind (skipNextNode depth) _ _
  rw [EStateM.bind, EStateM.bind, hnode]

/-- So many rounds of the loop move the reader past one item. -/
def Skips (reader : CborReader) (item : List UInt8) : Prop :=
  ∃ rounds ≤ 2 * item.length, 0 < rounds ∧ ∀ more (depth : ℤ), 0 ≤ depth →
    skipNodes (rounds + more) depth reader = continueAt more depth (reader.pass 1 item.length)

theorem skips_of_token {first : UInt8} (hbytes : reader.getRemainingBytes = item ++ rest)
    (hfirst : item.head? = some first) (hbreak : first ≠ indefiniteLengthBreakByte)
    (haccepts : reader.currentFrame.Accepts first) (hstate : peekItem first = state)
    (htag : state ≠ .tag)
    (htoken : ∀ depth, skipToken depth state reader = .ok depth (reader.pass 1 item.length)) :
    Skips reader item := by
  obtain ⟨tail, rfl⟩ : ∃ tail, item = first :: tail :=
    ⟨item.tail, (List.cons_head?_tail hfirst).symm⟩
  have hcore : peekStateCore reader = .ok state := by
    rw [← hstate]
    exact peekStateCore_item hbytes hbreak haccepts
  refine ⟨1, by simp; omega, by omega, fun more depth _ => ?_⟩
  rw [Nat.add_comm]
  exact skipNodes_round hcore htag (htoken depth) more

theorem skips_integer {type : CborMajorType} {argument : ℕ} {head rest : List UInt8}
    (htype : type = .unsignedInteger ∨ type = .negativeInteger)
    (hhead : Head type.toNat argument head) (hbytes : reader.getRemainingBytes = head ++ rest)
    (haccepts : ∀ first ∈ head.head?, reader.currentFrame.Accepts first) : Skips reader head := by
  obtain ⟨first, payload, hcons, hmajor, _, hbreak, _⟩ := head_first hhead
  have hfirst : head.head? = some first := by rw [hcons, List.head?_cons]
  have hitem : peekItem first =
      if type = .unsignedInteger then .unsignedInteger else .negativeInteger := by
    unfold peekItem
    rcases htype with rfl | rfl <;> rw [hmajor] <;> rfl
  apply skips_of_token hbytes hfirst hbreak (haccepts first hfirst) hitem
  · split <;> decide
  · intro depth
    rcases htype with rfl | rfl
    · exact run_bind_ok (readUInt_ok hhead hbytes haccepts)
    · exact run_bind_ok (readCborNegativeIntegerRepresentation_ok hhead hbytes haccepts)

theorem skips_string {type : CborMajorType} {item rest : List UInt8}
    (htype : type = .byteString ∨ type = .utf8String) (hitem : StringItem type.toNat item)
    (hbytes : reader.getRemainingBytes = item ++ rest)
    (haccepts : ∀ first ∈ item.head?, reader.currentFrame.Accepts first) : Skips reader item := by
  cases hitem with
  | @mk length head payload hhead hlength =>
    subst hlength
    obtain ⟨first, tail, hcons, hmajor, hinfo, hbreak, _⟩ := head_first hhead
    have hfirst : (head ++ payload).head? = some first := by rw [hcons]; rfl
    have hheadFirst : ∀ first ∈ head.head?, reader.currentFrame.Accepts first := by
      intro first' hfirst'
      rw [hcons, List.head?_cons] at hfirst'
      cases hfirst'
      exact haccepts first hfirst
    have hstate : peekItem first = if type = .byteString then .byteString else .textString := by
      unfold peekItem
      rcases htype with rfl | rfl <;> rw [hmajor] <;> simp [hinfo]
    apply skips_of_token hbytes hfirst hbreak (haccepts first hfirst) hstate
    · split <;> decide
    · intro depth
      have hread := readString_ok type hhead hbytes hheadFirst
      rcases htype with rfl | rfl
      · exact run_bind_ok hread
      · have htext : readTextString reader =
            .ok (utf8Decode payload) (reader.pass 1 (head ++ payload).length) :=
          run_bind_ok hread
        exact run_bind_ok htext

theorem peekItem_simple (hinfo : info < 32) :
    peekItem (initialByte 7 info) = mapSimpleValueDataToReaderState info := by
  have htype : getMajorType (initialByte 7 info) = .simple := getMajorType_initialByte .simple hinfo
  have hvalue : getAdditionalInfo (initialByte 7 info) = info :=
    getAdditionalInfo_initialByte .simple hinfo
  unfold peekItem
  rw [htype, hvalue]

theorem skipToken_simple {bytes : ℕ} (hinfo : info < 25)
    (hread : readSimpleValue reader = .ok value (reader.pass 1 bytes)) (depth : ℤ) :
    skipToken depth (mapSimpleValueDataToReaderState info) reader =
      .ok depth (reader.pass 1 bytes) := by
  have hstate : mapSimpleValueDataToReaderState info = .null ∨
      mapSimpleValueDataToReaderState info = .boolean ∨
      mapSimpleValueDataToReaderState info = .simpleValue := by
    unfold mapSimpleValueDataToReaderState additional16BitData additional32BitData
      additional64BitData
    split
    · exact Or.inl rfl
    · split
      · exact Or.inr (Or.inl rfl)
      · rw [if_neg (by omega), if_neg (by omega), if_neg (by omega)]
        exact Or.inr (Or.inr rfl)
  rcases hstate with h | h | h <;> rw [h] <;> exact run_bind_ok hread

theorem mapSimpleValueDataToReaderState_ne_tag (info : ℕ) :
    mapSimpleValueDataToReaderState info ≠ .tag := by
  unfold mapSimpleValueDataToReaderState
  repeat' split
  all_goals decide

theorem skips_simple (hvalue : value < 24)
    (hbytes : reader.getRemainingBytes = [initialByte 7 value] ++ rest)
    (haccepts : reader.currentFrame.Accepts (initialByte 7 value)) :
    Skips reader [initialByte 7 value] := by
  apply skips_of_token hbytes rfl (initialByte_ne_break .simple (by omega)) haccepts
    (peekItem_simple (by omega)) (mapSimpleValueDataToReaderState_ne_tag value)
  exact skipToken_simple (by omega) (readSimpleValue_ok hvalue hbytes haccepts)

theorem skips_simpleByte {value : UInt8}
    (hbytes : reader.getRemainingBytes = [initialByte 7 24, value] ++ rest)
    (haccepts : reader.currentFrame.Accepts (initialByte 7 24)) :
    Skips reader [initialByte 7 24, value] := by
  obtain ⟨number, hread⟩ := readSimpleValue_byte_ok hbytes haccepts
  apply skips_of_token hbytes rfl (initialByte_ne_break .simple (by omega)) haccepts
    (peekItem_simple (by omega)) (mapSimpleValueDataToReaderState_ne_tag 24)
  exact skipToken_simple (by omega) hread

theorem skips_float {width : ℕ} {bits : List UInt8} (hwidth : ArgumentWidth info width)
    (hinfo : info ≠ 24) (hlength : bits.length = width)
    (hbytes : reader.getRemainingBytes = (initialByte 7 info :: bits) ++ rest)
    (haccepts : reader.currentFrame.Accepts (initialByte 7 info)) :
    Skips reader (initialByte 7 info :: bits) := by
  have hbounds := hwidth.bounds
  have hread := readDouble_ok hwidth hinfo hlength hbytes haccepts
  apply skips_of_token hbytes rfl (initialByte_ne_break .simple (by omega)) haccepts
    (peekItem_simple (by omega)) (mapSimpleValueDataToReaderState_ne_tag info)
  intro depth
  rw [List.length_cons, hlength]
  cases hwidth with
  | one => exact absurd rfl hinfo
  | two => exact run_bind_ok hread
  | four => exact run_bind_ok hread
  | eight => exact run_bind_ok hread

theorem accepts_after_tag (hhead : Head 6 number head)
    (haccepts : ∀ first ∈ head.head?, reader.currentFrame.Accepts first) (next : UInt8) :
    reader.currentFrame.Accepts next := by
  obtain ⟨first, payload, rfl, hmajor, _, hbreak, _⟩ := @head_first .tag _ _ hhead
  have htag := haccepts first rfl
  refine ⟨htag.room, ?_⟩
  have hallowed := htag.allowed
  unfold StackFrame.refuses StackFrame.refuses.isForeign at hallowed ⊢
  split <;> simp_all

theorem skips_tag (hhead : Head 6 number head)
    (hbytes : reader.getRemainingBytes = head ++ (item ++ rest))
    (haccepts : ∀ first ∈ head.head?, reader.currentFrame.Accepts first)
    (hitem : Skips (reader.tagged head.length) item) : Skips reader (head ++ item) := by
  obtain ⟨rounds, hbound, hpos, hskip⟩ := hitem
  obtain ⟨first, payload, hcons, hmajor, _, hbreak, _⟩ := @head_first .tag _ _ hhead
  have hstate : peekItem first = .tag := by
    unfold peekItem
    rw [hmajor]
  have hcore : peekStateCore reader = .ok .tag := by
    rw [← hstate]
    rw [hcons, List.cons_append] at hbytes
    exact peekStateCore_item hbytes hbreak (haccepts first (by rw [hcons]; rfl))
  have hread := readTag_ok hhead hbytes haccepts
  refine ⟨rounds, ?_, hpos, fun more depth hdepth => ?_⟩
  · rw [List.length_append]
    omega
  · obtain ⟨rounds, rfl⟩ : ∃ n, rounds = n + 1 := ⟨rounds - 1, by omega⟩
    have hsucc : rounds + 1 + more = rounds + more + 1 := by omega
    have htagged := hskip more depth hdepth
    rw [hsucc] at htagged ⊢
    rw [skipNodes_tag hcore hread, htagged, CborReader.tagged_pass, List.length_append]

/-- So many rounds of the loop move the reader past a number of items, inside
a frame that the loop has opened. -/
def SkipsAll (reader : CborReader) (items : ℕ) (content : List UInt8) : Prop :=
  ∃ rounds ≤ 2 * content.length, ∀ more (depth : ℤ), 0 < depth →
    skipNodes (rounds + more) depth reader =
      skipNodes more depth (reader.pass items content.length)

theorem skipsAll_nil (hfresh : reader.pass 0 0 = reader) : SkipsAll reader 0 [] := by
  refine ⟨0, by simp, fun more depth _ => ?_⟩
  rw [Nat.zero_add, List.length_nil, hfresh]

theorem skipsAll_cons (hitem : Skips reader item)
    (hrest : SkipsAll (reader.pass 1 item.length) items content) :
    SkipsAll reader (items + 1) (item ++ content) := by
  obtain ⟨rounds, hbound, _, hskip⟩ := hitem
  obtain ⟨rounds', hbound', hskipRest⟩ := hrest
  refine ⟨rounds + rounds', ?_, fun more depth hdepth => ?_⟩
  · rw [List.length_append]
    omega
  · rw [Nat.add_assoc, hskip (rounds' + more) depth hdepth.le, continueAt, if_pos hdepth,
      hskipRest more depth hdepth, CborReader.pass_pass, List.length_append, Nat.add_comm 1 items]

theorem skips_frame {opening closing : CborReaderState} {header footer : ℕ}
    (hopen : peekStateCore reader = .ok opening) (hopening : opening ≠ .tag)
    (hstart : ∀ depth, skipToken depth opening reader =
      .ok (depth + 1) (reader.enter header type definiteLength))
    (hcontent : SkipsAll (reader.enter header type definiteLength) items content)
    (hclose : peekStateCore ((reader.enter header type definiteLength).pass items content.length) =
      .ok closing) (hclosing : closing ≠ .tag)
    (hend : ∀ depth : ℤ, 0 < depth →
      skipToken depth closing ((reader.enter header type definiteLength).pass items content.length) =
        .ok (depth - 1) (((reader.enter header type definiteLength).pass items
          content.length).leave footer reader.currentFrame reader.nestedItems))
    (hpos : 0 < header) (hlength : item.length = header + content.length + footer) :
    Skips reader item := by
  obtain ⟨rounds, hbound, hskip⟩ := hcontent
  refine ⟨rounds + 2, by omega, by omega, fun more depth hdepth => ?_⟩
  have hrounds : rounds + 2 + more = rounds + (more + 1) + 1 := by omega
  rw [hrounds, skipNodes_round hopen hopening (hstart depth), continueAt, if_pos (by omega),
    hskip (more + 1) (depth + 1) (by omega),
    skipNodes_round hclose hclosing (hend (depth + 1) (by omega)), add_sub_cancel_right,
    CborReader.enter_pass_leave, hlength]

/-- A plain frame, in which every kind of item may stand. -/
def StackFrame.IsContainer (frame : StackFrame) : Prop :=
  frame.type = some .array ∨ frame.type = some .map

theorem accepts_of_isContainer (htype : frame.IsContainer) (hroom : frame.isComplete = false)
    (first : UInt8) : frame.Accepts first := by
  refine ⟨hroom, ?_⟩
  unfold StackFrame.refuses
  rcases htype with h | h <;> rw [h]

theorem isComplete_eq_false
    (h : ∀ total, frame.definiteLength = some total → frame.itemsRead < total) :
    frame.isComplete = false := by
  unfold StackFrame.isComplete
  cases hlength : frame.definiteLength with
  | none => rfl
  | some total =>
    have hlt := h total hlength
    simp
    omega

/-- The reader looks at the next item of an array or a map that has room for
so many more. -/
structure HasRoom (reader : CborReader) (items : ℕ) : Prop where
  frame : reader.currentFrame.IsContainer
  room : ∀ total, reader.currentFrame.definiteLength = some total →
    reader.currentFrame.itemsRead + items ≤ total
  fresh : reader.pass 0 0 = reader

theorem HasRoom.accepts (h : HasRoom reader (items + 1)) (first : UInt8) :
    reader.currentFrame.Accepts first := by
  apply accepts_of_isContainer h.frame
  apply isComplete_eq_false
  intro total htotal
  have hle := h.room total htotal
  omega

theorem HasRoom.next (h : HasRoom reader (items + 1)) (bytes : ℕ) :
    HasRoom (reader.pass 1 bytes) items where
  frame := h.frame
  room := by
    intro total htotal
    have hle := h.room total htotal
    change reader.currentFrame.itemsRead + 1 + items ≤ total
    omega
  fresh := CborReader.pass_pass _ _ _ _ _

theorem HasRoom.pass {items more : ℕ} (h : HasRoom reader (items + more)) (bytes : ℕ) :
    HasRoom (reader.pass items bytes) more where
  frame := h.frame
  room := by
    intro total htotal
    have hle := h.room total htotal
    change reader.currentFrame.itemsRead + items + more ≤ total
    omega
  fresh := CborReader.pass_pass _ _ _ _ _

theorem HasRoom.cachedState {items : ℕ} (h : HasRoom reader items) :
    reader.cachedState = .undefined :=
  congrArg CborReader.cachedState h.fresh.symm

theorem hasRoom_enter (htype : type = .array ∨ type = .map) (header items : ℕ)
    (hlength : definiteLength = none ∨ definiteLength = some items) :
    HasRoom (reader.enter header type definiteLength) items where
  frame := htype.imp (congrArg some) (congrArg some)
  room := by
    intro total htotal
    rcases hlength with rfl | rfl
    · cases htotal
    · cases htotal
      change 0 + items ≤ items
      omega
  fresh := rfl

def CborMajorType.opening : CborMajorType → CborReaderState
  | .byteString => .startIndefiniteLengthByteString
  | .utf8String => .startIndefiniteLengthTextString
  | .array => .startArray
  | .map => .startMap
  | _ => .undefined

def CborMajorType.closing : CborMajorType → CborReaderState
  | .byteString => .endIndefiniteLengthByteString
  | .utf8String => .endIndefiniteLengthTextString
  | .array => .endArray
  | .map => .endMap
  | _ => .undefined

theorem CborMajorType.opening_ne_tag (type : CborMajorType) : type.opening ≠ .tag := by
  cases type <;> decide

theorem CborMajorType.closing_ne_tag (type : CborMajorType) : type.closing ≠ .tag := by
  cases type <;> decide

section Closing

variable {type : CborMajorType} {frame : StackFrame} {nestedItems : List StackFrame}
  {rest : List UInt8}

theorem AtEnd.closes (h : AtEnd reader type frame nestedItems)
    (htype : type = .array ∨ type = .map) :
    peekStateCore reader = .ok type.closing ∧ ∀ depth : ℤ, 0 < depth →
      skipToken depth type.closing reader =
        .ok (depth - 1) (reader.leave 0 frame nestedItems) := by
  rcases htype with rfl | rfl
  · refine ⟨peekStateCore_end h (Or.inl rfl), fun depth hdepth => ?_⟩
    simp only [CborMajorType.closing, skipToken, if_neg hdepth.ne']
    exact run_bind_ok h.readEndArray
  · refine ⟨peekStateCore_end h (Or.inr rfl), fun depth hdepth => ?_⟩
    simp only [CborMajorType.closing, skipToken, if_neg hdepth.ne']
    exact run_bind_ok h.readEndMap

theorem AtBreak.closes (h : AtBreak reader type frame nestedItems rest)
    (htype : type = .byteString ∨ type = .utf8String ∨ type = .array ∨ type = .map)
    (heven : type = .map → reader.currentFrame.itemsRead % 2 = 0) :
    peekStateCore reader = .ok type.closing ∧ ∀ depth : ℤ, 0 < depth →
      skipToken depth type.closing reader =
        .ok (depth - 1) (reader.leave 1 frame nestedItems) := by
  have hcore : peekStateCore reader = .ok type.closing := by
    rw [peekStateCore_break h, peekBreak, h.untagged, h.indefinite, h.type]
    rcases htype with rfl | rfl | rfl | rfl
    · rfl
    · rfl
    · rfl
    · simp [heven rfl, CborMajorType.closing]
  refine ⟨hcore, fun depth hdepth => ?_⟩
  rcases htype with rfl | rfl | rfl | rfl
  · exact run_bind_ok h.readEndIndefiniteLengthString
  · simp only [CborMajorType.closing, skipToken, if_neg hdepth.ne']
    exact run_bind_ok h.readEndIndefiniteLengthString
  · simp only [CborMajorType.closing, skipToken, if_neg hdepth.ne']
    exact run_bind_ok h.readEndArray
  · simp only [CborMajorType.closing, skipToken, if_neg hdepth.ne']
    exact run_bind_ok (h.readEndMap (heven rfl))

end Closing

theorem skips_definite {header : List UInt8} (htype : type = .array ∨ type = .map)
    (hopen : peekStateCore reader = .ok type.opening)
    (hstart : ∀ depth, skipToken depth type.opening reader =
      .ok (depth + 1) (reader.enter header.length type (some items))) (hpos : 0 < header.length)
    (hcontent : SkipsAll (reader.enter header.length type (some items)) items content) :
    Skips reader (header ++ content) := by
  have hend : AtEnd ((reader.enter header.length type (some items)).pass items content.length)
      type reader.currentFrame reader.nestedItems :=
    ⟨rfl, by simp [CborReader.enter, CborReader.pass], rfl, rfl⟩
  obtain ⟨hclose, hleave⟩ := hend.closes htype
  exact skips_frame hopen type.opening_ne_tag hstart hcontent hclose type.closing_ne_tag hleave
    hpos (by rw [List.length_append, Nat.add_zero])

theorem skips_indefinite
    (htype : type = .byteString ∨ type = .utf8String ∨ type = .array ∨ type = .map)
    (heven : type = .map → items % 2 = 0)
    (hbytes : reader.getRemainingBytes =
      initialByte type.toNat 31 :: (content ++ [breakByte]) ++ rest)
    (hopen : peekStateCore reader = .ok type.opening)
    (hstart : ∀ depth, skipToken depth type.opening reader =
      .ok (depth + 1) (reader.enter 1 type none))
    (hcontent : SkipsAll (reader.enter 1 type none) items content) :
    Skips reader (initialByte type.toNat 31 :: (content ++ [breakByte])) := by
  have hbreak : AtBreak ((reader.enter 1 type none).pass items content.length) type
      reader.currentFrame reader.nestedItems rest := by
    refine ⟨?_, rfl, rfl, rfl, rfl⟩
    rw [CborReader.getRemainingBytes_pass, CborReader.getRemainingBytes_enter, hbytes]
    simp [breakByte, indefiniteLengthBreakByte]
  have heven' : type = .map →
      ((reader.enter 1 type none).pass items content.length).currentFrame.itemsRead % 2 = 0 := by
    simpa [CborReader.enter, CborReader.pass] using heven
  obtain ⟨hclose, hleave⟩ := hbreak.closes htype heven'
  exact skips_frame hopen type.opening_ne_tag hstart hcontent hclose type.closing_ne_tag hleave
    Nat.one_pos (by simp; omega)

theorem opens_indefinite {type : CborMajorType} {tail : List UInt8}
    (htype : type = .byteString ∨ type = .utf8String ∨ type = .array ∨ type = .map)
    (hbytes : reader.getRemainingBytes = initialByte type.toNat 31 :: tail)
    (haccepts : reader.currentFrame.Accepts (initialByte type.toNat 31)) :
    peekStateCore reader = .ok type.opening ∧ ∀ depth, skipToken depth type.opening reader =
      .ok (depth + 1) (reader.enter 1 type none) := by
  have hbreak : initialByte type.toNat 31 ≠ indefiniteLengthBreakByte := by
    rcases htype with rfl | rfl | rfl | rfl <;> decide
  have hitem : peekItem (initialByte type.toNat 31) = type.opening := by
    rcases htype with rfl | rfl | rfl | rfl <;> decide
  refine ⟨?_, fun depth => ?_⟩
  · rw [← hitem]
    exact peekStateCore_item hbytes hbreak haccepts
  · rcases htype with rfl | rfl | rfl | rfl
    · exact run_bind_ok (readStartIndefiniteLengthString_ok (by decide) hbytes haccepts)
    · exact run_bind_ok (readStartIndefiniteLengthString_ok (by decide) hbytes haccepts)
    · exact run_bind_ok (readStartArray_indefinite_ok hbytes haccepts)
    · exact run_bind_ok (readStartMap_indefinite_ok hbytes haccepts)

theorem opens_definite {type : CborMajorType} {length items : ℕ} {head tail : List UInt8}
    (htype : type = .array ∧ items = length ∨ type = .map ∧ items = 2 * length)
    (hhead : Head type.toNat length head) (hbytes : reader.getRemainingBytes = head ++ tail)
    (henough : items ≤ tail.length)
    (haccepts : ∀ first ∈ head.head?, reader.currentFrame.Accepts first) :
    peekStateCore reader = .ok type.opening ∧ ∀ depth, skipToken depth type.opening reader =
      .ok (depth + 1) (reader.enter head.length type (some items)) := by
  obtain ⟨first, payload, hcons, hmajor, _, hbreak, _⟩ := head_first hhead
  have hlt := reader.getRemainingBytes_lt
  rw [hbytes, List.length_append] at hlt
  have hitem : peekItem first = type.opening := by
    unfold peekItem
    rcases htype with ⟨rfl, _⟩ | ⟨rfl, _⟩ <;> rw [hmajor] <;> rfl
  refine ⟨?_, fun depth => ?_⟩
  · rw [← hitem]
    have hsplit : reader.getRemainingBytes = first :: (payload ++ tail) := by
      rw [hbytes, hcons, List.cons_append]
    exact peekStateCore_item hsplit hbreak (haccepts first (by rw [hcons]; rfl))
  · rcases htype with ⟨rfl, rfl⟩ | ⟨rfl, rfl⟩
    · have hstart := readStartArray_ok hhead hbytes haccepts
      rw [roundToDouble_of_lt (by omega)] at hstart
      exact run_bind_ok hstart
    · exact run_bind_ok (readStartMap_ok hhead hbytes henough haccepts)

theorem head?_append_of_head (hhead : Head major argument head) (tail : List UInt8) :
    (head ++ tail).head? = head.head? := by
  obtain ⟨info, payload, _, rfl⟩ := hhead.exists_cons
  rfl

theorem skipsAll_chunks (htype : type = .byteString ∨ type = .utf8String)
    (hchunks : Chunks type.toNat chunks) (hbytes : reader.getRemainingBytes = chunks ++ rest)
    (hframe : reader.currentFrame.type = some type)
    (hindefinite : reader.currentFrame.definiteLength = none) (hfresh : reader.pass 0 0 = reader) :
    ∃ items, SkipsAll reader items chunks := by
  induction hchunks generalizing reader with
  | nil => exact ⟨0, skipsAll_nil hfresh⟩
  | @cons chunk chunks hchunk hrest ih =>
    rw [List.append_assoc] at hbytes
    have haccepts : ∀ first ∈ chunk.head?, reader.currentFrame.Accepts first := by
      obtain ⟨info, payload, hinfo, rfl⟩ := hchunk.exists_cons
      rintro first hfirst
      cases hfirst
      refine ⟨by simp [StackFrame.isComplete, hindefinite], ?_⟩
      have hmajor := getMajorType_initialByte type (show info < 32 by omega)
      have hinfo' := getAdditionalInfo_initialByte type (show info < 32 by omega)
      have hne : info ≠ indefiniteLength := by unfold indefiniteLength; omega
      unfold StackFrame.refuses StackFrame.refuses.isForeign
      rw [hframe]
      rcases htype with rfl | rfl <;> simp [hmajor, hinfo', hne]
    have hskip := skips_string htype hchunk hbytes haccepts
    have hbytes' : (reader.pass 1 chunk.length).getRemainingBytes = chunks ++ rest := by
      rw [CborReader.getRemainingBytes_pass, hbytes, List.drop_left]
    obtain ⟨items, hall⟩ := ih hbytes' hframe hindefinite (CborReader.pass_pass _ _ _ _ _)
    exact ⟨items + 1, skipsAll_cons hskip hall⟩

def ItemSkipped (item : List UInt8) : Prop :=
  ∀ (reader : CborReader) (rest : List UInt8), reader.getRemainingBytes = item ++ rest →
    (∀ first ∈ item.head?, reader.currentFrame.Accepts first) → Skips reader item

/-- The items of an array or a map are skipped, if its frame has room for them. -/
def ItemsSkipped (items : ℕ) (content : List UInt8) : Prop :=
  ∀ (reader : CborReader) (rest : List UInt8), reader.getRemainingBytes = content ++ rest →
    HasRoom reader items → SkipsAll reader items content

theorem itemSkipped_integer (hmajor : major = 0 ∨ major = 1) (hhead : Head major argument head) :
    ItemSkipped head := by
  intro reader rest hbytes haccepts
  rcases hmajor with rfl | rfl
  · exact @skips_integer _ .unsignedInteger _ _ _ (Or.inl rfl) hhead hbytes haccepts
  · exact @skips_integer _ .negativeInteger _ _ _ (Or.inr rfl) hhead hbytes haccepts

theorem itemSkipped_string (hmajor : major = 2 ∨ major = 3) (hstring : StringItem major item) :
    ItemSkipped item := by
  intro reader rest hbytes haccepts
  rcases hmajor with rfl | rfl
  · exact @skips_string _ .byteString _ _ (Or.inl rfl) hstring hbytes haccepts
  · exact @skips_string _ .utf8String _ _ (Or.inr rfl) hstring hbytes haccepts

theorem itemSkipped_indefiniteString (hmajor : major = 2 ∨ major = 3)
    (hchunks : Chunks major chunks) :
    ItemSkipped (initialByte major 31 :: (chunks ++ [breakByte])) := by
  intro reader rest hbytes haccepts
  obtain ⟨type, htype, rfl⟩ : ∃ type : CborMajorType,
      (type = .byteString ∨ type = .utf8String) ∧ major = type.toNat := by
    rcases hmajor with rfl | rfl
    · exact ⟨.byteString, Or.inl rfl, rfl⟩
    · exact ⟨.utf8String, Or.inr rfl, rfl⟩
  have htypes : type = .byteString ∨ type = .utf8String ∨ type = .array ∨ type = .map := by
    tauto
  have hnotMap : type ≠ .map := by
    rintro rfl
    simp at htype
  obtain ⟨hopen, hstart⟩ := opens_indefinite htypes hbytes (haccepts _ rfl)
  have hinner : (reader.enter 1 type none).getRemainingBytes = chunks ++ (breakByte :: rest) := by
    rw [CborReader.getRemainingBytes_enter, hbytes]
    simp
  have hfresh : (reader.enter 1 type none).pass 0 0 = reader.enter 1 type none := rfl
  obtain ⟨items, hall⟩ := skipsAll_chunks htype hchunks hinner rfl rfl hfresh
  exact skips_indefinite htypes (fun hmap => absurd hmap hnotMap) hbytes hopen hstart hall

theorem itemSkipped_definite {type : CborMajorType} {length items : ℕ} {head content : List UInt8}
    (htype : type = .array ∧ items = length ∨ type = .map ∧ items = 2 * length)
    (hhead : Head type.toNat length head) (hle : items ≤ content.length)
    (hitems : ItemsSkipped items content) : ItemSkipped (head ++ content) := by
  intro reader rest hbytes haccepts
  rw [head?_append_of_head hhead] at haccepts
  rw [List.append_assoc] at hbytes
  have htypes : type = .array ∨ type = .map := htype.imp And.left And.left
  have henough : items ≤ (content ++ rest).length := by
    rw [List.length_append]
    omega
  obtain ⟨hopen, hstart⟩ := opens_definite htype hhead hbytes henough haccepts
  have hinner : (reader.enter head.length type (some items)).getRemainingBytes =
      content ++ rest := by
    rw [CborReader.getRemainingBytes_enter, hbytes, List.drop_left]
  have hall := hitems _ _ hinner (hasRoom_enter htypes _ _ (Or.inr rfl))
  exact skips_definite htypes hopen hstart hhead.length_pos hall

theorem itemSkipped_indefinite {type : CborMajorType} {items : ℕ} {content : List UInt8}
    (htype : type = .array ∨ type = .map) (heven : type = .map → items % 2 = 0)
    (hitems : ItemsSkipped items content) :
    ItemSkipped (initialByte type.toNat 31 :: (content ++ [breakByte])) := by
  intro reader rest hbytes haccepts
  have htypes : type = .byteString ∨ type = .utf8String ∨ type = .array ∨ type = .map := by
    tauto
  obtain ⟨hopen, hstart⟩ := opens_indefinite htypes hbytes (haccepts _ rfl)
  have hinner : (reader.enter 1 type none).getRemainingBytes = content ++ (breakByte :: rest) := by
    rw [CborReader.getRemainingBytes_enter, hbytes]
    simp
  have hall := hitems _ _ hinner (hasRoom_enter htype _ _ (Or.inl rfl))
  exact skips_indefinite htypes heven hbytes hopen hstart hall

theorem itemSkipped_tag (hhead : Head 6 number head) (hitem : ItemSkipped item) :
    ItemSkipped (head ++ item) := by
  intro reader rest hbytes haccepts
  rw [head?_append_of_head hhead] at haccepts
  rw [List.append_assoc] at hbytes
  have hinner := (length_getRemainingBytes_tagged hhead hbytes).1
  have hnext := hitem _ _ hinner fun first _ => accepts_after_tag hhead haccepts first
  exact skips_tag hhead hbytes haccepts hnext

theorem itemsSkipped_cons (hitem : ItemSkipped item) (hrest : ItemsSkipped items content) :
    ItemsSkipped (items + 1) (item ++ content) := by
  intro reader rest hbytes hroom
  rw [List.append_assoc] at hbytes
  have hfirst := hitem _ _ hbytes fun first _ => hroom.accepts first
  have hbytes' : (reader.pass 1 item.length).getRemainingBytes = content ++ rest := by
    rw [CborReader.getRemainingBytes_pass, hbytes, List.drop_left]
  exact skipsAll_cons hfirst (hrest _ _ hbytes' (hroom.next item.length))

mutual

theorem itemSkipped {item : List UInt8} : DataItem item → ItemSkipped item
  | .integer hmajor hhead => itemSkipped_integer hmajor hhead
  | .string hmajor hstring => itemSkipped_string hmajor hstring
  | .indefiniteString hmajor hchunks => itemSkipped_indefiniteString hmajor hchunks
  | .array hhead hitems =>
    @itemSkipped_definite .array _ _ _ _ (Or.inl ⟨rfl, rfl⟩) hhead hitems.le_length
      (itemsSkipped hitems)
  | .indefiniteArray hitems =>
    @itemSkipped_indefinite .array _ _ (Or.inl rfl) (by simp) (itemsSkipped hitems)
  | .map hhead hitems =>
    @itemSkipped_definite .map _ _ _ _ (Or.inr ⟨rfl, rfl⟩) hhead hitems.le_length
      (itemsSkipped hitems)
  | .indefiniteMap hitems =>
    @itemSkipped_indefinite .map _ _ (Or.inr rfl) (by simp) (itemsSkipped hitems)
  | .tag hhead hitem => itemSkipped_tag hhead (itemSkipped hitem)
  | .simple hvalue => fun _ _ hbytes haccepts => skips_simple hvalue hbytes (haccepts _ rfl)
  | .simpleByte value => fun _ _ hbytes haccepts => skips_simpleByte hbytes (haccepts _ rfl)
  | .float hwidth hinfo hlength => fun _ _ hbytes haccepts =>
    skips_float hwidth hinfo hlength hbytes (haccepts _ rfl)

theorem itemsSkipped {items : ℕ} {content : List UInt8} :
    Items items content → ItemsSkipped items content
  | .nil => fun _ _ _ hroom => skipsAll_nil hroom.fresh
  | .cons hitem hrest => itemsSkipped_cons (itemSkipped hitem) (itemsSkipped hrest)

end

theorem readEncodedValue_ok {item rest : List UInt8} (hitem : DataItem item)
    (hbytes : reader.getRemainingBytes = item ++ rest)
    (haccepts : ∀ first ∈ item.head?, reader.currentFrame.Accepts first) :
    readEncodedValue reader = .ok item (reader.pass 1 item.length) := by
  obtain ⟨rounds, hbound, _, hskip⟩ := itemSkipped hitem reader rest hbytes haccepts
  have hlength : item.length ≤ reader.getRemainingBytes.length := by
    rw [hbytes, List.length_append]
    omega
  have hnodes : skipNodes (2 * reader.getRemainingBytes.length + 1) 0 reader =
      .ok () (reader.pass 1 item.length) := by
    obtain ⟨more, hmore⟩ : ∃ more, 2 * reader.getRemainingBytes.length + 1 = rounds + more :=
      ⟨2 * reader.getRemainingBytes.length + 1 - rounds, by omega⟩
    rw [hmore, hskip more 0 le_rfl]
    rfl
  have hbetween : (reader.data.bytes.take (reader.offset + item.length)).drop reader.offset =
      item := by
    rw [List.drop_take, Nat.add_sub_cancel_left]
    change reader.getRemainingBytes.take item.length = item
    rw [hbytes, List.take_left]
  change (skipNodes (2 * reader.getRemainingBytes.length + 1) 0 >>= fun _ => _) reader = _
  rw [run_bind_ok hnodes]
  change EStateM.Result.ok _ _ = EStateM.Result.ok _ _
  exact congrArg (fun bytes => EStateM.Result.ok bytes _) hbetween

end CardanoSdk.Cbor
