import CardanoSdk.Lib.Bytes

/-!
The grammar of well-formed CBOR data items of RFC 8949. The one-byte form of simple values
takes every value, also those below 32 that the RFC reserves.
-/

namespace CardanoSdk.Lib

/-- The initial byte of a major type with its additional information. -/
def initialByte (major info : ℕ) : UInt8 := UInt8.ofNat (32 * major + info)

def breakByte : UInt8 := 0xff

/-- The widths of arguments after the initial byte, by additional information. -/
inductive ArgumentWidth : ℕ → ℕ → Prop
  | one : ArgumentWidth 24 1
  | two : ArgumentWidth 25 2
  | four : ArgumentWidth 26 4
  | eight : ArgumentWidth 27 8

inductive Head (major : ℕ) : ℕ → List UInt8 → Prop
  | short {argument : ℕ} (h : argument < 24) : Head major argument [initialByte major argument]
  | long {info width : ℕ} {payload : List UInt8} (hwidth : ArgumentWidth info width)
      (hlength : payload.length = width) :
      Head major (ofBytesBE payload) (initialByte major info :: payload)

inductive StringItem (major : ℕ) : List UInt8 → Prop
  | mk {length : ℕ} {head payload : List UInt8} (hhead : Head major length head)
      (hlength : payload.length = length) : StringItem major (head ++ payload)

inductive Chunks (major : ℕ) : List UInt8 → Prop
  | nil : Chunks major []
  | cons {chunk rest : List UInt8} (hchunk : StringItem major chunk)
      (hrest : Chunks major rest) : Chunks major (chunk ++ rest)

mutual

inductive DataItem : List UInt8 → Prop
  | integer {major argument : ℕ} {head : List UInt8} (hmajor : major = 0 ∨ major = 1)
      (hhead : Head major argument head) : DataItem head
  | string {major : ℕ} {bytes : List UInt8} (hmajor : major = 2 ∨ major = 3)
      (hstring : StringItem major bytes) : DataItem bytes
  | indefiniteString {major : ℕ} {chunks : List UInt8} (hmajor : major = 2 ∨ major = 3)
      (hchunks : Chunks major chunks) :
      DataItem (initialByte major 31 :: (chunks ++ [breakByte]))
  | array {length : ℕ} {head content : List UInt8} (hhead : Head 4 length head)
      (hitems : Items length content) : DataItem (head ++ content)
  | indefiniteArray {length : ℕ} {content : List UInt8} (hitems : Items length content) :
      DataItem (initialByte 4 31 :: (content ++ [breakByte]))
  | map {length : ℕ} {head content : List UInt8} (hhead : Head 5 length head)
      (hitems : Items (2 * length) content) : DataItem (head ++ content)
  | indefiniteMap {length : ℕ} {content : List UInt8} (hitems : Items (2 * length) content) :
      DataItem (initialByte 5 31 :: (content ++ [breakByte]))
  | tag {number : ℕ} {head item : List UInt8} (hhead : Head 6 number head)
      (hitem : DataItem item) : DataItem (head ++ item)
  | simple {value : ℕ} (hvalue : value < 24) : DataItem [initialByte 7 value]
  | simpleByte (value : UInt8) : DataItem [initialByte 7 24, value]
  | float {info width : ℕ} {bits : List UInt8} (hwidth : ArgumentWidth info width)
      (hinfo : info ≠ 24) (hlength : bits.length = width) :
      DataItem (initialByte 7 info :: bits)

inductive Items : ℕ → List UInt8 → Prop
  | nil : Items 0 []
  | cons {length : ℕ} {item rest : List UInt8} (hitem : DataItem item)
      (hrest : Items length rest) : Items (length + 1) (item ++ rest)

end

variable {major info length argument : ℕ} {content head bytes : List UInt8}

theorem initialByte_toNat (hmajor : major < 8) (hinfo : info < 32) :
    (initialByte major info).toNat = 32 * major + info := by
  rw [initialByte, UInt8.toNat_ofNat']
  omega

theorem eq_initialByte (byte : UInt8) :
    byte = initialByte (byte.toNat / 32) (byte.toNat % 32) := by
  apply UInt8.toNat_inj.mp
  have hbyte := byte.toNat_lt
  rw [initialByte_toNat (by omega) (by omega)]
  omega

variable {width info' length' : ℕ} {content' : List UInt8} {declared : Option ℕ}

theorem ArgumentWidth.bounds (h : ArgumentWidth info width) :
    24 ≤ info ∧ info ≤ 27 ∧ 0 < width ∧ width ≤ 8 := by
  cases h <;> omega

theorem Head.exists_cons (h : Head major argument head) :
    ∃ info payload, info < 28 ∧ head = initialByte major info :: payload := by
  cases h with
  | short h => exact ⟨_, [], by omega, rfl⟩
  | long hwidth hlength => exact ⟨_, _, by have := hwidth.bounds; omega, rfl⟩

theorem initialByte_inj (hmajor : major < 8) (hinfo : info < 32) (hinfo' : info' < 32)
    (h : initialByte major info = initialByte major info') : info = info' := by
  have hnat := congrArg UInt8.toNat h
  rw [initialByte_toNat hmajor hinfo, initialByte_toNat hmajor hinfo'] at hnat
  omega

theorem ArgumentWidth.unique {width' : ℕ} (h : ArgumentWidth info width)
    (h' : ArgumentWidth info width') : width = width' := by
  cases h <;> cases h' <;> rfl

theorem ArgumentWidth.info_unique (h : ArgumentWidth info width) (h' : ArgumentWidth info' width) :
    info = info' := by
  cases h <;> cases h' <;> rfl

theorem Head.argument_lt (h : Head major argument head) : argument < 2 ^ 64 := by
  cases h with
  | short h => omega
  | @long info width payload hwidth hlength =>
    have hlt := ofBytesBE_lt payload
    have hbounds := hwidth.bounds
    rw [hlength] at hlt
    exact hlt.trans_le ((Nat.pow_le_pow_right (by norm_num) hbounds.2.2.2).trans (by norm_num))

theorem Head.eq_of_append {argument' : ℕ} {head' rest rest' : List UInt8}
    (h : Head major argument head) (h' : Head major argument' head') (hmajor : major < 8)
    (heq : head ++ rest = head' ++ rest') : head = head' := by
  cases h with
  | short h =>
    cases h' with
    | short h' =>
      rw [List.singleton_append, List.singleton_append, List.cons.injEq] at heq
      rw [heq.1]
    | long hwidth' hlength' =>
      rw [List.singleton_append, List.cons_append, List.cons.injEq] at heq
      have hbounds := hwidth'.bounds
      have hinfo := initialByte_inj hmajor (by omega) (by omega) heq.1
      omega
  | long hwidth hlength =>
    cases h' with
    | short h' =>
      rw [List.singleton_append, List.cons_append, List.cons.injEq] at heq
      have hbounds := hwidth.bounds
      have hinfo := initialByte_inj hmajor (by omega) (by omega) heq.1
      omega
    | long hwidth' hlength' =>
      rw [List.cons_append, List.cons_append, List.cons.injEq] at heq
      have hbounds := hwidth.bounds
      have hbounds' := hwidth'.bounds
      obtain rfl := initialByte_inj hmajor (by omega) (by omega) heq.1
      rw [← hwidth.unique hwidth'] at hlength'
      rw [(List.append_inj heq.2 (hlength.trans hlength'.symm)).1]

theorem Head.length_pos (h : Head major argument head) : 0 < head.length := by
  obtain ⟨_, _, _, rfl⟩ := h.exists_cons
  simp

theorem StringItem.exists_cons {major : ℕ} {bytes : List UInt8} (h : StringItem major bytes) :
    ∃ info payload, info < 28 ∧ bytes = initialByte major info :: payload := by
  cases h with
  | mk hhead _ =>
    obtain ⟨info, payload, hinfo, rfl⟩ := hhead.exists_cons
    exact ⟨info, _, hinfo, rfl⟩

theorem DataItem.exists_cons {item : List UInt8} (h : DataItem item) :
    ∃ first rest, item = first :: rest ∧ first ≠ breakByte := by
  have hne {major info : ℕ} (hmajor : major < 8) (hinfo : info < 32)
      (h : major < 7 ∨ info < 31) : initialByte major info ≠ breakByte := by
    intro heq
    have hnat := congrArg UInt8.toNat heq
    rw [initialByte_toNat hmajor hinfo] at hnat
    change _ = 255 at hnat
    omega
  cases h with
  | integer hmajor hhead =>
    obtain ⟨info, payload, hinfo, rfl⟩ := hhead.exists_cons
    exact ⟨_, _, rfl, hne (by omega) (by omega) (by omega)⟩
  | string hmajor hstring =>
    obtain ⟨info, payload, hinfo, rfl⟩ := hstring.exists_cons
    exact ⟨_, _, rfl, hne (by omega) (by omega) (by omega)⟩
  | indefiniteString hmajor hchunks =>
    exact ⟨_, _, rfl, hne (by omega) (by omega) (by omega)⟩
  | array hhead hitems =>
    obtain ⟨info, payload, hinfo, rfl⟩ := hhead.exists_cons
    exact ⟨_, _, rfl, hne (by omega) (by omega) (by omega)⟩
  | indefiniteArray hitems => exact ⟨_, _, rfl, hne (by omega) (by omega) (by omega)⟩
  | map hhead hitems =>
    obtain ⟨info, payload, hinfo, rfl⟩ := hhead.exists_cons
    exact ⟨_, _, rfl, hne (by omega) (by omega) (by omega)⟩
  | indefiniteMap hitems => exact ⟨_, _, rfl, hne (by omega) (by omega) (by omega)⟩
  | tag hhead hitem =>
    obtain ⟨info, payload, hinfo, rfl⟩ := hhead.exists_cons
    exact ⟨_, _, rfl, hne (by omega) (by omega) (by omega)⟩
  | simple hvalue => exact ⟨_, _, rfl, hne (by omega) (by omega) (by omega)⟩
  | simpleByte value => exact ⟨_, _, rfl, hne (by omega) (by omega) (by omega)⟩
  | float hwidth hinfo hlength =>
    have := hwidth.bounds
    exact ⟨_, _, rfl, hne (by omega) (by omega) (by omega)⟩

theorem DataItem.length_pos {item : List UInt8} (h : DataItem item) : 0 < item.length := by
  obtain ⟨_, _, rfl, _⟩ := h.exists_cons
  simp

theorem Items.exists_list : ∀ {count : ℕ} {bytes : List UInt8}, Items count bytes →
    ∃ items : List (List UInt8), items.length = count ∧ items.flatten = bytes ∧
      ∀ item ∈ items, DataItem item
  | _, _, .nil => ⟨[], rfl, rfl, fun _ h => absurd h List.not_mem_nil⟩
  | _, _, .cons hitem hrest => by
    obtain ⟨items, rfl, rfl, hitems⟩ := Items.exists_list hrest
    exact ⟨_ :: items, rfl, rfl, List.forall_mem_cons.mpr ⟨hitem, hitems⟩⟩

theorem Items.le_length (h : Items length content) : length ≤ content.length := by
  induction length generalizing content with
  | zero => exact Nat.zero_le _
  | succ length ih =>
    cases h with
    | cons hitem hrest =>
      have hle := ih hrest
      have hpos := hitem.length_pos
      rw [List.length_append]
      omega

theorem Items.append (h : Items length content) (h' : Items length' content') :
    Items (length + length') (content ++ content') := by
  induction length generalizing content with
  | zero =>
    cases h with
    | nil => rwa [Nat.zero_add]
  | succ length ih =>
    cases h with
    | cons hfirst hrest =>
      rw [List.append_assoc, Nat.add_right_comm]
      exact Items.cons hfirst (ih hrest)

inductive IntegerHead : List UInt8 → ℤ → Prop
  | unsigned {value : ℕ} {head : List UInt8} (h : Head 0 value head) : IntegerHead head value
  | negative {value : ℕ} {head : List UInt8} (h : Head 1 value head) :
      IntegerHead head (-1 - value)

theorem IntegerHead.dataItem {value : ℤ} (h : IntegerHead bytes value) : DataItem bytes := by
  cases h with
  | unsigned h => exact DataItem.integer (Or.inl rfl) h
  | negative h => exact DataItem.integer (Or.inr rfl) h

theorem IntegerHead.exists_head (h : IntegerHead head value) :
    ∃ major argument, major < 2 ∧ Head major argument head := by
  cases h with
  | unsigned h => exact ⟨0, _, by decide, h⟩
  | negative h => exact ⟨1, _, by decide, h⟩

theorem IntegerHead.eq_of_isPrefix (h : IntegerHead head value) (h' : IntegerHead head' value')
    (hinitial : head <+: head') : head = head' := by
  obtain ⟨major, argument, hmajor, hhead⟩ := h.exists_head
  obtain ⟨major', argument', hmajor', hhead'⟩ := h'.exists_head
  obtain ⟨rest, hrest⟩ := hinitial
  have hsame : major = major' := by
    obtain ⟨info, payload, hinfo, hfirst⟩ := hhead.exists_cons
    obtain ⟨info', payload', hinfo', hfirst'⟩ := hhead'.exists_cons
    rw [hfirst, hfirst', List.cons_append, List.cons.injEq] at hrest
    have hbyte := congrArg UInt8.toNat hrest.1
    rw [initialByte_toNat (by omega) (by omega), initialByte_toNat (by omega) (by omega)] at hbyte
    omega
  subst hsame
  rw [← List.append_nil head'] at hrest
  exact hhead.eq_of_append hhead' (by omega) hrest

/-- The content of an array (major type 4) or of a map (5) in its frame, with
the length that the frame declares. The length counts the elements of an array
and the entries of a map. -/
inductive Framed (major length : ℕ) (content : List UInt8) : Option ℕ → List UInt8 → Prop
  | definite {head : List UInt8} (hhead : Head major length head) :
      Framed major length content (some length) (head ++ content)
  | indefinite :
      Framed major length content none (initialByte major 31 :: (content ++ [breakByte]))

theorem Framed.array {length : ℕ} {content bytes : List UInt8} {declared : Option ℕ}
    (h : Framed 4 length content declared bytes) (hitems : Items length content) :
    DataItem bytes := by
  cases h with
  | definite hhead => exact DataItem.array hhead hitems
  | indefinite => exact DataItem.indefiniteArray hitems

theorem Framed.map {length : ℕ} {content bytes : List UInt8} {declared : Option ℕ}
    (h : Framed 5 length content declared bytes) (hitems : Items (2 * length) content) :
    DataItem bytes := by
  cases h with
  | definite hhead => exact DataItem.map hhead hitems
  | indefinite => exact DataItem.indefiniteMap hitems

theorem Framed.content_lt (h : Framed major length content declared bytes) :
    content.length < bytes.length := by
  cases h with
  | definite hhead =>
    have hpos := hhead.length_pos
    rw [List.length_append]
    omega
  | indefinite =>
    rw [List.length_cons, List.length_append]
    omega

theorem Framed.content_eq {declared' : Option ℕ} (hmajor : major < 8)
    (h : Framed major length content declared bytes)
    (h' : Framed major length' content' declared' bytes) : content = content' := by
  generalize hbytes : bytes = bytes' at h'
  cases h with
  | definite hhead =>
    cases h' with
    | definite hhead' =>
      obtain rfl := hhead.eq_of_append hhead' hmajor hbytes
      exact List.append_cancel_left hbytes
    | indefinite =>
      obtain ⟨info, payload, hinfo, rfl⟩ := hhead.exists_cons
      rw [List.cons_append, List.cons.injEq] at hbytes
      have hsame := initialByte_inj hmajor (by omega) (by omega) hbytes.1
      omega
  | indefinite =>
    cases h' with
    | definite hhead' =>
      obtain ⟨info, payload, hinfo, rfl⟩ := hhead'.exists_cons
      rw [List.cons_append, List.cons.injEq] at hbytes
      have hsame := initialByte_inj hmajor (by omega) (by omega) hbytes.1
      omega
    | indefinite =>
      rw [List.cons.injEq] at hbytes
      exact List.append_cancel_right hbytes.2

inductive ByteChunks (allowed : ℕ → Prop) : List UInt8 → List UInt8 → Prop
  | nil : ByteChunks allowed [] []
  | cons {head payload chunks value : List UInt8} (hhead : Head 2 payload.length head)
      (hallowed : allowed payload.length) (hrest : ByteChunks allowed chunks value) :
      ByteChunks allowed (head ++ payload ++ chunks) (payload ++ value)

inductive ByteString (allowed : ℕ → Prop) : List UInt8 → List UInt8 → Prop
  | whole {head payload : List UInt8} (hhead : Head 2 payload.length head)
      (hallowed : allowed payload.length) : ByteString allowed (head ++ payload) payload
  | chunked {chunks value : List UInt8} (hchunks : ByteChunks allowed chunks value) :
      ByteString allowed (initialByte 2 31 :: (chunks ++ [breakByte])) value

section ByteStrings

variable {allowed allowed' : ℕ → Prop} {bytes value : List UInt8}

theorem ByteChunks.chunks (h : ByteChunks allowed bytes value) : Chunks 2 bytes := by
  induction h with
  | nil => exact Chunks.nil
  | cons hhead _ _ ih => exact Chunks.cons (StringItem.mk hhead rfl) ih

theorem ByteChunks.mono (h : ByteChunks allowed bytes value)
    (himp : ∀ length, allowed length → allowed' length) : ByteChunks allowed' bytes value := by
  induction h with
  | nil => exact ByteChunks.nil
  | cons hhead hallowed _ ih => exact ByteChunks.cons hhead (himp _ hallowed) ih

theorem ByteString.dataItem (h : ByteString allowed bytes value) : DataItem bytes := by
  cases h with
  | whole hhead => exact DataItem.string (Or.inl rfl) (StringItem.mk hhead rfl)
  | chunked hchunks => exact DataItem.indefiniteString (Or.inl rfl) hchunks.chunks

theorem ByteString.mono (h : ByteString allowed bytes value)
    (himp : ∀ length, allowed length → allowed' length) : ByteString allowed' bytes value := by
  cases h with
  | whole hhead hallowed => exact ByteString.whole hhead (himp _ hallowed)
  | chunked hchunks => exact ByteString.chunked (hchunks.mono himp)

end ByteStrings

end CardanoSdk.Lib
