import CardanoSdk.Plutus.Grammar
import CardanoSdk.Plutus.RoundTrip

/-!
The bytes that `PlutusData.fromCbor` accepts are those that start with an item of the
decoder's rules.
-/

namespace CardanoSdk.Plutus

open Lib Cbor Serialization

section Soundness

variable {fromCbor : List UInt8 → Except DecodeException PlutusData}

def ReadsData (fromCbor : List UInt8 → Except DecodeException PlutusData) : Prop :=
  ∀ cbor data, fromCbor cbor = .ok data → cbor.length < 2 ^ 53 ∧
    ∃ item rest, cbor = item ++ rest ∧ PlutusItem decoderRules item

theorem ReadsData.part (hreads : ReadsData fromCbor) {encoded : List UInt8} {data : PlutusData}
    (h : DecodesPart fromCbor encoded data) : PlutusItem decoderRules encoded := by
  obtain ⟨hlength, item, rest, rfl, hitem⟩ := hreads _ _ h.decoded
  have hrest := dataItem_append_eq_nil hitem.dataItem h.item hlength
  rw [hrest, List.append_nil]
  exact hitem

theorem ReadsData.items (hreads : ReadsData fromCbor) {elements : List (List UInt8)}
    {items : List PlutusData} (h : List.Forall₂ (DecodesPart fromCbor) elements items) :
    PlutusItems decoderRules elements.length elements.flatten := by
  induction h with
  | nil => exact PlutusItems.nil
  | cons hitem _ ih => exact PlutusItems.cons (hreads.part hitem) ih

theorem ReadsData.entries (hreads : ReadsData fromCbor) {encoded : List (List UInt8 × List UInt8)}
    {entries : List (PlutusData × PlutusData)}
    (h : List.Forall₂ (DecodesParts fromCbor) encoded entries) :
    PlutusEntries decoderRules encoded.length (entriesBytes encoded) := by
  induction h with
  | nil => exact PlutusEntries.nil
  | cons hentry _ ih =>
    exact PlutusEntries.cons (hreads.part hentry.1) (hreads.part hentry.2) ih

variable {cbor : List UInt8} {reader reader' : CborReader} {value : ℤ × List PlutusData}

theorem plutusListFromCbor_eq_ok {items : List PlutusData}
    (h : plutusListFromCbor fromCbor cbor = .ok items) (hitem : DataItem cbor) :
    ∃ elements declared, Framed 4 elements.length elements.flatten declared cbor ∧
      List.Forall₂ (DecodesPart fromCbor) elements items := by
  rw [plutusListFromCbor_eq] at h
  obtain ⟨hlength, reader, reader', hfresh, _, hrun⟩ := decodeWith_eq_ok h
  obtain ⟨⟨declared, items'⟩, middle, hread, hpure⟩ := run_bind_eq_ok hrun
  cases hpure
  obtain ⟨elements, bytes, hparts, hframed, hpassed⟩ := readParts_eq_ok hread
  obtain ⟨rest, rfl⟩ := exists_append_of_fresh hfresh hpassed
  have harray := hframed.array (items_of_wellFormed (DecodesPart.dataItems hparts))
  have hrest := dataItem_append_eq_nil harray hitem hlength
  rw [hrest, List.append_nil]
  exact ⟨elements, declared, hframed, hparts⟩

theorem ReadsData.list (hreads : ReadsData fromCbor) {cbor : List UInt8} {items : List PlutusData}
    (h : plutusListFromCbor fromCbor cbor = .ok items) (hitem : DataItem cbor) :
    PlutusArray decoderRules cbor := by
  obtain ⟨elements, declared, hframed, hparts⟩ := plutusListFromCbor_eq_ok h hitem
  exact PlutusArray.mk hframed (hreads.items hparts)

theorem ReadsData.map (hreads : ReadsData fromCbor) {cbor : List UInt8}
    {map : Bool × List (PlutusData × PlutusData)} (h : plutusMapFromCbor fromCbor cbor = .ok map)
    (hitem : DataItem cbor) : PlutusItem decoderRules cbor := by
  rw [plutusMapFromCbor_eq] at h
  obtain ⟨hlength, reader, reader', hfresh, _, hrun⟩ := decodeWith_eq_ok h
  obtain ⟨⟨declared, entries⟩, middle, hread, hpure⟩ := run_bind_eq_ok hrun
  cases hpure
  obtain ⟨encoded, bytes, hparts, hframed, hpassed⟩ := readEntries_eq_ok hread
  obtain ⟨rest, rfl⟩ := exists_append_of_fresh hfresh hpassed
  have hmap := PlutusItem.map hframed (hreads.entries hparts)
  rw [dataItem_append_eq_nil hmap.dataItem hitem hlength, List.append_nil]
  exact hmap

theorem ReadsData.general (hreads : ReadsData fromCbor)
    (h : (do
      let _ ← reading readStartArray
      let alternative ← reading readInt
      let encoded ← reading readEncodedValue
      let data ← decoding (plutusListFromCbor fromCbor encoded)
      reading readEndArray
      pure (alternative, data) : DecodeM (ℤ × List PlutusData)) reader = .ok value reader') :
    ∃ major argument alternative array bytes declared rest,
      decoderRules.alternativeMajor major ∧ Head major argument alternative ∧
      PlutusArray decoderRules array ∧ Framed 4 2 (alternative ++ array) declared bytes ∧
      reader.getRemainingBytes = bytes ++ rest := by
  obtain ⟨declared, entered, hstart, h⟩ := run_bind_eq_ok h
  obtain ⟨alternative, middle, halternative, h⟩ := run_bind_eq_ok h
  obtain ⟨array, looped, harray, h⟩ := run_bind_eq_ok h
  obtain ⟨data, looped', hdata, h⟩ := run_bind_eq_ok h
  obtain ⟨_, left, hleave, _⟩ := run_bind_eq_ok h
  obtain ⟨hlist, rfl⟩ := decoding_eq_ok hdata
  have hplain := (readStartArray_entered (reading_eq_ok hstart)).plain (Or.inl rfl)
  obtain ⟨_, head, hhead, rfl, hinteger⟩ := takes_int _ _ _ hplain halternative
  obtain ⟨_, _, htaken, rfl, hitem, rfl⟩ := takes_encodedValue _ _ _ (hhead.plain hplain) harray
  obtain ⟨bytes, hframed, hpassed⟩ := closedArray_eq_ok hstart (hhead.trans htaken) hleave
  obtain ⟨rest, hbytes⟩ := hpassed.bytes
  cases hinteger with
  | unsigned hnumber =>
    exact ⟨0, _, head, array, bytes, declared, rest, Or.inl rfl, hnumber,
      hreads.list hlist hitem, hframed, hbytes⟩
  | negative hnumber =>
    exact ⟨1, _, head, array, bytes, declared, rest, Or.inr rfl, hnumber,
      hreads.list hlist hitem, hframed, hbytes⟩

theorem ReadsData.constr (hreads : ReadsData fromCbor)
    (h : constrFromCbor fromCbor cbor = .ok value) :
    ∃ number head rest, Head 6 number head ∧ cbor = head ++ rest ∧
      (number ≠ 2 → number ≠ 3 → ∃ item rest, cbor = item ++ rest ∧
        PlutusItem decoderRules item) := by
  obtain ⟨_, reader, reader', hfresh, hroot, hrun⟩ := decodeWith_eq_ok h
  obtain ⟨tag, tagged, htag, hrun⟩ := run_bind_eq_ok hrun
  obtain ⟨number, head, rest, hhead, rfl, hbytes, hrest, hframe⟩ := readTag_takes htag
  rw [hfresh.bytes, List.append_nil] at hbytes
  refine ⟨number, head, rest, hhead, hbytes, fun htwo hthree => ?_⟩
  split at hrun
  · rename_i hgeneral
    have hnumber : number = 102 := by
      have hgeneral : roundToDouble number = 102 := Int.ofNat.inj hgeneral
      exact (roundToDouble_eq_iff (by omega)).mp hgeneral
    subst hnumber
    obtain ⟨major, argument, alternative, array, bytes, declared, rest', hmajor, halternative,
      harray, hframed, hbytes'⟩ := hreads.general hrun
    refine ⟨head ++ bytes, rest', ?_, PlutusItem.general hhead hmajor halternative harray hframed⟩
    rw [hbytes, ← hrest, hbytes', List.append_assoc]
  · rename_i hcompact
    have hnumber : number ≠ 102 := by
      rintro rfl
      exact hcompact (by rw [roundToDouble_of_lt (by omega)]; rfl)
    obtain ⟨array, middle, harray, hrun⟩ := run_bind_eq_ok hrun
    obtain ⟨data, middle', hdata, _⟩ := run_bind_eq_ok hrun
    obtain ⟨hlist, rfl⟩ := decoding_eq_ok hdata
    have hplain : Plain tagged.currentFrame := plain_of_root (hframe ▸ hroot)
    obtain ⟨_, _, htaken, rfl, hitem, rfl⟩ := takes_encodedValue _ _ _ hplain harray
    obtain ⟨rest', hbytes'⟩ := htaken.bytes
    refine ⟨head ++ array, rest', ?_,
      PlutusItem.compact ⟨htwo, hthree, hnumber⟩ hhead (hreads.list hlist hitem)⟩
    rw [hbytes, ← hrest, hbytes', List.append_assoc]

theorem readBigInteger_takes {next : List UInt8 → DecodeM PlutusData} {data : PlutusData}
    (hplain : Plain reader.currentFrame)
    (h : (reading readTag >>= fun _ => reading readByteString >>= next) reader = .ok data reader') :
    ∃ number head bytes value rest, Head 6 number head ∧ ByteString AnyLength bytes value ∧
      reader.getRemainingBytes = head ++ bytes ++ rest := by
  obtain ⟨tag, tagged, htag, hrun⟩ := run_bind_eq_ok h
  obtain ⟨number, head, rest, hhead, _, hbytes, hrest, hframe⟩ := readTag_takes htag
  obtain ⟨value, middle, hvalue, _⟩ := run_bind_eq_ok hrun
  rw [← hframe] at hplain
  obtain ⟨_, bytes, htaken, rfl, hstring⟩ := takes_byteString _ _ _ hplain hvalue
  obtain ⟨rest', hbytes'⟩ := htaken.bytes
  refine ⟨number, head, bytes, value, rest', hhead, hstring, ?_⟩
  rw [hbytes, ← hrest, hbytes', List.append_assoc]

theorem readsData (fuel : ℕ) : ReadsData (fromCborWithin fuel) := by
  induction fuel with
  | zero =>
    intro cbor data h
    cases h
  | succ fuel ih =>
    intro cbor data h
    obtain ⟨hlength, fresh, final, hfresh, hroot, hrun⟩ := decodeWith_eq_ok h
    obtain ⟨state, reader, hpeek, hrun⟩ := run_bind_eq_ok hrun
    have hbytes : reader.getRemainingBytes = cbor := by
      obtain ⟨_, rfl⟩ := peekState_eq_ok hfresh.cachedState hpeek
      exact hfresh.bytes.trans (List.append_nil cbor)
    have hplain : Plain reader.currentFrame := by
      obtain ⟨_, rfl⟩ := peekState_eq_ok hfresh.cachedState hpeek
      exact plain_of_root hroot
    refine ⟨hlength, ?_⟩
    split at hrun
    · obtain ⟨tag, middle, hpeekTag, hbranch⟩ := run_bind_eq_ok hrun
      obtain ⟨rfl, bytesRead, htag⟩ := peekTag_eq_ok hpeekTag
      split at hbranch
      · rename_i htwo
        obtain ⟨number, head, bytes, value, rest, hhead, hstring, hsplit⟩ :=
          readBigInteger_takes hplain hbranch
        have hnumber := peekTagCore_eq hhead (hsplit.trans (List.append_assoc _ _ _)) htag
        have hnumber : number = 2 := (roundToDouble_eq_iff (by omega)).mp (hnumber.symm.trans htwo)
        exact ⟨head ++ bytes, rest, hbytes.symm.trans hsplit,
          PlutusItem.bigInteger (Or.inl hnumber) hhead hstring⟩
      · rename_i htwo
        split at hbranch
        · rename_i hthree
          obtain ⟨number, head, bytes, value, rest, hhead, hstring, hsplit⟩ :=
            readBigInteger_takes hplain hbranch
          have hnumber := peekTagCore_eq hhead (hsplit.trans (List.append_assoc _ _ _)) htag
          have hnumber : number = 3 :=
            (roundToDouble_eq_iff (by omega)).mp (hnumber.symm.trans hthree)
          exact ⟨head ++ bytes, rest, hbytes.symm.trans hsplit,
            PlutusItem.bigInteger (Or.inr hnumber) hhead hstring⟩
        · rename_i hthree
          obtain ⟨encoded, middle, hencoded, hrest⟩ := run_bind_eq_ok hbranch
          obtain ⟨constr, middle', hconstr, _⟩ := run_bind_eq_ok hrest
          obtain ⟨_, _, htaken, _, hitem, rfl⟩ := takes_encodedValue _ _ _ hplain hencoded
          obtain ⟨rest, hrest⟩ := htaken.bytes
          obtain ⟨number, head, tail, hhead, rfl, hform⟩ := ih.constr (decoding_eq_ok hconstr).1
          have hnumber := peekTagCore_eq hhead (hrest.trans (List.append_assoc _ _ _)) htag
          rw [hnumber] at htwo hthree
          obtain ⟨item, rest', hitem', hplutus⟩ := hform
            (fun h => htwo ((roundToDouble_eq_iff (by decide)).mpr h))
            (fun h => hthree ((roundToDouble_eq_iff (by decide)).mpr h))
          refine ⟨item, rest' ++ rest, ?_, hplutus⟩
          rw [← hbytes, hrest, hitem', List.append_assoc]
    · obtain ⟨value, middle, hvalue, _⟩ := run_bind_eq_ok hrun
      obtain ⟨_, head, htaken, _, hinteger⟩ := takes_int _ _ _ hplain hvalue
      obtain ⟨rest, hrest⟩ := htaken.bytes
      exact ⟨head, rest, hbytes.symm.trans hrest, PlutusItem.integer hinteger⟩
    · obtain ⟨value, middle, hvalue, _⟩ := run_bind_eq_ok hrun
      obtain ⟨_, head, htaken, _, hinteger⟩ := takes_int _ _ _ hplain hvalue
      obtain ⟨rest, hrest⟩ := htaken.bytes
      exact ⟨head, rest, hbytes.symm.trans hrest, PlutusItem.integer hinteger⟩
    · obtain ⟨value, middle, hvalue, _⟩ := run_bind_eq_ok hrun
      obtain ⟨_, bytes, htaken, _, hstring⟩ := takes_byteString _ _ _ hplain hvalue
      obtain ⟨rest, hrest⟩ := htaken.bytes
      exact ⟨bytes, rest, hbytes.symm.trans hrest, PlutusItem.bytes hstring⟩
    · obtain ⟨value, middle, hvalue, _⟩ := run_bind_eq_ok hrun
      obtain ⟨_, bytes, htaken, _, hstring⟩ := takes_byteString _ _ _ hplain hvalue
      obtain ⟨rest, hrest⟩ := htaken.bytes
      exact ⟨bytes, rest, hbytes.symm.trans hrest, PlutusItem.bytes hstring⟩
    · obtain ⟨encoded, middle, hencoded, hrun⟩ := run_bind_eq_ok hrun
      obtain ⟨items, middle', hitems, _⟩ := run_bind_eq_ok hrun
      obtain ⟨_, _, htaken, _, hitem, rfl⟩ := takes_encodedValue _ _ _ hplain hencoded
      obtain ⟨rest, hrest⟩ := htaken.bytes
      exact ⟨encoded, rest, hbytes.symm.trans hrest,
        PlutusItem.list (ih.list (decoding_eq_ok hitems).1 hitem)⟩
    · obtain ⟨encoded, middle, hencoded, hrun⟩ := run_bind_eq_ok hrun
      obtain ⟨map, middle', hmap, _⟩ := run_bind_eq_ok hrun
      obtain ⟨_, _, htaken, _, hitem, rfl⟩ := takes_encodedValue _ _ _ hplain hencoded
      obtain ⟨rest, hrest⟩ := htaken.bytes
      exact ⟨encoded, rest, hbytes.symm.trans hrest, ih.map (decoding_eq_ok hmap).1 hitem⟩
    · cases hrun

end Soundness

section Completeness

/-- Bytes that start with the item are decoded, given a level more than its bytes. -/
def DecodesItem (item : List UInt8) : Prop :=
  ∀ rest fuel, (item ++ rest).length < 2 ^ 53 → item.length ≤ fuel →
    ∃ data, fromCborWithin (fuel + 1) (item ++ rest) = .ok data

def DecodesArray (bytes : List UInt8) : Prop :=
  ∀ fuel, bytes.length < 2 ^ 53 → bytes.length ≤ fuel →
    ∃ items, plutusListFromCbor (fromCborWithin fuel) bytes = .ok items

def DecodesItems (count : ℕ) (content : List UInt8) : Prop :=
  ∀ fuel, content.length < 2 ^ 53 → content.length < fuel →
    ∃ elements items, List.Forall₂ (DecodesPart (fromCborWithin fuel)) elements items ∧
      elements.length = count ∧ elements.flatten = content

def DecodesEntries (count : ℕ) (content : List UInt8) : Prop :=
  ∀ fuel, content.length < 2 ^ 53 → content.length < fuel →
    ∃ encoded entries, List.Forall₂ (DecodesParts (fromCborWithin fuel)) encoded entries ∧
      encoded.length = count ∧ entriesBytes encoded = content

variable {bytes head value : List UInt8} {count number : ℕ} {declared : Option ℕ}

theorem decodesItem_integer {value : ℤ} (h : IntegerHead head value) : DecodesItem head := by
  intro rest fuel hlength _
  refine ⟨.integer (some (head ++ rest)) value, ?_⟩
  have hread := readsItem_integerHead h
  cases h with
  | unsigned hhead =>
    apply decodeWith_peek (@begins_head .unsignedInteger (by simp) _ _ hhead rest) hlength
    intro reader hbytes haccepts
    exact Succeeds.bind (hread reader rest (remaining_append hbytes) haccepts) Succeeds.pure
  | negative hhead =>
    apply decodeWith_peek (@begins_head .negativeInteger (by simp) _ _ hhead rest) hlength
    intro reader hbytes haccepts
    exact Succeeds.bind (hread reader rest (remaining_append hbytes) haccepts) Succeeds.pure

theorem decodesItem_bytes (h : ByteString AnyLength bytes value) : DecodesItem bytes := by
  intro rest fuel hlength _
  refine ⟨.bytes (some (bytes ++ rest)) value, ?_⟩
  have hread := readsItem_byteStringItem h
  rcases begins_byteString h with hbegins | hbegins
  all_goals
    apply decodeWith_peek (hbegins.append rest) hlength
    intro reader hbytes haccepts
    exact Succeeds.bind (hread reader rest (remaining_append hbytes) haccepts) Succeeds.pure

theorem decodesItem_bigInteger (hnumber : number = 2 ∨ number = 3) (hhead : Head 6 number head)
    (hstring : ByteString AnyLength bytes value) : DecodesItem (head ++ bytes) := by
  intro rest fuel hlength _
  have hread : ReadsItem (reading readTag >>= fun _ => reading readByteString) (head ++ bytes)
      value := readsItem_tagHead hhead (readsItem_byteStringItem hstring)
  have hbegins := (@begins_head .tag (by simp) _ _ hhead bytes).append rest
  rcases hnumber with rfl | rfl
  · refine ⟨.integer (some (head ++ bytes ++ rest)) (bufferToBigint value), ?_⟩
    apply decodeWith_peek hbegins hlength
    intro reader hbytes haccepts
    have hbytes := remaining_append hbytes
    rw [List.append_assoc] at hbytes
    apply Succeeds.read (peekTag_ok hhead hbytes haccepts)
    rw [roundToDouble_of_lt (by omega), if_pos (show 2 = unsignedBigNumTag from rfl), ← bind_assoc]
    rw [← List.append_assoc] at hbytes
    exact Succeeds.bind (hread reader rest hbytes haccepts) Succeeds.pure
  · refine ⟨.integer (some (head ++ bytes ++ rest)) (bufferToBigint value * -1), ?_⟩
    apply decodeWith_peek hbegins hlength
    intro reader hbytes haccepts
    have hbytes := remaining_append hbytes
    rw [List.append_assoc] at hbytes
    apply Succeeds.read (peekTag_ok hhead hbytes haccepts)
    rw [roundToDouble_of_lt (by omega), if_neg (by decide),
      if_pos (show 3 = negativeBigNumTag from rfl), ← bind_assoc]
    rw [← List.append_assoc] at hbytes
    exact Succeeds.bind (hread reader rest hbytes haccepts) Succeeds.pure

variable {content rest array : List UInt8}

theorem decodesArray (hframed : Framed 4 count content declared bytes)
    (hitems : DecodesItems count content) : DecodesArray bytes := by
  intro fuel hlength hfuel
  have hcontent := hframed.content_lt
  obtain ⟨elements, items, hparts, rfl, rfl⟩ := hitems fuel (by omega) (by omega)
  have hcount := length_le_flatten (DecodesPart.dataItems hparts)
  have hread := @readsItem_parts _ _ _ _ _ _ (bytes.length + 1) hparts hframed (by omega)
  refine ⟨items, ?_⟩
  rw [plutusListFromCbor_eq]
  refine ReadsItem.decodeWith (hread.map ?_) hlength
  intro reader
  rfl

theorem decodesItem_list (hitem : DataItem bytes) (hbegins : Begins bytes .startArray)
    (harray : DecodesArray bytes) : DecodesItem bytes := by
  intro rest fuel hlength hfuel
  rw [List.length_append] at hlength
  obtain ⟨items, hitems⟩ := harray fuel (by omega) hfuel
  rw [← List.length_append] at hlength
  refine ⟨.list (some (bytes ++ rest)) items, ?_⟩
  apply decodeWith_peek (hbegins.append rest) hlength
  intro reader hbytes haccepts
  have hread := readsItem_encodedValue hitem reader rest (remaining_append hbytes) haccepts
  exact Succeeds.bind hread (Succeeds.decode hitems Succeeds.pure)

theorem decodesItem_map (hframed : Framed 5 count content declared bytes)
    (hitems : Items (2 * count) content) (hentries : DecodesEntries count content) :
    DecodesItem bytes := by
  intro rest fuel hlength hfuel
  have hcontent := hframed.content_lt
  rw [List.length_append] at hlength
  obtain ⟨encoded, entries, hparts, rfl, rfl⟩ := hentries fuel (by omega) (by omega)
  have hread := @readsItem_entries _ _ _ _ _ _ (bytes.length + 1) hparts hframed (by omega)
  have hmap : plutusMapFromCbor (fromCborWithin fuel) bytes = .ok (declared.isNone, entries) := by
    rw [plutusMapFromCbor_eq]
    refine ReadsItem.decodeWith (hread.map ?_) (by omega)
    intro reader
    rfl
  rw [← List.length_append] at hlength
  refine ⟨.map (some (bytes ++ rest)) declared.isNone entries, ?_⟩
  apply decodeWith_peek ((@begins_framed _ _ _ _ .map (Or.inr rfl) hframed).append rest) hlength
  intro reader hbytes haccepts
  have hread := readsItem_encodedValue (hframed.map hitems) reader rest (remaining_append hbytes)
    haccepts
  exact Succeeds.bind hread (Succeeds.decode hmap Succeeds.pure)

theorem PlutusArray.begins {rules : DataRules} (h : PlutusArray rules bytes) :
    Begins bytes .startArray := by
  cases h with
  | mk hframed _ => exact @begins_framed _ _ _ _ .array (Or.inl rfl) hframed

theorem DecodesItem.part {item : List UInt8} (hitem : DataItem item) (h : DecodesItem item) {fuel : ℕ}
    (hlength : item.length < 2 ^ 53) (hfuel : item.length < fuel) :
    ∃ data, DecodesPart (fromCborWithin fuel) item data := by
  obtain ⟨inner, rfl⟩ : ∃ inner, fuel = inner + 1 := ⟨fuel - 1, by omega⟩
  obtain ⟨data, hdata⟩ := h [] inner (by rwa [List.append_nil]) (by omega)
  rw [List.append_nil] at hdata
  exact ⟨data, hitem, hdata⟩

theorem decodesItems_cons {item : List UInt8} (hitem : DataItem item) (hfirst : DecodesItem item)
    (hrest : DecodesItems count rest) : DecodesItems (count + 1) (item ++ rest) := by
  intro fuel hlength hfuel
  rw [List.length_append] at hlength hfuel
  obtain ⟨data, hdata⟩ := @DecodesItem.part _ hitem hfirst fuel (by omega) (by omega)
  obtain ⟨elements, items, hparts, rfl, rfl⟩ := hrest fuel (by omega) (by omega)
  exact ⟨item :: elements, data :: items, List.Forall₂.cons hdata hparts, rfl, rfl⟩

theorem decodesEntries_cons {key : List UInt8} (hkey : DataItem key) (hvalue : DataItem value)
    (hfirst : DecodesItem key) (hsecond : DecodesItem value) (hrest : DecodesEntries count rest) :
    DecodesEntries (count + 1) (key ++ value ++ rest) := by
  intro fuel hlength hfuel
  rw [List.length_append, List.length_append] at hlength hfuel
  obtain ⟨key', hkey'⟩ := @DecodesItem.part _ hkey hfirst fuel (by omega) (by omega)
  obtain ⟨value', hvalue'⟩ := @DecodesItem.part _ hvalue hsecond fuel (by omega) (by omega)
  obtain ⟨encoded, entries, hparts, rfl, rfl⟩ := hrest fuel (by omega) (by omega)
  exact ⟨(key, value) :: encoded, (key', value') :: entries,
    List.Forall₂.cons ⟨hkey', hvalue'⟩ hparts, rfl, rfl⟩

theorem decodesItem_constr (hhead : Head 6 number head) (hnumber : number ≠ 2 ∧ number ≠ 3)
    (hitem : DataItem bytes)
    (hconstr : ∀ fuel, (head ++ bytes).length < 2 ^ 53 → bytes.length ≤ fuel →
      ∃ value, constrFromCbor (fromCborWithin fuel) (head ++ bytes) = .ok value) :
    DecodesItem (head ++ bytes) := by
  intro rest fuel hlength hfuel
  obtain ⟨⟨alternative, data⟩, hvalue⟩ := hconstr fuel
    (by rw [List.length_append] at hlength; omega) (by rw [List.length_append] at hfuel; omega)
  refine ⟨.constr (some (head ++ bytes ++ rest)) alternative data, ?_⟩
  apply decodeWith_peek ((@begins_head .tag (by simp) _ _ hhead bytes).append rest) hlength
  intro reader hbytes haccepts
  have hbytes := remaining_append hbytes
  have hread := readsItem_encodedValue (DataItem.tag hhead hitem) reader rest hbytes haccepts
  rw [List.append_assoc] at hbytes
  apply Succeeds.read (peekTag_ok hhead hbytes haccepts)
  have htwo : roundToDouble number ≠ unsignedBigNumTag := fun h =>
    hnumber.1 ((roundToDouble_eq_iff (by decide)).mp h)
  have hthree : roundToDouble number ≠ negativeBigNumTag := fun h =>
    hnumber.2 ((roundToDouble_eq_iff (by decide)).mp h)
  rw [if_neg htwo, if_neg hthree]
  exact Succeeds.bind hread (Succeeds.decode hvalue Succeeds.pure)

theorem decodesItem_compact (hnumber : number ≠ 2 ∧ number ≠ 3 ∧ number ≠ 102)
    (hhead : Head 6 number head) (hitem : DataItem array) (harray : DecodesArray array) :
    DecodesItem (head ++ array) := by
  refine decodesItem_constr hhead ⟨hnumber.1, hnumber.2.1⟩ hitem fun fuel hlength hfuel => ?_
  rw [List.length_append] at hlength
  obtain ⟨data, hdata⟩ := harray fuel (by omega) hfuel
  refine ⟨(compactCborTagToAlternative (roundToDouble number), data), ?_⟩
  have hnext : ReadsItem (do
      let encoded ← reading readEncodedValue
      let data ← decoding (plutusListFromCbor (fromCborWithin fuel) encoded)
      pure (compactCborTagToAlternative (roundToDouble number), data)) array
      (compactCborTagToAlternative (roundToDouble number), data) := by
    refine (readsItem_encodedValue hitem).map fun reader => ?_
    rw [run_bind_ok (decoding_ok hdata)]
    rfl
  refine ReadsItem.decodeWith (readsItem_tagHead hhead ?_) (by rw [List.length_append]; omega)
  rw [if_neg]
  · exact hnext
  · intro hgeneral
    exact hnumber.2.2 ((roundToDouble_eq_iff (by omega)).mp (Int.ofNat.inj hgeneral))

theorem decodesItem_general {alternative : List UInt8} {value : ℤ} (hhead : Head 6 102 head)
    (halternative : IntegerHead alternative value) (hitem : DataItem array)
    (harray : DecodesArray array) (hframed : Framed 4 2 (alternative ++ array) declared bytes) :
    DecodesItem (head ++ bytes) := by
  have hitems := Items.cons halternative.dataItem (Items.cons hitem Items.nil)
  rw [List.append_nil] at hitems
  refine decodesItem_constr hhead (by omega) (hframed.array hitems) fun fuel hlength hfuel => ?_
  have hcontent := hframed.content_lt
  rw [List.length_append] at hlength hcontent
  obtain ⟨data, hdata⟩ := harray fuel (by omega) (by omega)
  refine ⟨(value, data), ?_⟩
  have hpair : Reads (do
      let alternative ← reading readInt
      let encoded ← reading readEncodedValue
      let data ← decoding (plutusListFromCbor (fromCborWithin fuel) encoded)
      pure (alternative, data)) (1 + 1) (alternative ++ array) (value, data) := by
    refine (readsItem_integerHead halternative).bind ?_
    refine (readsItem_encodedValue hitem).last fun reader => ?_
    rw [run_bind_ok (decoding_ok hdata)]
    rfl
  have hclosed := @readsItem_closedArray _ _ _ _ _ (fun _ => do
      let alternative ← reading readInt
      let encoded ← reading readEncodedValue
      let data ← decoding (plutusListFromCbor (fromCborWithin fuel) encoded)
      pure (alternative, data)) _ hframed hitems.le_length hpair
  simp only [bind_assoc, pure_bind] at hclosed
  refine ReadsItem.decodeWith (readsItem_tagHead hhead ?_) (by rw [List.length_append]; omega)
  rw [roundToDouble_of_lt (by omega), if_pos (by rfl)]
  exact hclosed

mutual

theorem decodesItem {item : List UInt8} : PlutusItem decoderRules item → DecodesItem item
  | .integer h => decodesItem_integer h
  | .bigInteger hnumber hhead hbytes => decodesItem_bigInteger hnumber hhead hbytes
  | .bytes h => decodesItem_bytes h
  | .list h => decodesItem_list h.dataItem h.begins (decodesArray_of h)
  | .map hframed hentries => decodesItem_map hframed hentries.items (decodesEntries hentries)
  | .compact hnumber hhead harray =>
    decodesItem_compact hnumber hhead harray.dataItem (decodesArray_of harray)
  | .general hhead hmajor halternative harray hframed => by
    obtain ⟨value, hvalue⟩ := exists_integerHead hmajor halternative
    exact decodesItem_general hhead hvalue harray.dataItem (decodesArray_of harray) hframed

theorem decodesArray_of {bytes : List UInt8} : PlutusArray decoderRules bytes → DecodesArray bytes
  | .mk hframed hitems => decodesArray hframed (decodesItems hitems)

theorem decodesItems {count : ℕ} {content : List UInt8} :
    PlutusItems decoderRules count content → DecodesItems count content
  | .nil => fun _ _ _ => ⟨[], [], List.Forall₂.nil, rfl, rfl⟩
  | .cons hitem hrest => decodesItems_cons hitem.dataItem (decodesItem hitem) (decodesItems hrest)

theorem decodesEntries {count : ℕ} {content : List UInt8} :
    PlutusEntries decoderRules count content → DecodesEntries count content
  | .nil => fun _ _ _ => ⟨[], [], List.Forall₂.nil, rfl, rfl⟩
  | .cons hkey hvalue hrest =>
    decodesEntries_cons hkey.dataItem hvalue.dataItem (decodesItem hkey) (decodesItem hvalue)
      (decodesEntries hrest)

end

end Completeness

def Accepted (cbor : List UInt8) : Prop := ∃ data, PlutusData.fromCbor cbor = .ok data

theorem accepted_iff (cbor : Uint8Array) :
    Accepted cbor.bytes ↔ ∃ item rest, cbor.bytes = item ++ rest ∧ PlutusItem decoderRules item := by
  constructor
  · rintro ⟨data, hdata⟩
    exact (readsData _ _ _ hdata).2
  · rintro ⟨item, rest, hbytes, hitem⟩
    have hlength := cbor.bound
    rw [hbytes] at hlength
    unfold Accepted PlutusData.fromCbor
    rw [hbytes]
    exact decodesItem hitem rest (item ++ rest).length hlength (by rw [List.length_append]; omega)

/-- The bytes start with an item that passes the decoder, but it does not end
them or is not plutus data under the rules. -/
def PassesUnchecked (rules : DataRules) (cbor : List UInt8) : Prop :=
  ∃ item rest, cbor = item ++ rest ∧ PlutusItem decoderRules item ∧
    (rest ≠ [] ∨ ¬PlutusItem rules item)

/-- The decoder accepts exactly the ledger's forms where nothing passes it unchecked. -/
theorem fromCbor_accepts_iff (bignumLength : ℕ → Prop) (cbor : Uint8Array) :
    (Accepted cbor.bytes ↔ PlutusItem (ledgerRules bignumLength) cbor.bytes) ↔
      ¬PassesUnchecked (ledgerRules bignumLength) cbor.bytes := by
  have hwithin := ledgerRules_within bignumLength
  constructor
  · rintro hexact ⟨item, rest, hbytes, hitem, hunchecked⟩
    have hstrict := hexact.mp ((accepted_iff cbor).mpr ⟨item, rest, hbytes, hitem⟩)
    have hlength := cbor.bound
    rw [hbytes] at hstrict hlength
    have hrest := dataItem_append_eq_nil hitem.dataItem (hstrict.mono hwithin).dataItem hlength
    rw [hrest, List.append_nil] at hstrict
    rcases hunchecked with hne | hnot
    · exact hne hrest
    · exact hnot hstrict
  · intro hchecked
    constructor
    · intro haccepted
      obtain ⟨item, rest, hbytes, hitem⟩ := (accepted_iff cbor).mp haccepted
      have hrest : rest = [] := by
        by_contra hne
        exact hchecked ⟨item, rest, hbytes, hitem, Or.inl hne⟩
      have hstrict : PlutusItem (ledgerRules bignumLength) item := by
        by_contra hnot
        exact hchecked ⟨item, rest, hbytes, hitem, Or.inr hnot⟩
      rwa [hbytes, hrest, List.append_nil]
    · intro hstrict
      exact (accepted_iff cbor).mpr ⟨cbor.bytes, [], (List.append_nil _).symm, hstrict.mono hwithin⟩

theorem PlutusItem.byteString {rules : DataRules} {first : UInt8} {rest : List UInt8}
    (h : PlutusItem rules (first :: rest)) (hmajor : getMajorType first = .byteString) :
    ∃ value, ByteString rules.byteLength (first :: rest) value := by
  have hother {type : CborMajorType} {argument : ℕ} {head tail : List UInt8}
      (hhead : Head type.toNat argument head) (heq : head ++ tail = first :: rest) :
      type = .byteString := by
    obtain ⟨first', payload, rfl, hfirst, _⟩ := head_first hhead
    cases heq
    rw [← hfirst, hmajor]
  have hframe {type : CborMajorType} {count : ℕ} {content bytes : List UInt8} {declared : Option ℕ}
      (htype : type = .array ∨ type = .map)
      (hframed : Framed type.toNat count content declared bytes) (heq : bytes = first :: rest) :
      False := by
    cases hframed with
    | definite hhead =>
      have := hother hhead heq
      rcases htype with rfl | rfl <;> cases this
    | indefinite =>
      cases heq
      rcases htype with rfl | rfl <;> cases hmajor
  generalize hitem : first :: rest = item at h
  cases h with
  | bytes h => exact ⟨_, h⟩
  | integer h =>
    cases h with
    | unsigned h => cases @hother .unsignedInteger _ _ [] h (by rw [List.append_nil, hitem])
    | negative h => cases @hother .negativeInteger _ _ [] h (by rw [List.append_nil, hitem])
  | bigInteger _ hhead => cases @hother .tag _ _ _ hhead hitem.symm
  | list h =>
    cases h with
    | mk hframed => exact (@hframe .array _ _ _ _ (Or.inl rfl) hframed hitem.symm).elim
  | map hframed => exact (@hframe .map _ _ _ _ (Or.inr rfl) hframed hitem.symm).elim
  | compact _ hhead => cases @hother .tag _ _ _ hhead hitem.symm
  | general hhead => cases @hother .tag _ _ _ hhead hitem.symm

def longBytes : Uint8Array := ⟨0x58 :: 65 :: List.replicate 65 0, by simp⟩

theorem fromCbor_accepts_longBytes :
    ¬(Accepted longBytes.bytes ↔ PlutusItem (ledgerRules (· ≤ 64)) longBytes.bytes) := by
  intro hexact
  have hhead : Head 2 65 [0x58, 65] := @Head.long 2 24 1 [65] ArgumentWidth.one rfl
  have hstring : ByteString AnyLength longBytes.bytes (List.replicate 65 0) :=
    @ByteString.whole AnyLength [0x58, 65] (List.replicate 65 0) hhead trivial
  have haccepted : Accepted longBytes.bytes := (accepted_iff longBytes).mpr
    ⟨longBytes.bytes, [], (List.append_nil _).symm, PlutusItem.bytes hstring⟩
  obtain ⟨value, hvalue⟩ := (hexact.mp haccepted).byteString (by decide)
  have hread := (readsItem_byteStringItem hstring).decodeWith longBytes.bound
  have hread' := (readsItem_byteStringItem hvalue).decodeWith longBytes.bound
  have hlong : value = List.replicate 65 0 := Except.ok.inj (hread'.symm.trans hread)
  generalize hbytes : (0x58 :: 65 :: List.replicate 65 0 : List UInt8) = bytes at hvalue
  cases hvalue with
  | whole _ hallowed =>
    rw [hlong] at hallowed
    have hshort : (List.replicate 65 (0 : UInt8)).length ≤ 64 := hallowed
    exact absurd hshort (by decide)
  | chunked =>
    have hfirst : (0x58 : UInt8) = initialByte 2 31 := (List.cons.inj hbytes).1
    exact absurd hfirst (by decide)

end CardanoSdk.Plutus
