import CardanoSdk.Serialization.OutputRoundTrip
import CardanoSdk.Serialization.Transaction

/-!
Transaction outputs in the legacy format and transactions are arrays whose last elements
may be missing: an array of open length declares none of them.
-/

namespace CardanoSdk.Serialization

open Lib Cbor Plutus Cardano
open TxConstruction (Hash)

section NextItem

variable {items : List (List UInt8)} {item tail : List UInt8} {declared : Option ℕ} {count : ℕ}
  {reader reader' : CborReader}

theorem Behind.exists_item (h : Behind items declared count reader) (hdeclared : declared ≠ none)
    (hcount : count ≤ items.length) (hroom : reader.currentFrame.isComplete = false) :
    ∃ item others, items.drop count = item :: others := by
  have hne : count ≠ items.length := by
    intro hall
    rw [h.ends hdeclared hall] at hroom
    cases hroom
  cases hdrop : items.drop count with
  | nil =>
    rw [List.drop_eq_nil_iff] at hdrop
    omega
  | cons item others => exact ⟨item, others, rfl⟩

theorem Behind.next {others : List (List UInt8)} (h : Behind items declared count reader)
    (hdrop : items.drop count = item :: others) :
    HasRoom reader (others.length + 1) ∧ ∃ tail, reader.getRemainingBytes = item ++ tail := by
  obtain ⟨tail, hbytes⟩ := h.bytes
  have hlength := congrArg List.length hdrop
  rw [List.length_drop, List.length_cons] at hlength
  rw [hdrop, List.flatten_cons, List.append_assoc] at hbytes
  have hroom := h.room
  rw [hlength] at hroom
  exact ⟨hroom, _, hbytes⟩

theorem plain_of_isContainer {frame : StackFrame} (h : frame.IsContainer) : Plain frame := by
  unfold Plain
  rcases h with htype | htype <;> simp [htype]

theorem not_taken_of_isComplete {bytes : List UInt8} (hcomplete : reader.currentFrame.isComplete = true) :
    ¬ Taken reader count bytes reader' := by
  intro htaken
  have hlength : reader.currentFrame.definiteLength = some reader.currentFrame.itemsRead := by
    simpa [StackFrame.isComplete] using hcomplete
  have hroom := htaken.room _ hlength le_rfl
  have hpos := htaken.pos
  omega

end NextItem

variable {reader : CborReader}

variable {reader' : CborReader} {auxData : Option AuxiliaryData}

theorem readBoolean_eq_ok {value : Bool} (h : readBoolean reader = .ok value reader') :
    ∃ first rest, reader.getRemainingBytes = first :: rest ∧ reader.currentFrame.Accepts first ∧
      first ≠ indefiniteLengthBreakByte ∧ peekItem first = .boolean := by
  obtain ⟨bytes, hpeek, _, _⟩ := readItem_eq_ok h
  obtain ⟨first, hfirst, hvalue⟩ := bind_ok hpeek
  obtain ⟨haccepts, rest, hbytes⟩ := accepts_of_peekInitialByte hfirst
  have htype := (peekInitialByte_eq_ok hfirst).2.2.2 _ rfl
  have hinfo : getAdditionalInfo first = additionalTrue ∨ getAdditionalInfo first = additionalFalse := by
    by_contra hother
    rw [not_or] at hother
    rw [if_pos hother] at hvalue
    cases hvalue
  refine ⟨first, rest, hbytes, haccepts, ?_, ?_⟩
  · rintro rfl
    rcases hinfo with hinfo | hinfo <;> exact absurd hinfo (by decide)
  · unfold peekItem
    rw [htype]
    rcases hinfo with hinfo | hinfo <;> rw [hinfo] <;> rfl

theorem auxiliaryData_not_boolean {first : UInt8} {rest : List UInt8} {data : AuxiliaryData}
    (hbreak : first ≠ indefiniteLengthBreakByte) (hfirst : peekItem first = .boolean) :
    AuxiliaryData.fromCbor (first :: rest) ≠ .ok data := by
  intro hrun
  obtain ⟨_, reader, reader', hfresh, _, hrun⟩ := decodeWith_eq_ok hrun
  obtain ⟨state, peeked, hpeek, hrun⟩ := run_bind_eq_ok hrun
  obtain ⟨hstate, rfl⟩ := peekState_eq_ok hfresh.cachedState hpeek
  rw [peekStateCore_item hfresh.bytes hbreak (hfresh.accepts first), hfirst] at hstate
  cases hstate
  obtain ⟨result, last, hformat, _⟩ := run_bind_eq_ok hrun
  obtain ⟨declared, entered, hstart, _⟩ := run_bind_eq_ok hformat
  have hstart := reading_eq_ok hstart
  unfold readStartArray at hstart
  obtain ⟨initial, peeked', hpeeking, _⟩ := run_bind_eq_ok hstart
  have hinitial := peekInitialByte_eq_ok (peeking_eq_ok hpeeking).1
  have hhead := hinitial.2.1
  rw [show (reader.cached .boolean).getRemainingBytes = first :: (rest ++ []) from hfresh.bytes] at hhead
  cases hhead
  have harray : getMajorType first = .array := hinitial.2.2.2 _ rfl
  unfold peekItem at hfirst
  rw [harray] at hfirst
  cases hfirst

/-- What is found where auxiliary data or null is expected. -/
def FindsAuxiliaryData (item : List UInt8) (auxData : Option AuxiliaryData) : Prop :=
  ∃ first rest, item = first :: rest ∧
    if peekItem first = .null then auxData = none
    else ∃ data, AuxiliaryData.fromCbor item = .ok data ∧ auxData = some data

theorem readAuxiliaryData_iff {item tail : List UInt8} {more : ℕ} (hitem : DataItem item)
    (hbytes : reader.getRemainingBytes = item ++ tail) (hroom : HasRoom reader (more + 1)) :
    Succeeds Transaction.readAuxiliaryData reader auxData ↔ FindsAuxiliaryData item auxData := by
  obtain ⟨first, rest, rfl, hbreak⟩ := hitem.exists_cons
  have hpeek := peekStateCore_item hbytes hbreak (hroom.accepts first)
  have hstate := reading_ok (peekState_ok hpeek (Or.inl hroom.cachedState))
  have hread (data : AuxiliaryData) (h : AuxiliaryData.fromCbor (first :: rest) = .ok data) :=
    readsItem_part hitem h (reader.cached (peekItem first)) tail hbytes hroom.accepts
  unfold Plutus.Succeeds FindsAuxiliaryData Transaction.readAuxiliaryData
  rw [run_bind_ok hstate]
  by_cases hnull : peekItem first = .null
  · rw [if_neg (not_not.mpr hnull)]
    constructor
    · rintro ⟨reader', hrun⟩
      cases hrun
      exact ⟨first, rest, rfl, by rw [if_pos hnull]⟩
    · rintro ⟨_, _, hsame, hfinds⟩
      cases hsame
      rw [if_pos hnull] at hfinds
      exact ⟨_, by rw [hfinds]; rfl⟩
  · rw [if_pos hnull]
    constructor
    · rintro ⟨reader', hrun⟩
      obtain ⟨data, last, hpart, hpure⟩ := run_bind_eq_ok hrun
      cases hpure
      have hplain : Plain (reader.cached (peekItem first)).currentFrame :=
        plain_of_isContainer hroom.frame
      obtain ⟨_, bytes, htaken, rfl, hdecodes⟩ :=
        takes_part AuxiliaryData.fromCbor _ _ _ hplain hpart
      obtain ⟨rest', hbytes'⟩ := htaken.bytes
      have hlt := reader.getRemainingBytes_lt
      change reader.getRemainingBytes = _ at hbytes'
      rw [hbytes] at hbytes' hlt
      have hsame := dataItem_eq_of_append hitem hdecodes.item hbytes' hlt
      refine ⟨first, rest, rfl, ?_⟩
      rw [if_neg hnull, hsame]
      exact ⟨data, hdecodes.decoded, rfl⟩
    · rintro ⟨_, _, hsame, hfinds⟩
      cases hsame
      rw [if_neg hnull] at hfinds
      obtain ⟨data, hdata, rfl⟩ := hfinds
      exact ⟨_, run_bind_ok (hread data hdata)⟩

theorem readAuxiliaryData_incomplete (hcontainer : reader.currentFrame.IsContainer)
    (hcached : reader.cachedState = .undefined)
    (hrun : Transaction.readAuxiliaryData reader = .ok auxData reader') :
    reader.currentFrame.isComplete = false := by
  by_contra hcomplete
  rw [Bool.not_eq_false] at hcomplete
  obtain ⟨state, peeked, hpeek, hrun⟩ := run_bind_eq_ok hrun
  obtain ⟨hstate, rfl⟩ := peekState_eq_ok hcached hpeek
  have hnull : state ≠ .null := by
    rintro rfl
    unfold peekStateCore at hstate
    rw [if_pos hcomplete] at hstate
    rcases hcontainer with htype | htype <;> rw [htype] at hstate <;> cases hstate
  rw [if_pos hnull] at hrun
  obtain ⟨data, last, hpart, _⟩ := run_bind_eq_ok hrun
  have hplain : Plain (reader.cached state).currentFrame := plain_of_isContainer hcontainer
  obtain ⟨_, bytes, htaken, _, _⟩ := takes_part AuxiliaryData.fromCbor _ _ _ hplain hpart
  exact not_taken_of_isComplete (show (reader.cached state).currentFrame.isComplete = true from
    hcomplete) htaken

section Transaction

variable {CoreBody Body CoreWitness Witness : Type} {body : Codec CoreBody Body}
  {witness : Codec CoreWitness Witness}

theorem takesItems_parts : TakesItems (Transaction.readParts body witness) := by
  apply TakesItems.bind (takesItem_part _).takesItems
  intro txBody
  exact (takesItem_part witness.fromCbor).takesItems.map fun witnessSet => (txBody, witnessSet)

/-- The decoder behind the body and the witness set. -/
def readRest (cbor : List UInt8) (length : Option ℕ) (parts : Body × Witness) :
    DecodeM (Transaction Body Witness) := do
  let isValid ← Transaction.readIsValid length
  let auxData ← Transaction.readAuxiliaryData
  pure {
    body := parts.1
    witnessSet := parts.2
    auxiliaryData := auxData
    isValid := isValid
    originalBytes := some cbor }

theorem Transaction.fromCbor_eq (cbor : List UInt8) :
    Transaction.fromCbor body witness cbor = decodeWith cbor (reading readStartArray >>= fun length =>
      Transaction.readParts body witness >>= readRest cbor length) := rfl

variable {length : Option ℕ} {parts : Body × Witness} {tx : Transaction Body Witness}

theorem readRest_eq_ok {cbor : List UInt8} {reader' : CborReader}
    (hlength : length ≠ some alonzoEraTxFrameSize)
    (h : readRest cbor length parts reader = .ok tx reader') :
    ∃ auxData, Transaction.readAuxiliaryData reader = .ok auxData reader' ∧
      tx = ⟨parts.1, parts.2, auxData, true, some cbor⟩ := by
  unfold readRest Transaction.readIsValid at h
  rw [if_neg hlength, run_bind_ok (show (pure true : DecodeM Bool) reader = .ok true reader from rfl)] at h
  obtain ⟨auxData, last, haux, hpure⟩ := run_bind_eq_ok h
  cases hpure
  exact ⟨auxData, haux, rfl⟩

theorem readRest_ok {cbor : List UInt8} {auxData : Option AuxiliaryData}
    (hlength : length ≠ some alonzoEraTxFrameSize)
    (h : Succeeds Transaction.readAuxiliaryData reader auxData) :
    Succeeds (readRest cbor length parts) reader
      ⟨parts.1, parts.2, auxData, true, some cbor⟩ := by
  obtain ⟨reader', haux⟩ := h
  unfold readRest Transaction.readIsValid
  rw [if_neg hlength]
  exact Succeeds.bind (show (pure true : DecodeM Bool) reader = .ok true reader from rfl)
    (Succeeds.bind haux Succeeds.pure)

variable {items : List (List UInt8)} {cbor indefinite : List UInt8}

/-- A transaction of another number of elements than four is the same in any frame. -/
theorem Transaction.fromCbor_indefinite (hitems : ∀ item ∈ items, DataItem item)
    (hdefinite : Framed 4 items.length items.flatten (some items.length) cbor)
    (hindefinite : Framed 4 items.length items.flatten none indefinite)
    (hlength : indefinite.length < 2 ^ 53) {tx : Transaction Body Witness}
    (hsize : items.length ≠ alonzoEraTxFrameSize)
    (hrun : Transaction.fromCbor body witness cbor = .ok tx) :
    Transaction.fromCbor body witness indefinite =
      .ok { tx with originalBytes := some indefinite } := by
  rw [Transaction.fromCbor_eq] at hrun
  obtain ⟨_, reader, reader', hfresh, _, hrun⟩ := decodeWith_eq_ok hrun
  obtain ⟨count, parts, middle, hcount, hreads, hbehind, hrest⟩ :=
    firstItems_of_run hitems hdefinite hfresh.bytes hfresh.accepts takesItems_parts hrun
  obtain ⟨auxData, haux, rfl⟩ := readRest_eq_ok (by simpa using hsize) hrest
  have hroom := readAuxiliaryData_incomplete hbehind.room.frame hbehind.room.cachedState haux
  obtain ⟨item, others, hdrop⟩ := hbehind.exists_item (by simp) hcount hroom
  have hitem : DataItem item :=
    hitems item (List.mem_of_mem_drop (hdrop ▸ List.mem_cons_self))
  obtain ⟨hmiddle, tail, hbytes⟩ := hbehind.next hdrop
  have hfinds := (readAuxiliaryData_iff hitem hbytes hmiddle).mp ⟨_, haux⟩
  rw [Transaction.fromCbor_eq]
  apply decodeWith_ok hlength
  intro reader hfresh
  obtain ⟨middle', hbehind', hsame⟩ := @run_firstItems _ _ _ _ _ _ reader _
    (readRest indefinite) parts count hitems hindefinite hfresh.bytes hfresh.accepts hcount hreads
  obtain ⟨hmiddle', tail', hbytes'⟩ := hbehind'.next hdrop
  unfold Plutus.Succeeds
  rw [hsame]
  exact readRest_ok (by simp) ((readAuxiliaryData_iff hitem hbytes' hmiddle').mpr hfinds)

/-- The flag of a transaction of four elements is taken for auxiliary data in an
array of open length. -/
theorem Transaction.fromCbor_indefinite_ne_ok (hitems : ∀ item ∈ items, DataItem item)
    (hdefinite : Framed 4 items.length items.flatten (some items.length) cbor)
    (hindefinite : Framed 4 items.length items.flatten none indefinite)
    {tx' : Transaction Body Witness} (hsize : items.length = alonzoEraTxFrameSize)
    (hrun : Transaction.fromCbor body witness cbor = .ok tx) :
    Transaction.fromCbor body witness indefinite ≠ .ok tx' := by
  rw [Transaction.fromCbor_eq] at hrun
  obtain ⟨_, reader, reader', hfresh, _, hrun⟩ := decodeWith_eq_ok hrun
  obtain ⟨count, parts, middle, hcount, hreads, hbehind, hrest⟩ :=
    firstItems_of_run hitems hdefinite hfresh.bytes hfresh.accepts takesItems_parts hrun
  obtain ⟨isValid, behind, hvalid, _⟩ := run_bind_eq_ok hrest
  unfold Transaction.readIsValid at hvalid
  rw [if_pos (by rw [hsize])] at hvalid
  obtain ⟨first, rest, hbytes, haccepts, hbreak, hboolean⟩ := readBoolean_eq_ok (reading_eq_ok hvalid)
  obtain ⟨item, others, hdrop⟩ := hbehind.exists_item (by simp) hcount haccepts.room
  have hitem : DataItem item :=
    hitems item (List.mem_of_mem_drop (hdrop ▸ List.mem_cons_self))
  obtain ⟨_, tail, hbytes'⟩ := hbehind.next hdrop
  rw [Transaction.fromCbor_eq]
  intro hrun'
  obtain ⟨_, reader, reader', hfresh, _, hrun'⟩ := decodeWith_eq_ok hrun'
  obtain ⟨middle', hbehind', hsame⟩ := @run_firstItems _ _ _ _ _ _ reader _
    (readRest indefinite) parts count hitems hindefinite hfresh.bytes hfresh.accepts hcount hreads
  rw [hsame] at hrun'
  obtain ⟨auxData, haux, _⟩ := readRest_eq_ok (by simp) hrun'
  obtain ⟨hmiddle', tail', hbytes''⟩ := hbehind'.next hdrop
  obtain ⟨first', rest', rfl, hfinds⟩ := (readAuxiliaryData_iff hitem hbytes'' hmiddle').mp ⟨_, haux⟩
  rw [hbytes, List.cons_append] at hbytes'
  obtain rfl := (List.cons.inj hbytes').1
  rw [if_neg (by rw [hboolean]; simp)] at hfinds
  obtain ⟨data, hdata, _⟩ := hfinds
  exact auxiliaryData_not_boolean hbreak hboolean hdata

end Transaction

section Output

variable {CoreScript Script : Type} {text : TextEncodings} {script : Codec CoreScript Script}
  {strict : Bool}

theorem takesItem_address : TakesItem (readAddress text) := by
  have hmap := @Takes.map _ _ _ (fun bytes => decoding (AddressProps.fromBytes text bytes)) _
    (fun bytes address => AddressProps.fromBytes text bytes = .ok address) takes_byteString
    (fun bytes reader address reader' h => (decoding_eq_ok h).symm)
  refine hmap.mono ?_
  rintro items bytes address ⟨value, ⟨hone, hitem⟩, haddress⟩
  exact ⟨hone, hitem.dataItem, (readsItem_byteStringItem hitem).map fun _ => decoding_ok haddress⟩

def readRequired (text : TextEncodings) : DecodeM (AddressProps × Value) := do
  let address ← readAddress text
  let value ← readPart Value.fromCbor
  pure (address, value)

theorem takesItems_required : TakesItems (readRequired text) := by
  apply TakesItems.bind takesItem_address.takesItems
  intro address
  exact (takesItem_part Value.fromCbor).takesItems.map fun value => (address, value)

def readOptional (length : Option ℕ) (required : AddressProps × Value) :
    DecodeM (OutputFields Script) := do
  let datum ← readDatumHash length
  pure { address := some required.1, value := some required.2, datum := datum }

theorem readOutputArray_eq : @readOutputArray Script text =
    (reading readStartArray >>= fun length => readRequired text >>= readOptional length) := by
  unfold readOutputArray readRequired readOptional
  simp

variable {items : List (List UInt8)} {cbor indefinite : List UInt8}

variable {output : TransactionOutput Script}

theorem TransactionOutput.fromCbor_legacy (hitems : ∀ item ∈ items, DataItem item)
    (hdefinite : Framed 4 items.length items.flatten (some items.length) cbor)
    (hrun : TransactionOutput.fromCbor text script strict cbor = .ok output) :
    ∃ count required datum middle reader', count ≤ items.length ∧
      Reads (readRequired text) count (items.take count).flatten required ∧
      readDatumHash (some items.length) middle = .ok datum reader' ∧
      output = ⟨required.1, required.2, datum, none, some cbor⟩ := by
  have hbegins := begins_framed (Or.inl rfl) hdefinite
  obtain ⟨_, reader, reader', hfresh, _, hrun⟩ := decodeWith_eq_ok hrun
  obtain ⟨state, peeked, hpeek, hrun⟩ := run_bind_eq_ok hrun
  obtain ⟨hstate, rfl⟩ := peekState_eq_ok hfresh.cachedState hpeek
  rw [hbegins reader [] hfresh.bytes hfresh.accepts] at hstate
  cases hstate
  rw [if_neg (by decide)] at hrun
  obtain ⟨fields, last, harray, hfields⟩ := run_bind_eq_ok hrun
  rw [readOutputArray_eq] at harray
  obtain ⟨count, required, middle, hcount, hreads, _, hrest⟩ :=
    @firstItems_of_run _ _ _ _ _ (reader.cached .startArray) _ _ _ _ hitems hdefinite
      hfresh.bytes hfresh.accepts takesItems_required harray
  obtain ⟨datum, behind, hdatum, hpure⟩ := run_bind_eq_ok hrest
  cases hpure
  cases hfields
  exact ⟨count, required, datum, middle, _, hcount, hreads, hdatum, rfl⟩

theorem TransactionOutput.fromCbor_indefinite {count : ℕ} {required : AddressProps × Value}
    (hitems : ∀ item ∈ items, DataItem item)
    (hindefinite : Framed 4 items.length items.flatten none indefinite)
    (hlength : indefinite.length < 2 ^ 53) (hcount : count ≤ items.length)
    (hreads : Reads (readRequired text) count (items.take count).flatten required) :
    TransactionOutput.fromCbor text script strict indefinite =
      .ok ⟨required.1, required.2, none, none, some indefinite⟩ := by
  apply decodeWith_peek (begins_framed (Or.inl rfl) hindefinite) hlength
  intro reader hbytes haccepts
  rw [if_neg (by decide), readOutputArray_eq]
  obtain ⟨middle, _, hsame⟩ := @run_firstItems _ _ _ _ _ _ reader _
    (@readOptional Script) required count hitems hindefinite hbytes haccepts hcount hreads
  have hrun : (reading readStartArray >>= fun length => readRequired text >>= readOptional length)
      reader = .ok ({ address := some required.1, value := some required.2 } : OutputFields Script)
        middle := by
    rw [hsame]
    rfl
  exact Succeeds.bind hrun Succeeds.pure

theorem readDatumHash_eq_ok {size : ℕ} {datum : Option Datum} {reader' : CborReader}
    (h : readDatumHash (some size) reader = .ok datum reader') :
    (size = 3 ∧ ∃ hash, datum = some (.dataHash hash)) ∨ (size ≠ 3 ∧ datum = none) := by
  unfold readDatumHash at h
  by_cases hsize : size = 3
  · rw [if_pos (by rw [hsize])] at h
    obtain ⟨hash, middle, _, h⟩ := run_bind_eq_ok h
    obtain ⟨value, last, hcheck, hpure⟩ := run_bind_eq_ok h
    cases hpure
    obtain ⟨hvalue, _⟩ := decoding_eq_ok hcheck
    unfold newDatum at hvalue
    cases htruthy : truthy (some hash) with
    | none =>
      rw [htruthy] at hvalue
      cases hvalue
    | some hash' =>
      rw [htruthy] at hvalue
      cases hvalue
      exact Or.inl ⟨hsize, hash', rfl⟩
  · rw [if_neg (by simpa using hsize)] at h
    cases h
    exact Or.inr ⟨hsize, rfl⟩

theorem datumHash_of_toCore {core : TxOut CoreScript} (h : output.toCore text script = .ok core) :
    core.datumHash = asDataHash output.datum := by
  obtain ⟨address, _, h⟩ := bind_ok h
  obtain ⟨datum, _, h⟩ := bind_ok h
  obtain ⟨scriptReference, _, h⟩ := bind_ok h
  cases h
  rfl

end Output

section Frames

variable {CoreScript Script CoreBody Body CoreWitness Witness : Type}

/-- An output in the legacy format and a transaction that are accepted in an
array of declared length: the same items in an array of open length are decoded
to the same core value exactly if the output has not three elements, and the
transaction not four. -/
theorem openFrame_iff (text : TextEncodings) (script : Codec CoreScript Script) (strict : Bool)
    (body : Codec CoreBody Body) (witness : Codec CoreWitness Witness)
    (blake2b : List UInt8 → Hash) {items : List (List UInt8)} {cbor indefinite : List UInt8}
    (hitems : ∀ item ∈ items, DataItem item)
    (hdefinite : Framed 4 items.length items.flatten (some items.length) cbor)
    (hindefinite : Framed 4 items.length items.flatten none indefinite)
    (hlength : indefinite.length < 2 ^ 53) :
    (∀ output core, TransactionOutput.fromCbor text script strict cbor = .ok output →
      output.toCore text script = .ok core →
      ((∃ output', TransactionOutput.fromCbor text script strict indefinite = .ok output' ∧
        output'.toCore text script = .ok core) ↔ items.length ≠ 3)) ∧
    (∀ tx core, Transaction.fromCbor body witness cbor = .ok tx →
      tx.toCore body witness blake2b = .ok core →
      ((∃ tx', Transaction.fromCbor body witness indefinite = .ok tx' ∧
        tx'.toCore body witness blake2b = .ok core) ↔ items.length ≠ 4)) := by
  constructor
  · intro output core hrun hcore
    obtain ⟨count, required, datum, middle, reader', hcount, hreads, hdatum, rfl⟩ :=
      TransactionOutput.fromCbor_legacy hitems hdefinite hrun
    have hopen := @TransactionOutput.fromCbor_indefinite _ _ text script strict _ _ _ _ hitems
      hindefinite hlength hcount hreads
    have hhash := datumHash_of_toCore hcore
    constructor
    · rintro ⟨output', hrun', hcore'⟩ hsize
      rw [hopen] at hrun'
      cases hrun'
      have hnone := datumHash_of_toCore hcore'
      obtain ⟨_, hash, rfl⟩ | ⟨hsize', _⟩ := readDatumHash_eq_ok hdatum
      · rw [hhash] at hnone
        cases hnone
      · exact hsize' hsize
    · intro hsize
      obtain ⟨hsize', _⟩ | ⟨_, rfl⟩ := readDatumHash_eq_ok hdatum
      · exact absurd hsize' hsize
      · exact ⟨_, hopen, hcore⟩
  · intro tx core hrun hcore
    constructor
    · rintro ⟨tx', hrun', _⟩ hsize
      exact Transaction.fromCbor_indefinite_ne_ok hitems hdefinite hindefinite hsize hrun hrun'
    · intro hsize
      exact ⟨_, Transaction.fromCbor_indefinite hitems hdefinite hindefinite hlength hsize hrun, hcore⟩

end Frames

def zeroHash : List UInt8 := List.replicate 32 0

def hashOutputItems : List (List UInt8) :=
  [encodeChunk enterpriseBytes, encodeInt 0, encodeChunk zeroHash]

theorem dataItem_hashOutputItems : ∀ item ∈ hashOutputItems, DataItem item := by
  have haddress := @dataItem_encodeChunk enterpriseBytes (by decide)
  have hcoin := @dataItem_encodeInt 0 (by decide) (by decide)
  have hhash := @dataItem_encodeChunk zeroHash (by decide)
  intro item h
  simp only [hashOutputItems, List.mem_cons, List.not_mem_nil, or_false] at h
  rcases h with rfl | rfl | rfl
  · exact haddress
  · exact hcoin
  · exact hhash

/-- An empty map for the body and for the witness set, valid, without auxiliary data. -/
def flagTransactionItems : List (List UInt8) := [[0xa0], [0xa0], [0xf5], [0xf6]]

def keptBytes : Codec (List UInt8) (List UInt8) where
  fromCore := .ok
  toCbor := .ok
  fromCbor := .ok
  toCore := .ok

theorem openFrame_iff_hashOutput :
    (∀ output core, TransactionOutput.fromCbor enterpriseEncodings noScripts true
        (encodeHead .array 3 ++ hashOutputItems.flatten) = .ok output →
      output.toCore enterpriseEncodings noScripts = .ok core →
      ((∃ output', TransactionOutput.fromCbor enterpriseEncodings noScripts true
          (0x9f :: (hashOutputItems.flatten ++ [0xff])) = .ok output' ∧
        output'.toCore enterpriseEncodings noScripts = .ok core) ↔ 3 ≠ 3)) ∧
    (∀ tx core, Transaction.fromCbor keptBytes keptBytes
        (encodeHead .array 3 ++ hashOutputItems.flatten) = .ok tx →
      tx.toCore keptBytes keptBytes id = .ok core →
      ((∃ tx', Transaction.fromCbor keptBytes keptBytes
          (0x9f :: (hashOutputItems.flatten ++ [0xff])) = .ok tx' ∧
        tx'.toCore keptBytes keptBytes id = .ok core) ↔ 3 ≠ 4)) :=
  @openFrame_iff _ _ _ _ _ _ enterpriseEncodings noScripts true keptBytes keptBytes id
    hashOutputItems _ _ dataItem_hashOutputItems
    (Framed.definite (head_encodeHead .array (by decide))) Framed.indefinite (by decide)

/-- In an array of open length the hash is lost, and the flag is refused. -/
theorem openFrame_differs :
    (∃ output output' core core',
      TransactionOutput.fromCbor enterpriseEncodings noScripts true
        (0x83 :: hashOutputItems.flatten) = .ok output ∧
      output.toCore enterpriseEncodings noScripts = .ok core ∧
      TransactionOutput.fromCbor enterpriseEncodings noScripts true
        (0x9f :: (hashOutputItems.flatten ++ [0xff])) = .ok output' ∧
      output'.toCore enterpriseEncodings noScripts = .ok core' ∧
      core.datumHash = some zeroHash ∧ core'.datumHash = none) ∧
    (∃ tx, Transaction.fromCbor keptBytes keptBytes (0x84 :: flagTransactionItems.flatten) = .ok tx) ∧
    ∀ tx, Transaction.fromCbor keptBytes keptBytes
      (0x9f :: (flagTransactionItems.flatten ++ [0xff])) ≠ .ok tx := by
  refine ⟨⟨_, _, _, _, rfl, rfl, rfl, rfl, rfl, rfl⟩, ⟨_, rfl⟩, ?_⟩
  intro tx hrun
  cases hrun

end CardanoSdk.Serialization
