import CardanoSdk.Serialization.ArrayFraming
import CardanoSdk.Serialization.Nullables
import CardanoSdk.Serialization.TransactionWitnessSet

/-!
Parties add their signatures to a transaction in turn; the bytes of the body, which they
sign, stand in all that is sent.
-/

namespace CardanoSdk.Serialization

open Lib Cbor Plutus Cardano
open TxConstruction (Hash)

variable {CoreBody Body CoreWitness Witness : Type} {body : Codec CoreBody Body}
  {witness : Codec CoreWitness Witness} {cbor : List UInt8} {tx : Transaction Body Witness}

def OpensArray (head : List UInt8) : Prop :=
  head = [initialByte 4 31] ∨ ∃ length, Head 4 length head

theorem Entered.exists_head {reader entered : CborReader} {declared : Option ℕ}
    (h : Entered reader .array declared entered) :
    ∃ head, OpensArray head ∧ reader.getRemainingBytes = head ++ entered.getRemainingBytes := by
  cases h with
  | definite hopens =>
    obtain ⟨rest, hbytes⟩ := hopens.bytes
    refine ⟨_, Or.inr ⟨_, hopens.header⟩, ?_⟩
    rw [CborReader.getRemainingBytes_enter, hbytes, List.drop_left]
  | indefinite hopens =>
    obtain ⟨rest, hbytes⟩ := hopens.bytes
    refine ⟨_, Or.inl rfl, ?_⟩
    rw [CborReader.getRemainingBytes_enter, hbytes]
    rfl

theorem toCbor_auxiliaryData {data : AuxiliaryData} (hitem : DataItem cbor)
    (h : AuxiliaryData.fromCbor cbor = .ok data) : data.toCbor = .ok cbor := by
  obtain ⟨first, rest, rfl, -⟩ := hitem.exists_cons
  obtain ⟨-, reader, reader', -, -, hrun⟩ := decodeWith_eq_ok h
  obtain ⟨state, peeked, -, hrun⟩ := run_bind_eq_ok hrun
  obtain ⟨result, last, -, hpure⟩ := run_bind_eq_ok hrun
  cases hpure
  rfl

def HoldsBody (bodyBytes cbor : List UInt8) : Prop :=
  ∃ head rest, OpensArray head ∧ cbor = head ++ (bodyBytes ++ rest)

/-- The auxiliary data was read from an item, so that it is written as this item. -/
def FromItem (auxData : Option AuxiliaryData) : Prop :=
  ∀ data ∈ auxData, ∃ item, DecodesPart AuxiliaryData.fromCbor item data ∧
    FindsAuxiliaryData item auxData

theorem readAuxiliaryData_fromItem {reader reader' : CborReader} {auxData : Option AuxiliaryData}
    (hcontainer : reader.currentFrame.IsContainer) (hcached : reader.cachedState = .undefined)
    (h : Transaction.readAuxiliaryData reader = .ok auxData reader') : FromItem auxData := by
  obtain ⟨state, peeked, hpeek, hrun⟩ := run_bind_eq_ok h
  obtain ⟨hcore, rfl⟩ := peekState_eq_ok hcached hpeek
  split at hrun
  · rename_i hnull
    obtain ⟨data, last, hpart, hpure⟩ := run_bind_eq_ok hrun
    cases hpure
    have hplain : Plain (reader.cached state).currentFrame := plain_of_isContainer hcontainer
    obtain ⟨_, item, htaken, -, hdecodes⟩ := takes_part AuxiliaryData.fromCbor _ _ _ hplain hpart
    obtain ⟨first, rest, rfl, hbreak⟩ := hdecodes.item.exists_cons
    obtain ⟨tail, hbytes⟩ := htaken.of_cached.bytes
    have hroom : reader.currentFrame.isComplete = false :=
      Bool.eq_false_iff.mpr fun hcomplete => not_taken_of_isComplete hcomplete htaken.of_cached
    have htoken := peekStateCore_item hbytes hbreak (accepts_of_isContainer hcontainer hroom first)
    cases hcore.symm.trans htoken
    rintro _ ⟨⟩
    exact ⟨_, hdecodes, first, rest, rfl, by rw [if_neg hnull]; exact ⟨_, hdecodes.decoded, rfl⟩⟩
  · cases hrun
    rintro _ ⟨⟩

theorem fromCbor_parts (h : Transaction.fromCbor body witness cbor = .ok tx) :
    ∃ bodyBytes, HoldsBody bodyBytes cbor ∧ DecodesPart body.fromCbor bodyBytes tx.body ∧
      FromItem tx.auxiliaryData := by
  obtain ⟨-, reader, reader', hfresh, -, hrun⟩ := decodeWith_eq_ok h
  obtain ⟨declared, entered, hstart, hrun⟩ := run_bind_eq_ok hrun
  have hentered := readStartArray_entered (reading_eq_ok hstart)
  obtain ⟨head, hhead, hbytes⟩ := hentered.exists_head
  rw [hfresh.bytes, List.append_nil] at hbytes
  have hcontainer : entered.currentFrame.IsContainer := Or.inl hentered.frame_type
  have hplain := plain_of_isContainer hcontainer
  obtain ⟨parts, behind, hparts, hrun⟩ := run_bind_eq_ok hrun
  obtain ⟨txBody, middle, hbody, hparts⟩ := run_bind_eq_ok hparts
  obtain ⟨witnessSet, _, hwitness, hpure⟩ := run_bind_eq_ok hparts
  cases hpure
  obtain ⟨_, bodyBytes, htaken, -, hdecodes⟩ := takes_part body.fromCbor _ _ _ hplain hbody
  obtain ⟨_, _, htaken', -, -⟩ :=
    takes_part witness.fromCbor _ _ _ (htaken.plain hplain) hwitness
  obtain ⟨isValid, last, hvalid, hrun⟩ := run_bind_eq_ok hrun
  obtain ⟨auxData, _, haux, hpure⟩ := run_bind_eq_ok hrun
  cases hpure
  obtain ⟨rest, hrest⟩ := htaken.bytes
  refine ⟨bodyBytes, ⟨head, rest, hhead, by rw [hbytes, hrest]⟩, hdecodes, ?_⟩
  cases htaken.state
  cases htaken'.state
  -- the flag is one more item, if it is there
  have hlast : last.currentFrame.IsContainer ∧ last.cachedState = .undefined := by
    unfold Transaction.readIsValid at hvalid
    split at hvalid
    · obtain ⟨_, -, -, rfl⟩ := readItem_eq_ok (reading_eq_ok hvalid)
      exact ⟨hcontainer, rfl⟩
    · cases hvalid
      exact ⟨hcontainer, rfl⟩
  exact readAuxiliaryData_fromItem hlast.1 hlast.2 haux

def flagBytes (isValid : Bool) : List UInt8 := [initialByte 7 (if isValid then 21 else 20)]

theorem writes_boolean (isValid : Bool) : Writes (writeBoolean isValid) (flagBytes isValid) := by
  cases isValid
  · exact @writes_initialByte .simple 20 (by decide)
  · exact @writes_initialByte .simple 21 (by decide)

theorem dataItem_flag (isValid : Bool) : DataItem (flagBytes isValid) := by
  cases isValid
  · exact @DataItem.simple 20 (by decide)
  · exact @DataItem.simple 21 (by decide)

theorem exists_auxiliaryItem {auxData : Option AuxiliaryData} (h : FromItem auxData) :
    ∃ item, DataItem item ∧ Encodes (Transaction.writeAuxiliaryData auxData) item ∧
      FindsAuxiliaryData item auxData := by
  cases auxData with
  | none =>
    refine ⟨nullBytes, dataItem_null, encodes_writing writes_null, _, _, rfl, ?_⟩
    rw [if_pos (by decide)]
  | some data =>
    obtain ⟨item, hdecodes, hfinds⟩ := h data rfl
    have hwritten := toCbor_auxiliaryData hdecodes.item hdecodes.decoded
    exact ⟨item, hdecodes.item,
      Encodes.encode hwritten (encodes_writing (writes_encodedValue item)), hfinds⟩

section Sent

variable {bodyBytes witnessBytes auxBytes signed : List UInt8} {witnessSet decoded : Witness}

def sentItems (bodyBytes witnessBytes auxBytes : List UInt8) (isValid : Bool) :
    List (List UInt8) :=
  [bodyBytes, witnessBytes, flagBytes isValid, auxBytes]

theorem encode_sent (hbody : body.toCbor tx.body = .ok bodyBytes)
    (hwitness : witness.toCbor tx.witnessSet = .ok witnessBytes)
    (haux : Encodes (Transaction.writeAuxiliaryData tx.auxiliaryData) auxBytes) :
    encodeAsHex (tx.encode body witness) = .ok (encodeHead .array 4 ++
      (sentItems bodyBytes witnessBytes auxBytes tx.isValid).flatten) := by
  have hflatten : (sentItems bodyBytes witnessBytes auxBytes tx.isValid).flatten =
      bodyBytes ++ (witnessBytes ++ (flagBytes tx.isValid ++ auxBytes)) := by
    simp [sentItems]
  have hfirst : Encodes (writePart body.toCbor tx.body) bodyBytes :=
    Encodes.encode hbody (encodes_writing (writes_encodedValue bodyBytes))
  have hsecond : Encodes (writePart witness.toCbor tx.witnessSet) witnessBytes :=
    Encodes.encode hwitness (encodes_writing (writes_encodedValue witnessBytes))
  rw [hflatten]
  exact encodeAsHex_ok (Encodes.write (writes_startArray (by decide))
    (hfirst.bind (hsecond.bind (Encodes.write (writes_boolean tx.isValid) haux))))

theorem fromCbor_sent (hbody : DecodesPart body.fromCbor bodyBytes tx.body)
    (hwitness : DecodesPart witness.fromCbor witnessBytes decoded) (hitem : DataItem auxBytes)
    (haux : FindsAuxiliaryData auxBytes tx.auxiliaryData)
    (hsigned : signed = encodeHead .array 4 ++
      (sentItems bodyBytes witnessBytes auxBytes tx.isValid).flatten)
    (hlength : signed.length < 2 ^ 53) :
    Transaction.fromCbor body witness signed =
      .ok { tx with witnessSet := decoded, originalBytes := some signed } := by
  have hitems : ∀ item ∈ sentItems bodyBytes witnessBytes auxBytes tx.isValid, DataItem item := by
    simp [sentItems, hbody.item, hwitness.item, dataItem_flag, hitem]
  have hframed : Framed 4 4 (sentItems bodyBytes witnessBytes auxBytes tx.isValid).flatten
      (some 4) signed := by
    rw [hsigned]
    exact Framed.definite (head_encodeHead .array (by decide))
  have hreads : Reads (Transaction.readParts body witness) 2
      ((sentItems bodyBytes witnessBytes auxBytes tx.isValid).take 2).flatten
      (tx.body, decoded) := by
    have htake : ((sentItems bodyBytes witnessBytes auxBytes tx.isValid).take 2).flatten =
        bodyBytes ++ witnessBytes := by
      simp [sentItems]
    rw [htake]
    have hsecond : Reads (readPart witness.fromCbor >>= fun witnessSet => pure (tx.body, witnessSet))
        1 witnessBytes (tx.body, decoded) :=
      (readsItem_part hwitness.item hwitness.decoded).last fun _ => rfl
    change Reads (readPart body.fromCbor >>= fun txBody =>
      readPart witness.fromCbor >>= fun witnessSet => pure (txBody, witnessSet)) (1 + 1)
      (bodyBytes ++ witnessBytes) (tx.body, decoded)
    exact (readsItem_part hbody.item hbody.decoded).bind hsecond
  rw [Transaction.fromCbor_eq]
  apply decodeWith_ok hlength
  intro reader hfresh
  obtain ⟨middle, hbehind, hsame⟩ := @run_firstItems _ _ _ _ _ _ reader _
    (readRest signed) (tx.body, decoded) 2 hitems hframed hfresh.bytes hfresh.accepts
    (Nat.le_add_left 2 2) hreads
  obtain ⟨hroom, _⟩ := hbehind.next (show _ = flagBytes tx.isValid :: [auxBytes] from rfl)
  obtain ⟨tail, hbytes⟩ := hbehind.bytes
  have hflag := readBoolean_ok tx.isValid hbytes (hroom.accepts _)
  have hbehindFlag : (middle.pass 1 1).getRemainingBytes = auxBytes ++ tail := by
    rw [CborReader.getRemainingBytes_pass, hbytes]
    simp [sentItems, flagBytes]
  have hlast := (readAuxiliaryData_iff hitem hbehindFlag (hroom.next 1)).mpr haux
  unfold Plutus.Succeeds
  rw [hsame]
  exact Succeeds.bind (reading_ok hflag) (Succeeds.bind hlast.choose_spec Succeeds.pure)

/-- Another reading of the transaction, which may differ in the witness set. -/
structure SameBut (sent tx : Transaction Body Witness) : Prop where
  body : sent.body = tx.body
  isValid : sent.isValid = tx.isValid
  auxiliaryData : sent.auxiliaryData = tx.auxiliaryData

theorem setWitnessSet_sent (hbody : DecodesPart body.fromCbor bodyBytes tx.body)
    (hkept : body.toCbor tx.body = .ok bodyBytes) (haux : FromItem tx.auxiliaryData)
    (hwritten : witness.toCbor witnessSet = .ok witnessBytes)
    (hread : DecodesPart witness.fromCbor witnessBytes decoded) :
    ∃ signed, (tx.setWitnessSet witnessSet).toCbor body witness = .ok signed ∧
      HoldsBody bodyBytes signed ∧ (signed.length < 2 ^ 53 →
        ∃ sent, Transaction.fromCbor body witness signed = .ok sent ∧ SameBut sent tx) := by
  obtain ⟨auxBytes, hitem, hencodes, hfinds⟩ := exists_auxiliaryItem haux
  refine ⟨_, encode_sent hkept hwritten hencodes, ?_, fun hlength => ?_⟩
  · exact ⟨encodeHead .array 4, _, Or.inr ⟨4, head_encodeHead .array (by decide)⟩, rfl⟩
  · exact ⟨_, fromCbor_sent hbody hread hitem hfinds rfl hlength, rfl, rfl, rfl⟩

/-- A party reads what it was sent, sets a witness set that can be written and read, and
passes the transaction on, as `addSignatures` does. -/
inductive PassesOn (body : Codec CoreBody Body) (witness : Codec CoreWitness Witness)
    (cbor signed : List UInt8) : Prop
  | signing (tx : Transaction Body Witness) (witnessSet decoded : Witness)
      (witnessBytes : List UInt8) (hreceived : Transaction.fromCbor body witness cbor = .ok tx)
      (hwritten : witness.toCbor witnessSet = .ok witnessBytes)
      (hread : DecodesPart witness.fromCbor witnessBytes decoded)
      (hsent : (tx.setWitnessSet witnessSet).toCbor body witness = .ok signed)

structure KeepsBody (body : Codec CoreBody Body) (witness : Codec CoreWitness Witness)
    (tx : Transaction Body Witness) (bodyBytes cbor : List UInt8) : Prop where
  holds : HoldsBody bodyBytes cbor
  reads : cbor.length < 2 ^ 53 →
    ∃ sent, Transaction.fromCbor body witness cbor = .ok sent ∧ SameBut sent tx

theorem KeepsBody.passesOn (hbody : DecodesPart body.fromCbor bodyBytes tx.body)
    (hkept : body.toCbor tx.body = .ok bodyBytes) (haux : FromItem tx.auxiliaryData)
    (h : KeepsBody body witness tx bodyBytes cbor) (hpasses : PassesOn body witness cbor signed) :
    KeepsBody body witness tx bodyBytes signed := by
  obtain ⟨tx', witnessSet, decoded, witnessBytes, hreceived, hwritten, hread, hsent⟩ := hpasses
  obtain ⟨sent, hagain, hsame⟩ := h.reads (decodeWith_eq_ok hreceived).1
  cases hreceived.symm.trans hagain
  rw [← hsame.body] at hbody hkept
  rw [← hsame.auxiliaryData] at haux
  obtain ⟨next, hnext, hholds, hreads⟩ := setWitnessSet_sent hbody hkept haux hwritten hread
  cases hsent.symm.trans hnext
  refine ⟨hholds, fun hlength => ?_⟩
  obtain ⟨last, hlast, hlike⟩ := hreads hlength
  exact ⟨last, hlast, hlike.body.trans hsame.body, hlike.isValid.trans hsame.isValid,
    hlike.auxiliaryData.trans hsame.auxiliaryData⟩

end Sent

section Rounds

variable {CoreFields Fields : Type} {fields : Codec CoreFields Fields}
  {tx : Transaction (TransactionBody Fields) Witness}

/-- A body that was read is written as the bytes it was read from. -/
theorem toCbor_transactionBody {read : TransactionBody Fields} (hitem : DataItem cbor)
    (h : (transactionBodyCodec fields).fromCbor cbor = .ok read) :
    (transactionBodyCodec fields).toCbor read = .ok cbor := by
  obtain ⟨first, rest, rfl, -⟩ := hitem.exists_cons
  obtain ⟨made, -, hread⟩ := bind_ok h
  cases hread
  rfl

/-- However many parties have added their signatures, the body that they signed stands in
what is sent as it stood in what the first received. It is read again with the same id, and
another party can add its own. -/
theorem passedOn_keeps_id (blake2b : List UInt8 → Hash)
    (hreceived : Transaction.fromCbor (transactionBodyCodec fields) witness cbor = .ok tx) :
    ∃ bodyBytes, DataItem bodyBytes ∧ ∀ signed,
      Relation.ReflTransGen (PassesOn (transactionBodyCodec fields) witness) cbor signed →
        HoldsBody bodyBytes signed ∧ (signed.length < 2 ^ 53 → ∃ sent,
          Transaction.fromCbor (transactionBodyCodec fields) witness signed = .ok sent ∧
          SameBut sent tx ∧
          sent.getId (transactionBodyCodec fields) blake2b = .ok (blake2b bodyBytes) ∧
          ∀ witnessSet witnessBytes decoded, witness.toCbor witnessSet = .ok witnessBytes →
            DecodesPart witness.fromCbor witnessBytes decoded → ∃ next,
              (sent.setWitnessSet witnessSet).toCbor (transactionBodyCodec fields) witness =
                .ok next) := by
  obtain ⟨bodyBytes, hholds, hbody, haux⟩ := fromCbor_parts hreceived
  have hkept := toCbor_transactionBody hbody.item hbody.decoded
  refine ⟨bodyBytes, hbody.item, fun signed hrounds => ?_⟩
  have hkeeps : KeepsBody (transactionBodyCodec fields) witness tx bodyBytes signed := by
    induction hrounds with
    | refl => exact ⟨hholds, fun _ => ⟨tx, hreceived, rfl, rfl, rfl⟩⟩
    | tail _ hpasses ih => exact ih.passesOn hbody hkept haux hpasses
  refine ⟨hkeeps.holds, fun hlength => ?_⟩
  obtain ⟨sent, hsent, hsame⟩ := hkeeps.reads hlength
  rw [← hsame.body] at hbody hkept
  rw [← hsame.auxiliaryData] at haux
  refine ⟨sent, hsent, hsame, by rw [Transaction.getId, hkept]; rfl, ?_⟩
  intro witnessSet witnessBytes decoded hwritten hread
  obtain ⟨next, hnext, -⟩ := setWitnessSet_sent hbody hkept haux hwritten hread
  exact ⟨next, hnext⟩

end Rounds

section Signed

open WitnessCodec (transactionWitnessSetCodec)

def openTransaction : List UInt8 := [0x9f, 0xa1, 0x00, 0x80, 0xa0, 0xf6, 0xff]

def oneSignature : WitnessCodec.TransactionWitnessSet where
  vkeywitnesses := some { values := [{ vkey := [1], signature := [2] }] }

def signedWitness : List UInt8 :=
  [0xa1, 0x00, 0xd9, 0x01, 0x02, 0x81, 0x82, 0x41, 0x01, 0x41, 0x02]

def signedTransaction : List UInt8 := [0x84, 0xa1, 0x00, 0x80] ++ (signedWitness ++ [0xf5, 0xf6])

theorem dataItem_signedWitness : DataItem signedWitness := by
  have hkey := @dataItem_encodeInt 0 (by decide) (by decide)
  have hvkey := @dataItem_encodeChunk [1] (by decide)
  have hsignature := @dataItem_encodeChunk [2] (by decide)
  have hentry := @dataItem_fixedArray 2 _ (by decide)
    (Items.cons hvkey (Items.cons hsignature Items.nil))
  have hset := @dataItem_encodeTag 258 _ (by decide)
    (@dataItem_fixedArray 1 _ (by decide) (Items.cons hentry Items.nil))
  exact DataItem.map (head_encodeHead .map (by decide : 1 < 2 ^ 64))
    (Items.cons hkey (Items.cons hset Items.nil))

theorem passesOn_openTransaction :
    PassesOn (transactionBodyCodec keptBytes) (transactionWitnessSetCodec true false)
      openTransaction signedTransaction := by
  have hpasses : ((Transaction.fromCbor (transactionBodyCodec keptBytes)
      (transactionWitnessSetCodec true false) openTransaction).toOption.bind fun tx =>
        ((tx.setWitnessSet oneSignature).toCbor (transactionBodyCodec keptBytes)
          (transactionWitnessSetCodec true false)).toOption) = some signedTransaction := by
    decide +kernel
  obtain ⟨tx, hreceived, hsent⟩ := Option.bind_eq_some_iff.mp hpasses
  have hwritten : ((transactionWitnessSetCodec true false).toCbor oneSignature).toOption =
      some signedWitness := by
    decide +kernel
  have hdecodes : ((transactionWitnessSetCodec true false).fromCbor
      signedWitness).toOption.isSome := by
    decide +kernel
  obtain ⟨decoded, hdecoded⟩ := Option.isSome_iff_exists.mp hdecodes
  exact .signing tx oneSignature decoded signedWitness (eq_ok_of_toOption hreceived)
    (eq_ok_of_toOption hwritten) ⟨dataItem_signedWitness, eq_ok_of_toOption hdecoded⟩
    (eq_ok_of_toOption hsent)

theorem passedOn_keeps_id_openTransaction :
    ∃ bodyBytes, HoldsBody bodyBytes openTransaction ∧ HoldsBody bodyBytes signedTransaction ∧
      ∃ sent, Transaction.fromCbor (transactionBodyCodec keptBytes)
        (transactionWitnessSetCodec true false) signedTransaction = .ok sent ∧
        sent.getId (transactionBodyCodec keptBytes) id = .ok bodyBytes := by
  obtain ⟨tx, _, _, _, hreceived, -, -, -⟩ := passesOn_openTransaction
  obtain ⟨bodyBytes, -, hkeeps⟩ := passedOn_keeps_id id hreceived
  obtain ⟨hholds, -⟩ := hkeeps _ Relation.ReflTransGen.refl
  obtain ⟨hstands, hreads⟩ := hkeeps _ (Relation.ReflTransGen.single passesOn_openTransaction)
  obtain ⟨sent, hsent, -, hid, -⟩ := hreads (by decide)
  exact ⟨bodyBytes, hholds, hstands, sent, hsent, hid⟩

end Signed

end CardanoSdk.Serialization
