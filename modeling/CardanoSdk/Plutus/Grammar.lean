import CardanoSdk.Serialization.Inversion

/-!
The forms of plutus data, under rules that a decoder may be strict about: those
of the ledger, and those of `PlutusData.fromCbor`.
-/

namespace CardanoSdk.Plutus

open Lib Cbor Serialization

/-- What decoders of plutus data may be strict about: the tags of constructors,
the major type of the number in the general form, and the lengths of strings
and of their chunks. -/
structure DataRules where
  compactTag : ℕ → Prop
  alternativeMajor : ℕ → Prop
  byteLength : ℕ → Prop
  bignumLength : ℕ → Prop

mutual

inductive PlutusItem (rules : DataRules) : List UInt8 → Prop
  | integer {head : List UInt8} {value : ℤ} (h : IntegerHead head value) : PlutusItem rules head
  | bigInteger {number : ℕ} {head bytes value : List UInt8} (hnumber : number = 2 ∨ number = 3)
      (hhead : Head 6 number head) (hbytes : ByteString rules.bignumLength bytes value) :
      PlutusItem rules (head ++ bytes)
  | bytes {bytes value : List UInt8} (h : ByteString rules.byteLength bytes value) :
      PlutusItem rules bytes
  | list {bytes : List UInt8} (h : PlutusArray rules bytes) : PlutusItem rules bytes
  | map {count : ℕ} {content bytes : List UInt8} {declared : Option ℕ}
      (hframed : Framed 5 count content declared bytes)
      (hentries : PlutusEntries rules count content) : PlutusItem rules bytes
  | compact {number : ℕ} {head array : List UInt8} (hnumber : rules.compactTag number)
      (hhead : Head 6 number head) (harray : PlutusArray rules array) :
      PlutusItem rules (head ++ array)
  | general {major argument : ℕ} {head alternative array bytes : List UInt8} {declared : Option ℕ}
      (hhead : Head 6 102 head) (hmajor : rules.alternativeMajor major)
      (halternative : Head major argument alternative) (harray : PlutusArray rules array)
      (hframed : Framed 4 2 (alternative ++ array) declared bytes) :
      PlutusItem rules (head ++ bytes)

inductive PlutusArray (rules : DataRules) : List UInt8 → Prop
  | mk {count : ℕ} {content bytes : List UInt8} {declared : Option ℕ}
      (hframed : Framed 4 count content declared bytes)
      (hitems : PlutusItems rules count content) : PlutusArray rules bytes

inductive PlutusItems (rules : DataRules) : ℕ → List UInt8 → Prop
  | nil : PlutusItems rules 0 []
  | cons {count : ℕ} {item rest : List UInt8} (hitem : PlutusItem rules item)
      (hrest : PlutusItems rules count rest) : PlutusItems rules (count + 1) (item ++ rest)

inductive PlutusEntries (rules : DataRules) : ℕ → List UInt8 → Prop
  | nil : PlutusEntries rules 0 []
  | cons {count : ℕ} {key value rest : List UInt8} (hkey : PlutusItem rules key)
      (hvalue : PlutusItem rules value) (hrest : PlutusEntries rules count rest) :
      PlutusEntries rules (count + 1) (key ++ value ++ rest)

end

/-- The rules of the ledger. Whether the bytes of a big integer are bounded too
is left open. -/
def ledgerRules (bignumLength : ℕ → Prop) : DataRules where
  compactTag number := (121 ≤ number ∧ number ≤ 127) ∨ (1280 ≤ number ∧ number ≤ 1400)
  alternativeMajor major := major = 0
  byteLength length := length ≤ 64
  bignumLength := bignumLength

def decoderRules : DataRules where
  compactTag number := number ≠ 2 ∧ number ≠ 3 ∧ number ≠ 102
  alternativeMajor major := major = 0 ∨ major = 1
  byteLength := AnyLength
  bignumLength := AnyLength

/-- Every rule lets pass what the rule of the other lets pass. -/
structure DataRules.Within (rules rules' : DataRules) : Prop where
  compactTag : ∀ number, rules.compactTag number → rules'.compactTag number
  alternativeMajor : ∀ major, rules.alternativeMajor major → rules'.alternativeMajor major
  byteLength : ∀ length, rules.byteLength length → rules'.byteLength length
  bignumLength : ∀ length, rules.bignumLength length → rules'.bignumLength length

theorem ledgerRules_within (bignumLength : ℕ → Prop) :
    (ledgerRules bignumLength).Within decoderRules where
  compactTag number h := by
    change (121 ≤ number ∧ number ≤ 127) ∨ (1280 ≤ number ∧ number ≤ 1400) at h
    exact ⟨by omega, by omega, by omega⟩
  alternativeMajor _ h := Or.inl h
  byteLength _ _ := trivial
  bignumLength _ _ := trivial

mutual

theorem PlutusItem.mono {rules rules' : DataRules} (hwithin : rules.Within rules')
    {item : List UInt8} : PlutusItem rules item → PlutusItem rules' item
  | .integer h => .integer h
  | .bigInteger hnumber hhead hbytes =>
    .bigInteger hnumber hhead (hbytes.mono hwithin.bignumLength)
  | .bytes h => .bytes (h.mono hwithin.byteLength)
  | .list h => .list (h.mono hwithin)
  | .map hframed hentries => .map hframed (hentries.mono hwithin)
  | .compact hnumber hhead harray =>
    .compact (hwithin.compactTag _ hnumber) hhead (harray.mono hwithin)
  | .general hhead hmajor halternative harray hframed =>
    .general hhead (hwithin.alternativeMajor _ hmajor) halternative (harray.mono hwithin) hframed

theorem PlutusArray.mono {rules rules' : DataRules} (hwithin : rules.Within rules')
    {bytes : List UInt8} : PlutusArray rules bytes → PlutusArray rules' bytes
  | .mk hframed hitems => .mk hframed (hitems.mono hwithin)

theorem PlutusItems.mono {rules rules' : DataRules} (hwithin : rules.Within rules') {count : ℕ}
    {content : List UInt8} : PlutusItems rules count content → PlutusItems rules' count content
  | .nil => .nil
  | .cons hitem hrest => .cons (hitem.mono hwithin) (hrest.mono hwithin)

theorem PlutusEntries.mono {rules rules' : DataRules} (hwithin : rules.Within rules') {count : ℕ}
    {content : List UInt8} :
    PlutusEntries rules count content → PlutusEntries rules' count content
  | .nil => .nil
  | .cons hkey hvalue hrest => .cons (hkey.mono hwithin) (hvalue.mono hwithin) (hrest.mono hwithin)

end

theorem exists_integerHead {major argument : ℕ} {head : List UInt8}
    (hmajor : decoderRules.alternativeMajor major) (hhead : Head major argument head) :
    ∃ value, IntegerHead head value := by
  rcases hmajor with rfl | rfl
  · exact ⟨_, IntegerHead.unsigned hhead⟩
  · exact ⟨_, IntegerHead.negative hhead⟩

mutual

theorem PlutusItem.dataItem {item : List UInt8} : PlutusItem decoderRules item → DataItem item
  | .integer h => h.dataItem
  | .bigInteger _ hhead hbytes => DataItem.tag hhead hbytes.dataItem
  | .bytes h => h.dataItem
  | .list h => h.dataItem
  | .map hframed hentries => hframed.map hentries.items
  | .compact _ hhead harray => DataItem.tag hhead harray.dataItem
  | .general hhead hmajor halternative harray hframed => by
    obtain ⟨value, hvalue⟩ := exists_integerHead hmajor halternative
    have hitems := Items.cons hvalue.dataItem (Items.cons harray.dataItem Items.nil)
    rw [List.append_nil] at hitems
    exact DataItem.tag hhead (hframed.array hitems)

theorem PlutusArray.dataItem {bytes : List UInt8} : PlutusArray decoderRules bytes → DataItem bytes
  | .mk hframed hitems => hframed.array hitems.items

theorem PlutusItems.items {count : ℕ} {content : List UInt8} :
    PlutusItems decoderRules count content → Items count content
  | .nil => Items.nil
  | .cons hitem hrest => Items.cons hitem.dataItem hrest.items

theorem PlutusEntries.items {count : ℕ} {content : List UInt8} :
    PlutusEntries decoderRules count content → Items (2 * count) content
  | .nil => Items.nil
  | .cons hkey hvalue hrest => by
    rw [List.append_assoc, Nat.mul_succ]
    exact Items.cons hkey.dataItem (Items.cons hvalue.dataItem hrest.items)

end

end CardanoSdk.Plutus
