import CardanoSdk.Plutus.Acceptance
import CardanoSdk.Plutus.CoreRoundTrip

/-!
The bytes of plutus data after a trip through the core type: constructors and maps carry
the bytes they were decoded from, a list does not.
-/

namespace CardanoSdk.Plutus

open Lib Cbor Serialization

def PlutusData.IsCollection : PlutusData → Prop
  | .constr .. | .map .. | .list .. => True
  | .integer .. | .bytes .. => False

def StartsArray (cbor : List UInt8) : Prop := ∃ first ∈ cbor.head?, getMajorType first = .array

variable {cbor : List UInt8} {fuel : ℕ} {original : Option (List UInt8)} {items : List PlutusData}
  {elements : List (List UInt8)} {data : PlutusData}

theorem list_of_startsArray (h : fromCborWithin (fuel + 1) cbor = .ok data)
    (harray : StartsArray cbor) : ∃ original items, data = .list original items := by
  obtain ⟨_, fresh, final, hfresh, _, hrun⟩ := decodeWith_eq_ok h
  obtain ⟨state, reader, hpeek, hrun⟩ := run_bind_eq_ok hrun
  obtain ⟨hcore, _⟩ := peekState_eq_ok hfresh.cachedState hpeek
  obtain ⟨first, hfirst, hmajor⟩ := harray
  have hbytes : fresh.getRemainingBytes = first :: cbor.tail := by
    rw [hfresh.bytes, List.append_nil]
    exact (List.cons_head?_tail hfirst).symm
  have hbreak : first ≠ indefiniteLengthBreakByte := by
    rintro rfl
    cases hmajor
  rw [peekStateCore_item hbytes hbreak (hfresh.accepts first), peekItem, hmajor] at hcore
  cases hcore
  obtain ⟨encoded, middle, _, hrun⟩ := run_bind_eq_ok hrun
  obtain ⟨items, middle', _, hpure⟩ := run_bind_eq_ok hrun
  cases hpure
  exact ⟨some cbor, items, rfl⟩

theorem list_ne_of_tag {tag : ℕ} :
    Returns (if tag = unsignedBigNumTag then do
        let _ ← reading readTag
        let bytes ← reading readByteString
        pure (.integer (some cbor) (bufferToBigint bytes))
      else if tag = negativeBigNumTag then do
        let _ ← reading readTag
        let bytes ← reading readByteString
        pure (.integer (some cbor) (bufferToBigint bytes * -1))
      else do
        let encoded ← reading readEncodedValue
        let (alternative, data) ← decoding (constrFromCbor (fromCborWithin fuel) encoded)
        pure (.constr (some cbor) alternative data) : DecodeM PlutusData)
      (fun data => ∀ original items, data ≠ .list original items) := by
  split
  · exact Returns.read fun _ => Returns.read fun _ => Returns.pure (by simp)
  · split
    · exact Returns.read fun _ => Returns.read fun _ => Returns.pure (by simp)
    · exact Returns.read fun _ => Returns.read fun _ => Returns.pure (by simp)

theorem list_eq_ok (h : fromCborWithin (fuel + 1) cbor = .ok (.list original items)) :
    ∃ elements bytes declared rest, cbor = bytes ++ rest ∧
      Framed 4 elements.length elements.flatten declared bytes ∧
      List.Forall₂ (DecodesPart (fromCborWithin fuel)) elements items := by
  obtain ⟨hlength, fresh, final, hfresh, hroot, hrun⟩ := decodeWith_eq_ok h
  obtain ⟨state, reader, hpeek, hbranch⟩ := run_bind_eq_ok hrun
  have hbytes : reader.getRemainingBytes = cbor := by
    obtain ⟨_, rfl⟩ := peekState_eq_ok hfresh.cachedState hpeek
    exact hfresh.bytes.trans (List.append_nil cbor)
  have hplain : Plain reader.currentFrame := by
    obtain ⟨_, rfl⟩ := peekState_eq_ok hfresh.cachedState hpeek
    exact plain_of_root hroot
  split at hbranch
  case h_6 =>
    obtain ⟨encoded, middle, hencoded, hrun⟩ := run_bind_eq_ok hbranch
    obtain ⟨items', middle', hitems, hpure⟩ := run_bind_eq_ok hrun
    cases hpure
    obtain ⟨_, _, htaken, _, hitem, rfl⟩ := takes_encodedValue _ _ _ hplain hencoded
    obtain ⟨rest, hrest⟩ := htaken.bytes
    obtain ⟨elements, declared, hframed, hparts⟩ :=
      plutusListFromCbor_eq_ok (decoding_eq_ok hitems).1 hitem
    exact ⟨elements, encoded, declared, rest, hbytes.symm.trans hrest, hframed, hparts⟩
  case h_1 =>
    obtain ⟨tag, middle, _, hrun⟩ := run_bind_eq_ok hbranch
    exact absurd rfl (list_ne_of_tag _ _ _ hrun original items)
  case h_8 => cases hbranch
  case h_7 =>
    obtain ⟨encoded, middle, _, hrun⟩ := run_bind_eq_ok hbranch
    obtain ⟨map, middle', _, hpure⟩ := run_bind_eq_ok hrun
    cases hpure
  all_goals
    obtain ⟨value, middle, _, hpure⟩ := run_bind_eq_ok hbranch
    cases hpure

def KeepsBytes (data : PlutusData) (cbor : List UInt8) : Prop :=
  ∃ core data', data.toCore = .ok core ∧ PlutusData.fromCore core = .ok data' ∧
    data'.toCbor = .ok cbor

/-- The frame is the one that `PlutusList.toCbor` writes, if the bytes start as
an array, and nothing follows it. -/
def KeepsFraming (cbor : List UInt8) : Prop :=
  ¬StartsArray cbor ∨ cbor = [0x80] ∨
    (DataItem cbor ∧ cbor.head? = some 0x9f ∧ cbor ≠ [0x9f, 0xff])

theorem truthy_of_ne_nil (h : cbor ≠ []) : truthy (some cbor) = some cbor := by
  obtain ⟨first, rest, rfl⟩ := List.exists_cons_of_ne_nil h
  rfl

theorem ne_nil_of_accepted (h : PlutusData.fromCbor cbor = .ok data) : cbor ≠ [] := by
  obtain ⟨_, item, rest, rfl, hitem⟩ := readsData _ _ _ h
  have hpos := hitem.dataItem.length_pos
  intro hnil
  have hlength := congrArg List.length hnil
  rw [List.length_append, List.length_nil] at hlength
  omega

theorem toCbor_fromCbor (h : PlutusData.fromCbor cbor = .ok data) : data.toCbor = .ok cbor :=
  toCbor_of_originalBytes (cached_of_fromCborWithin h).1

theorem keepsBytes_constr {alternative : ℤ}
    (h : PlutusData.fromCbor cbor = .ok (.constr original alternative items)) :
    KeepsBytes (.constr original alternative items) cbor := by
  obtain ⟨core, hcore, _⟩ := toCore_ok _ (cached_of_fromCborWithin h).2
  refine ⟨core, _, hcore, ?_, toCbor_fromCbor h⟩
  rw [PlutusData.toCore, toCbor_fromCbor h] at hcore
  change (itemsToCore items >>= _) = _ at hcore
  obtain ⟨fields, _, hcore⟩ := bind_ok hcore
  obtain ⟨elements, _, hcore⟩ := bind_ok hcore
  obtain ⟨fieldsCbor, _, hcore⟩ := bind_ok hcore
  cases hcore
  rw [PlutusData.fromCore, truthy_of_ne_nil (ne_nil_of_accepted h)]
  exact h

theorem keepsBytes_map {indefinite : Bool} {entries : List (PlutusData × PlutusData)}
    (h : PlutusData.fromCbor cbor = .ok (.map original indefinite entries)) :
    KeepsBytes (.map original indefinite entries) cbor := by
  obtain ⟨core, hcore, _⟩ := toCore_ok _ (cached_of_fromCborWithin h).2
  refine ⟨core, _, hcore, ?_, toCbor_fromCbor h⟩
  rw [PlutusData.toCore, toCbor_fromCbor h] at hcore
  obtain ⟨coreMap, _, hcore⟩ := bind_ok hcore
  cases hcore
  rw [PlutusData.fromCore, truthy_of_ne_nil (ne_nil_of_accepted h)]
  exact h

theorem elementsToCbor_decoded
    (h : List.Forall₂ (DecodesPart (fromCborWithin fuel)) elements items) :
    elementsToCbor items = .ok elements := by
  induction h with
  | nil => rw [elementsToCbor]
  | cons hitem _ ih =>
    have hcbor := toCbor_of_originalBytes (cached_of_fromCborWithin hitem.decoded).1
    rw [elementsToCbor, hcbor, ih]
    rfl

theorem keepsBytes_list_iff (h : PlutusData.fromCbor cbor = .ok (.list original items))
    (helements : elementsToCbor items = .ok elements) :
    KeepsBytes (.list original items) cbor ↔ cbor = listBytes elements := by
  obtain ⟨core, hcore, _⟩ := toCore_ok _ (cached_of_fromCborWithin h).2
  have hlist := encodeWith_ok (writes_plutusList elements)
  have hfrom : ∃ coreItems, core = .list (some (listBytes elements)) coreItems := by
    rw [PlutusData.toCore, helements] at hcore
    obtain ⟨coreItems, _, hcore⟩ := bind_ok hcore
    change (encodeWith (writePlutusList elements) >>= _) = _ at hcore
    rw [hlist] at hcore
    cases hcore
    exact ⟨coreItems, rfl⟩
  obtain ⟨coreItems, rfl⟩ := hfrom
  have htruthy : truthy (some (listBytes elements)) = some (listBytes elements) := by
    apply truthy_of_ne_nil
    intro hnil
    have hlt := @flatten_lt_listBytes elements
    rw [hnil] at hlt
    exact absurd hlt (Nat.not_lt_zero _)
  constructor
  · rintro ⟨core', data', hcore', hdata', hcbor'⟩
    rw [hcore] at hcore'
    cases hcore'
    rw [PlutusData.fromCore, htruthy] at hdata'
    rw [toCbor_fromCbor hdata'] at hcbor'
    exact (Except.ok.inj hcbor').symm
  · intro hcbor
    refine ⟨_, _, hcore, ?_, toCbor_fromCbor h⟩
    rw [PlutusData.fromCore, htruthy, ← hcbor]
    exact h

variable {bytes : List UInt8} {declared : Option ℕ}

theorem startsArray_framed {count : ℕ} {content : List UInt8}
    (hframed : Framed 4 count content declared bytes) (rest : List UInt8) :
    StartsArray (bytes ++ rest) := by
  cases hframed with
  | definite hhead =>
    obtain ⟨first, payload, rfl, hmajor, _⟩ := @head_first .array _ _ hhead
    exact ⟨first, rfl, hmajor⟩
  | indefinite => exact ⟨initialByte 4 31, rfl, by decide⟩

theorem listBytes_nil : listBytes [] = [0x80] := by decide

theorem listBytes_of_ne_nil (h : elements ≠ []) :
    listBytes elements = 0x9f :: (elements.flatten ++ [0xff]) :=
  if_pos (List.length_pos_iff.mpr h)

theorem eq_listBytes_iff {rest : List UInt8} (hitems : ∀ item ∈ elements, DataItem item)
    (hframed : Framed 4 elements.length elements.flatten declared bytes)
    (hlength : (bytes ++ rest).length < 2 ^ 53) :
    bytes ++ rest = listBytes elements ↔ bytes ++ rest = [0x80] ∨
      (DataItem (bytes ++ rest) ∧ (bytes ++ rest).head? = some 0x9f ∧
        bytes ++ rest ≠ [0x9f, 0xff]) := by
  have hempty : elements.flatten = [] → elements = [] := by
    intro hflatten
    have hle := length_le_flatten hitems
    rw [hflatten] at hle
    exact List.eq_nil_of_length_eq_zero (Nat.le_zero.mp hle)
  constructor
  · intro hwritten
    rw [hwritten]
    by_cases hnil : elements = []
    · left
      rw [hnil, listBytes_nil]
    · right
      refine ⟨dataItem_listBytes hitems, ?_, ?_⟩
      · rw [listBytes_of_ne_nil hnil, List.head?_cons]
      · rw [listBytes_of_ne_nil hnil]
        intro heq
        have htail : elements.flatten ++ [0xff] = [0xff] := (List.cons.inj heq).2
        exact hnil (hempty (List.append_left_eq_self.mp htail))
  · rintro (hzero | ⟨hitem, hfirst, hne⟩)
    · cases hframed with
      | definite hhead =>
        obtain ⟨info, payload, _, rfl⟩ := hhead.exists_cons
        have htail : payload ++ elements.flatten ++ rest = [] := (List.cons.inj hzero).2
        have hflatten : elements.flatten = [] := by
          rw [List.append_eq_nil_iff, List.append_eq_nil_iff] at htail
          exact htail.1.2
        rw [hzero, hempty hflatten, listBytes_nil]
      | indefinite => exact absurd (List.cons.inj hzero).1 (by decide)
    · have harray := hframed.array (items_of_wellFormed hitems)
      obtain rfl := dataItem_append_eq_nil harray hitem hlength
      rw [List.append_nil] at hfirst hne ⊢
      cases hframed with
      | definite hhead =>
        obtain ⟨info, payload, hinfo, rfl⟩ := hhead.exists_cons
        have hbyte : initialByte 4 info = 0x9f := Option.some.inj hfirst
        have hnat := congrArg UInt8.toNat hbyte
        rw [initialByte_toNat (by omega) (by omega)] at hnat
        change 32 * 4 + info = 159 at hnat
        omega
      | indefinite =>
        have hnil : elements ≠ [] := by
          rintro rfl
          exact hne rfl
        rw [listBytes_of_ne_nil hnil]
        rfl

/-- The trip keeps the bytes of a collection exactly if they are not those of
an array in another frame than the one that is written. -/
theorem toCore_keepsBytes_iff {cbor : List UInt8} {data : PlutusData}
    (hdecoded : PlutusData.fromCbor cbor = .ok data) (hkind : data.IsCollection) :
    KeepsBytes data cbor ↔ KeepsFraming cbor := by
  cases data with
  | integer => exact hkind.elim
  | bytes => exact hkind.elim
  | constr original alternative items =>
    refine iff_of_true (keepsBytes_constr hdecoded) (Or.inl fun harray => ?_)
    obtain ⟨_, _, hlist⟩ := list_of_startsArray hdecoded harray
    cases hlist
  | map original indefinite entries =>
    refine iff_of_true (keepsBytes_map hdecoded) (Or.inl fun harray => ?_)
    obtain ⟨_, _, hlist⟩ := list_of_startsArray hdecoded harray
    cases hlist
  | list original items =>
    obtain ⟨elements, bytes, declared, rest, rfl, hframed, hparts⟩ := list_eq_ok hdecoded
    have hlength := (readsData _ _ _ hdecoded).1
    have harray := startsArray_framed hframed rest
    rw [keepsBytes_list_iff hdecoded (elementsToCbor_decoded hparts),
      eq_listBytes_iff (DecodesPart.dataItems hparts) hframed hlength]
    unfold KeepsFraming
    tauto

def indefiniteList : List UInt8 := [0x9f, 0x01, 0xff]

theorem toCore_keepsBytes_indefiniteList : ∃ data, PlutusData.fromCbor indefiniteList = .ok data ∧
    KeepsBytes data indefiniteList := by
  have hdecoded : PlutusData.fromCbor indefiniteList =
      .ok (.list (some indefiniteList) [.integer (some [1]) 1]) := by
    rfl
  refine ⟨_, hdecoded, (toCore_keepsBytes_iff hdecoded trivial).mpr (Or.inr (Or.inr ⟨?_, rfl, ?_⟩))⟩
  · have hone : DataItem [1] := DataItem.integer (Or.inl rfl) (@Head.short 0 1 (by decide))
    exact @dataItem_listBytes [[1]] (by simpa using hone)
  · decide

def definiteList : List UInt8 := [0x81, 0x01]

theorem not_keepsBytes_definiteList : ¬∀ data, PlutusData.fromCbor definiteList = .ok data →
    data.IsCollection → KeepsBytes data definiteList := by
  intro hkeeps
  have hdecoded : PlutusData.fromCbor definiteList =
      .ok (.list (some definiteList) [.integer (some [1]) 1]) := by
    rfl
  have hlist := (keepsBytes_list_iff hdecoded rfl).mp (hkeeps _ hdecoded trivial)
  exact absurd hlist (by decide)

end CardanoSdk.Plutus
