import CardanoSdk.Serialization.Records
import CardanoSdk.Serialization.WitnessSet

/-!
`CborSet` of `core/src/Serialization/Common`: an array of parts, which carries the tag of
sets in the era of Conway.
-/

namespace CardanoSdk.Serialization

open Lib Cbor Plutus

section Parts

variable {Core Object : Type} (codec : Codec Core Object) (same : Core → Core → Prop)

/-- Core values, the objects made of them, their encodings and what is read from these. -/
structure PartsSurvive (cores : List Core) (objects : List Object)
    (elements : List (List UInt8)) : Prop where
  made : List.Forall₂ (fun core object => codec.fromCore core = .ok object) cores objects
  written : List.Forall₂ (fun object bytes => codec.toCbor object = .ok bytes) objects elements
  items : ∀ item ∈ elements, DataItem item
  read : elements.flatten.length < 2 ^ 53 → ∃ decoded,
    List.Forall₂ (DecodesPart codec.fromCbor) elements decoded ∧
    List.Forall₂ (codec.Restores same) decoded cores

variable {codec same}

theorem parts_survive : {cores : List Core} → (∀ core ∈ cores, codec.RoundTrips same core) →
    ∃ objects elements, PartsSurvive codec same cores objects elements
  | [], _ => ⟨[], [], List.Forall₂.nil, List.Forall₂.nil, by simp,
      fun _ => ⟨[], List.Forall₂.nil, List.Forall₂.nil⟩⟩
  | core :: cores, h => by
    rw [List.forall_mem_cons] at h
    obtain ⟨object, cbor, hmade, hwritten, hitem, hread⟩ := h.1
    obtain ⟨objects, elements, hall⟩ := parts_survive h.2
    refine ⟨object :: objects, cbor :: elements, List.Forall₂.cons hmade hall.made,
      List.Forall₂.cons hwritten hall.written, List.forall_mem_cons.mpr ⟨hitem, hall.items⟩, ?_⟩
    intro hlength
    rw [List.flatten_cons, List.length_append] at hlength
    obtain ⟨first, core', hfirst, hcore, hsame⟩ := hread (by omega)
    obtain ⟨rest, hrest, hcores⟩ := hall.read (by omega)
    exact ⟨first :: rest, List.Forall₂.cons ⟨hitem, hfirst⟩ hrest,
      List.Forall₂.cons ⟨core', hcore, hsame⟩ hcores⟩

variable {objects : List Object}

theorem encodes_parts {elements : List (List UInt8)}
    (h : List.Forall₂ (fun object bytes => codec.toCbor object = .ok bytes) objects elements) :
    Encodes (objects.forM (writePart codec.toCbor)) elements.flatten := by
  induction h with
  | nil => exact Encodes.pure
  | cons hobject _ ih =>
    have hpart : Encodes (writePart codec.toCbor _) _ :=
      Encodes.encode hobject (encodes_writing (writes_encodedValue _))
    exact hpart.bind ih

theorem mapM_of_forall₂ {ε α β : Type} {f : α → Except ε β} {l : List α} {result : List β}
    (h : List.Forall₂ (fun a b => f a = .ok b) l result) : l.mapM f = .ok result := by
  induction h with
  | nil => rfl
  | cons hhead _ ih =>
    rw [List.mapM_cons, hhead, ih]
    rfl

theorem mapM_toCore {cores : List Core} (h : List.Forall₂ (codec.Restores same) objects cores) :
    ∃ cores', objects.mapM codec.toCore = .ok cores' ∧ List.Forall₂ same cores' cores := by
  induction h with
  | nil => exact ⟨[], rfl, List.Forall₂.nil⟩
  | cons hrestores _ ih =>
    obtain ⟨core', hcore, hsame⟩ := hrestores
    obtain ⟨cores', hcores, hall⟩ := ih
    refine ⟨core' :: cores', ?_, List.Forall₂.cons hsame hall⟩
    rw [List.mapM_cons, hcore, hcores]
    rfl

end Parts

structure CborSet (T : Type) where
  values : List T
  originalBytes : Option (List UInt8) := none
  deriving DecidableEq

namespace CborSet

variable {Core T : Type}

def size (set : CborSet T) : ℕ := set.values.length

/-- `setValues` drops what was cached. -/
def setValues (_ : CborSet T) (values : List T) : CborSet T := { values := values }

def readSetTag (peekState : CborReaderState) : DecodeM Unit :=
  if peekState = .tag then do
    let tag ← reading peekTag
    if tag = setTag then do
      let _ ← reading readTag
      pure ()
    else pure ()
  else pure ()

/-- The end of the array is not read. -/
def fromCbor (fromCbor : List UInt8 → Except DecodeException T) (cbor : List UInt8) :
    Except DecodeException (CborSet T) :=
  decodeWith cbor do
    let state ← reading peekState
    readSetTag state
    let _ ← reading readStartArray
    let values ← untilEnd .endArray (addPart fromCbor) (cbor.length + 1) []
    pure { values := values, originalBytes := some cbor }

def writeSetTag (inConwayEra : Bool) : EncodeM Unit :=
  if inConwayEra then writing (writeTag setTag) else pure ()

def toCbor (inConwayEra : Bool) (toCbor : T → Except EncodeException (List UInt8))
    (set : CborSet T) : Except EncodeException (List UInt8) :=
  cachedOr set.originalBytes <| encodeAsHex do
    writeSetTag inConwayEra
    writeParts toCbor set.values

def toCore (toCore : T → Except EncodeException Core) (set : CborSet T) :
    Except EncodeException (List Core) :=
  set.values.mapM toCore

def fromCore (fromCore : Core → Except DecodeException T) (coreValues : List Core) :
    Except DecodeException (CborSet T) := do
  let values ← coreValues.mapM fromCore
  return { values := values }

end CborSet

def cborSetCodec {Core Object : Type} (inConwayEra : Bool) (codec : Codec Core Object) :
    Codec (List Core) (CborSet Object) where
  fromCore := CborSet.fromCore codec.fromCore
  toCbor := CborSet.toCbor inConwayEra codec.toCbor
  fromCbor := CborSet.fromCbor codec.fromCbor
  toCore := CborSet.toCore codec.toCore

section Sets

variable {Core Object : Type} {codec : Codec Core Object} {same : Core → Core → Prop}

def arrayBytes (elements : List (List UInt8)) : List UInt8 :=
  encodeHead .array elements.length ++ elements.flatten

def setHead (inConwayEra : Bool) : List UInt8 :=
  if inConwayEra then encodeHead .tag setTag else []

def setBytes (inConwayEra : Bool) (elements : List (List UInt8)) : List UInt8 :=
  setHead inConwayEra ++ arrayBytes elements

variable {inConwayEra : Bool} {elements : List (List UInt8)}

theorem dataItem_setBytes (hcount : elements.length < 2 ^ 64)
    (hitems : ∀ item ∈ elements, DataItem item) : DataItem (setBytes inConwayEra elements) := by
  have harray : DataItem (arrayBytes elements) :=
    dataItem_fixedArray hcount (items_of_wellFormed hitems)
  cases inConwayEra with
  | true => exact @dataItem_encodeTag setTag _ (by decide) harray
  | false => exact harray

theorem encodes_set {objects : List Object} (hcount : elements.length < 2 ^ 64)
    (h : List.Forall₂ (fun object bytes => codec.toCbor object = .ok bytes) objects elements) :
    CborSet.toCbor inConwayEra codec.toCbor ⟨objects, none⟩ = .ok (setBytes inConwayEra elements) := by
  rw [CborSet.toCbor, cachedOr_none]
  have harray : Encodes (writeParts codec.toCbor objects) (arrayBytes elements) := by
    rw [writeParts, h.length_eq]
    exact Encodes.write (writes_startArray hcount) (encodes_parts h)
  refine encodeAsHex_ok (Encodes.bind ?_ harray)
  cases inConwayEra with
  | true => exact encodes_writing (@writes_typeValue .tag setTag (by decide))
  | false => exact Encodes.pure

variable {reader : CborReader} {rest : List UInt8} {cores : List Core}

theorem succeeds_setHead {α : Type} {next : DecodeM α} {value : α}
    (hcount : elements.length < 2 ^ 64)
    (hbytes : reader.getRemainingBytes = setBytes inConwayEra elements ++ rest)
    (haccepts : ∀ first, reader.currentFrame.Accepts first)
    (hcached : reader.cachedState = .undefined)
    (hnext : ∀ reader : CborReader, reader.getRemainingBytes = arrayBytes elements ++ rest →
      (∀ first, reader.currentFrame.Accepts first) → Succeeds next reader value) :
    Succeeds (do
      let state ← reading peekState
      CborSet.readSetTag state
      next) reader value := by
  cases inConwayEra with
  | true =>
    have hsplit : reader.getRemainingBytes =
        encodeHead .tag setTag ++ (arrayBytes elements ++ rest) := by
      rw [hbytes, setBytes, List.append_assoc]
      rfl
    obtain ⟨hpeek, -, -, -⟩ := readTag_encodeHead (by decide) hsplit haccepts
    obtain ⟨-, htag, hread, hbehind⟩ :=
      @readTag_encodeHead (reader.cached .tag) setTag _ (by decide) hsplit haccepts
    apply Succeeds.read (peekState_ok hpeek (Or.inl hcached))
    have hskip : CborSet.readSetTag .tag (reader.cached .tag) =
        .ok () ((reader.cached .tag).tagged (encodeHead .tag setTag).length) := by
      rw [CborSet.readSetTag, if_pos rfl, run_bind_ok (reading_ok htag), if_pos rfl,
        run_bind_ok (reading_ok hread)]
      rfl
    exact Succeeds.bind hskip (hnext _ hbehind haccepts)
  | false =>
    have hbegins := @begins_encodeHead .array (by simp) _ hcount elements.flatten
    have hpeek := hbegins reader rest hbytes haccepts
    apply Succeeds.read (peekState_ok hpeek (Or.inl hcached))
    have hskip : CborSet.readSetTag .startArray (reader.cached .startArray) =
        .ok () (reader.cached .startArray) := by
      rw [CborSet.readSetTag, if_neg (by decide)]
      rfl
    exact Succeeds.bind hskip (hnext _ hbytes haccepts)

theorem succeeds_unclosed {σ : Type} {step : σ → DecodeM σ} {s s' : σ} {rounds : ℕ}
    {bytes : List UInt8} {declared : Option ℕ}
    (h : ReadsItem (readArray step rounds s) bytes (declared, s'))
    (hbytes : reader.getRemainingBytes = bytes ++ rest)
    (haccepts : ∀ first, reader.currentFrame.Accepts first) :
    Succeeds (do
      let _ ← reading readStartArray
      untilEnd .endArray step rounds s) reader s' := by
  have hrun := h reader rest hbytes haccepts
  obtain ⟨length, entered, hstart, hrun⟩ := run_bind_eq_ok hrun
  obtain ⟨found, filled, hloop, hrun⟩ := run_bind_eq_ok hrun
  obtain ⟨_, left, hleave, hpure⟩ := run_bind_eq_ok hrun
  cases hpure
  exact Succeeds.bind hstart ⟨filled, hloop⟩

theorem decodes_set {decoded : List Object}
    (hlength : (setBytes inConwayEra elements).length < 2 ^ 53)
    (h : List.Forall₂ (DecodesPart codec.fromCbor) elements decoded) :
    CborSet.fromCbor codec.fromCbor (setBytes inConwayEra elements) =
      .ok ⟨decoded, some (setBytes inConwayEra elements)⟩ := by
  have hsmall := length_le_flatten (DecodesPart.dataItems h)
  have hsize := hlength
  rw [setBytes, arrayBytes, List.length_append, List.length_append] at hsize
  have hcount : elements.length < 2 ^ 64 := by omega
  refine decodeWith_ok hlength fun reader hfresh => ?_
  refine succeeds_setHead hcount hfresh.bytes hfresh.accepts hfresh.cachedState ?_
  intro reader hbytes haccepts
  have hrounds : elements.length < (setBytes inConwayEra elements).length + 1 := by
    rw [setBytes, arrayBytes, List.length_append, List.length_append]
    omega
  have harray := readsItem_parts h (Framed.definite (head_encodeHead .array hcount)) hrounds
  obtain ⟨final, hfinal⟩ := succeeds_unclosed harray hbytes haccepts
  rw [← bind_assoc]
  exact Succeeds.bind hfinal Succeeds.pure

theorem size_fromCore {fromCore : Core → Except DecodeException Object} {set : CborSet Object}
    (h : CborSet.fromCore fromCore cores = .ok set) : set.size = cores.length := by
  obtain ⟨values, hvalues, hset⟩ := bind_ok h
  cases hset
  exact (forall₂_of_mapM_ok hvalues).length_eq.symm

theorem cborSet_roundTrips (hcount : cores.length < 2 ^ 64)
    (h : ∀ core ∈ cores, codec.RoundTrips same core) :
    (cborSetCodec inConwayEra codec).RoundTrips (List.Forall₂ same) cores := by
  obtain ⟨objects, elements, hparts⟩ := parts_survive h
  have hlengths : elements.length = cores.length := by
    rw [← hparts.written.length_eq, ← hparts.made.length_eq]
  have hfew : elements.length < 2 ^ 64 := by omega
  refine ⟨⟨objects, none⟩, setBytes inConwayEra elements, ?_, encodes_set hfew hparts.written,
    dataItem_setBytes hfew hparts.items, fun hlength => ?_⟩
  · change CborSet.fromCore codec.fromCore cores = _
    rw [CborSet.fromCore, mapM_of_forall₂ hparts.made]
    rfl
  · have hcontent := hlength
    rw [setBytes, arrayBytes, List.length_append, List.length_append] at hcontent
    obtain ⟨decoded, hdecodes, hrestores⟩ := hparts.read (by omega)
    obtain ⟨cores', hcores, hsame⟩ := mapM_toCore hrestores
    exact ⟨_, cores', decodes_set hlength hdecodes, hcores, hsame⟩

end Sets

end CardanoSdk.Serialization
