import CardanoSdk.Lib.Collections
import CardanoSdk.Lib.Utf16

/-!
`jsonToMetadatum` and `metadatumToJson` of `core/src/util/metadatum.ts`. A byte
view is a window into a buffer that others may share.
-/

namespace CardanoSdk.Util

open Lib

structure ByteView where
  buffer : List UInt8
  byteOffset : ℕ
  byteLength : ℕ
  inBuffer : byteOffset + byteLength ≤ buffer.length

namespace ByteView

def window (view : ByteView) : List UInt8 :=
  (view.buffer.drop view.byteOffset).take view.byteLength

/-- `new Uint8Array(buffer)`: the view of a whole buffer. -/
def ofBuffer (buffer : List UInt8) : ByteView := ⟨buffer, 0, buffer.length, by simp⟩

/-- `new Uint8Array(view)`: the bytes of the window in a buffer of their own. -/
def copy (view : ByteView) : ByteView := ofBuffer view.window

def IsWhole (view : ByteView) : Prop :=
  view.byteOffset = 0 ∧ view.byteLength = view.buffer.length

end ByteView

structure JsNumber where
  integer : Option ℤ
  text : JsString

/-- The values that `jsonToMetadatum` distinguishes. An object is its own enumerable
properties; their order is not the engine's, which puts keys that are indices first. -/
inductive Json where
  | null
  | undefined
  | boolean (value : Bool)
  | number (value : JsNumber)
  | bigint (value : ℤ)
  | string (value : JsString)
  | array (items : List Json)
  | view (view : ByteView)
  | object (properties : List (JsString × Json))

/-- The values that `metadatumToJson` distinguishes: the first four are no metadata. -/
inductive Metadatum where
  | null
  | undefined
  | boolean (value : Bool)
  | number (value : JsNumber)
  | bigint (value : ℤ)
  | string (value : JsString)
  | array (items : List Metadatum)
  | view (view : ByteView)
  | map (entries : List (Metadatum × Metadatum))

inductive ConversionError where
  | invalidArgument (argName message : String)
  | rangeError (message : JsString)
  | typeError (message : String)

namespace Metadatum

/-- Whether two keys are one in a `Map`: collections and views are compared by identity. -/
def sameKey : Metadatum → Metadatum → Bool
  | .bigint a, .bigint b => decide (a = b)
  | .string a, .string b => decide (a = b)
  | _, _ => false

/-- `Map.prototype.set` -/
def setEntry (key value : Metadatum) :
    List (Metadatum × Metadatum) → List (Metadatum × Metadatum)
  | [] => [(key, value)]
  | entry :: rest =>
    if key.sameKey entry.1 then (entry.1, value) :: rest else entry :: setEntry key value rest

end Metadatum

mutual

def jsonToMetadatum : Json → Except ConversionError Metadatum
  | .null => .error (.invalidArgument "json" "JSON value can not be null")
  | .boolean _ => .error (.invalidArgument "json" "JSON value can not be boolean")
  | .undefined => .error (.invalidArgument "json" "JSON value can not be undefined")
  | .number json =>
    match json.integer with
    | some integer => .ok (.bigint integer)
    | none => .error (.rangeError (utf16Encode "The number " ++ json.text ++
        utf16Encode " cannot be converted to a BigInt because it is not an integer"))
  | .bigint json => .ok (.bigint json)
  | .string json => .ok (.string json)
  | .array items => do
      let array ← itemsToMetadata items
      return .array array
  -- the whole buffer, wherever the window is
  | .view json => .ok (.view (ByteView.ofBuffer json.buffer))
  | .object properties => do
      let metadataMap ← propertiesToMetadata [] properties
      return .map metadataMap

def itemsToMetadata : List Json → Except ConversionError (List Metadatum)
  | [] => .ok []
  | metadataItem :: rest => do
      let item ← jsonToMetadatum metadataItem
      let items ← itemsToMetadata rest
      return item :: items

/-- The loop over the keys, each of which is a string and its own metadatum. -/
def propertiesToMetadata (metadataMap : List (Metadatum × Metadatum)) :
    List (JsString × Json) → Except ConversionError (List (Metadatum × Metadatum))
  | [] => .ok metadataMap
  | (key, json) :: rest => do
      let value ← jsonToMetadatum json
      propertiesToMetadata (Metadatum.setEntry (.string key) value metadataMap) rest

end

def protoKey : JsString := utf16Encode "__proto__"

/-- `object[key] = value`. The key `__proto__` sets no property of the object itself. -/
def setProperty (object : List (JsString × Json)) (key : JsString) (value : Json) :
    List (JsString × Json) :=
  if key = protoKey then object else JsMap.insertEntry key value object

mutual

/-- A value as a property key. An object of its own `toString` has no text. -/
def toPropertyKey : Json → Except ConversionError JsString
  | .null => .ok (utf16Encode "null")
  | .undefined => .ok (utf16Encode "undefined")
  | .boolean value => .ok (utf16Encode (toString value))
  | .number value => .ok value.text
  | .bigint value => .ok (utf16Encode (toString value))
  | .string value => .ok value
  | .array items => do
      let texts ← joinedTexts items
      return (texts.intersperse (utf16Encode ",")).flatten
  | .view view =>
    .ok ((view.window.map fun byte => utf16Encode (toString byte.toNat)).intersperse
      (utf16Encode ",")).flatten
  | .object properties =>
    if (properties.map Prod.fst).contains (utf16Encode "toString") then
      .error (.typeError "Cannot convert object to primitive value")
    else .ok (utf16Encode "[object Object]")

/-- The items as `join` writes them. -/
def joinedTexts : List Json → Except ConversionError (List JsString)
  | [] => .ok []
  | .null :: rest | .undefined :: rest => do
      let texts ← joinedTexts rest
      return [] :: texts
  | item :: rest => do
      let text ← toPropertyKey item
      let texts ← joinedTexts rest
      return text :: texts

end

mutual

def metadatumToJson : Metadatum → Except ConversionError Json
  | .null => .error (.invalidArgument "data" "Metadatum value can not be null")
  | .boolean _ => .error (.invalidArgument "metadatum" "Metadatum value can not be boolean")
  | .undefined => .error (.invalidArgument "metadatum" "Metadatum value can not be undefined")
  | .number _ => .error (.invalidArgument "metadatum" "Metadatum value can not be number")
  | .bigint metadatum => .ok (.bigint metadatum)
  | .string metadatum => .ok (.string metadatum)
  | .array items => do
      let array ← metadataToItems items
      return .array array
  | .view metadatum => .ok (.view metadatum.copy)
  | .map entries => do
      let object ← metadataToProperties [] entries
      return .object object

def metadataToItems : List Metadatum → Except ConversionError (List Json)
  | [] => .ok []
  | metadataItem :: rest => do
      let item ← metadatumToJson metadataItem
      let items ← metadataToItems rest
      return item :: items

/-- The loop over the entries. The key of an assignment is evaluated before its value. -/
def metadataToProperties (object : List (JsString × Json)) :
    List (Metadatum × Metadatum) → Except ConversionError (List (JsString × Json))
  | [] => .ok object
  | (key, metadatum) :: rest => do
      let jsonKey ← metadatumToJson key
      let value ← metadatumToJson metadatum
      let property ← toPropertyKey jsonKey
      metadataToProperties (setProperty object property value) rest

end

mutual

/-- The trees that conversion is for: no key stands twice or is `__proto__`. -/
def Json.IsTree : Json → Prop
  | .null | .undefined | .boolean _ | .number _ => False
  | .bigint _ | .string _ | .view _ => True
  | .array items => itemsAreTrees items
  | .object properties =>
    (properties.map Prod.fst).Nodup ∧ protoKey ∉ properties.map Prod.fst ∧
      propertiesAreTrees properties

def itemsAreTrees : List Json → Prop
  | [] => True
  | item :: rest => item.IsTree ∧ itemsAreTrees rest

def propertiesAreTrees : List (JsString × Json) → Prop
  | [] => True
  | (_, value) :: rest => value.IsTree ∧ propertiesAreTrees rest

end

mutual

/-- Structural equality: views by the bytes of their windows, objects by their keys. -/
def Json.Same : Json → Json → Prop
  | .view a, .view b => a.window = b.window
  | .array a, .array b => SameItems a b
  | .object a, .object b => a.length = b.length ∧ SameProperties a b
  | a, b => a = b

def SameItems : List Json → List Json → Prop
  | [], [] => True
  | a :: rest, b :: rest' => a.Same b ∧ SameItems rest rest'
  | _, _ => False

def SameProperties : List (JsString × Json) → List (JsString × Json) → Prop
  | [], _ => True
  | (key, value) :: rest, properties =>
    (∃ value', (key, value') ∈ properties ∧ value.Same value') ∧ SameProperties rest properties

end

mutual

def Json.ViewsWhole : Json → Prop
  | .view view => view.IsWhole
  | .array items => itemViewsWhole items
  | .object properties => propertyViewsWhole properties
  | _ => True

def itemViewsWhole : List Json → Prop
  | [] => True
  | item :: rest => item.ViewsWhole ∧ itemViewsWhole rest

def propertyViewsWhole : List (JsString × Json) → Prop
  | [] => True
  | (_, value) :: rest => value.ViewsWhole ∧ propertyViewsWhole rest

end

mutual

def Json.widened : Json → Json
  | .view view => .view (ByteView.ofBuffer view.buffer)
  | .array items => .array (widenedItems items)
  | .object properties => .object (widenedProperties properties)
  | json => json

def widenedItems : List Json → List Json
  | [] => []
  | item :: rest => item.widened :: widenedItems rest

def widenedProperties : List (JsString × Json) → List (JsString × Json)
  | [] => []
  | (key, value) :: rest => (key, value.widened) :: widenedProperties rest

end

theorem ByteView.window_ofBuffer (buffer : List UInt8) : (ofBuffer buffer).window = buffer := by
  rw [window, ofBuffer, List.drop_zero, List.take_length]

theorem ByteView.copy_ofBuffer (buffer : List UInt8) :
    (ofBuffer buffer).copy = ofBuffer buffer := by
  rw [copy, window_ofBuffer]

theorem ByteView.length_window (view : ByteView) : view.window.length = view.byteLength := by
  have hbuffer := view.inBuffer
  rw [window, List.length_take, List.length_drop]
  omega

theorem ByteView.buffer_eq_window_iff (view : ByteView) :
    view.buffer = view.window ↔ view.IsWhole := by
  constructor
  · intro hwindow
    have hbuffer := view.inBuffer
    have hlength := view.length_window
    rw [← hwindow] at hlength
    exact ⟨by omega, hlength.symm⟩
  · rintro ⟨hoffset, hlength⟩
    rw [window, hoffset, hlength, List.drop_zero, List.take_length]

theorem keys_widenedProperties : (properties : List (JsString × Json)) →
    (widenedProperties properties).map Prod.fst = properties.map Prod.fst
  | [] => by rw [widenedProperties]
  | (key, value) :: rest => by
    rw [widenedProperties, List.map_cons, List.map_cons, keys_widenedProperties rest]

theorem Metadatum.setEntry_new {key value : Metadatum} {entries : List (Metadatum × Metadatum)}
    (hkey : ∀ entry ∈ entries, key.sameKey entry.1 = false) :
    Metadatum.setEntry key value entries = entries ++ [(key, value)] := by
  induction entries with
  | nil => rfl
  | cons entry rest ih =>
    rw [setEntry, hkey entry List.mem_cons_self, if_neg Bool.false_ne_true,
      ih fun other hother => hkey other (List.mem_cons_of_mem _ hother), List.cons_append]

mutual

theorem convertsBack : (json : Json) → json.IsTree →
    ∃ metadatum, jsonToMetadatum json = .ok metadatum ∧
      metadatumToJson metadatum = .ok json.widened
  | .bigint value, _ => ⟨.bigint value, rfl, rfl⟩
  | .string value, _ => ⟨.string value, rfl, rfl⟩
  | .view view, _ => by
    refine ⟨.view (ByteView.ofBuffer view.buffer), rfl, ?_⟩
    rw [metadatumToJson, ByteView.copy_ofBuffer, Json.widened]
  | .array items, htree => by
    rw [Json.IsTree] at htree
    obtain ⟨metadata, hto, hback⟩ := itemsConvertBack items htree
    refine ⟨.array metadata, ?_, ?_⟩
    · rw [jsonToMetadatum, hto]
      rfl
    · rw [metadatumToJson, hback, Json.widened]
      rfl
  | .object properties, htree => by
    rw [Json.IsTree] at htree
    obtain ⟨hnodup, hproto, htrees⟩ := htree
    obtain ⟨entries, hto, hback⟩ := propertiesConvertBack properties htrees hnodup hproto
    refine ⟨.map entries, ?_, ?_⟩
    · rw [jsonToMetadatum, hto [] fun _ _ _ hmem => absurd hmem List.not_mem_nil]
      rfl
    · rw [metadatumToJson, hback [] fun _ _ hmem => absurd hmem List.not_mem_nil, Json.widened]
      rfl
  | .null, htree | .undefined, htree | .boolean _, htree | .number _, htree => by
    rw [Json.IsTree] at htree
    exact htree.elim

theorem itemsConvertBack : (items : List Json) → itemsAreTrees items →
    ∃ metadata, itemsToMetadata items = .ok metadata ∧
      metadataToItems metadata = .ok (widenedItems items)
  | [], _ => ⟨[], rfl, rfl⟩
  | item :: rest, htrees => by
    rw [itemsAreTrees] at htrees
    obtain ⟨metadatum, hto, hback⟩ := convertsBack item htrees.1
    obtain ⟨metadata, htoRest, hbackRest⟩ := itemsConvertBack rest htrees.2
    refine ⟨metadatum :: metadata, ?_, ?_⟩
    · rw [itemsToMetadata, hto, htoRest]
      rfl
    · rw [metadataToItems, hback, hbackRest, widenedItems]
      rfl

theorem propertiesConvertBack : (properties : List (JsString × Json)) →
    propertiesAreTrees properties → (properties.map Prod.fst).Nodup →
    protoKey ∉ properties.map Prod.fst →
    ∃ entries,
      (∀ metadataMap, (∀ key ∈ properties.map Prod.fst, ∀ entry ∈ metadataMap,
          (Metadatum.string key).sameKey entry.1 = false) →
        propertiesToMetadata metadataMap properties = .ok (metadataMap ++ entries)) ∧
      (∀ object, (∀ key ∈ properties.map Prod.fst, key ∉ object.map Prod.fst) →
        metadataToProperties object entries = .ok (object ++ widenedProperties properties))
  | [], _, _, _ => by
    refine ⟨[], fun metadataMap _ => ?_, fun object _ => ?_⟩
    · rw [propertiesToMetadata, List.append_nil]
    · rw [metadataToProperties, widenedProperties, List.append_nil]
  | (key, value) :: rest, htrees, hnodup, hproto => by
    rw [propertiesAreTrees] at htrees
    rw [List.map_cons, List.nodup_cons] at hnodup
    rw [List.map_cons, List.mem_cons, not_or] at hproto
    obtain ⟨metadatum, hto, hback⟩ := convertsBack value htrees.1
    obtain ⟨entries, htoRest, hbackRest⟩ :=
      propertiesConvertBack rest htrees.2 hnodup.2 hproto.2
    refine ⟨(.string key, metadatum) :: entries, fun metadataMap hfresh => ?_,
      fun object hfresh => ?_⟩
    · have hset : Metadatum.setEntry (.string key) metadatum metadataMap =
          metadataMap ++ [(.string key, metadatum)] :=
        Metadatum.setEntry_new (hfresh key List.mem_cons_self)
      rw [propertiesToMetadata, hto]
      change propertiesToMetadata (Metadatum.setEntry (.string key) metadatum metadataMap) rest =
        _
      rw [hset, htoRest, List.append_assoc, List.singleton_append]
      intro other hother entry hentry
      rcases List.mem_append.mp hentry with hold | hnew
      · exact hfresh other (List.mem_cons_of_mem _ hother) entry hold
      · rw [List.mem_singleton.mp hnew]
        exact decide_eq_false fun heq => hnodup.1 (heq ▸ hother)
    · have hset : setProperty object key value.widened = object ++ [(key, value.widened)] := by
        rw [setProperty, if_neg fun heq => hproto.1 heq.symm]
        exact JsMap.insertEntry_new (hfresh key List.mem_cons_self)
      rw [metadataToProperties, metadatumToJson, hback]
      change metadataToProperties (setProperty object key value.widened) entries = _
      rw [hset, hbackRest, widenedProperties, List.append_assoc, List.singleton_append]
      intro other hother hmem
      rw [List.map_append, List.mem_append, List.map_singleton, List.mem_singleton] at hmem
      rcases hmem with hold | hnew
      · exact hfresh other (List.mem_cons_of_mem _ hother) hold
      · exact hnodup.1 (hnew ▸ hother)

end

theorem length_widenedProperties (properties : List (JsString × Json)) :
    (widenedProperties properties).length = properties.length := by
  have hkeys := congrArg List.length (keys_widenedProperties properties)
  rw [List.length_map, List.length_map] at hkeys
  exact hkeys

theorem eq_of_mem_of_nodup {properties : List (JsString × Json)} {key : JsString}
    {a b : Json} (hnodup : (properties.map Prod.fst).Nodup) (ha : (key, a) ∈ properties)
    (hb : (key, b) ∈ properties) : a = b := by
  have hpair := List.inj_on_of_nodup_map hnodup ha hb rfl
  cases hpair
  rfl

mutual

theorem same_widened_iff : (json : Json) → json.IsTree →
    (json.widened.Same json ↔ json.ViewsWhole)
  | .bigint _, _ | .string _, _ => by
    rw [Json.widened, Json.ViewsWhole, Json.Same] <;> simp
  | .view view, _ => by
    rw [Json.widened, Json.Same, Json.ViewsWhole, ByteView.window_ofBuffer,
      ByteView.buffer_eq_window_iff]
  | .array items, htree => by
    rw [Json.IsTree] at htree
    rw [Json.widened, Json.Same, Json.ViewsWhole, sameItems_widened_iff items htree]
  | .object properties, htree => by
    rw [Json.IsTree] at htree
    rw [Json.widened, Json.Same, Json.ViewsWhole, length_widenedProperties,
      sameProperties_widened_iff properties properties htree.2.2 htree.1 fun _ h => h,
      and_iff_right rfl]
  | .null, htree | .undefined, htree | .boolean _, htree | .number _, htree => by
    rw [Json.IsTree] at htree
    exact htree.elim

theorem sameItems_widened_iff : (items : List Json) → itemsAreTrees items →
    (SameItems (widenedItems items) items ↔ itemViewsWhole items)
  | [], _ => by rw [widenedItems, SameItems, itemViewsWhole]
  | item :: rest, htrees => by
    rw [itemsAreTrees] at htrees
    rw [widenedItems, SameItems, itemViewsWhole, same_widened_iff item htrees.1,
      sameItems_widened_iff rest htrees.2]

theorem sameProperties_widened_iff : (part properties : List (JsString × Json)) →
    propertiesAreTrees part → (properties.map Prod.fst).Nodup →
    (∀ property ∈ part, property ∈ properties) →
    (SameProperties (widenedProperties part) properties ↔ propertyViewsWhole part)
  | [], _, _, _, _ => by rw [widenedProperties, SameProperties, propertyViewsWhole]
  | (key, value) :: rest, properties, htrees, hnodup, hsub => by
    rw [propertiesAreTrees] at htrees
    have hmem := hsub (key, value) List.mem_cons_self
    have hvalue : (∃ value', (key, value') ∈ properties ∧ value.widened.Same value') ↔
        value.widened.Same value := by
      constructor
      · rintro ⟨value', hmem', hsame⟩
        rw [eq_of_mem_of_nodup hnodup hmem' hmem] at hsame
        exact hsame
      · exact fun hsame => ⟨value, hmem, hsame⟩
    rw [widenedProperties, SameProperties, propertyViewsWhole, hvalue,
      same_widened_iff value htrees.1,
      sameProperties_widened_iff rest properties htrees.2 hnodup
        fun property hproperty => hsub property (List.mem_cons_of_mem _ hproperty)]

end

/-- A tree comes back the same if and only if each of its views is the view of a
whole buffer. -/
theorem metadatumToJson_jsonToMetadatum_iff (json : Json) (htree : json.IsTree) :
    (∃ json', (jsonToMetadatum json >>= metadatumToJson) = .ok json' ∧ json'.Same json) ↔
      json.ViewsWhole := by
  obtain ⟨metadatum, hto, hback⟩ := convertsBack json htree
  have hrun : (jsonToMetadatum json >>= metadatumToJson) = .ok json.widened := by
    rw [hto]
    exact hback
  rw [← same_widened_iff json htree, hrun]
  constructor
  · rintro ⟨json', hjson', hsame⟩
    cases hjson'
    exact hsame
  · exact fun hsame => ⟨json.widened, rfl, hsame⟩

def innerView : ByteView := ⟨[1, 2, 3, 4], 1, 2, by decide⟩

def wholeViewJson : Json :=
  .object [([97], .array [.bigint 1]), ([98], .view (ByteView.ofBuffer [1, 2, 3, 4]))]

theorem metadatumToJson_jsonToMetadatum_object :
    ∃ json', (jsonToMetadatum wholeViewJson >>= metadatumToJson) = .ok json' ∧
      json'.Same wholeViewJson := by
  refine (metadatumToJson_jsonToMetadatum_iff _ ?_).mpr ?_
  · simp only [wholeViewJson, Json.IsTree, itemsAreTrees, propertiesAreTrees]
    decide
  · simp only [wholeViewJson, Json.ViewsWhole, itemViewsWhole, propertyViewsWhole]
    exact ⟨⟨trivial, trivial⟩, ⟨rfl, rfl⟩, trivial⟩

theorem innerView_not_restored :
    ¬ ∀ json : Json, json.IsTree →
      ∃ json', (jsonToMetadatum json >>= metadatumToJson) = .ok json' ∧ json'.Same json := by
  intro h
  obtain ⟨json', hjson', hsame⟩ := h (.view innerView) (by rw [Json.IsTree]; trivial)
  cases hjson'
  rw [Json.Same] at hsame
  exact absurd hsame (by decide)

end CardanoSdk.Util
