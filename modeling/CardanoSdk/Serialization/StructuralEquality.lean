import CardanoSdk.Lib.RoseTree
import CardanoSdk.Serialization.TransactionMetadatum

/-!
The `equals` of plutus data, of metadata and of metadata by their labels, against equality
of the trees they stand for.
-/

namespace CardanoSdk.Plutus

open Lib

inductive PlutusLabel where
  | constr (alternative : ℤ)
  | map (useIndefiniteEncoding : Bool)
  | list
  | integer (value : ℤ)
  | bytes (value : List UInt8)

/-- The label without the encoding of a map. -/
def PlutusLabel.content : PlutusLabel → PlutusLabel
  | .map _ => .map false
  | label => label

def PlutusLabel.encoding : PlutusLabel → Option Bool
  | .map useIndefiniteEncoding => some useIndefiniteEncoding
  | _ => none

theorem PlutusLabel.makesUp : RoseTree.MakesUp PlutusLabel.content PlutusLabel.encoding := by
  intro label label' hcontent hencoding
  cases label <;> cases label' <;> simp_all [PlutusLabel.content, PlutusLabel.encoding]

mutual

/-- The tree of a datum. The children of a map are its keys, each before its value. -/
def PlutusData.tree : PlutusData → RoseTree PlutusLabel
  | .constr _ alternative data => .node (.constr alternative) (plutusTrees data)
  | .map _ useIndefiniteEncoding entries =>
    .node (.map useIndefiniteEncoding) (plutusEntryTrees entries)
  | .list _ items => .node .list (plutusTrees items)
  | .integer _ value => .node (.integer value) []
  | .bytes _ value => .node (.bytes value) []

def plutusTrees : List PlutusData → List (RoseTree PlutusLabel)
  | [] => []
  | item :: items => item.tree :: plutusTrees items

def plutusEntryTrees : List (PlutusData × PlutusData) → List (RoseTree PlutusLabel)
  | [] => []
  | (key, value) :: entries => key.tree :: value.tree :: plutusEntryTrees entries

end

/-- Structurally the same tree, however the maps are encoded. -/
def PlutusData.SameTree (data data' : PlutusData) : Prop :=
  data.tree.map PlutusLabel.content = data'.tree.map PlutusLabel.content

/-- The encodings of the maps, in the order in which the maps begin. -/
def PlutusData.encodings (data : PlutusData) : List (Option Bool) :=
  data.tree.labels.map PlutusLabel.encoding

mutual

theorem equals_iff_tree : (data data' : PlutusData) →
    (data.equals data' = true ↔ data.tree = data'.tree)
  | .constr _ alternative items, .constr _ alternative' items' => by
    have hitems := itemsEqual_iff_trees items items'
    simp only [PlutusData.equals, PlutusData.tree, Bool.and_eq_true, decide_eq_true_eq, hitems,
      RoseTree.node.injEq, PlutusLabel.constr.injEq]
  | .map _ useIndefiniteEncoding entries, .map _ useIndefiniteEncoding' entries' => by
    have hentries := entriesEqual_iff_trees entries entries'
    simp only [PlutusData.equals, PlutusData.tree, Bool.and_eq_true, decide_eq_true_eq,
      hentries, RoseTree.node.injEq, PlutusLabel.map.injEq]
  | .list _ items, .list _ items' => by
    have hitems := itemsEqual_iff_trees items items'
    simp only [PlutusData.equals, PlutusData.tree, hitems, RoseTree.node.injEq, true_and]
  | .integer _ value, .integer _ value' => by
    simp only [PlutusData.equals, PlutusData.tree, decide_eq_true_eq, RoseTree.node.injEq,
      PlutusLabel.integer.injEq, and_true]
  | .bytes _ value, .bytes _ value' => by
    simp only [PlutusData.equals, PlutusData.tree, decide_eq_true_eq, RoseTree.node.injEq,
      PlutusLabel.bytes.injEq, and_true]
  | .constr _ _ _, .map _ _ _ | .constr _ _ _, .list _ _ | .constr _ _ _, .integer _ _
  | .constr _ _ _, .bytes _ _ | .map _ _ _, .constr _ _ _ | .map _ _ _, .list _ _
  | .map _ _ _, .integer _ _ | .map _ _ _, .bytes _ _ | .list _ _, .constr _ _ _
  | .list _ _, .map _ _ _ | .list _ _, .integer _ _ | .list _ _, .bytes _ _
  | .integer _ _, .constr _ _ _ | .integer _ _, .map _ _ _ | .integer _ _, .list _ _
  | .integer _ _, .bytes _ _ | .bytes _ _, .constr _ _ _ | .bytes _ _, .map _ _ _
  | .bytes _ _, .list _ _ | .bytes _ _, .integer _ _ => by
    simp [PlutusData.equals, PlutusData.tree]

theorem itemsEqual_iff_trees : (items items' : List PlutusData) →
    (itemsEqual items items' = true ↔ plutusTrees items = plutusTrees items')
  | [], [] => by simp [itemsEqual]
  | item :: items, item' :: items' => by
    have hitem := equals_iff_tree item item'
    have hitems := itemsEqual_iff_trees items items'
    simp only [itemsEqual, plutusTrees, Bool.and_eq_true, hitem, hitems, List.cons.injEq]
  | [], _ :: _ | _ :: _, [] => by simp [itemsEqual, plutusTrees]

theorem entriesEqual_iff_trees : (entries entries' : List (PlutusData × PlutusData)) →
    (entriesEqual entries entries' = true ↔ plutusEntryTrees entries = plutusEntryTrees entries')
  | [], [] => by simp [entriesEqual]
  | (key, value) :: entries, (key', value') :: entries' => by
    have hkey := equals_iff_tree key key'
    have hvalue := equals_iff_tree value value'
    have hentries := entriesEqual_iff_trees entries entries'
    simp only [entriesEqual, plutusEntryTrees, Bool.and_eq_true, hkey, hvalue, hentries,
      List.cons.injEq, and_assoc]
  | [], _ :: _ | _ :: _, [] => by simp [entriesEqual, plutusEntryTrees]

end

theorem equals_iff_sameTree (data data' : PlutusData) :
    data.equals data' = true ↔ data.SameTree data' ∧ data.encodings = data'.encodings := by
  rw [equals_iff_tree]
  exact RoseTree.eq_iff_shape_and_marks PlutusLabel.makesUp

end CardanoSdk.Plutus

namespace CardanoSdk.Serialization

open Lib Plutus

inductive MetadatumLabel where
  /-- An object of the kind `Map` that has no map. -/
  | missing
  | map (useIndefiniteEncoding : Bool)
  | list
  | integer (value : ℤ)
  | bytes (value : List UInt8)
  | text (value : String)
  deriving DecidableEq

def MetadatumLabel.content : MetadatumLabel → MetadatumLabel
  | .map _ => .map false
  | label => label

def MetadatumLabel.encoding : MetadatumLabel → Option Bool
  | .map useIndefiniteEncoding => some useIndefiniteEncoding
  | _ => none

theorem MetadatumLabel.makesUp :
    RoseTree.MakesUp MetadatumLabel.content MetadatumLabel.encoding := by
  intro label label' hcontent hencoding
  cases label <;> cases label' <;> simp_all [MetadatumLabel.content, MetadatumLabel.encoding]

mutual

def TransactionMetadatum.tree : TransactionMetadatum → RoseTree MetadatumLabel
  | .new _ => .node .missing []
  | .map _ useIndefiniteEncoding entries =>
    .node (.map useIndefiniteEncoding) (metadatumEntryTrees entries)
  | .list _ _ items => .node .list (metadatumTrees items)
  | .integer _ value => .node (.integer value) []
  | .bytes _ value => .node (.bytes value) []
  | .text _ value => .node (.text value) []

def metadatumTrees : List TransactionMetadatum → List (RoseTree MetadatumLabel)
  | [] => []
  | item :: items => item.tree :: metadatumTrees items

def metadatumEntryTrees : List (TransactionMetadatum × TransactionMetadatum) →
    List (RoseTree MetadatumLabel)
  | [] => []
  | (key, value) :: entries => key.tree :: value.tree :: metadatumEntryTrees entries

end

def TransactionMetadatum.SameTree (metadatum metadatum' : TransactionMetadatum) : Prop :=
  metadatum.tree.map MetadatumLabel.content = metadatum'.tree.map MetadatumLabel.content

def TransactionMetadatum.encodings (metadatum : TransactionMetadatum) : List (Option Bool) :=
  metadatum.tree.labels.map MetadatumLabel.encoding

/-- No part of the tree is an object that holds nothing. -/
def TransactionMetadatum.Complete (metadatum : TransactionMetadatum) : Prop :=
  .missing ∉ metadatum.tree.labels

mutual

theorem metadatum_equals_iff_tree : (metadatum metadatum' : TransactionMetadatum) →
    (metadatum.equals metadatum' = true ↔
      metadatum.tree = metadatum'.tree ∧ .missing ∉ metadatum.tree.labels)
  | .map _ useIndefiniteEncoding entries, .map _ useIndefiniteEncoding' entries' => by
    have hentries := metadatumEntriesEqual_iff_trees entries entries'
    simp only [TransactionMetadatum.equals, TransactionMetadatum.tree, Bool.and_eq_true,
      decide_eq_true_eq, hentries, RoseTree.node.injEq, MetadatumLabel.map.injEq,
      RoseTree.labels, List.mem_cons, reduceCtorEq, false_or, and_assoc]
  | .list _ _ items, .list _ _ items' => by
    have hitems := metadataEqual_iff_trees items items'
    simp only [TransactionMetadatum.equals, TransactionMetadatum.tree, hitems,
      RoseTree.node.injEq, true_and, RoseTree.labels, List.mem_cons, reduceCtorEq, false_or]
  | .integer _ value, .integer _ value' => by
    simp [TransactionMetadatum.equals, TransactionMetadatum.tree, RoseTree.labels,
      RoseTree.labelsOfAll]
  | .bytes _ value, .bytes _ value' => by
    simp [TransactionMetadatum.equals, TransactionMetadatum.tree, RoseTree.labels,
      RoseTree.labelsOfAll]
  | .text _ value, .text _ value' => by
    simp [TransactionMetadatum.equals, TransactionMetadatum.tree, RoseTree.labels,
      RoseTree.labelsOfAll]
  | .new _, metadatum' => by
    simp [TransactionMetadatum.equals, TransactionMetadatum.tree, RoseTree.labels]
  | .map _ _ _, .new _ | .map _ _ _, .list _ _ _ | .map _ _ _, .integer _ _
  | .map _ _ _, .bytes _ _ | .map _ _ _, .text _ _ | .list _ _ _, .new _
  | .list _ _ _, .map _ _ _ | .list _ _ _, .integer _ _ | .list _ _ _, .bytes _ _
  | .list _ _ _, .text _ _ | .integer _ _, .new _ | .integer _ _, .map _ _ _
  | .integer _ _, .list _ _ _ | .integer _ _, .bytes _ _ | .integer _ _, .text _ _
  | .bytes _ _, .new _ | .bytes _ _, .map _ _ _ | .bytes _ _, .list _ _ _
  | .bytes _ _, .integer _ _ | .bytes _ _, .text _ _ | .text _ _, .new _
  | .text _ _, .map _ _ _ | .text _ _, .list _ _ _ | .text _ _, .integer _ _
  | .text _ _, .bytes _ _ => by
    simp [TransactionMetadatum.equals, TransactionMetadatum.tree]

theorem metadataEqual_iff_trees : (items items' : List TransactionMetadatum) →
    (metadataEqual items items' = true ↔
      metadatumTrees items = metadatumTrees items' ∧
        .missing ∉ RoseTree.labelsOfAll (metadatumTrees items))
  | [], [] => by simp [metadataEqual, metadatumTrees, RoseTree.labelsOfAll]
  | item :: items, item' :: items' => by
    have hitem := metadatum_equals_iff_tree item item'
    have hitems := metadataEqual_iff_trees items items'
    simp only [metadataEqual, metadatumTrees, Bool.and_eq_true, hitem, hitems, List.cons.injEq,
      RoseTree.labelsOfAll, List.mem_append, not_or]
    tauto
  | [], _ :: _ | _ :: _, [] => by simp [metadataEqual, metadatumTrees]

theorem metadatumEntriesEqual_iff_trees :
    (entries entries' : List (TransactionMetadatum × TransactionMetadatum)) →
    (metadatumEntriesEqual entries entries' = true ↔
      metadatumEntryTrees entries = metadatumEntryTrees entries' ∧
        .missing ∉ RoseTree.labelsOfAll (metadatumEntryTrees entries))
  | [], [] => by simp [metadatumEntriesEqual, metadatumEntryTrees, RoseTree.labelsOfAll]
  | (key, value) :: entries, (key', value') :: entries' => by
    have hkey := metadatum_equals_iff_tree key key'
    have hvalue := metadatum_equals_iff_tree value value'
    have hentries := metadatumEntriesEqual_iff_trees entries entries'
    simp only [metadatumEntriesEqual, metadatumEntryTrees, Bool.and_eq_true, hkey, hvalue,
      hentries, List.cons.injEq, RoseTree.labelsOfAll, List.mem_append, not_or]
    tauto
  | [], _ :: _ | _ :: _, [] => by simp [metadatumEntriesEqual, metadatumEntryTrees]

end

theorem metadatum_equals_iff_sameTree (metadatum metadatum' : TransactionMetadatum) :
    metadatum.equals metadatum' = true ↔
      metadatum.SameTree metadatum' ∧ metadatum.encodings = metadatum'.encodings ∧
        metadatum.Complete := by
  rw [metadatum_equals_iff_tree, RoseTree.eq_iff_shape_and_marks MetadatumLabel.makesUp, and_assoc]
  rfl

namespace GeneralTransactionMetadata

/-- `#originalBytes`, which nothing sets. -/
def originalBytes (_ : GeneralTransactionMetadata) : Option (List UInt8) := none

def entriesEqual : List (ℤ × TransactionMetadatum) → List (ℤ × TransactionMetadatum) → Bool
  | thisEntry :: thisEntries, otherEntry :: otherEntries =>
    if thisEntry.1 ≠ otherEntry.1 then false
    else if !thisEntry.2.equals otherEntry.2 then false
    else entriesEqual thisEntries otherEntries
  | _, _ => true

def equals (general other : GeneralTransactionMetadata) : Bool :=
  if general.originalBytes = other.originalBytes then true
  else if general.metadata.size ≠ other.metadata.size then false
  else entriesEqual general.metadata.entries other.metadata.entries

/-- The same labels in the same order with structurally equal metadata. -/
def SameMetadata (general other : GeneralTransactionMetadata) : Prop :=
  List.Forall₂ (fun entry entry' => entry.1 = entry'.1 ∧ entry.2.SameTree entry'.2)
    general.metadata.entries other.metadata.entries

theorem equals_eq_true (general other : GeneralTransactionMetadata) :
    general.equals other = true := by
  rw [equals, if_pos (show general.originalBytes = other.originalBytes from rfl)]

end GeneralTransactionMetadata

structure IsEquivalenceOn {α : Type} (equals : α → α → Bool) (part : α → Prop) : Prop where
  refl_iff : ∀ a, equals a a = true ↔ part a
  symm : ∀ a b, equals a b = true → equals b a = true
  trans : ∀ a b c, equals a b = true → equals b c = true → equals a c = true

theorem plutusData_equivalence : IsEquivalenceOn PlutusData.equals (fun _ => True) where
  refl_iff := fun data => by simp [equals_iff_tree]
  symm := fun data data' h => by
    rw [equals_iff_tree] at h ⊢
    exact h.symm
  trans := fun data data' data'' h h' => by
    rw [equals_iff_tree] at h h' ⊢
    exact h.trans h'

theorem metadatum_equivalence :
    IsEquivalenceOn TransactionMetadatum.equals TransactionMetadatum.Complete where
  refl_iff := fun metadatum => by
    rw [metadatum_equals_iff_tree]
    exact ⟨fun h => h.2, fun h => ⟨rfl, h⟩⟩
  symm := fun metadatum metadatum' h => by
    rw [metadatum_equals_iff_tree] at h ⊢
    exact ⟨h.1.symm, h.1 ▸ h.2⟩
  trans := fun metadatum metadatum' metadatum'' h h' => by
    rw [metadatum_equals_iff_tree] at h h' ⊢
    exact ⟨h.1.trans h'.1, h.2⟩

theorem general_equivalence :
    IsEquivalenceOn GeneralTransactionMetadata.equals (fun _ => True) where
  refl_iff := fun general => by simp [GeneralTransactionMetadata.equals_eq_true]
  symm := fun _ _ _ => GeneralTransactionMetadata.equals_eq_true _ _
  trans := fun _ _ _ _ _ => GeneralTransactionMetadata.equals_eq_true _ _

/-- `equals` is structural equality of plutus data exactly where the maps of equal trees
are encoded alike, of metadata where besides no part is an object that holds nothing,
and of labelled metadata only where the two are the same anyway. -/
theorem equals_structural_iff (data data' : PlutusData)
    (metadatum metadatum' : TransactionMetadatum) (general other : GeneralTransactionMetadata) :
    ((data.equals data' = true ↔ data.SameTree data') ↔
        (data.SameTree data' → data.encodings = data'.encodings)) ∧
      ((metadatum.equals metadatum' = true ↔ metadatum.SameTree metadatum') ↔
        (metadatum.SameTree metadatum' →
          metadatum.encodings = metadatum'.encodings ∧ metadatum.Complete)) ∧
      ((general.equals other = true ↔ general.SameMetadata other) ↔
        general.SameMetadata other) ∧
      IsEquivalenceOn PlutusData.equals (fun _ => True) ∧
      IsEquivalenceOn TransactionMetadatum.equals TransactionMetadatum.Complete ∧
      IsEquivalenceOn GeneralTransactionMetadata.equals (fun _ => True) := by
  refine ⟨?_, ?_, ?_, plutusData_equivalence, metadatum_equivalence, general_equivalence⟩
  · rw [equals_iff_sameTree]
    tauto
  · rw [metadatum_equals_iff_sameTree]
    tauto
  · rw [GeneralTransactionMetadata.equals_eq_true]
    tauto

/-- Metadata with one label against none, the two encodings of the empty map, and what
stands under a foreign tag. -/
theorem equals_not_structural :
    ((⟨JsMap.ofList [(1, .newInteger 1)]⟩ : GeneralTransactionMetadata).equals
        ⟨JsMap.empty⟩ = true ∧
      ¬ GeneralTransactionMetadata.SameMetadata ⟨JsMap.ofList [(1, .newInteger 1)]⟩
        ⟨JsMap.empty⟩) ∧
      (PlutusData.SameTree (.map none true []) (.map none false []) ∧
        (PlutusData.map none true []).equals (.map none false []) = false) ∧
      (TransactionMetadatum.SameTree (.map none true []) (.map none false []) ∧
        (TransactionMetadatum.map none true []).equals (.map none false []) = false) ∧
      (TransactionMetadatum.fromCbor [0xc4, 0x00] = .ok (.new (some [0xc4, 0x00])) ∧
        (TransactionMetadatum.new (some [0xc4, 0x00])).equals
          (.new (some [0xc4, 0x00])) = false) := by
  refine ⟨⟨rfl, ?_⟩, ⟨rfl, ?_⟩, ⟨rfl, ?_⟩, ?_, ?_⟩
  · intro h
    have hlength := h.length_eq
    revert hlength
    decide
  · decide
  · decide
  · rfl
  · decide

end CardanoSdk.Serialization
