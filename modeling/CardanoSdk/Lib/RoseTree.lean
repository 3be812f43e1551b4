import Mathlib.Data.List.Basic

/-!
Trees with a label at every node and any number of children.
-/

namespace CardanoSdk.Lib

inductive RoseTree (α : Type) where
  | node (label : α) (children : List (RoseTree α))

namespace RoseTree

variable {α β γ : Type}

mutual

def map (f : α → β) : RoseTree α → RoseTree β
  | .node label children => .node (f label) (mapAll f children)

def mapAll (f : α → β) : List (RoseTree α) → List (RoseTree β)
  | [] => []
  | tree :: trees => map f tree :: mapAll f trees

end

mutual

def labels : RoseTree α → List α
  | .node label children => label :: labelsOfAll children

def labelsOfAll : List (RoseTree α) → List α
  | [] => []
  | tree :: trees => labels tree ++ labelsOfAll trees

end

mutual

theorem labels_map (f : α → β) : (tree : RoseTree α) → (map f tree).labels = tree.labels.map f
  | .node label children => by
    rw [map, labels, labels, labelsOfAll_mapAll f children, List.map_cons]

theorem labelsOfAll_mapAll (f : α → β) : (trees : List (RoseTree α)) →
    labelsOfAll (mapAll f trees) = (labelsOfAll trees).map f
  | [] => by rw [mapAll, labelsOfAll, labelsOfAll, List.map_nil]
  | tree :: trees => by
    rw [mapAll, labelsOfAll, labelsOfAll, labels_map f tree, labelsOfAll_mapAll f trees,
      List.map_append]

end

theorem length_labels_of_map_eq {f : α → β} {tree tree' : RoseTree α}
    (h : map f tree = map f tree') : tree.labels.length = tree'.labels.length := by
  have hlabels := congrArg (fun t => (labels t).length) h
  simpa only [labels_map, List.length_map] using hlabels

def MakesUp (f : α → β) (g : α → γ) : Prop :=
  ∀ label label', f label = f label' → g label = g label' → label = label'

mutual

theorem eq_of_map_of_labels {f : α → β} {g : α → γ} (hparts : MakesUp f g) :
    (tree tree' : RoseTree α) → map f tree = map f tree' →
    tree.labels.map g = tree'.labels.map g → tree = tree'
  | .node label children, .node label' children', hshape, hmarks => by
    rw [map, map, node.injEq] at hshape
    rw [labels, labels, List.map_cons, List.map_cons, List.cons.injEq] at hmarks
    rw [hparts label label' hshape.1 hmarks.1,
      eq_of_mapAll_of_labels hparts children children' hshape.2 hmarks.2]

theorem eq_of_mapAll_of_labels {f : α → β} {g : α → γ} (hparts : MakesUp f g) : (trees trees' : List (RoseTree α)) →
    mapAll f trees = mapAll f trees' →
    (labelsOfAll trees).map g = (labelsOfAll trees').map g → trees = trees'
  | [], [], _, _ => rfl
  | tree :: trees, tree' :: trees', hshape, hmarks => by
    rw [mapAll, mapAll, List.cons.injEq] at hshape
    rw [labelsOfAll, labelsOfAll, List.map_append, List.map_append] at hmarks
    have hlength : (tree.labels.map g).length = (tree'.labels.map g).length := by
      rw [List.length_map, List.length_map, length_labels_of_map_eq hshape.1]
    obtain ⟨hfirst, hrest⟩ := List.append_inj hmarks hlength
    rw [eq_of_map_of_labels hparts tree tree' hshape.1 hfirst,
      eq_of_mapAll_of_labels hparts trees trees' hshape.2 hrest]
  | [], _ :: _, hshape, _ => by
    rw [mapAll, mapAll] at hshape
    cases hshape
  | _ :: _, [], hshape, _ => by
    rw [mapAll, mapAll] at hshape
    cases hshape

end

theorem eq_iff_shape_and_marks {f : α → β} {g : α → γ} (hparts : MakesUp f g)
    {tree tree' : RoseTree α} :
    tree = tree' ↔ map f tree = map f tree' ∧ tree.labels.map g = tree'.labels.map g := by
  constructor
  · rintro rfl
    exact ⟨rfl, rfl⟩
  · rintro ⟨hshape, hmarks⟩
    exact eq_of_map_of_labels hparts tree tree' hshape hmarks

end RoseTree

end CardanoSdk.Lib
