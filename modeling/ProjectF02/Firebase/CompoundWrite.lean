import ProjectF02.Firebase.Node
import ProjectF02.Firebase.ImmutableTree
import ProjectF02.Store.Overlays
import Mathlib.Data.String.Basic

/-! Writes gathered in a tree, of which none lies below another.

Transcribed from `FCompoundWrite`. Priority writes are not represented: the
program sets none.
-/

set_option autoImplicit false

namespace ProjectF02.Firebase
open Store

variable {Double : Type}

/-- Keys that name children of nodes, in the order of `stringComparator` of their names. Nodes compare names
literally and the trees by the comparator; since no two keys compare equal, both mean the same child. -/
class NodeKey (Key : Type) extends LinearOrder Key where
  name : Key → String
  name_injective : Function.Injective name

/-- Strings in the order of their code points, which is the comparator's for ASCII. -/
instance stringKey : NodeKey String where
  toLinearOrder := inferInstance
  name := id
  name_injective := Function.injective_id

namespace KeyPath

variable {Key : Type}

def names [NodeKey Key] (path : KeyPath Key) : List String := path.map NodeKey.name

@[simp] theorem names_append [NodeKey Key] (path rest : KeyPath Key) :
    KeyPath.names (path ++ rest) = path.names ++ rest.names := List.map_append

theorem names_prefix_iff [NodeKey Key] {path other : KeyPath Key} :
    path.names <+: other.names ↔ path <+: other :=
  List.prefix_map_iff_of_injective NodeKey.name_injective

def contains [DecidableEq Key] (path other : KeyPath Key) : Bool := path.isPrefixOf other

@[simp] theorem contains_iff [DecidableEq Key] {path other : KeyPath Key} :
    path.contains other = true ↔ path <+: other := List.isPrefixOf_iff_prefix

/-- The inner path seen from the outer one. Where the outer path does not contain the inner one an
exception is raised; no caller gets there. -/
def relativePathFrom (outer inner : KeyPath Key) : KeyPath Key := inner.drop outer.length

end KeyPath

namespace Node

theorem getChild_append (node : Node Double) (path rest : List String) :
    node.getChild (path ++ rest) = (node.getChild path).getChild rest := by
  induction path generalizing node with
  | nil => rfl
  | cons front others ih => exact ih _

theorem getChild_updateChild_above (node : Node Double) (path rest : List String) (new : Node Double) :
    (node.updateChild (path ++ rest) new).getChild path = (node.getChild path).updateChild rest new := by
  induction path generalizing node with
  | nil => rfl
  | cons front others ih =>
    simp only [List.cons_append, updateChild, getChild, getImmediateChild_updateImmediateChild, ih]

instance pathData {Key : Type} [NodeKey Key] : PathData Key (Node Double) where
  read node path := node.getChild (KeyPath.names path)
  write node path new := node.updateChild (KeyPath.names path) new
  read_nil _ := rfl
  read_append node path rest := by rw [KeyPath.names_append, getChild_append]
  write_nil _ _ := rfl
  read_write_above node path rest new := by rw [KeyPath.names_append, getChild_updateChild_above]
  read_write_apart node path other new below above :=
    getChild_updateChild_of_apart (mt KeyPath.names_prefix_iff.mp below) (mt KeyPath.names_prefix_iff.mp above) node new

end Node

structure FCompoundWrite (Key Double : Type) [NodeKey Key] where
  writeTree : FImmutableTree Key (Node Double)
  sound : writeTree.Sound

namespace FCompoundWrite

variable {Key : Type} [NodeKey Key]

def emptyWrite : FCompoundWrite Key Double := ⟨.empty, FImmutableTree.sound_empty⟩

def isEmpty (write : FCompoundWrite Key Double) : Bool := write.writeTree.isEmpty

def addWrite (write : FCompoundWrite Key Double) (node : Node Double) (path : KeyPath Key) :
    FCompoundWrite Key Double :=
  if path.isEmpty then ⟨.initWithValue (some node), FImmutableTree.sound_initWithValue _⟩
  else match found : write.writeTree.findRootMostValueAndPath path with
    | some (root, value) =>
        let changed := value.updateChild (KeyPath.relativePathFrom root path).names node
        ⟨write.writeTree.setValue (some changed) root,
          write.sound.setValue (FImmutableTree.findRootMostValueAndPath_above found).2.1 changed⟩
    | none =>
        ⟨write.writeTree.setTree (.initWithValue (some node)) path,
          write.sound.setTree (FImmutableTree.sound_initWithValue _) found⟩

def enumerateWrites (write : FCompoundWrite Key Double) : List (KeyPath Key × Node Double) :=
  write.writeTree.forEach

def addCompoundWrite (write compoundWrite : FCompoundWrite Key Double) (path : KeyPath Key) :
    FCompoundWrite Key Double :=
  compoundWrite.enumerateWrites.foldl (fun newWrite entry => newWrite.addWrite entry.2 (path ++ entry.1)) write

/-- Writes at the path and below are removed, one above it is not modified. -/
def removeWriteAtPath (write : FCompoundWrite Key Double) (path : KeyPath Key) : FCompoundWrite Key Double :=
  if path.isEmpty then emptyWrite
  else ⟨write.writeTree.setTree .empty path, write.sound.setTree_empty path⟩

def completeNodeAtPath (write : FCompoundWrite Key Double) (path : KeyPath Key) : Option (Node Double) := do
  let (root, value) ← write.writeTree.findRootMostValueAndPath path
  return value.getChild (KeyPath.relativePathFrom root path).names

mutual
def applySubtreeWrite (relativePath : KeyPath Key) (node : Node Double) :
    FImmutableTree Key (Node Double) → Node Double
  -- A write is never above another, so nothing is left to apply.
  | .node (some value) _ => node.updateChild (KeyPath.names relativePath) value
  | .node none children => applyChildWrites relativePath node children

def applyChildWrites (relativePath : KeyPath Key) (node : Node Double) :
    List (Key × FImmutableTree Key (Node Double)) → Node Double
  | [] => node
  | (childKey, childTree) :: rest =>
      applyChildWrites relativePath (applySubtreeWrite (relativePath ++ [childKey]) node childTree) rest
end

theorem completeNodeAtPath_of_found {write : FCompoundWrite Key Double} {path root : KeyPath Key}
    {value : Node Double}
    (found : write.writeTree.findRootMostValueAndPath path = some (root, value)) :
    write.completeNodeAtPath path = some (value.getChild (KeyPath.relativePathFrom root path).names) := by
  rw [completeNodeAtPath, found]
  rfl

theorem completeNodeAtPath_of_rootWrite {write : FCompoundWrite Key Double} {node : Node Double}
    (root : write.writeTree = .initWithValue (some node)) (path : KeyPath Key) :
    write.completeNodeAtPath path = some (node.getChild path.names) := by
  rw [completeNodeAtPath, root, FImmutableTree.findRootMostValueAndPath_initWithValue]
  rfl

theorem completeNodeAtPath_eq_none {write : FCompoundWrite Key Double} {path : KeyPath Key} :
    write.completeNodeAtPath path = none ↔ write.writeTree.findRootMostValueAndPath path = none := by
  rw [completeNodeAtPath]
  cases write.writeTree.findRootMostValueAndPath path with
  | none => exact iff_of_true rfl rfl
  | some found => exact iff_of_false (Option.some_ne_none _) (Option.some_ne_none _)

@[simp] theorem completeNodeAtPath_emptyWrite (path : KeyPath Key) :
    (emptyWrite : FCompoundWrite Key Double).completeNodeAtPath path = none :=
  completeNodeAtPath_eq_none.mpr (FImmutableTree.findRootMostValueAndPath_empty path)

/-- The value at a path of the tree is what is told there and at no path above. -/
theorem valueAtPath_eq_some_iff {write : FCompoundWrite Key Double} {path : KeyPath Key} {node : Node Double} :
    write.writeTree.valueAtPath path = some node ↔
      write.completeNodeAtPath path = some node ∧
        ∀ upper, upper <+: path → upper ≠ path → write.completeNodeAtPath upper = none := by
  constructor
  · intro here
    have found := write.sound.findRootMostValueAndPath_self here
    refine ⟨?_, fun upper above shorter => ?_⟩
    · rw [completeNodeAtPath_of_found found, KeyPath.relativePathFrom, List.drop_length]
      rfl
    · cases higher : write.writeTree.findRootMostValueAndPath upper with
      | none => exact completeNodeAtPath_eq_none.mpr higher
      | some entry =>
        -- A value found from the shorter path is the one found from the longer path.
        obtain ⟨root, value⟩ := entry
        obtain ⟨rootAbove, -, everywhere⟩ := FImmutableTree.findRootMostValueAndPath_above higher
        have same := (everywhere path (rootAbove.trans above)).symm.trans found
        cases same
        exact absurd (List.IsPrefix.eq_of_length above (le_antisymm above.length_le rootAbove.length_le)) shorter
  · rintro ⟨told, first⟩
    cases found : write.writeTree.findRootMostValueAndPath path with
    | none =>
      rw [completeNodeAtPath_eq_none.mpr found] at told
      cases told
    | some entry =>
      obtain ⟨root, value⟩ := entry
      obtain ⟨above, here, everywhere⟩ := FImmutableTree.findRootMostValueAndPath_above found
      by_cases same : root = path
      · subst same
        rw [completeNodeAtPath_of_found found, KeyPath.relativePathFrom, List.drop_length] at told
        exact here.trans told
      · have higher := first root above same
        rw [completeNodeAtPath_eq_none, everywhere root (List.prefix_refl root)] at higher
        cases higher

theorem ext_completeNodeAtPath {left right : FCompoundWrite Key Double}
    (same : ∀ path, left.completeNodeAtPath path = right.completeNodeAtPath path) : left = right := by
  have values : ∀ path, left.writeTree.valueAtPath path = right.writeTree.valueAtPath path := by
    intro path
    apply Option.ext
    intro node
    rw [valueAtPath_eq_some_iff, valueAtPath_eq_some_iff, same path]
    simp only [same]
  obtain ⟨leftTree, leftSound⟩ := left
  obtain ⟨rightTree, rightSound⟩ := right
  obtain rfl : leftTree = rightTree := leftSound.ext rightSound values
  rfl

theorem addWrite_nil (write : FCompoundWrite Key Double) (node : Node Double) :
    (write.addWrite node []).writeTree = .initWithValue (some node) := rfl

theorem addWrite_of_found {write : FCompoundWrite Key Double} {path root : KeyPath Key} {value : Node Double}
    (present : path ≠ []) (found : write.writeTree.findRootMostValueAndPath path = some (root, value))
    (node : Node Double) :
    (write.addWrite node path).writeTree =
      write.writeTree.setValue (some (value.updateChild (KeyPath.relativePathFrom root path).names node)) root := by
  rw [addWrite, if_neg (by simpa using present)]
  split
  next other held same =>
    rw [found] at same
    cases same
    rfl
  next none =>
    rw [found] at none
    cases none

theorem addWrite_of_none {write : FCompoundWrite Key Double} {path : KeyPath Key} (present : path ≠ [])
    (none : write.writeTree.findRootMostValueAndPath path = none) (node : Node Double) :
    (write.addWrite node path).writeTree = write.writeTree.setTree (.initWithValue (some node)) path := by
  rw [addWrite, if_neg (by simpa using present)]
  split
  next other held same =>
    rw [none] at same
    cases same
  next => rfl

theorem completeNodeAtPath_of_above {write : FCompoundWrite Key Double} {path : KeyPath Key}
    (none : write.writeTree.findRootMostValueAndPath path = none) {upper : KeyPath Key}
    (above : upper <+: path) :
    write.completeNodeAtPath upper = Option.none := by
  cases higher : write.writeTree.findRootMostValueAndPath upper with
  | none => exact completeNodeAtPath_eq_none.mpr higher
  | some entry =>
    obtain ⟨rootAbove, -, everywhere⟩ := FImmutableTree.findRootMostValueAndPath_above higher
    rw [everywhere path (rootAbove.trans above)] at none
    cases none

theorem completeNodeAtPath_addWrite (write : FCompoundWrite Key Double) (node : Node Double)
    (path other : KeyPath Key) :
    (write.addWrite node path).completeNodeAtPath other =
      Overlay.effect other (write.completeNodeAtPath other) (path, node) := by
  by_cases present : path = []
  · subst present
    rw [Overlay.effect_of_covers List.nil_prefix, completeNodeAtPath_of_rootWrite (addWrite_nil write node)]
    rfl
  · cases found : write.writeTree.findRootMostValueAndPath path with
    | some entry =>
      obtain ⟨root, value⟩ := entry
      obtain ⟨above, here, everywhere⟩ := FImmutableTree.findRootMostValueAndPath_above found
      have changed := write.sound.findRootMostValueAndPath_setValue here
        (value.updateChild (KeyPath.relativePathFrom root path).names node) other
      rw [← addWrite_of_found present found] at changed
      obtain ⟨lower, rfl⟩ := above
      by_cases below : root <+: other
      · obtain ⟨rest, rfl⟩ := below
        rw [if_pos (List.prefix_append _ _)] at changed
        rw [completeNodeAtPath_of_found changed,
          completeNodeAtPath_of_found (everywhere _ (List.prefix_append root rest))]
        have master := Overlay.effect_some (lower, node) rest value
        simp only [Overlay.effect, List.prefix_append_right_inj, List.length_append, KeyPath.relativePathFrom,
          List.drop_left, List.drop_length_add_append] at master ⊢
        exact master.symm
      · rw [if_neg below] at changed
        have uncovered : ¬ root ++ lower <+: other := fun covers =>
          below ((List.prefix_append _ _).trans covers)
        rw [completeNodeAtPath, changed, ← completeNodeAtPath]
        by_cases between : other <+: root ++ lower
        · -- Between the root of the tree and the value nothing is told.
          have unknown : write.completeNodeAtPath other = none := by
            cases higher : write.writeTree.findRootMostValueAndPath other with
            | none => exact completeNodeAtPath_eq_none.mpr higher
            | some entry =>
              obtain ⟨rootAbove, -, again⟩ := FImmutableTree.findRootMostValueAndPath_above higher
              have same := (again _ (rootAbove.trans between)).symm.trans found
              cases same
              exact absurd rootAbove below
          rw [unknown, Overlay.effect_none uncovered]
        · rw [Overlay.effect_of_apart uncovered between]
    | none =>
      have unset : ∀ upper lower, path = upper ++ lower → lower ≠ [] →
          write.writeTree.valueAtPath upper = none := by
        intro upper lower split _
        cases held : write.writeTree.valueAtPath upper with
        | none => rfl
        | some value =>
          have higher := completeNodeAtPath_of_above found ⟨lower, split.symm⟩
          rw [(valueAtPath_eq_some_iff.mp held).1] at higher
          cases higher
      have changed := write.sound.findRootMostValueAndPath_setTree (.initWithValue (some node)) unset other
      rw [← addWrite_of_none present found] at changed
      by_cases covers : path <+: other
      · rw [if_pos covers, FImmutableTree.findRootMostValueAndPath_initWithValue] at changed
        rw [completeNodeAtPath_of_found changed, Overlay.effect_of_covers covers, List.append_nil]
        rfl
      · rw [if_neg covers] at changed
        rw [completeNodeAtPath, changed, ← completeNodeAtPath]
        by_cases between : other <+: path
        · rw [completeNodeAtPath_of_above found between, Overlay.effect_none covers]
        · rw [Overlay.effect_of_apart covers between]

theorem completeNodeAtPath_addCompoundWrite (write compoundWrite : FCompoundWrite Key Double)
    (path other : KeyPath Key) :
    (write.addCompoundWrite compoundWrite path).completeNodeAtPath other =
      (compoundWrite.enumerateWrites.map fun entry => (path ++ entry.1, entry.2)).foldl
        (Overlay.effect other) (write.completeNodeAtPath other) := by
  unfold addCompoundWrite
  induction compoundWrite.enumerateWrites generalizing write with
  | nil => rfl
  | cons entry rest ih =>
    rw [List.foldl_cons, ih, completeNodeAtPath_addWrite, List.map_cons, List.foldl_cons]

/-! ## Removing writes -/

theorem completeNodeAtPath_removeWriteAtPath {write : FCompoundWrite Key Double} {path : KeyPath Key}
    (first : ∀ upper, upper <+: path → upper ≠ path → write.completeNodeAtPath upper = none)
    (other : KeyPath Key) :
    (write.removeWriteAtPath path).completeNodeAtPath other =
      if path <+: other then none else write.completeNodeAtPath other := by
  rw [removeWriteAtPath]
  split
  next blank =>
    obtain rfl : path = [] := List.isEmpty_iff.mp blank
    rw [if_pos List.nil_prefix, completeNodeAtPath_emptyWrite]
  next present =>
    have unset : ∀ upper lower, path = upper ++ lower → lower ≠ [] →
        write.writeTree.valueAtPath upper = none := by
      intro upper lower split longer
      cases held : write.writeTree.valueAtPath upper with
      | none => rfl
      | some value =>
        have shorter : upper ≠ path := by
          rintro rfl
          exact longer (List.self_eq_append_right.mp split)
        have higher := first upper ⟨lower, split.symm⟩ shorter
        rw [(valueAtPath_eq_some_iff.mp held).1] at higher
        cases higher
    have changed := write.sound.findRootMostValueAndPath_setTree .empty unset other
    rw [completeNodeAtPath, changed]
    split
    · rw [FImmutableTree.findRootMostValueAndPath_empty]
      rfl
    · rfl

/-! ## The writes one by one -/

theorem mem_enumerateWrites {write : FCompoundWrite Key Double} {path : KeyPath Key} {node : Node Double} :
    (path, node) ∈ write.enumerateWrites ↔ write.writeTree.valueAtPath path = some node :=
  write.sound.mem_forEach

theorem enumerateWrites_apart {write : FCompoundWrite Key Double} {first second : KeyPath Key × Node Double}
    (firstMember : first ∈ write.enumerateWrites) (secondMember : second ∈ write.enumerateWrites)
    (above : first.1 <+: second.1) : first = second := by
  obtain ⟨path, node⟩ := first
  obtain ⟨other, otherNode⟩ := second
  have here := mem_enumerateWrites.mp firstMember
  have there := mem_enumerateWrites.mp secondMember
  have same : path = other := by
    by_contra shorter
    have unknown := (valueAtPath_eq_some_iff.mp there).2 path above shorter
    rw [(valueAtPath_eq_some_iff.mp here).1] at unknown
    cases unknown
  subst same
  rw [here] at there
  rw [Option.some.inj there]

theorem enumerateWrites_of_isEmpty {write : FCompoundWrite Key Double} (empty : write.isEmpty = true) :
    write.enumerateWrites = [] := by
  rw [enumerateWrites, FImmutableTree.eq_empty_of_isEmpty empty]
  rfl

theorem completeNodeAtPath_single (node : Node Double) (path other : KeyPath Key) :
    (emptyWrite.addWrite node path).completeNodeAtPath other =
      if path <+: other then some (node.getChild (KeyPath.names (other.drop path.length))) else none := by
  rw [completeNodeAtPath_addWrite, completeNodeAtPath_emptyWrite]
  split
  next covers => exact Overlay.effect_of_covers covers none
  next uncovered => exact Overlay.effect_none uncovered

theorem mem_enumerateWrites_single {node : Node Double} {path : KeyPath Key}
    {entry : KeyPath Key × Node Double} :
    entry ∈ (emptyWrite.addWrite node path).enumerateWrites ↔ entry = (path, node) := by
  obtain ⟨other, value⟩ := entry
  simp only [mem_enumerateWrites, valueAtPath_eq_some_iff, completeNodeAtPath_single, Prod.mk.injEq]
  constructor
  · rintro ⟨told, first⟩
    split at told
    next covers =>
      have same : path = other := by
        by_contra shorter
        have unknown := first path covers shorter
        rw [if_pos (List.prefix_refl path)] at unknown
        cases unknown
      subst same
      rw [List.drop_length] at told
      exact ⟨rfl, (Option.some.inj told).symm⟩
    next => cases told
  · rintro ⟨rfl, rfl⟩
    refine ⟨by rw [if_pos (List.prefix_refl other), List.drop_length]; rfl, fun upper above shorter => ?_⟩
    apply if_neg
    intro below
    exact shorter (above.eq_of_length (le_antisymm above.length_le below.length_le))

theorem isEmpty_single (node : Node Double) (path : KeyPath Key) :
    (emptyWrite.addWrite node path).isEmpty = false := by
  by_contra blank
  have none := enumerateWrites_of_isEmpty (Bool.not_eq_false _ ▸ blank)
  have member : (path, node) ∈ (emptyWrite.addWrite node path).enumerateWrites :=
    mem_enumerateWrites_single.mpr rfl
  rw [none] at member
  cases member

end FCompoundWrite

end ProjectF02.Firebase
