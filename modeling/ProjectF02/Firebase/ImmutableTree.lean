import ProjectF02.Store.SortedEntries
import Mathlib.Data.List.Infix

/-! The tree of values at paths that the client keeps its writes in.

Transcribed from `FImmutableTree`. The children are the entries of the sorted
dictionary in the order in which it enumerates them. The order is that of
`stringComparator`, taken to be linear: keys that compare equal are equal. Two
spellings of an accented letter compare equal, so a tree here holds one of them.
-/

set_option autoImplicit false

namespace ProjectF02.Firebase
open Store

/-- A path of keys; an `FPath` is one whose keys are strings. -/
abbrev KeyPath (Key : Type) := List Key

inductive FImmutableTree (Key Val : Type) where
  | node (value : Option Val) (children : List (Key × FImmutableTree Key Val))

namespace FImmutableTree

variable {Key Val : Type}

def value : FImmutableTree Key Val → Option Val
  | .node value _ => value

def children : FImmutableTree Key Val → Entries Key (FImmutableTree Key Val)
  | .node _ children => children

def initWithValue (value : Option Val) : FImmutableTree Key Val := .node value []

def empty : FImmutableTree Key Val := initWithValue none

def isEmpty (tree : FImmutableTree Key Val) : Bool := tree.value.isNone && tree.children.isEmpty

@[simp] theorem isEmpty_empty : (empty : FImmutableTree Key Val).isEmpty = true := rfl

theorem eq_empty_of_isEmpty {tree : FImmutableTree Key Val} (blank : tree.isEmpty = true) : tree = empty := by
  obtain ⟨value, children⟩ := tree
  cases value with
  | some held => cases blank
  | none =>
    cases children with
    | nil => rfl
    | cons entry rest => cases blank

variable [LinearOrder Key]

/-- The value closest to the root on a path, with the path it is at. -/
def findRootMostValueAndPath (tree : FImmutableTree Key Val) (relativePath : KeyPath Key) :
    Option (KeyPath Key × Val) :=
  match tree.value with
  | some value => some ([], value)
  | none =>
    match relativePath with
    | [] => none
    | front :: rest => do
      let child ← tree.children.get front
      let (path, value) ← child.findRootMostValueAndPath rest
      return (front :: path, value)

def subtreeAtPath (tree : FImmutableTree Key Val) : KeyPath Key → FImmutableTree Key Val
  | [] => tree
  | front :: rest =>
    match tree.children.get front with
    | some childTree => childTree.subtreeAtPath rest
    | none => empty

def valueAtPath (tree : FImmutableTree Key Val) : KeyPath Key → Option Val
  | [] => tree.value
  | front :: rest => do (← tree.children.get front).valueAtPath rest

def setValue (tree : FImmutableTree Key Val) (newValue : Option Val) : KeyPath Key → FImmutableTree Key Val
  | [] => .node newValue tree.children
  | front :: rest =>
    let child := (tree.children.get front).getD empty
    .node tree.value (tree.children.insert front (child.setValue newValue rest))

def withChild (tree : FImmutableTree Key Val) (front : Key) (newChild : FImmutableTree Key Val) :
    FImmutableTree Key Val :=
  .node tree.value
    (if newChild.isEmpty then tree.children.erase front else tree.children.insert front newChild)

def setTree (tree newTree : FImmutableTree Key Val) : KeyPath Key → FImmutableTree Key Val
  | [] => newTree
  | front :: rest =>
    let child := (tree.children.get front).getD empty
    tree.withChild front (child.setTree newTree rest)

mutual
/-- The values that `forEach:` hands out, those of the children before the tree's own. -/
def forEachPathSoFar (pathSoFar : KeyPath Key) : FImmutableTree Key Val → List (KeyPath Key × Val)
  | .node value children =>
      forEachChildPathSoFar pathSoFar children ++ value.toList.map fun value => (pathSoFar, value)

def forEachChildPathSoFar (pathSoFar : KeyPath Key) :
    List (Key × FImmutableTree Key Val) → List (KeyPath Key × Val)
  | [] => []
  | (childKey, childTree) :: rest =>
      childTree.forEachPathSoFar (pathSoFar ++ [childKey]) ++ forEachChildPathSoFar pathSoFar rest
end

def forEach (tree : FImmutableTree Key Val) : List (KeyPath Key × Val) := tree.forEachPathSoFar []

/-! ## Trees as the client builds them -/

/-- Children are in order and never empty, and a tree with a value has none. -/
inductive Sound : FImmutableTree Key Val → Prop
  | node {value : Option Val} {children : Entries Key (FImmutableTree Key Val)}
      (sorted : children.Sorted) (leaf : value.isSome = true → children = [])
      (occupied : ∀ entry ∈ children, entry.2.isEmpty = false)
      (sound : ∀ entry ∈ children, entry.2.Sound) : Sound (.node value children)

theorem sound_initWithValue (value : Option Val) : (initWithValue value : FImmutableTree Key Val).Sound :=
  .node .nil (fun _ => rfl) (List.forall_mem_nil _) (List.forall_mem_nil _)

theorem sound_empty : (empty : FImmutableTree Key Val).Sound := sound_initWithValue none

theorem Sound.sorted {tree : FImmutableTree Key Val} (sound : tree.Sound) : tree.children.Sorted := by
  cases sound with
  | node sorted leaf occupied sound => exact sorted

theorem Sound.leaf {tree : FImmutableTree Key Val} (sound : tree.Sound) {value : Val}
    (held : tree.value = some value) : tree.children = [] := by
  cases sound with
  | node sorted leaf occupied sound =>
    apply leaf
    exact congrArg Option.isSome held

theorem Sound.child {tree : FImmutableTree Key Val} (sound : tree.Sound) {key : Key}
    {childTree : FImmutableTree Key Val} (found : tree.children.get key = some childTree) :
    childTree.Sound ∧ childTree.isEmpty = false := by
  cases sound with
  | node sorted leaf occupied sound =>
    exact ⟨sound _ (Entries.get_mem found), occupied _ (Entries.get_mem found)⟩

theorem Sound.childOrEmpty {tree : FImmutableTree Key Val} (sound : tree.Sound) (key : Key) :
    ((tree.children.get key).getD empty).Sound := by
  cases found : tree.children.get key with
  | none => exact sound_empty
  | some childTree => exact (sound.child found).1

theorem Sound.subtreeAtPath {tree : FImmutableTree Key Val} (sound : tree.Sound) (path : KeyPath Key) :
    (tree.subtreeAtPath path).Sound := by
  induction path generalizing tree with
  | nil => exact sound
  | cons front rest ih =>
    rw [FImmutableTree.subtreeAtPath]
    split
    next childTree found => exact ih (sound.child found).1
    next => exact sound_empty

@[simp] theorem valueAtPath_empty (path : KeyPath Key) :
    (empty : FImmutableTree Key Val).valueAtPath path = none := by
  cases path <;> rfl

theorem valueAtPath_cons (tree : FImmutableTree Key Val) (front : Key) (rest : KeyPath Key) :
    tree.valueAtPath (front :: rest) = ((tree.children.get front).getD empty).valueAtPath rest := by
  rw [valueAtPath]
  cases tree.children.get front with
  | none => exact (valueAtPath_empty rest).symm
  | some childTree => rfl

theorem Sound.exists_value {tree : FImmutableTree Key Val} (sound : tree.Sound)
    (present : tree.isEmpty = false) : ∃ path value, tree.valueAtPath path = some value := by
  induction sound with
  | @node value children sorted leaf occupied sound ih =>
    cases value with
    | some held => exact ⟨[], held, rfl⟩
    | none =>
      cases children with
      | nil => cases present
      | cons entry rest =>
        obtain ⟨path, held, found⟩ := ih entry List.mem_cons_self (occupied entry List.mem_cons_self)
        refine ⟨entry.1 :: path, held, ?_⟩
        rw [valueAtPath, children, sorted.get_of_mem List.mem_cons_self]
        exact found

theorem Sound.ext {left right : FImmutableTree Key Val} (leftSound : left.Sound) (rightSound : right.Sound)
    (same : ∀ path, left.valueAtPath path = right.valueAtPath path) : left = right := by
  induction leftSound generalizing right with
  | @node value children sorted leaf occupied sound ih =>
    obtain ⟨rightValue, rightChildren⟩ := right
    have values : value = rightValue := same []
    have below : ∀ key path, ((Entries.get children key).getD empty).valueAtPath path =
        ((Entries.get rightChildren key).getD empty).valueAtPath path := by
      intro key path
      have step := same (key :: path)
      rw [valueAtPath_cons, valueAtPath_cons] at step
      exact step
    have entries : children = rightChildren := by
      refine Entries.Sorted.ext sorted rightSound.sorted fun key => ?_
      have values := below key
      cases found : Entries.get children key with
      | some childTree =>
        have member := Entries.get_mem found
        rw [found, Option.getD_some] at values
        cases other : Entries.get rightChildren key with
        | some otherTree =>
          rw [other, Option.getD_some] at values
          exact congrArg some (ih _ member (rightSound.child other).1 values)
        | none =>
          obtain ⟨path, held, here⟩ := (sound _ member).exists_value (occupied _ member)
          rw [other, Option.getD_none] at values
          rw [values, valueAtPath_empty] at here
          cases here
      | none =>
        cases other : Entries.get rightChildren key with
        | none => rfl
        | some otherTree =>
          obtain ⟨otherSound, present⟩ := rightSound.child other
          obtain ⟨path, held, here⟩ := otherSound.exists_value present
          rw [found, Option.getD_none, other, Option.getD_some] at values
          rw [← values, valueAtPath_empty] at here
          cases here
    rw [values, entries]

theorem Sound.value_eq_none {tree : FImmutableTree Key Val} (sound : tree.Sound) {front : Key}
    {rest : KeyPath Key}
    {value : Val} (here : ((tree.children.get front).getD empty).valueAtPath rest = some value) :
    tree.value = none := by
  cases held : tree.value with
  | none => rfl
  | some top =>
    rw [sound.leaf held, Entries.get, Option.getD_none, valueAtPath_empty] at here
    cases here

/-! ## The value closest to the root -/

theorem findRootMostValueAndPath_of_value {tree : FImmutableTree Key Val} {value : Val}
    (held : tree.value = some value) (path : KeyPath Key) :
    tree.findRootMostValueAndPath path = some ([], value) := by
  rw [findRootMostValueAndPath.eq_def, held]

@[simp] theorem findRootMostValueAndPath_initWithValue (value : Val) (path : KeyPath Key) :
    (initWithValue (some value)).findRootMostValueAndPath path = some ([], value) :=
  findRootMostValueAndPath_of_value rfl path

theorem findRootMostValueAndPath_nil {tree : FImmutableTree Key Val} (none : tree.value = none) :
    tree.findRootMostValueAndPath [] = Option.none := by
  rw [findRootMostValueAndPath, none]

@[simp] theorem findRootMostValueAndPath_empty (path : KeyPath Key) :
    (empty : FImmutableTree Key Val).findRootMostValueAndPath path = none := by
  cases path <;> rfl

theorem findRootMostValueAndPath_cons {tree : FImmutableTree Key Val} (none : tree.value = none)
    (front : Key) (rest : KeyPath Key) :
    tree.findRootMostValueAndPath (front :: rest) =
      (((tree.children.get front).getD empty).findRootMostValueAndPath rest).map
        fun found => (front :: found.1, found.2) := by
  rw [findRootMostValueAndPath, none]
  cases tree.children.get front with
  | none =>
    rw [Option.getD_none, findRootMostValueAndPath_empty]
    rfl
  | some childTree =>
    change (childTree.findRootMostValueAndPath rest).bind (fun found => some (front :: found.1, found.2)) = _
    rw [Option.getD_some, Option.map_eq_bind]
    rfl

theorem value_eq_none_of_findRootMostValueAndPath {tree : FImmutableTree Key Val} {path : KeyPath Key}
    (none : tree.findRootMostValueAndPath path = none) : tree.value = Option.none := by
  cases held : tree.value with
  | none => rfl
  | some value =>
    rw [findRootMostValueAndPath_of_value held] at none
    cases none

theorem findRootMostValueAndPath_above {tree : FImmutableTree Key Val} {path root : KeyPath Key} {value : Val}
    (found : tree.findRootMostValueAndPath path = some (root, value)) :
    root <+: path ∧ tree.valueAtPath root = some value ∧
      ∀ other, root <+: other → tree.findRootMostValueAndPath other = some (root, value) := by
  induction path generalizing tree root with
  | nil =>
    cases held : tree.value with
    | none =>
      rw [findRootMostValueAndPath_nil held] at found
      cases found
    | some top =>
      rw [findRootMostValueAndPath_of_value held] at found
      cases found
      exact ⟨List.nil_prefix, held, fun other _ => findRootMostValueAndPath_of_value held other⟩
  | cons front rest ih =>
    cases held : tree.value with
    | none =>
      rw [findRootMostValueAndPath_cons held, Option.map_eq_some_iff] at found
      obtain ⟨⟨lower, top⟩, deeper, same⟩ := found
      cases same
      obtain ⟨above, here, everywhere⟩ := ih deeper
      refine ⟨(List.prefix_cons_inj _).mpr above, by rw [valueAtPath_cons, here], fun other below => ?_⟩
      cases other with
      | nil => exact absurd (List.prefix_nil.mp below) (List.cons_ne_nil _ _)
      | cons first others =>
        obtain ⟨same, lower⟩ := List.cons_prefix_cons.mp below
        subst same
        rw [findRootMostValueAndPath_cons held, everywhere others lower]
        rfl
    | some top =>
      rw [findRootMostValueAndPath_of_value held] at found
      cases found
      exact ⟨List.nil_prefix, held, fun other _ => findRootMostValueAndPath_of_value held other⟩

theorem Sound.findRootMostValueAndPath_self {tree : FImmutableTree Key Val} (sound : tree.Sound)
    {path : KeyPath Key}
    {value : Val} (here : tree.valueAtPath path = some value) :
    tree.findRootMostValueAndPath path = some (path, value) := by
  induction path generalizing tree with
  | nil => exact findRootMostValueAndPath_of_value here []
  | cons front rest ih =>
    rw [valueAtPath_cons] at here
    rw [findRootMostValueAndPath_cons (sound.value_eq_none here), ih (sound.childOrEmpty front) here]
    rfl

theorem setTree_cons (tree newTree : FImmutableTree Key Val) (front : Key) (rest : KeyPath Key) :
    tree.setTree newTree (front :: rest) =
      tree.withChild front (((tree.children.get front).getD empty).setTree newTree rest) := rfl

@[simp] theorem value_withChild (tree : FImmutableTree Key Val) (front : Key)
    (newChild : FImmutableTree Key Val) :
    (tree.withChild front newChild).value = tree.value := rfl

@[simp] theorem empty_setTree_empty (path : KeyPath Key) :
    (empty : FImmutableTree Key Val).setTree empty path = empty := by
  induction path with
  | nil => rfl
  | cons front rest ih =>
    rw [setTree_cons]
    have child : (((empty : FImmutableTree Key Val).children.get front).getD empty) = empty := rfl
    rw [child, ih]
    rfl

theorem Sound.setTree_empty_of_value {tree : FImmutableTree Key Val} (sound : tree.Sound) {value : Val}
    (held : tree.value = some value) (front : Key) (rest : KeyPath Key) :
    tree.setTree empty (front :: rest) = tree := by
  obtain ⟨top, children⟩ := tree
  have none : children = [] := sound.leaf held
  subst none
  have child : (((FImmutableTree.node top []).children.get front).getD (empty : FImmutableTree Key Val)) = empty :=
    rfl
  rw [setTree_cons, child, empty_setTree_empty]
  rfl

theorem Sound.withChild {tree : FImmutableTree Key Val} (sound : tree.Sound) (unset : tree.value = none)
    (front : Key) {newChild : FImmutableTree Key Val} (childSound : newChild.Sound) :
    (tree.withChild front newChild).Sound := by
  have members : ∀ entry ∈ tree.children, entry.2.Sound ∧ entry.2.isEmpty = false := by
    cases sound with
    | node sorted leaf occupied sound => exact fun entry member => ⟨sound entry member, occupied entry member⟩
  have ordered := sound.sorted
  have leaf : tree.value.isSome = true → (tree.withChild front newChild).children = [] := by
    rw [unset]
    exact fun held => absurd held Bool.false_ne_true
  unfold FImmutableTree.withChild at leaf ⊢
  cases blank : newChild.isEmpty with
  | true =>
    have kept : ∀ entry ∈ tree.children.erase front, entry ∈ tree.children := fun entry member =>
      (Entries.erase_sublist _ _).subset member
    rw [blank] at leaf
    exact .node (ordered.erase front) leaf (fun entry member => (members entry (kept entry member)).2)
      (fun entry member => (members entry (kept entry member)).1)
  | false =>
    rw [blank] at leaf
    refine .node (ordered.insert front newChild) leaf ?_ ?_
    · intro entry member
      rcases Entries.mem_insert member with rfl | member
      · exact blank
      · exact (members entry member).2
    · intro entry member
      rcases Entries.mem_insert member with rfl | member
      · exact childSound
      · exact (members entry member).1

theorem Sound.setTree {tree newTree : FImmutableTree Key Val} (sound : tree.Sound) (newSound : newTree.Sound)
    {path : KeyPath Key} (uncovered : tree.findRootMostValueAndPath path = none) :
    (tree.setTree newTree path).Sound := by
  induction path generalizing tree with
  | nil => exact newSound
  | cons front rest ih =>
    have unset := value_eq_none_of_findRootMostValueAndPath uncovered
    rw [findRootMostValueAndPath_cons unset, Option.map_eq_none_iff] at uncovered
    exact sound.withChild unset front (ih (sound.childOrEmpty front) uncovered)

theorem Sound.setTree_empty {tree : FImmutableTree Key Val} (sound : tree.Sound) (path : KeyPath Key) :
    (tree.setTree empty path).Sound := by
  induction path generalizing tree with
  | nil => exact sound_empty
  | cons front rest ih =>
    cases held : tree.value with
    | none => exact sound.withChild held front (ih (sound.childOrEmpty front))
    | some value =>
      rw [sound.setTree_empty_of_value held]
      exact sound

theorem Sound.get_withChild {tree : FImmutableTree Key Val} (sound : tree.Sound) (front other : Key)
    (newChild : FImmutableTree Key Val) :
    ((tree.withChild front newChild).children.get other).getD empty =
      if front = other then newChild else (tree.children.get other).getD empty := by
  change (Entries.get (if newChild.isEmpty then tree.children.erase front
    else tree.children.insert front newChild) other).getD empty = _
  cases blank : newChild.isEmpty with
  | true =>
    rw [if_pos rfl, sound.sorted.get_erase]
    split
    · exact (eq_empty_of_isEmpty blank).symm
    · rfl
  | false =>
    rw [if_neg Bool.false_ne_true, Entries.get_insert]
    split <;> rfl

theorem Sound.findRootMostValueAndPath_setTree {tree : FImmutableTree Key Val} (sound : tree.Sound)
    (newTree : FImmutableTree Key Val) {path : KeyPath Key}
    (unset : ∀ upper lower, path = upper ++ lower → lower ≠ [] → tree.valueAtPath upper = none)
    (other : KeyPath Key) :
    (tree.setTree newTree path).findRootMostValueAndPath other =
      if path <+: other then (newTree.findRootMostValueAndPath (other.drop path.length)).map
        fun found => (path ++ found.1, found.2)
      else tree.findRootMostValueAndPath other := by
  induction path generalizing tree other with
  | nil =>
    rw [if_pos List.nil_prefix]
    exact Option.map_id.symm ▸ rfl
  | cons front rest ih =>
    have none : tree.value = Option.none := unset [] (front :: rest) rfl (List.cons_ne_nil _ _)
    have deeper : ∀ upper lower, rest = upper ++ lower → lower ≠ [] →
        ((tree.children.get front).getD empty).valueAtPath upper = Option.none := by
      intro upper lower split present
      rw [← valueAtPath_cons]
      exact unset (front :: upper) lower (by rw [split]; rfl) present
    rw [setTree_cons]
    cases other with
    | nil =>
      rw [if_neg (fun above => List.cons_ne_nil _ _ (List.prefix_nil.mp above)),
        findRootMostValueAndPath_nil none, findRootMostValueAndPath_nil ((value_withChild _ _ _).trans none)]
    | cons first others =>
      rw [findRootMostValueAndPath_cons ((value_withChild _ _ _).trans none), sound.get_withChild,
        findRootMostValueAndPath_cons none]
      by_cases same : front = first
      · subst same
        rw [if_pos rfl, ih (sound.childOrEmpty front) deeper]
        simp only [List.cons_prefix_cons, true_and, List.length_cons, List.drop_succ_cons]
        split
        · rw [Option.map_map]
          rfl
        · rfl
      · rw [if_neg same, if_neg (fun above => same (List.cons_prefix_cons.mp above).1)]

theorem isEmpty_setValue (tree : FImmutableTree Key Val) (newValue : Val) (path : KeyPath Key) :
    (tree.setValue (some newValue) path).isEmpty = false := by
  cases path with
  | nil => rfl
  | cons front rest =>
    rw [setValue, isEmpty, Bool.and_eq_false_iff]
    exact .inr (List.isEmpty_eq_false_iff.mpr (Entries.insert_ne_nil _ _ _))

theorem setValue_cons (tree : FImmutableTree Key Val) (newValue : Val) (front : Key) (rest : KeyPath Key) :
    tree.setValue (some newValue) (front :: rest) =
      tree.withChild front (((tree.children.get front).getD empty).setValue (some newValue) rest) := by
  rw [withChild, isEmpty_setValue, if_neg Bool.false_ne_true, setValue]

theorem Sound.setValue {tree : FImmutableTree Key Val} (sound : tree.Sound) {path : KeyPath Key} {value : Val}
    (here : tree.valueAtPath path = some value) (newValue : Val) :
    (tree.setValue (some newValue) path).Sound := by
  induction path generalizing tree with
  | nil =>
    have none : tree.children = [] := sound.leaf here
    rw [FImmutableTree.setValue, none]
    exact sound_initWithValue (some newValue)
  | cons front rest ih =>
    rw [valueAtPath_cons] at here
    rw [setValue_cons]
    exact sound.withChild (sound.value_eq_none here) front (ih (sound.childOrEmpty front) here)

theorem Sound.findRootMostValueAndPath_setValue {tree : FImmutableTree Key Val} (sound : tree.Sound)
    {path : KeyPath Key} {value : Val} (here : tree.valueAtPath path = some value) (newValue : Val)
    (other : KeyPath Key) :
    (tree.setValue (some newValue) path).findRootMostValueAndPath other =
      if path <+: other then some (path, newValue) else tree.findRootMostValueAndPath other := by
  induction path generalizing tree other with
  | nil =>
    rw [if_pos List.nil_prefix]
    exact findRootMostValueAndPath_of_value rfl other
  | cons front rest ih =>
    rw [valueAtPath_cons] at here
    have unset := sound.value_eq_none here
    rw [setValue_cons]
    cases other with
    | nil =>
      rw [if_neg (fun above => List.cons_ne_nil _ _ (List.prefix_nil.mp above)),
        findRootMostValueAndPath_nil unset, findRootMostValueAndPath_nil ((value_withChild _ _ _).trans unset)]
    | cons first others =>
      rw [findRootMostValueAndPath_cons ((value_withChild _ _ _).trans unset), sound.get_withChild,
        findRootMostValueAndPath_cons unset]
      by_cases same : front = first
      · subst same
        rw [if_pos rfl, ih (sound.childOrEmpty front) here]
        simp only [List.cons_prefix_cons, true_and]
        split <;> rfl
      · rw [if_neg same, if_neg (fun above => same (List.cons_prefix_cons.mp above).1)]

omit [LinearOrder Key] in
theorem forEachChildPathSoFar_eq (pathSoFar : KeyPath Key) (children : List (Key × FImmutableTree Key Val)) :
    forEachChildPathSoFar pathSoFar children =
      children.flatMap fun entry => entry.2.forEachPathSoFar (pathSoFar ++ [entry.1]) := by
  induction children with
  | nil => rfl
  | cons entry rest ih =>
    obtain ⟨childKey, childTree⟩ := entry
    rw [forEachChildPathSoFar, ih, List.flatMap_cons]

theorem Sound.mem_forEachPathSoFar {tree : FImmutableTree Key Val} (sound : tree.Sound) (pathSoFar : KeyPath Key)
    {path : KeyPath Key} {value : Val} :
    (path, value) ∈ tree.forEachPathSoFar pathSoFar ↔
      ∃ rest, path = pathSoFar ++ rest ∧ tree.valueAtPath rest = some value := by
  induction sound generalizing pathSoFar with
  | @node top children sorted leaf occupied sound ih =>
    rw [forEachPathSoFar, forEachChildPathSoFar_eq, List.mem_append, List.mem_flatMap, List.mem_map]
    constructor
    · rintro (⟨entry, member, listed⟩ | ⟨held, here, same⟩)
      · obtain ⟨rest, whole, found⟩ := (ih entry member (pathSoFar ++ [entry.1])).mp listed
        refine ⟨entry.1 :: rest, by rw [whole, List.append_assoc]; rfl, ?_⟩
        rw [valueAtPath_cons, FImmutableTree.children, sorted.get_of_mem member]
        exact found
      · cases same
        exact ⟨[], (List.append_nil _).symm, Option.mem_toList.mp here⟩
    · rintro ⟨rest, rfl, found⟩
      cases rest with
      | nil => exact .inr ⟨value, Option.mem_toList.mpr found, by rw [List.append_nil]⟩
      | cons front rest =>
        rw [valueAtPath_cons, FImmutableTree.children] at found
        cases held : Entries.get children front with
        | none =>
          rw [held, Option.getD_none, valueAtPath_empty] at found
          cases found
        | some childTree =>
          rw [held] at found
          have member := Entries.get_mem held
          exact .inl ⟨_, member, (ih _ member (pathSoFar ++ [front])).mpr
            ⟨rest, by rw [List.append_assoc]; rfl, found⟩⟩

theorem Sound.mem_forEach {tree : FImmutableTree Key Val} (sound : tree.Sound) {path : KeyPath Key}
    {value : Val} :
    (path, value) ∈ tree.forEach ↔ tree.valueAtPath path = some value := by
  rw [forEach, sound.mem_forEachPathSoFar]
  simp

end FImmutableTree

end ProjectF02.Firebase
