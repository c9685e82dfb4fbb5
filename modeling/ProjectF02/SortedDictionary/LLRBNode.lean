import ProjectF02.Store.SortedEntries
import ProjectF02.Transition.Loops
import Mathlib.Algebra.Group.Nat.Defs

/-! Left-leaning red-black trees, in which large sorted dictionaries keep their entries.

Transcribed from `FLLRBValueNode` and `FLLRBEmptyNode`. The children of the empty
node are `nil` in the source and answer every message like the empty node. The
comparator is that of a linear order: keys that compare equal are equal.
-/

set_option autoImplicit false

namespace ProjectF02.SortedDictionary
open Store Transition

variable {Key Val : Type}

inductive FLLRBColor where
  | red
  | black
  deriving DecidableEq, Repr

def FLLRBColor.flip : FLLRBColor → FLLRBColor
  | .red => .black
  | .black => .red

@[simp] theorem FLLRBColor.flip_red : FLLRBColor.red.flip = .black := rfl

@[simp] theorem FLLRBColor.flip_black : FLLRBColor.black.flip = .red := rfl

@[simp] theorem FLLRBColor.flip_flip (color : FLLRBColor) : color.flip.flip = color := by
  cases color <;> rfl

/-- The number of black nodes from a node of this color on, with so many below it. -/
def FLLRBColor.above : FLLRBColor → ℕ → ℕ
  | .red, height => height
  | .black, height => height + 1

inductive FLLRBNode (Key Val : Type) where
  | empty
  | node (color : FLLRBColor) (left : FLLRBNode Key Val) (key : Key) (value : Val) (right : FLLRBNode Key Val)
  deriving DecidableEq, Repr

namespace FLLRBNode

def isEmpty : FLLRBNode Key Val → Bool
  | .empty => true
  | .node .. => false

def isRed : FLLRBNode Key Val → Bool
  | .node .red .. => true
  | _ => false

def left : FLLRBNode Key Val → FLLRBNode Key Val
  | .empty => .empty
  | .node _ left _ _ _ => left

def right : FLLRBNode Key Val → FLLRBNode Key Val
  | .empty => .empty
  | .node _ _ _ _ right => right

section
variable (color : FLLRBColor) (before after : FLLRBNode Key Val) (key : Key) (value : Val)

@[simp] theorem isRed_empty : (empty : FLLRBNode Key Val).isRed = false := rfl

@[simp] theorem isRed_node : (node color before key value after).isRed = decide (color = .red) := by
  cases color <;> rfl

@[simp] theorem left_node : (node color before key value after).left = before := rfl

@[simp] theorem right_node : (node color before key value after).right = after := rfl

end

/-- A copy with another color. The empty node is its own copy. -/
def withColor (color : FLLRBColor) : FLLRBNode Key Val → FLLRBNode Key Val
  | .empty => .empty
  | .node _ left key value right => .node color left key value right

def withRight (tree new : FLLRBNode Key Val) : FLLRBNode Key Val :=
  match tree with
  | .empty => .empty
  | .node color left key value _ => .node color left key value new

def count : FLLRBNode Key Val → ℕ
  | .empty => 0
  | .node _ left _ _ right => left.count + 1 + right.count

/-- The traversal ends as soon as the action says so. -/
def inorderTraversal {State : Type} (action : State → Key → Val → State × Bool) (state : State) :
    FLLRBNode Key Val → State × Bool
  | .empty => (state, false)
  | .node _ left key value right =>
    match left.inorderTraversal action state with
    | (state, true) => (state, true)
    | (state, false) =>
      match action state key value with
      | (state, true) => (state, true)
      | (state, false) => right.inorderTraversal action state

def reverseTraversal {State : Type} (action : State → Key → Val → State × Bool) (state : State) :
    FLLRBNode Key Val → State × Bool
  | .empty => (state, false)
  | .node _ left key value right =>
    match right.reverseTraversal action state with
    | (state, true) => (state, true)
    | (state, false) =>
      match action state key value with
      | (state, true) => (state, true)
      | (state, false) => left.reverseTraversal action state

def min : FLLRBNode Key Val → Option (Key × Val)
  | .empty => none
  | .node _ left key value _ => if left.isEmpty then some (key, value) else left.min

def minKey (tree : FLLRBNode Key Val) : Option Key := tree.min.map Prod.fst

def maxKey : FLLRBNode Key Val → Option Key
  | .empty => none
  | .node _ _ key _ right => if right.isEmpty then some key else right.maxKey

def rotateLeft : FLLRBNode Key Val → FLLRBNode Key Val
  | .node color left key value (.node _ middle rightKey rightValue right) =>
    .node color (.node .red left key value middle) rightKey rightValue right
  | _ => .empty

def rotateRight : FLLRBNode Key Val → FLLRBNode Key Val
  | .node color (.node _ left leftKey leftValue middle) key value right =>
    .node color left leftKey leftValue (.node .red middle key value right)
  | _ => .empty

def flipped : FLLRBNode Key Val → FLLRBNode Key Val
  | .empty => .empty
  | .node color left key value right => .node color.flip left key value right

def colorFlip : FLLRBNode Key Val → FLLRBNode Key Val
  | .empty => .empty
  | .node color left key value right => .node color.flip left.flipped key value right.flipped

def fixUp (tree : FLLRBNode Key Val) : FLLRBNode Key Val :=
  let tree := if tree.right.isRed && !tree.left.isRed then tree.rotateLeft else tree
  let tree := if tree.left.isRed && tree.left.left.isRed then tree.rotateRight else tree
  if tree.left.isRed && tree.right.isRed then tree.colorFlip else tree

def moveRedLeft (tree : FLLRBNode Key Val) : FLLRBNode Key Val :=
  let tree := tree.colorFlip
  if tree.right.left.isRed then (tree.withRight tree.right.rotateRight).rotateLeft.colorFlip else tree

def moveRedRight (tree : FLLRBNode Key Val) : FLLRBNode Key Val :=
  let tree := tree.colorFlip
  if tree.left.left.isRed then tree.rotateRight.colorFlip else tree

/-- What is done to a node before something is removed from its left. -/
def readyLeft (tree : FLLRBNode Key Val) : FLLRBNode Key Val :=
  if !tree.left.isEmpty && !tree.left.isRed && !tree.left.left.isRed then tree.moveRedLeft else tree

def readyRight (tree : FLLRBNode Key Val) : FLLRBNode Key Val :=
  let tree := if tree.left.isRed then tree.rotateRight else tree
  if !tree.right.isEmpty && !tree.right.isRed && !tree.right.left.isRed then tree.moveRedRight else tree

def entries : FLLRBNode Key Val → Entries Key Val
  | .empty => []
  | .node _ left key value right => left.entries ++ (key, value) :: right.entries

@[simp] theorem length_entries (tree : FLLRBNode Key Val) : tree.entries.length = tree.count := by
  induction tree with
  | empty => rfl
  | node color left key value right leftIH rightIH =>
    rw [entries, count, List.length_append, List.length_cons, leftIH, rightIH]
    omega

@[simp] theorem entries_flipped (tree : FLLRBNode Key Val) : tree.flipped.entries = tree.entries := by
  cases tree <;> rfl

@[simp] theorem entries_withColor (tree : FLLRBNode Key Val) (color : FLLRBColor) :
    (tree.withColor color).entries = tree.entries := by
  cases tree <;> rfl

@[simp] theorem entries_colorFlip (tree : FLLRBNode Key Val) : tree.colorFlip.entries = tree.entries := by
  cases tree <;> simp [colorFlip, entries]

theorem entries_rotateLeft {tree : FLLRBNode Key Val} (there : tree.right.isEmpty = false) :
    tree.rotateLeft.entries = tree.entries := by
  cases tree with
  | empty => rfl
  | node color left key value right =>
    cases right with
    | empty => cases there
    | node => simp [rotateLeft, entries]

theorem entries_rotateRight {tree : FLLRBNode Key Val} (there : tree.left.isEmpty = false) :
    tree.rotateRight.entries = tree.entries := by
  cases tree with
  | empty => rfl
  | node color left key value right =>
    cases left with
    | empty => cases there
    | node => simp [rotateRight, entries]

theorem isEmpty_of_isRed {tree : FLLRBNode Key Val} (red : tree.isRed = true) : tree.isEmpty = false := by
  cases tree with
  | empty => cases red
  | node => rfl

@[simp] theorem entries_fixUp (tree : FLLRBNode Key Val) : tree.fixUp.entries = tree.entries := by
  have turned : (if tree.right.isRed && !tree.left.isRed then tree.rotateLeft else tree).entries =
      tree.entries := by
    split
    next rises => exact entries_rotateLeft (isEmpty_of_isRed (Bool.and_eq_true_iff.mp rises).1)
    next => rfl
  unfold fixUp
  generalize (if tree.right.isRed && !tree.left.isRed then tree.rotateLeft else tree) = first at turned ⊢
  have back : (if first.left.isRed && first.left.left.isRed then first.rotateRight else first).entries =
      first.entries := by
    split
    next falls => exact entries_rotateRight (isEmpty_of_isRed (Bool.and_eq_true_iff.mp falls).1)
    next => rfl
  dsimp only
  generalize (if first.left.isRed && first.left.left.isRed then first.rotateRight else first) = second at back ⊢
  rw [← turned, ← back]
  split
  · exact entries_colorFlip second
  · rfl

def enumerate {State : Type} (action : State → Key → Val → State × Bool) (state : State) :
    Entries Key Val → State × Bool
  | [] => (state, false)
  | (key, value) :: rest =>
    match action state key value with
    | (state, true) => (state, true)
    | (state, false) => enumerate action state rest

theorem enumerate_append {State : Type} (action : State → Key → Val → State × Bool) (state : State)
    (front back : Entries Key Val) :
    enumerate action state (front ++ back) =
      match enumerate action state front with
      | (state, true) => (state, true)
      | (state, false) => enumerate action state back := by
  induction front generalizing state with
  | nil => rfl
  | cons entry rest ih =>
    obtain ⟨key, value⟩ := entry
    simp only [List.cons_append, enumerate]
    rcases action state key value with ⟨next, stopped | stopped⟩
    · exact ih next
    · rfl

theorem inorderTraversal_eq {State : Type} (action : State → Key → Val → State × Bool) (state : State)
    (tree : FLLRBNode Key Val) : tree.inorderTraversal action state = enumerate action state tree.entries := by
  induction tree generalizing state with
  | empty => rfl
  | node color left key value right leftIH rightIH =>
    rw [inorderTraversal, entries, enumerate_append, leftIH]
    simp only [rightIH]
    rfl

theorem reverseTraversal_eq {State : Type} (action : State → Key → Val → State × Bool) (state : State)
    (tree : FLLRBNode Key Val) :
    tree.reverseTraversal action state = enumerate action state tree.entries.reverse := by
  induction tree generalizing state with
  | empty => rfl
  | node color left key value right leftIH rightIH =>
    rw [reverseTraversal, entries, List.reverse_append, List.reverse_cons, List.append_assoc, enumerate_append,
      rightIH]
    simp only [leftIH]
    rfl

theorem entries_eq_nil_iff {tree : FLLRBNode Key Val} : tree.entries = [] ↔ tree.isEmpty = true := by
  cases tree <;> simp [entries, isEmpty]

theorem min_eq (tree : FLLRBNode Key Val) : tree.min = tree.entries.head? := by
  induction tree with
  | empty => rfl
  | node color left key value right leftIH _ =>
    rw [min, entries]
    split
    next none => rw [entries_eq_nil_iff.mpr none]; rfl
    next some => rw [leftIH, List.head?_append_of_ne_nil _ (mt entries_eq_nil_iff.mp some)]

theorem minKey_eq (tree : FLLRBNode Key Val) : tree.minKey = tree.entries.head?.map Prod.fst := by
  rw [minKey, min_eq]

theorem maxKey_eq (tree : FLLRBNode Key Val) : tree.maxKey = tree.entries.getLast?.map Prod.fst := by
  induction tree with
  | empty => rfl
  | node color left key value right _ rightIH =>
    rw [maxKey, entries, List.getLast?_append_of_ne_nil _ (List.cons_ne_nil _ _)]
    split
    next none => rw [entries_eq_nil_iff.mpr none]; rfl
    next some => rw [rightIH, List.getLast?_cons_of_ne_nil (mt entries_eq_nil_iff.mp some)]

/-! ## Balance -/

/-- A tree with this color at its root and this many black nodes on every path, in which a red node
has black children and is a left child. -/
inductive Balanced : FLLRBColor → ℕ → FLLRBNode Key Val → Prop where
  | empty : Balanced .black 0 .empty
  | red {height : ℕ} {left right : FLLRBNode Key Val} {key : Key} {value : Val} :
      Balanced .black height left → Balanced .black height right →
      Balanced .red height (.node .red left key value right)
  | black {color : FLLRBColor} {height : ℕ} {left right : FLLRBNode Key Val} {key : Key} {value : Val} :
      Balanced color height left → Balanced .black height right →
      Balanced .black (height + 1) (.node .black left key value right)

inductive CheckException (Val : Type) where
  -- "Red node has a red child"
  | redChild
  -- "Right child is red"
  | redRight
  | blackDepth (value : Val) (color : FLLRBColor) (left right : ℕ)

def check : FLLRBNode Key Val → Except (CheckException Val) ℕ
  | .empty => .ok 0
  | .node color left _ value right =>
    if color = .red ∧ left.isRed then .error .redChild
    else if right.isRed then .error .redRight
    else do
      let blackDepth ← left.check
      let rightDepth ← right.check
      if blackDepth = rightDepth then return blackDepth + if color = .red then 0 else 1
      else throw (.blackDepth value color blackDepth rightDepth)

def checkMaxDepth (tree : FLLRBNode Key Val) : Except (CheckException Val) Bool := do
  let blackDepth ← tree.check
  return 2 ^ blackDepth ≤ tree.count + 1

theorem Balanced.isRed_eq {color : FLLRBColor} {height : ℕ} {tree : FLLRBNode Key Val}
    (holds : Balanced color height tree) : tree.isRed = decide (color = .red) := by
  cases holds <;> rfl

theorem check_eq_ok_iff {tree : FLLRBNode Key Val} {height : ℕ} :
    tree.check = .ok height ↔ ∃ color, Balanced color height tree := by
  constructor
  · intro passed
    induction tree generalizing height with
    | empty =>
      cases passed
      exact ⟨.black, .empty⟩
    | node color left key value right leftIH rightIH =>
      rw [check] at passed
      split at passed
      · cases passed
      split at passed
      · cases passed
      next notRed notRight =>
        obtain ⟨leftDepth, leftPassed, passed⟩ := ok_of_bind passed
        obtain ⟨rightDepth, rightPassed, passed⟩ := ok_of_bind passed
        obtain ⟨leftColor, leftHolds⟩ := leftIH leftPassed
        obtain ⟨rightColor, rightHolds⟩ := rightIH rightPassed
        split at passed
        next same =>
          subst same
          cases passed
          rw [rightHolds.isRed_eq, decide_eq_true_iff] at notRight
          have rightBlack : rightColor = .black := by cases rightColor <;> trivial
          subst rightBlack
          cases color with
          | black => exact ⟨.black, .black leftHolds rightHolds⟩
          | red =>
            rw [leftHolds.isRed_eq, decide_eq_true_iff] at notRed
            have leftBlack : leftColor = .black := by cases leftColor <;> trivial
            subst leftBlack
            exact ⟨.red, .red leftHolds rightHolds⟩
        next => cases passed
  · rintro ⟨color, holds⟩
    induction holds with
    | empty => rfl
    | red left right leftIH rightIH =>
      simp only [check, left.isRed_eq, right.isRed_eq, leftIH, rightIH, decide_eq_true_iff, reduceCtorEq, and_false,
        if_false]
      exact if_pos rfl
    | black left right leftIH rightIH =>
      simp only [check, right.isRed_eq, leftIH, rightIH, decide_eq_true_iff, reduceCtorEq, false_and, if_false]
      exact if_pos rfl

theorem Balanced.le_count {color : FLLRBColor} {height : ℕ} {tree : FLLRBNode Key Val}
    (holds : Balanced color height tree) : 2 ^ height ≤ tree.count + 1 := by
  induction holds with
  | empty => exact Nat.le_refl _
  | red left right leftIH rightIH =>
    rw [count]
    omega
  | black left right leftIH rightIH =>
    rw [count, Nat.pow_succ]
    omega

theorem checkMaxDepth_of_balanced {color : FLLRBColor} {height : ℕ} {tree : FLLRBNode Key Val}
    (holds : Balanced color height tree) : tree.checkMaxDepth = .ok true := by
  rw [checkMaxDepth, check_eq_ok_iff.mpr ⟨color, holds⟩]
  exact congrArg Except.ok (decide_eq_true holds.le_count)

/-- At the root of a dictionary the color is made black. -/
theorem Balanced.withColor {color : FLLRBColor} {height : ℕ} {tree : FLLRBNode Key Val}
    (holds : Balanced color height tree) : ∃ height, Balanced .black height (tree.withColor .black) := by
  cases holds with
  | empty => exact ⟨0, .empty⟩
  | red left right => exact ⟨_, .black left right⟩
  | black left right => exact ⟨_, .black left right⟩

section
variable {color : FLLRBColor} {height : ℕ} {tree : FLLRBNode Key Val}

theorem Balanced.isRed_black (holds : Balanced .black height tree) : tree.isRed = false := by
  rw [holds.isRed_eq]
  rfl

theorem Balanced.isRed_left (holds : Balanced .red height tree) : tree.left.isRed = false := by
  cases holds with
  | red left right => exact left.isRed_black

theorem Balanced.fixUp_eq (holds : Balanced color height tree) : tree.fixUp = tree := by
  cases holds with
  | empty => rfl
  | red left right => simp [fixUp, left.isRed_black, right.isRed_black]
  | @black color _ _ _ _ _ left right =>
    cases color with
    | black => simp [fixUp, left.isRed_black, right.isRed_black]
    | red => simp [fixUp, left.isRed_left, right.isRed_black]

end

section
variable {color : FLLRBColor} {height : ℕ} {before after : FLLRBNode Key Val} {key : Key} {value : Val}

theorem Balanced.fixUp {tree : FLLRBNode Key Val} (holds : Balanced color height tree) :
    Balanced color height tree.fixUp := by
  rw [holds.fixUp_eq]
  exact holds

theorem fixUp_of_right (left : Balanced .black height before) (right : Balanced .red height after) :
    ∃ between last after' lastValue, Balanced .black height between ∧ Balanced .black height after' ∧
      (node color before key value after).fixUp =
        node color (node .red before key value between) last lastValue after' := by
  cases right with
  | @red _ between after' last lastValue inner outer =>
    refine ⟨between, last, after', lastValue, inner, outer, ?_⟩
    simp [fixUp, rotateLeft, left.isRed_black, outer.isRed_black]

theorem Balanced.above (left : Balanced .black height before) (right : Balanced .black height after) :
    Balanced color (color.above height) (.node color before key value after) := by
  cases color with
  | red => exact .red left right
  | black => exact .black left right

/-- Two red nodes give their color to the node above. -/
theorem Balanced.fixUp_both (left : Balanced .red height before) (right : Balanced .red height after) :
    Balanced color (color.above (height + 1)) (FLLRBNode.node color.flip before key value after).fixUp := by
  cases left with
  | red first second =>
    cases right with
    | red third fourth =>
      simp only [FLLRBNode.fixUp, isRed_node, left_node, right_node, first.isRed_black, decide_true, Bool.not_true,
        Bool.and_false, Bool.false_eq_true, if_false, Bool.and_self, if_true, colorFlip, flipped,
        FLLRBColor.flip_red, FLLRBColor.flip_flip]
      exact .above (.black first second) (.black third fourth)

/-- A node that lost its left red child to the level above takes the right one. -/
theorem Balanced.fixUp_right (left : Balanced .black height before) (right : Balanced color height after) :
    Balanced .black (height + 1) (node .black before key value after).fixUp := by
  cases color with
  | black => exact (Balanced.black left right).fixUp
  | red =>
    obtain ⟨between, last, after', lastValue, inner, outer, turned⟩ := fixUp_of_right left right
    rw [turned]
    exact .black (.red left inner) outer

end

/-! ## Insertion -/

section
variable [LinearOrder Key]

def insertKey (key : Key) (value : Val) : FLLRBNode Key Val → FLLRBNode Key Val
  | .empty => .node .red .empty key value .empty
  | .node color left held old right =>
    if key < held then (node color (left.insertKey key value) held old right).fixUp
    else if key = held then (node color left held value right).fixUp
    else (node color left held old (right.insertKey key value)).fixUp

theorem entries_insertKey {tree : FLLRBNode Key Val} (sorted : tree.entries.Sorted) (key : Key) (value : Val) :
    (tree.insertKey key value).entries = tree.entries.insert key value := by
  induction tree with
  | empty => rfl
  | node color left held old right leftIH rightIH =>
    obtain ⟨⟨before, after⟩, below, above⟩ := Entries.sorted_append_cons sorted
    rw [insertKey, entries]
    split
    next less =>
      rw [entries_fixUp, entries, leftIH before, Entries.insert_append_of_below less]
    next notLess =>
      have preceding : ∀ entry ∈ left.entries, entry.1 < key := fun entry member =>
        lt_of_lt_of_le (below entry member) (not_lt.mp notLess)
      rw [Entries.insert_append_of_above preceding, Entries.insert, if_neg notLess]
      split
      next same =>
        subst same
        rw [entries_fixUp, entries, if_pos rfl]
      next apart => rw [entries_fixUp, entries, rightIH after, if_neg (Ne.symm apart)]

end

/-- A red node whose left child may be red, which the node above repairs. -/
inductive Loose : ℕ → FLLRBNode Key Val → Prop where
  | node {color : FLLRBColor} {height : ℕ} {left right : FLLRBNode Key Val} {key : Key} {value : Val} :
      Balanced color height left → Balanced .black height right → Loose height (.node .red left key value right)

theorem Loose.fixUp {height : ℕ} {tree : FLLRBNode Key Val} (holds : Loose height tree) :
    Loose height tree.fixUp := by
  have same : tree.fixUp = tree := by
    cases holds with
    | @node color _ _ _ _ _ left right =>
      cases color with
      | black => simp [FLLRBNode.fixUp, left.isRed_black, right.isRed_black]
      | red => simp [FLLRBNode.fixUp, left.isRed_left, right.isRed_black]
  rw [same]
  exact holds

theorem Loose.fixUp_black {height : ℕ} {before after : FLLRBNode Key Val} {key : Key} {value : Val}
    (left : Loose height before) (right : Balanced .black height after) :
    ∃ color, Balanced color (height + 1) (FLLRBNode.node .black before key value after).fixUp := by
  cases left with
  | @node color _ first second _ _ outer inner =>
    cases color with
    | black =>
      exact ⟨.black, (Balanced.black (.red outer inner) right).fixUp⟩
    | red =>
      cases outer with
      | red third fourth =>
        refine ⟨.red, ?_⟩
        simp only [FLLRBNode.fixUp, isRed_node, left_node, right_node, right.isRed_black, decide_true,
          Bool.not_true, Bool.and_self, Bool.false_eq_true, if_false, if_true, rotateRight, colorFlip, flipped,
          FLLRBColor.flip]
        exact .red (.black third fourth) (.black inner right)

def Inserted (color : FLLRBColor) (height : ℕ) (tree : FLLRBNode Key Val) : Prop :=
  match color with
  | .black => ∃ color, Balanced color height tree
  | .red => Loose height tree

theorem Balanced.insertKey [LinearOrder Key] {color : FLLRBColor} {height : ℕ} {tree : FLLRBNode Key Val}
    (holds : Balanced color height tree) (key : Key) (value : Val) :
    Inserted color height (tree.insertKey key value) := by
  induction holds with
  | empty => exact ⟨.red, .red .empty .empty⟩
  | @red height before after held old left right leftIH rightIH =>
    rw [FLLRBNode.insertKey]
    split
    · obtain ⟨color, inserted⟩ := leftIH
      exact (Loose.node inserted right).fixUp
    split
    · exact (Loose.node left right).fixUp
    · obtain ⟨color | color, inserted⟩ := rightIH
      · obtain ⟨between, last, after', lastValue, inner, outer, turned⟩ := fixUp_of_right left inserted
        rw [turned]
        exact .node (.red left inner) outer
      · exact (Loose.node left inserted).fixUp
  | @black color height before after held old left right leftIH rightIH =>
    rw [FLLRBNode.insertKey]
    split
    · cases color with
      | black =>
        obtain ⟨color, inserted⟩ := leftIH
        exact ⟨.black, (Balanced.black inserted right).fixUp⟩
      | red => exact leftIH.fixUp_black right
    split
    · exact ⟨.black, (Balanced.black left right).fixUp⟩
    · obtain ⟨rightColor, inserted⟩ := rightIH
      cases color with
      | black => exact ⟨.black, left.fixUp_right inserted⟩
      | red =>
        cases rightColor with
        | red => exact ⟨.red, left.fixUp_both inserted⟩
        | black =>
          exact ⟨.black, (Balanced.black left inserted).fixUp⟩

end FLLRBNode

end ProjectF02.SortedDictionary
