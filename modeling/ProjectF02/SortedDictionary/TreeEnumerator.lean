import ProjectF02.SortedDictionary.TreeSortedDictionary

/-! Enumeration of the keys of a tree, in both directions.

Transcribed from `FTreeSortedDictionaryEnumerator`. Its stack holds the nodes whose
keys are still to come, the next one on top. The far side of a node on the stack
comes after it.
-/

set_option autoImplicit false

namespace ProjectF02.SortedDictionary
open Store

variable {Key Val : Type}

structure FTreeSortedDictionaryEnumerator (Key Val : Type) where
  stack : List (FLLRBNode Key Val)
  isReverse : Bool

namespace FTreeSortedDictionaryEnumerator

def far (isReverse : Bool) : FLLRBNode Key Val → FLLRBNode Key Val
  | .empty => .empty
  | .node _ left _ _ right => if isReverse then left else right

/-- The loop of `nextObject`. -/
def push (isReverse : Bool) (stack : List (FLLRBNode Key Val)) : FLLRBNode Key Val → List (FLLRBNode Key Val)
  | .empty => stack
  | .node color left key value right =>
    if isReverse then push isReverse (.node color left key value right :: stack) right
    else push isReverse (.node color left key value right :: stack) left

def nextObject (enumerator : FTreeSortedDictionaryEnumerator Key Val) :
    Option Key × FTreeSortedDictionaryEnumerator Key Val :=
  match enumerator.stack with
  | [] => (none, enumerator)
  | .empty :: stack => (none, { enumerator with stack := stack })
  | .node color left key value right :: stack =>
    (some key, { enumerator with
      stack := push enumerator.isReverse stack (far enumerator.isReverse (.node color left key value right)) })

def objectAt (enumerator : FTreeSortedDictionaryEnumerator Key Val) : ℕ → Option Key
  | 0 => enumerator.nextObject.1
  | calls + 1 => enumerator.nextObject.2.objectAt calls

section
variable [LinearOrder Key]

/-- How a key compares to the start key, turned around for the other direction. Without a start key, a
key compares as greater. -/
def compareToStart (startKey : Option Key) (isReverse : Bool) (key : Key) : Ordering :=
  let cmp := match startKey with
    | none => .gt
    | some start => if key < start then .lt else if key = start then .eq else .gt
  if isReverse then cmp.swap else cmp

/-- The loop of the initializer. -/
def initialStack (startKey : Option Key) (isReverse : Bool) (stack : List (FLLRBNode Key Val)) :
    FLLRBNode Key Val → List (FLLRBNode Key Val)
  | .empty => stack
  | .node color left key value right =>
    match compareToStart startKey isReverse key with
    | .lt =>
      if isReverse then initialStack startKey isReverse stack left else initialStack startKey isReverse stack right
    | .eq => .node color left key value right :: stack
    | .gt =>
      if isReverse then initialStack startKey isReverse (.node color left key value right :: stack) right
      else initialStack startKey isReverse (.node color left key value right :: stack) left

def initWithImmutableSortedDictionary (dictionary : FTreeSortedDictionary Key Val) (startKey : Option Key)
    (isReverse : Bool) : FTreeSortedDictionaryEnumerator Key Val where
  stack := initialStack startKey isReverse [] dictionary.root
  isReverse := isReverse

end

def directed (isReverse : Bool) (keys : List Key) : List Key := if isReverse then keys.reverse else keys

/-- The keys of a node that is on the stack: its own one and those of its far side. -/
def pending (isReverse : Bool) : FLLRBNode Key Val → List Key
  | .empty => []
  | .node _ left key _ right =>
    key :: directed isReverse ((if isReverse then left else right).entries.map Prod.fst)

def remaining (isReverse : Bool) (stack : List (FLLRBNode Key Val)) : List Key :=
  stack.flatMap (pending isReverse)

theorem remaining_cons (isReverse : Bool) (color : FLLRBColor) (left right : FLLRBNode Key Val) (key : Key)
    (value : Val) (stack : List (FLLRBNode Key Val)) :
    remaining isReverse (.node color left key value right :: stack) =
      key :: directed isReverse ((if isReverse then left else right).entries.map Prod.fst) ++
        remaining isReverse stack := by
  rw [remaining, List.flatMap_cons]
  rfl

theorem remaining_push (isReverse : Bool) (stack : List (FLLRBNode Key Val)) (tree : FLLRBNode Key Val) :
    remaining isReverse (push isReverse stack tree) =
      directed isReverse (tree.entries.map Prod.fst) ++ remaining isReverse stack := by
  induction tree generalizing stack with
  | empty => cases isReverse <;> rfl
  | node color left key value right leftIH rightIH =>
    cases isReverse with
    | false =>
      rw [push, if_neg Bool.false_ne_true, leftIH]
      simp [remaining_cons, directed, FLLRBNode.entries]
    | true =>
      rw [push, if_pos rfl, rightIH]
      simp [remaining_cons, directed, FLLRBNode.entries]

theorem forall_push {property : FLLRBNode Key Val → Prop} (nodes : ∀ color left key value right,
      property (.node color left key value right)) (isReverse : Bool) {stack : List (FLLRBNode Key Val)}
    (all : ∀ node ∈ stack, property node) (tree : FLLRBNode Key Val) :
    ∀ node ∈ push isReverse stack tree, property node := by
  induction tree generalizing stack with
  | empty => exact all
  | node color left key value right leftIH rightIH =>
    have more := List.forall_mem_cons.mpr ⟨nodes color left key value right, all⟩
    rw [push]
    split
    · exact rightIH more
    · exact leftIH more

/-- The empty node is never put on the stack. -/
def Valid (enumerator : FTreeSortedDictionaryEnumerator Key Val) : Prop :=
  ∀ node ∈ enumerator.stack, node.isEmpty = false

theorem Valid.nextObject {enumerator : FTreeSortedDictionaryEnumerator Key Val} (valid : enumerator.Valid) :
    enumerator.nextObject.2.Valid ∧ enumerator.nextObject.2.isReverse = enumerator.isReverse ∧
      enumerator.nextObject.1 = (remaining enumerator.isReverse enumerator.stack).head? ∧
      remaining enumerator.isReverse enumerator.nextObject.2.stack =
        (remaining enumerator.isReverse enumerator.stack).tail := by
  obtain ⟨stack, isReverse⟩ := enumerator
  cases stack with
  | nil => exact ⟨valid, rfl, rfl, rfl⟩
  | cons node stack =>
    obtain ⟨now, later⟩ := List.forall_mem_cons.mp valid
    cases node with
    | empty => cases now
    | node color left key value right =>
      refine ⟨forall_push (fun _ _ _ _ _ => rfl) isReverse later _, rfl, rfl, ?_⟩
      exact remaining_push isReverse stack _

theorem Valid.objectAt_eq {enumerator : FTreeSortedDictionaryEnumerator Key Val} (valid : enumerator.Valid)
    (calls : ℕ) : enumerator.objectAt calls = (remaining enumerator.isReverse enumerator.stack)[calls]? := by
  induction calls generalizing enumerator with
  | zero => rw [objectAt, valid.nextObject.2.2.1, List.head?_eq_getElem?]
  | succ calls ih =>
    obtain ⟨kept, same, -, rest⟩ := valid.nextObject
    rw [objectAt, ih kept, same, rest, List.getElem?_tail]

section
variable [LinearOrder Key]

theorem keysFrom_append_cons (start key : Key) (isReverse : Bool) (front back : List Key) :
    keysFrom start isReverse (front ++ key :: back) =
      if isReverse then keysFrom start true back ++ keysFrom start true [key] ++ keysFrom start true front
      else keysFrom start false front ++ keysFrom start false [key] ++ keysFrom start false back := by
  have later := keysFrom_append start isReverse [key] back
  rw [List.singleton_append] at later
  rw [keysFrom_append]
  cases isReverse with
  | false => exact (congrArg (keysFrom start false front ++ ·) later).trans (List.append_assoc _ _ _).symm
  | true => exact congrArg (· ++ keysFrom start true front) later

theorem keysFrom_singleton (start key : Key) (isReverse : Bool) :
    keysFrom start isReverse [key] = if compareToStart (some start) isReverse key = .lt then [] else [key] := by
  rcases lt_trichotomy key start with less | same | greater
  · cases isReverse <;> simp [keysFrom, compareToStart, less, le_of_lt less, not_le.mpr less]
  · cases isReverse <;> simp [keysFrom, compareToStart, same]
  · have apart := ne_of_gt greater
    cases isReverse <;>
      simp [keysFrom, compareToStart, not_lt_of_gt greater, apart, le_of_lt greater, not_le.mpr greater]

theorem remaining_initialStack (start : Key) (isReverse : Bool) {tree : FLLRBNode Key Val}
    (sorted : tree.entries.Sorted) (stack : List (FLLRBNode Key Val)) :
    remaining isReverse (initialStack (some start) isReverse stack tree) =
      keysFrom start isReverse (tree.entries.map Prod.fst) ++ remaining isReverse stack := by
  induction tree generalizing stack with
  | empty => cases isReverse <;> rfl
  | node color left key value right leftIH rightIH =>
    obtain ⟨⟨before, after⟩, below, above⟩ := Entries.sorted_append_cons sorted
    have lower : ∀ other ∈ left.entries.map Prod.fst, other < key := List.forall_mem_map.mpr below
    have upper : ∀ other ∈ right.entries.map Prod.fst, key < other := List.forall_mem_map.mpr above
    rw [FLLRBNode.entries, List.map_append, List.map_cons, keysFrom_append_cons]
    rw [keysFrom_singleton, keysFrom_singleton, initialStack]
    rcases lt_trichotomy key start with less | same | greater
    · have under := keysFrom_of_below lower (le_of_lt less)
      cases isReverse with
      | false => simp [compareToStart, less, rightIH after, under]
      | true => simp [compareToStart, less, rightIH after, under, remaining_cons, directed]
    · have under := keysFrom_of_below lower (le_of_eq same)
      have beyond := keysFrom_of_above upper (ge_of_eq same)
      cases isReverse with
      | false => simp [compareToStart, same, under, beyond, remaining_cons, directed]
      | true => simp [compareToStart, same, under, beyond, remaining_cons, directed]
    · have beyond := keysFrom_of_above upper (le_of_lt greater)
      have apart := ne_of_gt greater
      cases isReverse with
      | false =>
        simp [compareToStart, not_lt_of_gt greater, apart, leftIH before, beyond, remaining_cons, directed]
      | true => simp [compareToStart, not_lt_of_gt greater, apart, leftIH before, beyond]

/-- Without a start key all keys are enumerated upwards, and none downwards. -/
theorem remaining_initialStack_none (isReverse : Bool) (tree : FLLRBNode Key Val)
    (stack : List (FLLRBNode Key Val)) :
    remaining isReverse (initialStack none isReverse stack tree) =
      (if isReverse then [] else tree.entries.map Prod.fst) ++ remaining isReverse stack := by
  induction tree generalizing stack with
  | empty => cases isReverse <;> rfl
  | node color left key value right leftIH rightIH =>
    cases isReverse with
    | false => simp [initialStack, compareToStart, leftIH, remaining_cons, directed, FLLRBNode.entries]
    | true => simp [initialStack, compareToStart, leftIH]

theorem forall_initialStack {property : FLLRBNode Key Val → Prop}
    (nodes : ∀ color left key value right, property (.node color left key value right)) (startKey : Option Key)
    (isReverse : Bool) {stack : List (FLLRBNode Key Val)} (all : ∀ node ∈ stack, property node)
    (tree : FLLRBNode Key Val) : ∀ node ∈ initialStack startKey isReverse stack tree, property node := by
  induction tree generalizing stack with
  | empty => exact all
  | node color left key value right leftIH rightIH =>
    have more := List.forall_mem_cons.mpr ⟨nodes color left key value right, all⟩
    rw [initialStack]
    split
    · split
      · exact leftIH all
      · exact rightIH all
    · exact more
    · split
      · exact rightIH more
      · exact leftIH more

theorem valid_init (dictionary : FTreeSortedDictionary Key Val) (startKey : Option Key) (isReverse : Bool) :
    (initWithImmutableSortedDictionary dictionary startKey isReverse).Valid :=
  forall_initialStack (fun _ _ _ _ _ => rfl) startKey isReverse (List.forall_mem_nil _) dictionary.root

theorem objectAt_init {dictionary : FTreeSortedDictionary Key Val} (sorted : dictionary.entries.Sorted)
    (start : Key) (isReverse : Bool) (calls : ℕ) :
    (initWithImmutableSortedDictionary dictionary (some start) isReverse).objectAt calls =
      (keysFrom start isReverse (dictionary.entries.map Prod.fst))[calls]? := by
  rw [(valid_init dictionary (some start) isReverse).objectAt_eq]
  dsimp only [initWithImmutableSortedDictionary]
  rw [remaining_initialStack start isReverse sorted, remaining, List.flatMap_nil, List.append_nil]
  rfl

theorem objectAt_init_none (dictionary : FTreeSortedDictionary Key Val) (isReverse : Bool) (calls : ℕ) :
    (initWithImmutableSortedDictionary dictionary none isReverse).objectAt calls =
      (if isReverse then [] else dictionary.entries.map Prod.fst)[calls]? := by
  rw [(valid_init dictionary none isReverse).objectAt_eq]
  dsimp only [initWithImmutableSortedDictionary]
  rw [remaining_initialStack_none, remaining, List.flatMap_nil, List.append_nil]
  rfl

end

end FTreeSortedDictionaryEnumerator

end ProjectF02.SortedDictionary
