import ProjectF02.Swift.Value
import ProjectF02.Store.LastWrites

/-! The database tree, what `setValue` stores in it and what a snapshot reads back.

Transcribed from `FSnapshotUtilities nodeFrom:`, `FChildrenNode`, `FLeafNode` and
`FUtilities intForString:`. Priorities, `.value` payloads and the size limits of
leaves are not represented: no value the program stores carries them.
-/

set_option autoImplicit false

namespace ProjectF02.Firebase
open Swift

inductive Leaf (Double : Type) where
  | string (text : String)
  | number (n : NSNumber Double)
  deriving DecidableEq, Repr

/-- A node without children is the empty node, the same as no node at all. -/
inductive Node (Double : Type) where
  | leaf (value : Leaf Double)
  | children (entries : List (Sigma fun _ : String => Node Double))

variable {Double : Type}

abbrev Children (Double : Type) := Store.Map String (Node Double)

namespace Node

def empty : Node Double := .children []

def isEmpty : Node Double → Bool
  | .children [] => true
  | _ => false

@[simp] theorem isEmpty_children (entries : List (Sigma fun _ : String => Node Double)) :
    (children entries).isEmpty = entries.isEmpty := by
  cases entries <;> rfl

def childMap : Node Double → Children Double
  | .leaf _ => ∅
  | .children entries => entries.toAList

def ofChildMap (children : Children Double) : Node Double := .children children.entries

@[simp] theorem childMap_ofChildMap (children : Children Double) :
    (ofChildMap children).childMap = children := toAList_entries children

def getImmediateChild (node : Node Double) (name : String) : Node Double :=
  (node.childMap.lookup name).getD empty

def getChild (node : Node Double) : List String → Node Double
  | [] => node
  | front :: rest => (node.getImmediateChild front).getChild rest

def updateImmediateChild (node : Node Double) (name : String) (new : Node Double) : Node Double :=
  match node with
  -- Removing a child of a leaf leaves the leaf; adding one replaces it.
  | .leaf value => if new.isEmpty then .leaf value else ofChildMap (AList.singleton name new)
  | .children entries =>
      ofChildMap (if new.isEmpty then entries.toAList.erase name else entries.toAList.insert name new)

def updateChild (node : Node Double) (path : List String) (new : Node Double) : Node Double :=
  match path with
  | [] => new
  | front :: rest =>
      node.updateImmediateChild front ((node.getImmediateChild front).updateChild rest new)

theorem eq_empty_of_isEmpty {node : Node Double} (blank : node.isEmpty = true) : node = empty := by
  cases node with
  | leaf value => cases blank
  | children entries =>
    cases entries with
    | nil => rfl
    | cons entry rest => cases blank

theorem updateImmediateChild_of_present {new : Node Double} (present : new.isEmpty = false)
    (node : Node Double) (name : String) :
    node.updateImmediateChild name new = ofChildMap (node.childMap.insert name new) := by
  cases node with
  | leaf value =>
    simp only [updateImmediateChild, present, Bool.false_eq_true, if_false]
    exact congrArg ofChildMap (AList.insert_empty (β := fun _ => Node Double) name new).symm
  | children entries =>
    simp only [updateImmediateChild, present, Bool.false_eq_true, if_false]
    rfl

@[simp] theorem getImmediateChild_updateImmediateChild (node : Node Double) (name : String)
    (new : Node Double) : (node.updateImmediateChild name new).getImmediateChild name = new := by
  unfold getImmediateChild
  cases blank : new.isEmpty with
  | false => simp [updateImmediateChild_of_present blank]
  | true =>
    rw [eq_empty_of_isEmpty blank]
    cases node with
    | leaf value => rfl
    | children entries => simp [updateImmediateChild, empty, isEmpty]

@[simp] theorem getChild_updateChild (node : Node Double) (path : List String) (new : Node Double) :
    (node.updateChild path new).getChild path = new := by
  induction path generalizing node with
  | nil => rfl
  | cons front rest ih =>
    simp only [updateChild, getChild, getImmediateChild_updateImmediateChild, ih]

theorem getImmediateChild_updateImmediateChild_of_ne {name other : String} (different : other ≠ name)
    (node new : Node Double) :
    (node.updateImmediateChild name new).getImmediateChild other = node.getImmediateChild other := by
  unfold getImmediateChild
  cases blank : new.isEmpty with
  | false => rw [updateImmediateChild_of_present blank, childMap_ofChildMap, AList.lookup_insert_ne different]
  | true =>
    cases node with
    | leaf value => simp only [updateImmediateChild, blank, if_true]
    | children entries =>
      simp only [updateImmediateChild, blank, if_true]
      rw [childMap_ofChildMap, AList.lookup_erase_ne different]
      rfl

theorem getChild_updateChild_of_apart {path other : List String} (below : ¬ path <+: other)
    (above : ¬ other <+: path) (node new : Node Double) :
    (node.updateChild path new).getChild other = node.getChild other := by
  induction path generalizing node other with
  | nil => exact absurd List.nil_prefix below
  | cons front rest ih =>
    cases other with
    | nil => exact absurd List.nil_prefix above
    | cons first others =>
      rw [updateChild, getChild, getChild]
      by_cases same : first = front
      · subst same
        rw [getImmediateChild_updateImmediateChild]
        exact ih (fun shorter => below ((List.prefix_cons_inj _).mpr shorter))
          (fun shorter => above ((List.prefix_cons_inj _).mpr shorter)) _
      · rw [getImmediateChild_updateImmediateChild_of_ne same]

theorem getChild_updateChild_child {new : Node Double} (present : new.isEmpty = false)
    (node : Node Double) (path : List String) (key : String) :
    (node.updateChild (path ++ [key]) new).getChild path =
      ofChildMap ((node.getChild path).childMap.insert key new) := by
  induction path generalizing node with
  | nil => exact updateImmediateChild_of_present present node key
  | cons front rest ih =>
    simp only [List.cons_append, updateChild, getChild, getImmediateChild_updateImmediateChild, ih]

end Node

mutual
def nodeFrom : Value Double → Except Trap (Node Double)
  | .null => .ok .empty
  | .string text => .ok (.leaf (.string text))
  | .int n => .ok (.leaf (.number (.integer n)))
  | .int64 n => .ok (.leaf (.number (.integer n)))
  | .double d => .ok (.leaf (.number (.double d)))
  | .number n => .ok (.leaf (.number n))
  | .array items => do return .children (← nodesFromArray 0 items)
  | .dict entries => do return .children (← nodesFromDict entries)
  -- `InvalidFirebaseData`: an instance of a class of the program cannot be stored.
  | .comment _ => .error .invalidData

def nodesFromArray (index : Nat) :
    List (Value Double) → Except Trap (List (Sigma fun _ : String => Node Double))
  | [] => .ok []
  | value :: values => do
    let childNode ← nodeFrom value
    let children ← nodesFromArray (index + 1) values
    return if childNode.isEmpty then children else ⟨toString index, childNode⟩ :: children

def nodesFromDict : List (Sigma fun _ : String => Value Double) →
    Except Trap (List (Sigma fun _ : String => Node Double))
  | [] => .ok []
  | ⟨key, value⟩ :: entries => do
    let childNode ← nodeFrom value
    let children ← nodesFromDict entries
    return if childNode.isEmpty then children else ⟨key, childNode⟩ :: children
end

/-- `setValue` at a path of the whole database. -/
def setValue (database : Node Double) (path : List String) (value : Value Double) :
    Except Trap (Node Double) := do
  return database.updateChild path (← nodeFrom value)

/-- Foundation's decimal digits and the integer its scanner reads, both fixed for ASCII. Other scripts have
digits of their own, and what the scanner makes of those is left open. -/
class NSScanner where
  decimalDigitCharacterSet : Char → Bool
  scanInteger : String → Option Nat
  decimalDigitCharacterSet_ascii : ∀ c : Char, c.val < 128 → decimalDigitCharacterSet c = c.isDigit
  /-- Too long a number is read as the largest `NSInteger`. -/
  scanInteger_ascii : ∀ text : String, text ≠ "" → text.toList.all Char.isDigit = true →
    scanInteger text = some (min (Nat.ofDigitChars 10 text.toList 0) (2 ^ 63 - 1))

export NSScanner (decimalDigitCharacterSet scanInteger)

/-- A scanner that knows no digits beyond ASCII. -/
instance asciiScanner : NSScanner where
  decimalDigitCharacterSet := Char.isDigit
  scanInteger text :=
    if text ≠ "" ∧ text.toList.all Char.isDigit then some (min (Nat.ofDigitChars 10 text.toList 0) (2 ^ 63 - 1))
    else none
  decimalDigitCharacterSet_ascii _ _ := rfl
  scanInteger_ascii _ present digits := if_pos ⟨present, digits⟩

variable [NSScanner]

def intForString (key : String) : Option Nat :=
  if key.toList.all decimalDigitCharacterSet then scanInteger key else none

/-- A key is an array index unless it has a leading zero and is not `"0"` itself. -/
def integerKey (key : String) : Option Nat :=
  if key.toList.head? = some '0' ∧ 1 < key.length then none else intForString key

def maxIntegerKey : List String → Option Nat
  | [] => some 0
  | key :: keys => do return max (← integerKey key) (← maxIntegerKey keys)

/-- `valForExport:` turns a dense map of integer keys into an array. -/
def exportChildren (obj : List (Sigma fun _ : String => Value Double)) : Value Double :=
  if obj.isEmpty then .null
  else match maxIntegerKey obj.keys with
    | some maxKey =>
        if maxKey < 2 * obj.length then
          .array ((List.range (maxKey + 1)).map fun i => (obj.dlookup (toString i)).getD .null)
        else .dict obj
    | none => .dict obj

mutual
def Node.val : Node Double → Value Double
  | .leaf (.string text) => .string text
  | .leaf (.number n) => .number n
  | .children entries => exportChildren (Node.valEntries entries)

def Node.valEntries : List (Sigma fun _ : String => Node Double) →
    List (Sigma fun _ : String => Value Double)
  | [] => []
  | ⟨key, childNode⟩ :: entries => ⟨key, childNode.val⟩ :: Node.valEntries entries
end

end ProjectF02.Firebase
