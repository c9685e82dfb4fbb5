import ProjectF02.Firebase.Snapshot

/-! Queries by the value of a child.

A node that has a child under a name is exported as a dictionary, so every child
of a query's snapshot casts to one.
-/

set_option autoImplicit false

namespace ProjectF02.Firebase
open Swift

variable {Double : Type}

/-- What `queryOrdered(byChild:).queryEqual(toValue:)` looks for, given a string. -/
def Node.hasChild (node : Node Double) (name value : String) : Bool :=
  match node.getImmediateChild name with
  | .leaf (.string text) => text = value
  | _ => false

/-- The children of the query's snapshot, in the order of the node's entries. -/
def queryEqual (node : Node Double) (name value : String) : List (Node Double) :=
  (node.childMap.entries.map Sigma.snd).filter fun child => child.hasChild name value

theorem getImmediateChild_of_hasChild {node : Node Double} {name value : String}
    (has : node.hasChild name value = true) :
    node.getImmediateChild name = .leaf (.string value) := by
  unfold Node.hasChild at has
  split at has
  next text found => rw [found, of_decide_eq_true has]
  next => cases has

theorem val_of_mem_keys [NSScanner] {entries : List (Sigma fun _ : String => Node Double)} {name : String}
    (key : isName name = true) (member : name ∈ (Node.valEntries entries).keys) :
    (Node.children entries).val = .dict (Node.valEntries entries) := by
  have present : (Node.valEntries entries).isEmpty = false := by
    rw [List.isEmpty_eq_false_iff]
    rintro none
    rw [none] at member
    cases member
  rw [Node.val, exportChildren, present, maxIntegerKey_eq_none member (integerKey_eq_none key)]
  rfl

theorem asDict_val_of_child [NSScanner] {node : Node Double} {name : String} {value : Leaf Double}
    (key : isName name = true) (found : node.getImmediateChild name = .leaf value) :
    ∃ dict, node.val.asDict = some dict ∧ dict.lookup name = some (Node.leaf value).val := by
  cases node with
  | leaf other => cases found
  | children entries =>
    have looked : entries.dlookup name = some (.leaf value) := by
      unfold Node.getImmediateChild Node.childMap at found
      rw [AList.lookup_to_alist] at found
      cases stored : entries.dlookup name with
      | none =>
        rw [stored] at found
        cases found
      | some child =>
        rw [stored] at found
        exact congrArg some found
    have read : (Node.valEntries entries).dlookup name = some (Node.leaf value).val := by
      rw [dlookup_valEntries, looked]
      rfl
    have member : name ∈ (Node.valEntries entries).keys := by
      rw [← List.dlookup_isSome, read]
      rfl
    refine ⟨_, congrArg Value.asDict (val_of_mem_keys key member), ?_⟩
    rw [AList.lookup_to_alist]
    exact read

theorem asDict_val_of_query [NSScanner] {node child : Node Double} {name value : String}
    (key : isName name = true) (member : child ∈ queryEqual node name value) :
    ∃ dict, child.val.asDict = some dict ∧ dict.lookup name = some (.string value) :=
  asDict_val_of_child key (getImmediateChild_of_hasChild (List.mem_filter.mp member).2)

end ProjectF02.Firebase
