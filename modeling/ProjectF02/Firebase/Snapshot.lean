import ProjectF02.Firebase.Node
import Mathlib.Tactic.IntervalCases

/-! What reading a stored value gives back.

A dictionary whose keys are not all integers comes back as a dictionary, each
field as the stored form of the field that was written. A map of integer keys
comes back as an array when its largest key is small enough.
-/

set_option autoImplicit false

namespace ProjectF02.Firebase
open Swift

variable {Double : Type}

theorem head_toDigits_ne_zero {n : Nat} (positive : 0 < n) :
    (Nat.toDigits 10 n).head? ≠ some '0' := by
  -- Induction on the digits: appending one leaves the head as it is.
  induction n using Nat.base_induction 10 (by decide) with
  | single m small =>
    rw [Nat.toDigits_of_lt_base small]
    interval_cases m <;> decide
  | digit m k small large ih =>
    rw [← Nat.toDigits_append_toDigits (by decide) large small,
      List.head?_append_of_ne_nil _ Nat.toDigits_ne_nil]
    exact ih large

theorem ascii_of_isDigit {c : Char} (digit : c.isDigit = true) : c.val < 128 := by
  have bounds : 48 ≤ c.val ∧ c.val ≤ 57 := by simpa [Char.isDigit] using digit
  exact UInt32.lt_of_le_of_lt bounds.2 (by decide)

theorem intForString_repr [NSScanner] (n : Nat) : intForString n.repr = some (min n (2 ^ 63 - 1)) := by
  have digits : ∀ c ∈ n.repr.toList, c.isDigit = true := by
    intro c member
    rw [Nat.toList_repr] at member
    exact Nat.isDigit_of_mem_toDigits (by decide) (by decide) member
  have decimal : n.repr.toList.all decimalDigitCharacterSet = true := by
    refine List.all_eq_true.mpr fun c member => ?_
    rw [NSScanner.decimalDigitCharacterSet_ascii c (ascii_of_isDigit (digits c member)), digits c member]
  rw [intForString, if_pos decimal, NSScanner.scanInteger_ascii _ Nat.repr_ne_empty
    (List.all_eq_true.mpr digits), Nat.toList_repr, Nat.ofDigitChars_ten_toDigits]

/-- A character of ASCII that is no digit makes a key a name, whatever the scanner. -/
def isName (key : String) : Bool := key.toList.any fun c => c.val < 128 && !c.isDigit

theorem integerKey_eq_none [NSScanner] {key : String} (name : isName key = true) : integerKey key = none := by
  obtain ⟨c, member, plain⟩ := List.any_eq_true.mp name
  obtain ⟨ascii, other⟩ : c.val < 128 ∧ c.isDigit = false := by simpa using plain
  have noDigits : key.toList.all decimalDigitCharacterSet = false := by
    refine List.all_eq_false.mpr ⟨c, member, ?_⟩
    rw [NSScanner.decimalDigitCharacterSet_ascii c ascii, other]
    exact Bool.false_ne_true
  rw [integerKey, intForString, noDigits, if_neg Bool.false_ne_true, ite_self]

theorem integerKey_natural [NSScanner] (n : Nat) : integerKey (toString n) = some (min n (2 ^ 63 - 1)) := by
  rw [integerKey, if_neg, Nat.toString_eq_repr, intForString_repr]
  rintro ⟨leading, long⟩
  rcases Nat.eq_zero_or_pos n with rfl | positive
  · exact absurd long (by decide)
  · rw [Nat.toString_eq_repr, Nat.toList_repr] at leading
    exact head_toDigits_ne_zero positive leading

theorem integerKey_negative [NSScanner] {n : ℤ} (negative : n < 0) : integerKey (toString n) = none := by
  have shown : toString n = "-" ++ (-n).toNat.repr := by
    have := Int.repr_eq_if (a := n)
    rw [if_neg (by omega)] at this
    exact this
  have signed : (toString n).toList = '-' :: (-n).toNat.repr.toList := by
    rw [shown, String.toList_append]
    rfl
  apply integerKey_eq_none
  rw [isName, signed]
  rfl

theorem maxIntegerKey_spec [NSScanner] {keys : List String} {largest : Nat}
    (found : maxIntegerKey keys = some largest) :
    (∀ key ∈ keys, ∃ index, integerKey key = some index ∧ index ≤ largest) ∧
      (largest = 0 ∨ ∃ key ∈ keys, integerKey key = some largest) := by
  induction keys generalizing largest with
  | nil => simp_all [maxIntegerKey]
  | cons key keys ih =>
    simp only [maxIntegerKey, Option.pure_def, Option.bind_eq_bind, Option.bind_eq_some_iff,
      Option.some.injEq] at found
    obtain ⟨index, first, rest, others, rfl⟩ := found
    obtain ⟨bounded, reached⟩ := ih others
    constructor
    · intro other member
      rcases List.mem_cons.mp member with rfl | member
      · exact ⟨index, first, le_max_left _ _⟩
      · obtain ⟨small, read, below⟩ := bounded other member
        exact ⟨small, read, below.trans (le_max_right _ _)⟩
    · rcases le_total rest index with below | above
      · exact .inr ⟨key, List.mem_cons_self, by rw [first, max_eq_left below]⟩
      · rw [max_eq_right above]
        rcases reached with none | ⟨other, member, read⟩
        · exact .inl none
        · exact .inr ⟨other, List.mem_cons_of_mem _ member, read⟩

theorem maxIntegerKey_eq_none [NSScanner] {keys : List String} {key : String} (member : key ∈ keys)
    (name : integerKey key = none) : maxIntegerKey keys = none := by
  cases found : maxIntegerKey keys with
  | none => rfl
  | some largest =>
    obtain ⟨index, read, -⟩ := (maxIntegerKey_spec found).1 key member
    rw [name] at read
    cases read

theorem maxIntegerKey_isSome [NSScanner] {keys : List String} {bound : Nat}
    (integers : ∀ key ∈ keys, ∃ index, integerKey key = some index ∧ index ≤ bound) :
    ∃ largest, maxIntegerKey keys = some largest ∧ largest ≤ bound := by
  induction keys with
  | nil => exact ⟨0, rfl, Nat.zero_le _⟩
  | cons key keys ih =>
    obtain ⟨index, first, small⟩ := integers key List.mem_cons_self
    obtain ⟨rest, others, below⟩ := ih fun other member => integers other (List.mem_cons_of_mem _ member)
    exact ⟨max index rest, by simp [maxIntegerKey, first, others], max_le small below⟩

/-! ## Fields of a stored dictionary -/

def storedNode (value : Value Double) : Option (Node Double) :=
  match nodeFrom value with
  | .ok node => if node.isEmpty then none else some node
  | .error _ => none

def readBack [NSScanner] (value : Value Double) : Option (Value Double) := (storedNode value).map Node.val

theorem nodesFromDict_cons {entry : Sigma fun _ : String => Value Double}
    {entries : List (Sigma fun _ : String => Value Double)}
    {children : List (Sigma fun _ : String => Node Double)}
    (stored : nodesFromDict (entry :: entries) = .ok children) :
    ∃ node rest, nodeFrom entry.2 = .ok node ∧ nodesFromDict entries = .ok rest ∧
      children = if node.isEmpty then rest else ⟨entry.1, node⟩ :: rest := by
  obtain ⟨key, value⟩ := entry
  rw [nodesFromDict] at stored
  obtain ⟨node, first, stored⟩ := Transition.ok_of_bind stored
  obtain ⟨rest, others, same⟩ := Transition.ok_of_bind stored
  exact ⟨node, rest, first, others, (Except.ok.inj same).symm⟩

theorem keys_nodesFromDict {entries : List (Sigma fun _ : String => Value Double)}
    {children : List (Sigma fun _ : String => Node Double)}
    (stored : nodesFromDict entries = .ok children) : children.keys.Sublist entries.keys := by
  induction entries generalizing children with
  | nil =>
    cases stored
    exact List.Sublist.refl _
  | cons entry entries ih =>
    obtain ⟨node, rest, -, others, rfl⟩ := nodesFromDict_cons stored
    split
    · exact (ih others).cons _
    · exact (ih others).cons_cons _

theorem dlookup_nodesFromDict {entries : List (Sigma fun _ : String => Value Double)}
    {children : List (Sigma fun _ : String => Node Double)} (distinct : entries.NodupKeys)
    (stored : nodesFromDict entries = .ok children) (key : String) :
    children.dlookup key = (entries.dlookup key).bind storedNode := by
  induction entries generalizing children with
  | nil =>
    cases stored
    rfl
  | cons entry entries ih =>
    obtain ⟨absent, others⟩ := List.nodupKeys_cons.mp distinct
    obtain ⟨node, rest, first, remaining, rfl⟩ := nodesFromDict_cons stored
    obtain ⟨name, value⟩ := entry
    by_cases same : key = name
    · -- A field that is not stored must not uncover a later one under its key: there is none.
      subst same
      have dropped : rest.dlookup key = none :=
        List.dlookup_eq_none.mpr fun member => absent ((keys_nodesFromDict remaining).subset member)
      cases blank : node.isEmpty <;> simp [storedNode, first, blank, dropped]
    · have skip := ih others remaining
      rw [List.dlookup_cons_ne entries ⟨name, value⟩ same, ← skip]
      split
      · rfl
      · exact List.dlookup_cons_ne rest ⟨name, node⟩ same

theorem nodesFromDict_isOk {entries : List (Sigma fun _ : String => Value Double)}
    (storable : ∀ entry ∈ entries, ∃ node, nodeFrom entry.2 = .ok node) :
    ∃ children, nodesFromDict entries = .ok children := by
  induction entries with
  | nil => exact ⟨[], rfl⟩
  | cons entry entries ih =>
    obtain ⟨key, value⟩ := entry
    obtain ⟨node, first⟩ := storable ⟨key, value⟩ List.mem_cons_self
    obtain ⟨rest, others⟩ := ih fun other member => storable other (List.mem_cons_of_mem _ member)
    exact ⟨_, by rw [nodesFromDict, first, others]; rfl⟩

theorem nodeFrom_ofDict {dict : Dict Double} {node : Node Double}
    (stored : nodeFrom (.ofDict dict) = .ok node) :
    ∃ children, nodesFromDict dict.entries = .ok children ∧ node = .children children := by
  rw [Value.ofDict, nodeFrom] at stored
  obtain ⟨children, found, same⟩ := Transition.ok_of_bind stored
  exact ⟨children, found, (Except.ok.inj same).symm⟩

theorem isEmpty_nodeFrom_ofDict {dict : Dict Double} {node : Node Double}
    (stored : nodeFrom (.ofDict dict) = .ok node) :
    node.isEmpty = true ↔ ∀ key, (dict.lookup key).bind storedNode = none := by
  obtain ⟨children, found, rfl⟩ := nodeFrom_ofDict stored
  have fields := dlookup_nodesFromDict dict.nodupKeys found
  constructor
  · intro blank key
    cases children with
    | nil => exact (fields key).symm
    | cons entry rest => cases blank
  · intro absent
    cases children with
    | nil => rfl
    | cons entry rest =>
      have kept := fields entry.1
      rw [List.dlookup_cons_eq] at kept
      exact absurd (kept.trans (absent entry.1)) (Option.some_ne_none _)

theorem valEntries_eq_map [NSScanner] (entries : List (Sigma fun _ : String => Node Double)) :
    Node.valEntries entries = entries.map fun entry => ⟨entry.1, entry.2.val⟩ := by
  induction entries with
  | nil => rfl
  | cons entry entries ih =>
    obtain ⟨key, node⟩ := entry
    rw [Node.valEntries, ih]
    rfl

theorem keys_valEntries [NSScanner] (entries : List (Sigma fun _ : String => Node Double)) :
    (Node.valEntries entries).keys = entries.keys := by
  rw [valEntries_eq_map]
  simp only [List.keys, List.map_map]
  rfl

theorem dlookup_valEntries [NSScanner] (entries : List (Sigma fun _ : String => Node Double)) (key : String) :
    (Node.valEntries entries).dlookup key = (entries.dlookup key).map Node.val := by
  rw [valEntries_eq_map]
  exact List.dlookup_map₂ (γ := fun _ => Node Double) (δ := fun _ => Value Double)
    (f := fun _ => Node.val) key

/-- No key of the dictionary is an array index, so it is never exported as an array. -/
def Named [NSScanner] (dict : Dict Double) : Prop := ∀ key ∈ dict.keys, integerKey key = none

theorem Named.empty [NSScanner] : Named (∅ : Dict Double) := by
  intro key member
  cases member

theorem Named.set [NSScanner] {dict : Dict Double} (named : Named dict) {key : String}
    (name : isName key = true) (value : Option (Value Double)) : Named (dict.set key value) := by
  intro other member
  rcases Dict.mem_keys_set member with rfl | present
  · exact integerKey_eq_none name
  · exact named other present

def Storable (dict : Dict Double) : Prop :=
  ∀ key value, dict.lookup key = some value → ∃ node, nodeFrom value = .ok node

theorem Storable.empty : Storable (∅ : Dict Double) := by
  intro key value found
  cases found

theorem Storable.set {dict : Dict Double} (storable : Storable dict) (key : String)
    {value : Option (Value Double)} (accepted : ∀ v ∈ value, ∃ node, nodeFrom v = .ok node) :
    Storable (dict.set key value) := by
  intro other v found
  rw [Dict.lookup_set] at found
  split at found
  · exact accepted v found
  · exact storable other v found

theorem Storable.setSome {dict : Dict Double} (storable : Storable dict) (key : String)
    {value : Value Double} (accepted : ∃ node, Firebase.nodeFrom value = .ok node) :
    Storable (dict.set key (some value)) := by
  apply storable.set
  intro v member
  obtain rfl := Option.mem_some_iff.mp member
  exact accepted

theorem Storable.setField {Field : Type} {dict : Dict Double} (storable : Storable dict) (key : String)
    {make : Field → Value Double} (scalar : ∀ v, ∃ node, Firebase.nodeFrom (make v) = .ok node)
    (field : Option Field) : Storable (dict.set key (field.map make)) := by
  apply storable.set
  intro v member
  obtain ⟨value, -, rfl⟩ := Option.mem_map.mp member
  exact scalar value

theorem Storable.nodeFrom {dict : Dict Double} (storable : Storable dict) :
    ∃ node, nodeFrom (.ofDict dict) = .ok node := by
  obtain ⟨children, found⟩ := nodesFromDict_isOk fun entry (member : entry ∈ dict.entries) =>
    storable entry.1 entry.2 (AList.mem_lookup_iff.mpr member)
  exact ⟨.children children, by rw [Value.ofDict, Firebase.nodeFrom, found]; rfl⟩

/-! ## Children as they are exported -/

theorem exportChildren_array [NSScanner] {obj : List (Sigma fun _ : String => Value Double)}
    (present : obj ≠ [])
    (dense : ∀ key ∈ obj.keys, ∃ index, integerKey key = some index ∧ index < 2 * obj.length) :
    ∃ items, exportChildren obj = .array items := by
  have positive := List.length_pos_of_ne_nil present
  have bounded : ∀ key ∈ obj.keys, ∃ index,
      integerKey key = some index ∧ index ≤ 2 * obj.length - 1 := by
    intro key member
    obtain ⟨index, read, below⟩ := dense key member
    exact ⟨index, read, by omega⟩
  obtain ⟨largest, found, small⟩ := maxIntegerKey_isSome bounded
  have below : largest < 2 * obj.length := by omega
  rw [exportChildren, found]
  simp only [List.isEmpty_iff, present, if_false, below, if_true]
  exact ⟨_, rfl⟩

/-- The exported values of the children, before a dense map becomes an array. -/
def valMap [NSScanner] (children : Children Double) : Dict Double :=
  ⟨Node.valEntries children.entries, by
    unfold List.NodupKeys
    rw [keys_valEntries]
    exact children.nodupKeys⟩

theorem keys_valMap [NSScanner] (children : Children Double) : (valMap children).keys = children.keys :=
  keys_valEntries children.entries

theorem lookup_valMap [NSScanner] (children : Children Double) (key : String) :
    (valMap children).lookup key = (children.lookup key).map Node.val :=
  dlookup_valEntries children.entries key

theorem length_valEntries [NSScanner] (entries : List (Sigma fun _ : String => Node Double)) :
    (Node.valEntries entries).length = entries.length := by
  rw [valEntries_eq_map, List.length_map]

theorem length_entries (children : Children Double) : children.entries.length = children.size := by
  unfold Store.Map.size AList.keys
  rw [List.keys, List.length_map]

theorem val_dict [NSScanner] {children : Children Double} {key : String} (member : key ∈ children.keys)
    (sparse : ∀ index, integerKey key = some index → 2 * children.size ≤ index) :
    (Node.ofChildMap children).val = .ofDict (valMap children) := by
  have first : key ∈ (Node.valEntries children.entries).keys := by
    rw [keys_valEntries]
    exact member
  have present : (Node.valEntries children.entries).isEmpty = false := by
    cases listed : Node.valEntries children.entries with
    | nil =>
      rw [listed] at first
      cases first
    | cons entry rest => rfl
  unfold Node.ofChildMap
  rw [Node.val, exportChildren, present]
  cases found : maxIntegerKey (Node.valEntries children.entries).keys with
  | none => rfl
  | some largest =>
    obtain ⟨index, read, below⟩ := (maxIntegerKey_spec found).1 key first
    have large := sparse index read
    have above : ¬ largest < 2 * (Node.valEntries children.entries).length := by
      rw [length_valEntries, length_entries]
      omega
    simp only [Bool.false_eq_true, if_false, above]
    rfl

theorem val_array [NSScanner] {children : Children Double} (present : children.keys ≠ [])
    (dense : ∀ key ∈ children.keys, ∃ index, integerKey key = some index ∧ index < 2 * children.size) :
    ∃ items, (Node.ofChildMap children).val = .array items := by
  have listed : Node.valEntries children.entries ≠ [] := by
    intro none
    apply present
    unfold AList.keys
    rw [← keys_valEntries, none]
    rfl
  apply exportChildren_array listed
  rw [keys_valEntries, length_valEntries, length_entries]
  exact dense

theorem asDict_exportChildren [NSScanner] {obj : List (Sigma fun _ : String => Value Double)}
    {dict : Dict Double}
    (cast : (exportChildren obj).asDict = some dict) : obj.toAList = dict := by
  unfold exportChildren at cast
  split at cast
  · cases cast
  · split at cast
    · split at cast
      · cases cast
      · exact Option.some.inj cast
    · exact Option.some.inj cast

theorem lookup_of_asDict_val [NSScanner] {node : Node Double} {dict : Dict Double}
    (cast : node.val.asDict = some dict)
    (key : String) : dict.lookup key = (node.childMap.lookup key).map Node.val := by
  cases node with
  | leaf value => cases value <;> cases cast
  | children entries =>
    obtain rfl := asDict_exportChildren cast
    unfold Node.childMap
    rw [AList.lookup_to_alist, AList.lookup_to_alist, dlookup_valEntries]

theorem bind_lookup_of_asDict_val [NSScanner] {Field : Type} {node : Node Double} {dict : Dict Double}
    (cast : node.val.asDict = some dict) (key : String) {read : Value Double → Option Field}
    (missing : read .null = none) : (dict.lookup key).bind read = read (node.getImmediateChild key).val := by
  rw [lookup_of_asDict_val cast]
  unfold Node.getImmediateChild
  cases node.childMap.lookup key with
  | none => exact missing.symm
  | some child => rfl

theorem val_eq_string [NSScanner] {node : Node Double} {text : String} (exported : node.val = .string text) :
    node = .leaf (.string text) := by
  cases node with
  | leaf value =>
    cases value with
    | string other =>
      cases exported
      rfl
    | number n => cases exported
  | children entries =>
    -- Children are exported as nothing, as an array or as a dictionary.
    rw [Node.val, exportChildren] at exported
    split at exported
    · cases exported
    · split at exported
      · split at exported <;> cases exported
      · cases exported

theorem lookup_of_val_array [NSScanner] {node : Node Double} {items : List (Value Double)} {text : String}
    (exported : node.val = .array items) (member : .string text ∈ items) :
    ∃ key, node.childMap.lookup key = some (.leaf (.string text)) := by
  cases node with
  | leaf value => cases value <;> cases exported
  | children entries =>
    rw [Node.val, exportChildren] at exported
    split at exported
    · cases exported
    · split at exported
      next largest _ =>
        split at exported
        · cases exported
          obtain ⟨index, -, read⟩ := List.mem_map.mp member
          rw [dlookup_valEntries] at read
          -- A hole holds no string, so there is a child under this index.
          cases found : entries.dlookup (toString index) with
          | none =>
            rw [found] at read
            cases read
          | some child =>
            rw [found] at read
            refine ⟨toString index, ?_⟩
            unfold Node.childMap
            rw [AList.lookup_to_alist, found, val_eq_string read]
        · cases exported
      next => cases exported

/-- A named dictionary is read back field by field, unless nothing of it is stored. -/
theorem asDict_val_of_named [NSScanner] {dict : Dict Double} (named : Named dict) {node : Node Double}
    (stored : nodeFrom (.ofDict dict) = .ok node) (present : node.isEmpty = false) :
    ∃ read, node.val.asDict = some read ∧
      ∀ key, read.lookup key = (dict.lookup key).bind readBack := by
  obtain ⟨entries, found, rfl⟩ := nodeFrom_ofDict stored
  have distinct : entries.NodupKeys := (keys_nodesFromDict found).nodup dict.nodupKeys
  cases entries with
  | nil => cases present
  | cons entry entries =>
    have name : integerKey entry.1 = none :=
      named entry.1 ((keys_nodesFromDict found).subset (by simp))
    have first : entry.1 ∈ AList.keys ⟨entry :: entries, distinct⟩ := List.mem_cons_self
    have exported := val_dict first fun index read => by
      rw [name] at read
      cases read
    refine ⟨_, (congrArg Value.asDict exported).trans (Value.asDict_ofDict _), fun key => ?_⟩
    rw [lookup_valMap]
    have fields := dlookup_nodesFromDict dict.nodupKeys found key
    unfold AList.lookup
    rw [fields]
    cases dict.entries.dlookup key <;> rfl

end ProjectF02.Firebase
