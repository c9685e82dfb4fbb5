import ProjectF02.SortedDictionary.TreeEnumerator

/-! Sorted dictionaries that change from arrays to a tree as they grow.

Transcribed from `FImmutableSortedDictionary` and from the change in
`FArraySortedDictionary`. A dictionary is followed from its making on through any
sequence of insertions and removals. What it is to hold is a partial function of
the keys. The comparator is that of a linear order: keys that compare equal are
equal.
-/

set_option autoImplicit false

namespace ProjectF02.SortedDictionary
open Store Sorting

variable {Key Val : Type}

inductive FImmutableSortedDictionary (Key Val : Type) where
  | array (dictionary : FArraySortedDictionary Key Val)
  | tree (dictionary : FTreeSortedDictionary Key Val)

inductive SortedEnumerator (Key Val : Type) where
  | array (enumerator : FArraySortedDictionaryEnumerator Key)
  | tree (enumerator : FTreeSortedDictionaryEnumerator Key Val)

def SortedEnumerator.objectAt : SortedEnumerator Key Val → ℕ → Option Key
  | .array enumerator => enumerator.objectAt
  | .tree enumerator => enumerator.objectAt

namespace FImmutableSortedDictionary

/-- `SORTED_DICTIONARY_ARRAY_TO_RB_TREE_SIZE_THRESHOLD`. -/
def threshold : ℕ := 25

def dictionaryWithComparator : FImmutableSortedDictionary Key Val := .array {}

def count : FImmutableSortedDictionary Key Val → ℕ
  | .array dictionary => dictionary.count
  | .tree dictionary => dictionary.root.count

def isEmpty : FImmutableSortedDictionary Key Val → Bool
  | .array dictionary => dictionary.keys.length = 0
  | .tree dictionary => dictionary.root.isEmpty

def minKey : FImmutableSortedDictionary Key Val → Option Key
  | .array dictionary => dictionary.keys.head?
  | .tree dictionary => dictionary.root.minKey

def maxKey : FImmutableSortedDictionary Key Val → Option Key
  | .array dictionary => dictionary.keys.getLast?
  | .tree dictionary => dictionary.root.maxKey

def enumerateKeysAndObjects {State : Type} (reverse : Bool) (block : State → Key → Val → State × Bool)
    (state : State) : FImmutableSortedDictionary Key Val → State × Bool
  | .array dictionary =>
    FLLRBNode.enumerate block state (if reverse then dictionary.entries.reverse else dictionary.entries)
  | .tree dictionary =>
    if reverse then dictionary.root.reverseTraversal block state else dictionary.root.inorderTraversal block state

section
variable [LinearOrder Key]

/-- The routine also stands for the order in which a dictionary gives its keys. -/
def fromDictionary (routine : Routine (Key × Val)) (dictionary : Entries Key Val) :
    Except DictionaryException (FImmutableSortedDictionary Key Val) :=
  if dictionary.length ≤ threshold then (FArraySortedDictionary.fromDictionary routine dictionary).map .array
  else (FTreeSortedDictionary.fromDictionary routine dictionary).map .tree

def insertKey (routine : Routine (Key × Val)) (key : Key) (value : Val) :
    FImmutableSortedDictionary Key Val → Except DictionaryException (FImmutableSortedDictionary Key Val)
  | .array dictionary =>
    match dictionary.findKey key with
    | none =>
      if threshold ≤ dictionary.count then
        (FTreeSortedDictionary.fromDictionary routine (dictionary.entries ++ [(key, value)])).map .tree
      else .ok (.array (dictionary.insertNewKey key value))
    | some pos => .ok (.array (dictionary.replaceKey pos key value))
  | .tree dictionary => .ok (.tree (dictionary.insertKey key value))

def removeKey (key : Key) : FImmutableSortedDictionary Key Val → FImmutableSortedDictionary Key Val
  | .array dictionary => .array (dictionary.removeKey key)
  | .tree dictionary => .tree (dictionary.removeKey key)

def get : FImmutableSortedDictionary Key Val → Key → Option Val
  | .array dictionary => dictionary.get
  | .tree dictionary => dictionary.get

def contains : FImmutableSortedDictionary Key Val → Key → Bool
  | .array dictionary => fun key => (dictionary.findKey key).isSome
  | .tree dictionary => dictionary.contains

def getPredecessorKey : FImmutableSortedDictionary Key Val → Key → Except DictionaryException (Option Key)
  | .array dictionary => dictionary.getPredecessorKey
  | .tree dictionary => dictionary.getPredecessorKey

def keyEnumerator : FImmutableSortedDictionary Key Val → SortedEnumerator Key Val
  | .array dictionary => .array dictionary.keyEnumerator
  | .tree dictionary => .tree (.initWithImmutableSortedDictionary dictionary none false)

def reverseKeyEnumerator : FImmutableSortedDictionary Key Val → SortedEnumerator Key Val
  | .array dictionary => .array dictionary.reverseKeyEnumerator
  | .tree dictionary => .tree (.initWithImmutableSortedDictionary dictionary none true)

def keyEnumeratorFrom : FImmutableSortedDictionary Key Val → Key → SortedEnumerator Key Val
  | .array dictionary => fun startKey => .array (dictionary.keyEnumeratorFrom startKey)
  | .tree dictionary => fun startKey => .tree (.initWithImmutableSortedDictionary dictionary (some startKey) false)

def reverseKeyEnumeratorFrom : FImmutableSortedDictionary Key Val → Key → SortedEnumerator Key Val
  | .array dictionary => fun startKey => .array (dictionary.reverseKeyEnumeratorFrom startKey)
  | .tree dictionary => fun startKey => .tree (.initWithImmutableSortedDictionary dictionary (some startKey) true)

/-- The comparison of the values ends at the first difference. -/
def isEqual [DecidableEq Val] (dictionary other : FImmutableSortedDictionary Key Val) : Bool :=
  if dictionary.count ≠ other.count then false
  else
    let block (isEqual : Bool) (key : Key) (value : Val) : Bool × Bool :=
      (isEqual && decide (other.get key = some value), !(isEqual && decide (other.get key = some value)))
    (dictionary.enumerateKeysAndObjects false block true).1

end

def entries : FImmutableSortedDictionary Key Val → Entries Key Val
  | .array dictionary => dictionary.entries
  | .tree dictionary => dictionary.entries

section
variable [LinearOrder Key]

/-- An array is kept as long as it is small, and a tree is balanced. -/
def Valid : FImmutableSortedDictionary Key Val → Prop
  | .array dictionary => dictionary.Valid ∧ dictionary.count ≤ threshold
  | .tree dictionary => dictionary.Valid

theorem Valid.sorted {dictionary : FImmutableSortedDictionary Key Val} (valid : dictionary.Valid) :
    dictionary.entries.Sorted := by
  cases dictionary with
  | array dictionary => exact valid.1.sorted
  | tree dictionary => exact valid.1

theorem get_eq {dictionary : FImmutableSortedDictionary Key Val} (valid : dictionary.Valid) (key : Key) :
    dictionary.get key = dictionary.entries.get key := by
  cases dictionary with
  | array dictionary => exact FArraySortedDictionary.get_eq valid.1 key
  | tree dictionary => exact FTreeSortedDictionary.get_eq valid key

theorem length_entries {dictionary : FImmutableSortedDictionary Key Val} (valid : dictionary.Valid) :
    dictionary.entries.length = dictionary.count := by
  cases dictionary with
  | array dictionary => exact FArraySortedDictionary.length_entries valid.1.paired
  | tree dictionary => exact FLLRBNode.length_entries dictionary.root

theorem valid_fromDictionary (routine : Routine (Key × Val)) {dictionary : Entries Key Val}
    (distinct : (dictionary.map Prod.fst).Nodup) :
    ∃ built, fromDictionary routine dictionary = .ok built ∧ built.Valid ∧ built.entries.Perm dictionary := by
  rw [fromDictionary]
  split
  next few =>
    obtain ⟨built, made, valid, same⟩ := FArraySortedDictionary.fromDictionary_spec routine distinct
    have counted := FArraySortedDictionary.length_entries valid.paired
    exact ⟨.array built, by rw [made]; rfl, ⟨valid, by rw [← counted, same.length_eq]; exact few⟩, same⟩
  next many =>
    obtain ⟨built, made, valid, same⟩ := FTreeSortedDictionary.fromDictionary_spec routine distinct
    exact ⟨.tree built, by rw [made]; rfl, valid, same⟩

theorem Valid.insertKey {dictionary : FImmutableSortedDictionary Key Val} (valid : dictionary.Valid)
    (routine : Routine (Key × Val)) (key : Key) (value : Val) :
    ∃ next, dictionary.insertKey routine key value = .ok next ∧ next.Valid ∧
      next.entries = dictionary.entries.insert key value := by
  cases dictionary with
  | tree dictionary =>
    exact ⟨_, rfl, FTreeSortedDictionary.Valid.insertKey valid key value,
      FTreeSortedDictionary.entries_insertKey valid key value⟩
  | array dictionary =>
    obtain ⟨arrays, small⟩ := valid
    have sorted := arrays.sorted.insert key value
    rw [FImmutableSortedDictionary.insertKey]
    split
    next missing =>
      have absent := FArraySortedDictionary.isSome_findKey arrays key
      rw [missing, Option.isSome_none] at absent
      have apart : ∀ entry ∈ dictionary.entries, entry.1 ≠ key := fun entry member =>
        Entries.ne_of_get_eq_none (Option.isNone_iff_eq_none.mp (Option.isSome_eq_false_iff.mp absent.symm)) member
      split
      next full =>
        have same := ((Entries.perm_insert apart value).trans (List.perm_append_singleton _ _).symm).symm
        have distinct := (same.map Prod.fst).nodup_iff.mpr sorted.nodup_keys
        obtain ⟨built, made, tree, held⟩ := FTreeSortedDictionary.fromDictionary_spec routine distinct
        exact ⟨.tree built, by rw [made]; rfl, tree, tree.1.eq_of_perm sorted (held.trans same)⟩
      next room =>
        refine ⟨_, rfl, ⟨?_, ?_⟩, ?_⟩
        · rw [FArraySortedDictionary.insertNewKey_eq arrays missing]
          exact FArraySortedDictionary.valid_ofEntries sorted
        · exact le_trans List.length_insertIdx_le_succ (Nat.succ_le_of_lt (not_le.mp room))
        · rw [entries, FArraySortedDictionary.insertNewKey_eq arrays missing,
            FArraySortedDictionary.entries_ofEntries]
          rfl
    next pos found =>
      refine ⟨_, rfl, ⟨?_, ?_⟩, ?_⟩
      · rw [FArraySortedDictionary.replaceKey_eq arrays found]
        exact FArraySortedDictionary.valid_ofEntries sorted
      · exact le_trans (le_of_eq List.length_set) small
      · rw [entries, FArraySortedDictionary.replaceKey_eq arrays found, FArraySortedDictionary.entries_ofEntries]
        rfl

theorem Valid.removeKey {dictionary : FImmutableSortedDictionary Key Val} (valid : dictionary.Valid)
    (key : Key) :
    (dictionary.removeKey key).Valid ∧ (dictionary.removeKey key).entries = dictionary.entries.erase key := by
  cases dictionary with
  | tree dictionary =>
    exact ⟨FTreeSortedDictionary.Valid.removeKey valid key, FTreeSortedDictionary.entries_removeKey valid key⟩
  | array dictionary =>
    obtain ⟨arrays, small⟩ := valid
    have counted := FArraySortedDictionary.length_entries arrays.paired
    rw [FImmutableSortedDictionary.removeKey, FArraySortedDictionary.removeKey_eq arrays]
    refine ⟨⟨FArraySortedDictionary.valid_ofEntries (arrays.sorted.erase key), ?_⟩,
      FArraySortedDictionary.entries_ofEntries _⟩
    rw [FArraySortedDictionary.count, FArraySortedDictionary.ofEntries, List.length_map]
    exact le_trans (Entries.erase_sublist dictionary.entries key).length_le (counted ▸ small)

/-! ## Runs of changes -/

inductive Change (Key Val : Type) where
  | insert (key : Key) (value : Val)
  | remove (key : Key)

def Change.act (held : Key → Option Val) : Change Key Val → Key → Option Val
  | .insert key value => fun other => if key = other then some value else held other
  | .remove key => fun other => if key = other then none else held other

def change (routine : Routine (Key × Val)) (dictionary : FImmutableSortedDictionary Key Val) :
    Change Key Val → Except DictionaryException (FImmutableSortedDictionary Key Val)
  | .insert key value => dictionary.insertKey routine key value
  | .remove key => .ok (dictionary.removeKey key)

def make (routine : Routine (Key × Val)) (dictionary : Entries Key Val) (changes : List (Change Key Val)) :
    Except DictionaryException (FImmutableSortedDictionary Key Val) := do
  changes.foldlM (change routine) (← fromDictionary routine dictionary)

def meaning (dictionary : Entries Key Val) (changes : List (Change Key Val)) : Key → Option Val :=
  changes.foldl Change.act dictionary.get

structure Represents (dictionary : FImmutableSortedDictionary Key Val) (held : Key → Option Val) : Prop where
  valid : dictionary.Valid
  same : ∀ key, dictionary.entries.get key = held key

section
variable {dictionary : FImmutableSortedDictionary Key Val} {held : Key → Option Val}

theorem Represents.change (represents : dictionary.Represents held) (routine : Routine (Key × Val))
    (next : Change Key Val) :
    ∃ changed, dictionary.change routine next = .ok changed ∧ changed.Represents (next.act held) := by
  cases next with
  | insert key value =>
    obtain ⟨changed, made, valid, entries⟩ := represents.valid.insertKey routine key value
    refine ⟨changed, made, valid, fun other => ?_⟩
    rw [entries, Entries.get_insert, represents.same]
    rfl
  | remove key =>
    obtain ⟨valid, entries⟩ := represents.valid.removeKey key
    refine ⟨_, rfl, valid, fun other => ?_⟩
    rw [entries, represents.valid.sorted.get_erase, represents.same]
    rfl

theorem Represents.changes (represents : dictionary.Represents held) (routine : Routine (Key × Val))
    (changes : List (Change Key Val)) :
    ∃ changed, changes.foldlM (FImmutableSortedDictionary.change routine) dictionary = .ok changed ∧
      changed.Represents (changes.foldl Change.act held) := by
  induction changes generalizing dictionary held with
  | nil => exact ⟨dictionary, rfl, represents⟩
  | cons next later ih =>
    obtain ⟨middle, made, kept⟩ := represents.change routine next
    obtain ⟨changed, rest, reached⟩ := ih kept
    refine ⟨changed, ?_, reached⟩
    rw [List.foldlM_cons, made]
    exact rest

theorem exists_make (routine : Routine (Key × Val)) {entries : Entries Key Val}
    (distinct : (entries.map Prod.fst).Nodup) (changes : List (Change Key Val)) :
    ∃ changed, make routine entries changes = .ok changed ∧ changed.Represents (meaning entries changes) := by
  obtain ⟨built, made, valid, same⟩ := valid_fromDictionary routine distinct
  obtain ⟨changed, rest, reached⟩ :=
    Represents.changes ⟨valid, Entries.get_eq_of_perm same distinct⟩ routine changes
  refine ⟨changed, ?_, reached⟩
  rw [make, made]
  exact rest

/-- A tree stays a tree, also when it gets small. -/
theorem tree_of_changes (routine : Routine (Key × Val)) (changes : List (Change Key Val))
    (tree : FTreeSortedDictionary Key Val) {changed : FImmutableSortedDictionary Key Val}
    (made : changes.foldlM (FImmutableSortedDictionary.change routine) (.tree tree) = .ok changed) :
    ∃ tree, changed = .tree tree := by
  induction changes generalizing tree with
  | nil =>
    cases made
    exact ⟨tree, rfl⟩
  | cons next later ih =>
    cases next with
    | insert key value => exact ih _ made
    | remove key => exact ih _ made

theorem tree_of_many (routine : Routine (Key × Val)) {entries : Entries Key Val}
    (many : threshold < entries.length) (changes : List (Change Key Val))
    {changed : FImmutableSortedDictionary Key Val} (made : make routine entries changes = .ok changed) :
    ∃ tree, changed = .tree tree := by
  rw [make, fromDictionary, if_neg (not_le.mpr many)] at made
  cases built : FTreeSortedDictionary.fromDictionary routine entries with
  | error failure =>
    rw [built] at made
    cases made
  | ok tree =>
    rw [built] at made
    exact tree_of_changes routine changes tree made

theorem array_of_few (routine : Routine (Key × Val)) {entries : Entries Key Val}
    (few : entries.length ≤ threshold) {built : FImmutableSortedDictionary Key Val}
    (made : make routine entries [] = .ok built) : ∃ array, built = .array array := by
  rw [make, fromDictionary, if_pos few] at made
  cases filled : FArraySortedDictionary.fromDictionary routine entries with
  | error failure =>
    rw [filled] at made
    cases made
  | ok array =>
    rw [filled] at made
    cases made
    exact ⟨array, rfl⟩

theorem Represents.keys (represents : dictionary.Represents held) :
    (dictionary.entries.map Prod.fst).Pairwise (· < ·) ∧
      ∀ key, key ∈ dictionary.entries.map Prod.fst ↔ (held key).isSome := by
  refine ⟨List.pairwise_map.mpr represents.valid.sorted, fun key => ?_⟩
  rw [Entries.mem_keys_iff, represents.same]

theorem Represents.get (represents : dictionary.Represents held) (key : Key) :
    dictionary.get key = held key := (get_eq represents.valid key).trans (represents.same key)

theorem Represents.contains (represents : dictionary.Represents held) (key : Key) :
    dictionary.contains key = (held key).isSome := by
  rw [← represents.same]
  cases dictionary with
  | array dictionary => exact FArraySortedDictionary.isSome_findKey represents.valid.1 key
  | tree dictionary => exact congrArg Option.isSome (FTreeSortedDictionary.get_eq represents.valid key)

theorem minKey_eq (valid : dictionary.Valid) : dictionary.minKey = (dictionary.entries.map Prod.fst).head? := by
  cases dictionary with
  | array dictionary => exact congrArg List.head? (FArraySortedDictionary.keys_eq valid.1.paired)
  | tree dictionary => exact (FLLRBNode.minKey_eq dictionary.root).trans List.head?_map.symm

theorem maxKey_eq (valid : dictionary.Valid) :
    dictionary.maxKey = (dictionary.entries.map Prod.fst).getLast? := by
  cases dictionary with
  | array dictionary => exact congrArg List.getLast? (FArraySortedDictionary.keys_eq valid.1.paired)
  | tree dictionary => exact (FLLRBNode.maxKey_eq dictionary.root).trans List.getLast?_map.symm

theorem isEmpty_iff (valid : dictionary.Valid) : dictionary.isEmpty = true ↔ dictionary.entries = [] := by
  cases dictionary with
  | array dictionary =>
    have counted := FArraySortedDictionary.length_entries valid.1.paired
    rw [isEmpty, decide_eq_true_iff, ← List.length_eq_zero_iff, entries, counted]
    rfl
  | tree dictionary => exact FLLRBNode.entries_eq_nil_iff.symm

theorem getPredecessorKey_eq (valid : dictionary.Valid) (key : Key) :
    dictionary.getPredecessorKey key =
      if (dictionary.entries.get key).isSome then .ok (dictionary.entries.predecessor key)
      else .error .nonexistentKey := by
  cases dictionary with
  | array dictionary => exact FArraySortedDictionary.getPredecessorKey_eq valid.1 key
  | tree dictionary => exact FTreeSortedDictionary.getPredecessorKey_eq valid key

theorem objectAt_keyEnumerator (valid : dictionary.Valid) (calls : ℕ) :
    dictionary.keyEnumerator.objectAt calls = (dictionary.entries.map Prod.fst)[calls]? := by
  cases dictionary with
  | array dictionary => exact FArraySortedDictionary.objectAt_keyEnumerator valid.1.paired calls
  | tree dictionary => exact FTreeSortedDictionaryEnumerator.objectAt_init_none dictionary false calls

theorem objectAt_keyEnumeratorFrom (valid : dictionary.Valid) (startKey : Key) (calls : ℕ) :
    (dictionary.keyEnumeratorFrom startKey).objectAt calls =
      (keysFrom startKey false (dictionary.entries.map Prod.fst))[calls]? := by
  cases dictionary with
  | array dictionary => exact FArraySortedDictionary.objectAt_keyEnumeratorFrom valid.1 startKey calls
  | tree dictionary => exact FTreeSortedDictionaryEnumerator.objectAt_init valid.1 startKey false calls

theorem objectAt_reverseKeyEnumeratorFrom (valid : dictionary.Valid) (startKey : Key) (calls : ℕ) :
    (dictionary.reverseKeyEnumeratorFrom startKey).objectAt calls =
      (keysFrom startKey true (dictionary.entries.map Prod.fst))[calls]? := by
  cases dictionary with
  | array dictionary => exact FArraySortedDictionary.objectAt_reverseKeyEnumeratorFrom valid.1 startKey calls
  | tree dictionary => exact FTreeSortedDictionaryEnumerator.objectAt_init valid.1 startKey true calls

omit [LinearOrder Key] in
theorem enumerateKeysAndObjects_eq {State : Type} (reverse : Bool) (block : State → Key → Val → State × Bool)
    (state : State) (dictionary : FImmutableSortedDictionary Key Val) :
    dictionary.enumerateKeysAndObjects reverse block state =
      FLLRBNode.enumerate block state (if reverse then dictionary.entries.reverse else dictionary.entries) := by
  cases dictionary with
  | array dictionary => rfl
  | tree dictionary =>
    cases reverse with
    | false => exact FLLRBNode.inorderTraversal_eq block state dictionary.root
    | true => exact FLLRBNode.reverseTraversal_eq block state dictionary.root

omit [LinearOrder Key] in
theorem enumerate_test (test : Key → Val → Bool) (entries : Entries Key Val) :
    (FLLRBNode.enumerate (fun all key value => (all && test key value, !(all && test key value))) true entries).1 =
      entries.all fun entry => test entry.1 entry.2 := by
  induction entries with
  | nil => rfl
  | cons entry rest ih =>
    obtain ⟨key, value⟩ := entry
    rw [FLLRBNode.enumerate, List.all_cons]
    cases test key value with
    | false => rfl
    | true => exact ih

theorem isEqual_iff [DecidableEq Val] {other : FImmutableSortedDictionary Key Val} (valid : dictionary.Valid)
    (otherValid : other.Valid) : dictionary.isEqual other = true ↔ dictionary.entries = other.entries := by
  have tested := enumerate_test (fun key value => decide (other.get key = some value)) dictionary.entries
  rw [isEqual, ← length_entries valid, ← length_entries otherValid]
  dsimp only
  rw [enumerateKeysAndObjects_eq, if_neg Bool.false_ne_true, tested]
  constructor
  · intro equal
    split at equal
    · cases equal
    next many =>
      refine valid.sorted.eq_of_held otherValid.sorted (not_not.mp many) fun entry member => ?_
      rw [← get_eq otherValid]
      exact of_decide_eq_true (List.all_eq_true.mp equal entry member)
  · intro same
    rw [same, if_neg (not_not.mpr rfl)]
    refine List.all_eq_true.mpr fun entry member => decide_eq_true ?_
    rw [get_eq otherValid]
    exact otherValid.sorted.get_of_mem member

end

/-! ## Results on all runs -/

section
variable (routine : Routine (Key × Val)) {entries : Entries Key Val} (changes : List (Change Key Val))

theorem isEqual_of_changes [DecidableEq Val] (distinct : (entries.map Prod.fst).Nodup)
    (otherRoutine : Routine (Key × Val)) {others : Entries Key Val}
    (otherDistinct : (others.map Prod.fst).Nodup) (otherChanges : List (Change Key Val)) :
    ∃ dictionary other, make routine entries changes = .ok dictionary ∧
      make otherRoutine others otherChanges = .ok other ∧
      (dictionary.isEqual other = true ↔ meaning entries changes = meaning others otherChanges) := by
  obtain ⟨dictionary, made, represents⟩ := exists_make routine distinct changes
  obtain ⟨other, otherMade, otherRepresents⟩ := exists_make otherRoutine otherDistinct otherChanges
  refine ⟨dictionary, other, made, otherMade, (isEqual_iff represents.valid otherRepresents.valid).trans ⟨?_, ?_⟩⟩
  · intro same
    funext key
    rw [← represents.same, same, otherRepresents.same]
  · intro same
    refine represents.valid.sorted.ext otherRepresents.valid.sorted fun key => ?_
    rw [represents.same, same, otherRepresents.same]

def upTo (count : ℕ) : Entries ℕ ℕ := (List.range count).map fun key => (key, key)

/-- A tree that is left with 25 keys, and the array of them. -/
theorem isEqual_of_changes_tree : ∃ (tree : FTreeSortedDictionary ℕ ℕ) (array : FArraySortedDictionary ℕ ℕ),
    make Routine.merge (upTo 26) [.remove 25] = .ok (.tree tree) ∧
      make Routine.merge (upTo 25) [] = .ok (.array array) ∧ isEqual (.tree tree) (.array array) = true := by
  obtain ⟨dictionary, other, made, otherMade, equal⟩ :=
    @isEqual_of_changes ℕ ℕ _ Routine.merge (upTo 26) [.remove 25] _ (by decide) Routine.merge (upTo 25)
      (by decide) []
  obtain ⟨tree, rfl⟩ := tree_of_many Routine.merge (by decide) [.remove 25] made
  obtain ⟨array, rfl⟩ := array_of_few Routine.merge (by decide) otherMade
  refine ⟨tree, array, made, otherMade, equal.mpr ?_⟩
  have last : upTo 26 = upTo 25 ++ [(25, 25)] := by decide
  funext key
  rw [meaning, last, List.foldl_cons, Change.act]
  by_cases removed : 25 = key
  · subst removed
    decide
  · simp [meaning, Entries.get_append, Entries.get, removed]

theorem lookups_of_changes (distinct : (entries.map Prod.fst).Nodup) :
    ∃ dictionary, make routine entries changes = .ok dictionary ∧
      (∀ key, dictionary.get key = meaning entries changes key ∧
        dictionary.contains key = (meaning entries changes key).isSome) ∧
      (dictionary.isEmpty = true ↔ ∀ key, meaning entries changes key = none) ∧
      (∀ key, dictionary.minKey = some key ↔ IsLeast {key | (meaning entries changes key).isSome} key) ∧
      ∀ key, dictionary.maxKey = some key ↔ IsGreatest {key | (meaning entries changes key).isSome} key := by
  obtain ⟨dictionary, made, represents⟩ := exists_make routine distinct changes
  obtain ⟨increasing, listed⟩ := represents.keys
  have same : {key | (meaning entries changes key).isSome} = {key | key ∈ dictionary.entries.map Prod.fst} :=
    Set.ext fun key => (listed key).symm
  refine ⟨dictionary, made, fun key => ⟨represents.get key, represents.contains key⟩,
    (isEmpty_iff represents.valid).trans ⟨?_, ?_⟩, fun key => ?_, fun key => ?_⟩
  · intro empty key
    rw [← represents.same, empty]
    rfl
  · intro nothing
    have none : dictionary.entries.map Prod.fst = [] := by
      refine List.eq_nil_iff_forall_not_mem.mpr fun key member => ?_
      rw [listed, nothing key] at member
      cases member
    exact List.map_eq_nil_iff.mp none
  · rw [minKey_eq represents.valid, same, Entries.head?_eq_some_iff increasing]
  · rw [maxKey_eq represents.valid, same, Entries.getLast?_eq_some_iff increasing]

theorem lookups_of_changes_replaced : ∃ dictionary : FImmutableSortedDictionary ℕ ℕ,
    make Routine.merge [(2, 7), (1, 8)] [.insert 1 9, .remove 2] = .ok dictionary ∧
      dictionary.get 1 = some 9 ∧ dictionary.contains 2 = false := by
  obtain ⟨dictionary, made, found, -⟩ :=
    @lookups_of_changes ℕ ℕ _ Routine.merge [(2, 7), (1, 8)] [.insert 1 9, .remove 2] (by decide)
  exact ⟨dictionary, made, (found 1).1.trans rfl, (found 2).2.trans rfl⟩

theorem checks_of_changes (distinct : (entries.map Prod.fst).Nodup) :
    ∃ dictionary, make routine entries changes = .ok dictionary ∧
      match dictionary with
      | .array dictionary => dictionary.count ≤ threshold
      | .tree dictionary =>
        dictionary.root.isRed = false ∧ (∃ height, dictionary.root.check = .ok height) ∧
          dictionary.root.checkMaxDepth = .ok true := by
  obtain ⟨dictionary, made, represents⟩ := exists_make routine distinct changes
  refine ⟨dictionary, made, ?_⟩
  cases dictionary with
  | array dictionary => exact represents.valid.2
  | tree dictionary =>
    obtain ⟨height, balanced⟩ := represents.valid.2
    exact ⟨balanced.isRed_eq, ⟨height, FLLRBNode.check_eq_ok_iff.mpr ⟨_, balanced⟩⟩,
      FLLRBNode.checkMaxDepth_of_balanced balanced⟩

theorem checks_of_changes_many : ∃ tree : FTreeSortedDictionary ℕ ℕ,
    make Routine.merge ((List.range 30).map fun key => (key, key)) [.remove 7] = .ok (.tree tree) ∧
      tree.root.checkMaxDepth = .ok true := by
  obtain ⟨dictionary, made, checks⟩ :=
    @checks_of_changes ℕ ℕ _ Routine.merge ((List.range 30).map fun key => (key, key)) [.remove 7] (by decide)
  obtain ⟨tree, rfl⟩ := tree_of_many Routine.merge (by decide) [.remove 7] made
  exact ⟨tree, made, checks.2.2⟩

theorem getPredecessorKey_of_changes (distinct : (entries.map Prod.fst).Nodup) :
    ∃ dictionary, make routine entries changes = .ok dictionary ∧
      ∀ key, if (meaning entries changes key).isSome then
          ∃ previous, dictionary.getPredecessorKey key = .ok previous ∧
            ∀ other, previous = some other ↔
              IsGreatest {smaller | smaller < key ∧ (meaning entries changes smaller).isSome} other
        else dictionary.getPredecessorKey key = .error .nonexistentKey := by
  obtain ⟨dictionary, made, represents⟩ := exists_make routine distinct changes
  refine ⟨dictionary, made, fun key => ?_⟩
  rw [getPredecessorKey_eq represents.valid]
  simp only [← represents.same]
  split
  · exact ⟨_, rfl, fun other => represents.valid.sorted.predecessor_eq_some_iff⟩
  · rfl

theorem getPredecessorKey_of_changes_removed : ∃ dictionary : FImmutableSortedDictionary ℕ ℕ,
    make Routine.merge [(2, 7), (1, 8), (3, 9)] [.remove 2] = .ok dictionary ∧
      dictionary.getPredecessorKey 2 = .error .nonexistentKey ∧
      dictionary.getPredecessorKey 3 = .ok (some 1) := by
  obtain ⟨dictionary, made, found⟩ :=
    @getPredecessorKey_of_changes ℕ ℕ _ Routine.merge [(2, 7), (1, 8), (3, 9)] [.remove 2] (by decide)
  obtain ⟨previous, given, greatest⟩ := found 3
  have one : previous = some 1 := by
    refine (greatest 1).mpr ⟨by decide, fun smaller ⟨below, held⟩ => ?_⟩
    by_contra above
    obtain rfl : smaller = 2 := by
      change smaller < 3 at below
      omega
    exact absurd held (by decide)
  exact ⟨dictionary, made, found 2, given.trans (congrArg Except.ok one)⟩

theorem enumerators_of_changes (distinct : (entries.map Prod.fst).Nodup) :
    ∃ dictionary, make routine entries changes = .ok dictionary ∧
      ∀ start, ∃ upwards downwards : List Key,
        (upwards.Pairwise (· < ·) ∧ (∀ key, key ∈ upwards ↔ start ≤ key ∧ (meaning entries changes key).isSome) ∧
          ∀ calls, (dictionary.keyEnumeratorFrom start).objectAt calls = upwards[calls]?) ∧
        downwards.Pairwise (· > ·) ∧ (∀ key, key ∈ downwards ↔ key ≤ start ∧ (meaning entries changes key).isSome) ∧
          ∀ calls, (dictionary.reverseKeyEnumeratorFrom start).objectAt calls = downwards[calls]? := by
  obtain ⟨dictionary, made, represents⟩ := exists_make routine distinct changes
  obtain ⟨increasing, listed⟩ := represents.keys
  refine ⟨dictionary, made, fun start => ⟨keysFrom start false (dictionary.entries.map Prod.fst),
    keysFrom start true (dictionary.entries.map Prod.fst), ⟨?_, fun key => ?_, ?_⟩, ?_, fun key => ?_, ?_⟩⟩
  · exact List.Pairwise.filter _ increasing
  · rw [← listed, and_comm]
    exact List.mem_filter.trans (and_congr_right' decide_eq_true_iff)
  · exact objectAt_keyEnumeratorFrom represents.valid start
  · exact List.pairwise_reverse.mpr (List.Pairwise.filter _ increasing)
  · rw [← listed, and_comm]
    exact List.mem_reverse.trans (List.mem_filter.trans (and_congr_right' decide_eq_true_iff))
  · exact objectAt_reverseKeyEnumeratorFrom represents.valid start

theorem enumerators_of_changes_from : ∃ dictionary : FImmutableSortedDictionary ℕ ℕ,
    make Routine.merge [(2, 7), (1, 8)] [] = .ok dictionary ∧
      ∃ upwards : List ℕ, 2 ∈ upwards ∧ 1 ∉ upwards ∧
        ∀ calls, (dictionary.keyEnumeratorFrom 2).objectAt calls = upwards[calls]? := by
  obtain ⟨dictionary, made, follow⟩ :=
    @enumerators_of_changes ℕ ℕ _ Routine.merge [(2, 7), (1, 8)] [] (by decide)
  obtain ⟨upwards, -, ⟨-, listed, given⟩, -⟩ := follow 2
  exact ⟨dictionary, made, upwards, (listed 2).mpr (by decide), mt (listed 1).mp (by decide), given⟩

/-- Without a start key all keys come upwards. Downwards they come only from an array: the
enumeration of a tree, which every dictionary of many entries is, ends before its first key. -/
theorem reverseKeyEnumerator_of_changes (distinct : (entries.map Prod.fst).Nodup) :
    ∃ (dictionary : _) (keys : List Key), make routine entries changes = .ok dictionary ∧
      keys.Pairwise (· < ·) ∧ (∀ key, key ∈ keys ↔ (meaning entries changes key).isSome) ∧
      (threshold < entries.length → ∃ tree, dictionary = .tree tree) ∧
      ∀ calls, dictionary.keyEnumerator.objectAt calls = keys[calls]? ∧
        dictionary.reverseKeyEnumerator.objectAt calls = match dictionary with
          | .array _ => keys.reverse[calls]?
          | .tree _ => none := by
  obtain ⟨dictionary, made, represents⟩ := exists_make routine distinct changes
  refine ⟨dictionary, dictionary.entries.map Prod.fst, made, represents.keys.1, represents.keys.2,
    fun many => tree_of_many routine many changes made, fun calls => ?_⟩
  refine ⟨objectAt_keyEnumerator represents.valid calls, ?_⟩
  cases dictionary with
  | array dictionary => exact FArraySortedDictionary.objectAt_reverseKeyEnumerator represents.valid.1.paired calls
  | tree dictionary => exact FTreeSortedDictionaryEnumerator.objectAt_init_none dictionary true calls

theorem reverseKeyEnumerator_of_changes_many : ∃ dictionary : FImmutableSortedDictionary ℕ ℕ,
    make Routine.merge ((List.range 30).map fun key => (key, key)) [] = .ok dictionary ∧
      dictionary.reverseKeyEnumerator.objectAt 0 = none := by
  obtain ⟨dictionary, keys, made, -, -, many, given⟩ :=
    @reverseKeyEnumerator_of_changes ℕ ℕ _ Routine.merge ((List.range 30).map fun key => (key, key)) [] (by decide)
  obtain ⟨tree, rfl⟩ := many (by decide)
  exact ⟨.tree tree, made, (given 0).2⟩

end

end

end FImmutableSortedDictionary

end ProjectF02.SortedDictionary
