import ProjectF02.SortedDictionary.ArraySortedDictionary
import ProjectF02.SortedDictionary.LLRBRemoval
import ProjectF02.Sorting.Routine
import Mathlib.Data.Nat.Bitwise

/-! Sorted dictionaries that keep their entries in a tree.

Transcribed from `FTreeSortedDictionary`. Its tree is either grown entry by entry
or built at once from sorted entries, by the digits of their number in base
{1, 2}: each digit stands for one or two trees of a power of two of entries. The
comparator is that of a linear order: keys that compare equal are equal.
-/

set_option autoImplicit false

namespace ProjectF02.SortedDictionary
open Store Transition Sorting

variable {Key Val : Type}

structure FTreeSortedDictionary (Key Val : Type) where
  root : FLLRBNode Key Val := .empty

namespace FTreeSortedDictionary

def entries (dictionary : FTreeSortedDictionary Key Val) : Entries Key Val := dictionary.root.entries

def Valid [LinearOrder Key] (dictionary : FTreeSortedDictionary Key Val) : Prop :=
  dictionary.entries.Sorted ∧ ∃ height, FLLRBNode.Balanced .black height dictionary.root

section
variable [LinearOrder Key]

def getFrom (key : Key) : FLLRBNode Key Val → Option Val
  | .empty => none
  | .node _ left held value right =>
    if key = held then some value
    else if key < held then getFrom key left
    else getFrom key right

def get (dictionary : FTreeSortedDictionary Key Val) (key : Key) : Option Val := getFrom key dictionary.root

def contains (dictionary : FTreeSortedDictionary Key Val) (key : Key) : Bool := (dictionary.get key).isSome

def getPredecessorFrom (key : Key) (rightParent : Option Key) :
    FLLRBNode Key Val → Except DictionaryException (Option Key)
  | .empty => .error .nonexistentKey
  | .node _ left held _ right =>
    if key = held then .ok (if left.isEmpty then rightParent else left.maxKey)
    else if key < held then getPredecessorFrom key rightParent left
    else getPredecessorFrom key (some held) right

def getPredecessorKey (dictionary : FTreeSortedDictionary Key Val) (key : Key) :
    Except DictionaryException (Option Key) :=
  getPredecessorFrom key none dictionary.root

def insertKey (dictionary : FTreeSortedDictionary Key Val) (key : Key) (value : Val) :
    FTreeSortedDictionary Key Val where
  root := (dictionary.root.insertKey key value).withColor .black

def removeKey (dictionary : FTreeSortedDictionary Key Val) (key : Key) : FTreeSortedDictionary Key Val :=
  if dictionary.contains key then { root := (dictionary.root.remove key).withColor .black } else dictionary

theorem getFrom_eq {tree : FLLRBNode Key Val} (sorted : tree.entries.Sorted) (key : Key) :
    getFrom key tree = tree.entries.get key := by
  induction tree with
  | empty => rfl
  | node color left held value right leftIH rightIH =>
    have sorted : (left.entries ++ (held, value) :: right.entries).Sorted := sorted
    obtain ⟨⟨before, after⟩, -, -⟩ := Entries.sorted_append_cons sorted
    rw [getFrom, FLLRBNode.entries]
    rcases lt_trichotomy key held with less | same | greater
    · rw [if_neg (ne_of_lt less), if_pos less, leftIH before, sorted.get_append_cons_of_lt less]
    · rw [if_pos same, same, sorted.get_of_mem (List.mem_append_right _ List.mem_cons_self)]
    · rw [if_neg (ne_of_gt greater), if_neg (not_lt_of_gt greater), rightIH after,
        sorted.get_append_cons_of_gt greater]

theorem get_eq {dictionary : FTreeSortedDictionary Key Val} (valid : dictionary.Valid) (key : Key) :
    dictionary.get key = dictionary.entries.get key := getFrom_eq valid.1 key

theorem entries_insertKey {dictionary : FTreeSortedDictionary Key Val} (valid : dictionary.Valid) (key : Key)
    (value : Val) : (dictionary.insertKey key value).entries = dictionary.entries.insert key value := by
  rw [entries, insertKey, FLLRBNode.entries_withColor, FLLRBNode.entries_insertKey valid.1]
  rfl

theorem Valid.insertKey {dictionary : FTreeSortedDictionary Key Val} (valid : dictionary.Valid) (key : Key)
    (value : Val) : (dictionary.insertKey key value).Valid := by
  refine ⟨?_, ?_⟩
  · rw [entries_insertKey valid]
    exact valid.1.insert key value
  · obtain ⟨height, balanced⟩ := valid.2
    obtain ⟨color, inserted⟩ := balanced.insertKey key value
    exact inserted.withColor

theorem entries_removeKey {dictionary : FTreeSortedDictionary Key Val} (valid : dictionary.Valid) (key : Key) :
    (dictionary.removeKey key).entries = dictionary.entries.erase key := by
  obtain ⟨height, balanced⟩ := valid.2
  unfold removeKey
  split
  next => rw [entries, FLLRBNode.entries_withColor, (balanced.remove valid.1 key).2, entries]
  next absent =>
    refine (Entries.erase_of_ne fun entry member same => ?_).symm
    rw [contains, get_eq valid, valid.1.get_of_mem (same ▸ member : (key, entry.2) ∈ dictionary.entries)] at absent
    exact absent rfl

theorem Valid.removeKey {dictionary : FTreeSortedDictionary Key Val} (valid : dictionary.Valid) (key : Key) :
    (dictionary.removeKey key).Valid := by
  refine ⟨?_, ?_⟩
  · rw [entries_removeKey valid]
    exact valid.1.erase key
  · obtain ⟨height, balanced⟩ := valid.2
    unfold FTreeSortedDictionary.removeKey
    split
    · exact (balanced.remove valid.1 key).1
    · exact valid.2

theorem getPredecessorFrom_eq {tree : FLLRBNode Key Val} (sorted : tree.entries.Sorted) (key : Key)
    (rightParent : Option Key) :
    getPredecessorFrom key rightParent tree =
      if (tree.entries.get key).isSome then .ok ((tree.entries.predecessor key).or rightParent)
      else .error .nonexistentKey := by
  induction tree generalizing rightParent with
  | empty => rfl
  | node color left held value right leftIH rightIH =>
    have sorted : (left.entries ++ (held, value) :: right.entries).Sorted := sorted
    obtain ⟨⟨before, after⟩, below, above⟩ := Entries.sorted_append_cons sorted
    have later (reached : key ≤ held) : ∀ entry ∈ (held, value) :: right.entries, key ≤ entry.1 :=
      List.forall_mem_cons.mpr ⟨reached, fun entry member => le_trans reached (le_of_lt (above entry member))⟩
    rw [getPredecessorFrom, FLLRBNode.entries]
    rcases lt_trichotomy key held with less | same | greater
    · rw [if_neg (ne_of_lt less), if_pos less, leftIH before, Entries.predecessor_append_of_le (later (le_of_lt less)),
        sorted.get_append_cons_of_lt less]
    · subst same
      rw [if_pos rfl, Entries.predecessor_append_of_le (later (le_refl key)), Entries.predecessor_of_below below,
        FLLRBNode.maxKey_eq, sorted.get_of_mem (List.mem_append_right _ List.mem_cons_self), Option.isSome_some,
        if_pos rfl]
      split
      next none => rw [FLLRBNode.entries_eq_nil_iff.mpr none]; rfl
      next some =>
        rw [List.getLast?_eq_getLast_of_ne_nil (mt FLLRBNode.entries_eq_nil_iff.mp some)]
        rfl
    · rw [if_neg (ne_of_gt greater), if_neg (not_lt_of_gt greater), rightIH after,
        Entries.predecessor_append_cons_of_lt greater, sorted.get_append_cons_of_gt greater, Option.or_assoc,
        Option.some_or]

theorem getPredecessorKey_eq {dictionary : FTreeSortedDictionary Key Val} (valid : dictionary.Valid)
    (key : Key) :
    dictionary.getPredecessorKey key =
      if (dictionary.entries.get key).isSome then .ok (dictionary.entries.predecessor key)
      else .error .nonexistentKey := by
  rw [getPredecessorKey, getPredecessorFrom_eq valid.1]
  simp only [Option.or_none]
  rfl

end

/-- A length bounded by that of the array. The difference is one of unsigned numbers: with the index
behind the end it wraps around and bounds nothing. -/
def boundedLength (count startIndex length : ℕ) : ℕ :=
  if count < startIndex then length else min (count - startIndex) length

theorem boundedLength_le (count startIndex length : ℕ) : boundedLength count startIndex length ≤ length := by
  rw [boundedLength]
  split
  · exact le_refl length
  · exact Nat.min_le_right _ _

/-- A tree of so many entries of a sorted array from an index on, all of its nodes black. Lengths
other than those of full trees do not occur. -/
def buildBalancedTree (sorted : Entries Key Val) (startIndex length : ℕ) :
    Except DictionaryException (FLLRBNode Key Val) :=
  let bounded := boundedLength sorted.length startIndex length
  if bounded = 0 then .ok .empty
  else if bounded = 1 then
    match sorted[startIndex]? with
    | none => .error .range
    | some (key, value) => .ok (.node .black .empty key value .empty)
  else do
    let middle := bounded / 2
    let left ← buildBalancedTree sorted startIndex middle
    let right ← buildBalancedTree sorted (startIndex + middle + 1) middle
    match sorted[startIndex + middle]? with
    | none => .error .range
    | some (key, value) => .ok (.node .black left key value right)
termination_by length
decreasing_by all_goals have within := boundedLength_le sorted.length startIndex length; omega

/-- A number in base {1, 2}: a bit that is set stands for the digit 2. -/
structure Base12List where
  bits : ℕ
  count : ℕ
  current : ℕ

def base12ListNew (length : ℕ) : Base12List where
  bits := (length + 1) &&& (1 <<< Nat.log2 (length + 1) - 1)
  count := Nat.log2 (length + 1)
  current := Nat.log2 (length + 1) - 1

def base12ListNext (list : Base12List) : Bool × Base12List :=
  (list.bits &&& (1 <<< list.current) == 0, { list with current := list.current - 1 })

/-- A node without a left side that takes the last entries before an index. -/
def buildPennant (sorted : Entries Key Val) (color : FLLRBColor) (index chunkSize : ℕ)
    (left : FLLRBNode Key Val) :
    Except DictionaryException (FLLRBNode Key Val) :=
  match sorted[index - chunkSize]? with
  | none => .error .range
  | some (key, value) => do
    let childTree ← buildBalancedTree sorted (index - chunkSize + 1) (chunkSize - 1)
    return .node color left key value childTree

/-- Each pennant is the left child of the one before it, from the last entries to the first. -/
def rootFrom12List (sorted : Entries Key Val) :
    ℕ → Base12List → ℕ → Except DictionaryException (FLLRBNode Key Val)
  | 0, _, _ => .ok .empty
  | remaining + 1, list, index => do
    let (isOne, list) := base12ListNext list
    let chunkSize := 2 ^ remaining
    if isOne then
      let rest ← rootFrom12List sorted remaining list (index - chunkSize)
      buildPennant sorted .black index chunkSize rest
    else
      let rest ← rootFrom12List sorted remaining list (index - chunkSize - chunkSize)
      let red ← buildPennant sorted .red (index - chunkSize) chunkSize rest
      buildPennant sorted .black index chunkSize red

def fromDictionary [LinearOrder Key] (routine : Routine (Key × Val)) (dictionary : Entries Key Val) :
    Except DictionaryException (FTreeSortedDictionary Key Val) := do
  let sorted := routine.sorted (fun a b => a.1 < b.1) dictionary
  if ascending sorted then
    let list := base12ListNew sorted.length
    let root ← rootFrom12List sorted list.count list sorted.length
    return { root }
  else throw .keysWithSameOrdering

theorem take_append_cons_take {Item : Type} (items : List Item) {first : ℕ} (within : first < items.length)
    (second : ℕ) :
    items.take (first + 1 + second) = items.take first ++ items[first] :: (items.drop (first + 1)).take second := by
  rw [List.take_add, List.take_succ_eq_append_getElem within, List.append_assoc]
  rfl

theorem buildBalancedTree_spec (sorted : Entries Key Val) (levels startIndex : ℕ)
    (fits : startIndex + (2 ^ levels - 1) ≤ sorted.length) :
    ∃ tree, buildBalancedTree sorted startIndex (2 ^ levels - 1) = .ok tree ∧
      FLLRBNode.Balanced .black levels tree ∧
      tree.entries = (sorted.drop startIndex).take (2 ^ levels - 1) := by
  induction levels generalizing startIndex with
  | zero =>
    have nothing : boundedLength sorted.length startIndex (2 ^ 0 - 1) = 0 :=
      Nat.le_zero.mp (boundedLength_le _ _ _)
    refine ⟨.empty, ?_, .empty, rfl⟩
    rw [buildBalancedTree]
    exact if_pos nothing
  | succ levels ih =>
    have positive := Nat.two_pow_pos levels
    rw [Nat.pow_succ] at fits ⊢
    have bounded : boundedLength sorted.length startIndex (2 ^ levels * 2 - 1) = 2 ^ levels * 2 - 1 := by
      rw [boundedLength, if_neg (by omega)]
      omega
    have split : 2 ^ levels * 2 - 1 = (2 ^ levels - 1) + 1 + (2 ^ levels - 1) := by omega
    obtain ⟨left, leftBuilt, leftBalanced, leftEntries⟩ := ih startIndex (by omega)
    obtain ⟨right, rightBuilt, rightBalanced, rightEntries⟩ := ih (startIndex + (2 ^ levels - 1) + 1) (by omega)
    have within : startIndex + (2 ^ levels - 1) < sorted.length := by omega
    have middle : sorted[startIndex + (2 ^ levels - 1)]? = some sorted[startIndex + (2 ^ levels - 1)] :=
      List.getElem?_eq_getElem within
    refine ⟨.node .black left sorted[startIndex + (2 ^ levels - 1)].1 sorted[startIndex + (2 ^ levels - 1)].2 right,
      ?_, .black leftBalanced rightBalanced, ?_⟩
    · rw [buildBalancedTree, bounded]
      dsimp only
      rw [if_neg (by omega)]
      by_cases single : levels = 0
      · subst single
        have noLeft := leftBalanced.eq_empty rfl
        have noRight := rightBalanced.eq_empty rfl
        subst noLeft noRight
        have there : sorted[startIndex]? = some sorted[startIndex] := List.getElem?_eq_getElem within
        simp only [Nat.pow_zero, Nat.one_mul, Nat.reduceSub, if_true, there, Nat.sub_self, Nat.add_zero]
      · have several : 2 ^ levels ≠ 1 := by
          have larger := Nat.one_lt_two_pow single
          omega
        have half : (2 ^ levels * 2 - 1) / 2 = 2 ^ levels - 1 := by omega
        rw [if_neg (by omega), half, leftBuilt, rightBuilt, middle]
        rfl
    · rw [split, take_append_cons_take _ (by rw [List.length_drop]; omega), FLLRBNode.entries, leftEntries,
        rightEntries, List.drop_drop, List.getElem_drop]
      rfl

theorem buildPennant_spec {sorted : Entries Key Val} (color : FLLRBColor) {index : ℕ} (levels : ℕ)
    (room : 2 ^ levels ≤ index) (fits : index ≤ sorted.length) {left : FLLRBNode Key Val}
    (before : left.entries = sorted.take (index - 2 ^ levels)) :
    ∃ key value childTree,
      buildPennant sorted color index (2 ^ levels) left = .ok (.node color left key value childTree) ∧
      FLLRBNode.Balanced .black levels childTree ∧
      (FLLRBNode.node color left key value childTree).entries = sorted.take index := by
  have positive := Nat.two_pow_pos levels
  have within : index - 2 ^ levels < sorted.length := by omega
  obtain ⟨childTree, built, balanced, same⟩ :=
    buildBalancedTree_spec sorted levels (index - 2 ^ levels + 1) (by omega)
  refine ⟨sorted[index - 2 ^ levels].1, sorted[index - 2 ^ levels].2, childTree, ?_, balanced, ?_⟩
  · rw [buildPennant, List.getElem?_eq_getElem within]
    dsimp only
    rw [built]
    rfl
  · have parts : index = index - 2 ^ levels + 1 + (2 ^ levels - 1) := by omega
    rw [FLLRBNode.entries, before, same]
    conv_rhs => rw [parts]
    exact (take_append_cons_take sorted within (2 ^ levels - 1)).symm

def capacity (bits remaining : ℕ) : ℕ := 2 ^ remaining - 1 + bits % 2 ^ remaining

theorem capacity_succ (bits remaining : ℕ) :
    capacity bits (remaining + 1) =
      capacity bits remaining + 2 ^ remaining + if bits.testBit remaining then 2 ^ remaining else 0 := by
  have positive := Nat.two_pow_pos remaining
  rw [capacity, capacity, Nat.pow_succ, Nat.mod_mul, Nat.testBit_eq_decide_div_mod_eq]
  have digit := Nat.mod_two_eq_zero_or_one (bits / 2 ^ remaining)
  rcases digit with zero | one
  · simp only [zero, decide_eq_true_iff, if_neg Nat.zero_ne_one]
    omega
  · simp only [one, decide_eq_true_iff, if_true]
    omega

theorem base12ListNext_eq {list : Base12List} {position : ℕ} (current : list.current = position) :
    base12ListNext list = (!list.bits.testBit position, { list with current := position - 1 }) := by
  rw [base12ListNext, current, Nat.one_shiftLeft, Nat.and_two_pow]
  have positive := Nat.two_pow_pos position
  cases list.bits.testBit position with
  | false => simp
  | true => simp

/-- With each digit, the trees that are chained grow by one black level. -/
theorem rootFrom12List_spec (sorted : Entries Key Val) (remaining : ℕ) (list : Base12List)
    (current : list.current = remaining - 1) (fits : capacity list.bits remaining ≤ sorted.length) :
    ∃ tree, rootFrom12List sorted remaining list (capacity list.bits remaining) = .ok tree ∧
      FLLRBNode.Balanced .black remaining tree ∧
      tree.entries = sorted.take (capacity list.bits remaining) := by
  induction remaining generalizing list with
  | zero =>
    refine ⟨.empty, rfl, .empty, ?_⟩
    simp [FLLRBNode.entries, capacity, Nat.mod_one]
  | succ remaining ih =>
    have positive := Nat.two_pow_pos remaining
    have grown := capacity_succ list.bits remaining
    obtain ⟨rest, built, balanced, same⟩ := ih { list with current := remaining - 1 } rfl (by dsimp only; omega)
    dsimp only at built same
    have next : base12ListNext list = (!list.bits.testBit remaining, { list with current := remaining - 1 }) :=
      base12ListNext_eq current
    rw [rootFrom12List, next]
    dsimp only
    cases two : list.bits.testBit remaining with
    | false =>
      rw [two, if_neg Bool.false_ne_true, Nat.add_zero] at grown
      have back : capacity list.bits (remaining + 1) - 2 ^ remaining = capacity list.bits remaining := by omega
      obtain ⟨key, value, childTree, pennant, full, all⟩ :=
        buildPennant_spec .black remaining (by omega) fits (same.trans (by rw [back]))
      refine ⟨_, ?_, .black balanced full, all⟩
      rw [Bool.not_false, if_pos rfl, back, built]
      exact pennant
    | true =>
      rw [two, if_pos rfl] at grown
      have back : capacity list.bits (remaining + 1) - 2 ^ remaining - 2 ^ remaining =
        capacity list.bits remaining := by omega
      obtain ⟨redKey, redValue, redTree, redPennant, redFull, redAll⟩ :=
        buildPennant_spec .red remaining (by omega) (Nat.le_trans (Nat.sub_le _ (2 ^ remaining)) fits)
          (same.trans (by rw [back]))
      obtain ⟨key, value, childTree, pennant, full, all⟩ := buildPennant_spec .black remaining (by omega) fits redAll
      refine ⟨_, ?_, .black (.red balanced redFull) full, all⟩
      rw [Bool.not_true, if_neg Bool.false_ne_true, back, built]
      refine Eq.trans ?_ pennant
      exact congrArg (fun red => red >>= buildPennant sorted .black _ (2 ^ remaining)) redPennant

section
variable [LinearOrder Key]

theorem capacity_base12ListNew (length : ℕ) :
    capacity (base12ListNew length).bits (base12ListNew length).count = length := by
  have least : 2 ^ Nat.log2 (length + 1) ≤ length + 1 := Nat.log2_self_le (Nat.succ_ne_zero length)
  have greatest := Nat.lt_log2_self (n := length + 1)
  rw [Nat.pow_succ] at greatest
  have digits : (length + 1) % 2 ^ Nat.log2 (length + 1) = length + 1 - 2 ^ Nat.log2 (length + 1) := by
    rw [Nat.mod_eq_sub_mod least, Nat.mod_eq_of_lt]
    omega
  rw [capacity, base12ListNew, Nat.one_shiftLeft, Nat.and_two_pow_sub_one_eq_mod, Nat.mod_mod, digits]
  dsimp only
  omega

theorem fromDictionary_spec (routine : Routine (Key × Val)) {dictionary : Entries Key Val}
    (distinct : (dictionary.map Prod.fst).Nodup) :
    ∃ built, fromDictionary routine dictionary = .ok built ∧ built.Valid ∧ built.entries.Perm dictionary := by
  have sorted : (routine.sorted (fun a b => a.1 < b.1) dictionary).Pairwise fun a b => a.1 < b.1 :=
    routine.strictly_increasing distinct
  have same := routine.perm (fun a b => decide (a.1 < b.1)) dictionary
  generalize arranged : routine.sorted (fun a b => decide (a.1 < b.1)) dictionary = arrangement at sorted same
  have count := capacity_base12ListNew arrangement.length
  obtain ⟨root, built, balanced, entries⟩ :=
    rootFrom12List_spec arrangement (base12ListNew arrangement.length).count (base12ListNew arrangement.length) rfl
      (Nat.le_of_eq count)
  rw [count] at built entries
  rw [List.take_length] at entries
  refine ⟨{ root }, ?_, ⟨?_, _, balanced⟩, ?_⟩
  · rw [fromDictionary, arranged]
    dsimp only
    rw [if_pos (ascending_of_sorted sorted), built]
    rfl
  · rw [FTreeSortedDictionary.entries, entries]
    exact sorted
  · rw [FTreeSortedDictionary.entries, entries]
    exact same

end

end FTreeSortedDictionary

end ProjectF02.SortedDictionary
