import ProjectF02.Store.SortedEntries
import ProjectF02.Sorting.Routine

/-! Sorted dictionaries that keep their entries in two arrays.

Transcribed from `FArraySortedDictionary` and its enumerator, without the change to a
tree. The arrays hold the keys in order and the values at the places of their keys.
The comparator is that of a linear order: keys that compare equal are equal.
-/

set_option autoImplicit false

namespace ProjectF02.SortedDictionary
open Store Sorting

variable {Key Val : Type}

inductive DictionaryException where
  | nonexistentKey
  | keysWithSameOrdering
  -- An array was read out of its bounds.
  | range

section
variable [LinearOrder Key]

def ascending : Entries Key Val → Bool
  | first :: second :: rest => decide (first.1 < second.1) && ascending (second :: rest)
  | _ => true

theorem ascending_of_sorted {entries : Entries Key Val} (sorted : entries.Sorted) :
    ascending entries = true := by
  induction entries with
  | nil => rfl
  | cons first rest ih =>
    obtain ⟨above, later⟩ := Entries.sorted_cons.mp sorted
    cases rest with
    | nil => rfl
    | cons second others =>
      rw [ascending, ih later, decide_eq_true (above second List.mem_cons_self)]
      rfl

def keysFrom (start : Key) (isReverse : Bool) (keys : List Key) : List Key :=
  if isReverse then (keys.filter fun key => key ≤ start).reverse else keys.filter fun key => start ≤ key

theorem keysFrom_append (start : Key) (isReverse : Bool) (front back : List Key) :
    keysFrom start isReverse (front ++ back) =
      if isReverse then keysFrom start true back ++ keysFrom start true front
      else keysFrom start false front ++ keysFrom start false back := by
  cases isReverse <;> simp [keysFrom]

section
variable {keys : List Key} {key start : Key}

theorem keysFrom_of_below (below : ∀ other ∈ keys, other < key) (reached : key ≤ start) (isReverse : Bool) :
    keysFrom start isReverse keys = if isReverse then keys.reverse else [] := by
  cases isReverse with
  | false =>
    exact List.filter_eq_nil_iff.mpr fun other member =>
      mt of_decide_eq_true (not_le.mpr (lt_of_lt_of_le (below other member) reached))
  | true =>
    exact congrArg List.reverse (List.filter_eq_self.mpr fun other member =>
      decide_eq_true (le_trans (le_of_lt (below other member)) reached))

theorem keysFrom_of_above (above : ∀ other ∈ keys, key < other) (reached : start ≤ key) (isReverse : Bool) :
    keysFrom start isReverse keys = if isReverse then [] else keys := by
  cases isReverse with
  | false =>
    exact List.filter_eq_self.mpr fun other member =>
      decide_eq_true (le_trans reached (le_of_lt (above other member)))
  | true =>
    have none : keys.filter (fun other => other ≤ start) = [] := List.filter_eq_nil_iff.mpr fun other member =>
      mt of_decide_eq_true (not_le.mpr (lt_of_le_of_lt reached (above other member)))
    exact congrArg List.reverse none

end

end

structure FArraySortedDictionary (Key Val : Type) where
  keys : List Key := []
  values : List Val := []

namespace FArraySortedDictionary

def count (dictionary : FArraySortedDictionary Key Val) : ℕ := dictionary.keys.length

def entries (dictionary : FArraySortedDictionary Key Val) : Entries Key Val :=
  dictionary.keys.zip dictionary.values

section
variable [LinearOrder Key]

/-- The loop of `findInsertPositionForKey:`, from some position on. -/
def findInsertPositionFrom (key : Key) : List Key → ℕ → ℕ
  | [], position => position
  | first :: rest, position => if first < key then findInsertPositionFrom key rest (position + 1) else position

def findInsertPositionForKey (dictionary : FArraySortedDictionary Key Val) (key : Key) : ℕ :=
  findInsertPositionFrom key dictionary.keys 0

def findKeyFrom (key : Key) : List Key → ℕ → Option ℕ
  | [], _ => none
  | first :: rest, position =>
    if key = first then some position
    else if key < first then none
    else findKeyFrom key rest (position + 1)

def findKey (dictionary : FArraySortedDictionary Key Val) (key : Key) : Option ℕ :=
  findKeyFrom key dictionary.keys 0

def insertNewKey (dictionary : FArraySortedDictionary Key Val) (key : Key) (value : Val) :
    FArraySortedDictionary Key Val :=
  let newPos := dictionary.findInsertPositionForKey key
  { keys := dictionary.keys.insertIdx newPos key, values := dictionary.values.insertIdx newPos value }

def replaceKey (dictionary : FArraySortedDictionary Key Val) (pos : ℕ) (key : Key) (value : Val) :
    FArraySortedDictionary Key Val where
  keys := dictionary.keys.set pos key
  values := dictionary.values.set pos value

def removeKey (dictionary : FArraySortedDictionary Key Val) (key : Key) : FArraySortedDictionary Key Val :=
  match dictionary.findKey key with
  | none => dictionary
  | some pos => { keys := dictionary.keys.eraseIdx pos, values := dictionary.values.eraseIdx pos }

def get (dictionary : FArraySortedDictionary Key Val) (key : Key) : Option Val :=
  match dictionary.findKey key with
  | none => none
  | some pos => dictionary.values[pos]?

def getPredecessorKey (dictionary : FArraySortedDictionary Key Val) (key : Key) :
    Except DictionaryException (Option Key) :=
  match dictionary.findKey key with
  | none => .error .nonexistentKey
  | some 0 => .ok none
  | some (pos + 1) => .ok dictionary.keys[pos]?

structure Valid (dictionary : FArraySortedDictionary Key Val) : Prop where
  sorted : dictionary.entries.Sorted
  paired : dictionary.keys.length = dictionary.values.length

/-- The entry at the position that is found has the key. Without one, no entry has. -/
theorem findKeyFrom_spec {key : Key} {entries : Entries Key Val} (sorted : entries.Sorted) (position : ℕ) :
    (∃ front value back, entries = front ++ (key, value) :: back ∧
        findKeyFrom key (entries.map Prod.fst) position = some (position + front.length)) ∨
      entries.get key = none ∧ findKeyFrom key (entries.map Prod.fst) position = none := by
  induction entries generalizing position with
  | nil => exact .inr ⟨rfl, rfl⟩
  | cons entry rest ih =>
    obtain ⟨first, held⟩ := entry
    obtain ⟨above, later⟩ := Entries.sorted_cons.mp sorted
    rw [List.map_cons, findKeyFrom, Entries.get]
    rcases lt_trichotomy key first with less | same | greater
    · refine .inr ⟨?_, ?_⟩
      · rw [if_neg (ne_of_gt less)]
        exact Entries.get_eq_none_of_below fun entry member => lt_trans less (above entry member)
      · rw [if_neg (ne_of_lt less), if_pos less]
    · subst same
      exact .inl ⟨[], held, rest, rfl, if_pos rfl⟩
    · rw [if_neg (ne_of_gt greater), if_neg (not_lt_of_gt greater), if_neg (ne_of_lt greater)]
      rcases ih later (position + 1) with ⟨front, value, back, same, found⟩ | missing
      · refine .inl ⟨(first, held) :: front, value, back, by rw [same, List.cons_append], ?_⟩
        rw [found, List.length_cons]
        congr 1
        omega
      · exact .inr missing

theorem findInsertPositionFrom_spec (key : Key) {entries : Entries Key Val} (sorted : entries.Sorted)
    (position : ℕ) :
    ∃ front back, entries = front ++ back ∧
      findInsertPositionFrom key (entries.map Prod.fst) position = position + front.length ∧
      (∀ entry ∈ front, entry.1 < key) ∧ ∀ entry ∈ back, key ≤ entry.1 := by
  induction entries generalizing position with
  | nil => exact ⟨[], [], rfl, rfl, List.forall_mem_nil _, List.forall_mem_nil _⟩
  | cons entry rest ih =>
    obtain ⟨first, held⟩ := entry
    obtain ⟨above, later⟩ := Entries.sorted_cons.mp sorted
    rw [List.map_cons, findInsertPositionFrom]
    by_cases less : first < key
    · obtain ⟨front, back, same, found, below, reached⟩ := ih later (position + 1)
      refine ⟨(first, held) :: front, back, by rw [same, List.cons_append], ?_,
        List.forall_mem_cons.mpr ⟨less, below⟩, reached⟩
      rw [if_pos less, found, List.length_cons]
      omega
    · refine ⟨[], (first, held) :: rest, rfl, if_neg less, List.forall_mem_nil _, ?_⟩
      exact List.forall_mem_cons.mpr
        ⟨not_lt.mp less, fun entry member => le_trans (not_lt.mp less) (le_of_lt (above entry member))⟩

end

theorem insertIdx_append {Item : Type} (front back : List Item) (item : Item) :
    (front ++ back).insertIdx front.length item = front ++ item :: back := by
  induction front with
  | nil => rfl
  | cons first rest ih => rw [List.cons_append, List.length_cons, List.insertIdx_succ_cons, ih, List.cons_append]

/-! ## The arrays of entries -/

def ofEntries (entries : Entries Key Val) : FArraySortedDictionary Key Val where
  keys := entries.map Prod.fst
  values := entries.map Prod.snd

@[simp] theorem entries_ofEntries (entries : Entries Key Val) : (ofEntries entries).entries = entries := by
  induction entries with
  | nil => rfl
  | cons entry rest ih => exact congrArg (entry :: ·) ih

theorem ofEntries_entries {dictionary : FArraySortedDictionary Key Val}
    (paired : dictionary.keys.length = dictionary.values.length) :
    ofEntries dictionary.entries = dictionary := by
  obtain ⟨keys, values⟩ := dictionary
  rw [ofEntries, entries, List.map_fst_zip (Nat.le_of_eq paired), List.map_snd_zip (Nat.le_of_eq paired.symm)]

theorem keys_eq {dictionary : FArraySortedDictionary Key Val}
    (paired : dictionary.keys.length = dictionary.values.length) :
    dictionary.keys = dictionary.entries.map Prod.fst :=
  (List.map_fst_zip (Nat.le_of_eq paired)).symm

theorem length_entries {dictionary : FArraySortedDictionary Key Val}
    (paired : dictionary.keys.length = dictionary.values.length) :
    dictionary.entries.length = dictionary.count := by
  rw [count, keys_eq paired, List.length_map]

section
variable [LinearOrder Key]

theorem valid_ofEntries {entries : Entries Key Val} (sorted : entries.Sorted) : (ofEntries entries).Valid where
  sorted := (entries_ofEntries entries).symm ▸ sorted
  paired := by rw [ofEntries, List.length_map, List.length_map]

theorem Valid.eq_ofEntries {dictionary : FArraySortedDictionary Key Val} (valid : dictionary.Valid) :
    dictionary = ofEntries dictionary.entries := (ofEntries_entries valid.paired).symm

theorem findKey_ofEntries {entries : Entries Key Val} (sorted : entries.Sorted) (key : Key) :
    (∃ front value back, entries = front ++ (key, value) :: back ∧
        (ofEntries entries).findKey key = some front.length) ∨
      entries.get key = none ∧ (ofEntries entries).findKey key = none := by
  rcases findKeyFrom_spec sorted 0 with ⟨front, value, back, same, found⟩ | missing
  · exact .inl ⟨front, value, back, same, found.trans (congrArg some (Nat.zero_add _))⟩
  · exact .inr missing

section
variable {dictionary : FArraySortedDictionary Key Val}

theorem get_eq (valid : dictionary.Valid) (key : Key) : dictionary.get key = dictionary.entries.get key := by
  have sorted := valid.sorted
  rw [valid.eq_ofEntries, entries_ofEntries, get]
  generalize dictionary.entries = entries at sorted ⊢
  rcases findKey_ofEntries sorted key with ⟨front, value, back, rfl, found⟩ | ⟨missing, none⟩
  · obtain ⟨-, below, -⟩ := Entries.sorted_append_cons sorted
    rw [found, Entries.get_append, Entries.get_eq_none_of_ne fun entry member => ne_of_lt (below entry member)]
    simp [ofEntries, Entries.get]
  · rw [none, missing]

theorem isSome_findKey (valid : dictionary.Valid) (key : Key) :
    (dictionary.findKey key).isSome = (dictionary.entries.get key).isSome := by
  have sorted := valid.sorted
  rw [valid.eq_ofEntries, entries_ofEntries]
  generalize dictionary.entries = entries at sorted ⊢
  rcases findKey_ofEntries sorted key with ⟨front, value, back, rfl, found⟩ | ⟨missing, none⟩
  · rw [found, sorted.get_of_mem (List.mem_append_right _ List.mem_cons_self)]
    rfl
  · rw [none, missing]
    rfl

theorem getPredecessorKey_eq (valid : dictionary.Valid) (key : Key) :
    dictionary.getPredecessorKey key =
      if (dictionary.entries.get key).isSome then .ok (dictionary.entries.predecessor key)
      else .error .nonexistentKey := by
  have sorted := valid.sorted
  rw [valid.eq_ofEntries, entries_ofEntries, getPredecessorKey]
  generalize dictionary.entries = entries at sorted ⊢
  rcases findKey_ofEntries sorted key with ⟨front, value, back, rfl, found⟩ | ⟨missing, none⟩
  · obtain ⟨-, below, above⟩ := Entries.sorted_append_cons sorted
    have later : ∀ entry ∈ (key, value) :: back, key ≤ entry.1 :=
      List.forall_mem_cons.mpr ⟨le_refl key, fun entry member => le_of_lt (above entry member)⟩
    rw [found, sorted.get_of_mem (List.mem_append_right _ List.mem_cons_self), Option.isSome_some, if_pos rfl,
      Entries.predecessor_append_of_le later, Entries.predecessor_of_below below]
    rcases front.eq_nil_or_concat with rfl | ⟨before, last, rfl⟩
    · rfl
    · simp [ofEntries]
  · rw [none, missing]
    rfl

theorem removeKey_eq (valid : dictionary.Valid) (key : Key) :
    dictionary.removeKey key = ofEntries (dictionary.entries.erase key) := by
  have sorted := valid.sorted
  rw [valid.eq_ofEntries, entries_ofEntries, removeKey]
  generalize dictionary.entries = entries at sorted ⊢
  rcases findKey_ofEntries sorted key with ⟨front, value, back, rfl, found⟩ | ⟨missing, none⟩
  · obtain ⟨-, below, -⟩ := Entries.sorted_append_cons sorted
    rw [found, Entries.erase_append_of_ne fun entry member => ne_of_lt (below entry member), Entries.erase,
      if_pos rfl]
    simp [ofEntries, List.eraseIdx_append_of_length_le]
  · rw [none, Entries.erase_of_ne fun entry member => Entries.ne_of_get_eq_none missing member]

theorem replaceKey_eq (valid : dictionary.Valid) {key : Key} {pos : ℕ}
    (found : dictionary.findKey key = some pos)
    (value : Val) : dictionary.replaceKey pos key value = ofEntries (dictionary.entries.insert key value) := by
  have sorted := valid.sorted
  rw [valid.eq_ofEntries] at found ⊢
  rw [entries_ofEntries, replaceKey]
  generalize dictionary.entries = entries at sorted found ⊢
  rcases findKey_ofEntries sorted key with ⟨front, held, back, rfl, there⟩ | ⟨-, none⟩
  · obtain ⟨-, below, -⟩ := Entries.sorted_append_cons sorted
    obtain rfl := Option.some.inj (there.symm.trans found)
    rw [Entries.insert_append_of_above below, Entries.insert, if_neg (lt_irrefl key), if_pos rfl]
    simp [ofEntries]
  · rw [none] at found
    cases found

theorem insertNewKey_eq (valid : dictionary.Valid) {key : Key} (missing : dictionary.findKey key = none)
    (value : Val) : dictionary.insertNewKey key value = ofEntries (dictionary.entries.insert key value) := by
  have sorted := valid.sorted
  rw [valid.eq_ofEntries] at missing ⊢
  rw [entries_ofEntries, insertNewKey]
  generalize dictionary.entries = entries at sorted missing ⊢
  rcases findKey_ofEntries sorted key with ⟨front, held, back, -, there⟩ | ⟨absent, -⟩
  · rw [missing] at there
    cases there
  · obtain ⟨front, back, rfl, found, below, reached⟩ := findInsertPositionFrom_spec key sorted 0
    have position : (ofEntries (front ++ back)).findInsertPositionForKey key = front.length :=
      found.trans (Nat.zero_add _)
    rw [position, Entries.insert_append_of_above below]
    have first : back.insert key value = (key, value) :: back := by
      cases back with
      | nil => rfl
      | cons entry rest =>
        have apart := Entries.ne_of_get_eq_none absent (List.mem_append_right front List.mem_cons_self)
        exact if_pos (lt_of_le_of_ne (reached entry List.mem_cons_self) (Ne.symm apart))
    have keys := insertIdx_append (front.map Prod.fst) (back.map Prod.fst) key
    have values := insertIdx_append (front.map Prod.snd) (back.map Prod.snd) value
    rw [List.length_map] at keys values
    simp [ofEntries, first, keys, values]

end

/-- The entries of a dictionary come in any order. -/
def fromDictionary (routine : Routine (Key × Val)) (dictionary : Entries Key Val) :
    Except DictionaryException (FArraySortedDictionary Key Val) :=
  let sorted := routine.sorted (fun a b => a.1 < b.1) dictionary
  if ascending sorted then .ok (ofEntries sorted) else .error .keysWithSameOrdering

theorem fromDictionary_spec (routine : Routine (Key × Val)) {dictionary : Entries Key Val}
    (distinct : (dictionary.map Prod.fst).Nodup) :
    ∃ built, fromDictionary routine dictionary = .ok built ∧ built.Valid ∧ built.entries.Perm dictionary := by
  have sorted : Entries.Sorted (routine.sorted (fun a b => a.1 < b.1) dictionary) :=
    routine.strictly_increasing distinct
  refine ⟨ofEntries (routine.sorted (fun a b => a.1 < b.1) dictionary), ?_, valid_ofEntries sorted, ?_⟩
  · exact if_pos (ascending_of_sorted sorted)
  · rw [entries_ofEntries]
    exact routine.perm _ dictionary

end

end FArraySortedDictionary

/-! ## Enumeration -/

structure FArraySortedDictionaryEnumerator (Key : Type) where
  keys : List Key
  pos : ℤ
  reverse : Bool

namespace FArraySortedDictionaryEnumerator

def nextObject (enumerator : FArraySortedDictionaryEnumerator Key) :
    Option Key × FArraySortedDictionaryEnumerator Key :=
  if 0 ≤ enumerator.pos ∧ enumerator.pos < enumerator.keys.length then
    (enumerator.keys[enumerator.pos.toNat]?,
      { enumerator with pos := if enumerator.reverse then enumerator.pos - 1 else enumerator.pos + 1 })
  else (none, enumerator)

def objectAt (enumerator : FArraySortedDictionaryEnumerator Key) : ℕ → Option Key
  | 0 => enumerator.nextObject.1
  | calls + 1 => enumerator.nextObject.2.objectAt calls

theorem objectAt_upwards (front back : List Key) (calls : ℕ) :
    objectAt { keys := front ++ back, pos := front.length, reverse := false } calls = back[calls]? := by
  induction calls generalizing front back with
  | zero =>
    cases back with
    | nil => simp [objectAt, nextObject]
    | cons key rest =>
      have within : (front.length : ℤ) < front.length + (rest.length + 1) := by omega
      simp [objectAt, nextObject, within]
  | succ calls ih =>
    cases back with
    | nil =>
      rw [objectAt, nextObject, if_neg (by simp)]
      exact ih front []
    | cons key rest =>
      have moved := ih (front ++ [key]) rest
      rw [List.append_assoc, List.singleton_append, List.length_append, List.length_singleton] at moved
      have inside : (0 : ℤ) ≤ front.length ∧ (front.length : ℤ) < (front ++ key :: rest).length := by
        rw [List.length_append, List.length_cons]
        omega
      rw [objectAt, nextObject, if_pos inside]
      exact moved

theorem objectAt_downwards (front back : List Key) (calls : ℕ) :
    objectAt { keys := front ++ back, pos := (front.length : ℤ) - 1, reverse := true } calls =
      front.reverse[calls]? := by
  induction calls generalizing front back with
  | zero =>
    rcases front.eq_nil_or_concat with rfl | ⟨before, last, rfl⟩
    · simp [objectAt, nextObject]
    · have within : (before.length : ℤ) < before.length + (back.length + 1) := by omega
      simp [objectAt, nextObject, within]
  | succ calls ih =>
    rcases front.eq_nil_or_concat with rfl | ⟨before, last, rfl⟩
    · rw [objectAt, nextObject, if_neg (by simp)]
      exact ih [] back
    · have moved := ih before (last :: back)
      have position : ((before.length + 1 : ℕ) : ℤ) - 1 - 1 = before.length - 1 := by omega
      have inside : (0 : ℤ) ≤ (before.concat last).length - 1 ∧
          ((before.concat last).length : ℤ) - 1 < (before.concat last ++ back).length := by
        rw [List.length_append, List.length_concat]
        omega
      rw [objectAt, nextObject, if_pos inside]
      simp only [List.concat_eq_append, List.append_assoc, List.singleton_append, List.length_append,
        List.length_singleton, position, if_true, List.reverse_append, List.reverse_singleton,
        List.getElem?_cons_succ]
      exact moved

end FArraySortedDictionaryEnumerator

namespace FArraySortedDictionary
open FArraySortedDictionaryEnumerator

/-- The enumerators of an array go over all of it. -/
def keyEnumerator (dictionary : FArraySortedDictionary Key Val) : FArraySortedDictionaryEnumerator Key where
  keys := dictionary.keys
  pos := 0
  reverse := false

def reverseKeyEnumerator (dictionary : FArraySortedDictionary Key Val) :
    FArraySortedDictionaryEnumerator Key where
  keys := dictionary.keys
  pos := (dictionary.keys.length : ℤ) - 1
  reverse := true

section
variable [LinearOrder Key]

def keyEnumeratorFrom (dictionary : FArraySortedDictionary Key Val) (startKey : Key) :
    FArraySortedDictionaryEnumerator Key where
  keys := dictionary.keys
  pos := dictionary.findInsertPositionForKey startKey
  reverse := false

def reverseKeyEnumeratorFrom (dictionary : FArraySortedDictionary Key Val) (startKey : Key) :
    FArraySortedDictionaryEnumerator Key where
  keys := dictionary.keys
  -- Without an exact match the position is the one behind the closest key.
  pos := if dictionary.keys[dictionary.findInsertPositionForKey startKey]? = some startKey
    then dictionary.findInsertPositionForKey startKey else dictionary.findInsertPositionForKey startKey - 1
  reverse := true

end

variable {dictionary : FArraySortedDictionary Key Val}

theorem objectAt_keyEnumerator (paired : dictionary.keys.length = dictionary.values.length) (calls : ℕ) :
    dictionary.keyEnumerator.objectAt calls = (dictionary.entries.map Prod.fst)[calls]? := by
  rw [← keys_eq paired]
  exact objectAt_upwards [] dictionary.keys calls

theorem objectAt_reverseKeyEnumerator (paired : dictionary.keys.length = dictionary.values.length) (calls : ℕ) :
    dictionary.reverseKeyEnumerator.objectAt calls = (dictionary.entries.map Prod.fst).reverse[calls]? := by
  have down := objectAt_downwards dictionary.keys [] calls
  rw [List.append_nil] at down
  rw [← keys_eq paired]
  exact down

section
variable [LinearOrder Key]

theorem Valid.parts (valid : dictionary.Valid) (key : Key) :
    ∃ front back, dictionary.keys = front ++ back ∧ dictionary.findInsertPositionForKey key = front.length ∧
      (∀ other ∈ front, other < key) ∧ (∀ other ∈ back, key ≤ other) ∧ back.Pairwise (· < ·) := by
  obtain ⟨front, back, same, found, below, reached⟩ := findInsertPositionFrom_spec key valid.sorted 0
  have sorted : (dictionary.entries.map Prod.fst).Pairwise (· < ·) := List.pairwise_map.mpr valid.sorted
  rw [same, List.map_append] at sorted
  refine ⟨front.map Prod.fst, back.map Prod.fst, ?_, ?_, List.forall_mem_map.mpr below,
    List.forall_mem_map.mpr reached, (List.pairwise_append.mp sorted).2.1⟩
  · rw [keys_eq valid.paired, same, List.map_append]
  · rw [findInsertPositionForKey, keys_eq valid.paired, found, List.length_map, Nat.zero_add]

theorem objectAt_keyEnumeratorFrom (valid : dictionary.Valid) (startKey : Key) (calls : ℕ) :
    (dictionary.keyEnumeratorFrom startKey).objectAt calls =
      (keysFrom startKey false (dictionary.entries.map Prod.fst))[calls]? := by
  obtain ⟨front, back, same, found, below, reached, -⟩ := valid.parts startKey
  have none := keysFrom_of_below below (le_refl startKey) false
  have all : keysFrom startKey false back = back :=
    List.filter_eq_self.mpr fun other member => decide_eq_true (reached other member)
  rw [keyEnumeratorFrom, found, ← keys_eq valid.paired, same, objectAt_upwards, keysFrom_append, none, all]
  rfl

theorem objectAt_reverseKeyEnumeratorFrom (valid : dictionary.Valid) (startKey : Key) (calls : ℕ) :
    (dictionary.reverseKeyEnumeratorFrom startKey).objectAt calls =
      (keysFrom startKey true (dictionary.entries.map Prod.fst))[calls]? := by
  obtain ⟨front, back, same, found, below, reached, sorted⟩ := valid.parts startKey
  have all := keysFrom_of_below below (le_refl startKey) true
  rw [reverseKeyEnumeratorFrom, found, ← keys_eq valid.paired, same, keysFrom_append, if_pos rfl, all, if_pos rfl,
    List.getElem?_append_right (le_refl front.length), Nat.sub_self]
  cases back with
  | nil => exact objectAt_downwards front [] calls
  | cons first rest =>
    obtain ⟨above, -⟩ := List.pairwise_cons.mp sorted
    by_cases exactly : first = startKey
    · subst exactly
      have none := keysFrom_of_above above (le_refl first) true
      have down := objectAt_downwards (front ++ [first]) rest calls
      have position : ((front.length + 1 : ℕ) : ℤ) - 1 = front.length := by omega
      rw [List.append_assoc, List.singleton_append, List.length_append, List.length_singleton, position] at down
      rw [← List.singleton_append, keysFrom_append, none]
      simpa [keysFrom] using down
    · have greater : startKey < first := lt_of_le_of_ne (reached first List.mem_cons_self) (Ne.symm exactly)
      have none : keysFrom startKey true (first :: rest) = [] :=
        congrArg List.reverse (List.filter_eq_nil_iff.mpr fun other member => mt of_decide_eq_true (not_le.mpr ?_))
      · have down := objectAt_downwards front (first :: rest) calls
        simpa [exactly, none] using down
      · rcases List.mem_cons.mp member with rfl | later
        · exact greater
        · exact lt_trans greater (above other later)

end

end FArraySortedDictionary

end ProjectF02.SortedDictionary
