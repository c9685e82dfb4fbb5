import Mathlib.Data.List.Nodup
import Mathlib.Data.List.Perm.Subperm
import Mathlib.Order.Bounds.Basic

/-! Finite maps kept as a list of entries in the order of their keys.

A map has exactly one such list, so two lists that hold the same values under
the same keys are equal.
-/

set_option autoImplicit false

namespace ProjectF02.Store

variable {Key Val : Type}

abbrev Entries (Key Val : Type) := List (Key × Val)

namespace Entries

section
variable [DecidableEq Key]

def get : Entries Key Val → Key → Option Val
  | [], _ => none
  | (found, value) :: rest, key => if found = key then some value else get rest key

theorem get_mem {entries : Entries Key Val} {key : Key} {value : Val}
    (found : get entries key = some value) : (key, value) ∈ entries := by
  induction entries with
  | nil => cases found
  | cons entry rest ih =>
    obtain ⟨first, held⟩ := entry
    rw [get] at found
    split at found
    · next same =>
      subst same
      cases found
      exact List.mem_cons_self
    · exact List.mem_cons_of_mem _ (ih found)

theorem get_isSome {entries : Entries Key Val} {key : Key} {value : Val}
    (member : (key, value) ∈ entries) : ∃ held, get entries key = some held := by
  induction entries with
  | nil => cases member
  | cons entry rest ih =>
    obtain ⟨first, held⟩ := entry
    rw [get]
    split
    · exact ⟨held, rfl⟩
    · next different =>
      rcases List.mem_cons.mp member with same | later
      · cases same
        exact absurd rfl different
      · exact ih later

theorem ne_of_get_eq_none {entries : Entries Key Val} {key : Key} (missing : get entries key = none)
    {entry : Key × Val} (member : entry ∈ entries) : entry.1 ≠ key := by
  rintro rfl
  obtain ⟨held, found⟩ := get_isSome (show (entry.1, entry.2) ∈ entries from member)
  rw [missing] at found
  cases found

theorem get_eq_none_of_ne {entries : Entries Key Val} {key : Key} (apart : ∀ entry ∈ entries, entry.1 ≠ key) :
    get entries key = none := by
  cases found : get entries key with
  | none => rfl
  | some value => exact absurd rfl (apart _ (get_mem found))

theorem get_of_nodup {entries : Entries Key Val} (distinct : (entries.map Prod.fst).Nodup) {key : Key}
    {value : Val} (member : (key, value) ∈ entries) : get entries key = some value := by
  obtain ⟨held, found⟩ := get_isSome member
  have same := List.inj_on_of_nodup_map distinct (get_mem found) member rfl
  rw [found, (Prod.mk.inj same).2]

theorem get_eq_of_perm {left right : Entries Key Val} (same : left.Perm right)
    (distinct : (right.map Prod.fst).Nodup) (key : Key) : get left key = get right key := by
  cases found : get right key with
  | none => exact get_eq_none_of_ne fun entry member => ne_of_get_eq_none found (same.mem_iff.mp member)
  | some value =>
    exact get_of_nodup ((same.map Prod.fst).nodup_iff.mpr distinct) (same.mem_iff.mpr (get_mem found))

theorem mem_keys_iff {entries : Entries Key Val} {key : Key} :
    key ∈ entries.map Prod.fst ↔ (get entries key).isSome := by
  constructor
  · intro member
    obtain ⟨⟨first, value⟩, listed, rfl⟩ := List.mem_map.mp member
    obtain ⟨held, found⟩ := get_isSome listed
    rw [found, Option.isSome_some]
  · intro present
    obtain ⟨held, found⟩ := Option.isSome_iff_exists.mp present
    exact List.mem_map.mpr ⟨(key, held), get_mem found, rfl⟩

end

section
variable [LinearOrder Key]

def insert (entries : Entries Key Val) (key : Key) (value : Val) : Entries Key Val :=
  match entries with
  | [] => [(key, value)]
  | (first, held) :: rest =>
      if key < first then (key, value) :: (first, held) :: rest
      else if first = key then (key, value) :: rest
      else (first, held) :: insert rest key value

def erase (entries : Entries Key Val) (key : Key) : Entries Key Val :=
  match entries with
  | [] => []
  | (first, held) :: rest => if first = key then rest else (first, held) :: erase rest key

def Sorted (entries : Entries Key Val) : Prop :=
  entries.Pairwise fun entry later => entry.1 < later.1

theorem Sorted.nil : Sorted ([] : Entries Key Val) := List.Pairwise.nil

theorem sorted_cons {entry : Key × Val} {rest : Entries Key Val} :
    Sorted (entry :: rest) ↔ (∀ later ∈ rest, entry.1 < later.1) ∧ Sorted rest := List.pairwise_cons

theorem get_eq_none_of_below {entries : Entries Key Val} {key : Key}
    (below : ∀ entry ∈ entries, key < entry.1) : get entries key = none := by
  cases found : get entries key with
  | none => rfl
  | some value => exact absurd (below _ (get_mem found)) (lt_irrefl key)

theorem Sorted.nodup_keys {entries : Entries Key Val} (sorted : Sorted entries) : (entries.map Prod.fst).Nodup :=
  List.pairwise_map.mpr (sorted.imp fun less => ne_of_lt less)

theorem Sorted.get_of_mem {entries : Entries Key Val} (sorted : Sorted entries) {key : Key} {value : Val}
    (member : (key, value) ∈ entries) : get entries key = some value := get_of_nodup sorted.nodup_keys member

theorem insert_ne_nil (entries : Entries Key Val) (key : Key) (value : Val) :
    entries.insert key value ≠ [] := by
  cases entries with
  | nil => exact List.cons_ne_nil _ _
  | cons entry rest =>
    obtain ⟨first, held⟩ := entry
    rw [insert]
    split
    · exact List.cons_ne_nil _ _
    · split <;> exact List.cons_ne_nil _ _

theorem mem_insert {entries : Entries Key Val} {key : Key} {value : Val} {entry : Key × Val}
    (member : entry ∈ entries.insert key value) : entry = (key, value) ∨ entry ∈ entries := by
  induction entries with
  | nil => exact .inl (List.mem_singleton.mp member)
  | cons other rest ih =>
    obtain ⟨first, held⟩ := other
    rw [insert] at member
    split at member
    · exact List.mem_cons.mp member
    · split at member
      · exact (List.mem_cons.mp member).imp_right (List.mem_cons_of_mem _)
      · rcases List.mem_cons.mp member with same | later
        · exact .inr (same ▸ List.mem_cons_self)
        · exact (ih later).imp_right (List.mem_cons_of_mem _)

theorem Sorted.insert {entries : Entries Key Val} (sorted : Sorted entries) (key : Key) (value : Val) :
    Sorted (entries.insert key value) := by
  induction entries with
  | nil => exact List.pairwise_singleton _ _
  | cons entry rest ih =>
    obtain ⟨first, held⟩ := entry
    obtain ⟨above, others⟩ := sorted_cons.mp sorted
    rw [Entries.insert]
    split
    · next before =>
      refine sorted_cons.mpr ⟨fun later member => ?_, sorted⟩
      rcases List.mem_cons.mp member with rfl | member
      · exact before
      · exact lt_trans before (above later member)
    · split
      · next same =>
        subst same
        exact sorted_cons.mpr ⟨above, others⟩
      · next notBefore different =>
        refine sorted_cons.mpr ⟨fun later member => ?_, ih others⟩
        rcases mem_insert member with rfl | member
        · exact lt_of_le_of_ne (not_lt.mp notBefore) different
        · exact above later member

theorem get_insert (entries : Entries Key Val) (key : Key) (value : Val) (other : Key) :
    (entries.insert key value).get other = if key = other then some value else entries.get other := by
  induction entries with
  | nil => rfl
  | cons entry rest ih =>
    obtain ⟨first, held⟩ := entry
    rw [insert]
    split
    · rfl
    · split
      · next same =>
        subst same
        by_cases sought : first = other <;> simp [get, sought]
      · next different =>
        rw [get, ih, get]
        by_cases sought : first = other
        · subst sought
          simp [Ne.symm different]
        · simp [sought]

/-! ## Removal -/

theorem erase_sublist (entries : Entries Key Val) (key : Key) : (entries.erase key).Sublist entries := by
  induction entries with
  | nil => exact List.Sublist.refl _
  | cons entry rest ih =>
    rw [erase]
    split
    · exact List.sublist_cons_self _ _
    · exact ih.cons_cons _

theorem Sorted.erase {entries : Entries Key Val} (sorted : Sorted entries) (key : Key) :
    Sorted (entries.erase key) := List.Pairwise.sublist (erase_sublist entries key) sorted

theorem Sorted.get_erase {entries : Entries Key Val} (sorted : Sorted entries) (key other : Key) :
    (entries.erase key).get other = if key = other then none else entries.get other := by
  induction entries with
  | nil => exact (ite_self none).symm
  | cons entry rest ih =>
    obtain ⟨first, held⟩ := entry
    obtain ⟨above, others⟩ := sorted_cons.mp sorted
    rw [Entries.erase]
    split
    · next same =>
      subst same
      by_cases sought : first = other
      · subst sought
        rw [if_pos rfl, get_eq_none_of_below above]
      · rw [if_neg sought, get, if_neg sought]
    · next different =>
      rw [get, ih others, get]
      by_cases sought : first = other
      · subst sought
        simp [Ne.symm different]
      · simp [sought]

omit [LinearOrder Key] in
theorem get_append [DecidableEq Key] (front back : Entries Key Val) (key : Key) :
    get (front ++ back) key = (front.get key).or (back.get key) := by
  induction front with
  | nil => rfl
  | cons entry rest ih =>
    obtain ⟨first, held⟩ := entry
    by_cases same : first = key <;> simp [get, same, ih]

theorem sorted_append_cons {front back : Entries Key Val} {key : Key} {value : Val}
    (sorted : Sorted (front ++ (key, value) :: back)) :
    (Sorted front ∧ Sorted back) ∧ (∀ entry ∈ front, entry.1 < key) ∧ ∀ entry ∈ back, key < entry.1 := by
  obtain ⟨before, rest, across⟩ := List.pairwise_append.mp sorted
  obtain ⟨above, after⟩ := sorted_cons.mp rest
  exact ⟨⟨before, after⟩, fun entry member => across entry member (key, value) List.mem_cons_self, above⟩

theorem Sorted.get_append_cons_of_lt {front back : Entries Key Val} {held key : Key} {value : Val}
    (sorted : Sorted (front ++ (held, value) :: back)) (less : key < held) :
    get (front ++ (held, value) :: back) key = front.get key := by
  obtain ⟨-, -, above⟩ := sorted_append_cons sorted
  have none : back.get key = none := get_eq_none_of_below fun entry member => lt_trans less (above entry member)
  rw [get_append, get, if_neg (ne_of_gt less), none, Option.or_none]

theorem Sorted.get_append_cons_of_gt {front back : Entries Key Val} {held key : Key} {value : Val}
    (sorted : Sorted (front ++ (held, value) :: back)) (greater : held < key) :
    get (front ++ (held, value) :: back) key = back.get key := by
  obtain ⟨-, below, -⟩ := sorted_append_cons sorted
  have none : front.get key = none :=
    get_eq_none_of_ne fun entry member => ne_of_lt (lt_trans (below entry member) greater)
  rw [get_append, get, if_neg (ne_of_lt greater), none, Option.none_or]

theorem insert_append_of_above {front : Entries Key Val} {key : Key} (above : ∀ entry ∈ front, entry.1 < key)
    (back : Entries Key Val) (value : Val) :
    Entries.insert (front ++ back) key value = front ++ back.insert key value := by
  induction front with
  | nil => rfl
  | cons entry rest ih =>
    obtain ⟨first, held⟩ := entry
    obtain ⟨now, later⟩ := List.forall_mem_cons.mp above
    rw [List.cons_append, Entries.insert, if_neg (not_lt_of_gt now), if_neg (ne_of_lt now), ih later,
      List.cons_append]

theorem insert_append_of_below {least key : Key} (below : key < least) (front back : Entries Key Val)
    (held value : Val) :
    Entries.insert (front ++ (least, held) :: back) key value =
      front.insert key value ++ (least, held) :: back := by
  induction front with
  | nil => simp only [List.nil_append, Entries.insert, below, if_true, List.cons_append]
  | cons entry rest ih =>
    obtain ⟨first, old⟩ := entry
    simp only [List.cons_append, Entries.insert, ih]
    split
    · rfl
    · split <;> rfl

theorem erase_append_of_ne {front : Entries Key Val} {key : Key} (apart : ∀ entry ∈ front, entry.1 ≠ key)
    (back : Entries Key Val) : Entries.erase (front ++ back) key = front ++ back.erase key := by
  induction front with
  | nil => rfl
  | cons entry rest ih =>
    obtain ⟨first, held⟩ := entry
    obtain ⟨now, later⟩ := List.forall_mem_cons.mp apart
    rw [List.cons_append, Entries.erase, if_neg now, ih later, List.cons_append]

theorem erase_of_ne {entries : Entries Key Val} {key : Key} (apart : ∀ entry ∈ entries, entry.1 ≠ key) :
    entries.erase key = entries := by
  have same := erase_append_of_ne apart []
  rwa [List.append_nil, Entries.erase, List.append_nil] at same

theorem erase_append_of_ne_back {back : Entries Key Val} {key : Key} (apart : ∀ entry ∈ back, entry.1 ≠ key)
    (front : Entries Key Val) : Entries.erase (front ++ back) key = front.erase key ++ back := by
  induction front with
  | nil => exact erase_of_ne apart
  | cons entry rest ih =>
    obtain ⟨first, held⟩ := entry
    rw [List.cons_append, Entries.erase, Entries.erase, ih]
    split <;> rfl

/-! ## Entries in another order -/

theorem Sorted.eq_of_perm {left right : Entries Key Val} (leftSorted : Sorted left) (rightSorted : Sorted right)
    (same : left.Perm right) : left = right :=
  List.Perm.eq_of_pairwise (fun _ _ _ _ below above => absurd below (lt_asymm above)) leftSorted rightSorted same

theorem Sorted.eq_of_held {left right : Entries Key Val} (leftSorted : Sorted left) (rightSorted : Sorted right)
    (many : left.length = right.length) (held : ∀ entry ∈ left, right.get entry.1 = some entry.2) :
    left = right := by
  have distinct : left.Nodup := List.Nodup.of_map Prod.fst leftSorted.nodup_keys
  have within : left ⊆ right := fun entry member => get_mem (held entry member)
  exact leftSorted.eq_of_perm rightSorted
    ((List.Nodup.subperm distinct within).perm_of_length_le (le_of_eq many.symm))

theorem perm_insert {entries : Entries Key Val} {key : Key} (apart : ∀ entry ∈ entries, entry.1 ≠ key)
    (value : Val) : (entries.insert key value).Perm ((key, value) :: entries) := by
  induction entries with
  | nil => exact List.Perm.refl _
  | cons entry rest ih =>
    obtain ⟨first, held⟩ := entry
    obtain ⟨now, later⟩ := List.forall_mem_cons.mp apart
    rw [Entries.insert]
    by_cases less : key < first
    · rw [if_pos less]
    · rw [if_neg less, if_neg now]
      exact ((ih later).cons _).trans (List.Perm.swap _ _ _)

def predecessor (entries : Entries Key Val) (key : Key) : Option Key :=
  (entries.filter fun entry => entry.1 < key).getLast?.map Prod.fst

theorem predecessor_append_of_le {back : Entries Key Val} {key : Key} (after : ∀ entry ∈ back, key ≤ entry.1)
    (front : Entries Key Val) : predecessor (front ++ back) key = predecessor front key := by
  have none : back.filter (fun entry => entry.1 < key) = [] :=
    List.filter_eq_nil_iff.mpr fun entry member below =>
      not_lt.mpr (after entry member) (of_decide_eq_true below)
  rw [predecessor, List.filter_append, none, List.append_nil, predecessor]

theorem predecessor_of_below {entries : Entries Key Val} {key : Key} (below : ∀ entry ∈ entries, entry.1 < key) :
    predecessor entries key = entries.getLast?.map Prod.fst := by
  rw [predecessor, List.filter_eq_self.mpr fun entry member => decide_eq_true (below entry member)]

theorem predecessor_append_cons_of_lt {held key : Key} (before : held < key) (front back : Entries Key Val)
    (value : Val) :
    predecessor (front ++ (held, value) :: back) key = (back.predecessor key).or (some held) := by
  have kept : ((held, value) :: back).filter (fun entry => entry.1 < key) =
      (held, value) :: back.filter fun entry => entry.1 < key := List.filter_cons_of_pos (decide_eq_true before)
  rw [predecessor, List.filter_append, kept, predecessor, List.getLast?_append_of_ne_nil _ (List.cons_ne_nil _ _),
    List.getLast?_cons]
  cases (back.filter fun entry => entry.1 < key).getLast? <;> rfl

theorem getLast?_eq_some_iff {keys : List Key} (increasing : keys.Pairwise (· < ·)) {key : Key} :
    keys.getLast? = some key ↔ IsGreatest {other | other ∈ keys} key := by
  rcases keys.eq_nil_or_concat with rfl | ⟨front, last, rfl⟩
  · exact ⟨nofun, fun greatest => absurd greatest.1 List.not_mem_nil⟩
  · rw [List.concat_eq_append] at increasing ⊢
    obtain ⟨-, -, below⟩ := List.pairwise_append.mp increasing
    have greatest : IsGreatest {other | other ∈ front ++ [last]} last := by
      refine ⟨List.mem_append_right _ List.mem_cons_self, fun other member => ?_⟩
      rcases List.mem_append.mp member with before | same
      · exact le_of_lt (below other before last List.mem_cons_self)
      · exact le_of_eq (List.mem_singleton.mp same)
    rw [List.getLast?_concat, Option.some_inj]
    exact ⟨fun same => same ▸ greatest, fun other => greatest.unique other⟩

theorem head?_eq_some_iff {keys : List Key} (increasing : keys.Pairwise (· < ·)) {key : Key} :
    keys.head? = some key ↔ IsLeast {other | other ∈ keys} key := by
  cases keys with
  | nil => exact ⟨nofun, fun least => absurd least.1 List.not_mem_nil⟩
  | cons first rest =>
    obtain ⟨above, -⟩ := List.pairwise_cons.mp increasing
    have least : IsLeast {other | other ∈ first :: rest} first := by
      refine ⟨List.mem_cons_self, fun other member => ?_⟩
      rcases List.mem_cons.mp member with same | later
      · exact ge_of_eq same
      · exact le_of_lt (above other later)
    rw [List.head?_cons, Option.some_inj]
    exact ⟨fun same => same ▸ least, fun other => least.unique other⟩

theorem Sorted.predecessor_eq_some_iff {entries : Entries Key Val} (sorted : Sorted entries) {key other : Key} :
    entries.predecessor key = some other ↔
      IsGreatest {smaller | smaller < key ∧ (entries.get smaller).isSome} other := by
  have increasing : ((entries.map Prod.fst).filter fun held => held < key).Pairwise (· < ·) :=
    List.Pairwise.filter _ (List.pairwise_map.mpr sorted)
  have same : {smaller | smaller ∈ (entries.map Prod.fst).filter fun held => held < key} =
      {smaller | smaller < key ∧ (entries.get smaller).isSome} := by
    ext smaller
    exact List.mem_filter.trans (by rw [mem_keys_iff, decide_eq_true_iff, And.comm]; rfl)
  rw [← same, ← getLast?_eq_some_iff increasing, predecessor, List.filter_map, List.getLast?_map]
  rfl

theorem Sorted.ext {left right : Entries Key Val} (leftSorted : Sorted left) (rightSorted : Sorted right)
    (same : ∀ key, left.get key = right.get key) : left = right := by
  induction left generalizing right with
  | nil =>
    cases right with
    | nil => rfl
    | cons entry rest => simpa [get] using same entry.1
  | cons entry rest ih =>
    obtain ⟨first, held⟩ := entry
    obtain ⟨above, others⟩ := sorted_cons.mp leftSorted
    cases right with
    | nil => simpa [get] using same first
    | cons head tail =>
      obtain ⟨least, value⟩ := head
      obtain ⟨rightAbove, rightOthers⟩ := sorted_cons.mp rightSorted
      -- The smaller of the two first keys would be missing from the other list.
      have heads : first = least := by
        rcases lt_trichotomy first least with before | equal | after
        · have missing := same first
          rw [get, if_pos rfl, get_eq_none_of_below] at missing
          · cases missing
          · intro entry member
            rcases List.mem_cons.mp member with rfl | member
            · exact before
            · exact lt_trans before (rightAbove entry member)
        · exact equal
        · have missing := same least
          rw [get_eq_none_of_below, get, if_pos rfl] at missing
          · cases missing
          · intro entry member
            rcases List.mem_cons.mp member with rfl | member
            · exact after
            · exact lt_trans after (above entry member)
      subst heads
      have values : held = value := by simpa [get] using same first
      subst values
      congr 1
      apply ih others rightOthers
      intro key
      by_cases sought : first = key
      · subst sought
        rw [get_eq_none_of_below above, get_eq_none_of_below rightAbove]
      · simpa [get, sought] using same key

end

end Entries

end ProjectF02.Store
