import Mathlib.Data.List.Chain
import Mathlib.Data.List.Sort
import Mathlib.Data.List.ReduceOption

/-! Sorting routines known only by what they promise.

A routine is given a comparison and returns a permutation in which nothing is
greater than what follows it. Where it leaves equal elements is its own affair,
so a result depends on the routine only when two elements compare equal.
-/

set_option autoImplicit false

namespace ProjectF02.Sorting

structure Routine (Item : Type) where
  sorted : (Item → Item → Bool) → List Item → List Item
  perm : ∀ less items, (sorted less items).Perm items
  ordered : ∀ {Key : Type} [LinearOrder Key] (key : Item → Key) (items : List Item),
    (sorted (fun a b => key a < key b) items).Pairwise fun a b => key a ≤ key b

variable {Item Key : Type} [LinearOrder Key]

namespace Routine

theorem nodup_keys {key : Item → Key} {items : List Item} (distinct : (items.map key).Nodup)
    (routine : Routine Item) :
    ((routine.sorted (fun a b => key a < key b) items).map key).Nodup :=
  ((routine.perm _ items).map key).nodup_iff.mpr distinct

theorem strictly_increasing {key : Item → Key} {items : List Item}
    (distinct : (items.map key).Nodup) (routine : Routine Item) :
    (routine.sorted (fun a b => key a < key b) items).Pairwise fun a b => key a < key b := by
  have different := List.pairwise_map.mp (routine.nodup_keys distinct)
  exact (routine.ordered key items).imp₂ (fun a b below other => lt_of_le_of_ne below other) different

/-- With distinct keys, neither the routine nor the order it is given matters. -/
theorem sorted_eq_of_perm {key : Item → Key} {items others : List Item}
    (distinct : (items.map key).Nodup) (same : items.Perm others) (first second : Routine Item) :
    first.sorted (fun a b => key a < key b) items = second.sorted (fun a b => key a < key b) others := by
  have distinct' : (others.map key).Nodup := (same.map key).nodup_iff.mp distinct
  apply List.Perm.eq_of_pairwise _ (first.strictly_increasing distinct) (second.strictly_increasing distinct')
  · exact (first.perm _ items).trans (same.trans (second.perm _ others).symm)
  · intro a b _ _ below above
    exact absurd below above.asymm

theorem sorted_downwards {key : Item → Key} {items others : List Item}
    (distinct : (items.map key).Nodup) (same : items.Perm others) (first second : Routine Item) :
    first.sorted (fun a b => key b < key a) items =
      (second.sorted (fun a b => key a < key b) others).reverse := by
  have distinct' : (others.map key).Nodup := (same.map key).nodup_iff.mp distinct
  have distinctDual : (items.map fun item => OrderDual.toDual (key item)).Nodup := distinct
  have downwards : (first.sorted (fun a b => key b < key a) items).Pairwise fun a b => key b < key a :=
    first.strictly_increasing distinctDual
  apply List.Perm.eq_of_pairwise _ downwards (List.pairwise_reverse.mpr (second.strictly_increasing distinct'))
  · exact (first.perm _ items).trans (same.trans ((second.perm _ others).symm.trans (List.reverse_perm _).symm))
  · intro a b _ _ above below
    exact absurd above below.asymm

theorem head?_sorted {key : Item → Key} {items : List Item} (distinct : (items.map key).Nodup)
    (routine : Routine Item) {least : Item} (member : least ∈ items)
    (bound : ∀ item ∈ items, key least ≤ key item) :
    (routine.sorted (fun a b => key a < key b) items).head? = some least := by
  have increasing := routine.strictly_increasing distinct
  have same := routine.perm (fun a b => decide (key a < key b)) items
  cases arranged : routine.sorted (fun a b => decide (key a < key b)) items with
  | nil =>
    rw [arranged] at same
    cases same.mem_iff.mpr member
  | cons first rest =>
    rw [arranged] at increasing same
    rcases List.mem_cons.mp (same.mem_iff.mpr member) with rfl | later
    · rfl
    · have below := (List.pairwise_cons.mp increasing).1 least later
      exact absurd below (bound first (same.mem_iff.mp List.mem_cons_self)).not_gt

/-- Merge sort keeps the promise, and leaves equal elements in the order they came in. -/
def merge : Routine Item where
  sorted less items := items.mergeSort fun a b => !less b a
  perm less items := List.mergeSort_perm items _
  ordered key items := by
    have sorted : (items.mergeSort fun a b => !decide (key b < key a)).Pairwise
        fun a b => (!decide (key b < key a)) = true := by
      apply List.pairwise_mergeSort
      · intro a b c first second
        simp only [Bool.not_eq_true', decide_eq_false_iff_not, not_lt] at *
        exact first.trans second
      · intro a b
        simp only [Bool.or_eq_true, Bool.not_eq_true', decide_eq_false_iff_not, not_lt]
        exact le_total _ _
    exact sorted.imp fun below => by simpa using below

end Routine

theorem reverse_eq_self_iff {items : List Item} {key : Item → Key}
    (increasing : items.Pairwise fun a b => key a < key b) : items.reverse = items ↔ items.length ≤ 1 := by
  constructor
  · intro same
    have decreasing := List.pairwise_reverse.mp (same.symm ▸ increasing)
    cases items with
    | nil => exact Nat.zero_le 1
    | cons first rest =>
      cases rest with
      | nil => exact le_rfl
      | cons second rest =>
        have up := (List.pairwise_cons.mp increasing).1 second List.mem_cons_self
        have down := (List.pairwise_cons.mp decreasing).1 second List.mem_cons_self
        exact absurd up down.asymm
  · intro short
    cases items with
    | nil => rfl
    | cons first rest =>
      obtain rfl := List.length_eq_zero_iff.mp (Nat.le_zero.mp (Nat.le_of_succ_le_succ short))
      rfl

/-- Two keys of a list with no other one between them. -/
structure Consecutive (keys : List Key) (first second : Key) : Prop where
  low : first ∈ keys
  high : second ∈ keys
  below : first < second
  empty : ∀ other ∈ keys, other ≤ first ∨ second ≤ other

section Neighbours
variable {keys : List Key} {head first second : Key}

theorem Consecutive.cons (least : ∀ other ∈ keys, head ≤ other) (next : Consecutive keys first second) :
    Consecutive (head :: keys) first second where
  low := List.mem_cons_of_mem _ next.low
  high := List.mem_cons_of_mem _ next.high
  below := next.below
  empty := List.forall_mem_cons.mpr ⟨.inl (least first next.low), next.empty⟩

theorem Consecutive.of_cons (least : ∀ other ∈ keys, head ≤ other)
    (next : Consecutive (head :: keys) first second) (low : first ∈ keys) : Consecutive keys first second where
  low := low
  high := by
    refine (List.mem_cons.mp next.high).resolve_left fun same => ?_
    subst same
    exact absurd next.below (least first low).not_gt
  below := next.below
  empty other member := next.empty other (List.mem_cons_of_mem _ member)

theorem consecutive_head_iff {follower : Key} (member : follower ∈ keys)
    (least : ∀ other ∈ keys, follower ≤ other) (below : head < follower) :
    Consecutive (head :: keys) head second ↔ second = follower := by
  constructor
  · intro next
    have later : second ∈ keys := (List.mem_cons.mp next.high).resolve_left next.below.ne'
    have reached := (next.empty follower (List.mem_cons_of_mem _ member)).resolve_left below.not_ge
    exact le_antisymm reached (least second later)
  · intro same
    subst same
    exact {
      low := List.mem_cons_self
      high := List.mem_cons_of_mem _ member
      below := below
      empty := List.forall_mem_cons.mpr ⟨.inl le_rfl, fun other later => .inr (least other later)⟩ }

end Neighbours

/-- A relation that every key has to itself holds between the neighbours of a sorted list exactly if
it holds between consecutive keys. -/
theorem isChain_iff_consecutive {Step : Key → Key → Prop} (stay : ∀ key, Step key key) {keys : List Key}
    (increasing : keys.Pairwise fun a b => a ≤ b) :
    keys.IsChain Step ↔ ∀ first second, Consecutive keys first second → Step first second := by
  induction keys with
  | nil => exact iff_of_true .nil fun first second next => by cases next.low
  | cons head tail ih =>
    obtain ⟨least, sorted⟩ := List.pairwise_cons.mp increasing
    cases tail with
    | nil =>
      refine iff_of_true (.singleton head) fun first second next => ?_
      have below := next.below
      rw [List.mem_singleton.mp next.low, List.mem_singleton.mp next.high] at below
      exact absurd below (lt_irrefl head)
    | cons follower rest =>
      have member : follower ∈ follower :: rest := List.mem_cons_self
      have leastLater : ∀ other ∈ follower :: rest, follower ≤ other :=
        List.forall_mem_cons.mpr ⟨le_rfl, (List.pairwise_cons.mp sorted).1⟩
      rw [List.isChain_cons_cons, ih sorted]
      constructor
      · rintro ⟨step, later⟩ first second next
        by_cases low : first ∈ follower :: rest
        · exact later first second (next.of_cons least low)
        · -- The head, which does not occur again, is followed by the next key of the list.
          obtain rfl := (List.mem_cons.mp next.low).resolve_right low
          have below := (least follower member).lt_of_ne fun same => low (same ▸ member)
          rw [(consecutive_head_iff member leastLater below).mp next]
          exact step
      · intro all
        constructor
        · rcases (least follower member).eq_or_lt with rfl | below
          · exact stay head
          · exact all head follower ((consecutive_head_iff member leastLater below).mpr rfl)
        · intro first second next
          exact all first second (next.cons least)

theorem Consecutive.of_perm {keys others : List Key} (same : keys.Perm others) {first second : Key}
    (next : Consecutive keys first second) : Consecutive others first second :=
  ⟨same.mem_iff.mp next.low, same.mem_iff.mp next.high, next.below,
    fun other member => next.empty other (same.mem_iff.mpr member)⟩

theorem map_name_reduceOption {Name : Type} {find : Name → Option Item} {name : Item → Name}
    {names : List Name} (found : ∀ n ∈ names, ∃ item, find n = some item ∧ name item = n) :
    ((names.map find).reduceOption).map name = names := by
  induction names with
  | nil => rfl
  | cons first rest ih =>
    obtain ⟨⟨item, present, same⟩, others⟩ := List.forall_mem_cons.mp found
    rw [List.map_cons, present, List.reduceOption_cons_of_some, List.map_cons, same, ih others]

end ProjectF02.Sorting
