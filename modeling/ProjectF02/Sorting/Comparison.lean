import ProjectF02.Sorting.Routine
import ProjectF02.Transition.Loops
import Mathlib.Order.WithBot
import Mathlib.Data.List.Pairwise
import Mathlib.Data.Fin.SuccPred

/-! Sorting by comparisons that may fail.

A sort is given as the decisions it takes: which two positions it compares next,
and the arrangement it ends with. It sees the items through the comparisons only,
so it has to look at each of them as soon as there are two. When one item cannot be
compared, sorting a list of two or more items fails, whatever the algorithm.
-/

set_option autoImplicit false

namespace ProjectF02.Sorting

inductive Plan (n : Nat) where
  | arranged (order : List (Fin n))
  | compare (first second : Fin n) (next : Bool → Plan n)

variable {Failure Item Key : Type} [LinearOrder Key]

namespace Plan
variable {n : Nat}

def order (less : Fin n → Fin n → Bool) : Plan n → List (Fin n)
  | .arranged order => order
  | .compare first second next => (next (less first second)).order less

def run (less : Fin n → Fin n → Except Failure Bool) : Plan n → Except Failure (List (Fin n))
  | .arranged order => .ok order
  | .compare first second next => do (next (← less first second)).run less

/-- A run that succeeds ends as one with any comparison that agrees where this one answers. -/
theorem order_of_run {less : Fin n → Fin n → Except Failure Bool} {other : Fin n → Fin n → Bool}
    {result : List (Fin n)}
    (agree : ∀ first second before, less first second = .ok before → other first second = before)
    (plan : Plan n) (ran : plan.run less = .ok result) : plan.order other = result := by
  induction plan with
  | arranged order => exact Except.ok.inj ran
  | compare first second next ih =>
    obtain ⟨before, compared, rest⟩ := Transition.ok_of_bind ran
    rw [order, agree first second before compared]
    exact ih before rest

theorem run_total (less : Fin n → Fin n → Bool) (plan : Plan n) :
    plan.run (fun first second => (.ok (less first second) : Except Failure Bool)) =
      .ok (plan.order less) := by
  induction plan with
  | arranged order => rfl
  | compare first second next ih => exact ih _

end Plan

/-- A sorting algorithm, which compares nothing where there is nothing to compare. -/
structure ComparisonSort where
  plan : (n : Nat) → Plan n
  short : ∀ n, n < 2 → plan n = .arranged (List.finRange n)
  perm : ∀ {n : Nat} (less : Fin n → Fin n → Bool), ((plan n).order less).Perm (List.finRange n)
  ordered : ∀ {n : Nat} {Key : Type} [LinearOrder Key] (key : Fin n → Key),
    ((plan n).order fun first second => key first < key second).Pairwise
      fun first second => key first ≤ key second

namespace ComparisonSort

def sorted (sort : ComparisonSort) (less : Item → Item → Except Failure Bool) (items : List Item) :
    Except Failure (List Item) := do
  let order ← (sort.plan items.length).run fun first second => less (items.get first) (items.get second)
  return order.map items.get

def routine (sort : ComparisonSort) : Routine Item where
  sorted less items :=
    ((sort.plan items.length).order fun first second => less (items.get first) (items.get second)).map
      items.get
  perm less items := by
    have listed := (sort.perm fun first second => less (items.get first) (items.get second)).map items.get
    rwa [List.map_get_finRange] at listed
  ordered key items := List.pairwise_map.mpr (sort.ordered fun position => key (items.get position))

theorem perm_of_sorted (sort : ComparisonSort) {less : Item → Item → Except Failure Bool}
    {items result : List Item} (ran : sort.sorted less items = .ok result) : result.Perm items := by
  obtain ⟨order, arranged, same⟩ := Transition.ok_of_bind ran
  obtain rfl := Except.ok.inj same
  -- Any total comparison that agrees with the answers leads to the same arrangement.
  let other (first second : Fin items.length) : Bool :=
    (less (items.get first) (items.get second)).toOption.getD false
  have agrees : ∀ first second before, less (items.get first) (items.get second) = .ok before →
      other first second = before := by
    intro first second before answered
    unfold other
    rw [answered]
    rfl
  have reached := Plan.order_of_run agrees _ arranged
  have listed := (reached ▸ sort.perm _ : order.Perm (List.finRange items.length)).map items.get
  rwa [List.map_get_finRange] at listed

/-! ## Items without a key -/

def Compares (less : Item → Item → Except Failure Bool) (key : Item → Option Key) : Prop :=
  ∀ first second before, less first second = .ok before →
    ∃ x y, key first = some x ∧ key second = some y ∧ before = decide (x < y)

/-- The key as one of an order in which the items without a key come first. -/
def orBottom (key : Option Key) : WithBot Key := key.elim ⊥ WithBot.some

theorem orBottom_lt {key other : Option Key} {x y : Key} (known : key = some x) (known' : other = some y) :
    orBottom key < orBottom other ↔ x < y := by
  rw [known, known']
  exact WithBot.coe_lt_coe

theorem orBottom_le {key other : Option Key} {x y : Key} (known : key = some x) (known' : other = some y) :
    orBottom key ≤ orBottom other ↔ x ≤ y := by
  rw [known, known']
  exact WithBot.coe_le_coe

section Unkeyed
variable {n : Nat} {less : Fin n → Fin n → Except Failure Bool} {key : Fin n → Option Key}

/-- The keys, with one position after or before all others and a place for those that have none. -/
def keyedLast (key : Fin n → Option Key) (position p : Fin n) : WithTop (WithBot Key) :=
  if p = position then ⊤ else WithTop.some (orBottom (key p))

def keyedFirst (key : Fin n → Option Key) (position p : Fin n) : WithBot (WithBot Key) :=
  if p = position then ⊥ else WithBot.some (orBottom (key p))

theorem order_of_extension {Wide : Type} [LinearOrder Wide] (compares : Compares less key)
    (extended : Fin n → Wide)
    (agree : ∀ a b x y, key a = some x → key b = some y → (extended a < extended b ↔ x < y))
    {plan : Plan n} {result : List (Fin n)} (ran : plan.run less = .ok result) :
    plan.order (fun a b => decide (extended a < extended b)) = result := by
  apply Plan.order_of_run _ plan ran
  intro a b before answered
  obtain ⟨x, y, known, known', rfl⟩ := compares a b before answered
  exact decide_eq_decide.mpr (agree a b x y known known')

/-- Two or more positions are never arranged without a look at each of them. -/
theorem not_run_of_unkeyed (sort : ComparisonSort) (large : 1 < n) (compares : Compares less key)
    {position : Fin n} (absent : key position = none) (result : List (Fin n)) :
    (sort.plan n).run less ≠ .ok result := by
  intro ran
  have keyed {p : Fin n} {x : Key} (known : key p = some x) : p ≠ position := by
    rintro rfl
    rw [absent] at known
    cases known
  have last := order_of_extension compares (keyedLast key position) (by
    intro a b x y known known'
    simp only [keyedLast, keyed known, keyed known', if_false]
    exact WithTop.coe_lt_coe.trans (orBottom_lt known known')) ran
  have first := order_of_extension compares (keyedFirst key position) (by
    intro a b x y known known'
    simp only [keyedFirst, keyed known, keyed known', if_false]
    exact WithBot.coe_lt_coe.trans (orBottom_lt known known')) ran
  -- The arrangement is right with the position last and with it first, so nothing is beside it.
  have together : result.Pairwise fun a b => (a = position ↔ b = position) := by
    refine ((last ▸ sort.ordered (keyedLast key position)).and
      (first ▸ sort.ordered (keyedFirst key position))).imp ?_
    rintro a b ⟨rising, rising'⟩
    by_cases here : a = position <;> by_cases there : b = position
    · exact iff_of_true here there
    · simp [keyedLast, here, there] at rising
    · simp [keyedFirst, here, there] at rising'
    · exact iff_of_false here there
  have listed (p : Fin n) : p ∈ result :=
    (last ▸ sort.perm fun a b => decide (keyedLast key position a < keyedLast key position b)).mem_iff.mpr
      (List.mem_finRange p)
  have : Nontrivial (Fin n) := Fin.nontrivial_iff_two_le.mpr large
  obtain ⟨other, different⟩ := exists_ne position
  have : Std.Symm fun a b : Fin n => (a = position ↔ b = position) := ⟨fun _ _ => Iff.symm⟩
  exact different ((together.forall (listed position) (listed other) different.symm).mp rfl)

end Unkeyed

section Keyed
variable {less : Item → Item → Except Failure Bool} {key : Item → Option Key} (compares : Compares less key)
  (answers : ∀ first second, (key first).isSome → (key second).isSome →
    ∃ before, less first second = .ok before)

theorem sorted_short (sort : ComparisonSort) (less : Item → Item → Except Failure Bool) {items : List Item}
    (short : items.length < 2) : sort.sorted less items = .ok items := by
  unfold sorted
  rw [sort.short _ short]
  exact congrArg Except.ok (List.map_get_finRange items)

include compares answers

theorem sorted_keyed (sort : ComparisonSort) {items : List Item}
    (keyed : ∀ item ∈ items, (key item).isSome) :
    sort.sorted less items =
      .ok (sort.routine.sorted (fun first second => orBottom (key first) < orBottom (key second)) items) := by
  have same : (fun first second : Fin items.length => less (items.get first) (items.get second)) =
      fun first second => .ok (decide (orBottom (key (items.get first)) < orBottom (key (items.get second)))) := by
    funext first second
    obtain ⟨before, answered⟩ := answers _ _ (keyed _ (items.get_mem first)) (keyed _ (items.get_mem second))
    obtain ⟨x, y, known, known', rfl⟩ := compares _ _ before answered
    rw [answered]
    exact congrArg Except.ok (decide_eq_decide.mpr (orBottom_lt known known').symm)
  unfold sorted
  rw [same, Plan.run_total]
  rfl

theorem ordered_of_sorted (sort : ComparisonSort) {items result : List Item}
    (keyed : ∀ item ∈ items, (key item).isSome) (ran : sort.sorted less items = .ok result) :
    result.Pairwise fun first second => orBottom (key first) ≤ orBottom (key second) := by
  rw [sorted_keyed compares answers sort keyed] at ran
  obtain rfl := Except.ok.inj ran
  exact sort.routine.ordered (fun item => orBottom (key item)) items

/-- Sorting succeeds exactly where there is nothing to compare or every item has a key. -/
theorem sorted_isOk_iff (sort : ComparisonSort) (items : List Item) :
    (∃ result, sort.sorted less items = .ok result) ↔
      items.length < 2 ∨ ∀ item ∈ items, (key item).isSome := by
  constructor
  · rintro ⟨result, ran⟩
    by_contra unsorted
    obtain ⟨large, unkeyed⟩ := not_or.mp unsorted
    obtain ⟨item, unkeyed⟩ := not_forall.mp unkeyed
    obtain ⟨member, absent⟩ := Classical.not_imp.mp unkeyed
    obtain ⟨position, rfl⟩ := List.mem_iff_get.mp member
    obtain ⟨order, arranged, -⟩ := Transition.ok_of_bind ran
    have many : 1 < items.length := by omega
    exact not_run_of_unkeyed sort many (fun first second => compares (items.get first) (items.get second))
      (Option.not_isSome_iff_eq_none.mp absent) order arranged
  · rintro (short | keyed)
    · exact ⟨items, sorted_short sort less short⟩
    · exact ⟨_, sorted_keyed compares answers sort keyed⟩

end Keyed

def insert {n : Nat} (position : Fin n) : List (Fin n) → (List (Fin n) → Plan n) → Plan n
  | [], next => next [position]
  | head :: rest, next => .compare position head fun before =>
      if before then next (position :: head :: rest)
      else insert position rest fun arranged => next (head :: arranged)

def insertAll {n : Nat} : List (Fin n) → List (Fin n) → Plan n
  | [], arranged => .arranged arranged
  | position :: rest, arranged => insert position arranged (insertAll rest)

section Insertion
variable {n : Nat}

def inserted (less : Fin n → Fin n → Bool) (arranged : List (Fin n)) (position : Fin n) : List (Fin n) :=
  arranged.orderedInsert (fun a b => less a b = true) position

theorem order_insert (less : Fin n → Fin n → Bool) (position : Fin n) (arranged : List (Fin n))
    (next : List (Fin n) → Plan n) :
    (insert position arranged next).order less = (next (inserted less arranged position)).order less := by
  induction arranged generalizing next with
  | nil => rfl
  | cons head rest ih =>
    rw [insert, Plan.order, inserted, List.orderedInsert_cons]
    split
    · rfl
    · exact ih _

theorem order_insertAll (less : Fin n → Fin n → Bool) (rest arranged : List (Fin n)) :
    (insertAll rest arranged).order less = rest.foldl (inserted less) arranged := by
  induction rest generalizing arranged with
  | nil => rfl
  | cons position rest ih => rw [insertAll, order_insert, List.foldl_cons, ih]

theorem perm_insertAll (less : Fin n → Fin n → Bool) (rest arranged : List (Fin n)) :
    (rest.foldl (inserted less) arranged).Perm (rest ++ arranged) := by
  induction rest generalizing arranged with
  | nil => exact .refl _
  | cons position rest ih =>
    have step := (List.perm_orderedInsert (fun a b => less a b = true) position arranged).append_left rest
    exact (ih _).trans (step.trans List.perm_middle)

theorem ordered_inserted (key : Fin n → Key) (position : Fin n) {arranged : List (Fin n)}
    (ordered : arranged.Pairwise fun a b => key a ≤ key b) :
    (inserted (fun a b => key a < key b) arranged position).Pairwise fun a b => key a ≤ key b := by
  unfold inserted
  induction arranged with
  | nil => exact List.pairwise_singleton _ _
  | cons head rest ih =>
    obtain ⟨least, others⟩ := List.pairwise_cons.mp ordered
    rw [List.orderedInsert_cons]
    split
    next before =>
      have before : key position < key head := of_decide_eq_true before
      refine List.pairwise_cons.mpr ⟨fun p member => ?_, ordered⟩
      rcases List.mem_cons.mp member with rfl | later
      · exact before.le
      · exact before.le.trans (least p later)
    next after =>
      have after : key head ≤ key position := not_lt.mp fun before => after (decide_eq_true before)
      refine List.pairwise_cons.mpr ⟨fun p member => ?_, ih others⟩
      rcases (List.mem_orderedInsert _).mp member with rfl | present
      · exact after
      · exact least p present

theorem ordered_insertAll (key : Fin n → Key) (rest : List (Fin n)) {arranged : List (Fin n)}
    (ordered : arranged.Pairwise fun a b => key a ≤ key b) :
    (rest.foldl (inserted fun a b => key a < key b) arranged).Pairwise fun a b => key a ≤ key b := by
  induction rest generalizing arranged with
  | nil => exact ordered
  | cons position rest ih => exact ih (ordered_inserted key position ordered)

def insertion : ComparisonSort where
  plan n := insertAll (List.finRange n) []
  short n small := by
    have cases : n = 0 ∨ n = 1 := by omega
    rcases cases with rfl | rfl <;> rfl
  perm {n} less := by
    rw [order_insertAll]
    simpa using perm_insertAll less (List.finRange n) []
  ordered {n} _ _ key := by
    rw [order_insertAll]
    exact ordered_insertAll key (List.finRange n) .nil

end Insertion

end ComparisonSort

end ProjectF02.Sorting
