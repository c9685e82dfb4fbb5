import Mathlib.Data.List.AList

/-! Keyed writes applied in order to a finite map.

A write replaces whatever its key holds. The map reached is described by the
last write under each key, and its size tells whether any write met a key that
was already taken.
-/

set_option autoImplicit false

namespace ProjectF02.Store

variable {Key Val : Type} [DecidableEq Key]

abbrev Map (Key Val : Type) := AList fun _ : Key => Val

def Map.size (store : Map Key Val) : Nat := store.keys.length

theorem Map.size_insert_of_mem {store : Map Key Val} {key : Key} (value : Val)
    (taken : key ∈ store) : Map.size (store.insert key value) = store.size := by
  have present : key ∈ store.keys := AList.mem_keys.mp taken
  have positive := List.length_pos_of_mem present
  simp only [size, AList.keys_insert, List.length_cons, List.length_erase_of_mem present]
  omega

theorem Map.size_insert_of_notMem {store : Map Key Val} {key : Key} (value : Val)
    (free : key ∉ store) : Map.size (store.insert key value) = store.size + 1 := by
  have absent : key ∉ store.keys := fun present => free (AList.mem_keys.mpr present)
  simp only [size, AList.keys_insert, List.length_cons, List.erase_of_not_mem absent]

def applyWrites (store : Map Key Val) : List (Key × Val) → Map Key Val
  | [] => store
  | (key, value) :: rest => applyWrites (store.insert key value) rest

def lastWrite (key : Key) : List (Key × Val) → Option Val
  | [] => none
  | (written, value) :: rest =>
      (lastWrite key rest).or (if written = key then some value else none)

theorem applyWrites_append (store : Map Key Val) (first second : List (Key × Val)) :
    applyWrites store (first ++ second) = applyWrites (applyWrites store first) second := by
  induction first generalizing store with
  | nil => rfl
  | cons write rest ih => exact ih _

theorem lookup_applyWrites (store : Map Key Val) (writes : List (Key × Val)) (key : Key) :
    (applyWrites store writes).lookup key = (lastWrite key writes).or (store.lookup key) := by
  induction writes generalizing store with
  | nil => rfl
  | cons write rest ih =>
    obtain ⟨written, value⟩ := write
    rw [applyWrites, ih, lastWrite, Option.or_assoc]
    by_cases same : written = key
    · subst same
      simp
    · simp [same, AList.lookup_insert_ne (Ne.symm same)]

theorem mem_applyWrites {store : Map Key Val} {writes : List (Key × Val)} {key : Key} :
    key ∈ applyWrites store writes ↔ key ∈ store ∨ key ∈ writes.map Prod.fst := by
  induction writes generalizing store with
  | nil => simp [applyWrites]
  | cons write rest ih =>
    obtain ⟨written, value⟩ := write
    rw [applyWrites, ih, AList.mem_insert, List.map_cons, List.mem_cons]
    tauto

theorem lastWrite_map {Other : Type} (convert : Val → Other) (key : Key) (writes : List (Key × Val)) :
    lastWrite key (writes.map fun write => (write.1, convert write.2)) =
      (lastWrite key writes).map convert := by
  induction writes with
  | nil => rfl
  | cons write rest ih =>
    rw [List.map_cons, lastWrite, lastWrite, ih]
    cases lastWrite key rest with
    | some later => rfl
    | none => by_cases same : write.1 = key <;> simp [same]

theorem lastWrite_mem {key : Key} {writes : List (Key × Val)} {value : Val}
    (found : lastWrite key writes = some value) : (key, value) ∈ writes := by
  induction writes with
  | nil => simp [lastWrite] at found
  | cons write rest ih =>
    obtain ⟨written, other⟩ := write
    rw [lastWrite, Option.or_eq_some_iff] at found
    rcases found with later | ⟨-, current⟩
    · exact List.mem_cons_of_mem _ (ih later)
    · split at current
      next same =>
        obtain rfl := Option.some.inj current
        simp [same]
      next => cases current

theorem lastWrite_isSome {key : Key} {value : Val} {writes : List (Key × Val)}
    (written : (key, value) ∈ writes) : ∃ last, lastWrite key writes = some last := by
  induction writes with
  | nil => cases written
  | cons write rest ih =>
    rcases List.mem_cons.mp written with rfl | later
    · cases follow : lastWrite key rest <;> simp [lastWrite, follow]
    · obtain ⟨last, found⟩ := ih later
      exact ⟨last, by simp [lastWrite, found]⟩

/-- No write meets a taken key, whether taken before or by an earlier write. -/
def Fresh (store : Map Key Val) (writes : List (Key × Val)) : Prop :=
  (writes.map Prod.fst).Nodup ∧ ∀ key ∈ writes.map Prod.fst, key ∉ store

theorem fresh_cons {store : Map Key Val} {key : Key} {value : Val}
    {rest : List (Key × Val)} :
    Fresh store ((key, value) :: rest) ↔ key ∉ store ∧ Fresh (store.insert key value) rest := by
  simp only [Fresh, List.map_cons, List.nodup_cons, List.forall_mem_cons, AList.mem_insert, not_or]
  constructor
  · rintro ⟨⟨once, distinct⟩, free, others⟩
    exact ⟨free, distinct, fun other member => ⟨fun same => once (same ▸ member), others other member⟩⟩
  · rintro ⟨free, distinct, others⟩
    exact ⟨⟨fun member => (others key member).1 rfl, distinct⟩, free,
      fun other member => (others other member).2⟩

theorem size_applyWrites_le (store : Map Key Val) (writes : List (Key × Val)) :
    (applyWrites store writes).size ≤ store.size + writes.length := by
  induction writes generalizing store with
  | nil => simp [applyWrites]
  | cons write rest ih =>
    obtain ⟨key, value⟩ := write
    have bound := ih (store.insert key value)
    have grown : Map.size (store.insert key value) ≤ store.size + 1 := by
      by_cases taken : key ∈ store
      · rw [Map.size_insert_of_mem value taken]
        omega
      · rw [Map.size_insert_of_notMem value taken]
    simp only [applyWrites, List.length_cons]
    omega

/-- The map gains one entry for each write exactly when no write met a taken key. -/
theorem size_applyWrites_iff (store : Map Key Val) (writes : List (Key × Val)) :
    (applyWrites store writes).size = store.size + writes.length ↔ Fresh store writes := by
  induction writes generalizing store with
  | nil => simp [applyWrites, Fresh]
  | cons write rest ih =>
    obtain ⟨key, value⟩ := write
    rw [fresh_cons, ← ih]
    by_cases taken : key ∈ store
    · -- A write under a taken key gains nothing, and no later write makes up for it.
      have bound := size_applyWrites_le (store.insert key value) rest
      rw [Map.size_insert_of_mem value taken] at bound
      simp only [applyWrites, List.length_cons, taken, not_true_eq_false, false_and, iff_false]
      omega
    · simp only [applyWrites, List.length_cons, taken, not_false_eq_true, true_and,
        Map.size_insert_of_notMem value taken]
      omega

theorem lookup_applyWrites_of_fresh {store : Map Key Val} {writes : List (Key × Val)}
    (fresh : Fresh store writes) {key : Key} {value : Val} (written : (key, value) ∈ writes) :
    (applyWrites store writes).lookup key = some value := by
  obtain ⟨last, found⟩ := lastWrite_isSome written
  -- Keys are distinct, so the last write under a key is the only one.
  have same : last = value :=
    congrArg Prod.snd (List.inj_on_of_nodup_map fresh.1 (lastWrite_mem found) written rfl)
  rw [lookup_applyWrites, found, same, Option.some_or]

end ProjectF02.Store
