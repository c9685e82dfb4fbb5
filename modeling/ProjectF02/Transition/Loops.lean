/-! Loops whose steps may fail. A failing step ends the loop. -/

set_option autoImplicit false

namespace ProjectF02.Transition

theorem ok_of_bind {Failure First Last : Type} {first : Except Failure First}
    {next : First → Except Failure Last} {last : Last} (returned : first >>= next = .ok last) :
    ∃ middle, first = .ok middle ∧ next middle = .ok last := by
  cases first with
  | error failure => cases returned
  | ok middle => exact ⟨middle, rfl, returned⟩

section Loops
variable {Failure Item Target : Type} {step : Item → Except Failure Target} {items : List Item}

theorem mapM_of_ok {value : Item → Target} (each : ∀ item ∈ items, step item = .ok (value item)) :
    items.mapM step = .ok (items.map value) := by
  induction items with
  | nil => rfl
  | cons item items ih =>
    obtain ⟨first, others⟩ := List.forall_mem_cons.mp each
    rw [List.mapM_cons, first, ih others]
    rfl

theorem mapM_isOk_iff :
    (∃ values, items.mapM step = .ok values) ↔ ∀ item ∈ items, ∃ value, step item = .ok value := by
  constructor
  · induction items with
    | nil => simp
    | cons item items ih =>
      rintro ⟨values, mapped⟩
      rw [List.mapM_cons] at mapped
      obtain ⟨value, first, mapped⟩ := ok_of_bind mapped
      obtain ⟨rest, others, -⟩ := ok_of_bind mapped
      exact List.forall_mem_cons.mpr ⟨⟨value, first⟩, ih ⟨rest, others⟩⟩
  · induction items with
    | nil => exact fun _ => ⟨[], rfl⟩
    | cons item items ih =>
      intro each
      obtain ⟨⟨value, first⟩, others⟩ := List.forall_mem_cons.mp each
      obtain ⟨rest, mapped⟩ := ih others
      exact ⟨value :: rest, by rw [List.mapM_cons, first, mapped]; rfl⟩

theorem mem_of_mapM_eq_ok {targets : List Target} (mapped : items.mapM step = .ok targets) {target : Target}
    (member : target ∈ targets) : ∃ item ∈ items, step item = .ok target := by
  induction items generalizing targets with
  | nil =>
    cases mapped
    cases member
  | cons item items ih =>
    rw [List.mapM_cons] at mapped
    obtain ⟨value, first, mapped⟩ := ok_of_bind mapped
    obtain ⟨rest, others, same⟩ := ok_of_bind mapped
    cases same
    rcases List.mem_cons.mp member with rfl | later
    · exact ⟨item, List.mem_cons_self, first⟩
    · obtain ⟨found, listed, read⟩ := ih others later
      exact ⟨found, List.mem_cons_of_mem _ listed, read⟩

end Loops

end ProjectF02.Transition
