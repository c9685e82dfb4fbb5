import Mathlib.Data.List.Basic

/-! Finite runs of a labelled transition system whose steps emit outputs.

A system is a relation between a state, an event, the next state and the outputs
of that step. A run keeps every event and every output in order, so a property
may relate the state reached to the whole history that led to it.
-/

set_option autoImplicit false

namespace ProjectF02.Transition

variable {State Event Output : Type}

abbrev System (State Event Output : Type) := State → Event → State → List Output → Prop

inductive Runs (step : System State Event Output) :
    State → List Event → State → List Output → Prop where
  | done (state : State) : Runs step state [] state []
  | next {state middle final : State} {event : Event} {events : List Event}
      {emitted later : List Output} :
      step state event middle emitted → Runs step middle events final later →
      Runs step state (event :: events) final (emitted ++ later)

def computes {Failure : Type} (step : State → Event → Except Failure (State × List Output)) :
    System State Event Output :=
  fun state event next emitted => step state event = .ok (next, emitted)

/-- A step of the system taken in a state where the condition on it holds. -/
def System.guardedBy (step : System State Event Output) (condition : State → Event → Prop) :
    System State Event Output :=
  fun state event next emitted => condition state event ∧ step state event next emitted

/-- The system whose outputs are the states it reaches. -/
def System.showing (step : System State Event Output) : System State Event State :=
  fun state event next shown => shown = [next] ∧ ∃ emitted, step state event next emitted

theorem Runs.unguarded {step : System State Event Output} {condition : State → Event → Prop}
    {state final : State} {events : List Event} {outputs : List Output}
    (run : Runs (step.guardedBy condition) state events final outputs) :
    Runs step state events final outputs := by
  induction run with
  | done state => exact .done state
  | next first _ ih => exact .next first.2 ih

/-- An invariant of the state together with everything emitted so far. -/
theorem Runs.logged {step : System State Event Output} {state final : State}
    {events : List Event} {outputs : List Output}
    (run : Runs step state events final outputs) (invariant : State → List Output → Prop)
    (preserved : ∀ state event next emitted log, event ∈ events → invariant state log →
      step state event next emitted → invariant next (log ++ emitted))
    (log : List Output) (initial : invariant state log) : invariant final (log ++ outputs) := by
  -- The log grows at its end while the run is taken apart from its start.
  induction run generalizing log with
  | done state => simpa using initial
  | next first rest ih =>
    have carried := preserved _ _ _ _ log List.mem_cons_self initial first
    have reached := ih
      (fun state event next emitted log member =>
        preserved state event next emitted log (List.mem_cons_of_mem _ member)) _ carried
    simpa only [List.append_assoc] using reached

theorem Runs.invariant {step : System State Event Output} {state final : State}
    {events : List Event} {outputs : List Output}
    (run : Runs step state events final outputs) (property : State → Prop)
    (preserved : ∀ state event next emitted, event ∈ events → property state →
      step state event next emitted → property next)
    (initial : property state) : property final :=
  run.logged (fun state _ => property state)
    (fun state event next emitted _ member holds taken =>
      preserved state event next emitted member holds taken) [] initial

theorem Runs.outputs_forall {step : System State Event Output} {state final : State}
    {events : List Event} {outputs : List Output}
    (run : Runs step state events final outputs) (allowed : Output → Prop)
    (emits : ∀ state event next emitted, event ∈ events → step state event next emitted →
      ∀ output ∈ emitted, allowed output) :
    ∀ output ∈ outputs, allowed output := by
  have logged := run.logged (fun _ log => ∀ output ∈ log, allowed output)
    (fun state event next emitted log member holds taken =>
      List.forall_mem_append.mpr ⟨holds, emits state event next emitted member taken⟩) []
    (List.forall_mem_nil _)
  simpa using logged

theorem Runs.events_forall {step : System State Event Output} {state final : State}
    {events : List Event} {outputs : List Output}
    (run : Runs step state events final outputs) (allowed : Event → Prop)
    (admits : ∀ state event next emitted, step state event next emitted → allowed event) :
    ∀ event ∈ events, allowed event := by
  induction run with
  | done state => simp
  | next first _ ih => exact List.forall_mem_cons.mpr ⟨admits _ _ _ _ first, ih⟩

theorem Runs.outputs_eq {step : System State Event Output} {state final : State}
    {events : List Event} {outputs : List Output}
    (run : Runs step state events final outputs) (emits : Event → List Output)
    (fixed : ∀ state event next emitted, step state event next emitted → emitted = emits event) :
    outputs = events.flatMap emits := by
  induction run with
  | done state => rfl
  | next first _ ih => rw [List.flatMap_cons, ← ih, ← fixed _ _ _ _ first]

theorem Runs.complete {step : System State Event Output} (invariant : State → Prop)
    (events : List Event)
    (enabled : ∀ state event, event ∈ events → invariant state →
      ∃ next emitted, step state event next emitted ∧ invariant next)
    (state : State) (initial : invariant state) :
    ∃ final outputs, Runs step state events final outputs ∧ invariant final := by
  induction events generalizing state with
  | nil => exact ⟨state, [], .done state, initial⟩
  | cons event events ih =>
    obtain ⟨middle, emitted, taken, holds⟩ :=
      enabled state event List.mem_cons_self initial
    obtain ⟨final, later, rest, reached⟩ := ih
      (fun state event member => enabled state event (List.mem_cons_of_mem _ member)) middle holds
    exact ⟨final, emitted ++ later, .next taken rest, reached⟩

/-- Where a condition on each step decides whether its outputs are allowed, all outputs of a run
are allowed exactly if every step of the run meets the condition. The invariant need only survive
such steps. -/
theorem Runs.outputs_forall_iff_guarded {step : System State Event Output}
    (invariant : State → Prop) (condition : State → Event → Prop) (allowed : Output → Prop)
    (decides : ∀ state event next emitted, invariant state → step state event next emitted →
      ((∀ output ∈ emitted, allowed output) ↔ condition state event))
    (preserved : ∀ state event next emitted, invariant state → step state event next emitted →
      condition state event → invariant next)
    {state final : State} {events : List Event} {outputs : List Output}
    (run : Runs step state events final outputs) (initial : invariant state) :
    (∀ output ∈ outputs, allowed output) ↔
      Runs (step.guardedBy condition) state events final outputs := by
  constructor
  · intro all
    induction run with
    | done state => exact .done state
    | next first rest ih =>
      obtain ⟨now, later⟩ := List.forall_mem_append.mp all
      have met := (decides _ _ _ _ initial first).mp now
      exact .next ⟨met, first⟩ (ih (preserved _ _ _ _ initial first met) later)
  · intro guarded
    clear run
    induction guarded with
    | done state => exact List.forall_mem_nil _
    | next first rest ih =>
      have now := (decides _ _ _ _ initial first.2).mpr first.1
      exact List.forall_mem_append.mpr ⟨now, ih (preserved _ _ _ _ initial first.2 first.1)⟩

end ProjectF02.Transition
