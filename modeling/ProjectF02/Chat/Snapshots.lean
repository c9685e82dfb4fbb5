import ProjectF02.Chat.ChatViewController
import ProjectF02.Transition.Runs
import Mathlib.Data.Rat.Floor

/-! The messages of an open chat against the snapshots delivered to it.

A snapshot without entries is delivered as null, and the guard of the observer returns
before anything is replaced.
-/

set_option autoImplicit false

namespace ProjectF02
open Swift Firebase Transition Sorting

variable {Double : Type}

/-- A snapshot of the messages node, and the order in which its keys are listed. -/
structure Delivery (Double : Type) where
  order : Enumeration (Value Double)
  snapshot : Dict Double

def Delivery.value (delivery : Delivery Double) : Value Double :=
  if delivery.snapshot.entries = [] then .null else .ofDict delivery.snapshot

structure Refresh (Double : Type) where
  snapshot : Dict Double
  messages : List Message

variable [Ring Double] [LinearOrder Double] [FloorRing Double]

/-- One message for each dictionary among the entries of the snapshot, in the order of time. -/
structure Refresh.Current (refresh : Refresh Double) : Prop where
  listed : refresh.messages.Perm (Message.listed .stored refresh.snapshot)
  ordered : refresh.messages.Pairwise fun a b => a.time ≤ b.time

namespace ChatViewController

def deliver (routine : Routine Message) (vc : ChatViewController) (delivery : Delivery Double) :
    Except Trap (ChatViewController × List (Refresh Double)) :=
  let vc := observer delivery.order routine vc delivery.value
  .ok (vc, [⟨delivery.snapshot, vc.messages⟩])

omit [Ring Double] [LinearOrder Double] [FloorRing Double] in
def NoneLeft (vc : ChatViewController) (delivery : Delivery Double) : Prop :=
  delivery.snapshot.entries = [] → vc.messages = []

theorem observer_empty (routine : Routine Message) (vc : ChatViewController) {delivery : Delivery Double}
    (empty : delivery.snapshot.entries = []) : observer delivery.order routine vc delivery.value = vc := by
  unfold Delivery.value
  rw [if_pos empty]
  rfl

theorem messages_observer (routine : Routine Message) (vc : ChatViewController) {delivery : Delivery Double}
    (present : delivery.snapshot.entries ≠ []) :
    (observer delivery.order routine vc delivery.value).messages =
      routine.sorted (fun a b => a.time < b.time) (Message.listed delivery.order delivery.snapshot) := by
  have cast : delivery.value.asDict = some delivery.snapshot := by
    unfold Delivery.value
    rw [if_neg present, Value.asDict_ofDict]
  unfold observer
  rw [observed_of_dict delivery.order routine cast]
  rfl

theorem listed_of_empty {snapshot : Dict Double}
    (empty : snapshot.entries = []) : Message.listed .stored snapshot = [] := by
  have none : snapshot = ∅ := AList.ext empty
  subst none
  rfl

theorem current_deliver_iff {routine : Routine Message} {vc next : ChatViewController}
    {delivery : Delivery Double} {shown : List (Refresh Double)}
    (taken : deliver routine vc delivery = .ok (next, shown)) :
    (∀ refresh ∈ shown, refresh.Current) ↔ NoneLeft vc delivery := by
  cases taken
  rw [List.forall_mem_singleton]
  by_cases empty : delivery.snapshot.entries = []
  · rw [observer_empty routine vc empty]
    constructor
    · intro current _
      exact ((listed_of_empty empty).symm ▸ current.listed).eq_nil
    · intro none
      have blank := none empty
      exact ⟨by rw [blank, listed_of_empty empty], by rw [blank]; exact .nil⟩
  · refine iff_of_true ⟨?_, ?_⟩ fun none => absurd none empty
    · rw [messages_observer routine vc empty]
      exact (routine.perm _ _).trans (Message.listed_perm _ _ _)
    · rw [messages_observer routine vc empty]
      exact routine.ordered _ _

theorem current_iff_none_left {routine : Routine Message} {vc final : ChatViewController}
    {deliveries : List (Delivery Double)} {shown : List (Refresh Double)}
    (run : Runs (computes (deliver routine)) vc deliveries final shown) :
    (∀ refresh ∈ shown, refresh.Current) ↔
      Runs ((computes (deliver routine)).guardedBy NoneLeft) vc deliveries final shown :=
  run.outputs_forall_iff_guarded (fun _ => True) NoneLeft Refresh.Current
    (fun _ _ _ _ _ taken => current_deliver_iff taken) (fun _ _ _ _ _ _ _ => trivial) trivial

def oneMessage : Delivery ℚ where
  order := .stored
  snapshot := AList.singleton "1541650000000"
    (.ofDict (Message.toDict { content := "Hi", isNew := 1, time := 1541650000000, uID := "u1" }))

def noMessages : Delivery ℚ := ⟨.stored, ∅⟩

/-- The later message comes first in the snapshot. -/
def twoMessages : Delivery ℚ where
  order := .stored
  snapshot := AList.insert "1541650000001"
    (.ofDict (Message.toDict { content := "Yo", isNew := 1, time := 1541650000001, uID := "u2" })) oneMessage.snapshot

theorem current_twoMessages : ∃ final shown,
    Runs (computes (deliver .merge)) {} [noMessages, oneMessage, twoMessages] final shown ∧
      shown.length = 3 ∧ ∀ refresh ∈ shown, refresh.Current := by
  have guarded : Runs ((computes (deliver .merge)).guardedBy NoneLeft) {} [noMessages, oneMessage, twoMessages] _
      ([_] ++ ([_] ++ ([_] ++ []))) :=
    .next ⟨fun _ => rfl, rfl⟩ (.next ⟨fun none => absurd none (List.cons_ne_nil _ _), rfl⟩
      (.next ⟨fun none => absurd none (List.cons_ne_nil _ _), rfl⟩ (.done _)))
  exact ⟨_, _, guarded.unguarded, rfl, (current_iff_none_left guarded.unguarded).mpr guarded⟩

/-- The only message is deleted: the screen keeps it. -/
theorem message_kept : ∃ final shown,
    Runs (computes (deliver .merge)) {} [oneMessage, noMessages] final shown ∧
      final.messages ≠ [] ∧ ¬ ∀ refresh ∈ shown, refresh.Current := by
  let first := observer oneMessage.order .merge {} oneMessage.value
  have second : deliver .merge first noMessages = .ok (first, [⟨∅, first.messages⟩]) := rfl
  have run : Runs (computes (deliver .merge)) {} [oneMessage, noMessages] first
      ([⟨oneMessage.snapshot, first.messages⟩] ++ ([⟨∅, first.messages⟩] ++ [])) :=
    .next rfl (.next second (.done _))
  have present : oneMessage.snapshot.entries ≠ [] := List.cons_ne_nil _ _
  have kept : first.messages ≠ [] := by
    intro none
    have listed := Routine.merge.perm (fun a b : Message => decide (a.time < b.time))
      (Message.listed oneMessage.order oneMessage.snapshot)
    rw [← messages_observer .merge {} present, show (observer _ _ _ _).messages = [] from none] at listed
    exact absurd listed.length_eq (by decide)
  refine ⟨first, _, run, kept, fun all => kept ?_⟩
  exact (current_deliver_iff second).mp (fun refresh member => all refresh (List.mem_cons_of_mem _ member)) rfl

end ChatViewController

end ProjectF02
