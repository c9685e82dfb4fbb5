import ProjectF02.Chat.ChatHomeViewController
import ProjectF02.Transition.Runs

/-! The observers that the chat screens leave in the database.

The home screen registers one whenever it appears and a chat registers one when it is
opened. No screen removes an observer.
-/

set_option autoImplicit false

namespace ProjectF02
open Swift Firebase Transition Sorting

/-- Who registered an observer; chat screens are numbered in the order of their opening. -/
inductive Owner where
  | home
  | chat (screen : Nat)
  deriving DecidableEq, Repr

/-- The registered `.value` observers with their paths, the number of chat screens opened so far
and those of them that were closed. -/
structure Registry where
  observers : List (Owner × FPath) := []
  opened : Nat := 0
  closed : List Nat := []
  deriving DecidableEq, Repr

inductive ScreenEvent where
  | homeAppeared
  | homeDisappeared
  | chatOpened (chatContent : Chat) (curUser : Option String)
  | chatClosed (screen : Nat)

namespace Registry

def registeredBy (registry : Registry) (owner : Owner) : Nat :=
  registry.observers.countP fun observer => observer.1 = owner

def step (registry : Registry) : ScreenEvent → Except Trap (Registry × List Registry)
  | .homeAppeared => do
    let ref ← FPath.child [] "Chat"
    let next := { registry with observers := registry.observers ++ [(.home, ref)] }
    return (next, [next])
  | .homeDisappeared => .ok (registry, [registry])
  | .chatOpened chatContent curUser => do
    let (_, registered) ← (ChatViewController.passChatData {} chatContent).viewDidLoad curUser
    let next := { registry with
      observers := registry.observers ++ registered.toList.map fun a => (.chat registry.opened, a)
      opened := registry.opened + 1 }
    return (next, [next])
  | .chatClosed screen =>
    if screen < registry.opened then
      let next := { registry with closed := screen :: registry.closed }
      .ok (next, [next])
    -- There is no such screen.
    else .ok (registry, [registry])

section Change
variable {Double : Type} [Ring Double] [LinearOrder Double] [FloorRing Double]
  (snapshot : Enumeration (Node Double)) (order : Enumeration (Value Double)) (routine : Routine Message)

/-- One change under `Chat`: each observer of the home screen rebuilds the list. The result counts
how often that was done. -/
def changed [NSScanner] (chats : Node Double) (home : ChatHomeViewController Double) :
    List (Owner × FPath) → Except Trap (ChatHomeViewController Double × Nat)
  | [] => .ok (home, 0)
  | (.chat _, _) :: observers => changed chats home observers
  | (.home, _) :: observers => do
    let home ← home.getChats snapshot order routine chats
    let (home, rebuilt) ← changed chats home observers
    return (home, rebuilt + 1)

theorem rebuilt_eq [NSScanner] {chats : Node Double} {observers : List (Owner × FPath)}
    {home last : ChatHomeViewController Double} {rebuilt : Nat}
    (ran : changed snapshot order routine chats home observers = .ok (last, rebuilt)) :
    rebuilt = observers.countP fun observer => observer.1 = .home := by
  induction observers generalizing home last rebuilt with
  | nil =>
    cases ran
    rfl
  | cons observer observers ih =>
    obtain ⟨owner, path⟩ := observer
    cases owner with
    | chat screen => simpa using ih ran
    | home =>
      obtain ⟨middle, -, ran⟩ := ok_of_bind ran
      obtain ⟨⟨final, count⟩, rest, same⟩ := ok_of_bind ran
      cases same
      rw [ih rest]
      simp

end Change

/-- The home screen has one observer at most and a closed chat none, so one change under `Chat`
rebuilds the list at most once. -/
structure Few (Double : Type) [Ring Double] [LinearOrder Double] [FloorRing Double] [NSScanner]
    (registry : Registry) :
    Prop where
  home : registry.registeredBy .home ≤ 1
  closed : ∀ screen ∈ registry.closed, registry.registeredBy (.chat screen) = 0
  rebuilt : ∀ (snapshot : Enumeration (Node Double)) order routine chats home last rebuilt,
    changed snapshot order routine chats home registry.observers = .ok (last, rebuilt) → rebuilt ≤ 1

/-- The home screen appears only while it has no observer, and a chat is closed only if it has
registered none. -/
def Single (registry : Registry) : ScreenEvent → Prop
  | .homeAppeared => registry.registeredBy .home = 0
  | .homeDisappeared => True
  | .chatOpened _ _ => True
  | .chatClosed screen => screen < registry.opened → registry.registeredBy (.chat screen) = 0

section Counting
variable {Double : Type} [Ring Double] [LinearOrder Double] [FloorRing Double] {registry next : Registry}

theorem few_iff [NSScanner] : registry.Few Double ↔ registry.registeredBy .home ≤ 1 ∧
    ∀ screen ∈ registry.closed, registry.registeredBy (.chat screen) = 0 := by
  constructor
  · exact fun few => ⟨few.home, few.closed⟩
  · rintro ⟨home, closed⟩
    refine ⟨home, closed, fun snapshot order routine chats _ last rebuilt ran => ?_⟩
    rw [rebuilt_eq snapshot order routine ran]
    exact home

theorem registeredBy_append (added : List (Owner × FPath)) (opened : Nat) (closed : List Nat) (owner : Owner) :
    registeredBy ⟨registry.observers ++ added, opened, closed⟩ owner =
      registry.registeredBy owner + added.countP fun observer => observer.1 = owner :=
  List.countP_append

theorem registeredBy_of_others {owner other : Owner} (apart : owner ≠ other) (paths : List FPath)
    (opened : Nat) (closed : List Nat) :
    registeredBy ⟨registry.observers ++ paths.map fun a => (owner, a), opened, closed⟩ other =
      registry.registeredBy other := by
  rw [registeredBy_append, List.countP_map]
  have none : paths.countP ((fun observer => decide (observer.1 = other)) ∘ fun a => (owner, a)) = 0 :=
    List.countP_eq_zero.mpr fun a _ => by simpa using apart
  rw [none, Nat.add_zero]

theorem chat_valid : FPath.child [] "Chat" = .ok ["Chat"] := by decide

theorem few_step_iff [NSScanner] {event : ScreenEvent} {emitted : List Registry} (few : registry.Few Double)
    (numbered : ∀ screen ∈ registry.closed, screen < registry.opened)
    (taken : registry.step event = .ok (next, emitted)) :
    (∀ reached ∈ emitted, reached.Few Double) ↔ Single registry event := by
  cases event with
  | homeAppeared =>
    rw [step, chat_valid] at taken
    cases taken
    rw [List.forall_mem_singleton, few_iff, registeredBy_append]
    constructor
    · rintro ⟨bound, -⟩
      exact Nat.le_zero.mp (Nat.le_of_succ_le_succ bound)
    · intro none
      change registry.registeredBy .home = 0 at none
      refine ⟨by rw [none]; rfl, fun screen closed => ?_⟩
      exact (registeredBy_of_others Owner.noConfusion [["Chat"]] _ _).trans (few.closed screen closed)
  | homeDisappeared =>
    cases taken
    exact iff_of_true (List.forall_mem_singleton.mpr few) trivial
  | chatOpened chatContent curUser =>
    obtain ⟨⟨vc, registered⟩, -, same⟩ := ok_of_bind taken
    cases same
    refine iff_of_true ?_ trivial
    rw [List.forall_mem_singleton, few_iff]
    constructor
    · rw [registeredBy_of_others (by simp)]
      exact few.home
    · intro screen closed
      -- The new screen has a number of its own.
      have older : registry.opened ≠ screen := (numbered screen closed).ne'
      rw [registeredBy_of_others (by simpa using older)]
      exact few.closed screen closed
  | chatClosed screen =>
    rw [step] at taken
    split at taken
    next opened =>
      cases taken
      rw [List.forall_mem_singleton, few_iff]
      constructor
      · exact fun ⟨_, closed⟩ _ => closed screen List.mem_cons_self
      · exact fun none => ⟨few.home, List.forall_mem_cons.mpr ⟨none opened, few.closed⟩⟩
    next unknown =>
      cases taken
      exact iff_of_true (List.forall_mem_singleton.mpr few) fun opened => absurd opened unknown

theorem numbered_step {event : ScreenEvent} {emitted : List Registry}
    (numbered : ∀ screen ∈ registry.closed, screen < registry.opened)
    (taken : registry.step event = .ok (next, emitted)) :
    emitted = [next] ∧ ∀ screen ∈ next.closed, screen < next.opened := by
  cases event with
  | homeAppeared =>
    rw [step, chat_valid] at taken
    cases taken
    exact ⟨rfl, numbered⟩
  | homeDisappeared =>
    cases taken
    exact ⟨rfl, numbered⟩
  | chatOpened chatContent curUser =>
    obtain ⟨⟨vc, registered⟩, -, same⟩ := ok_of_bind taken
    cases same
    exact ⟨rfl, fun screen closed => Nat.lt_succ_of_lt (numbered screen closed)⟩
  | chatClosed screen =>
    rw [step] at taken
    split at taken
    next opened =>
      cases taken
      exact ⟨rfl, List.forall_mem_cons.mpr ⟨opened, numbered⟩⟩
    next =>
      cases taken
      exact ⟨rfl, numbered⟩

theorem few_iff_single [NSScanner] {final : Registry} {events : List ScreenEvent} {reached : List Registry}
    (run : Runs (computes step) {} events final reached) :
    (∀ registry ∈ reached, registry.Few Double) ↔
      Runs ((computes step).guardedBy Single) {} events final reached := by
  apply run.outputs_forall_iff_guarded
    (fun registry => registry.Few Double ∧ ∀ screen ∈ registry.closed, screen < registry.opened)
    Single (Few Double)
  · exact fun _ _ _ _ ⟨few, numbered⟩ taken => few_step_iff few numbered taken
  · intro registry event next emitted ⟨few, numbered⟩ taken single
    obtain ⟨rfl, numbered'⟩ := numbered_step numbered taken
    exact ⟨(few_step_iff few numbered taken).mpr single next List.mem_cons_self, numbered'⟩
  · have none : ∀ screen ∈ ({} : Registry).closed, screen < 0 := fun _ closed => by cases closed
    exact ⟨few_iff.mpr ⟨Nat.zero_le 1, fun _ closed => by cases closed⟩, none⟩

end Counting

theorem few_after_one : ∃ final reached,
    Runs (computes step) {} [.homeAppeared, .chatOpened { id := some "c1" } none] final reached ∧
      reached ≠ [] ∧ ∀ registry ∈ reached, registry.Few ℚ := by
  have guarded : Runs ((computes step).guardedBy Single) {} [.homeAppeared, .chatOpened { id := some "c1" } none] _
      ([_] ++ ([_] ++ [])) := .next ⟨rfl, rfl⟩ (.next ⟨trivial, rfl⟩ (.done _))
  exact ⟨_, _, guarded.unguarded, List.cons_ne_nil _ _, (few_iff_single guarded.unguarded).mpr guarded⟩

/-- A chat is opened and closed: its observer stays, and the home screen has a second one. -/
theorem observers_pile_up : ∃ final reached,
    Runs (computes step) {} [.homeAppeared, .homeDisappeared, .chatOpened { id := some "c1" } none,
      .chatClosed 0, .homeAppeared] final reached ∧
      (final.registeredBy .home = 2 ∧ final.registeredBy (.chat 0) = 1) ∧
      ¬ ∀ registry ∈ reached, registry.Few ℚ := by
  have run : Runs (computes step) {} [.homeAppeared, .homeDisappeared,
      .chatOpened { id := some "c1" } none, .chatClosed 0, .homeAppeared] _
      ([_] ++ ([_] ++ ([_] ++ ([_] ++ ([_] ++ []))))) :=
    .next rfl (.next rfl (.next rfl (.next rfl (.next rfl (.done _)))))
  refine ⟨_, _, run, ⟨rfl, rfl⟩, fun all => ?_⟩
  have last := all _ (List.mem_cons_of_mem _ (List.mem_cons_of_mem _ (List.mem_cons_of_mem _
    (List.mem_cons_of_mem _ List.mem_cons_self))))
  exact absurd last.home (by decide)

end Registry

end ProjectF02
