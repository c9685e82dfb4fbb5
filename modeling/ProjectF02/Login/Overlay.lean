import ProjectF02.Login.Effects

/-! The loader over runs of e-mail sign-ins.

It is shown when an attempt starts. It is dismissed when the authentication fails and
once for each child of a snapshot, so a snapshot without children leaves it where it is.
-/

set_option autoImplicit false

namespace ProjectF02
open Swift Firebase Transition ViewController Login

variable {Double : Type}

/-- The login screen, and its observers that still wait for their first snapshot. -/
structure Attempts where
  vc : ViewController
  waiting : List Nat := []
  deriving DecidableEq, Repr

inductive AttemptEvent (Double : Type) where
  | edited (username password : Option String)
  | attempted
  | emailCompleted (result : AuthResult)
  | snapshot (observer : Nat) (users : Node Double)

namespace Attempts

def Outstanding (state : Attempts) : Prop := 0 < state.vc.emailCalls ∨ state.waiting ≠ []

instance instDecidableOutstanding (state : Attempts) : Decidable state.Outstanding :=
  inferInstanceAs (Decidable (_ ∨ _))

/-- With nothing outstanding, the loader is out of the window and has no subviews left. -/
def Settled (state : Attempts) : Prop :=
  ¬ state.Outstanding → state.vc.loader.inWindow = false ∧ state.vc.loader.subviews = 0

/-- Only a pending call calls back, and only a registered observer is notified. -/
def Pending (state : Attempts) : AttemptEvent Double → Prop
  | .edited _ _ => True
  | .attempted => True
  | .emailCompleted _ => 0 < state.vc.emailCalls
  | .snapshot observer _ => observer < state.vc.observers.length

/-- The guard of `signInAction` returns only while something is outstanding, and a snapshot without
children comes only while something else is, or to a loader that is not in the window. -/
def Closed (state : Attempts) : AttemptEvent Double → Prop
  | .edited _ _ => True
  | .attempted => state.vc.username = none ∨ state.vc.password = none → state.Outstanding
  | .emailCompleted _ => True
  | .snapshot index users => ∀ observer, state.vc.observers[index]? = some observer →
      queryEqual users "uid" observer.uID = [] →
        0 < state.vc.emailCalls ∨ state.waiting.erase index ≠ [] ∨ state.vc.loader.inWindow = false

section Steps
variable [Ring Double] [LinearOrder Double] [FloorRing Double]

def step [NSScanner] (state : Attempts) : AttemptEvent Double → Except Trap (Attempts × List Attempts)
  | .edited username password =>
    let next := { state with vc := { state.vc with username := username, password := password } }
    .ok (next, [next])
  | .attempted =>
    let next := { state with vc := (@signInAction Double state.vc).1 }
    .ok (next, [next])
  | .emailCompleted result =>
    let next := {
      vc := state.vc.emailCompleted result
      waiting := match result with
        | .user _ => state.waiting ++ [state.vc.observers.length]
        | _ => state.waiting }
    .ok (next, [next])
  | .snapshot observer users => do
    let (vc, _) ← state.vc.snapshot observer users
    let next := { vc := vc, waiting := state.waiting.erase observer }
    return (next, [next])

def session [NSScanner] : System Attempts (AttemptEvent Double) Attempts := (computes step).guardedBy Pending

end Steps

/-! ## What holds of every run -/

/-- All observers are of e-mail sign-ins, and a loader that is out of the window has no subviews. -/
structure Sound (state : Attempts) : Prop where
  email : ∀ observer ∈ state.vc.observers, observer.provider = .email
  loader : state.vc.loader.inWindow = false → state.vc.loader.subviews = 0

theorem openAll_email (vc : ViewController) (user : User Double) (rest : List (User Double)) :
    vc.openAll .email (user :: rest) = { vc with loader := vc.loader.dismiss } := by
  induction rest generalizing vc user with
  | nil => rfl
  | cons next rest ih => exact ih _ next

variable [Ring Double] [LinearOrder Double] [FloorRing Double] {state next : Attempts} {emitted : List Attempts}

theorem snapshot_cases [NSScanner] (sound : state.Sound) {index : Nat} {users : Node Double}
    (taken : session state (.snapshot index users) next emitted) :
    ∃ observer, state.vc.observers[index]? = some observer ∧ emitted = [next] ∧
      next.waiting = state.waiting.erase index ∧
      ((queryEqual users "uid" observer.uID = [] ∧ next.vc = state.vc) ∨
        (queryEqual users "uid" observer.uID ≠ [] ∧
          next.vc = { state.vc with loader := state.vc.loader.dismiss })) := by
  obtain ⟨pending, computed⟩ := taken
  have registered : state.vc.observers[index]? = some state.vc.observers[index] :=
    List.getElem?_eq_getElem pending
  obtain ⟨⟨vc, pushed⟩, ran, same⟩ := ok_of_bind computed
  cases same
  rw [snapshot_eq registered, sound.email _ (List.getElem_mem pending)] at ran
  have length := length_found users state.vc.observers[index].uID
  refine ⟨_, registered, rfl, rfl, ?_⟩
  cases listed : found users state.vc.observers[index].uID with
  | nil =>
    rw [listed] at ran length
    cases ran
    exact .inl ⟨List.length_eq_zero_iff.mp length.symm, rfl⟩
  | cons user rest =>
    rw [listed] at ran length
    cases ran
    refine .inr ⟨List.ne_nil_of_length_pos (length ▸ Nat.succ_pos _), openAll_email _ _ _⟩

theorem attempted_cases [NSScanner] (taken : session state (.attempted : AttemptEvent Double) next emitted) :
    emitted = [next] ∧ next.vc.observers = state.vc.observers ∧ next.waiting = state.waiting ∧
      next.vc.loader.inWindow = true ∧
      ((state.vc.username = none ∨ state.vc.password = none) ∧ next.vc.emailCalls = state.vc.emailCalls ∨
        ¬ (state.vc.username = none ∨ state.vc.password = none) ∧ 0 < next.vc.emailCalls) := by
  cases taken.2
  refine ⟨rfl, ?_⟩
  by_cases absent : state.vc.username = none ∨ state.vc.password = none
  · rw [@signInAction_of_absent Double _ absent]
    exact ⟨rfl, rfl, rfl, .inl ⟨absent, rfl⟩⟩
  · obtain ⟨noUsername, noPassword⟩ := not_or.mp absent
    obtain ⟨email, username⟩ := Option.ne_none_iff_exists'.mp noUsername
    obtain ⟨pass, password⟩ := Option.ne_none_iff_exists'.mp noPassword
    rw [@signInAction_of_texts Double _ _ _ username password]
    exact ⟨rfl, rfl, rfl, .inr ⟨absent, Nat.succ_pos _⟩⟩

theorem emits_next [NSScanner] (sound : state.Sound) {event : AttemptEvent Double}
    (taken : session state event next emitted) : emitted = [next] := by
  cases event with
  | edited username password =>
    cases taken.2
    rfl
  | attempted => exact (attempted_cases taken).1
  | emailCompleted result =>
    cases taken.2
    rfl
  | snapshot index users =>
    obtain ⟨-, -, single, -⟩ := snapshot_cases sound taken
    exact single

theorem sound_step [NSScanner] (sound : state.Sound) {event : AttemptEvent Double}
    (taken : session state event next emitted) : next.Sound := by
  cases event with
  | edited username password =>
    cases taken.2
    exact ⟨sound.email, sound.loader⟩
  | attempted =>
    obtain ⟨-, observers, -, shown, -⟩ := attempted_cases taken
    refine ⟨by rw [observers]; exact sound.email, fun hidden => ?_⟩
    rw [shown] at hidden
    cases hidden
  | emailCompleted result =>
    cases taken.2
    cases result with
    | error => exact ⟨sound.email, fun _ => rfl⟩
    | noUser => exact ⟨sound.email, fun _ => rfl⟩
    | user uid =>
      refine ⟨fun observer member => ?_, sound.loader⟩
      rcases List.mem_append.mp member with before | new
      · exact sound.email observer before
      · rw [List.mem_singleton.mp new]
  | snapshot index users =>
    obtain ⟨observer, -, -, -, ⟨-, same⟩ | ⟨-, dismissed⟩⟩ := snapshot_cases sound taken
    · exact ⟨by rw [same]; exact sound.email, by rw [same]; exact sound.loader⟩
    · exact ⟨by rw [dismissed]; exact sound.email, by rw [dismissed]; exact fun _ => rfl⟩

omit [Ring Double] [LinearOrder Double] [FloorRing Double] in
theorem settled_of_outstanding (outstanding : state.Outstanding) : state.Settled :=
  fun idle => absurd outstanding idle

omit [Ring Double] [LinearOrder Double] [FloorRing Double] in
theorem settled_iff_of_shown (shown : state.vc.loader.inWindow = true) :
    state.Settled ↔ state.Outstanding := by
  constructor
  · intro settled
    by_contra idle
    exact absurd shown (by rw [(settled idle).1]; decide)
  · exact settled_of_outstanding

omit [Ring Double] [LinearOrder Double] [FloorRing Double] in
theorem settled_childless_iff (sound : state.Sound) {index : Nat} (same : next.vc = state.vc)
    (waiting : next.waiting = state.waiting.erase index) :
    next.Settled ↔
      0 < state.vc.emailCalls ∨ state.waiting.erase index ≠ [] ∨ state.vc.loader.inWindow = false := by
  unfold Settled Outstanding
  rw [same, waiting]
  constructor
  · intro settled
    by_contra left
    obtain ⟨calls, rest, shown⟩ := by simpa only [not_or] using left
    exact shown (settled (not_or.mpr ⟨calls, rest⟩)).1
  · rintro (calls | rest | hidden) idle
    · exact absurd (.inl calls) idle
    · exact absurd (.inr rest) idle
    · exact ⟨hidden, sound.loader hidden⟩

theorem settled_step_iff [NSScanner] (sound : state.Sound) (settled : state.Settled)
    {event : AttemptEvent Double}
    (taken : session state event next emitted) :
    (∀ reached ∈ emitted, reached.Settled) ↔ Closed state event := by
  cases event with
  | edited username password =>
    cases taken.2
    exact iff_of_true (List.forall_mem_singleton.mpr settled) trivial
  | attempted =>
    obtain ⟨rfl, -, waiting, shown, cases⟩ := attempted_cases taken
    rw [List.forall_mem_singleton, settled_iff_of_shown shown]
    rcases cases with ⟨absent, calls⟩ | ⟨texts, pending⟩
    · unfold Closed Outstanding
      rw [calls, waiting]
      exact ⟨fun outstanding _ => outstanding, fun closed => closed absent⟩
    · exact iff_of_true (.inl pending) fun absent => absurd absent texts
  | emailCompleted result =>
    cases taken.2
    refine iff_of_true (List.forall_mem_singleton.mpr ?_) trivial
    cases result with
    | error => exact fun _ => ⟨rfl, rfl⟩
    | noUser => exact fun _ => ⟨rfl, rfl⟩
    | user uid => exact settled_of_outstanding (.inr (List.append_ne_nil_of_right_ne_nil _ (by simp)))
  | snapshot index users =>
    obtain ⟨observer, registered, rfl, waiting, cases⟩ := snapshot_cases sound taken
    rw [List.forall_mem_singleton]
    have closed_iff : Closed state (.snapshot index users) ↔
        (queryEqual users "uid" observer.uID = [] →
          0 < state.vc.emailCalls ∨ state.waiting.erase index ≠ [] ∨ state.vc.loader.inWindow = false) := by
      simp only [Closed, registered, Option.some.injEq, forall_eq']
    rw [closed_iff]
    rcases cases with ⟨childless, same⟩ | ⟨children, dismissed⟩
    · rw [forall_prop_of_true childless]
      exact settled_childless_iff sound same waiting
    · refine iff_of_true (fun _ => ?_) fun childless => absurd childless children
      rw [dismissed]
      exact ⟨rfl, rfl⟩

theorem settled_iff_closed [NSScanner] {username password : Option String} {final : Attempts}
    {events : List (AttemptEvent Double)} {reached : List Attempts}
    (run : Runs session { vc := opened username password } events final reached) :
    (∀ state ∈ reached, state.Settled) ↔
      Runs (session.guardedBy Closed) { vc := opened username password } events final reached := by
  apply run.outputs_forall_iff_guarded (fun state => state.Sound ∧ state.Settled) Closed Settled
  · exact fun _ _ _ _ ⟨sound, settled⟩ taken => settled_step_iff sound settled taken
  · intro state event next emitted ⟨sound, settled⟩ taken closed
    have reached := (settled_step_iff sound settled taken).mpr closed
    rw [emits_next sound taken] at reached
    exact ⟨sound_step sound taken, reached next List.mem_cons_self⟩
  · have none : ∀ observer ∈ (opened username password).observers, observer.provider = .email :=
      fun observer member => by cases member
    exact ⟨⟨none, fun _ => rfl⟩, fun _ => ⟨rfl, rfl⟩⟩

theorem settled_failed : ∃ final reached,
    Runs (@session ℚ _ _ _ _) { vc := opened (some "an@example.com") (some "secret") }
      [.attempted, .emailCompleted .error] final reached ∧
      (reached ≠ [] ∧ ¬ final.Outstanding) ∧ ∀ state ∈ reached, state.Settled := by
  have guarded : Runs ((@session ℚ _ _ _ _).guardedBy Closed) { vc := opened (some "an@example.com") (some "secret") }
      [.attempted, .emailCompleted .error] _ ([_] ++ ([_] ++ [])) :=
    .next ⟨fun outstanding => Or.elim outstanding nofun nofun, trivial, rfl⟩
      (.next ⟨trivial, Nat.one_pos, rfl⟩ (.done _))
  exact ⟨_, _, guarded.unguarded, ⟨List.cons_ne_nil _ _, by decide⟩,
    (settled_iff_closed guarded.unguarded).mpr guarded⟩

/-- The account has no record under `User`: nothing dismisses the loader. -/
theorem loader_stays : ∃ final reached,
    Runs (@session ℚ _ _ _ _) { vc := opened (some "an@example.com") (some "secret") }
      [.attempted, .emailCompleted (.user "u1"), .snapshot 0 .empty] final reached ∧
      (¬ final.Outstanding ∧ final.vc.loader.inWindow = true) ∧ ¬ ∀ state ∈ reached, state.Settled := by
  have run : Runs (@session ℚ _ _ _ _) { vc := opened (some "an@example.com") (some "secret") }
      [.attempted, .emailCompleted (.user "u1"), .snapshot 0 .empty] _ ([_] ++ ([_] ++ ([_] ++ []))) :=
    .next ⟨trivial, rfl⟩ (.next ⟨Nat.one_pos, rfl⟩ (.next ⟨Nat.one_pos, rfl⟩ (.done _)))
  refine ⟨_, _, run, ⟨by decide, rfl⟩, fun all => ?_⟩
  have settled := all _ (List.mem_cons_of_mem _ (List.mem_cons_of_mem _ List.mem_cons_self))
  exact absurd (settled (by decide)).1 (by decide)

end Attempts

end ProjectF02
