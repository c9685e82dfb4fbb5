import ProjectF02.Login.Effects

/-! What one e-mail sign-in leads to.

The observer of the user's record stays registered, so every later snapshot pushes
a Home screen for each of its children.
-/

set_option autoImplicit false

namespace ProjectF02.ViewController
open Swift Firebase Transition Login

variable {Double : Type} [Ring Double] [LinearOrder Double] [FloorRing Double]

/-- A tap on the sign-in button that succeeds for `uid`, then any snapshots of the user's record. -/
def signIn (uid : String) (snapshots : List (Node Double)) : List (Event Double) :=
  .tapped .buttonLogin :: .emailCompleted (.user uid) :: snapshots.map (.snapshot 0)

theorem homes_snapshots [NSScanner] {vc final : ViewController} {index : Nat} {observer : Observer}
    (registered : vc.observers[index]? = some observer) (snapshots : List (Node Double))
    {outputs : List (Output Double)}
    (run : Runs session vc (snapshots.map (.snapshot index)) final outputs) :
    homes outputs = snapshots.flatMap fun users => found users observer.uID := by
  -- What is carried along the snapshots is that the observer stays registered.
  induction snapshots generalizing vc outputs with
  | nil =>
    cases run
    rfl
  | cons users rest ih =>
    cases run with
    | next first later =>
      obtain ⟨rfl, rfl⟩ := notified_of_step registered first
      have kept := registered_openAll registered (found users observer.uID)
      rw [homes_pushed, List.flatMap_cons, ih kept later]

theorem snapshots_run [NSScanner] (snapshots : List (Node Double)) {vc : ViewController} {index : Nat}
    {observer : Observer} (registered : vc.observers[index]? = some observer) :
    ∃ final outputs, Runs session vc (snapshots.map (.snapshot index)) final outputs := by
  induction snapshots generalizing vc with
  | nil => exact ⟨vc, [], .done vc⟩
  | cons users rest ih =>
    obtain ⟨final, later, run⟩ := ih (registered_openAll registered (found users observer.uID))
    exact ⟨final, _, .next (notified_step observer registered users) run⟩

def signedIn (email password uid : String) : ViewController :=
  { opened (some email) (some password) with
    loader := Loader.show {}
    observers := [⟨uid, .email⟩] }

theorem signIn_run [NSScanner] {email password uid : String} {snapshots : List (Node Double)}
    {final : ViewController} {outputs : List (Output Double)} :
    Runs session (opened (some email) (some password)) (signIn uid snapshots) final outputs ↔
      ∃ later, outputs = .signInWithEmail email password :: later ∧
        Runs session (signedIn email password uid) (snapshots.map (.snapshot 0)) final later := by
  constructor
  · intro run
    cases run with
    | next tapped afterTap =>
      obtain ⟨-, computed⟩ := tapped
      cases computed
      cases afterTap with
      | next completed later =>
        obtain ⟨-, computed⟩ := completed
        cases computed
        exact ⟨_, rfl, later⟩
  · rintro ⟨later, rfl, run⟩
    exact show Runs session (opened (some email) (some password))
        (.tapped .buttonLogin :: .emailCompleted (.user uid) :: snapshots.map (.snapshot 0))
        final ([_] ++ ([] ++ later)) from
      .next ⟨trivial, rfl⟩ (.next ⟨Nat.one_pos, rfl⟩ run)

/-- At most one Home screen, and one as soon as some snapshot has a child. -/
def OpensOne (uid : String) (snapshots : List (Node Double)) (outputs : List (Output Double)) : Prop :=
  (homes outputs).length ≤ 1 ∧
    ((∃ users ∈ snapshots, queryEqual users "uid" uid ≠ []) → (homes outputs).length = 1)

def children (uid : String) (snapshots : List (Node Double)) : List (Node Double) :=
  snapshots.flatMap fun users => queryEqual users "uid" uid

theorem length_homes [NSScanner] {email password uid : String} {snapshots : List (Node Double)}
    {final : ViewController} {outputs : List (Output Double)}
    (run : Runs session (opened (some email) (some password)) (signIn uid snapshots) final outputs) :
    (homes outputs).length = (children uid snapshots).length := by
  obtain ⟨later, rfl, rest⟩ := signIn_run.mp run
  have registered : (signedIn email password uid).observers[0]? = some ⟨uid, .email⟩ := rfl
  have only : homes (.signInWithEmail email password :: later) = homes later := rfl
  rw [only, homes_snapshots registered snapshots rest, children, List.length_flatMap,
    List.length_flatMap]
  simp only [length_found]

theorem opensOne_iff [NSScanner] (email password uid : String) (snapshots : List (Node Double)) :
    (∃ final outputs,
      Runs session (opened (some email) (some password)) (signIn uid snapshots) final outputs) ∧
    ∀ final outputs,
      Runs session (opened (some email) (some password)) (signIn uid snapshots) final outputs →
        (OpensOne uid snapshots outputs ↔ (children uid snapshots).length ≤ 1) := by
  constructor
  · have registered : (signedIn email password uid).observers[0]? = some ⟨uid, .email⟩ := rfl
    obtain ⟨final, later, run⟩ := snapshots_run snapshots registered
    exact ⟨final, _, signIn_run.mpr ⟨later, rfl, run⟩⟩
  · intro final outputs run
    unfold OpensOne
    rw [length_homes run]
    constructor
    · exact And.left
    · intro few
      refine ⟨few, ?_⟩
      rintro ⟨users, delivered, child⟩
      have positive : 0 < (children uid snapshots).length := by
        apply List.length_pos_of_ne_nil
        intro none
        exact child (List.flatMap_eq_nil_iff.mp none users delivered)
      omega

theorem opensOne_unchanged : (children "u1" [namedUser "An"]).length ≤ 1 ∧
    ∃ final outputs,
      Runs session (opened (some "an@example.com") (some "secret")) (signIn "u1" [namedUser "An"])
        final outputs ∧
      OpensOne "u1" [namedUser "An"] outputs := by
  have opens := opensOne_iff "an@example.com" "secret" "u1" [namedUser "An"]
  have few : (children "u1" [namedUser "An"]).length ≤ 1 := by decide
  obtain ⟨final, outputs, run⟩ := opens.1
  exact ⟨few, final, outputs, run, (opens.2 final outputs run).mpr few⟩

/-- A second snapshot, after the name is edited on any device, opens a second Home screen. -/
theorem home_opened_twice : ∃ final outputs,
    Runs session (opened (some "an@example.com") (some "secret"))
      (signIn "u1" [namedUser "An", namedUser "Anh"]) final outputs ∧
    (homes outputs).length = 2 ∧ ¬ OpensOne "u1" [namedUser "An", namedUser "Anh"] outputs := by
  have registered : (signedIn "an@example.com" "secret" "u1").observers[0]? =
      some ⟨"u1", .email⟩ := rfl
  obtain ⟨final, later, rest⟩ := snapshots_run [namedUser "An", namedUser "Anh"] registered
  have run := signIn_run.mpr ⟨later, rfl, rest⟩
  have two := length_homes run
  rw [show (children "u1" [namedUser "An", namedUser "Anh"]).length = 2 by decide] at two
  refine ⟨final, _, run, two, ?_⟩
  intro one
  have few := one.1
  omega

end ProjectF02.ViewController
