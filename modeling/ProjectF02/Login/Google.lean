import ProjectF02.Login.Effects

/-! What taps on the Google button lead to.

A Home screen of the Google flow is always for an account that was signed in with
Google. The button starts the e-mail flow as well, with whatever the two fields hold.
-/

set_option autoImplicit false

namespace ProjectF02.ViewController
open Swift Firebase Transition Login

variable {Double : Type} [Ring Double] [LinearOrder Double] [FloorRing Double]

/-- What a Google sign-in may do: no e-mail sign-in, and a Home screen only for the record of an
account that was signed in with Google, as a snapshot delivered it. -/
def FromGoogle [NSScanner] (events : List (Event Double)) : Output Double → Prop
  | .signInWithEmail _ _ => False
  | .signInWithGoogle => True
  | .signInWithCredential _ _ => True
  | .pushed user => ∃ uid index users, .credentialCompleted (.user uid) ∈ events ∧
      .snapshot index users ∈ events ∧ user ∈ found users uid ∧ user.uid = some uid

/-- No e-mail call is pending, and every observer belongs to an account signed in with Google. -/
structure Sound (events : List (Event Double)) (vc : ViewController) : Prop where
  absent : .tapped .buttonGoogleLogin ∈ events → vc.username = none ∨ vc.password = none
  emailCalls : vc.emailCalls = 0
  observers : ∀ observer ∈ vc.observers, .credentialCompleted (.user observer.uID) ∈ events

theorem Effect.sound [NSScanner] {events : List (Event Double)} {vc next : ViewController}
    {event : Event Double} {emitted : List (Output Double)} (effect : Effect vc event next emitted)
    (member : event ∈ events) (google : .tapped .buttonLogin ∉ events) (sound : Sound events vc) :
    Sound events next ∧ ∀ output ∈ emitted, FromGoogle events output := by
  obtain ⟨absent, emailCalls, observers⟩ := sound
  cases effect with
  | attempted => exact absurd member google
  | returned => exact absurd member google
  | attemptedBoth email pass username password =>
    rcases absent member with noUsername | noPassword
    · exact absurd (username.symm.trans noUsername) (Option.some_ne_none _)
    · exact absurd (password.symm.trans noPassword) (Option.some_ne_none _)
  | attemptedGoogle _ => exact ⟨⟨absent, emailCalls, observers⟩, by simp [FromGoogle]⟩
  -- No e-mail call is pending that could call back.
  | emailFailed result _ pending => omega
  | emailSignedIn uid pending => omega
  | googleFailed _ _ => exact ⟨⟨absent, emailCalls, observers⟩, by simp⟩
  | googleSignedIn idToken accessToken _ =>
    exact ⟨⟨absent, emailCalls, observers⟩, by simp [FromGoogle]⟩
  | credentialFailed _ _ => exact ⟨⟨absent, emailCalls, observers⟩, by simp⟩
  | credentialSignedIn uid _ =>
    refine ⟨⟨absent, emailCalls, ?_⟩, by simp⟩
    intro observer registered
    rcases List.mem_append.mp registered with earlier | latest
    · exact observers observer earlier
    · rw [List.mem_singleton.mp latest]
      exact member
  | notified index users observer registered =>
    constructor
    · obtain ⟨loader, same⟩ := openAll_eq vc observer.provider (found users observer.uID)
      rw [same]
      exact ⟨absent, emailCalls, observers⟩
    · intro output pushed
      obtain ⟨user, listed, rfl⟩ := List.mem_map.mp pushed
      exact ⟨observer.uID, index, users, observers observer (List.mem_of_getElem? registered),
        member, listed, uid_found listed⟩

theorem fromGoogle_run [NSScanner] {vc final : ViewController} {events : List (Event Double)}
    {outputs : List (Output Double)} (run : Runs session vc events final outputs)
    (google : .tapped .buttonLogin ∉ events) (sound : Sound events vc) :
    ∀ output ∈ outputs, FromGoogle events output := by
  have logged := run.logged
    (fun vc log => Sound events vc ∧ ∀ output ∈ log, FromGoogle events output)
    (fun vc event next emitted log member holds taken => by
      obtain ⟨reached, allowed⟩ := (Effect.of_step taken).sound member google holds.1
      exact ⟨reached, List.forall_mem_append.mpr ⟨holds.2, allowed⟩⟩)
    [] ⟨sound, List.forall_mem_nil _⟩
  exact logged.2

theorem Effect.texts [NSScanner] {vc next : ViewController} {event : Event Double}
    {emitted : List (Output Double)} (effect : Effect vc event next emitted) :
    next.username = vc.username ∧ next.password = vc.password := by
  cases effect with
  | notified index users observer registered =>
    obtain ⟨loader, same⟩ := openAll_eq vc observer.provider (found users observer.uID)
    rw [same]
    exact ⟨rfl, rfl⟩
  | _ => exact ⟨rfl, rfl⟩

theorem attempted_run [NSScanner] {vc final : ViewController} {events : List (Event Double)}
    {outputs : List (Output Double)} {email pass : String} (run : Runs session vc events final outputs)
    (username : vc.username = some email) (password : vc.password = some pass)
    (tapped : .tapped .buttonGoogleLogin ∈ events) : .signInWithEmail email pass ∈ outputs := by
  -- The fields keep their texts until the first tap comes.
  induction run with
  | done vc => cases tapped
  | next first rest ih =>
    have effect := Effect.of_step first
    obtain ⟨sameUsername, samePassword⟩ := effect.texts
    rcases List.mem_cons.mp tapped with rfl | later
    · cases effect with
      | attemptedBoth other secret shown entered =>
        cases username.symm.trans shown
        cases password.symm.trans entered
        exact List.mem_append_left _ List.mem_cons_self
      | attemptedGoogle absent =>
        rw [username, password] at absent
        simp at absent
    · exact List.mem_append_right _
        (ih (sameUsername.trans username) (samePassword.trans password) later)

/-- A run without a tap on the e-mail button signs in with Google only, exactly if the Google
button is not tapped either or a field has no text at all. -/
theorem fromGoogle_iff [NSScanner] {username password : Option String} {final : ViewController}
    {events : List (Event Double)} {outputs : List (Output Double)}
    (run : Runs session (opened username password) events final outputs)
    (google : .tapped .buttonLogin ∉ events) :
    (∀ output ∈ outputs, FromGoogle events output) ↔
      .tapped .buttonGoogleLogin ∉ events ∨ username = none ∨ password = none := by
  constructor
  · intro allowed
    by_contra texts
    obtain ⟨tapped, shown⟩ := not_or.mp texts
    obtain ⟨noUsername, noPassword⟩ := not_or.mp shown
    obtain ⟨email, username⟩ := Option.ne_none_iff_exists'.mp noUsername
    obtain ⟨pass, password⟩ := Option.ne_none_iff_exists'.mp noPassword
    exact allowed _ (attempted_run run username password (not_not.mp tapped))
  · intro silent
    have sound : Sound events (opened username password) :=
      ⟨fun tapped => silent.resolve_left (not_not.mpr tapped), rfl, by simp [opened]⟩
    exact fromGoogle_run run google sound

def throughGoogle : List (Event ℚ) :=
  [.tapped .buttonGoogleLogin, .googleCompleted (.user (some "id") (some "access")),
    .credentialCompleted (.user "u1"), .snapshot 0 (namedUser "An")]

theorem fromGoogle_without_text : ∃ final outputs,
    Runs session (opened none (some "123456")) throughGoogle final outputs ∧
      (homes outputs).length = 1 ∧ ∀ output ∈ outputs, FromGoogle throughGoogle output := by
  have run : ∃ final, Runs session (opened none (some "123456")) throughGoogle final
      ([.signInWithGoogle] ++ ([.signInWithCredential "id" "access"] ++
        ([] ++ ((found (namedUser "An") "u1").map .pushed ++ [])))) :=
    ⟨_, .next ⟨trivial, rfl⟩ (.next ⟨Nat.one_pos, rfl⟩ (.next ⟨Nat.one_pos, rfl⟩
      (.next (notified_step ⟨"u1", .google⟩ rfl _) (.done _))))⟩
  obtain ⟨final, run⟩ := run
  exact ⟨final, _, run, rfl, (fromGoogle_iff run (by simp [throughGoogle])).mpr (.inr (.inl rfl))⟩

/-- The e-mail call that the same tap started is the first to succeed. -/
def throughEmail : List (Event ℚ) :=
  [.tapped .buttonGoogleLogin, .emailCompleted (.user "u1"), .snapshot 0 (namedUser "An")]

theorem home_of_email_account : ∃ final outputs,
    Runs session (opened (some "admin@gmail.com") (some "123456")) throughEmail final outputs ∧
      .tapped .buttonLogin ∉ throughEmail ∧
      .signInWithEmail "admin@gmail.com" "123456" ∈ outputs ∧
      (homes outputs).map User.uid = [some "u1"] ∧
      (∀ uid, .credentialCompleted (.user uid) ∉ throughEmail) ∧
      ¬ ∀ output ∈ outputs, FromGoogle throughEmail output := by
  have run : ∃ final, Runs session (opened (some "admin@gmail.com") (some "123456")) throughEmail final
      ([.signInWithEmail "admin@gmail.com" "123456", .signInWithGoogle] ++
        ([] ++ ((found (namedUser "An") "u1").map .pushed ++ []))) :=
    ⟨_, .next ⟨trivial, rfl⟩ (.next ⟨Nat.one_pos, rfl⟩
      (.next (notified_step ⟨"u1", .email⟩ rfl _) (.done _)))⟩
  obtain ⟨final, run⟩ := run
  refine ⟨final, _, run, by simp [throughEmail], List.mem_cons_self, rfl, by simp [throughEmail], ?_⟩
  intro allowed
  exact allowed _ List.mem_cons_self

end ProjectF02.ViewController
