import ProjectF02.Login.ViewController

/-! Everything one step of the login screen can do. -/

set_option autoImplicit false

namespace ProjectF02.ViewController
open Swift Firebase Transition Login

variable {Double : Type} [Ring Double] [LinearOrder Double] [FloorRing Double]

def opened (username password : Option String) : ViewController :=
  { username := username, password := password }

/-- A `User` node with one record, whose name may be edited. -/
def namedUser (firstName : String) : Node ℚ :=
  .children [⟨"u1", .children [⟨"uid", .leaf (.string "u1")⟩,
    ⟨"firstName", .leaf (.string firstName)⟩]⟩]

def decoded (snap : Value Double) : Option (User Double) := snap.asDict.map User.init

def found [NSScanner] (users : Node Double) (uID : String) : List (User Double) :=
  ((queryEqual users "uid" uID).map Node.val).filterMap decoded

def openAll (vc : ViewController) (provider : Provider) : List (User Double) → ViewController
  | [] => vc
  | user :: rest => (openHome provider vc user).1.openAll provider rest

theorem getUserFromFirebase_eq (provider : Provider) {children : List (Value Double)}
    (dictionaries : ∀ snap ∈ children, ∃ dict, snap.asDict = some dict) (vc : ViewController) :
    getUserFromFirebase (openHome provider) vc children =
      .ok (vc.openAll provider (children.filterMap decoded),
        (children.filterMap decoded).map .pushed) := by
  induction children generalizing vc with
  | nil => rfl
  | cons snap children ih =>
    obtain ⟨dict, cast⟩ := dictionaries snap List.mem_cons_self
    have user : decoded snap = some (User.init dict) := congrArg (Option.map User.init) cast
    have rest := ih (fun other member => dictionaries other (List.mem_cons_of_mem _ member))
      (openHome provider vc (User.init dict)).1
    rw [List.filterMap_cons_some user, getUserFromFirebase, cast]
    -- `User.init` sets both names, so the two unwrappings succeed.
    simp only [User.init] at rest ⊢
    rw [rest]
    cases provider <;> rfl

theorem getUserFromFirebase_found [NSScanner] (provider : Provider) (vc : ViewController) (users : Node Double)
    (uID : String) :
    getUserFromFirebase (openHome provider) vc ((queryEqual users "uid" uID).map Node.val) =
      .ok (vc.openAll provider (found users uID), (found users uID).map .pushed) := by
  apply getUserFromFirebase_eq
  intro snap member
  obtain ⟨user, queried, rfl⟩ := List.mem_map.mp member
  obtain ⟨dict, cast, -⟩ := asDict_val_of_query (by decide) queried
  exact ⟨dict, cast⟩

theorem snapshot_eq [NSScanner] {vc : ViewController} {index : Nat} {observer : Observer}
    (registered : vc.observers[index]? = some observer) (users : Node Double) :
    vc.snapshot index users =
      .ok (vc.openAll observer.provider (found users observer.uID),
        (found users observer.uID).map .pushed) := by
  unfold snapshot
  rw [registered]
  exact getUserFromFirebase_found _ _ _ _

omit [Ring Double] [LinearOrder Double] [FloorRing Double] in
theorem openAll_eq (vc : ViewController) (provider : Provider) (users : List (User Double)) :
    ∃ loader, vc.openAll provider users = { vc with loader := loader } := by
  induction users generalizing vc with
  | nil => exact ⟨vc.loader, rfl⟩
  | cons user rest ih =>
    cases provider with
    | email => exact ih _
    | google => exact ih vc

omit [Ring Double] [LinearOrder Double] [FloorRing Double] in
theorem registered_openAll {vc : ViewController} {index : Nat} {observer : Observer}
    (registered : vc.observers[index]? = some observer) (users : List (User Double)) :
    (vc.openAll observer.provider users).observers[index]? = some observer := by
  obtain ⟨loader, same⟩ := openAll_eq vc observer.provider users
  rw [same]
  exact registered

theorem length_found [NSScanner] (users : Node Double) (uID : String) :
    (found users uID).length = (queryEqual users "uid" uID).length := by
  unfold found
  have all : ∀ user ∈ queryEqual users "uid" uID, (decoded user.val).isSome := by
    intro user queried
    obtain ⟨dict, cast, -⟩ := asDict_val_of_query (by decide) queried
    rw [decoded, cast]
    rfl
  rw [List.filterMap_map]
  exact List.filterMap_length_eq_length.mpr all

theorem uid_found [NSScanner] {users : Node Double} {uID : String} {user : User Double}
    (member : user ∈ found users uID) : user.uid = some uID := by
  obtain ⟨snap, listed, read⟩ := List.mem_filterMap.mp member
  obtain ⟨record, queried, rfl⟩ := List.mem_map.mp listed
  obtain ⟨dict, cast, named⟩ := asDict_val_of_query (by decide) queried
  rw [decoded, cast] at read
  have same : User.init dict = user := Option.some.inj read
  rw [← same, User.init, named]
  rfl

/-- The users of the Home screens that are pushed. -/
def homes : List (Output Double) → List (User Double)
  | [] => []
  | .pushed user :: rest => user :: homes rest
  | _ :: rest => homes rest

omit [Ring Double] [LinearOrder Double] [FloorRing Double] in
theorem homes_pushed (users : List (User Double)) (later : List (Output Double)) :
    homes (users.map .pushed ++ later) = users ++ homes later := by
  induction users with
  | nil => rfl
  | cons user rest ih => exact congrArg (user :: ·) ih

def attempting (vc : ViewController) : ViewController :=
  { vc with loader := vc.loader.show, emailCalls := vc.emailCalls + 1 }

inductive Effect [NSScanner] (vc : ViewController) :
    Event Double → ViewController → List (Output Double) → Prop where
  | attempted (email pass : String) (username : vc.username = some email)
      (password : vc.password = some pass) :
      Effect vc (.tapped .buttonLogin) vc.attempting [.signInWithEmail email pass]
  | returned (absent : vc.username = none ∨ vc.password = none) :
      Effect vc (.tapped .buttonLogin) { vc with loader := vc.loader.show } []
  | attemptedBoth (email pass : String) (username : vc.username = some email)
      (password : vc.password = some pass) :
      Effect vc (.tapped .buttonGoogleLogin)
        { vc.attempting with googleCalls := vc.googleCalls + 1 }
        [.signInWithEmail email pass, .signInWithGoogle]
  | attemptedGoogle (absent : vc.username = none ∨ vc.password = none) :
      Effect vc (.tapped .buttonGoogleLogin)
        { vc with loader := vc.loader.show, googleCalls := vc.googleCalls + 1 } [.signInWithGoogle]
  | emailFailed (result : AuthResult) (failed : ∀ uid, result ≠ .user uid) (pending : 0 < vc.emailCalls) :
      Effect vc (.emailCompleted result)
        { vc with emailCalls := vc.emailCalls - 1, loader := vc.loader.dismiss } []
  | emailSignedIn (uid : String) (pending : 0 < vc.emailCalls) :
      Effect vc (.emailCompleted (.user uid)) { vc with
        emailCalls := vc.emailCalls - 1
        observers := vc.observers ++ [⟨uid, .email⟩] } []
  | googleFailed (result : GoogleResult) (pending : 0 < vc.googleCalls) :
      Effect vc (.googleCompleted result) { vc with googleCalls := vc.googleCalls - 1 } []
  | googleSignedIn (idToken accessToken : String) (pending : 0 < vc.googleCalls) :
      Effect vc (.googleCompleted (.user (some idToken) (some accessToken))) { vc with
        googleCalls := vc.googleCalls - 1
        credentialCalls := vc.credentialCalls + 1 } [.signInWithCredential idToken accessToken]
  | credentialFailed (result : AuthResult) (pending : 0 < vc.credentialCalls) :
      Effect vc (.credentialCompleted result) { vc with credentialCalls := vc.credentialCalls - 1 } []
  | credentialSignedIn (uid : String) (pending : 0 < vc.credentialCalls) :
      Effect vc (.credentialCompleted (.user uid)) { vc with
        credentialCalls := vc.credentialCalls - 1
        observers := vc.observers ++ [⟨uid, .google⟩] } []
  | notified (index : Nat) (users : Node Double) (observer : Observer)
      (registered : vc.observers[index]? = some observer) :
      Effect vc (.snapshot index users) (vc.openAll observer.provider (found users observer.uID))
        ((found users observer.uID).map .pushed)

theorem notified_step [NSScanner] {vc : ViewController} {index : Nat} (observer : Observer)
    (registered : vc.observers[index]? = some observer) (users : Node Double) :
    session vc (.snapshot index users) (vc.openAll observer.provider (found users observer.uID))
      ((found users observer.uID).map .pushed) :=
  ⟨(List.getElem?_eq_some_iff.mp registered).1, snapshot_eq registered users⟩

theorem notified_of_step [NSScanner] {vc next : ViewController} {index : Nat} {observer : Observer}
    {users : Node Double} {emitted : List (Output Double)}
    (registered : vc.observers[index]? = some observer)
    (taken : session vc (.snapshot index users) next emitted) :
    next = vc.openAll observer.provider (found users observer.uID) ∧
      emitted = (found users observer.uID).map .pushed := by
  have computed := (snapshot_eq registered users).symm.trans taken.2
  cases computed
  exact ⟨rfl, rfl⟩

omit [Ring Double] [LinearOrder Double] [FloorRing Double] in
theorem signInAction_of_texts {vc : ViewController} {email pass : String}
    (username : vc.username = some email) (password : vc.password = some pass) :
    vc.signInAction = (vc.attempting, ([.signInWithEmail email pass] : List (Output Double))) := by
  simp only [signInAction, attempting, username, password]

omit [Ring Double] [LinearOrder Double] [FloorRing Double] in
theorem signInAction_of_absent {vc : ViewController}
    (absent : vc.username = none ∨ vc.password = none) :
    vc.signInAction = ({ vc with loader := vc.loader.show }, ([] : List (Output Double))) := by
  rcases absent with noUsername | noPassword
  · simp only [signInAction, noUsername]
  · cases shown : vc.username <;> simp only [signInAction, noPassword, shown]

theorem tapped_effect [NSScanner] {vc next : ViewController} {button : Button} {emitted : List (Output Double)}
    (sent : vc.sendAll (connections button) = (next, emitted)) :
    Effect vc (.tapped button) next emitted := by
  by_cases absent : vc.username = none ∨ vc.password = none
  · have returned : vc.signInAction = (_, ([] : List (Output Double))) := signInAction_of_absent absent
    cases button with
    | buttonLogin =>
      simp only [connections, sendAll, send, returned] at sent
      cases sent
      exact .returned absent
    | buttonGoogleLogin =>
      simp only [connections, sendAll, send, returned] at sent
      cases sent
      exact .attemptedGoogle absent
  · obtain ⟨noUsername, noPassword⟩ := not_or.mp absent
    obtain ⟨email, username⟩ := Option.ne_none_iff_exists'.mp noUsername
    obtain ⟨pass, password⟩ := Option.ne_none_iff_exists'.mp noPassword
    have attempted : vc.signInAction = (_, ([_] : List (Output Double))) :=
      signInAction_of_texts username password
    cases button with
    | buttonLogin =>
      simp only [connections, sendAll, send, attempted] at sent
      cases sent
      exact .attempted email pass username password
    | buttonGoogleLogin =>
      simp only [connections, sendAll, send, attempted] at sent
      cases sent
      exact .attemptedBoth email pass username password

theorem Effect.of_step [NSScanner] {vc next : ViewController} {event : Event Double}
    {emitted : List (Output Double)} (taken : session vc event next emitted) :
    Effect vc event next emitted := by
  obtain ⟨pending, computed⟩ := taken
  cases event with
  | tapped button => exact tapped_effect (Except.ok.inj computed)
  | emailCompleted result =>
    cases computed
    cases result with
    | error => exact .emailFailed .error (by simp) pending
    | noUser => exact .emailFailed .noUser (by simp) pending
    | user uid => exact .emailSignedIn uid pending
  | googleCompleted result =>
    cases result with
    | error =>
      cases computed
      exact .googleFailed _ pending
    | noUser => cases computed
    | user idToken accessToken =>
      cases idToken with
      | none =>
        cases computed
        exact .googleFailed _ pending
      | some idToken =>
        cases accessToken with
        | none =>
          cases computed
          exact .googleFailed _ pending
        | some accessToken =>
          cases computed
          exact .googleSignedIn idToken accessToken pending
  | credentialCompleted result =>
    cases computed
    cases result with
    | error => exact .credentialFailed _ pending
    | noUser => exact .credentialFailed _ pending
    | user uid => exact .credentialSignedIn uid pending
  | snapshot index users =>
    obtain ⟨observer, registered⟩ : ∃ observer, vc.observers[index]? = some observer :=
      ⟨_, List.getElem?_eq_getElem pending⟩
    obtain ⟨rfl, rfl⟩ := notified_of_step registered ⟨pending, computed⟩
    exact .notified index users observer registered

end ProjectF02.ViewController
