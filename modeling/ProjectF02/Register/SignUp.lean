import ProjectF02.Register.RegisterViewController
import ProjectF02.Firebase.Snapshot
import ProjectF02.Firebase.Path

/-! The completion handler of the sign-up.

Where an account was created, the handler writes the record and then casts the
result of the call that wrote it, of type `Void`, to an array. Nothing of that
type is one.
-/

set_option autoImplicit false

namespace ProjectF02
open Swift Firebase

variable {Double : Type}

/-- `as! [[String: Any]]` on the result of a call that returns `Void`. -/
def Swift.castVoid (_ : Unit) : Except Trap (List (Dict Double)) := .error .forceCast

namespace User

def FriendsStorable (user : User Double) : Prop := ∃ node, nodeFrom (.ofDict user.friendList) = .ok node

theorem toDict_storable {user : User Double} (friends : user.FriendsStorable) : Storable user.toDict := by
  unfold toDict
  apply Storable.setSome _ "isAvailable" ⟨_, rfl⟩
  apply Storable.setField _ "adress" fun _ => ⟨_, rfl⟩
  apply Storable.setField _ "email" fun _ => ⟨_, rfl⟩
  apply Storable.setField _ "phone" fun _ => ⟨_, rfl⟩
  apply Storable.setSome _ "friendlist" friends
  apply Storable.setField _ "description" fun _ => ⟨_, rfl⟩
  apply Storable.setSome _ "gender" ⟨_, rfl⟩
  apply Storable.setField _ "lastName" fun _ => ⟨_, rfl⟩
  apply Storable.setField _ "firstName" fun _ => ⟨_, rfl⟩
  apply Storable.setField _ "uid" fun _ => ⟨_, rfl⟩
  exact Storable.empty

end User

def userRef (uid : String) : Except Trap FPath := do
  let users ← FPath.child [] "User"
  users.child uid

namespace RegisterViewController
variable [Ring Double] [LinearOrder Double] [FloorRing Double]

/-- The completion of `createUser`: the database after it, and how it returned. -/
def createUserCompleted (vc : RegisterViewController Double) (database : Node Double) :
    AuthResult → Node Double × Except Trap Unit
  | .error => (database, .ok ())
  | .noUser => (database, .ok ())
  | .user uid =>
    let userInfo := vc.userInfo uid
    match userRef uid with
    | .error trap => (database, .error trap)
    | .ok path =>
      match setValue database path (.ofDict userInfo.toDict) with
      | .error trap => (database, .error trap)
      -- The write is on its way when its result is cast.
      | .ok database => (database, (@castVoid Double ()).map fun _ => ())

structure CleanSignUp (vc : RegisterViewController Double) (database : Node Double) (result : AuthResult)
    (after : Node Double × Except Trap Unit) : Prop where
  returned : after.2 = .ok ()
  unchanged : (∀ uid, result ≠ .user uid) → after.1 = database
  registered : ∀ uid, result = .user uid → ∃ path node, userRef uid = .ok path ∧
    nodeFrom (.ofDict (vc.userInfo uid).toDict) = .ok node ∧ after.1.getChild path = node ∧
    ∀ other, ¬ path <+: other → ¬ other <+: path → after.1.getChild other = database.getChild other

theorem createUserCompleted_user (vc : RegisterViewController Double) (database : Node Double)
    {uid : String} {path : FPath} (valid : userRef uid = .ok path) :
    ∃ node, nodeFrom (.ofDict (vc.userInfo uid).toDict) = .ok node ∧
      vc.createUserCompleted database (.user uid) =
        (database.updateChild path node, .error .forceCast) := by
  obtain ⟨node, stored⟩ :=
    (@User.toDict_storable _ (vc.userInfo uid) ⟨.empty, rfl⟩).nodeFrom
  refine ⟨node, stored, ?_⟩
  simp only [createUserCompleted, valid, setValue, stored]
  rfl

/-- What it leaves in the database is right all the same. -/
theorem registered_user (vc : RegisterViewController Double) (database : Node Double) {uid : String}
    {path : FPath} (valid : userRef uid = .ok path) :
    ∃ node, nodeFrom (.ofDict (vc.userInfo uid).toDict) = .ok node ∧
      (vc.createUserCompleted database (.user uid)).1.getChild path = node ∧
      ∀ other, ¬ path <+: other → ¬ other <+: path →
        (vc.createUserCompleted database (.user uid)).1.getChild other = database.getChild other := by
  obtain ⟨node, stored, completed⟩ := createUserCompleted_user vc database valid
  rw [completed]
  refine ⟨node, stored, database.getChild_updateChild path node, ?_⟩
  exact fun other below above => Node.getChild_updateChild_of_apart below above database node

theorem cleanSignUp_iff (vc : RegisterViewController Double) (database : Node Double)
    (result : AuthResult) :
    CleanSignUp vc database result (vc.createUserCompleted database result) ↔
      ∀ uid, result ≠ .user uid := by
  constructor
  · rintro clean uid rfl
    have returned := clean.returned
    cases valid : userRef uid with
    | error trap =>
      simp only [createUserCompleted, valid] at returned
      cases returned
    | ok path =>
      obtain ⟨node, -, completed⟩ := createUserCompleted_user vc database valid
      rw [completed] at returned
      cases returned
  · intro none
    cases result with
    | error => exact ⟨rfl, fun _ => rfl, fun uid created => absurd created (none uid)⟩
    | noUser => exact ⟨rfl, fun _ => rfl, fun uid created => absurd created (none uid)⟩
    | user uid => exact absurd rfl (none uid)

theorem sign_up_trapped :
    let vc : RegisterViewController ℚ := { birthday := ⟨0⟩ }
    (vc.createUserCompleted .empty (.user "u1")).2 = .error .forceCast ∧
      ¬ CleanSignUp vc .empty (.user "u1") (vc.createUserCompleted .empty (.user "u1")) := by
  intro vc
  have valid : userRef "u1" = .ok ["User", "u1"] := by decide
  obtain ⟨node, -, completed⟩ := createUserCompleted_user vc .empty valid
  rw [completed]
  refine ⟨rfl, fun clean => ?_⟩
  cases clean.returned

end RegisterViewController

end ProjectF02
