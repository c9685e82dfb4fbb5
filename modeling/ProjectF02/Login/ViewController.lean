import ProjectF02.Models.User
import ProjectF02.Firebase.Auth
import ProjectF02.Firebase.Query
import ProjectF02.Transition.Runs

/-! The login screen: its two sign-in flows, with the calls they leave pending.

Both flows end in an observer of the user's record that stays registered. What a
button starts is read from the connections of the storyboard.
-/

set_option autoImplicit false

namespace ProjectF02
open Swift Firebase Transition

variable {Double : Type}

/-- The subviews that `show` has added, and whether the view is in the window. -/
structure Loader where
  subviews : Nat := 0
  inWindow : Bool := false
  deriving DecidableEq, Repr

def Loader.show (loader : Loader) : Loader := { subviews := loader.subviews + 1, inWindow := true }

def Loader.dismiss (_ : Loader) : Loader := { subviews := 0, inWindow := false }

namespace Login

inductive Provider where
  | email
  | google
  deriving DecidableEq, Repr

structure Observer where
  uID : String
  provider : Provider
  deriving DecidableEq, Repr

inductive Button where
  | buttonLogin
  | buttonGoogleLogin
  deriving DecidableEq, Repr

inductive Selector where
  | signInAction
  | signInWithGoogleAction
  deriving DecidableEq, Repr

/-- The `touchUpInside` connections of `Main.storyboard`, in its order. -/
def connections : Button → List Selector
  | .buttonLogin => [.signInAction]
  | .buttonGoogleLogin => [.signInAction, .signInWithGoogleAction]

/-- What `didSignInFor` receives; `noUser` is neither an error nor a user. -/
inductive GoogleResult where
  | error
  | noUser
  | user (idToken accessToken : Option String)
  deriving DecidableEq, Repr

inductive Event (Double : Type) where
  | tapped (button : Button)
  | emailCompleted (result : AuthResult)
  | googleCompleted (result : GoogleResult)
  | credentialCompleted (result : AuthResult)
  -- The observer of this index is handed its view of the `User` node.
  | snapshot (observer : Nat) (users : Node Double)

inductive Output (Double : Type) where
  | signInWithEmail (email pass : String)
  | signInWithGoogle
  | signInWithCredential (idToken accessToken : String)
  | pushed (user : User Double)

end Login

open Login

/-- The texts of the screen, the loader, the number of calls of each kind that have not
called back, and the observers in the order of their registration. -/
structure ViewController where
  username : Option String := some "admin@gmail.com"
  password : Option String := some "123456"
  loader : Loader := {}
  emailCalls : Nat := 0
  googleCalls : Nat := 0
  credentialCalls : Nat := 0
  observers : List Observer := []
  deriving DecidableEq, Repr

namespace ViewController

def signInWithGoogleAction (vc : ViewController) : ViewController × List (Output Double) :=
  ({ vc with googleCalls := vc.googleCalls + 1 }, [.signInWithGoogle])

def signInAction (vc : ViewController) : ViewController × List (Output Double) :=
  let vc := { vc with loader := vc.loader.show }
  match vc.username, vc.password with
  | some email, some pass =>
    ({ vc with emailCalls := vc.emailCalls + 1 }, [.signInWithEmail email pass])
  -- The loader stays.
  | _, _ => (vc, [])

def send (vc : ViewController) : Selector → ViewController × List (Output Double)
  | .signInAction => vc.signInAction
  | .signInWithGoogleAction => vc.signInWithGoogleAction

def sendAll (vc : ViewController) : List Selector → ViewController × List (Output Double)
  | [] => (vc, [])
  | selector :: rest =>
    let (vc, first) := vc.send selector
    let (vc, later) := vc.sendAll rest
    (vc, first ++ later)

/-- The completion of `signIn(withEmail:password:)`. -/
def emailCompleted (vc : ViewController) (result : AuthResult) : ViewController :=
  let vc := { vc with emailCalls := vc.emailCalls - 1 }
  match result with
  | .error => { vc with loader := vc.loader.dismiss }
  | .noUser => { vc with loader := vc.loader.dismiss }
  | .user uid => { vc with observers := vc.observers ++ [⟨uid, .email⟩] }

def didSignInFor (vc : ViewController) (result : GoogleResult) :
    Except Trap (ViewController × List (Output Double)) :=
  let vc := { vc with googleCalls := vc.googleCalls - 1 }
  match result with
  | .error => .ok (vc, [])
  -- `user.authentication` unwraps the missing user.
  | .noUser => .error .forceUnwrap
  | .user (some idToken) (some accessToken) =>
    .ok ({ vc with credentialCalls := vc.credentialCalls + 1 },
      [.signInWithCredential idToken accessToken])
  | .user _ _ => .ok (vc, [])

/-- The completion of `signInAndRetrieveData(with:)`. -/
def credentialCompleted (vc : ViewController) (result : AuthResult) : ViewController :=
  let vc := { vc with credentialCalls := vc.credentialCalls - 1 }
  match result with
  | .error => vc
  | .noUser => vc
  | .user uid => { vc with observers := vc.observers ++ [⟨uid, .google⟩] }

/-- The callback that either flow passes to `getUserFromFirebase`. -/
def openHome (provider : Provider) (vc : ViewController) (user : User Double) :
    ViewController × List (Output Double) :=
  match provider with
  | .email => ({ vc with loader := vc.loader.dismiss }, [.pushed user])
  | .google => (vc, [.pushed user])

section Numbers
variable [Ring Double] [LinearOrder Double] [FloorRing Double]

def getUserFromFirebase (callback : ViewController → User Double → ViewController × List (Output Double))
    (vc : ViewController) :
    List (Value Double) → Except Trap (ViewController × List (Output Double))
  | [] => .ok (vc, [])
  | snap :: children =>
    match snap.asDict with
    | none => .error .forceCast
    | some u =>
      let user := User.init u
      let (vc, emitted) := callback vc user
      -- Both names are printed after the callback.
      match user.lastName, user.firstName with
      | some _, some _ => do
        let (vc, later) ← getUserFromFirebase callback vc children
        return (vc, emitted ++ later)
      | _, _ => .error .forceUnwrap

def snapshot [NSScanner] (vc : ViewController) (observer : Nat) (users : Node Double) :
    Except Trap (ViewController × List (Output Double)) :=
  match vc.observers[observer]? with
  | none => .ok (vc, [])
  | some observer =>
    getUserFromFirebase (openHome observer.provider) vc
      ((queryEqual users "uid" observer.uID).map Node.val)

def step [NSScanner] (vc : ViewController) :
    Event Double → Except Trap (ViewController × List (Output Double))
  | .tapped button => .ok (vc.sendAll (connections button))
  | .emailCompleted result => .ok (vc.emailCompleted result, [])
  | .googleCompleted result => vc.didSignInFor result
  | .credentialCompleted result => .ok (vc.credentialCompleted result, [])
  | .snapshot observer users => vc.snapshot observer users

def Pending (vc : ViewController) : Event Double → Prop
  | .tapped _ => True
  | .emailCompleted _ => 0 < vc.emailCalls
  | .googleCompleted _ => 0 < vc.googleCalls
  | .credentialCompleted _ => 0 < vc.credentialCalls
  | .snapshot observer _ => observer < vc.observers.length

def session [NSScanner] : System ViewController (Event Double) (Output Double) :=
  (computes step).guardedBy Pending

end Numbers

end ViewController

end ProjectF02
