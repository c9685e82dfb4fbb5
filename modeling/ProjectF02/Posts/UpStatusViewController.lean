import ProjectF02.Models.StoredPost
import ProjectF02.Models.User
import ProjectF02.Firebase.Path
import ProjectF02.Store.LastWrites
import ProjectF02.Transition.Runs

/-! The share screen: a text post is written at once, an image post after its upload.

An upload is pending until its callback, and so is the request for its download
URL. Either may fail and either may come back at any time, while the user goes on
editing; a callback with no pending request does not occur and leaves the state as
it was.
-/

set_option autoImplicit false

namespace ProjectF02
open Swift Firebase Transition

variable {Image Double Screen : Type}

def FALSE : Int64 := -1

def TRUE : Int64 := 1

structure UpStatusViewController (Image Double : Type) where
  labelUsername : Option String := none
  imagePostup : Option Image := none
  contentTextView : Option String := some ""
  userforstatusvc : Option (User Double) := none

/-- A post handed to `setValue`, with the key it was written under. -/
abbrev Written (Double : Type) := String × Post Double

namespace UpStatusViewController

def uid (vc : UpStatusViewController Image Double) : String :=
  (vc.userforstatusvc.bind User.uid).getD ""

def mypost (vc : UpStatusViewController Image Double) (timest : String) (timestamp : Double)
    (useruppostid : String) (linkimage : Int64) : Post Double where
  contentText := some (vc.contentTextView.getD "")
  fullName := vc.labelUsername
  time := some timestamp
  postid := some (useruppostid ++ timest)
  uid := some useruppostid
  comment := []
  like := []
  imageLink :=
    if linkimage = FALSE then some FALSE
    else if linkimage = TRUE then some TRUE
    else none

def upPostFirebase (vc : UpStatusViewController Image Double) (timest : String) (timestamp : Double)
    (useruppostid : String) (linkimage : Int64) (database : Node Double) :
    Except Trap (Node Double × List (Written Double)) := do
  let mypost := vc.mypost timest timestamp useruppostid linkimage
  let posts ← FPath.child [] "Post"
  let postref ← posts.child timest
  let database ← setValue database postref (.ofDict mypost.toDict)
  return (database, [(timest, mypost)])

end UpStatusViewController

/-- What the callbacks of an image post have captured. -/
structure ImagePost (Image Double Screen : Type) where
  screen : Screen
  storageref : StoragePath
  imagepick : Image
  strmydate : String
  mytimestamp : Double

namespace Sharing

/-- The share screens of any number of users over one database and one Storage. -/
structure State (Image Double Screen : Type) where
  screens : Screen → UpStatusViewController Image Double
  database : Node Double
  storage : Store.Map StoragePath Image := ∅
  uploads : List (ImagePost Image Double Screen) := []
  downloads : List (ImagePost Image Double Screen) := []

inductive Event (Image Double Screen : Type) where
  | typed (screen : Screen) (text : String)
  | picked (screen : Screen) (image : Image)
  | tapped (screen : Screen) (mydate : Date Double)
  | uploaded (task : Nat) (success : Bool)
  | located (task : Nat) (success : Bool)

def State.write (state : State Image Double Screen)
    (result : Except Trap (Node Double × List (Written Double))) :
    Except Trap (State Image Double Screen × List (Written Double)) := do
  let (database, posts) ← result
  return ({ state with database := database }, posts)

section Clock
variable [Ring Double] [LinearOrder Double] [FloorRing Double]

def buttonUppostAction (state : State Image Double Screen) (screen : Screen) (mydate : Date Double) :
    Except Trap (State Image Double Screen × List (Written Double)) :=
  let vc := state.screens screen
  let mytimestamp := mydate.timeIntervalSince1970
  let strmydate := formatWhole mytimestamp
  match vc.contentTextView, vc.imagePostup with
  | some text, some imagepick =>
    if text ≠ "" then
      let storageref := ((StoragePath.child [] "post").child vc.uid).child (vc.uid ++ strmydate)
      .ok ({ state with
        uploads := state.uploads ++ [⟨screen, storageref, imagepick, strmydate, mytimestamp⟩] }, [])
    else state.write (vc.upPostFirebase strmydate mytimestamp vc.uid TRUE state.database)
  | some text, none =>
    if text ≠ "" then state.write (vc.upPostFirebase strmydate mytimestamp vc.uid FALSE state.database)
    -- An alert, and nothing is written.
    else .ok (state, [])
  | none, _ => .ok (state, [])

/-- The completion of `putData`: a success means that the image is stored. -/
def uploadCompleted (state : State Image Double Screen) (task : Nat) (success : Bool) :
    State Image Double Screen :=
  match state.uploads[task]? with
  | none => state
  | some post =>
    let state := { state with uploads := state.uploads.eraseIdx task }
    if success then
      { state with
        storage := state.storage.insert post.storageref post.imagepick
        downloads := state.downloads ++ [post] }
    else state

/-- The completion of `downloadURL`, which reads the screen as it is by then. -/
def urlCompleted (state : State Image Double Screen) (task : Nat) (success : Bool) :
    Except Trap (State Image Double Screen × List (Written Double)) :=
  match state.downloads[task]? with
  | none => .ok (state, [])
  | some post =>
    let vc := state.screens post.screen
    let state := { state with downloads := state.downloads.eraseIdx task }
    if success then
      state.write (vc.upPostFirebase post.strmydate post.mytimestamp vc.uid TRUE state.database)
    else .ok (state, [])

variable [DecidableEq Screen]

def State.edit (state : State Image Double Screen) (screen : Screen)
    (vc : UpStatusViewController Image Double) : State Image Double Screen :=
  { state with screens := Function.update state.screens screen vc }

def step (state : State Image Double Screen) :
    Event Image Double Screen → Except Trap (State Image Double Screen × List (Written Double))
  | .typed screen text =>
      .ok (state.edit screen { state.screens screen with contentTextView := some text }, [])
  | .picked screen image =>
      .ok (state.edit screen { state.screens screen with imagePostup := some image }, [])
  | .tapped screen mydate => buttonUppostAction state screen mydate
  | .uploaded task success => .ok (uploadCompleted state task success, [])
  | .located task success => urlCompleted state task success

end Clock

end Sharing

namespace UpStatusViewController

theorem stored_mypost (vc : UpStatusViewController Image Double) (timest : String) (timestamp : Double)
    (useruppostid : String) (linkimage : Int64) :
    (vc.mypost timest timestamp useruppostid linkimage).Stored := .inr (.inl rfl)

variable [Ring Double] [LinearOrder Double] [FloorRing Double]

theorem upPostFirebase_eq (vc : UpStatusViewController Image Double) (timestamp : Double)
    (useruppostid : String) (linkimage : Int64) (database : Node Double) :
    vc.upPostFirebase (formatWhole timestamp) timestamp useruppostid linkimage database =
      .ok (database.updateChild ["Post", formatWhole timestamp]
          (vc.mypost (formatWhole timestamp) timestamp useruppostid linkimage).node,
        [(formatWhole timestamp, vc.mypost (formatWhole timestamp) timestamp useruppostid linkimage)]) := by
  have posts : FPath.child [] "Post" = .ok ["Post"] := by decide
  have postref : FPath.child ["Post"] (formatWhole timestamp) = .ok ["Post", formatWhole timestamp] :=
    FPath.child_decimal _ (formatWhole_ne_empty _) fun _ member => isDecimal_of_mem_formatWhole member
  unfold upPostFirebase
  simp only [posts, Post.nodeFrom_toDict, setValue]
  simp only [bind, Except.bind, postref]
  rfl

end UpStatusViewController

end ProjectF02
