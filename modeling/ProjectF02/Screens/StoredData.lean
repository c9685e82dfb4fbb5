import ProjectF02.Chat.ChatHomeViewController
import ProjectF02.Posts.MyProfileViewController
import ProjectF02.Login.Effects

/-! The handlers that read the database, on whatever it holds.

The handler of the login screen reads the records a query found, and those are
dictionaries. The two others cast and unwrap what any client may have written.
-/

set_option autoImplicit false

namespace ProjectF02
open Swift Firebase Sorting

variable {Double : Type} [Ring Double] [LinearOrder Double] [FloorRing Double]

/-- What the three handlers are run with, besides the database. -/
structure Screens (Double : Type) where
  -- The users of the profile and of the login that the queries ask for.
  uID : String
  account : String
  home : ChatHomeViewController Double
  profile : MyProfileViewController Double
  login : ViewController
  provider : Login.Provider
  -- The orders of the snapshot's children and of the keys, and the sorts of the two screens.
  snapshot : Enumeration (Node Double)
  keys : Enumeration (Value Double)
  routine : Routine Message
  sort : ComparisonSort

namespace Screens

structure Return [NSScanner] (screens : Screens Double) (chats posts users : Node Double) : Prop where
  getChats : ∃ next, screens.home.getChats screens.snapshot screens.keys screens.routine chats = .ok next
  getPost : ∃ next, screens.profile.getPost screens.keys screens.uID
    (MyProfileViewController.showPosts screens.sort) posts = .ok next
  getUserFromFirebase : ∃ next, screens.login.getUserFromFirebase
    (ViewController.openHome screens.provider) ((queryEqual users "uid" screens.account).map Node.val) = .ok next

theorem return_iff [NSScanner] (screens : Screens Double) (chats posts users : Node Double) :
    screens.Return chats posts users ↔
      ChatHomeViewController.ChatsReadable chats ∧
        MyProfileViewController.PostsReadable posts screens.uID := by
  rw [← ChatHomeViewController.getChats_isOk_iff screens.snapshot screens.keys screens.routine screens.home,
    ← MyProfileViewController.getPost_isOk_iff screens.sort screens.keys screens.uID screens.profile]
  constructor
  · exact fun returned => ⟨returned.getChats, returned.getPost⟩
  · exact fun ⟨getChats, getPost⟩ => ⟨getChats, getPost, _,
      ViewController.getUserFromFirebase_found screens.provider screens.login users screens.account⟩

/-- A chat that is a text, and not a dictionary. -/
def textChat : Node ℚ := .children [⟨"c1", .leaf (.string "Hi")⟩]

def fresh : Screens ℚ where
  uID := "u1"
  account := "u1"
  home := {}
  profile := {}
  login := {}
  provider := .email
  snapshot := .stored
  keys := .stored
  routine := .merge
  sort := .insertion

theorem trapped_by_textChat :
    fresh.home.getChats fresh.snapshot fresh.keys fresh.routine textChat = .error .forceCast ∧
      ¬ fresh.Return textChat .empty .empty := by
  have trapped : fresh.home.getChats fresh.snapshot fresh.keys fresh.routine textChat = .error .forceCast := rfl
  refine ⟨trapped, fun returned => ?_⟩
  obtain ⟨next, ran⟩ := returned.getChats
  rw [trapped] at ran
  cases ran

end Screens

end ProjectF02
