import ProjectF02.Chat.ChatViewController
import ProjectF02.Models.User

/-! The list of chats: its handler, the cell that previews a chat and the screen it opens.

The handler empties the list, decodes every chat of the database and appends a chat
once for each of its members that is the user.
-/

set_option autoImplicit false

namespace ProjectF02
open Swift Firebase Transition Sorting

variable {Double : Type}

structure ChatHomeViewController (Double : Type) where
  user : Option (User Double) := none
  chatList : List Chat := []

structure HomeChatCell where
  newestMessageContent : Option String := none
  chat : Option Chat := none

def HomeChatCell.fillData (_ : HomeChatCell) (chat : Chat) : HomeChatCell where
  newestMessageContent := chat.messages.getLast?.map Message.content
  chat := some chat

namespace ChatHomeViewController

def passData (vc : ChatHomeViewController Double) (user : User Double) : ChatHomeViewController Double :=
  { vc with user := some user }

/-- One round of the loop over the members of a chat. -/
def append (c : Chat) (vc : ChatHomeViewController Double) (uid : String) : ChatHomeViewController Double :=
  if vc.user.bind User.uid = some uid then { vc with chatList := vc.chatList ++ [c] } else vc

def didSelectRowAt (vc : ChatHomeViewController Double) (row : Nat) : Option ChatViewController :=
  (vc.chatList[row]?).map fun chatContent => ChatViewController.passChatData {} chatContent

section Decoding
variable [Ring Double] [LinearOrder Double] [FloorRing Double]

/-- The loop over the children of the snapshot. -/
def readChats (order : Enumeration (Value Double)) (routine : Routine Message)
    (vc : ChatHomeViewController Double) :
    List (Value Double) → Except Trap (ChatHomeViewController Double)
  | [] => .ok vc
  | snap :: children => do
    let c ← Chat.ofSnapshot order routine snap
    readChats order routine (c.uIDs.foldl (append c) vc) children

/-- The `.value` callback of `getChats`; `snapshot` is the order of the snapshot's children. -/
def getChats [NSScanner] (snapshot : Enumeration (Node Double)) (order : Enumeration (Value Double))
    (routine : Routine Message) (vc : ChatHomeViewController Double) (chats : Node Double) :
    Except Trap (ChatHomeViewController Double) :=
  readChats order routine { vc with chatList := [] } ((snapshot.values chats.childMap).map Node.val)

end Decoding

def copies (user : Option (User Double)) (c : Chat) : List Chat :=
  List.replicate (c.uIDs.countP fun uid => user.bind User.uid = some uid) c

theorem foldl_append (c : Chat) (uIDs : List String) (vc : ChatHomeViewController Double) :
    uIDs.foldl (append c) vc = { vc with
      chatList := vc.chatList ++
        List.replicate (uIDs.countP fun uid => vc.user.bind User.uid = some uid) c } := by
  induction uIDs generalizing vc with
  | nil => simp
  | cons uid uIDs ih =>
    rw [List.foldl_cons, ih, append]
    split
    next member => simp [member, List.replicate_succ]
    next other => simp [other]

variable [Ring Double] [LinearOrder Double] [FloorRing Double]

theorem readChats_eq (order : Enumeration (Value Double)) (routine : Routine Message)
    (vc : ChatHomeViewController Double) (children : List (Value Double)) :
    readChats order routine vc children = do
      let chats ← children.mapM (Chat.ofSnapshot order routine)
      return { vc with chatList := vc.chatList ++ chats.flatMap (copies vc.user) } := by
  induction children generalizing vc with
  | nil =>
    simp only [readChats, List.mapM_nil, pure_bind, List.flatMap_nil, List.append_nil]
    rfl
  | cons snap children ih =>
    rw [readChats, List.mapM_cons, bind_assoc]
    congr 1
    funext c
    -- The rounds over the members leave the user alone, so the copies stay the same.
    rw [ih, foldl_append, bind_assoc]
    congr 1
    funext chats
    rw [pure_bind, List.flatMap_cons, ← List.append_assoc]
    rfl

def ChatsReadable [NSScanner] (chats : Node Double) : Prop :=
  ∀ key child, chats.childMap.lookup key = some child → Chat.SnapshotReadable child.val

theorem getChats_eq [NSScanner] (snapshot : Enumeration (Node Double)) (order : Enumeration (Value Double))
    (routine : Routine Message) (vc : ChatHomeViewController Double) (chats : Node Double) :
    vc.getChats snapshot order routine chats = do
      let decoded ← ((snapshot.values chats.childMap).map Node.val).mapM (Chat.ofSnapshot order routine)
      return { vc with chatList := decoded.flatMap (copies vc.user) } := by
  unfold getChats
  rw [readChats_eq]
  rfl

theorem getChats_isOk_iff [NSScanner] (snapshot : Enumeration (Node Double))
    (order : Enumeration (Value Double))
    (routine : Routine Message) (vc : ChatHomeViewController Double) (chats : Node Double) :
    (∃ next, vc.getChats snapshot order routine chats = .ok next) ↔ ChatsReadable chats := by
  have decodes : (∃ decoded, ((snapshot.values chats.childMap).map Node.val).mapM
      (Chat.ofSnapshot order routine) = .ok decoded) ↔ ChatsReadable chats := by
    simp only [mapM_isOk_iff, List.forall_mem_map, Chat.ofSnapshot_isOk_iff, snapshot.mem_values]
    constructor
    · exact fun readable key child found => readable child ⟨key, found⟩
    · rintro readable child ⟨key, found⟩
      exact readable key child found
  rw [← decodes, getChats_eq]
  constructor
  · rintro ⟨next, ran⟩
    obtain ⟨decoded, mapped, -⟩ := ok_of_bind ran
    exact ⟨decoded, mapped⟩
  · rintro ⟨decoded, mapped⟩
    exact ⟨_, by rw [mapped]; rfl⟩

end ChatHomeViewController

end ProjectF02
