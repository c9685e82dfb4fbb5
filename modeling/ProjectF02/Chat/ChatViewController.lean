import ProjectF02.Models.Chat
import ProjectF02.Firebase.Path

/-! The chat screen: sending a message and following the conversation. -/

set_option autoImplicit false

namespace ProjectF02
open Swift Firebase

/-- The properties of the screen; `messTF` is the text of the field of that name. -/
structure ChatViewController where
  messages : List Message := []
  chat : Option Chat := none
  uID : String := ""
  messTF : Option String := some ""

variable {Double : Type}

def messagesRef (chatID : String) : Except Trap FPath := do
  let chats ← FPath.child [] "Chat"
  let chat ← chats.child chatID
  chat.child "messages"

/-- A dictionary handed to `setValue`, with the key it was written under. -/
abbrev Sent (Double : Type) := String × Dict Double

namespace ChatViewController

/-- `sendMessagesData`: the database after it and what it wrote there. -/
def sendMessagesData (vc : ChatViewController) (message : Dict Double) (date : Int64)
    (database : Node Double) : Except Trap (Node Double × List (Sent Double)) :=
  match vc.chat with
  | none => .ok (database, [])
  | some chatContent =>
    match chatContent.id with
    | none => .ok (database, [])
    | some chatID => do
      let messagesFB ← messagesRef chatID
      let key := string date
      let child ← messagesFB.child key
      let database ← setValue database child (.ofDict message)
      return (database, [(key, message)])

section Clock
variable [Ring Double] [LinearOrder Double] [FloorRing Double]

def sendMessAction (vc : ChatViewController) (now : Date Double) (database : Node Double) :
    Except Trap (Node Double × List (Sent Double)) :=
  match vc.messTF with
  | none => .ok (database, [])
  | some content => do
    let date := now.toMillis
    let time ← int64 date
    let mess : Message := { content := content, isNew := 1, status := 0, time := time, uID := vc.uID }
    vc.sendMessagesData mess.toDict (← int64 date) database

/-- The list the observer installs; `none` when its guard returns. -/
def observed (order : Enumeration (Value Double)) (routine : Sorting.Routine Message)
    (snapshot : Value Double) : Option (List Message) :=
  match snapshot.asDict with
  | none => none
  | some dict =>
    let messages := ((order.keys dict).map fun key =>
      ((dict.lookup key).bind Value.asDict).map Message.init).reduceOption
    some (routine.sorted (fun a b => a.time < b.time) messages)

def updateData (vc : ChatViewController) : ChatViewController := { vc with messTF := none }

def passChatData (vc : ChatViewController) (chat : Chat) : ChatViewController :=
  { vc with chat := some chat }

/-- The screen that is shown first, and the path whose observer is registered. -/
def getMessagesData (vc : ChatViewController) : Except Trap (ChatViewController × Option FPath) :=
  match vc.chat with
  | none => .ok (vc, none)
  | some chatContent =>
    match chatContent.id with
    | none => .ok (vc, none)
    | some chatID => do
      let a ← messagesRef chatID
      return (updateData { vc with messages := chatContent.messages }, some a)

def viewDidLoad (vc : ChatViewController) (curUser : Option String) :
    Except Trap (ChatViewController × Option FPath) :=
  getMessagesData { vc with uID := curUser.getD vc.uID }

/-- The `.value` callback. -/
def observer (order : Enumeration (Value Double)) (routine : Sorting.Routine Message)
    (vc : ChatViewController) (snapshot : Value Double) : ChatViewController :=
  match observed order routine snapshot with
  | none => vc
  | some messages => updateData { vc with messages := messages }

theorem observed_of_dict (order : Enumeration (Value Double)) (routine : Sorting.Routine Message)
    {snapshot : Value Double} {dict : Dict Double} (cast : snapshot.asDict = some dict) :
    observed order routine snapshot =
      some (routine.sorted (fun a b => a.time < b.time) (Message.listed order dict)) := by
  unfold observed
  rw [cast]
  rfl

end Clock

theorem getMessagesData_of_valid {vc : ChatViewController} {chat : Chat} {chatID : String} {a : FPath}
    (shown : vc.chat = some chat) (named : chat.id = some chatID) (valid : messagesRef chatID = .ok a) :
    vc.getMessagesData = .ok (updateData { vc with messages := chat.messages }, some a) := by
  unfold getMessagesData
  rw [shown]
  simp only [named, valid]
  rfl

theorem getMessagesData_ok {vc opened : ChatViewController} {chat : Chat} {chatID : String}
    {registered : Option FPath} (shown : vc.chat = some chat) (named : chat.id = some chatID)
    (ran : vc.getMessagesData = .ok (opened, registered)) :
    ∃ a, messagesRef chatID = .ok a ∧ opened = updateData { vc with messages := chat.messages } ∧
      registered = some a := by
  simp only [getMessagesData, shown, named] at ran
  obtain ⟨a, found, same⟩ := Transition.ok_of_bind ran
  cases same
  exact ⟨a, found, by rw [shown], rfl⟩

theorem child_string (path : FPath) (n : Int64) : path.child (string n) = .ok (path ++ [string n]) :=
  path.child_decimal (toString_int_ne_empty _) fun _ member => isDecimal_of_mem_toString member

theorem sendMessagesData_eq {vc : ChatViewController} {chat : Chat} {chatID : String} {path : FPath}
    (opened : vc.chat = some chat) (named : chat.id = some chatID) (found : messagesRef chatID = .ok path)
    (message : Message) (date : Int64) (database : Node Double) :
    vc.sendMessagesData message.toDict date database =
      .ok (database.updateChild (path ++ [string date]) message.node, [(string date, message.toDict)]) := by
  simp only [sendMessagesData, opened, named, found, child_string, setValue,
    Message.nodeFrom_toDict]
  rfl

/-- The screen of a chat whose observer is registered at the path. -/
def OpenedAt (vc : ChatViewController) (path : FPath) : Prop :=
  ∃ chat chatID, vc.chat = some chat ∧ chat.id = some chatID ∧ messagesRef chatID = .ok path

variable [Ring Double] [LinearOrder Double] [FloorRing Double]

def composed (vc : ChatViewController) (content : String) (now : Date Double) : Message where
  content := content
  isNew := 1
  status := 0
  time := Int64.ofInt (truncated now.toMillis)
  uID := vc.uID

theorem sendMessAction_eq {vc : ChatViewController} {path : FPath} (opened : vc.OpenedAt path)
    (now : Date Double) (database : Node Double) :
    vc.sendMessAction now database =
      match vc.messTF with
      | none => .ok (database, [])
      | some content =>
        if InInt64 (truncated now.toMillis) then
          let message := vc.composed content now
          .ok (database.updateChild (path ++ [string message.time]) message.node,
            [(string message.time, message.toDict)])
        else .error .integerRange := by
  obtain ⟨chat, chatID, shown, named, found⟩ := opened
  unfold sendMessAction
  cases vc.messTF with
  | none => rfl
  | some content =>
    -- Both conversions of the clock succeed or the first one traps.
    by_cases range : InInt64 (truncated now.toMillis)
    · have converted : int64 now.toMillis = .ok (Int64.ofInt (truncated now.toMillis)) := int64_of_range range
      simp only [converted, range, if_true]
      exact sendMessagesData_eq shown named found (vc.composed content now) _ database
    · have trapped : int64 now.toMillis = .error .integerRange := if_neg range
      simp only [trapped, range, if_false]
      rfl

theorem truncated_toMillis [IsStrictOrderedRing Double] (seconds : ℤ) :
    truncated (Date.toMillis ⟨(seconds : Double)⟩) = seconds * 1000 := by
  unfold Date.toMillis
  have whole : (seconds : Double) * 1000 = ((seconds * 1000 : ℤ) : Double) := by push_cast; rfl
  rw [whole, truncated_intCast]

theorem openedAt_observer {vc : ChatViewController} {path : FPath} (opened : vc.OpenedAt path)
    (order : Enumeration (Value Double)) (routine : Sorting.Routine Message) (snapshot : Value Double) :
    (observer order routine vc snapshot).OpenedAt path := by
  unfold observer
  split <;> exact opened

end ChatViewController

end ProjectF02
