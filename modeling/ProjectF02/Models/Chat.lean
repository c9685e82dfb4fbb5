import ProjectF02.Models.Message
import ProjectF02.Sorting.Routine

/-! `Chat`, as the home screen decodes it.

Its messages are cast by force, entry by entry, and sorted from the newest to the
oldest; its member list is cast as a whole.
-/

set_option autoImplicit false

namespace ProjectF02
open Swift Firebase Transition Sorting

structure Chat where
  id : Option String := some ""
  messages : List Message := []
  uIDs : List String := []

variable {Double : Type}

namespace Chat

def messagesDict (dict : Dict Double) : Option (Dict Double) := (dict.lookup "messages").bind Value.asDict

def Readable (dict : Dict Double) : Prop :=
  ∀ messages ∈ messagesDict dict, Message.Entries messages

variable [Ring Double] [LinearOrder Double] [FloorRing Double]

/-- `init(_:)`; `order` is the order of `keys`, and `routine` is `sort`. -/
def init (order : Enumeration (Value Double)) (routine : Routine Message) (dict : Dict Double) :
    Except Trap Chat := do
  let messages ← match messagesDict dict with
    | some messages => (order.keys messages).mapM fun key => do
        return Message.init (← forceCast ((messages.lookup key).bind Value.asDict))
    | none => pure []
  return {
    id := some (((dict.lookup "id").bind Value.asString).getD "")
    messages := routine.sorted (fun m1 m2 => m1.time > m2.time) messages
    uIDs := ((dict.lookup "uIDs").bind Value.asStrings).getD [] }

def found (order : Enumeration (Value Double)) (dict : Dict Double) : List Message :=
  ((messagesDict dict).map (Message.listed order)).getD []

theorem messages_eq (messages : Dict Double) (key : String) :
    (do return Message.init (← forceCast ((messages.lookup key).bind Value.asDict)) : Except Trap Message) =
      forceCast (((messages.lookup key).bind Value.asDict).map Message.init) := by
  cases (messages.lookup key).bind Value.asDict <;> rfl

theorem cast_readable {dict messages : Dict Double} (readable : Readable dict)
    (stored : messagesDict dict = some messages) (order : Enumeration (Value Double)) :
    ∀ key ∈ order.keys messages, (((messages.lookup key).bind Value.asDict).map Message.init).isSome := by
  intro key member
  rw [Option.isSome_map]
  exact readable messages stored key ((order.keys_perm messages).mem_iff.mp member)

def decoded (order : Enumeration (Value Double)) (routine : Routine Message) (dict : Dict Double) : Chat where
  id := some (((dict.lookup "id").bind Value.asString).getD "")
  messages := routine.sorted (fun m1 m2 => m1.time > m2.time) (found order dict)
  uIDs := ((dict.lookup "uIDs").bind Value.asStrings).getD []

theorem init_of_readable (order : Enumeration (Value Double)) (routine : Routine Message)
    {dict : Dict Double} (readable : Readable dict) :
    init order routine dict = .ok (decoded order routine dict) := by
  unfold init decoded found
  cases stored : messagesDict dict with
  | none => rfl
  | some messages =>
    simp only [messages_eq, mapM_forceCast (cast_readable readable stored order)]
    rfl

theorem init_isOk_iff (order : Enumeration (Value Double)) (routine : Routine Message) (dict : Dict Double) :
    (∃ chat, init order routine dict = .ok chat) ↔ Readable dict := by
  constructor
  · rintro ⟨chat, decoded⟩ messages stored key member
    unfold init at decoded
    rw [Option.mem_def.mp stored] at decoded
    simp only [messages_eq] at decoded
    obtain ⟨list, mapped, -⟩ := ok_of_bind decoded
    have casts := mapM_isOk_iff.mp ⟨list, mapped⟩ key ((order.keys_perm messages).mem_iff.mpr member)
    rwa [forceCast_isOk_iff, Option.isSome_map] at casts
  · exact fun readable => ⟨_, init_of_readable order routine readable⟩

theorem eq_decoded {order : Enumeration (Value Double)} {routine : Routine Message} {dict : Dict Double}
    {chat : Chat} (returned : init order routine dict = .ok chat) : chat = decoded order routine dict :=
  Except.ok.inj (returned.symm.trans
    (init_of_readable order routine ((init_isOk_iff order routine dict).mp ⟨chat, returned⟩)))

/-- One round of the loop that reads the children of `Chat`. -/
def ofSnapshot (order : Enumeration (Value Double)) (routine : Routine Message) (snap : Value Double) :
    Except Trap Chat := do
  init order routine (← forceCast snap.asDict)

omit [Ring Double] [LinearOrder Double] [FloorRing Double] in
def SnapshotReadable (snap : Value Double) : Prop := ∃ dict, snap.asDict = some dict ∧ Readable dict

theorem ofSnapshot_isOk_iff (order : Enumeration (Value Double)) (routine : Routine Message)
    (snap : Value Double) :
    (∃ chat, ofSnapshot order routine snap = .ok chat) ↔ SnapshotReadable snap := by
  unfold ofSnapshot SnapshotReadable
  cases snap.asDict with
  | none => simp [forceCast, bind, Except.bind]
  | some dict => simpa [forceCast, bind, Except.bind] using init_isOk_iff order routine dict

theorem ofSnapshot_ok {order : Enumeration (Value Double)} {routine : Routine Message}
    {snap : Value Double} {chat : Chat} (returned : ofSnapshot order routine snap = .ok chat) :
    ∃ dict, snap.asDict = some dict ∧ chat = decoded order routine dict := by
  obtain ⟨dict, cast, ran⟩ := ok_of_bind returned
  exact ⟨dict, forceCast_eq_ok.mp cast, eq_decoded ran⟩

end Chat

end ProjectF02
