import ProjectF02.Chat.ChatHomeViewController
import Mathlib.Data.List.MinMax

/-! The messages of a decoded chat against the live list and the preview.

The decoder sorts a chat from its newest message to its oldest. The observer of the
open chat sorts the other way, and the cell that previews a chat reads the end of the
list.
-/

set_option autoImplicit false

namespace ProjectF02
open Swift Firebase Sorting

variable {Double : Type} [Ring Double] [LinearOrder Double] [FloorRing Double]

namespace Chat

def conversation (messages : Dict Double) : List Message :=
  Routine.merge.sorted (fun a b => a.time < b.time) (Message.listed .stored messages)

theorem conversation_increasing {messages : Dict Double} (distinct : Message.DistinctTimes messages) :
    (conversation messages).Pairwise fun a b => a.time < b.time :=
  Routine.merge.strictly_increasing distinct

theorem length_conversation {messages : Dict Double} (entries : Message.Entries messages) :
    (conversation messages).length = messages.keys.length :=
  (Routine.merge.perm _ _).length_eq.trans (Message.length_listed .stored entries)

theorem observed_eq_conversation (order : Enumeration (Value Double)) (routine : Routine Message)
    {snapshot : Value Double} {messages : Dict Double} (cast : snapshot.asDict = some messages)
    (distinct : Message.DistinctTimes messages) :
    ChatViewController.observed order routine snapshot = some (conversation messages) := by
  rw [ChatViewController.observed_of_dict order routine cast]
  exact congrArg some (Routine.sorted_eq_of_perm distinct
    (Message.listed_perm messages .stored order) .merge routine).symm

theorem messages_decoded (order : Enumeration (Value Double)) (routine : Routine Message)
    {dict messages : Dict Double} (stored : messagesDict dict = some messages)
    (distinct : Message.DistinctTimes messages) :
    (decoded order routine dict).messages = (conversation messages).reverse := by
  have distinct' := ((Message.listed_perm messages .stored order).map Message.time).nodup_iff.mp distinct
  change routine.sorted (fun a b => a.time > b.time) (found order dict) = _
  unfold found
  rw [stored]
  exact Routine.sorted_downwards distinct' (Message.listed_perm messages order .stored) routine .merge

theorem messages_decoded_eq_iff (order : Enumeration (Value Double)) (routine : Routine Message)
    {dict messages : Dict Double} (stored : messagesDict dict = some messages)
    (entries : Message.Entries messages) (distinct : Message.DistinctTimes messages) :
    (decoded order routine dict).messages = conversation messages ↔ messages.keys.length ≤ 1 := by
  rw [messages_decoded order routine stored distinct,
    reverse_eq_self_iff (conversation_increasing distinct), length_conversation entries]

theorem decoded_agrees_iff (order : Enumeration (Value Double)) (routine : Routine Message)
    {dict : Dict Double} {snapshot : Value Double} (field : messagesDict dict = snapshot.asDict)
    (conversational : ∀ delivered, snapshot.asDict = some delivered →
      Message.Entries delivered ∧ Message.DistinctTimes delivered) :
    (∀ order' routine' list, ChatViewController.observed order' routine' snapshot = some list →
        (decoded order routine dict).messages = list) ↔
      ∀ delivered, snapshot.asDict = some delivered → delivered.keys.length ≤ 1 := by
  cases cast : snapshot.asDict with
  | none =>
    -- The guard of the observer returns.
    refine iff_of_true (fun order' routine' list computed => ?_) fun _ found => by cases found
    unfold ChatViewController.observed at computed
    rw [cast] at computed
    cases computed
  | some messages =>
    obtain ⟨entries, distinct⟩ := conversational messages cast
    have computes (order' : Enumeration (Value Double)) (routine' : Routine Message) :=
      observed_eq_conversation order' routine' cast distinct
    simp only [computes, Option.some.injEq, forall_eq']
    rw [← messages_decoded_eq_iff order routine (field.trans cast) entries distinct]
    constructor
    · exact fun agree => agree .stored .merge
    · exact fun same _ _ => same

end Chat

/-- What the observer may be handed: if the node is delivered as a dictionary, its entries are
dictionaries with times of their own. -/
def Conversational [NSScanner] (messages : Node Double) : Prop :=
  ∀ delivered, messages.val.asDict = some delivered →
    Message.Entries delivered ∧ Message.DistinctTimes delivered

/-- The list that opening a chat installs is the one its observer computes exactly if the node is
not delivered as a dictionary of two or more messages. -/
theorem opening_agrees_iff [NSScanner] (order : Enumeration (Value Double)) (routine : Routine Message)
    {chat : Node Double} {dict : Dict Double} (cast : chat.val.asDict = some dict)
    (conversational : Conversational (chat.getImmediateChild "messages")) :
    ∃ c, Chat.ofSnapshot order routine chat.val = .ok c ∧
      ∀ (vc opened : ChatViewController) (registered : Option FPath),
        (vc.passChatData c).getMessagesData = .ok (opened, registered) →
        ((∀ order' routine' list, ChatViewController.observed order' routine'
            (chat.getImmediateChild "messages").val = some list → opened.messages = list) ↔
          ∀ delivered, (chat.getImmediateChild "messages").val.asDict = some delivered →
            delivered.keys.length ≤ 1) := by
  have field : Chat.messagesDict dict = (chat.getImmediateChild "messages").val.asDict :=
    bind_lookup_of_asDict_val cast "messages" rfl
  have readable : Chat.Readable dict := by
    intro messages stored
    rw [field] at stored
    exact (conversational messages stored).1
  refine ⟨Chat.decoded order routine dict, ?_, fun vc opened registered ran => ?_⟩
  · rw [Chat.ofSnapshot, cast]
    exact Chat.init_of_readable order routine readable
  · obtain ⟨a, -, rfl, -⟩ := ChatViewController.getMessagesData_ok rfl rfl ran
    exact Chat.decoded_agrees_iff order routine field conversational

structure Newest (messages : Dict Double) (newest : Message) : Prop where
  member : newest ∈ Message.listed .stored messages
  bound : ∀ other ∈ Message.listed .stored messages, other.time ≤ newest.time

structure Oldest (messages : Dict Double) (oldest : Message) : Prop where
  member : oldest ∈ Message.listed .stored messages
  bound : ∀ other ∈ Message.listed .stored messages, oldest.time ≤ other.time

/-- The preview of a chat is the oldest message. -/
theorem fillData_eq_oldest (order : Enumeration (Value Double)) (routine : Routine Message) (cell : HomeChatCell)
    {dict messages : Dict Double} (stored : Chat.messagesDict dict = some messages)
    (distinct : Message.DistinctTimes messages) {oldest : Message} (first : Oldest messages oldest) :
    (cell.fillData (Chat.decoded order routine dict)).newestMessageContent = some oldest.content := by
  have head := Routine.merge.head?_sorted distinct first.member first.bound
  unfold HomeChatCell.fillData
  rw [Chat.messages_decoded order routine stored distinct, List.getLast?_reverse]
  exact congrArg (Option.map Message.content) head

theorem listed_ne_nil {messages : Dict Double} (entries : Message.Entries messages)
    (present : messages.keys ≠ []) : Message.listed .stored messages ≠ [] := by
  intro none
  have length := Message.length_listed .stored entries
  rw [none] at length
  exact present (List.length_eq_zero_iff.mp length.symm)

theorem exists_newest {messages : Dict Double} (entries : Message.Entries messages)
    (present : messages.keys ≠ []) : ∃ newest, Newest messages newest := by
  cases found : (Message.listed .stored messages).argmax Message.time with
  | none => exact absurd (List.argmax_eq_none.mp found) (listed_ne_nil entries present)
  | some newest =>
    exact ⟨newest, List.argmax_mem found, fun other member => List.le_of_mem_argmax member found⟩

theorem exists_oldest {messages : Dict Double} (entries : Message.Entries messages)
    (present : messages.keys ≠ []) : ∃ oldest, Oldest messages oldest := by
  cases found : (Message.listed .stored messages).argmin Message.time with
  | none => exact absurd (List.argmin_eq_none.mp found) (listed_ne_nil entries present)
  | some oldest =>
    exact ⟨oldest, List.argmin_mem found, fun other member => List.le_of_mem_argmin member found⟩

theorem preview_newest_iff (order : Enumeration (Value Double)) (routine : Routine Message) (cell : HomeChatCell)
    {dict messages : Dict Double} (stored : Chat.messagesDict dict = some messages)
    (present : messages.keys ≠ []) (entries : Message.Entries messages)
    (distinct : Message.DistinctTimes messages) :
    ∃ c newest oldest, Chat.init order routine dict = .ok c ∧
      Newest messages newest ∧ Oldest messages oldest ∧
      ((cell.fillData c).newestMessageContent = some newest.content ↔
        oldest.content = newest.content) := by
  have readable : Chat.Readable dict := by
    intro found member
    rw [stored] at member
    cases member
    exact entries
  obtain ⟨newest, last⟩ := exists_newest entries present
  obtain ⟨oldest, first⟩ := exists_oldest entries present
  refine ⟨_, newest, oldest, Chat.init_of_readable order routine readable, last, first, ?_⟩
  rw [fillData_eq_oldest order routine cell stored distinct first, Option.some.injEq]

def hello : Message := { content := "Hi", isNew := 1, time := 1541650000000, uID := "u1" }

def answer : Message := { content := "Yo", isNew := 1, time := 1541650000001, uID := "u2" }

def talk (messages : List Message) : Node ℚ :=
  .children [⟨"id", .leaf (.string "c1")⟩,
    ⟨"messages", .children (messages.map fun message => ⟨string message.time, message.node⟩)⟩]

def talkDict (messages : List Message) : Dict ℚ :=
  (Node.valEntries (messages.map fun message => ⟨string message.time, message.node⟩)).toAList

def talkFields (messages : List Message) : Dict ℚ :=
  (Node.valEntries [⟨"id", .leaf (.string "c1")⟩,
    ⟨"messages", .children (messages.map fun message => ⟨string message.time, message.node⟩)⟩]).toAList

theorem conversational_hello : Conversational ((talk [hello]).getImmediateChild "messages") := by
  intro delivered found
  obtain rfl : talkDict [hello] = delivered := Option.some.inj found
  decide

theorem opening_agrees_hello :
    ∃ c, Chat.ofSnapshot .stored .merge (talk [hello]).val = .ok c ∧
      ∀ (vc opened : ChatViewController) (registered : Option FPath),
        (vc.passChatData c).getMessagesData = .ok (opened, registered) →
        ∀ order' routine' list, ChatViewController.observed order' routine'
          ((talk [hello]).getImmediateChild "messages").val = some list → opened.messages = list := by
  obtain ⟨c, decoded, agrees⟩ := @opening_agrees_iff ℚ _ _ _ _ .stored .merge (talk [hello])
    (talkFields [hello]) rfl conversational_hello
  refine ⟨c, decoded, fun vc opened registered ran => (agrees vc opened registered ran).mpr ?_⟩
  intro delivered found
  obtain rfl : talkDict [hello] = delivered := Option.some.inj found
  decide

theorem readable_answer : Chat.Readable (talkFields [hello, answer]) := by
  intro messages found
  obtain rfl : talkDict [hello, answer] = messages := Option.some.inj found
  decide

/-- Two messages: the chat opens with the answer above the greeting. -/
theorem opening_backwards : ∃ c opened registered list,
    Chat.ofSnapshot .stored .merge (talk [hello, answer]).val = .ok c ∧
      (ChatViewController.passChatData {} c).getMessagesData = .ok (opened, registered) ∧
      ChatViewController.observed .stored .merge
        ((talk [hello, answer]).getImmediateChild "messages").val = some list ∧
      opened.messages ≠ list := by
  have stored : Chat.messagesDict (talkFields [hello, answer]) = some (talkDict [hello, answer]) := rfl
  have distinct : Message.DistinctTimes (talkDict [hello, answer]) := by decide
  have entries : Message.Entries (talkDict [hello, answer]) := by decide
  have valid : messagesRef "c1" = .ok ["Chat", "c1", "messages"] := by decide
  refine ⟨Chat.decoded .stored .merge (talkFields [hello, answer]), _, _, _,
    Chat.init_of_readable .stored .merge readable_answer,
    ChatViewController.getMessagesData_of_valid rfl rfl valid,
    Chat.observed_eq_conversation .stored .merge rfl distinct, ?_⟩
  intro same
  change (Chat.decoded .stored .merge (talkFields [hello, answer])).messages =
    Chat.conversation (talkDict [hello, answer]) at same
  rw [Chat.messages_decoded_eq_iff .stored .merge stored entries distinct] at same
  exact absurd same (by decide)

def again : Message := { content := "Hi", isNew := 1, time := 1541650000002, uID := "u1" }

theorem preview_newest_again : ∃ c newest, Chat.init .stored .merge (talkFields [hello, answer, again]) = .ok c ∧
    Newest (talkDict [hello, answer, again]) newest ∧
    (HomeChatCell.fillData {} c).newestMessageContent = some newest.content := by
  obtain ⟨c, newest, oldest, decoded, last, first, shows⟩ := @preview_newest_iff ℚ _ _ _ .stored .merge {}
    (talkFields [hello, answer, again]) (talkDict [hello, answer, again]) rfl (by decide) (by decide) (by decide)
  have latest : ∀ message ∈ Message.listed .stored (talkDict [hello, answer, again]),
      (∀ other ∈ Message.listed .stored (talkDict [hello, answer, again]), other.time ≤ message.time) →
        message.content = "Hi" := by decide
  have earliest : ∀ message ∈ Message.listed .stored (talkDict [hello, answer, again]),
      (∀ other ∈ Message.listed .stored (talkDict [hello, answer, again]), message.time ≤ other.time) →
        message.content = "Hi" := by decide
  refine ⟨c, newest, decoded, last, shows.mpr ?_⟩
  rw [latest newest last.member last.bound, earliest oldest first.member first.bound]

/-- Two messages: the greeting is still the preview. -/
theorem preview_not_newest : ∃ c, Chat.init .stored .merge (talkFields [hello, answer]) = .ok c ∧
    Newest (talkDict [hello, answer]) answer ∧
    (HomeChatCell.fillData {} c).newestMessageContent ≠ some answer.content := by
  refine ⟨_, Chat.init_of_readable .stored .merge readable_answer, ⟨by decide, by decide⟩, ?_⟩
  have first : Oldest (talkDict [hello, answer]) hello := ⟨by decide, by decide⟩
  rw [fillData_eq_oldest .stored .merge {} rfl (by decide) first]
  decide

end ProjectF02
