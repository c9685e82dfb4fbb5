import ProjectF02.Chat.ChatList

/-! Where the messages of an opened chat go.

A chat is decoded without the key it is stored under. Its screen takes the `id` of
the record for that key, and an absent one is the empty string, which is no path.
-/

set_option autoImplicit false

namespace ProjectF02
open Swift Firebase Transition Sorting

variable {Double : Type}

theorem messagesRef_eq (chatID : String) :
    messagesRef chatID =
      if isValidPathString chatID then .ok ("Chat" :: pathPieces chatID ++ ["messages"])
      else .error .invalidPath := by
  have chats : FPath.child [] "Chat" = .ok ["Chat"] := by decide
  have below (path : FPath) : path.child "messages" = .ok (path ++ ["messages"]) := by
    have pieces : pathPieces "messages" = ["messages"] := by decide
    simp only [FPath.child, FPath.childFromString, pieces]
    rfl
  unfold messagesRef
  rw [chats]
  by_cases valid : isValidPathString chatID
  · have chat : FPath.child ["Chat"] chatID = .ok ("Chat" :: pathPieces chatID) := if_pos valid
    rw [if_pos valid]
    exact (congrArg (· >>= fun chat : FPath => chat.child "messages") chat).trans (below _)
  · have trapped : FPath.child ["Chat"] chatID = .error .invalidPath := if_neg valid
    rw [if_neg valid]
    exact congrArg (· >>= fun chat : FPath => chat.child "messages") trapped

/-- The messages of a chat are found under a key exactly if its `id` is that key, up to slashes
around it. -/
theorem messagesRef_eq_ok_iff {chatID k : String} :
    messagesRef chatID = .ok ["Chat", k, "messages"] ↔
      isValidPathString chatID ∧ pathPieces chatID = [k] := by
  rw [messagesRef_eq]
  constructor
  · intro found
    split at found
    next valid =>
      have same : pathPieces chatID ++ ["messages"] = [k] ++ ["messages"] :=
        (List.cons.inj (Except.ok.inj found)).2
      exact ⟨valid, List.append_cancel_right same⟩
    next => cases found
  · rintro ⟨valid, pieces⟩
    rw [if_pos valid, pieces]
    rfl

structure Delivered [NSScanner] [Ring Double] [LinearOrder Double] [FloorRing Double] (k content : String)
    (database after : Node Double) (sent : List (Sent Double)) : Prop where
  contained : ∃ (key : String) (message : Message) (read : Dict Double),
    sent = [(key, message.toDict)] ∧ message.content = content ∧
      ((after.getChild ["Chat", k, "messages"]).getImmediateChild key).val.asDict = some read ∧
      Message.init read = message
  apart : ∀ other, ¬ ["Chat", k, "messages"] <+: other → ¬ other <+: ["Chat", k, "messages"] →
    after.getChild other = database.getChild other

namespace ChatHomeViewController
variable [Ring Double] [LinearOrder Double] [FloorRing Double]

inductive OpenedFrom [NSScanner] (snapshot : Enumeration (Node Double)) (order : Enumeration (Value Double))
    (routine : Routine Message) (home : ChatHomeViewController Double) (chats : Node Double)
    (k : String) (screen : ChatViewController) : Prop where
  | selected {node : Node Double} {c : Chat} {next : ChatHomeViewController Double} (row : Nat)
      (found : chats.childMap.lookup k = some node)
      (decoded : Chat.ofSnapshot order routine node.val = .ok c)
      (ran : home.getChats snapshot order routine chats = .ok next)
      (listed : next.chatList[row]? = some c) (pushed : next.didSelectRowAt row = some screen) :
      OpenedFrom snapshot order routine home chats k screen

omit [Ring Double] [LinearOrder Double] [FloorRing Double] in
/-- The `id` of a child is its key, up to slashes around it. -/
def Identified (chats : Node Double) (k : String) : Prop :=
  ∀ node, chats.childMap.lookup k = some node → ∃ text,
    node.getImmediateChild "id" = .leaf (.string text) ∧ isValidPathString text ∧ pathPieces text = [k]

end ChatHomeViewController

namespace ChatViewController
variable [Ring Double] [LinearOrder Double] [FloorRing Double]

structure GoesTo (Double : Type) [Ring Double] [LinearOrder Double] [FloorRing Double] [NSScanner]
    (screen : ChatViewController) (curUser : Option String) (k : String) : Prop where
  observes : ∃ shown, screen.viewDidLoad curUser = .ok (shown, some ["Chat", k, "messages"])
  sends : ∀ shown registered, screen.viewDidLoad curUser = .ok (shown, registered) →
    ∀ content now (database after : Node Double) sent,
      { shown with messTF := some content }.sendMessAction now database = .ok (after, sent) →
      Delivered k content database after sent

theorem delivered_of_openedAt [NSScanner] {vc : ChatViewController} {k content : String}
    (opened : vc.OpenedAt ["Chat", k, "messages"]) (text : vc.messTF = some content)
    {now : Date Double} {database after : Node Double} {sent : List (Sent Double)}
    (ran : vc.sendMessAction now database = .ok (after, sent)) :
    Delivered k content database after sent := by
  rw [sendMessAction_eq opened, text] at ran
  dsimp only at ran
  split at ran
  · cases ran
    obtain ⟨read, cast, decoded⟩ := @Message.init_val_node Double _ _ _ _ (vc.composed content now)
    refine ⟨⟨_, vc.composed content now, read, rfl, rfl, ?_, decoded⟩, fun other below above => ?_⟩
    · rw [Node.getChild_updateChild_child (Message.node_nonempty _), Node.getImmediateChild,
        Node.childMap_ofChildMap, AList.lookup_insert]
      exact cast
    · apply Node.getChild_updateChild_of_apart _ _
      · exact fun shorter => below ((List.prefix_append _ _).trans shorter)
      · intro shorter
        rcases List.prefix_concat_iff.mp shorter with rfl | within
        · exact below (List.prefix_append _ _)
        · exact above within
  · cases ran

end ChatViewController

namespace ChatHomeViewController
variable [Ring Double] [LinearOrder Double] [FloorRing Double] {snapshot : Enumeration (Node Double)}
  {order : Enumeration (Value Double)} {routine : Routine Message} {home : ChatHomeViewController Double}
  {chats : Node Double} {k : String}

theorem OpenedFrom.passed [NSScanner] {screen : ChatViewController}
    (opened : OpenedFrom snapshot order routine home chats k screen) :
    ∃ node dict, chats.childMap.lookup k = some node ∧ node.val.asDict = some dict ∧
      screen = ChatViewController.passChatData {} (Chat.decoded order routine dict) := by
  obtain ⟨row, found, decoded, -, listed, pushed⟩ := opened
  obtain ⟨dict, cast, rfl⟩ := Chat.ofSnapshot_ok decoded
  rw [didSelectRowAt, listed] at pushed
  exact ⟨_, dict, found, cast, (Option.some.inj pushed).symm⟩

theorem exists_openedFrom [NSScanner] {u : String} (shown : home.user.bind User.uid = some u)
    (readable : ChatsReadable chats) {node : Node Double} (found : chats.childMap.lookup k = some node)
    (member : u ∈ members node) : ∃ screen, OpenedFrom snapshot order routine home chats k screen := by
  have child := snapshot.mem_values.mpr ⟨k, found⟩
  have decoded := ofSnapshot_chatAt order routine readable child
  have ran := getChats_of_readable snapshot order routine shown readable
  have repeated : chatAt order routine node ∈ (snapshot.values chats.childMap).flatMap fun node =>
      List.replicate ((chatAt order routine node).uIDs.count u) (chatAt order routine node) := by
    refine List.mem_flatMap.mpr ⟨node, child, ?_⟩
    rw [List.mem_replicate, uIDs_ofSnapshot decoded]
    exact ⟨(List.count_pos_iff.mpr member).ne', rfl⟩
  obtain ⟨row, listed⟩ := List.mem_iff_getElem?.mp repeated
  refine ⟨ChatViewController.passChatData {} (chatAt order routine node),
    .selected row found decoded ran listed ?_⟩
  exact congrArg (Option.map (ChatViewController.passChatData {})) listed

/-- The messages of an opened chat go to the node it was decoded from exactly if the `id` of that
node is its key. -/
theorem goesTo_iff_identified [NSScanner] {screen : ChatViewController}
    (opened : OpenedFrom snapshot order routine home chats k screen) (curUser : Option String) :
    screen.GoesTo Double curUser k ↔ Identified chats k := by
  obtain ⟨node, dict, found, cast, rfl⟩ := opened.passed
  have field : (dict.lookup "id").bind Value.asString = (node.getImmediateChild "id").val.asString :=
    bind_lookup_of_asDict_val cast "id" rfl
  constructor
  · intro goes other found'
    obtain rfl := Option.some.inj (found.symm.trans found')
    obtain ⟨shown, ran⟩ := goes.observes
    obtain ⟨a, valid, -, registered⟩ := ChatViewController.getMessagesData_ok rfl rfl ran
    cases registered
    obtain ⟨valid, pieces⟩ := messagesRef_eq_ok_iff.mp valid
    rw [field] at valid pieces
    cases text : (node.getImmediateChild "id").val.asString with
    | none =>
      -- The default is the empty string, which is no path.
      rw [text] at valid
      exact absurd valid (by decide)
    | some text' =>
      rw [text] at valid pieces
      exact ⟨text', val_eq_string (Value.asString_eq_some.mp text), valid, pieces⟩
  · intro identified
    obtain ⟨text, stored, valid, pieces⟩ := identified node found
    have path := messagesRef_eq_ok_iff.mpr ⟨valid, pieces⟩
    have named : (Chat.decoded order routine dict).id = some text := by
      have read : (dict.lookup "id").bind Value.asString = some text := by
        rw [field, stored]
        rfl
      exact congrArg (fun id => some (id.getD "")) read
    refine ⟨⟨_, ChatViewController.getMessagesData_of_valid rfl named path⟩, ?_⟩
    intro shown registered ran content now database after sent sending
    obtain ⟨a, -, rfl, -⟩ := ChatViewController.getMessagesData_ok rfl named ran
    exact ChatViewController.delivered_of_openedAt ⟨_, text, rfl, named, path⟩ rfl sending

def ownChat (named : Bool) : Node ℚ :=
  .children ((if named then [⟨"id", .leaf (.string "c1")⟩] else []) ++
    [⟨"uIDs", .children [⟨"0", .leaf (.string "u1")⟩]⟩])

def ownChats (named : Bool) : Node ℚ := .children [⟨"c1", ownChat named⟩]

theorem ownChats_readable (named : Bool) : ChatsReadable (ownChats named) := by
  intro key chat found
  obtain rfl : chat = ownChat named :=
    List.mem_singleton.mp (Enumeration.stored.mem_values.mpr ⟨key, found⟩)
  cases named with
  | false =>
    refine ⟨_, rfl, fun messages stored => ?_⟩
    cases stored
  | true =>
    refine ⟨_, rfl, fun messages stored => ?_⟩
    cases stored

theorem goesTo_named : ∃ screen,
    OpenedFrom .stored .stored .merge homeOfUser (ownChats true) "c1" screen ∧
      screen.GoesTo ℚ (some "u1") "c1" := by
  obtain ⟨screen, opened⟩ := @exists_openedFrom ℚ _ _ _ .stored .stored .merge homeOfUser
    (ownChats true) "c1" _ "u1" rfl (ownChats_readable _) (ownChat true) rfl (by decide)
  refine ⟨screen, opened, (goesTo_iff_identified opened (some "u1")).mpr ?_⟩
  intro node found
  obtain rfl : ownChat true = node := Option.some.inj found
  exact ⟨"c1", rfl, by decide, by decide⟩

theorem goesTo_unnamed : ∃ screen,
    OpenedFrom .stored .stored .merge homeOfUser (ownChats false) "c1" screen ∧
      screen.viewDidLoad (some "u1") = .error .invalidPath ∧ ¬ screen.GoesTo ℚ (some "u1") "c1" := by
  obtain ⟨screen, opened⟩ := @exists_openedFrom ℚ _ _ _ .stored .stored .merge homeOfUser
    (ownChats false) "c1" _ "u1" rfl (ownChats_readable _) (ownChat false) rfl (by decide)
  have trapped : screen.viewDidLoad (some "u1") = .error .invalidPath := by
    obtain ⟨node, dict, found, cast, rfl⟩ := opened.passed
    obtain rfl : ownChat false = node := Option.some.inj found
    cases cast
    rfl
  refine ⟨screen, opened, trapped, fun goes => ?_⟩
  obtain ⟨shown, ran⟩ := goes.observes
  rw [trapped] at ran
  cases ran

end ChatHomeViewController

end ProjectF02
