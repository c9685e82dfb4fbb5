import ProjectF02.Chat.ChatHomeViewController
import Mathlib.Algebra.Order.BigOperators.Group.List

/-! The chats of the user on the home screen.

A chat is listed once for each time its decoded member list names the user. That
list is empty where the database does not hand out an array of strings.
-/

set_option autoImplicit false

namespace ProjectF02
open Swift Firebase Transition Sorting

section Selection
variable {Item Value : Type} {items : List Item} {value : Item → Value} {kept : Item → Bool}

theorem length_filter_eq_sum (items : List Item) (kept : Item → Bool) :
    (items.filter kept).length = (items.map fun item => if kept item then 1 else 0).sum := by
  induction items with
  | nil => rfl
  | cons item items ih =>
    rw [List.map_cons, List.sum_cons, ← ih, List.filter_cons]
    split <;> simp [Nat.add_comm]

theorem flatMap_replicate_of_once {count : Value → Nat}
    (support : ∀ item ∈ items, 0 < count (value item) → kept item)
    (once : ∀ item ∈ items, kept item → count (value item) = 1) :
    (items.flatMap fun item => List.replicate (count (value item)) (value item)) =
      (items.filter kept).map value := by
  induction items with
  | nil => rfl
  | cons item items ih =>
    obtain ⟨first, others⟩ := List.forall_mem_cons.mp once
    obtain ⟨supported, rest⟩ := List.forall_mem_cons.mp support
    rw [List.flatMap_cons, ih rest others, List.filter_cons]
    split
    next keeps => rw [first keeps, List.replicate_one, List.map_cons, List.singleton_append]
    next dropped =>
      have none : count (value item) = 0 := by
        by_contra positive
        exact dropped (supported (Nat.pos_of_ne_zero positive))
      rw [none, List.replicate_zero, List.nil_append]

theorem count_pos_of_flatMap_replicate {count : Value → Nat}
    (same : (items.flatMap fun item => List.replicate (count (value item)) (value item)) =
      (items.filter kept).map value) {item : Item} (member : item ∈ items) (keeps : kept item) :
    0 < count (value item) := by
  have present : value item ∈ (items.filter kept).map value :=
    List.mem_map_of_mem (List.mem_filter.mpr ⟨member, keeps⟩)
  rw [← same, List.mem_flatMap] at present
  obtain ⟨other, -, repeated⟩ := present
  obtain ⟨positive, named⟩ := List.mem_replicate.mp repeated
  rw [named]
  exact Nat.pos_of_ne_zero positive

theorem flatMap_replicate_eq_iff (count : Value → Nat)
    (support : ∀ item ∈ items, 0 < count (value item) → kept item) :
    (items.flatMap fun item => List.replicate (count (value item)) (value item)) =
        (items.filter kept).map value ↔
      ∀ item ∈ items, kept item → count (value item) = 1 := by
  refine ⟨fun same item member keeps => ?_, flatMap_replicate_of_once support⟩
  have listed : ∀ item ∈ items, (if kept item then 1 else 0) ≤ count (value item) := by
    intro item member
    split
    next keeps => exact count_pos_of_flatMap_replicate same member keeps
    next => exact Nat.zero_le _
  have lengths := congrArg List.length same
  rw [List.length_map, length_filter_eq_sum, List.length_flatMap] at lengths
  simp only [List.length_replicate] at lengths
  have once := listed item member
  rw [if_pos keeps] at once
  by_contra other
  -- One item too often, and the list is longer than the selection.
  have longer := List.sum_lt_sum _ _ listed ⟨item, member, by rw [if_pos keeps]; omega⟩
  exact longer.ne lengths.symm

end Selection

variable {Double : Type}

def Firebase.Node.holds (node : Node Double) (text : String) : Bool :=
  (node.childMap.entries.map Sigma.snd).any fun child =>
    match child with
    | .leaf (.string found) => found = text
    | _ => false

theorem Firebase.Node.holds_of_lookup {node : Node Double} {key text : String}
    (found : node.childMap.lookup key = some (.leaf (.string text))) : node.holds text = true := by
  unfold holds
  rw [List.any_eq_true]
  exact ⟨_, List.mem_map_of_mem (AList.mem_lookup_iff.mp found), decide_eq_true rfl⟩

namespace ChatHomeViewController

def isMember (u : String) (chat : Node Double) : Bool := (chat.getImmediateChild "uIDs").holds u

/-- The `uIDs` node is exported as an array of strings, and the user is one of them, once. -/
def ListedOnce [NSScanner] (u : String) (chat : Node Double) : Prop :=
  ∃ members : List String,
    (chat.getImmediateChild "uIDs").val = .array (members.map .string) ∧ members.count u = 1

/-- The member list of a decoded chat. -/
def members [NSScanner] (chat : Node Double) : List String :=
  ((chat.getImmediateChild "uIDs").val.asStrings).getD []

theorem isMember_of_count [NSScanner] {u : String} {chat : Node Double} (counted : 0 < (members chat).count u) :
    isMember u chat := by
  have member := List.count_pos_iff.mp counted
  unfold members at member
  cases cast : (chat.getImmediateChild "uIDs").val.asStrings with
  | none =>
    rw [cast] at member
    cases member
  | some texts =>
    rw [cast] at member
    obtain ⟨key, found⟩ := lookup_of_val_array (Value.asStrings_eq_some.mp cast)
      (List.mem_map_of_mem member)
    exact Node.holds_of_lookup found

theorem listedOnce_iff [NSScanner] (u : String) (chat : Node Double) :
    ListedOnce u chat ↔ (members chat).count u = 1 := by
  unfold ListedOnce members
  simp only [← Value.asStrings_eq_some]
  cases (chat.getImmediateChild "uIDs").val.asStrings with
  | none => simp
  | some texts => simp

variable [Ring Double] [LinearOrder Double] [FloorRing Double]

theorem uIDs_ofSnapshot [NSScanner] {order : Enumeration (Value Double)} {routine : Routine Message}
    {node : Node Double} {chat : Chat} (returned : Chat.ofSnapshot order routine node.val = .ok chat) :
    chat.uIDs = members node := by
  obtain ⟨dict, cast, rfl⟩ := Chat.ofSnapshot_ok returned
  have field : (dict.lookup "uIDs").bind Value.asStrings = (node.getImmediateChild "uIDs").val.asStrings :=
    bind_lookup_of_asDict_val cast "uIDs" rfl
  exact congrArg (fun texts => texts.getD []) field

/-- The list holds the user's chats, each decoded once, in the order of the snapshot. -/
def Lists [NSScanner] (snapshot : Enumeration (Node Double)) (order : Enumeration (Value Double))
    (routine : Routine Message) (u : String) (chats : Node Double) (list : List Chat) : Prop :=
  ((snapshot.values chats.childMap).filter (isMember u)).mapM
    (fun chat => Chat.ofSnapshot order routine chat.val) = .ok list

def chatAt [NSScanner] (order : Enumeration (Value Double)) (routine : Routine Message) (node : Node Double) :
    Chat :=
  (Chat.ofSnapshot order routine node.val).toOption.getD {}

theorem ofSnapshot_chatAt [NSScanner] (order : Enumeration (Value Double)) (routine : Routine Message)
    {chats : Node Double} (readable : ChatsReadable chats) {snapshot : Enumeration (Node Double)}
    {node : Node Double} (member : node ∈ snapshot.values chats.childMap) :
    Chat.ofSnapshot order routine node.val = .ok (chatAt order routine node) := by
  obtain ⟨key, found⟩ := snapshot.mem_values.mp member
  obtain ⟨chat, returned⟩ :=
    (Chat.ofSnapshot_isOk_iff order routine node.val).mpr (readable key node found)
  rw [chatAt, returned]
  rfl

theorem lists_iff [NSScanner] (snapshot : Enumeration (Node Double)) (order : Enumeration (Value Double))
    (routine : Routine Message) (u : String) {chats : Node Double} (readable : ChatsReadable chats)
    (list : List Chat) :
    Lists snapshot order routine u chats list ↔
      list = ((snapshot.values chats.childMap).filter (isMember u)).map (chatAt order routine) := by
  have decodes := mapM_of_ok fun node
      (member : node ∈ (snapshot.values chats.childMap).filter (isMember u)) =>
    ofSnapshot_chatAt order routine readable (List.mem_of_mem_filter member)
  unfold Lists
  rw [decodes, Except.ok.injEq]
  exact eq_comm

omit [Ring Double] [LinearOrder Double] [FloorRing Double] in
theorem copies_eq {user : Option (User Double)} {u : String} (shown : user.bind User.uid = some u) (c : Chat) :
    copies user c = List.replicate (c.uIDs.count u) c := by
  unfold copies List.count
  congr 2
  funext uid
  rw [beq_eq_decide, decide_eq_decide, shown, Option.some.injEq]
  exact eq_comm

theorem getChats_of_readable [NSScanner] (snapshot : Enumeration (Node Double))
    (order : Enumeration (Value Double))
    (routine : Routine Message) {vc : ChatHomeViewController Double} {u : String}
    (shown : vc.user.bind User.uid = some u) {chats : Node Double} (readable : ChatsReadable chats) :
    vc.getChats snapshot order routine chats = .ok { vc with
      chatList := (snapshot.values chats.childMap).flatMap fun node =>
        List.replicate ((chatAt order routine node).uIDs.count u) (chatAt order routine node) } := by
  have decodes := mapM_of_ok fun node (member : node ∈ snapshot.values chats.childMap) =>
    ofSnapshot_chatAt order routine readable member
  have listed := List.flatMap_map (chatAt order routine) (copies vc.user) (snapshot.values chats.childMap)
  rw [funext (copies_eq shown)] at listed
  rw [getChats_eq, List.mapM_map]
  unfold Function.comp
  rw [decodes, ← listed, ← funext (copies_eq shown)]
  rfl

section Lists
variable (snapshot : Enumeration (Node Double)) (order : Enumeration (Value Double)) (routine : Routine Message)
  {vc : ChatHomeViewController Double} {u : String} (shown : vc.user.bind User.uid = some u)
  {chats : Node Double}
include shown

theorem lists_of_readable_iff [NSScanner] (readable : ChatsReadable chats) :
    (∃ next, vc.getChats snapshot order routine chats = .ok next ∧
        Lists snapshot order routine u chats next.chatList) ↔
      ∀ key chat, chats.childMap.lookup key = some chat → isMember u chat → ListedOnce u chat := by
  have counted {node : Node Double} (member : node ∈ snapshot.values chats.childMap) :
      (chatAt order routine node).uIDs = members node :=
    uIDs_ofSnapshot (ofSnapshot_chatAt order routine readable member)
  have support : ∀ node ∈ snapshot.values chats.childMap,
      0 < (chatAt order routine node).uIDs.count u → isMember u node := by
    intro node member positive
    rw [counted member] at positive
    exact isMember_of_count positive
  rw [getChats_of_readable snapshot order routine shown readable]
  simp only [Except.ok.injEq, exists_eq_left', lists_iff snapshot order routine u readable]
  rw [flatMap_replicate_eq_iff (fun c : Chat => c.uIDs.count u) support]
  simp only [listedOnce_iff]
  constructor
  · intro once key node found member
    have listed := snapshot.mem_values.mpr ⟨key, found⟩
    rw [← counted listed]
    exact once node listed member
  · intro once node listed member
    obtain ⟨key, found⟩ := snapshot.mem_values.mp listed
    rw [counted listed]
    exact once key node found member

/-- The home screen lists each of the user's chats once, and no other, exactly if every chat can be
decoded and the user is in each member list just once, in an array of strings. -/
theorem lists_chats_iff [NSScanner] :
    (∃ next, vc.getChats snapshot order routine chats = .ok next ∧
        Lists snapshot order routine u chats next.chatList) ↔
      ChatsReadable chats ∧ ∀ key chat, chats.childMap.lookup key = some chat →
        isMember u chat → ListedOnce u chat := by
  constructor
  · rintro ⟨next, ran, lists⟩
    have readable := (getChats_isOk_iff snapshot order routine vc chats).mp ⟨next, ran⟩
    exact ⟨readable, (lists_of_readable_iff snapshot order routine shown readable).mp ⟨next, ran, lists⟩⟩
  · rintro ⟨readable, once⟩
    exact (lists_of_readable_iff snapshot order routine shown readable).mpr once

end Lists

def oneChat (uIDs : List (Sigma fun _ : String => Node ℚ)) : Node ℚ :=
  .children [⟨"c1", .children [⟨"id", .leaf (.string "c1")⟩, ⟨"uIDs", .children uIDs⟩]⟩]

def homeOfUser : ChatHomeViewController ℚ := { user := some (User.registered 0) }

theorem oneChat_eq {uIDs : List (Sigma fun _ : String => Node ℚ)} {key : String} {chat : Node ℚ}
    (found : (oneChat uIDs).childMap.lookup key = some chat) :
    chat = .children [⟨"id", .leaf (.string "c1")⟩, ⟨"uIDs", .children uIDs⟩] :=
  List.mem_singleton.mp (Enumeration.stored.mem_values.mpr ⟨key, found⟩)

theorem oneChat_readable (uIDs : List (Sigma fun _ : String => Node ℚ)) : ChatsReadable (oneChat uIDs) := by
  intro key chat found
  rw [oneChat_eq found]
  refine ⟨_, rfl, fun messages stored => ?_⟩
  cases stored

def chatOfTwo (first second : String) : Node ℚ :=
  .children [⟨"uIDs", .children [⟨"0", .leaf (.string first)⟩, ⟨"1", .leaf (.string second)⟩]⟩]

/-- Two chats of the user, and one of others. -/
def threeChats : Node ℚ :=
  .children [⟨"c1", chatOfTwo "u1" "u2"⟩, ⟨"c2", chatOfTwo "u2" "u3"⟩, ⟨"c3", chatOfTwo "u3" "u1"⟩]

theorem threeChats_eq {key : String} {chat : Node ℚ} (found : threeChats.childMap.lookup key = some chat) :
    chat = chatOfTwo "u1" "u2" ∨ chat = chatOfTwo "u2" "u3" ∨ chat = chatOfTwo "u3" "u1" := by
  have member := Enumeration.stored.mem_values.mpr ⟨key, found⟩
  change chat ∈ [_, _, _] at member
  simpa only [List.mem_cons, List.not_mem_nil, or_false] using member

theorem lists_threeChats : ∃ next,
    homeOfUser.getChats .stored .stored .merge threeChats = .ok next ∧
      Lists .stored .stored .merge "u1" threeChats next.chatList := by
  refine (lists_chats_iff .stored .stored .merge rfl).mpr ⟨fun key chat found => ?_, fun key chat found named => ?_⟩
  · obtain rfl | rfl | rfl := threeChats_eq found
    all_goals
      refine ⟨_, rfl, fun messages stored => ?_⟩
      cases stored
  · obtain rfl | rfl | rfl := threeChats_eq found
    · exact ⟨["u1", "u2"], rfl, rfl⟩
    · exact absurd named (by decide)
    · exact ⟨["u3", "u1"], rfl, rfl⟩

/-- The second of three members has left: the member list is an array with a hole, which is no
array of strings, and the chat is on nobody's list. -/
theorem chat_not_listed :
    ¬ ∃ next, homeOfUser.getChats .stored .stored .merge
        (oneChat [⟨"0", .leaf (.string "u1")⟩, ⟨"2", .leaf (.string "u3")⟩]) = .ok next ∧
      Lists .stored .stored .merge "u1"
        (oneChat [⟨"0", .leaf (.string "u1")⟩, ⟨"2", .leaf (.string "u3")⟩]) next.chatList := by
  rw [lists_of_readable_iff .stored .stored .merge rfl (oneChat_readable _)]
  intro once
  obtain ⟨members, exported, -⟩ := once "c1" _ rfl rfl
  have whole : (Value.array (members.map Value.string) : Value ℚ).asStrings = some members :=
    Value.asStrings_eq_some.mpr rfl
  rw [← exported] at whole
  cases whole

end ChatHomeViewController

end ProjectF02
