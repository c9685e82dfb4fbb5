import ProjectF02.Chat.Destination
import ProjectF02.Login.Effects
import ProjectF02.Posts.Effects
import ProjectF02.Posts.MyProfileViewController

/-! From the login screen to what is written.

The login screen hands the user's record to the screens of Home, and these hand it
on to the share screen. A chat takes its author from `Auth` instead, as it is when
the chat is opened.
-/

set_option autoImplicit false

namespace ProjectF02
open Swift Firebase Transition Sorting

variable {Double Image : Type}

def MyProfileViewController.fillData (vc : MyProfileViewController Double) (user : User Double) :
    MyProfileViewController Double :=
  { vc with userinfo := some user }

namespace UpStatusViewController

def fillData (vc : UpStatusViewController Image Double) (user : User Double) :
    UpStatusViewController Image Double :=
  { vc with userforstatusvc := some user }

def configureView (vc : UpStatusViewController Image Double) : UpStatusViewController Image Double :=
  { vc with
    labelUsername := some (((vc.userforstatusvc.bind User.firstName).getD "") ++ " " ++
      ((vc.userforstatusvc.bind User.lastName).getD "")) }

end UpStatusViewController

/-- `gotoUpstatusvc`, with `viewDidLoad` of the screen it presents. -/
def MyProfileViewController.gotoUpstatusvc (vc : MyProfileViewController Double) :
    Except Trap (UpStatusViewController Image Double) := do
  let user ← forceUnwrap vc.userinfo
  return (UpStatusViewController.fillData {} user).configureView

structure HomeTabBarViewController (Double : Type) where
  user : Option (User Double) := none
  chatHomeVC : Option (ChatHomeViewController Double) := none
  myProfileVC : Option (MyProfileViewController Double) := none

namespace HomeTabBarViewController

def configureSubView (vc : HomeTabBarViewController Double) : HomeTabBarViewController Double :=
  match vc.user with
  | none => vc
  | some u => { vc with
      chatHomeVC := some (ChatHomeViewController.passData {} u)
      myProfileVC := some (MyProfileViewController.fillData {} u) }

def passHomeData (vc : HomeTabBarViewController Double) (user : User Double) : HomeTabBarViewController Double :=
  configureSubView { vc with user := some user }

end HomeTabBarViewController

namespace Session

/-- All screens of one launch; `currentUser` is the identifier that `Auth` holds. -/
structure State (Image Double : Type) where
  login : ViewController
  currentUser : Option String
  homes : List (HomeTabBarViewController Double) := []
  chats : List ChatViewController := []
  sharing : Sharing.State Image Double ℕ
  presented : ℕ := 0

inductive Event (Image Double : Type) where
  | login (event : Login.Event Double)
  -- The handler of `getChats` of this home is handed its view of the `Chat` node.
  | getChats (home : ℕ) (chats : Node Double)
  | didSelectRowAt (home row : ℕ)
  | typed (chat : ℕ) (text : Option String)
  | observed (chat : ℕ) (snapshot : Value Double)
  | sendMessAction (chat : ℕ) (now : Date Double)
  | gotoUpstatusvc (home : ℕ)
  | sharing (event : Sharing.Event Image Double ℕ)

/-- What is written, and for a message the database before and after it. -/
inductive Output (Double : Type) where
  | message (before after : Node Double) (sent : Sent Double)
  | post (written : Written Double)

def account : Login.Event Double → Option String
  | .emailCompleted (.user uid) => some uid
  | .credentialCompleted (.user uid) => some uid
  | _ => none

section
variable [Ring Double] [LinearOrder Double] [FloorRing Double]
  (snapshot : Enumeration (Node Double)) (order : Enumeration (Value Double)) (routine : Routine Message)

def step [NSScanner] (state : State Image Double) :
    Event Image Double → Except Trap (State Image Double × List (Output Double))
  | .login event => do
    let (login, outputs) ← state.login.step event
    return ({ state with
      login := login
      -- `Auth` holds the account before it calls back.
      currentUser := (account event).or state.currentUser
      homes := state.homes ++ (ViewController.homes outputs).map (HomeTabBarViewController.passHomeData {}) }, [])
  | .getChats home chats =>
    match state.homes[home]? with
    | none => .ok (state, [])
    | some homevc =>
      match homevc.chatHomeVC with
      | none => .ok (state, [])
      | some chatHomeVC => do
        let chatHomeVC ← chatHomeVC.getChats snapshot order routine chats
        return ({ state with homes := state.homes.set home { homevc with chatHomeVC := some chatHomeVC } }, [])
  | .didSelectRowAt home row =>
    match (state.homes[home]?).bind fun homevc => homevc.chatHomeVC.bind fun vc => vc.didSelectRowAt row with
    | none => .ok (state, [])
    | some chatVC => do
      let (chatVC, _) ← chatVC.viewDidLoad state.currentUser
      return ({ state with chats := state.chats ++ [chatVC] }, [])
  | .typed chat text =>
    .ok ({ state with chats := state.chats.modify chat fun vc => { vc with messTF := text } }, [])
  | .observed chat snapshot =>
    .ok ({ state with chats := state.chats.modify chat fun vc => vc.observer order routine snapshot }, [])
  | .sendMessAction chat now =>
    match state.chats[chat]? with
    | none => .ok (state, [])
    | some vc => do
      let (database, sent) ← vc.sendMessAction now state.sharing.database
      return ({ state with sharing := { state.sharing with database := database } },
        sent.map (.message state.sharing.database database))
  | .gotoUpstatusvc home =>
    match (state.homes[home]?).bind HomeTabBarViewController.myProfileVC with
    | none => .ok (state, [])
    | some myProfileVC => do
      let statusVC ← myProfileVC.gotoUpstatusvc
      return ({ state with
        sharing := state.sharing.edit state.presented statusVC
        presented := state.presented + 1 }, [])
  | .sharing event => do
    let (sharing, written) ← Sharing.step state.sharing event
    return ({ state with sharing := sharing }, written.map .post)

def Offered (state : State Image Double) : Event Image Double → Prop
  | .login event => state.login.Pending event
  | .sharing (.typed screen _) => screen < state.presented
  | .sharing (.picked screen _) => screen < state.presented
  | .sharing (.tapped screen _) => screen < state.presented
  | _ => True

end

def signed : Event Image Double → List String
  | .login event => (account event).toList
  | _ => []

def accounts (events : List (Event Image Double)) : List String := events.flatMap signed

def handed : Event Image Double → List (Node Double)
  | .getChats _ chats => [chats]
  | _ => []

def delivered (events : List (Event Image Double)) : List (Node Double) := events.flatMap handed

/-- The chat was decoded from a child of one of the nodes. -/
def ReadFrom [NSScanner] (read : List (Node Double)) (c : Chat) : Prop :=
  ∃ chats ∈ read, ∃ key node, chats.childMap.lookup key = some node ∧
    c.uIDs = ChatHomeViewController.members node ∧
    c.id = some ((node.getImmediateChild "id").val.asString.getD "")

end Session

/-! ## What each screen keeps -/

namespace ViewController
variable [Ring Double] [LinearOrder Double] [FloorRing Double]

theorem Effect.accounts [NSScanner] {vc next : ViewController} {event : Login.Event Double}
    {emitted : List (Login.Output Double)} (effect : Effect vc event next emitted) :
    (∀ observer ∈ next.observers, observer ∈ vc.observers ∨ Session.account event = some observer.uID) ∧
      ∀ user ∈ homes emitted, ∃ observer ∈ vc.observers, user.uid = some observer.uID := by
  cases effect with
  | emailSignedIn uid pending =>
    refine ⟨fun observer member => ?_, List.forall_mem_nil _⟩
    rcases List.mem_append.mp member with old | new
    · exact .inl old
    · rw [List.mem_singleton.mp new]
      exact .inr rfl
  | credentialSignedIn uid pending =>
    refine ⟨fun observer member => ?_, List.forall_mem_nil _⟩
    rcases List.mem_append.mp member with old | new
    · exact .inl old
    · rw [List.mem_singleton.mp new]
      exact .inr rfl
  | notified index users observer registered =>
    obtain ⟨loader, same⟩ := openAll_eq vc observer.provider (found users observer.uID)
    rw [same]
    refine ⟨fun other member => .inl member, fun user member => ?_⟩
    rw [← List.append_nil (List.map _ _), homes_pushed, homes, List.append_nil] at member
    exact ⟨observer, List.mem_of_getElem? registered, uid_found member⟩
  | _ => exact ⟨fun observer member => .inl member, List.forall_mem_nil _⟩

end ViewController

namespace ChatViewController

theorem viewDidLoad_keeps {vc shown : ChatViewController} {curUser : Option String}
    {registered : Option FPath} (ran : vc.viewDidLoad curUser = .ok (shown, registered)) :
    shown.chat = vc.chat ∧ shown.uID = curUser.getD vc.uID := by
  unfold viewDidLoad getMessagesData at ran
  split at ran
  next absent =>
    cases ran
    exact ⟨rfl, rfl⟩
  next chatContent present =>
    split at ran
    next =>
      cases ran
      exact ⟨rfl, rfl⟩
    next =>
      obtain ⟨a, -, same⟩ := ok_of_bind ran
      cases same
      exact ⟨rfl, rfl⟩

variable [Ring Double] [LinearOrder Double] [FloorRing Double]

theorem observer_keeps (order : Enumeration (Value Double)) (routine : Routine Message)
    (vc : ChatViewController) (snapshot : Value Double) :
    (vc.observer order routine snapshot).chat = vc.chat ∧ (vc.observer order routine snapshot).uID = vc.uID := by
  unfold observer
  split <;> exact ⟨rfl, rfl⟩

theorem written_of_sendMessAction {vc : ChatViewController} {now : Date Double} {database after : Node Double}
    {sent : List (Sent Double)} (ran : vc.sendMessAction now database = .ok (after, sent)) :
    ∀ one ∈ sent, one.2.lookup "uID" = some (.string vc.uID) ∧
      ∃ chat id path, vc.chat = some chat ∧ chat.id = some id ∧ messagesRef id = .ok path ∧
        setValue database (path ++ [one.1]) (.ofDict one.2) = .ok after := by
  unfold sendMessAction at ran
  split at ran
  next =>
    cases ran
    exact List.forall_mem_nil _
  next content typed =>
    obtain ⟨time, -, ran⟩ := ok_of_bind ran
    obtain ⟨date, -, ran⟩ := ok_of_bind ran
    unfold sendMessagesData at ran
    split at ran
    next =>
      cases ran
      exact List.forall_mem_nil _
    next chat shown =>
      split at ran
      next =>
        cases ran
        exact List.forall_mem_nil _
      next id named =>
        obtain ⟨path, found, ran⟩ := ok_of_bind ran
        obtain ⟨child, below, ran⟩ := ok_of_bind ran
        obtain ⟨after, written, same⟩ := ok_of_bind ran
        cases same
        rw [child_string] at below
        cases below
        intro one member
        rw [List.mem_singleton.mp member]
        exact ⟨by simp [Message.toDict], chat, id, path, shown, named, found, written⟩

end ChatViewController

namespace ChatHomeViewController
variable [Ring Double] [LinearOrder Double] [FloorRing Double]

theorem fields_of_ofSnapshot [NSScanner] {order : Enumeration (Value Double)} {routine : Routine Message}
    {node : Node Double} {c : Chat} (decoded : Chat.ofSnapshot order routine node.val = .ok c) :
    c.uIDs = members node ∧ c.id = some ((node.getImmediateChild "id").val.asString.getD "") := by
  refine ⟨uIDs_ofSnapshot decoded, ?_⟩
  obtain ⟨dict, cast, rfl⟩ := Chat.ofSnapshot_ok decoded
  have field : (dict.lookup "id").bind Value.asString = (node.getImmediateChild "id").val.asString :=
    bind_lookup_of_asDict_val cast "id" rfl
  rw [Chat.decoded, field]

theorem member_of_getChats [NSScanner] {snapshot : Enumeration (Node Double)}
    {order : Enumeration (Value Double)}
    {routine : Routine Message} {vc next : ChatHomeViewController Double} {chats : Node Double}
    (ran : vc.getChats snapshot order routine chats = .ok next) :
    next.user = vc.user ∧ ∀ c ∈ next.chatList, Session.ReadFrom [chats] c ∧
      ∃ uid ∈ c.uIDs, vc.user.bind User.uid = some uid := by
  rw [getChats_eq] at ran
  obtain ⟨decoded, mapped, same⟩ := ok_of_bind ran
  cases same
  refine ⟨rfl, fun c member => ?_⟩
  obtain ⟨listed, among, copied⟩ := List.mem_flatMap.mp member
  obtain ⟨counted, rfl⟩ := List.mem_replicate.mp copied
  obtain ⟨uid, known, same⟩ := List.countP_pos_iff.mp (Nat.pos_of_ne_zero counted)
  obtain ⟨value, exported, read⟩ := mem_of_mapM_eq_ok mapped among
  obtain ⟨node, child, rfl⟩ := List.mem_map.mp exported
  obtain ⟨key, found⟩ := snapshot.mem_values.mp child
  exact ⟨⟨chats, List.mem_singleton_self _, key, node, found, fields_of_ofSnapshot read⟩, uid, known,
    of_decide_eq_true same⟩

end ChatHomeViewController

namespace Sharing
variable {Screen : Type} [Ring Double] [LinearOrder Double] [FloorRing Double] [DecidableEq Screen]

theorem Effect.users {state : State Image Double Screen} {event : Event Image Double Screen}
    {result : State Image Double Screen × List (Written Double)} (effect : Effect state event result) :
    (∀ screen, (result.1.screens screen).userforstatusvc = (state.screens screen).userforstatusvc) ∧
    (∀ post ∈ result.1.uploads ++ result.1.downloads, post ∈ state.uploads ++ state.downloads ∨
      ∃ mydate, event = .tapped post.screen mydate) ∧
    ∀ one ∈ result.2, ∃ screen, one.2.uid = some (state.screens screen).uid ∧
      ((∃ post ∈ state.uploads ++ state.downloads, post.screen = screen) ∨
        ∃ mydate, event = .tapped screen mydate) := by
  cases effect with
  | idle event => exact ⟨fun _ => rfl, fun post member => .inl member, List.forall_mem_nil _⟩
  | edited event screen vc same =>
    refine ⟨fun other => ?_, fun post member => .inl member, List.forall_mem_nil _⟩
    by_cases here : other = screen
    · subst here
      simp only [State.edit, Function.update_self]
      exact same
    · simp only [State.edit, Function.update_of_ne here]
  | uploading screen mydate image =>
    refine ⟨fun _ => rfl, fun post member => ?_, List.forall_mem_nil _⟩
    simp only [List.append_assoc, List.mem_append, List.mem_singleton] at member
    rcases member with earlier | rfl | waiting
    · exact .inl (List.mem_append_left _ earlier)
    · exact .inr ⟨mydate, rfl⟩
    · exact .inl (List.mem_append_right _ waiting)
  | postedText screen mydate =>
    refine ⟨fun _ => rfl, fun post member => .inl member, fun one member => ?_⟩
    rw [List.mem_singleton.mp member]
    exact ⟨screen, rfl, .inr ⟨mydate, rfl⟩⟩
  | postedUnsent screen mydate blank image =>
    refine ⟨fun _ => rfl, fun post member => .inl member, fun one member => ?_⟩
    rw [List.mem_singleton.mp member]
    exact ⟨screen, rfl, .inr ⟨mydate, rfl⟩⟩
  | dropped event uploads downloads fewerUploads fewerDownloads =>
    refine ⟨fun _ => rfl, fun post member => .inl ?_, List.forall_mem_nil _⟩
    rcases List.mem_append.mp member with upload | download
    · exact List.mem_append_left _ (fewerUploads upload)
    · exact List.mem_append_right _ (fewerDownloads download)
  | stored task moved pending =>
    refine ⟨fun _ => rfl, fun post member => .inl ?_, List.forall_mem_nil _⟩
    simp only [List.mem_append, List.mem_singleton] at member
    rcases member with upload | download | rfl
    · exact List.mem_append_left _ (List.eraseIdx_subset upload)
    · exact List.mem_append_right _ download
    · exact List.mem_append_left _ pending
  | postedImage task posted pending =>
    refine ⟨fun _ => rfl, fun post member => .inl ?_, fun one member => ?_⟩
    · rcases List.mem_append.mp member with upload | download
      · exact List.mem_append_left _ upload
      · exact List.mem_append_right _ (List.eraseIdx_subset download)
    · rw [List.mem_singleton.mp member]
      exact ⟨posted.screen, rfl, .inl ⟨posted, List.mem_append_right _ pending, rfl⟩⟩

end Sharing

/-! ## Whose the screens are -/

namespace Session

def OwnedBy (accounts : List String) (user : Option (User Double)) : Prop :=
  ∃ uid ∈ accounts, user.bind User.uid = some uid

structure HomeOwned [NSScanner] (accounts : List String) (read : List (Node Double))
    (homevc : HomeTabBarViewController Double) : Prop where
  chatHome : ∀ vc, homevc.chatHomeVC = some vc → OwnedBy accounts vc.user ∧
    ∀ c ∈ vc.chatList, ReadFrom read c ∧ ∃ uid ∈ c.uIDs, vc.user.bind User.uid = some uid
  profile : ∀ vc, homevc.myProfileVC = some vc → OwnedBy accounts vc.userinfo

/-- One of the accounts is the author, and one is a member of the chat as it was read. -/
structure ChatOwned [NSScanner] (accounts : List String) (read : List (Node Double))
    (vc : ChatViewController) : Prop where
  author : vc.uID ∈ accounts
  member : ∃ chat, vc.chat = some chat ∧ ReadFrom read chat ∧ ∃ uid ∈ accounts, uid ∈ chat.uIDs

/-- A message of an account that is written to the path made by the `id` of a chat that was read and has
one of the accounts as a member. -/
structure MessageSigned [NSScanner] (accounts : List String) (read : List (Node Double))
    (before after : Node Double) (sent : Sent Double) : Prop where
  author : ∃ author ∈ accounts, sent.2.lookup "uID" = some (.string author)
  chat : ∃ chats ∈ read, ∃ key node id, chats.childMap.lookup key = some node ∧
    (∃ uid ∈ accounts, uid ∈ ChatHomeViewController.members node) ∧
    node.getImmediateChild "id" = .leaf (.string id) ∧ isValidPathString id ∧
    setValue before ("Chat" :: pathPieces id ++ ["messages", sent.1]) (.ofDict sent.2) = .ok after

def Output.Signed [NSScanner] (accounts : List String) (read : List (Node Double)) : Output Double → Prop
  | .message before after sent => MessageSigned accounts read before after sent
  | .post written => ∃ author ∈ accounts, written.2.uid = some author

variable {fewer more : List String} {old new : List (Node Double)}

theorem ReadFrom.mono [NSScanner] {c : Chat} (decoded : ReadFrom old c) (kept : old ⊆ new) : ReadFrom new c :=
  decoded.imp fun _ found => ⟨kept found.1, found.2⟩

theorem OwnedBy.mono {user : Option (User Double)} (owned : OwnedBy fewer user) (among : fewer ⊆ more) :
    OwnedBy more user :=
  owned.imp fun _ known => ⟨among known.1, known.2⟩

theorem HomeOwned.mono [NSScanner] {homevc : HomeTabBarViewController Double}
    (owned : HomeOwned fewer old homevc)
    (among : fewer ⊆ more) (kept : old ⊆ new) : HomeOwned more new homevc where
  chatHome vc shown := by
    obtain ⟨owner, listed⟩ := owned.chatHome vc shown
    exact ⟨owner.mono among, fun c member => ⟨(listed c member).1.mono kept, (listed c member).2⟩⟩
  profile vc shown := (owned.profile vc shown).mono among

theorem ChatOwned.mono [NSScanner] {vc : ChatViewController} (owned : ChatOwned fewer old vc)
    (among : fewer ⊆ more) (kept : old ⊆ new) : ChatOwned more new vc where
  author := among owned.author
  member := by
    obtain ⟨chat, shown, decoded, uid, known, member⟩ := owned.member
    exact ⟨chat, shown, decoded.mono kept, uid, among known, member⟩

theorem Output.Signed.mono [NSScanner] {output : Output Double} (signed : output.Signed fewer old)
    (among : fewer ⊆ more) (kept : old ⊆ new) : output.Signed more new := by
  cases output with
  | message before after sent =>
    obtain ⟨⟨author, known, named⟩, chats, handed, key, node, id, found, ⟨uid, member, listed⟩, written⟩ :=
      signed
    exact ⟨⟨author, among known, named⟩, chats, kept handed, key, node, id, found, ⟨uid, among member, listed⟩,
      written⟩
  | post written =>
    obtain ⟨author, known, named⟩ := signed
    exact ⟨author, among known, named⟩

theorem homeOwned_passHomeData [NSScanner] {user : User Double} {uid : String} (named : user.uid = some uid)
    (known : uid ∈ more) : HomeOwned more new (HomeTabBarViewController.passHomeData {} user) where
  chatHome vc shown := by
    cases shown
    exact ⟨⟨uid, known, named⟩, List.forall_mem_nil _⟩
  profile vc shown := by
    cases shown
    exact ⟨uid, known, named⟩

section
variable [Ring Double] [LinearOrder Double] [FloorRing Double]

structure Owned [NSScanner] (accounts : List String) (read : List (Node Double)) (state : State Image Double) :
    Prop where
  observers : ∀ observer ∈ state.login.observers, observer.uID ∈ accounts
  current : accounts ≠ [] → ∃ uid ∈ accounts, state.currentUser = some uid
  homes : ∀ homevc ∈ state.homes, HomeOwned accounts read homevc
  chats : ∀ vc ∈ state.chats, ChatOwned accounts read vc
  screens : ∀ screen < state.presented, OwnedBy accounts (state.sharing.screens screen).userforstatusvc
  pending : ∀ post ∈ state.sharing.uploads ++ state.sharing.downloads, post.screen < state.presented
  stamped : state.sharing.Stamped

variable {snapshot : Enumeration (Node Double)} {order : Enumeration (Value Double)} {routine : Routine Message}
  {state next : State Image Double} {known : List String} {read : List (Node Double)}

theorem Owned.mono [NSScanner] (owned : Owned known old state) (kept : old ⊆ new) : Owned known new state :=
  { owned with
    homes := fun homevc member => (owned.homes homevc member).mono (List.Subset.refl _) kept
    chats := fun vc member => (owned.chats vc member).mono (List.Subset.refl _) kept }

theorem Owned.login [NSScanner] {event : Login.Event Double} (owned : Owned known read state)
    {login : ViewController} {outputs : List (Login.Output Double)}
    (effect : ViewController.Effect state.login event login outputs) :
    Owned (known ++ (account event).toList) read { state with
      login := login
      currentUser := (account event).or state.currentUser
      homes := state.homes ++
        (ViewController.homes outputs).map (HomeTabBarViewController.passHomeData {}) } := by
  have among : known ⊆ known ++ (account event).toList := List.subset_append_left _ _
  obtain ⟨observers, users⟩ := effect.accounts
  constructor
  · intro observer member
    rcases observers observer member with old | new
    · exact among (owned.observers observer old)
    · exact List.mem_append_right _ (by rw [new]; exact List.mem_singleton_self _)
  · intro present
    cases new : account event with
    | none =>
      rw [new, Option.toList_none, List.append_nil] at present
      rw [Option.toList_none, List.append_nil]
      exact owned.current present
    | some uid => exact ⟨uid, by simp, rfl⟩
  · intro homevc member
    rcases List.mem_append.mp member with old | new
    · exact (owned.homes homevc old).mono among (List.Subset.refl _)
    · obtain ⟨user, pushed, rfl⟩ := List.mem_map.mp new
      obtain ⟨observer, registered, named⟩ := users user pushed
      exact homeOwned_passHomeData named (among (owned.observers observer registered))
  · exact fun vc member => (owned.chats vc member).mono among (List.Subset.refl _)
  · exact fun screen presented => (owned.screens screen presented).mono among
  · exact owned.pending
  · exact owned.stamped

theorem Owned.shared [NSScanner] (owned : Owned known read state) {event : Sharing.Event Image Double ℕ}
    (offered : Offered state (.sharing event)) {sharing : Sharing.State Image Double ℕ}
    {written : List (Written Double)} (effect : Sharing.Effect state.sharing event (sharing, written)) :
    Owned known read { state with sharing := sharing } ∧
      ∀ one ∈ written, (Output.post one).Signed known read := by
  obtain ⟨users, pending, posts⟩ := effect.users
  have presented : ∀ screen mydate, event = .tapped screen mydate → screen < state.presented := by
    rintro screen mydate rfl
    exact offered
  refine ⟨⟨owned.observers, owned.current, owned.homes, owned.chats, ?_, ?_, effect.stamped owned.stamped⟩, ?_⟩
  · intro screen shown
    rw [users screen]
    exact owned.screens screen shown
  · intro post member
    rcases pending post member with old | ⟨mydate, tapped⟩
    · exact owned.pending post old
    · exact presented post.screen mydate tapped
  · intro one member
    obtain ⟨screen, named, source⟩ := posts one member
    have shown : screen < state.presented := by
      rcases source with ⟨post, old, rfl⟩ | ⟨mydate, tapped⟩
      · exact owned.pending post old
      · exact presented screen mydate tapped
    obtain ⟨uid, among, same⟩ := owned.screens screen shown
    refine ⟨uid, among, ?_⟩
    rw [named, UpStatusViewController.uid, same]
    rfl

theorem Owned.listed [NSScanner] (owned : Owned known read state) {home : ℕ}
    {homevc : HomeTabBarViewController Double}
    (shown : state.homes[home]? = some homevc) {vc updated : ChatHomeViewController Double}
    (held : homevc.chatHomeVC = some vc) {chats : Node Double}
    (handed : chats ∈ read) (ran : vc.getChats snapshot order routine chats = .ok updated) :
    Owned known read
      { state with homes := state.homes.set home { homevc with chatHomeVC := some updated } } := by
  have before := owned.homes homevc (List.mem_of_getElem? shown)
  obtain ⟨same, members⟩ := ChatHomeViewController.member_of_getChats ran
  refine { owned with homes := fun other member => ?_ }
  rcases List.mem_or_eq_of_mem_set member with old | rfl
  · exact owned.homes other old
  · refine ⟨fun other shows => ?_, before.profile⟩
    cases shows
    rw [same]
    exact ⟨(before.chatHome vc held).1, fun c listed =>
      ⟨(members c listed).1.mono (List.cons_subset.mpr ⟨handed, List.nil_subset _⟩), (members c listed).2⟩⟩

theorem Owned.opened [NSScanner] (owned : Owned known read state) {home row : ℕ}
    {homevc : HomeTabBarViewController Double}
    (shown : state.homes[home]? = some homevc) {vc : ChatHomeViewController Double}
    (held : homevc.chatHomeVC = some vc) {chatVC loaded : ChatViewController} {registered : Option FPath}
    (selected : vc.didSelectRowAt row = some chatVC)
    (ran : chatVC.viewDidLoad state.currentUser = .ok (loaded, registered)) :
    Owned known read { state with chats := state.chats ++ [loaded] } := by
  obtain ⟨⟨uid, among, named⟩, members⟩ :=
    (owned.homes homevc (List.mem_of_getElem? shown)).chatHome vc held
  obtain ⟨c, found, passed⟩ := Option.map_eq_some_iff.mp selected
  obtain ⟨decoded, member, listed, same⟩ := members c (List.mem_of_getElem? found)
  rw [named] at same
  obtain ⟨author, among', current⟩ := owned.current (List.ne_nil_of_mem among)
  obtain ⟨chat, wrote⟩ := ChatViewController.viewDidLoad_keeps ran
  refine { owned with chats := fun other shows => ?_ }
  rcases List.mem_append.mp shows with old | new
  · exact owned.chats other old
  · rw [List.mem_singleton.mp new]
    constructor
    · rw [wrote, current]
      exact among'
    · rw [chat, ← passed]
      exact ⟨c, rfl, decoded, uid, among, Option.some.inj same ▸ listed⟩

theorem Owned.modified [NSScanner] (owned : Owned known read state) (chat : ℕ)
    {edit : ChatViewController → ChatViewController}
    (keeps : ∀ vc, (edit vc).chat = vc.chat ∧ (edit vc).uID = vc.uID) :
    Owned known read { state with chats := state.chats.modify chat edit } := by
  refine { owned with chats := fun other member => ?_ }
  obtain ⟨i, found⟩ := List.mem_iff_getElem?.mp member
  rw [List.getElem?_modify] at found
  obtain ⟨vc, held, changed⟩ := Option.map_eq_some_iff.mp found
  have before := owned.chats vc (List.mem_of_getElem? held)
  split at changed
  · subst changed
    exact ⟨(keeps vc).2 ▸ before.author, (keeps vc).1 ▸ before.member⟩
  · subst changed
    exact before

theorem Owned.presents [NSScanner] (owned : Owned known read state) {home : ℕ}
    {homevc : HomeTabBarViewController Double}
    (shown : state.homes[home]? = some homevc) {vc : MyProfileViewController Double}
    (held : homevc.myProfileVC = some vc) {statusVC : UpStatusViewController Image Double}
    (ran : vc.gotoUpstatusvc = .ok statusVC) :
    Owned known read { state with
      sharing := state.sharing.edit state.presented statusVC
      presented := state.presented + 1 } := by
  obtain ⟨user, unwrapped, same⟩ := ok_of_bind ran
  cases same
  have owner := (owned.homes homevc (List.mem_of_getElem? shown)).profile vc held
  rw [forceUnwrap_eq_ok.mp unwrapped] at owner
  refine { owned with
    screens := fun screen below => ?_
    pending := fun post member => Nat.lt_succ_of_lt (owned.pending post member) }
  by_cases here : screen = state.presented
  · subst here
    simp only [Sharing.State.edit, Function.update_self]
    exact owner
  · simp only [Sharing.State.edit, Function.update_of_ne here]
    exact owned.screens screen (lt_of_le_of_ne (Nat.lt_succ_iff.mp below) here)

theorem ChatOwned.signed [NSScanner] {vc : ChatViewController} (owned : ChatOwned known read vc)
    {now : Date Double} {database after : Node Double} {sent : List (Sent Double)}
    (ran : vc.sendMessAction now database = .ok (after, sent)) {one : Sent Double} (listed : one ∈ sent) :
    MessageSigned known read database after one := by
  obtain ⟨named, chat, id, path, shown, identified, found, written⟩ :=
    ChatViewController.written_of_sendMessAction ran one listed
  obtain ⟨chat', shown', ⟨chats, handed, key, node, child, members, same⟩, uid, among, member⟩ := owned.member
  obtain rfl := Option.some.inj (shown.symm.trans shown')
  obtain rfl := Option.some.inj (identified.symm.trans same)
  rw [messagesRef_eq] at found
  split at found
  next valid =>
    cases found
    refine ⟨⟨vc.uID, owned.author, named⟩, chats, handed, key, node, ?_⟩
    cases text : (node.getImmediateChild "id").val.asString with
    | none =>
      -- The default is the empty string, which is no path.
      rw [text] at valid
      exact absurd valid (by decide)
    | some id =>
      rw [text] at valid written
      rw [List.append_assoc] at written
      exact ⟨id, child, ⟨uid, among, members ▸ member⟩, val_eq_string (Value.asString_eq_some.mp text), valid,
        written⟩
  next => cases found

theorem Owned.step_unsigned [NSScanner] {event : Event Image Double} {emitted : List (Output Double)}
    (owned : Owned known read state) (offered : Offered state event)
    (unsigned : ∀ entered, event ≠ .login entered)
    (taken : step snapshot order routine state event = .ok (next, emitted)) :
    Owned known (read ++ handed event) next ∧
      ∀ output ∈ emitted, output.Signed known (read ++ handed event) := by
  have owned := owned.mono (List.subset_append_left read (handed event))
  cases event with
  | login event => exact absurd rfl (unsigned event)
  | getChats home chats =>
    rw [Session.step] at taken
    split at taken
    next =>
      cases taken
      exact ⟨owned, List.forall_mem_nil _⟩
    next homevc shown =>
      split at taken
      next =>
        cases taken
        exact ⟨owned, List.forall_mem_nil _⟩
      next vc held =>
        obtain ⟨updated, ran, same⟩ := ok_of_bind taken
        cases same
        have among : chats ∈ read ++ [chats] := List.mem_append_right _ (List.mem_singleton_self _)
        exact ⟨owned.listed shown held among ran, List.forall_mem_nil _⟩
  | didSelectRowAt home row =>
    rw [Session.step] at taken
    split at taken
    next =>
      cases taken
      exact ⟨owned, List.forall_mem_nil _⟩
    next chatVC selected =>
      obtain ⟨homevc, shown, selected⟩ := Option.bind_eq_some_iff.mp selected
      obtain ⟨vc, held, selected⟩ := Option.bind_eq_some_iff.mp selected
      obtain ⟨⟨loaded, registered⟩, ran, same⟩ := ok_of_bind taken
      cases same
      exact ⟨owned.opened shown held selected ran, List.forall_mem_nil _⟩
  | typed chat text =>
    cases taken
    exact ⟨owned.modified chat fun _ => ⟨rfl, rfl⟩, List.forall_mem_nil _⟩
  | observed chat content =>
    cases taken
    exact ⟨owned.modified chat fun vc => vc.observer_keeps order routine content, List.forall_mem_nil _⟩
  | sendMessAction chat now =>
    rw [Session.step] at taken
    split at taken
    next =>
      cases taken
      exact ⟨owned, List.forall_mem_nil _⟩
    next vc held =>
      obtain ⟨⟨database, sent⟩, ran, same⟩ := ok_of_bind taken
      cases same
      refine ⟨{ owned with }, fun output member => ?_⟩
      obtain ⟨one, listed, rfl⟩ := List.mem_map.mp member
      exact (owned.chats vc (List.mem_of_getElem? held)).signed ran listed
  | gotoUpstatusvc home =>
    rw [Session.step] at taken
    split at taken
    next =>
      cases taken
      exact ⟨owned, List.forall_mem_nil _⟩
    next vc profile =>
      obtain ⟨homevc, shown, held⟩ := Option.bind_eq_some_iff.mp profile
      obtain ⟨statusVC, ran, same⟩ := ok_of_bind taken
      cases same
      exact ⟨owned.presents shown held ran, List.forall_mem_nil _⟩
  | sharing event =>
    obtain ⟨⟨sharing, written⟩, shared, same⟩ := ok_of_bind taken
    cases same
    obtain ⟨kept, posts⟩ := owned.shared offered (.of_step owned.stamped shared)
    refine ⟨kept, fun output member => ?_⟩
    obtain ⟨one, listed, rfl⟩ := List.mem_map.mp member
    exact posts one listed

theorem Owned.step [NSScanner] {event : Event Image Double} {emitted : List (Output Double)}
    (owned : Owned known read state)
    (offered : Offered state event) (taken : step snapshot order routine state event = .ok (next, emitted)) :
    Owned (known ++ signed event) (read ++ handed event) next ∧
      ∀ output ∈ emitted, output.Signed (known ++ signed event) (read ++ handed event) := by
  by_cases unsigned : ∀ entered, event ≠ .login entered
  · have none : signed event = [] := by
      cases event with
      | login entered => exact absurd rfl (unsigned entered)
      | _ => rfl
    rw [none, List.append_nil]
    exact owned.step_unsigned offered unsigned taken
  · push Not at unsigned
    obtain ⟨entered, rfl⟩ := unsigned
    obtain ⟨⟨login, outputs⟩, ran, same⟩ := ok_of_bind taken
    cases same
    have read : read ++ handed (.login entered : Event Image Double) = read := List.append_nil _
    rw [read]
    exact ⟨owned.login (.of_step ⟨offered, ran⟩), List.forall_mem_nil _⟩

theorem Owned.run [NSScanner] {final : State Image Double} {events : List (Event Image Double)}
    {outputs : List (Output Double)} (owned : Owned known read state)
    (run : Runs ((computes (Session.step snapshot order routine)).guardedBy Offered) state events final outputs) :
    Owned (known ++ accounts events) (read ++ delivered events) final ∧
      ∀ output ∈ outputs, output.Signed (known ++ accounts events) (read ++ delivered events) := by
  induction run generalizing known read with
  | done state =>
    refine ⟨?_, List.forall_mem_nil _⟩
    simpa only [accounts, delivered, List.flatMap_nil, List.append_nil] using owned
  | @next state middle final event events emitted later first rest ih =>
    obtain ⟨stepped, written⟩ := owned.step first.1 first.2
    obtain ⟨reached, others⟩ := ih stepped
    have split : known ++ accounts (event :: events) = known ++ signed event ++ accounts events := by
      rw [accounts, List.flatMap_cons, List.append_assoc]
      rfl
    have splitRead : read ++ delivered (event :: events) = read ++ handed event ++ delivered events := by
      rw [delivered, List.flatMap_cons, List.append_assoc]
      rfl
    rw [split, splitRead]
    refine ⟨reached, fun output member => ?_⟩
    rcases List.mem_append.mp member with now | after
    · exact (written output now).mono (List.subset_append_left _ _) (List.subset_append_left _ _)
    · exact others output after

def launched (username password currentUser : Option String) (database : Node Double)
    (storage : Store.Map StoragePath Image) : State Image Double where
  login := ViewController.opened username password
  currentUser := currentUser
  sharing := { screens := fun _ => {}, database := database, storage := storage }

end

def signedIn : List (Event Unit ℚ) :=
  [.login (.tapped .buttonLogin), .login (.emailCompleted (.user "u1")),
    .login (.snapshot 0 (ViewController.namedUser "An"))]

end Session

end ProjectF02
