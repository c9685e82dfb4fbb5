import ProjectF02.Chat.Opening
import ProjectF02.Screens.Dates

/-! The rows of an open chat.

A row shows a date when its message is more than a day later than the one above it.
The times come from the database, and their difference is computed in 64 bits.
-/

set_option autoImplicit false

namespace ProjectF02
open Swift Firebase Sorting

inductive RowTrap where
  | indexOutOfRange
  | arithmeticOverflow
  deriving DecidableEq, Repr

/-- `ChatTableViewCell1` and `ChatTableViewCell2`, which differ in their layout. -/
structure ChatTableViewCell where
  messLabel : String
  messTime : String
  messTimeIsHidden : Bool
  messViewTop : Nat
  deriving DecidableEq, Repr

def ChatTableViewCell.fillData (data : Message) (time : String) : ChatTableViewCell where
  messLabel := data.content
  messTime := if time = "" then "" else time
  messTimeIsHidden := time = ""
  messViewTop := if time = "" then 0 else 48

/-- A row without content, of another participant or of the user. -/
inductive MessageRow where
  | plain
  | cell1 (cell : ChatTableViewCell)
  | cell2 (cell : ChatTableViewCell)
  deriving DecidableEq, Repr

theorem inInt64_sub_self (n : ℤ) : InInt64 (n - n) := by
  rw [Int.sub_self]
  decide

/-- `first - second`, which traps outside the range of the type. -/
def distance (first second : Int64) : Except RowTrap Int64 :=
  if InInt64 (first.toInt - second.toInt) then .ok (first - second) else .error .arithmeticOverflow

namespace ChatViewController

def element (messages : List Message) (index : Nat) : Except RowTrap Message :=
  match messages[index]? with
  | some message => .ok message
  | none => .error .indexOutOfRange

/-- The message above a row; the first row takes itself. -/
def messagePre (messages : List Message) (row : Nat) : Except RowTrap Message :=
  if row ≠ 0 then element messages (row - 1) else element messages 0

variable {Double : Type} [Field Double] [LinearOrder Double] [FloorRing Double]

/-- `cellForRowAt`, for the user that is signed in; `current` is a fresh formatter. -/
def cellForRowAt (current : DateFormatter Double) (curUser : Option String) (messages : List Message)
    (row : Nat) : Except RowTrap MessageRow := do
  let dateFormat := dateFormat current
  let messagePre ← messagePre messages row
  let message ← element messages row
  match curUser with
  | none => return .plain
  | some uid =>
    let distance ← distance message.time messagePre.time
    let time :=
      if distance > 86400 * 1000 then dateFormat.string ⟨(message.time.toInt : Double) / (1000 : ℕ)⟩ else ""
    return if message.uID = uid then .cell2 (.fillData message time) else .cell1 (.fillData message time)

def Draws (current : DateFormatter Double) (curUser : Option String) (messages : List Message) :
    Prop :=
  ∀ row < messages.length, ∃ cell, cellForRowAt current curUser messages row = .ok cell

theorem element_ok {messages : List Message} {index : Nat} (bound : index < messages.length) :
    element messages index = .ok messages[index] := by
  rw [element, List.getElem?_eq_getElem bound]

theorem messagePre_ok {messages : List Message} {row : Nat} (bound : row < messages.length) :
    messagePre messages row = .ok messages[row - 1] := by
  rw [messagePre]
  split
  · exact element_ok (by omega)
  next first =>
    obtain rfl : row = 0 := not_not.mp first
    exact element_ok bound

/-- Only the subtraction of the times can end the drawing of a row. -/
theorem cellForRowAt_isOk_iff (current : DateFormatter Double) (curUser : Option String)
    {messages : List Message} {row : Nat} (bound : row < messages.length) :
    (∃ cell, cellForRowAt current curUser messages row = .ok cell) ↔
      curUser = none ∨ InInt64 (messages[row].time.toInt - messages[row - 1].time.toInt) := by
  unfold cellForRowAt
  rw [messagePre_ok bound, element_ok bound]
  cases curUser with
  | none => exact iff_of_true ⟨_, rfl⟩ (.inl rfl)
  | some uid =>
    by_cases near : InInt64 (messages[row].time.toInt - messages[row - 1].time.toInt)
    · refine iff_of_true ?_ (.inr near)
      have subtracted : distance messages[row].time messages[row - 1].time =
        .ok (messages[row].time - messages[row - 1].time) := if_pos near
      simp only [Except.bind, bind, subtracted]
      exact ⟨_, rfl⟩
    · refine iff_of_false ?_ (not_or.mpr ⟨Option.some_ne_none uid, near⟩)
      have trapped : distance messages[row].time messages[row - 1].time = .error .arithmeticOverflow :=
        if_neg near
      simp only [Except.bind, bind, trapped]
      rintro ⟨cell, drawn⟩
      cases drawn

theorem draws_iff (current : DateFormatter Double) (curUser : Option String)
    (messages : List Message) :
    Draws current curUser messages ↔ curUser = none ∨
      (messages.map Message.time).IsChain fun above below => InInt64 (below.toInt - above.toInt) := by
  rw [List.isChain_map, List.isChain_iff_getElem]
  constructor
  · intro draws
    refine or_iff_not_imp_left.mpr fun signedIn row bound => ?_
    exact ((cellForRowAt_isOk_iff current curUser bound).mp (draws (row + 1) bound)).resolve_left signedIn
  · intro near row bound
    refine (cellForRowAt_isOk_iff current curUser bound).mpr (near.imp_right fun close => ?_)
    cases row with
    | zero => exact inInt64_sub_self _
    | succ row => exact close row bound

end ChatViewController

section Order
variable {times : List Int64}

theorem isChain_upwards_iff (increasing : times.Pairwise fun a b => a ≤ b) :
    (times.IsChain fun above below => InInt64 (below.toInt - above.toInt)) ↔
      ∀ first second, Consecutive times first second → second.toInt - first.toInt < 2 ^ 63 := by
  rw [isChain_iff_consecutive (fun time => inInt64_sub_self time.toInt) increasing]
  refine forall₂_congr fun first second => imp_congr_right fun next => ?_
  have below := Int64.lt_iff_toInt_lt.mp next.below
  exact ⟨fun range => range.2, fun near => ⟨by omega, near⟩⟩

/-- Downwards, the difference is negative and may reach one further. -/
theorem isChain_downwards_iff (decreasing : times.Pairwise fun a b => b ≤ a) :
    (times.IsChain fun above below => InInt64 (below.toInt - above.toInt)) ↔
      ∀ first second, Consecutive times first second → second.toInt - first.toInt ≤ 2 ^ 63 := by
  have upwards := @isChain_iff_consecutive _ _ (fun a b => InInt64 (a.toInt - b.toInt))
    (fun time => inInt64_sub_self time.toInt) _ (List.pairwise_reverse.mpr decreasing)
  refine List.isChain_reverse.symm.trans (upwards.trans (forall₂_congr fun first second => ?_))
  constructor
  · intro near next
    have range := near (next.of_perm times.reverse_perm.symm)
    have low := range.1
    omega
  · intro near next
    have below := Int64.lt_iff_toInt_lt.mp next.below
    have close := near (next.of_perm times.reverse_perm)
    exact ⟨by omega, by omega⟩

end Order

variable {Double : Type} [Field Double] [LinearOrder Double] [FloorRing Double]

def CloseTimes (messages : Dict Double) : Prop :=
  ∀ first second, Consecutive ((Message.listed .stored messages).map Message.time) first second →
    second.toInt - first.toInt < 2 ^ 63

namespace ChatViewController

theorem draws_observed_iff (current : DateFormatter Double) (curUser : Option String)
    (order : Enumeration (Value Double)) (routine : Routine Message) {snapshot : Value Double}
    {messages : Dict Double} (cast : snapshot.asDict = some messages) {list : List Message}
    (computed : observed order routine snapshot = some list) :
    Draws current curUser list ↔ curUser = none ∨ CloseTimes messages := by
  rw [observed_of_dict order routine cast, Option.some.injEq] at computed
  subst computed
  have same := ((routine.perm (fun a b => decide (a.time < b.time)) _).trans
    (Message.listed_perm messages order .stored)).map Message.time
  have increasing := List.pairwise_map.mpr (routine.ordered Message.time (Message.listed order messages))
  rw [draws_iff, isChain_upwards_iff increasing]
  refine or_congr_right (forall₂_congr fun first second => ?_)
  exact ⟨fun near next => near (next.of_perm same.symm), fun near next => near (next.of_perm same)⟩

theorem draws_decoded (current : DateFormatter Double) {curUser : Option String}
    (order : Enumeration (Value Double)) (routine : Routine Message) {dict : Dict Double}
    (drawable : curUser = none ∨
      ∀ messages, Chat.messagesDict dict = some messages → CloseTimes messages) :
    Draws current curUser (Chat.decoded order routine dict).messages := by
  have decreasing : ((Chat.decoded order routine dict).messages.map Message.time).Pairwise
      fun a b => b ≤ a :=
    List.pairwise_map.mpr (routine.ordered (fun message => OrderDual.toDual message.time) _)
  have same : ((Chat.decoded order routine dict).messages.map Message.time).Perm
      ((Chat.found order dict).map Message.time) := (routine.perm _ _).map _
  rw [draws_iff, isChain_downwards_iff decreasing]
  refine drawable.imp_right fun close first second next => ?_
  have listed := next.of_perm same
  rw [Chat.found] at listed
  cases stored : Chat.messagesDict dict with
  | none =>
    rw [stored] at listed
    cases listed.low
  | some messages =>
    rw [stored] at listed
    have orderFree := (Message.listed_perm messages order .stored).map Message.time
    exact (close messages stored first second (listed.of_perm orderFree)).le

end ChatViewController

/-- Both lists of an opened chat are drawn exactly if nobody is signed in or consecutive times are
less than 2 ^ 63 apart. -/
theorem drawing_safe_iff [NSScanner] (current : DateFormatter Double) (curUser : Option String)
    (order : Enumeration (Value Double)) (routine : Routine Message) {chat : Node Double}
    {dict : Dict Double} (cast : chat.val.asDict = some dict)
    (entries : ∀ delivered, (chat.getImmediateChild "messages").val.asDict = some delivered →
      Message.Entries delivered) :
    ∃ c, Chat.ofSnapshot order routine chat.val = .ok c ∧
      ((∀ list, (list = c.messages ∨ ∃ order' routine', ChatViewController.observed order' routine'
          (chat.getImmediateChild "messages").val = some list) →
        ChatViewController.Draws current curUser list) ↔
        curUser = none ∨ ∀ delivered, (chat.getImmediateChild "messages").val.asDict = some delivered →
          CloseTimes delivered) := by
  have field : Chat.messagesDict dict = (chat.getImmediateChild "messages").val.asDict :=
    bind_lookup_of_asDict_val cast "messages" rfl
  have readable : Chat.Readable dict := by
    intro messages stored
    exact entries messages (field.symm.trans stored)
  refine ⟨Chat.decoded order routine dict, ?_, ?_⟩
  · rw [Chat.ofSnapshot, cast]
    exact Chat.init_of_readable order routine readable
  constructor
  · intro draws
    refine or_iff_not_imp_left.mpr fun signedIn delivered stored => ?_
    have computed := ChatViewController.observed_of_dict order routine stored
    have drawn := draws _ (.inr ⟨order, routine, computed⟩)
    exact ((ChatViewController.draws_observed_iff current curUser order routine stored computed).mp
      drawn).resolve_left signedIn
  · rintro close list (rfl | ⟨order', routine', computed⟩)
    · exact ChatViewController.draws_decoded current order routine (field ▸ close)
    · cases stored : (chat.getImmediateChild "messages").val.asDict with
      | none =>
        -- The guard of the observer returns.
        rw [ChatViewController.observed, stored] at computed
        cases computed
      | some delivered =>
        rw [ChatViewController.draws_observed_iff current curUser order' routine' stored computed]
        exact close.imp_right fun close => close delivered stored

theorem closeTimes_answer : CloseTimes (talkDict [hello, answer]) := by
  intro first second next
  have times : (Message.listed .stored (talkDict [hello, answer])).map Message.time =
    [hello.time, answer.time] := rfl
  rw [times] at next
  have within : ∀ time ∈ [hello.time, answer.time],
    hello.time.toInt ≤ time.toInt ∧ time.toInt ≤ answer.time.toInt :=
      List.forall_mem_cons.mpr ⟨⟨le_rfl, by decide⟩, List.forall_mem_singleton.mpr ⟨by decide, le_rfl⟩⟩
  have gap : answer.time.toInt = hello.time.toInt + 1 := by decide
  have low := within first next.low
  have high := within second next.high
  omega

theorem drawing_safe_answer :
    ∃ c, Chat.ofSnapshot .stored .merge (talk [hello, answer]).val = .ok c ∧
      ∀ list, (list = c.messages ∨ ∃ order' routine', ChatViewController.observed order' routine'
          ((talk [hello, answer]).getImmediateChild "messages").val = some list) →
        ChatViewController.Draws american (some "u1") list := by
  have entries : ∀ delivered, ((talk [hello, answer]).getImmediateChild "messages").val.asDict =
      some delivered → Message.Entries delivered := by
    intro delivered found
    obtain rfl : talkDict [hello, answer] = delivered := Option.some.inj found
    decide
  obtain ⟨c, decoded, safe⟩ := @drawing_safe_iff ℚ _ _ _ _ american (some "u1") .stored .merge
    (talk [hello, answer]) (talkFields [hello, answer]) rfl entries
  refine ⟨c, decoded, safe.mpr (.inr fun delivered found => ?_)⟩
  obtain rfl : talkDict [hello, answer] = delivered := Option.some.inj found
  exact closeTimes_answer

def past : Message := { content := "Hi", isNew := 1, time := Int64.minValue, uID := "u1" }

def future : Message := { content := "Yo", isNew := 1, time := Int64.maxValue, uID := "u2" }

theorem drawing_traps :
    Message.Entries (talkDict [past, future]) ∧
    ∃ list, ChatViewController.observed .stored .merge
        ((talk [past, future]).getImmediateChild "messages").val = some list ∧
      ¬ ChatViewController.Draws american (some "u1") list := by
  have cast : ((talk [past, future]).getImmediateChild "messages").val.asDict =
    some (talkDict [past, future]) := rfl
  refine ⟨by decide, _, ChatViewController.observed_of_dict .stored .merge cast, fun draws => ?_⟩
  rw [ChatViewController.draws_observed_iff _ _ .stored .merge cast
    (ChatViewController.observed_of_dict .stored .merge cast)] at draws
  have times : (Message.listed .stored (talkDict [past, future])).map Message.time =
    [past.time, future.time] := rfl
  have next : Consecutive [past.time, future.time] past.time future.time :=
    ⟨by decide, by decide, by decide,
      List.forall_mem_cons.mpr ⟨.inl le_rfl, List.forall_mem_singleton.mpr (.inr le_rfl)⟩⟩
  have close := draws.resolve_left (Option.some_ne_none "u1") past.time future.time
  rw [times] at close
  exact absurd (close next) (by decide)

end ProjectF02
