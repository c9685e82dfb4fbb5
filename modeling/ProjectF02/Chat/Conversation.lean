import ProjectF02.Chat.ChatViewController
import ProjectF02.Store.LastWrites
import ProjectF02.Transition.Runs
import Mathlib.Data.Rat.Floor

/-! Any number of clients sending into one chat.

Every client derives the key of its message from its own clock alone, so the
messages node is the result of the writes in the order the database took them,
and a message is lost when two sends read the same millisecond.
-/

set_option autoImplicit false

namespace ProjectF02
open Swift Firebase Transition Store

variable {Double Client : Type}

/-- Clients with an open screen for the same chat. -/
structure Participants (Client : Type) where
  chatID : String
  path : FPath
  found : messagesRef chatID = .ok path
  screen : Client → ChatViewController
  opened : ∀ client, ∃ chat, (screen client).chat = some chat ∧ chat.id = some chatID

/-- A tap on the send button of one client, with what its field and its clock hold then. -/
structure SendStep (Client Double : Type) where
  client : Client
  messTF : Option String
  now : Date Double

def written (one : Sent Double) : String × Node Double :=
  (one.1, (storedNode (.ofDict one.2)).getD .empty)

theorem map_fst_written (sent : List (Sent Double)) :
    (sent.map written).map Prod.fst = sent.map Prod.fst := by
  rw [List.map_map]
  rfl

section Sending
variable [Ring Double] [LinearOrder Double] [FloorRing Double]

/-- The clock of the sender, cut to a whole millisecond. -/
def SendStep.reading (step : SendStep Client Double) : ℤ := truncated step.now.toMillis

namespace Participants

def messages (people : Participants Client) (database : Node Double) : Children Double :=
  (database.getChild people.path).childMap

def send (people : Participants Client) (database : Node Double) (step : SendStep Client Double) :
    Except Trap (Node Double × List (Sent Double)) :=
  { people.screen step.client with messTF := step.messTF }.sendMessAction step.now database

def composed (people : Participants Client) (step : SendStep Client Double) (content : String) :
    Message where
  content := content
  isNew := 1
  status := 0
  time := Int64.ofInt step.reading
  uID := (people.screen step.client).uID

def emits (people : Participants Client) (step : SendStep Client Double) : List (Sent Double) :=
  match step.messTF with
  | none => []
  | some content => [(string (people.composed step content).time, (people.composed step content).toDict)]

theorem send_eq (people : Participants Client) (database : Node Double) (step : SendStep Client Double) :
    people.send database step =
      match step.messTF with
      | none => .ok (database, [])
      | some content =>
        if InInt64 step.reading then
          let message := people.composed step content
          .ok (database.updateChild (people.path ++ [string message.time]) message.node,
            [(string message.time, message.toDict)])
        else .error .integerRange := by
  obtain ⟨chat, shown, named⟩ := people.opened step.client
  have opened : { people.screen step.client with messTF := step.messTF }.OpenedAt people.path :=
    ⟨chat, people.chatID, shown, named, people.found⟩
  exact ChatViewController.sendMessAction_eq opened step.now database

theorem send_cases {people : Participants Client} {database next : Node Double}
    {step : SendStep Client Double} {emitted : List (Sent Double)}
    (taken : people.send database step = .ok (next, emitted)) :
    (step.messTF = none ∧ next = database ∧ emitted = []) ∨
    ∃ content, step.messTF = some content ∧ InInt64 step.reading ∧
      next = database.updateChild (people.path ++ [string (people.composed step content).time])
        (people.composed step content).node ∧
      emitted = [(string (people.composed step content).time, (people.composed step content).toDict)] := by
  rw [send_eq] at taken
  split at taken
  next field =>
    simp only [Except.ok.injEq, Prod.mk.injEq] at taken
    exact .inl ⟨field, taken.1.symm, taken.2.symm⟩
  next content field =>
    split at taken
    next range =>
      simp only [Except.ok.injEq, Prod.mk.injEq] at taken
      exact .inr ⟨content, field, range, taken.1.symm, taken.2.symm⟩
    next => cases taken

theorem send_of_range (people : Participants Client) (database : Node Double)
    {step : SendStep Client Double} (range : InInt64 step.reading) :
    ∃ next emitted, people.send database step = .ok (next, emitted) := by
  rw [send_eq]
  cases step.messTF with
  | none => exact ⟨database, [], rfl⟩
  | some content =>
    simp only [range, if_true]
    exact ⟨_, _, rfl⟩

theorem send_emits {people : Participants Client} {database next : Node Double}
    {step : SendStep Client Double} {emitted : List (Sent Double)}
    (taken : people.send database step = .ok (next, emitted)) : emitted = people.emits step := by
  unfold emits
  rcases send_cases taken with ⟨field, -, rfl⟩ | ⟨content, field, -, -, rfl⟩ <;> rw [field]

theorem messages_send {people : Participants Client} {database next : Node Double}
    {step : SendStep Client Double} {emitted : List (Sent Double)}
    (taken : people.send database step = .ok (next, emitted)) :
    people.messages next = applyWrites (people.messages database) (emitted.map written) := by
  rcases send_cases taken with ⟨-, rfl, rfl⟩ | ⟨content, -, -, rfl, rfl⟩
  · rfl
  · have stored := Node.getChild_updateChild_child (people.composed step content).node_nonempty
      database people.path (string (people.composed step content).time)
    unfold messages
    rw [stored, Node.childMap_ofChildMap]
    rfl

variable {people : Participants Client} {database final : Node Double}
  {events : List (SendStep Client Double)} {sent : List (Sent Double)}

theorem messages_run (run : Runs (computes people.send) database events final sent) :
    people.messages final = applyWrites (people.messages database) (sent.map written) := by
  have logged := run.logged
    (fun state log => people.messages state = applyWrites (people.messages database) (log.map written))
    (fun state step next emitted log _ holds taken => by
      rw [messages_send taken, holds, List.map_append, applyWrites_append]) [] rfl
  simpa using logged

def readings (events : List (SendStep Client Double)) : List ℤ :=
  events.filterMap fun step => step.messTF.map fun _ => step.reading

theorem sent_eq (run : Runs (computes people.send) database events final sent) :
    sent = events.flatMap people.emits :=
  run.outputs_eq people.emits fun _ _ _ _ taken => send_emits taken

theorem keys_sent (run : Runs (computes people.send) database events final sent) :
    sent.map Prod.fst = (readings events).map toString := by
  have range := run.events_forall (fun step => step.messTF ≠ none → InInt64 step.reading)
    fun _ step _ _ taken content => by
      rcases send_cases taken with ⟨field, -, -⟩ | ⟨-, -, range, -, -⟩
      · exact absurd field content
      · exact range
  rw [sent_eq run]
  -- Both sides are now about the events alone.
  clear run
  induction events with
  | nil => rfl
  | cons step rest ih =>
    obtain ⟨first, others⟩ := List.forall_mem_cons.mp range
    rw [List.flatMap_cons, List.map_append, ih others]
    unfold readings emits
    cases field : step.messTF with
    | none => simp [field]
    | some content =>
      have key := string_of_range (first (by simp [field]))
      simp [field, composed, key]

/-- No two sends of the run read the same millisecond, and none reads one already used. -/
def FreshReadings (people : Participants Client) (database : Node Double)
    (events : List (SendStep Client Double)) : Prop :=
  (readings events).Nodup ∧ ∀ t ∈ readings events, toString t ∉ people.messages database

/-- Every dictionary sent is in the node, which has gained one entry for each send. -/
structure EverySendKept (people : Participants Client) (database final : Node Double)
    (sent : List (Sent Double)) : Prop where
  present : ∀ one ∈ sent, ∃ key node,
    (people.messages final).lookup key = some node ∧ nodeFrom (.ofDict one.2) = .ok node
  gained : (people.messages final).size = (people.messages database).size + sent.length

theorem fresh_written_iff (run : Runs (computes people.send) database events final sent) :
    Fresh (people.messages database) (sent.map written) ↔ FreshReadings people database events := by
  unfold Fresh FreshReadings
  rw [map_fst_written, keys_sent run, List.nodup_map_iff toString_int_injective,
    List.forall_mem_map]

theorem nodeFrom_sent (run : Runs (computes people.send) database events final sent) :
    ∀ one ∈ sent, nodeFrom (.ofDict one.2) = .ok (written one).2 := by
  apply run.outputs_forall
  intro _ step _ emitted _ taken one member
  rcases send_cases taken with ⟨-, -, rfl⟩ | ⟨content, -, -, -, rfl⟩
  · cases member
  · obtain rfl := List.mem_singleton.mp member
    rfl

theorem every_send_kept_iff (run : Runs (computes people.send) database events final sent) :
    EverySendKept people database final sent ↔ FreshReadings people database events := by
  rw [← fresh_written_iff run]
  have reached := messages_run run
  constructor
  · intro kept
    have gained := kept.gained
    rw [reached, ← List.length_map written] at gained
    exact (size_applyWrites_iff _ _).mp gained
  · intro fresh
    constructor
    · intro one member
      have found := lookup_applyWrites_of_fresh fresh (List.mem_map_of_mem member)
      exact ⟨_, _, by rw [reached]; exact found, nodeFrom_sent run one member⟩
    · rw [reached, (size_applyWrites_iff _ _).mpr fresh, List.length_map]

theorem run_of_range (people : Participants Client) (database : Node Double)
    (events : List (SendStep Client Double)) (range : ∀ step ∈ events, InInt64 step.reading) :
    ∃ final sent, Runs (computes people.send) database events final sent := by
  obtain ⟨final, sent, run, -⟩ := Runs.complete (fun _ : Node Double => True) events
    (fun database step member _ => by
      obtain ⟨next, emitted, taken⟩ := people.send_of_range database (range step member)
      exact ⟨next, emitted, taken, trivial⟩) database trivial
  exact ⟨final, sent, run⟩

end Participants

end Sending

namespace Participants

def pair : Participants Bool where
  chatID := "c1"
  path := ["Chat", "c1", "messages"]
  found := by decide
  screen first := { chat := some { id := some "c1" }, uID := if first then "u1" else "u2" }
  opened _ := ⟨_, rfl, rfl⟩

def ClocksAdvance (events : List (SendStep Bool ℚ)) : Prop :=
  ∀ client, (events.filter fun step => step.client = client).Pairwise
    fun earlier later => earlier.reading < later.reading

def twoSends (first second : ℤ) : List (SendStep Bool ℚ) :=
  [⟨true, some "Hi", ⟨first⟩⟩, ⟨false, some "Hello", ⟨second⟩⟩]

theorem reading_whole (client : Bool) (messTF : Option String) (seconds : ℤ) :
    (SendStep.mk client messTF ⟨(seconds : ℚ)⟩).reading = seconds * 1000 :=
  ChatViewController.truncated_toMillis seconds

theorem readings_twoSends (first second : ℤ) :
    readings (twoSends first second) = [first * 1000, second * 1000] := by
  simp [readings, twoSends, reading_whole]

theorem run_twoSends {first second : ℤ} (early : InInt64 (first * 1000))
    (late : InInt64 (second * 1000)) :
    ∃ final sent, Runs (computes pair.send) (.empty : Node ℚ) (twoSends first second) final sent := by
  apply run_of_range
  simp only [twoSends, List.forall_mem_cons, reading_whole]
  exact ⟨early, late, by simp⟩

theorem every_send_kept_apart : ∃ final sent,
    Runs (computes pair.send) (.empty : Node ℚ) (twoSends 1541650000 1541650001) final sent ∧
      EverySendKept pair .empty final sent := by
  obtain ⟨final, sent, run⟩ := run_twoSends (by decide : InInt64 (1541650000 * 1000))
    (by decide : InInt64 (1541650001 * 1000))
  have fresh : FreshReadings pair (.empty : Node ℚ) (twoSends 1541650000 1541650001) := by
    unfold FreshReadings
    rw [readings_twoSends]
    exact ⟨by decide, fun t _ member => by cases member⟩
  exact ⟨final, sent, run, (every_send_kept_iff run).mpr fresh⟩

theorem message_lost : ∃ final sent,
    Runs (computes pair.send) (.empty : Node ℚ) (twoSends 1541650000 1541650000) final sent ∧
      ClocksAdvance (twoSends 1541650000 1541650000) ∧ ¬ EverySendKept pair .empty final sent := by
  obtain ⟨final, sent, run⟩ := run_twoSends (by decide : InInt64 (1541650000 * 1000))
    (by decide : InInt64 (1541650000 * 1000))
  refine ⟨final, sent, run, ?_, fun kept => ?_⟩
  · intro client
    cases client <;> simp [twoSends]
  · have gained := kept.gained
    rw [messages_run run, ← List.length_map written] at gained
    have distinct := ((size_applyWrites_iff _ _).mp gained).1
    rw [map_fst_written, keys_sent run, readings_twoSends] at distinct
    exact absurd distinct (by decide)

end Participants

end ProjectF02
