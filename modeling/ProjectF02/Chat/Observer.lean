import ProjectF02.Chat.Conversation

/-! What the observers of a chat compute from its messages node.

In every node the sends can reach, an entry is filed under its own time. The
keys of a dictionary therefore order its messages without ties, and neither the
order of the keys nor the sorting routine shows in the list.
-/

set_option autoImplicit false

namespace ProjectF02
open Swift Firebase Transition Store Sorting

variable {Double Client : Type}

theorem integerKey_string_of_neg [NSScanner] {time : Int64} (negative : time.toInt < 0) :
    integerKey (string time) = none := integerKey_negative negative

theorem integerKey_string_of_nonneg [NSScanner] {time : Int64} (nonneg : 0 ≤ time.toInt) :
    integerKey (string time) = some time.toInt.toNat := by
  obtain ⟨index, same⟩ := Int.eq_ofNat_of_zero_le nonneg
  have small := time.toInt_lt
  have natural := integerKey_natural index
  unfold string
  rw [same] at small ⊢
  have bounded : min index (2 ^ 63 - 1) = index := by omega
  rw [bounded] at natural
  exact natural

namespace Participants

/-- Some time is no index, or too large an index for the number of messages: then, and only
then, the database hands the node out as a dictionary. -/
def DeliveredAsDict (people : Participants Client) (database : Node Double) : Prop :=
  ∃ time : Int64, string time ∈ people.messages database ∧
    (time.toInt < 0 ∨ 2 * (people.messages database).size ≤ time.toInt)

theorem val_delivered [NSScanner] {people : Participants Client} {final : Node Double}
    (whole : final.getChild people.path = .ofChildMap (people.messages final))
    (delivered : people.DeliveredAsDict final) :
    (final.getChild people.path).val = .ofDict (valMap (people.messages final)) := by
  obtain ⟨time, member, sparse⟩ := delivered
  rw [whole]
  apply val_dict (AList.mem_keys.mp member)
  intro index read
  -- A sign is no digit, and a large key leaves too many holes.
  rcases sparse with negative | large
  · rw [integerKey_string_of_neg negative] at read
    cases read
  · have nonneg : 0 ≤ time.toInt := by omega
    rw [integerKey_string_of_nonneg nonneg, Option.some.injEq] at read
    omega

theorem asDict_undelivered [NSScanner] {people : Participants Client} {final : Node Double}
    (whole : final.getChild people.path = .ofChildMap (people.messages final))
    (times : ∀ key ∈ (people.messages final).keys, ∃ time : Int64, string time = key)
    (undelivered : ¬ people.DeliveredAsDict final) :
    (final.getChild people.path).val.asDict = none := by
  rw [whole]
  by_cases blank : (people.messages final).keys = []
  · have empty : people.messages final = ∅ := by
      apply AList.ext
      exact List.map_eq_nil_iff.mp blank
    rw [empty]
    rfl
  · have dense : ∀ key ∈ (people.messages final).keys,
        ∃ index, integerKey key = some index ∧ index < 2 * (people.messages final).size := by
      intro key member
      obtain ⟨time, rfl⟩ := times key member
      have small : ¬ (time.toInt < 0 ∨ 2 * (people.messages final).size ≤ time.toInt) :=
        fun sparse => undelivered ⟨time, AList.mem_keys.mpr member, sparse⟩
      have nonneg : 0 ≤ time.toInt := by omega
      exact ⟨_, integerKey_string_of_nonneg nonneg, by omega⟩
    obtain ⟨items, exported⟩ := val_array blank dense
    rw [exported]
    rfl

variable [Ring Double] [LinearOrder Double] [FloorRing Double]

/-! ## Reachable nodes -/

/-- An entry of the node is the dictionary of a message filed under its own time, the last
one written there. -/
structure FiledByTime (sent : List (Sent Double)) (key : String) (node : Node Double)
    (message : Message) : Prop where
  stored : nodeFrom (.ofDict message.toDict) = .ok node
  filed : string message.time = key
  last : lastWrite key sent = some message.toDict

variable {people : Participants Client} {database final : Node Double}
  {events : List (SendStep Client Double)} {sent : List (Sent Double)}

omit [Ring Double] [LinearOrder Double] [FloorRing Double] in
theorem messages_of_empty (empty : database.getChild people.path = .empty) :
    people.messages database = ∅ := by
  unfold messages
  rw [empty]
  rfl

theorem sent_message (run : Runs (computes people.send) database events final sent) :
    ∀ one ∈ sent, ∃ message : Message, one = (string message.time, message.toDict) := by
  apply run.outputs_forall
  intro _ step _ emitted _ taken one member
  rcases send_cases taken with ⟨-, -, rfl⟩ | ⟨content, -, -, -, rfl⟩
  · cases member
  · exact ⟨people.composed step content, List.mem_singleton.mp member⟩

theorem filed_by_time (empty : database.getChild people.path = .empty)
    (run : Runs (computes people.send) database events final sent) {key : String} {node : Node Double}
    (found : (people.messages final).lookup key = some node) :
    ∃ message, FiledByTime sent key node message := by
  rw [messages_run run, messages_of_empty empty, lookup_applyWrites, AList.lookup_empty,
    Option.or_none] at found
  have converted := lastWrite_map (fun dict : Dict Double => (storedNode (.ofDict dict)).getD .empty) key sent
  rw [show lastWrite key (sent.map written) = _ from converted, Option.map_eq_some_iff] at found
  obtain ⟨dict, last, stored⟩ := found
  obtain ⟨message, same⟩ := sent_message run _ (lastWrite_mem last)
  obtain ⟨rfl, rfl⟩ := Prod.mk.inj same
  exact ⟨message, by rw [Message.nodeFrom_toDict, ← stored]; rfl, rfl, last⟩

theorem getChild_final (empty : database.getChild people.path = .empty)
    (run : Runs (computes people.send) database events final sent) :
    final.getChild people.path = .ofChildMap (people.messages final) := by
  apply run.invariant (fun state => state.getChild people.path = .ofChildMap (people.messages state))
  · intro state step next emitted _ holds taken
    rcases send_cases taken with ⟨-, rfl, -⟩ | ⟨content, -, -, rfl, -⟩
    · exact holds
    · unfold messages
      rw [Node.getChild_updateChild_child (people.composed step content).node_nonempty,
        Node.childMap_ofChildMap]
  · rw [messages_of_empty empty]
    exact empty

/-- The list shows each entry of the node once, as it was last written, in the order of time. -/
structure Shows (messages : Children Double) (sent : List (Sent Double)) (list : List Message) :
    Prop where
  increasing : list.Pairwise fun earlier later => earlier.time < later.time
  once : (list.map fun message => string message.time).Perm messages.keys
  last : ∀ message ∈ list, lastWrite (string message.time) sent = some message.toDict

def messageAt [NSScanner] (messages : Children Double) (key : String) : Option Message :=
  (((valMap messages).lookup key).bind Value.asDict).map Message.init

def listed [NSScanner] (order : Enumeration (Value Double)) (messages : Children Double) : List Message :=
  ((order.keys (valMap messages)).map (messageAt messages)).reduceOption

omit [Ring Double] [LinearOrder Double] [FloorRing Double] in
theorem mem_keys_valMap [NSScanner] (order : Enumeration (Value Double)) {messages : Children Double}
    {key : String} :
    key ∈ order.keys (valMap messages) ↔ key ∈ messages.keys := by
  rw [(order.keys_perm _).mem_iff, keys_valMap]

section Filed
variable {messages : Children Double}
  (filed : ∀ key node, messages.lookup key = some node → ∃ message, FiledByTime sent key node message)
include filed

theorem messageAt_filed [NSScanner] {key : String} (member : key ∈ messages.keys) :
    ∃ message, messageAt messages key = some message ∧ string message.time = key ∧
      lastWrite key sent = some message.toDict := by
  obtain ⟨node, found⟩ := Option.isSome_iff_exists.mp (AList.lookup_isSome.mpr (AList.mem_keys.mpr member))
  obtain ⟨message, entry⟩ := filed key node found
  have same : message.node = node := Except.ok.inj (message.nodeFrom_toDict.symm.trans entry.stored)
  obtain ⟨read, decoded, kept⟩ := @Message.init_val_node Double _ _ _ _ message
  refine ⟨message, ?_, entry.filed, entry.last⟩
  unfold messageAt
  rw [lookup_valMap, found, ← same, Option.map_some, Option.bind_some, decoded, Option.map_some, kept]

theorem keys_listed [NSScanner] (order : Enumeration (Value Double)) :
    (listed order messages).map (fun message => string message.time) = order.keys (valMap messages) := by
  apply map_name_reduceOption
  intro key member
  obtain ⟨message, found, same, -⟩ := messageAt_filed filed ((mem_keys_valMap order).mp member)
  exact ⟨message, found, same⟩

theorem nodup_times_listed [NSScanner] (order : Enumeration (Value Double)) :
    ((listed order messages).map Message.time).Nodup := by
  apply List.Nodup.of_map string
  rw [List.map_map]
  exact (keys_listed filed order).symm ▸ (order.keys_perm _).nodup_iff.mpr (valMap messages).keys_nodup

theorem observed_eq [NSScanner] (order : Enumeration (Value Double)) (routine : Routine Message) :
    ChatViewController.observed order routine (.ofDict (valMap messages)) =
      some (Routine.merge.sorted (fun a b => a.time < b.time) (listed .stored messages)) := by
  rw [ChatViewController.observed_of_dict order routine (Value.asDict_ofDict _)]
  apply congrArg some
  -- Without ties the result is the same for any two routines and any two orders of the keys.
  exact Routine.sorted_eq_of_perm (nodup_times_listed filed order)
    (Message.listed_perm (valMap messages) order .stored) _ _

theorem shows_sorted [NSScanner] (routine : Routine Message) :
    Shows messages sent (routine.sorted (fun a b => a.time < b.time) (listed .stored messages)) := by
  constructor
  · exact routine.strictly_increasing (nodup_times_listed filed .stored)
  · have names := (routine.perm (fun a b => decide (Message.time a < Message.time b))
      (listed .stored messages)).map fun message => string message.time
    rw [keys_listed filed] at names
    exact names.trans (keys_valMap messages ▸ Enumeration.stored.keys_perm _)
  · intro message member
    have found := (routine.perm _ _).mem_iff.mp member
    unfold listed at found
    rw [List.reduceOption_mem_iff] at found
    obtain ⟨key, listed, read⟩ := List.mem_map.mp found
    obtain ⟨other, present, named, last⟩ := messageAt_filed filed ((mem_keys_valMap .stored).mp listed)
    obtain rfl := Option.some.inj (present.symm.trans read)
    rw [named]
    exact last

theorem observed_filed [NSScanner] :
    ∃ list, Shows messages sent list ∧ ∀ order routine,
      ChatViewController.observed order routine (.ofDict (valMap messages)) = some list :=
  ⟨_, shows_sorted filed .merge, observed_eq filed⟩

end Filed

/-- In every node the sends reach from an empty one, entries are filed by time. Whenever the node
is handed out as a dictionary, all observers compute the one list that shows it; otherwise
their guard returns. -/
theorem same_conversation [NSScanner] {people : Participants Client} {database final : Node Double}
    {events : List (SendStep Client Double)} {sent : List (Sent Double)}
    (empty : database.getChild people.path = .empty)
    (run : Runs (computes people.send) database events final sent) :
    (∀ key node, (people.messages final).lookup key = some node →
      ∃ message, FiledByTime sent key node message) ∧
    (people.DeliveredAsDict final → ∃ list, Shows (people.messages final) sent list ∧
      ∀ order routine, ChatViewController.observed order routine (final.getChild people.path).val =
        some list) ∧
    (¬ people.DeliveredAsDict final → ∀ order routine,
      ChatViewController.observed order routine (final.getChild people.path).val = none) := by
  have filed : ∀ key node, (people.messages final).lookup key = some node →
      ∃ message, FiledByTime sent key node message := fun _ _ => filed_by_time empty run
  have whole := getChild_final empty run
  refine ⟨filed, ?_, ?_⟩
  · intro delivered
    rw [val_delivered whole delivered]
    exact observed_filed filed
  · intro undelivered order routine
    have times : ∀ key ∈ (people.messages final).keys, ∃ time : Int64, string time = key := by
      intro key member
      obtain ⟨node, found⟩ :=
        Option.isSome_iff_exists.mp (AList.lookup_isSome.mpr (AList.mem_keys.mpr member))
      obtain ⟨message, entry⟩ := filed key node found
      exact ⟨message.time, entry.filed⟩
    unfold ChatViewController.observed
    rw [asDict_undelivered whole times undelivered]

theorem delivered_of_reading (empty : database.getChild people.path = .empty)
    (run : Runs (computes people.send) database events final sent) {t : ℤ} (read : t ∈ readings events)
    (away : t < 0 ∨ 2 * (readings events).length ≤ t) : people.DeliveredAsDict final := by
  have keys := keys_sent run
  have key : toString t ∈ sent.map Prod.fst := keys ▸ List.mem_map_of_mem read
  obtain ⟨one, member, same⟩ := List.mem_map.mp key
  obtain ⟨message, rfl⟩ := sent_message run one member
  have exact_time : message.time.toInt = t := toString_int_injective same
  refine ⟨message.time, ?_, ?_⟩
  · rw [messages_run run, mem_applyWrites, map_fst_written]
    exact .inr (List.mem_map_of_mem member)
  · have bound := size_applyWrites_le (people.messages database) (sent.map written)
    have counted := congrArg List.length keys
    rw [List.length_map, List.length_map] at counted
    rw [← messages_run run, messages_of_empty empty, List.length_map] at bound
    have none : Map.size (∅ : Children Double) = 0 := rfl
    omega

theorem same_conversation_apart : ∃ final sent,
    Runs (computes pair.send) (.empty : Node ℚ) (twoSends 1541650000 1541650001) final sent ∧
      ∃ list, Shows (pair.messages final) sent list ∧ ∀ order routine,
        ChatViewController.observed order routine (final.getChild pair.path).val = some list := by
  obtain ⟨final, sent, run⟩ := run_twoSends (by decide : InInt64 (1541650000 * 1000))
    (by decide : InInt64 (1541650001 * 1000))
  have delivered : pair.DeliveredAsDict final := by
    apply delivered_of_reading rfl run (t := 1541650000 * 1000) <;> rw [readings_twoSends] <;> decide
  exact ⟨final, sent, run, (same_conversation rfl run).2.1 delivered⟩

/-- The clock at zero: the node `{"0": …}` is handed out as an array, which no observer reads. -/
theorem message_not_shown : ∃ final sent,
    Runs (computes pair.send) (.empty : Node ℚ) [⟨true, some "Hi", ⟨(0 : ℤ)⟩⟩] final sent ∧
      ∀ order routine,
        ChatViewController.observed order routine (final.getChild pair.path).val = none := by
  obtain ⟨final, sent, run⟩ := pair.run_of_range (.empty : Node ℚ) [⟨true, some "Hi", ⟨(0 : ℤ)⟩⟩]
    (by simp only [List.forall_mem_cons, reading_whole]; decide)
  refine ⟨final, sent, run, fun order routine => ?_⟩
  have written_zero := sent_eq run
  simp only [List.flatMap_cons, List.flatMap_nil, List.append_nil, emits, composed, reading_whole]
    at written_zero
  have whole := getChild_final rfl run
  rw [messages_run run, written_zero] at whole
  rw [whole]
  rfl

end Participants

end ProjectF02
