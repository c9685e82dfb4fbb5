import ProjectF02.Firebase.Snapshot

/-! `Message` and its dictionary form. -/

set_option autoImplicit false

namespace ProjectF02
open Swift Firebase

structure Message where
  content : String := ""
  isNew : Int64 := 0
  status : Int64 := 0
  time : Int64 := 0
  uID : String := ""
  deriving DecidableEq, Repr

variable {Double : Type}

namespace Message

def toDict (message : Message) : Dict Double :=
  (∅ : Dict Double)
    |>.set "content" (some (.string message.content))
    |>.set "isNew" (some (.int message.isNew))
    |>.set "status" (some (.int message.status))
    |>.set "time" (some (.int64 message.time))
    |>.set "uID" (some (.string message.uID))

section Decoding
variable [Ring Double] [LinearOrder Double] [FloorRing Double]

/-- `init(dict:)`: a missing or mistyped field keeps its default. -/
def init (dict : Dict Double) : Message where
  content := ((dict.lookup "content").bind Value.asString).getD ""
  isNew := ((dict.lookup "isNew").bind Value.asInt).getD 0
  status := ((dict.lookup "status").bind Value.asInt).getD 0
  time := ((dict.lookup "time").bind Value.asInt64).getD 0
  uID := ((dict.lookup "uID").bind Value.asString).getD ""

/-- The messages a decoder finds in a dictionary, in the order in which it goes over the keys;
an entry that is no dictionary is left out. -/
def listed (order : Enumeration (Value Double)) (messages : Dict Double) : List Message :=
  ((order.keys messages).map fun key =>
    ((messages.lookup key).bind Value.asDict).map init).reduceOption

theorem listed_perm (messages : Dict Double) (first second : Enumeration (Value Double)) :
    (listed first messages).Perm (listed second messages) := by
  apply List.Perm.filterMap
  apply List.Perm.map
  exact (first.keys_perm _).trans (second.keys_perm _).symm

def DistinctTimes (messages : Dict Double) : Prop := ((listed .stored messages).map time).Nodup

instance instDecidableDistinctTimes (messages : Dict Double) : Decidable (DistinctTimes messages) :=
  inferInstanceAs (Decidable (List.Nodup _))

omit [Ring Double] [LinearOrder Double] [FloorRing Double] in
def Entries (messages : Dict Double) : Prop :=
  ∀ key ∈ messages.keys, ((messages.lookup key).bind Value.asDict).isSome

omit [Ring Double] [LinearOrder Double] [FloorRing Double] in
instance instDecidableEntries (messages : Dict Double) : Decidable (Entries messages) :=
  inferInstanceAs (Decidable (∀ key ∈ messages.keys, ((messages.lookup key).bind Value.asDict).isSome = true))

theorem length_listed (order : Enumeration (Value Double)) {messages : Dict Double}
    (entries : Entries messages) : (listed order messages).length = messages.keys.length := by
  rw [← (order.keys_perm messages).length_eq, ← @List.length_map _ _ (order.keys messages)]
  apply List.reduceOption_length_eq_iff.mpr
  simp only [List.forall_mem_map, Option.isSome_map]
  exact fun key member => entries key ((order.keys_perm messages).mem_iff.mp member)

end Decoding

/-- The node `setValue` stores for the dictionary of a message. -/
def node (message : Message) : Node Double :=
  .children [⟨"uID", .leaf (.string message.uID)⟩,
    ⟨"time", .leaf (.number (.integer message.time))⟩,
    ⟨"status", .leaf (.number (.integer message.status))⟩,
    ⟨"isNew", .leaf (.number (.integer message.isNew))⟩,
    ⟨"content", .leaf (.string message.content)⟩]

theorem nodeFrom_toDict (message : Message) :
    nodeFrom (.ofDict message.toDict) = .ok (message.node : Node Double) := rfl

theorem node_nonempty (message : Message) : (message.node : Node Double).isEmpty = false := rfl

theorem toDict_named [NSScanner] (message : Message) : Named (message.toDict : Dict Double) := by
  unfold toDict
  exact ((((Named.empty.set (by decide) _).set (by decide) _).set (by decide) _).set (by decide) _).set
    (by decide) _

variable [Ring Double] [LinearOrder Double] [FloorRing Double]

theorem init_val_node [NSScanner] (message : Message) :
    ∃ read, (message.node : Node Double).val.asDict = some read ∧ init read = message := by
  obtain ⟨read, decoded, fields⟩ :=
    asDict_val_of_named message.toDict_named message.nodeFrom_toDict message.node_nonempty
  refine ⟨read, decoded, ?_⟩
  simp [init, fields, toDict, readBack, storedNode, nodeFrom, Node.isEmpty, Node.val, Value.asString, Value.asInt,
    Value.asInt64, NSNumber.int64Exactly]

end Message

end ProjectF02
