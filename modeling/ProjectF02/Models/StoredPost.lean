import ProjectF02.Models.Post

/-! What the database keeps of a post, and what is read back of it. -/

set_option autoImplicit false

namespace ProjectF02
open Swift Firebase

variable {Double : Type}

def Swift.Comment.node (comment : Comment Double) : Node Double :=
  .children [⟨"content", .leaf (.string comment.content)⟩,
    ⟨"commentID", .leaf (.number (.double comment.commentID))⟩,
    ⟨"uid", .leaf (.string comment.uid)⟩]

theorem nodeFrom_comment (comment : Comment Double) :
    nodeFrom (.ofDict comment.toDict) = .ok comment.node := rfl

namespace Post

theorem toDict_named [NSScanner] (post : Post Double) : Named post.toDict := by
  unfold toDict
  exact (((((((Named.empty.set (by decide) _).set (by decide) _).set (by decide) _).set
    (by decide) _).set (by decide) _).set (by decide) _).set (by decide) _).set (by decide) _

def likeNode (numbered : String × Nat) : Sigma fun _ : String => Node Double :=
  ⟨toString numbered.2, .leaf (.string numbered.1)⟩

theorem nodesFromDict_likeEntries (likes : List (String × Nat)) :
    nodesFromDict (likes.map (@likeEntry Double)) = .ok (likes.map likeNode) := by
  induction likes with
  | nil => rfl
  | cons like likes ih =>
    rw [List.map_cons, likeEntry, nodesFromDict, ih]
    rfl

theorem valEntries_likeNodes [NSScanner] (likes : List (String × Nat)) :
    Node.valEntries (likes.map (@likeNode Double)) = likes.map likeEntry := by
  rw [valEntries_eq_map, List.map_map]
  rfl

theorem nodeFrom_likeListToDict (like : List String) :
    nodeFrom (.ofDict (likeListToDict like : Dict Double)) =
      .ok (.children (like.zipIdx.reverse.map likeNode)) := by
  rw [Value.ofDict, entries_likeListToDict, ← List.map_reverse, nodeFrom, nodesFromDict_likeEntries]
  rfl

theorem nodesFromArray_commentListToDict (comment : List (Comment Double)) (index : Nat) :
    ∃ children, nodesFromArray index (commentListToDict comment) = .ok children ∧
      (children = [] ↔ comment = []) := by
  induction comment generalizing index with
  | nil => exact ⟨[], rfl, by simp⟩
  | cons value rest ih =>
    obtain ⟨children, stored, -⟩ := ih (index + 1)
    have tail : nodesFromArray (index + 1) (rest.map fun value => .ofDict value.toDict) =
        .ok children := stored
    refine ⟨⟨toString index, value.node⟩ :: children, ?_, by simp⟩
    rw [commentListToDict, List.map_cons, nodesFromArray, nodeFrom_comment, tail]
    rfl

theorem toDict_storable (post : Post Double) : Storable post.toDict := by
  have comments : ∃ node, nodeFrom (Value.array (commentListToDict post.comment)) = .ok node := by
    obtain ⟨children, stored, -⟩ := nodesFromArray_commentListToDict post.comment 0
    exact ⟨.children children, by rw [nodeFrom, stored]; rfl⟩
  unfold toDict
  apply Storable.setField _ "time" fun _ => ⟨_, rfl⟩
  apply Storable.setSome _ "comment" comments
  apply Storable.setSome _ "like" ⟨_, nodeFrom_likeListToDict post.like⟩
  apply Storable.setField _ "contentText" fun _ => ⟨_, rfl⟩
  apply Storable.setField _ "imageLink" fun _ => ⟨_, rfl⟩
  apply Storable.setField _ "postid" fun _ => ⟨_, rfl⟩
  apply Storable.setField _ "uid" fun _ => ⟨_, rfl⟩
  apply Storable.setField _ "fullName" fun _ => ⟨_, rfl⟩
  exact Storable.empty

/-- Some field of the post is stored: without one, `setValue` stores nothing. -/
def Stored (post : Post Double) : Prop :=
  post.fullName.isSome ∨ post.uid.isSome ∨ post.postid.isSome ∨ post.imageLink.isSome ∨
    post.contentText.isSome ∨ post.time.isSome ∨ post.like ≠ [] ∨ post.comment ≠ []

theorem storedNode_likeListToDict (like : List String) :
    storedNode (.ofDict (likeListToDict like : Dict Double)) = none ↔ like = [] := by
  rw [storedNode, nodeFrom_likeListToDict]
  cases like <;> simp [Node.isEmpty]

theorem storedNode_commentListToDict (comment : List (Comment Double)) :
    storedNode (.array (commentListToDict comment)) = none ↔ comment = [] := by
  obtain ⟨children, stored, blank⟩ := nodesFromArray_commentListToDict comment 0
  have whole : nodeFrom (.array (commentListToDict comment)) = .ok (.children children) := by
    rw [nodeFrom, stored]
    rfl
  simp [storedNode, whole, blank]

/-- Likes numbered from zero come back as an array. -/
theorem readBack_likeListToDict [NSScanner] {like : List String} (present : like ≠ []) :
    ∃ items, readBack (.ofDict (likeListToDict like : Dict Double)) = some (.array items) := by
  have listed : like.zipIdx.reverse.map (@likeEntry Double) ≠ [] := by simpa using present
  have dense : ∀ key ∈ (like.zipIdx.reverse.map (@likeEntry Double)).keys,
      ∃ index, integerKey key = some index ∧
        index < 2 * (like.zipIdx.reverse.map (@likeEntry Double)).length := by
    intro key member
    obtain ⟨entry, found, rfl⟩ := List.mem_map.mp member
    obtain ⟨numbered, counted, rfl⟩ := List.mem_map.mp found
    have below := List.snd_lt_of_mem_zipIdx (List.mem_reverse.mp counted)
    refine ⟨_, integerKey_natural numbered.2, ?_⟩
    simp only [List.length_map, List.length_reverse, List.length_zipIdx]
    omega
  obtain ⟨items, exported⟩ := exportChildren_array listed dense
  refine ⟨items, ?_⟩
  have kept : (like.zipIdx.reverse.map (@likeNode Double)) ≠ [] := by simpa using present
  simp [readBack, storedNode, nodeFrom_likeListToDict, present, Node.val, valEntries_likeNodes,
    ← exported, -List.map_reverse]

theorem isEmpty_toDict_iff {post : Post Double} {node : Node Double}
    (stored : nodeFrom (.ofDict post.toDict) = .ok node) : node.isEmpty = true ↔ ¬ post.Stored := by
  rw [isEmpty_nodeFrom_ofDict stored]
  simp only [Stored, not_or, Bool.not_eq_true, Option.isSome_eq_false_iff, Option.isNone_iff_eq_none,
    ne_eq, not_not]
  have unset {Val : Type} (make : Val → Value Double) (scalar : ∀ v, (storedNode (make v)).isSome = true)
      {field : Option Val} (absent : (field.map make).bind storedNode = none) : field = none := by
    cases field with
    | none => rfl
    | some v => exact absurd absent (Option.isSome_iff_ne_none.mp (scalar v))
  constructor
  · intro absent
    refine ⟨?_, ?_, ?_, ?_, ?_, ?_, ?_, ?_⟩
    · exact unset .string (fun _ => rfl) (by simpa [toDict] using absent "fullName")
    · exact unset .string (fun _ => rfl) (by simpa [toDict] using absent "uid")
    · exact unset .string (fun _ => rfl) (by simpa [toDict] using absent "postid")
    · exact unset .int (fun _ => rfl) (by simpa [toDict] using absent "imageLink")
    · exact unset .string (fun _ => rfl) (by simpa [toDict] using absent "contentText")
    · exact unset .double (fun _ => rfl) (by simpa [toDict] using absent "time")
    · exact (storedNode_likeListToDict post.like).mp (by simpa [toDict] using absent "like")
    · exact (storedNode_commentListToDict post.comment).mp (by simpa [toDict] using absent "comment")
  · rintro ⟨fullName, uid, postid, imageLink, contentText, time, likes, comments⟩ key
    have like := (@storedNode_likeListToDict Double post.like).mpr likes
    have comment := (storedNode_commentListToDict post.comment).mpr comments
    simp only [toDict, Dict.lookup_set, fullName, uid, postid, imageLink, contentText, time]
    split_ifs <;> simp [like, comment]

def node (post : Post Double) : Node Double := (storedNode (.ofDict post.toDict)).getD .empty

theorem nodeFrom_toDict (post : Post Double) : nodeFrom (.ofDict post.toDict) = .ok post.node := by
  obtain ⟨stored, accepted⟩ := post.toDict_storable.nodeFrom
  unfold node storedNode
  rw [accepted]
  cases blank : stored.isEmpty with
  | false => simp [blank]
  | true =>
    rw [Node.eq_empty_of_isEmpty blank]
    rfl

theorem node_nonempty {post : Post Double} (present : post.Stored) : post.node.isEmpty = false := by
  have blank := isEmpty_toDict_iff post.nodeFrom_toDict
  simpa [present] using blank

section Profile
variable [Ring Double] [LinearOrder Double] [FloorRing Double]

/-- The body of the loop in `getPost`: `as! [String: Any]`, then `init(_:)`. -/
def ofSnapshot (order : Enumeration (Value Double)) (value : Value Double) :
    Except Trap (Post Double) :=
  match value.asDict with
  | some data => .ok (init order data)
  | none => .error .forceCast

/-- A post of which nothing is stored has no value the profile screen could cast. -/
theorem ofSnapshot_node_of_not_stored [NSScanner] (order : Enumeration (Value Double)) {post : Post Double}
    (absent : ¬ post.Stored) : ofSnapshot order post.node.val = .error .forceCast := by
  have blank := (isEmpty_toDict_iff post.nodeFrom_toDict).mpr absent
  rw [Node.eq_empty_of_isEmpty blank]
  rfl

theorem ofSnapshot_node [NSScanner] (order : Enumeration (Value Double)) {post : Post Double}
    (present : post.Stored) :
    ∃ data, ofSnapshot order post.node.val = .ok (init order data) ∧
      ∀ key, data.lookup key = (post.toDict.lookup key).bind readBack := by
  obtain ⟨data, decoded, fields⟩ :=
    asDict_val_of_named post.toDict_named post.nodeFrom_toDict (node_nonempty present)
  exact ⟨data, by rw [ofSnapshot, decoded], fields⟩

theorem sameScalars_ofSnapshot [NSScanner] (order : Enumeration (Value Double)) {post read : Post Double}
    (decoded : ofSnapshot order post.node.val = .ok read) : SameScalars read post := by
  by_cases present : post.Stored
  · obtain ⟨data, same, fields⟩ := ofSnapshot_node order present
    obtain rfl := Except.ok.inj (same.symm.trans decoded)
    have text (field : Option String) :
        ((field.map (@Value.string Double)).bind readBack).bind Value.asString = field := by
      cases field <;> rfl
    have int (field : Option Int64) :
        ((field.map (@Value.int Double)).bind readBack).bind Value.asInt = field := by
      cases field <;> rfl
    have double (field : Option Double) :
        ((field.map Value.double).bind readBack).bind Value.asDouble = field := by
      cases field <;> rfl
    constructor <;> simp only [init, fields, toDict, Dict.lookup_set] <;>
      simp only [String.reduceEq, if_true, if_false]
    · exact text _
    · exact text _
    · exact text _
    · exact int _
    · exact text _
    · exact double _
  · rw [ofSnapshot_node_of_not_stored order present] at decoded
    cases decoded

end Profile

end Post

end ProjectF02
