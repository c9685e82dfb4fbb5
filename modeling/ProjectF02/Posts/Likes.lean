import ProjectF02.Models.StoredPost
import ProjectF02.Firebase.Path

/-! The likes of a post after a stay in the database.

`toDict` numbers the likes from zero, and the database hands a map of such keys
back as an array, which the decoder of the profile screen does not accept.
-/

set_option autoImplicit false

namespace ProjectF02
open Swift Firebase

variable {Double : Type}

namespace Post

section Profile
variable [Ring Double] [LinearOrder Double] [FloorRing Double]

/-- Storing a post at a path of the database and decoding what is read there. -/
def storeAndRead [NSScanner] (order : Enumeration (Value Double)) (database : Node Double) (path : FPath)
    (post : Post Double) : Except Trap (Post Double) := do
  let database ← setValue database path (.ofDict post.toDict)
  ofSnapshot order (database.getChild path).val

/-- What `PostTableViewCell.fillData` writes under a post. -/
def likenumberLabel (post : Post Double) : String := toString post.like.length ++ " lượt thích"

omit [Ring Double] [LinearOrder Double] [FloorRing Double] in
theorem likenumberLabel_eq_iff (post : Post Double) (n : Nat) :
    post.likenumberLabel = toString n ++ " lượt thích" ↔ post.like.length = n := by
  unfold likenumberLabel
  constructor
  · intro same
    exact toString_nat_injective ((String.append_left_inj _).mp same)
  · intro same
    rw [same]

theorem like_init_of_stored [NSScanner] (order : Enumeration (Value Double)) {post : Post Double}
    {data : Dict Double} (fields : ∀ key, data.lookup key = (post.toDict.lookup key).bind readBack) :
    (init order data).like = [] := by
  have read : data.lookup "like" = readBack (.ofDict (likeListToDict post.like)) := by
    simpa [toDict] using fields "like"
  by_cases absent : post.like = []
  · have dropped : data.lookup "like" = none := by
      rw [read, readBack, (storedNode_likeListToDict post.like).mpr absent]
      rfl
    simp [init, dropped]
  · obtain ⟨items, array⟩ := @readBack_likeListToDict Double _ _ absent
    simp [init, read.trans array, Value.asDict]

theorem storeAndRead_count_iff [NSScanner] (order : Enumeration (Value Double)) (database : Node Double)
    (path : FPath) (post : Post Double) :
    (∃ read, storeAndRead order database path post = .ok read ∧
        read.likenumberLabel = toString post.like.length ++ " lượt thích") ↔
      post.like = [] ∧ post.Stored := by
  have result : storeAndRead order database path post = ofSnapshot order post.node.val := by
    rw [storeAndRead, setValue, post.nodeFrom_toDict]
    exact congrArg (fun node => ofSnapshot order node.val) (Node.getChild_updateChild _ _ _)
  simp only [likenumberLabel_eq_iff, result]
  by_cases present : post.Stored
  · obtain ⟨data, decoded, fields⟩ := ofSnapshot_node order present
    rw [decoded]
    simp only [Except.ok.injEq, exists_eq_left', like_init_of_stored order fields, present, and_true,
      List.length_nil]
    exact eq_comm.trans List.length_eq_zero_iff
  · simp [ofSnapshot_node_of_not_stored order present, present]

theorem like_lost : ∃ read : Post ℚ,
    storeAndRead .stored .empty ["Post", "1541650000"] { uid := some "u1", like := ["u2"] } = .ok read ∧
      read.likenumberLabel = "0 lượt thích" :=
  ⟨{ uid := some "u1" }, rfl, rfl⟩

end Profile

end Post

end ProjectF02
