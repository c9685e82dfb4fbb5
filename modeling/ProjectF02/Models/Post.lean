import ProjectF02.Firebase.Snapshot
import ProjectF02.Swift.Decimal
import Mathlib.Data.List.ReduceOption
import Mathlib.Data.Rat.Floor

/-! `Post`, its comments and their dictionary forms.

Likes are written as a map from positions to user ids, comments as an array of
dictionaries; both are read with casts that leave out whatever does not match.
-/

set_option autoImplicit false

namespace ProjectF02
open Swift Firebase

variable {Double : Type}

def Swift.Comment.toDict (comment : Comment Double) : Dict Double :=
  (∅ : Dict Double)
    |>.set "uid" (some (.string comment.uid))
    |>.set "commentID" (some (.double comment.commentID))
    |>.set "content" (some (.string comment.content))

structure Post (Double : Type) where
  fullName : Option String := none
  uid : Option String := none
  postid : Option String := none
  imageLink : Option Int64 := none
  contentText : Option String := none
  like : List String := []
  comment : List (Comment Double) := []
  time : Option Double := none

namespace Post

/-- The loop over `like`: the dictionary built so far and the next position. -/
def addLike (progress : Dict Double × Nat) (value : String) : Dict Double × Nat :=
  (progress.1.set (toString progress.2) (some (.string value)), progress.2 + 1)

def likeListToDict (like : List String) : Dict Double := (like.foldl addLike (∅, 0)).1

def commentListToDict (comment : List (Comment Double)) : List (Value Double) :=
  comment.map fun value => .ofDict value.toDict

def toDict (post : Post Double) : Dict Double :=
  (∅ : Dict Double)
    |>.set "fullName" (post.fullName.map .string)
    |>.set "uid" (post.uid.map .string)
    |>.set "postid" (post.postid.map .string)
    |>.set "imageLink" (post.imageLink.map .int)
    |>.set "contentText" (post.contentText.map .string)
    |>.set "like" (some (.ofDict (likeListToDict post.like)))
    |>.set "comment" (some (.array (commentListToDict post.comment)))
    |>.set "time" (post.time.map .double)

section Decoding
variable [Ring Double] [LinearOrder Double] [FloorRing Double]

/-- `init(_:)`; `order` is the order in which `values` lists a dictionary. -/
def init (order : Enumeration (Value Double)) (dict : Dict Double) : Post Double where
  fullName := (dict.lookup "fullName").bind Value.asString
  uid := (dict.lookup "uid").bind Value.asString
  postid := (dict.lookup "postid").bind Value.asString
  imageLink := (dict.lookup "imageLink").bind Value.asInt
  contentText := (dict.lookup "contentText").bind Value.asString
  like := match (dict.lookup "like").bind Value.asDict with
    | some like => ((order.values like).map Value.asString).reduceOption
    | none => []
  comment := match (dict.lookup "comment").bind Value.asDict with
    | some comment => ((order.values comment).map Value.asComment).reduceOption
    | none => []
  time := (dict.lookup "time").bind Value.asDouble

end Decoding

def likeEntry (numbered : String × Nat) : Sigma fun _ : String => Value Double :=
  ⟨toString numbered.2, .string numbered.1⟩

theorem entries_foldl_addLike (like : List String) (dict : Dict Double) (id : Nat)
    (free : ∀ later, id ≤ later → toString later ∉ dict) :
    (like.foldl addLike (dict, id)).1.entries =
      ((like.zipIdx id).map likeEntry).reverse ++ dict.entries := by
  -- The induction carries that no later position is taken yet.
  induction like generalizing dict id with
  | nil => rfl
  | cons value rest ih =>
    have inserted : (dict.set (toString id) (some (.string value))).entries =
        likeEntry (value, id) :: dict.entries :=
      AList.entries_insert_of_notMem (free id le_rfl)
    have stillFree : ∀ later, id + 1 ≤ later →
        toString later ∉ dict.set (toString id) (some (.string value)) := by
      intro later after member
      rcases (AList.mem_insert dict).mp member with same | old
      · have := toString_nat_injective same
        omega
      · exact free later (by omega) old
    rw [List.foldl_cons, addLike, ih _ _ stillFree, inserted]
    simp

theorem entries_likeListToDict (like : List String) :
    (likeListToDict like : Dict Double).entries = (like.zipIdx.map likeEntry).reverse := by
  rw [likeListToDict, entries_foldl_addLike _ _ _ fun _ _ => AList.notMem_empty _, AList.empty_entries,
    List.append_nil]

theorem asString_values_likeListToDict (order : Enumeration (Value Double)) (like : List String) :
    (((order.values (likeListToDict like)).map Value.asString).reduceOption).Perm like := by
  have texts : ((likeListToDict like : Dict Double).entries.map fun entry => entry.2).map
      Value.asString = (like.map some).reverse := by
    rw [entries_likeListToDict, List.map_map, List.map_reverse, List.map_map]
    congr 1
    conv_rhs => rw [← List.zipIdx_map_fst 0 like, List.map_map]
    rfl
  have listed := ((order.values_perm (likeListToDict like)).map Value.asString).filterMap id
  rw [texts] at listed
  refine listed.trans ?_
  rw [← List.map_reverse, List.filterMap_map]
  simp only [Function.comp_def, id, List.filterMap_some]
  exact like.reverse_perm

section RoundTrip
variable [Ring Double] [LinearOrder Double] [FloorRing Double]

structure SameScalars (decoded post : Post Double) : Prop where
  fullName : decoded.fullName = post.fullName
  uid : decoded.uid = post.uid
  postid : decoded.postid = post.postid
  imageLink : decoded.imageLink = post.imageLink
  contentText : decoded.contentText = post.contentText
  time : decoded.time = post.time

/-- The same scalar fields, the same likes in some order and the same comments. -/
structure Agrees (decoded post : Post Double) : Prop extends SameScalars decoded post where
  like : decoded.like.Perm post.like
  comment : ∀ c, c ∈ decoded.comment ↔ c ∈ post.comment

/-- Comments are written as an array and read as a dictionary. -/
theorem comment_init_toDict (order : Enumeration (Value Double)) (post : Post Double) :
    (init order post.toDict).comment = [] := by
  simp [init, toDict, Value.asDict]

theorem agrees_init_toDict (order : Enumeration (Value Double)) (post : Post Double)
    (uncommented : post.comment = []) : Agrees (init order post.toDict) post where
  fullName := by simp [init, toDict, Option.bind_map, Function.comp_def, Value.asString]
  uid := by simp [init, toDict, Option.bind_map, Function.comp_def, Value.asString]
  postid := by simp [init, toDict, Option.bind_map, Function.comp_def, Value.asString]
  imageLink := by simp [init, toDict, Option.bind_map, Function.comp_def, Value.asInt]
  contentText := by simp [init, toDict, Option.bind_map, Function.comp_def, Value.asString]
  time := by simp [init, toDict, Option.bind_map, Function.comp_def, Value.asDouble]
  like := by simpa [init, toDict] using asString_values_likeListToDict order post.like
  comment := by simp [comment_init_toDict, uncommented]

theorem agrees_init_toDict_iff (order : Enumeration (Value Double)) (post : Post Double) :
    Agrees (init order post.toDict) post ↔ post.comment = [] := by
  constructor
  · intro agrees
    have none : ∀ c, c ∉ post.comment := fun c member => by
      have kept := (agrees.comment c).mpr member
      rw [comment_init_toDict] at kept
      cases kept
    exact List.eq_nil_iff_forall_not_mem.mpr none
  · exact agrees_init_toDict order post

theorem comment_lost :
    ¬ Agrees (init .stored (toDict { comment := [⟨(1 : ℚ), "u1", "Hi"⟩] }))
      { comment := [⟨1, "u1", "Hi"⟩] } := by
  intro agrees
  have kept := (agrees.comment ⟨1, "u1", "Hi"⟩).mpr List.mem_cons_self
  rw [comment_init_toDict] at kept
  cases kept

end RoundTrip

end Post

end ProjectF02
