import ProjectF02.Models.Message
import ProjectF02.Models.Post
import ProjectF02.Models.User

/-! Decoding what was encoded from a decoded dictionary.

Decoding sets every field of a user and of a message, so nothing is lost on the way
back. A post loses its comments, but it has none if it was decoded from plain data.
-/

set_option autoImplicit false

namespace ProjectF02
open Swift

variable {Double : Type}

/-- Texts, numbers, arrays and dictionaries, without an instance of a class anywhere. -/
inductive Swift.Value.JsonLike : Value Double → Prop where
  | null : JsonLike .null
  | string (text : String) : JsonLike (.string text)
  | int (n : Int64) : JsonLike (.int n)
  | int64 (n : Int64) : JsonLike (.int64 n)
  | double (d : Double) : JsonLike (.double d)
  | number (n : NSNumber Double) : JsonLike (.number n)
  | array {items : List (Value Double)} (each : ∀ item ∈ items, JsonLike item) : JsonLike (.array items)
  | dict {entries : List (Sigma fun _ : String => Value Double)}
      (each : ∀ entry ∈ entries, JsonLike entry.2) : JsonLike (.dict entries)

def Swift.Dict.JsonLike (dict : Dict Double) : Prop :=
  ∀ key value, dict.lookup key = some value → value.JsonLike

theorem Swift.Dict.jsonLike_empty : (∅ : Dict Double).JsonLike := by
  intro key value found
  cases found

theorem Swift.Dict.JsonLike.set {dict : Dict Double} (json : dict.JsonLike) (key : String)
    {value : Value Double} (plain : value.JsonLike) : (dict.set key (some value)).JsonLike := by
  intro other value' found
  rw [Dict.lookup_set] at found
  split at found
  · cases found
    exact plain
  · exact json other value' found

theorem Swift.Value.JsonLike.asDict {value : Value Double} (json : value.JsonLike) {dict : Dict Double}
    (cast : value.asDict = some dict) : dict.JsonLike := by
  cases json with
  | dict each =>
    cases cast
    intro key value found
    rw [AList.lookup_to_alist] at found
    exact each ⟨key, value⟩ (List.of_mem_dlookup found)
  | _ => cases cast

theorem Swift.Value.JsonLike.asComment {value : Value Double} (json : value.JsonLike) :
    value.asComment = none := by
  cases json <;> rfl

section Decoding
variable [Ring Double] [LinearOrder Double] [FloorRing Double]

theorem User.init_complete (dict : Dict Double) : (init dict).Complete := by
  constructor <;> rfl

theorem User.init_toDict_init (dict : Dict Double) : init (init dict).toDict = init dict :=
  (init_toDict_eq_iff (init dict) (init_complete dict)).mpr rfl

theorem Message.init_toDict (message : Message) : init (message.toDict : Dict Double) = message := by
  simp [init, toDict, Value.asString, Value.asInt, Value.asInt64]

theorem Post.comment_init_of_json (order : Enumeration (Value Double)) {dict : Dict Double}
    (json : dict.JsonLike) : (init order dict).comment = [] := by
  unfold init
  dsimp only
  split
  next comment cast =>
    obtain ⟨value, found, read⟩ := Option.bind_eq_some_iff.mp cast
    have plain := (json "comment" value found).asDict read
    rw [List.eq_nil_iff_forall_not_mem]
    intro c member
    rw [List.reduceOption_mem_iff] at member
    obtain ⟨value, listed, instance_⟩ := List.mem_map.mp member
    obtain ⟨key, stored⟩ := order.mem_values.mp listed
    rw [(plain key value stored).asComment] at instance_
    cases instance_
  next => rfl

theorem Post.init_toDict_of_uncommented (order : Enumeration (Value Double)) {post : Post Double}
    (uncommented : post.comment = []) :
    ∃ like, like.Perm post.like ∧ init order post.toDict = { post with like := like } := by
  have agrees := agrees_init_toDict order post uncommented
  refine ⟨(init order post.toDict).like, agrees.like, ?_⟩
  have none := (comment_init_toDict order post).trans uncommented.symm
  cases read : init order post.toDict with
  | mk fullName uid postid imageLink contentText like comment time =>
    rw [read] at agrees none
    obtain ⟨⟨rfl, rfl, rfl, rfl, rfl, rfl⟩, -, -⟩ := agrees
    cases none
    rfl

/-- Decoding, encoding and decoding again gives the record that decoding gives, the likes of a post
in some order. -/
theorem reencoded {dict : Dict Double} (json : dict.JsonLike) :
    User.init (User.init dict).toDict = User.init dict ∧
      Message.init ((Message.init dict).toDict : Dict Double) = Message.init dict ∧
      ∀ order order' : Enumeration (Value Double), ∃ like, like.Perm (Post.init order dict).like ∧
        Post.init order' (Post.init order dict).toDict = { Post.init order dict with like := like } := by
  refine ⟨User.init_toDict_init dict, Message.init_toDict _, fun order order' => ?_⟩
  exact Post.init_toDict_of_uncommented order' (Post.comment_init_of_json order json)

end Decoding

/-- A gender that is a text, a time that is a whole number and two likes of which one is none. -/
def mistyped : Dict ℚ :=
  (∅ : Dict ℚ)
    |>.set "gender" (some (.string "male"))
    |>.set "time" (some (.number (.integer 1)))
    |>.set "like" (some (.dict [⟨"7", .string "u1"⟩, ⟨"8", .null⟩]))

theorem reencoded_mistyped : User.init (User.init mistyped).toDict = User.init mistyped ∧
    Message.init ((Message.init mistyped).toDict : Dict ℚ) = Message.init mistyped ∧
    ∀ order order' : Enumeration (Value ℚ), ∃ like, like.Perm (Post.init order mistyped).like ∧
      Post.init order' (Post.init order mistyped).toDict =
        { Post.init order mistyped with like := like } := by
  have likes : (Value.dict [⟨"7", .string "u1"⟩, ⟨"8", .null⟩] : Value ℚ).JsonLike :=
    .dict (List.forall_mem_cons.mpr ⟨.string "u1", List.forall_mem_singleton.mpr .null⟩)
  exact reencoded (((Dict.jsonLike_empty.set "gender" (.string "male")).set "time"
    (.number (.integer 1))).set "like" likes)

end ProjectF02
