import ProjectF02.Models.StoredPost
import ProjectF02.Models.User
import ProjectF02.Firebase.Query
import ProjectF02.Sorting.Comparison
import ProjectF02.Transition.Runs

/-! The profile screen: its posts and the rows of its table.

The handler of a snapshot empties the posts and hands them to the callback of
`viewDidLoad` after each post it appends. The callback sorts them, which unwraps the
time of every post it compares, and reloads the table.
-/

set_option autoImplicit false

namespace ProjectF02
open Swift Firebase Transition Sorting

variable {Double : Type}

/-- `rows` is the number of posts that the table was last told about. -/
structure MyProfileViewController (Double : Type) where
  userinfo : Option (User Double) := none
  posts : List (Post Double) := []
  rows : Nat := 0

namespace MyProfileViewController

def reloadData (vc : MyProfileViewController Double) : MyProfileViewController Double :=
  { vc with rows := vc.posts.length }

/-- What a row of section 1 hands to its cell; `none` when the subscript is out of range. -/
def cellForRowAt (vc : MyProfileViewController Double) (row : Nat) : Option (Post Double × String) :=
  (vc.posts[row]?).map fun post => (post, (vc.userinfo.bind User.uid).getD "")

section Decoding
variable [Ring Double] [LinearOrder Double] [FloorRing Double]

def newer (post1 post2 : Post Double) : Except Trap Bool := do
  let time1 ← forceUnwrap post1.time
  let time2 ← forceUnwrap post2.time
  return time1 > time2

/-- The callback that `viewDidLoad` passes to `getPost`. -/
def showPosts (sort : ComparisonSort) (vc : MyProfileViewController Double) (posts : List (Post Double)) :
    Except Trap (MyProfileViewController Double) := do
  let posts ← sort.sorted newer posts
  return { vc with posts := posts }.reloadData

def readPosts (order : Enumeration (Value Double))
    (callback : MyProfileViewController Double → List (Post Double) →
      Except Trap (MyProfileViewController Double))
    (vc : MyProfileViewController Double) : List (Value Double) → Except Trap (MyProfileViewController Double)
  | [] => .ok vc
  | snap :: children => do
    let newPos ← Post.ofSnapshot order snap
    let vc := { vc with posts := vc.posts ++ [newPos] }
    let vc ← callback vc vc.posts
    readPosts order callback vc children

/-- The `.value` callback of `getPost`. -/
def getPost [NSScanner] (order : Enumeration (Value Double)) (uID : String)
    (callback : MyProfileViewController Double → List (Post Double) →
      Except Trap (MyProfileViewController Double))
    (vc : MyProfileViewController Double) (posts : Node Double) :
    Except Trap (MyProfileViewController Double) :=
  readPosts order callback { vc with posts := [] } ((queryEqual posts "uid" uID).map Node.val)

/-- One round of the loop, for a post that is decoded already. -/
def addPost (sort : ComparisonSort) (vc : MyProfileViewController Double) (newPos : Post Double) :
    Except Trap (MyProfileViewController Double) :=
  showPosts sort { vc with posts := vc.posts ++ [newPos] } (vc.posts ++ [newPos])

theorem readPosts_eq {order : Enumeration (Value Double)} (sort : ComparisonSort)
    {children : List (Value Double)} {posts : List (Post Double)}
    (decoded : children.mapM (Post.ofSnapshot order) = .ok posts) (vc : MyProfileViewController Double) :
    readPosts order (showPosts sort) vc children = posts.foldlM (addPost sort) vc := by
  induction children generalizing vc posts with
  | nil =>
    cases decoded
    rfl
  | cons snap children ih =>
    rw [List.mapM_cons] at decoded
    obtain ⟨newPos, first, decoded⟩ := ok_of_bind decoded
    obtain ⟨rest, others, same⟩ := ok_of_bind decoded
    obtain rfl := Except.ok.inj same
    rw [readPosts, first, List.foldlM_cons]
    exact congrArg (Bind.bind _) (funext fun vc => ih others vc)

/-- The key the callback sorts by, the latest time first. -/
def sortKey (post : Post Double) : Option (OrderDual Double) := post.time.map OrderDual.toDual

omit [Ring Double] [FloorRing Double] in
theorem newer_compares : ComparisonSort.Compares newer (@sortKey Double) := by
  intro post1 post2 before answered
  obtain ⟨time1, first, answered⟩ := ok_of_bind answered
  obtain ⟨time2, second, same⟩ := ok_of_bind answered
  have known := forceUnwrap_eq_ok.mp first
  have known' := forceUnwrap_eq_ok.mp second
  exact ⟨.toDual time1, .toDual time2, congrArg _ known, congrArg _ known', (Except.ok.inj same).symm⟩

omit [Ring Double] [FloorRing Double] in
theorem newer_answers (post1 post2 : Post Double) (timed1 : (sortKey post1).isSome)
    (timed2 : (sortKey post2).isSome) : ∃ before, newer post1 post2 = .ok before := by
  unfold sortKey at timed1 timed2
  rw [Option.isSome_map] at timed1 timed2
  obtain ⟨time1, first⟩ := Option.isSome_iff_exists.mp timed1
  obtain ⟨time2, second⟩ := Option.isSome_iff_exists.mp timed2
  exact ⟨_, by rw [newer, first, second]; rfl⟩

omit [Ring Double] [FloorRing Double] in
theorem addPost_isOk_iff (sort : ComparisonSort) (vc : MyProfileViewController Double)
    (newPos : Post Double) :
    (∃ next, addPost sort vc newPos = .ok next) ↔
      vc.posts = [] ∨ ∀ post ∈ vc.posts ++ [newPos], post.time.isSome := by
  have sorts := ComparisonSort.sorted_isOk_iff newer_compares newer_answers sort (vc.posts ++ [newPos])
  simp only [sortKey, Option.isSome_map, List.length_append, List.length_singleton] at sorts
  rw [← List.length_eq_zero_iff, show vc.posts.length = 0 ↔ vc.posts.length + 1 < 2 by omega, ← sorts]
  unfold addPost showPosts
  constructor
  · rintro ⟨next, added⟩
    obtain ⟨result, ran, -⟩ := ok_of_bind added
    exact ⟨result, ran⟩
  · rintro ⟨result, ran⟩
    exact ⟨_, by rw [ran]; rfl⟩

omit [Ring Double] [FloorRing Double] in
theorem addPost_ok {sort : ComparisonSort} {vc next : MyProfileViewController Double}
    {newPos : Post Double} (added : addPost sort vc newPos = .ok next) :
    next.posts.Perm (vc.posts ++ [newPos]) ∧ next.rows = next.posts.length := by
  obtain ⟨result, ran, same⟩ := ok_of_bind added
  obtain rfl := Except.ok.inj same
  exact ⟨sort.perm_of_sorted ran, rfl⟩

omit [Ring Double] [FloorRing Double] in
theorem addPosts_ok {sort : ComparisonSort} {vc next : MyProfileViewController Double}
    {posts : List (Post Double)} (added : posts.foldlM (addPost sort) vc = .ok next) :
    next.posts.Perm (vc.posts ++ posts) ∧
      next.rows = if posts = [] then vc.rows else next.posts.length := by
  induction posts generalizing vc with
  | nil =>
    obtain rfl := Except.ok.inj added
    simp
  | cons newPos posts ih =>
    rw [List.foldlM_cons] at added
    obtain ⟨middle, first, others⟩ := ok_of_bind added
    obtain ⟨shown, reloaded⟩ := addPost_ok first
    obtain ⟨listed, rows⟩ := ih others
    constructor
    · have grown := listed.trans (shown.append_right posts)
      rwa [List.append_assoc] at grown
    · rw [if_neg (List.cons_ne_nil _ _), rows]
      split
      next last =>
        -- The last round has reloaded the table.
        subst last
        rw [reloaded, Except.ok.inj others]
      next => rfl

omit [Ring Double] [FloorRing Double] in
/-- Two posts or more are sorted, so each of them needs a time. -/
theorem addPosts_isOk_iff (sort : ComparisonSort) (vc : MyProfileViewController Double)
    (posts : List (Post Double)) :
    (∃ next, posts.foldlM (addPost sort) vc = .ok next) ↔
      posts = [] ∨ vc.posts.length + posts.length < 2 ∨
        ∀ post ∈ vc.posts ++ posts, post.time.isSome := by
  induction posts generalizing vc with
  | nil => exact iff_of_true ⟨vc, rfl⟩ (.inl rfl)
  | cons newPos posts ih =>
    have regroup : vc.posts ++ newPos :: posts = (vc.posts ++ [newPos]) ++ posts := by simp
    rw [List.foldlM_cons, regroup]
    constructor
    · rintro ⟨next, added⟩
      obtain ⟨middle, first, others⟩ := ok_of_bind added
      obtain ⟨shown, -⟩ := addPost_ok first
      have length := shown.length_eq
      rw [List.length_append, List.length_singleton] at length
      refine .inr ?_
      rcases (ih middle).mp ⟨next, others⟩ with rfl | short | timed
      · rcases (addPost_isOk_iff sort vc newPos).mp ⟨middle, first⟩ with none | timed
        · exact .inl (by simp [none])
        · exact .inr (by simpa using timed)
      · exact .inl (by rw [List.length_cons]; omega)
      · exact .inr fun post member => timed post ((shown.append_right posts).mem_iff.mpr member)
    · rintro (none | short | timed)
      · cases none
      · -- Only one post in all: nothing is compared.
        rw [List.length_cons] at short
        have none : vc.posts = [] := List.length_eq_zero_iff.mp (by omega)
        have last : posts = [] := List.length_eq_zero_iff.mp (by omega)
        obtain ⟨middle, first⟩ := (addPost_isOk_iff sort vc newPos).mpr (.inl none)
        exact ⟨middle, by rw [first, last]; rfl⟩
      · obtain ⟨middle, first⟩ := (addPost_isOk_iff sort vc newPos).mpr
          (.inr fun post member => timed post (List.mem_append_left _ member))
        obtain ⟨shown, -⟩ := addPost_ok first
        obtain ⟨next, others⟩ := (ih middle).mpr
          (.inr (.inr fun post member => timed post ((shown.append_right posts).mem_iff.mp member)))
        exact ⟨next, by rw [first]; exact others⟩

def queried [NSScanner] (order : Enumeration (Value Double)) (posts : Node Double) (uID : String) :
    List (Post Double) :=
  (queryEqual posts "uid" uID).map fun child => Post.init order (child.val.asDict.getD ∅)

theorem mapM_ofSnapshot [NSScanner] (order : Enumeration (Value Double)) (posts : Node Double) (uID : String) :
    ((queryEqual posts "uid" uID).map Node.val).mapM (Post.ofSnapshot order) = .ok (queried order posts uID) := by
  rw [List.mapM_map]
  apply mapM_of_ok
  intro child member
  obtain ⟨data, cast, -⟩ := asDict_val_of_query (by decide) member
  simp only [Function.comp_apply, Post.ofSnapshot, cast, Option.getD_some]

theorem getPost_eq [NSScanner] (sort : ComparisonSort) (order : Enumeration (Value Double)) (uID : String)
    (vc : MyProfileViewController Double) (posts : Node Double) :
    vc.getPost order uID (showPosts sort) posts =
      (queried order posts uID).foldlM (addPost sort) { vc with posts := [] } :=
  readPosts_eq sort (mapM_ofSnapshot order posts uID) _

/-- A stored post whose time casts to `Double`. -/
def Timed [NSScanner] (child : Node Double) : Prop :=
  ∃ data, child.val.asDict = some data ∧ ((data.lookup "time").bind Value.asDouble).isSome

theorem timed_queried [NSScanner] (order : Enumeration (Value Double)) (posts : Node Double) (uID : String) :
    (∀ post ∈ queried order posts uID, post.time.isSome) ↔
      ∀ child ∈ queryEqual posts "uid" uID, Timed child := by
  rw [queried, List.forall_mem_map]
  apply forall₂_congr
  intro child member
  obtain ⟨data, cast, -⟩ := asDict_val_of_query (by decide) member
  simp [Timed, cast, Post.init]

def PostsReadable [NSScanner] (posts : Node Double) (uID : String) : Prop :=
  (queryEqual posts "uid" uID).length < 2 ∨ ∀ child ∈ queryEqual posts "uid" uID, Timed child

theorem getPost_isOk_iff [NSScanner] (sort : ComparisonSort) (order : Enumeration (Value Double)) (uID : String)
    (vc : MyProfileViewController Double) (posts : Node Double) :
    (∃ next, vc.getPost order uID (showPosts sort) posts = .ok next) ↔ PostsReadable posts uID := by
  rw [getPost_eq, addPosts_isOk_iff, List.length_nil, Nat.zero_add, List.nil_append, timed_queried, queried,
    List.length_map, List.map_eq_nil_iff]
  constructor
  · rintro (none | readable)
    · exact .inl (by simp [none])
    · exact readable
  · exact .inr

end Decoding

end MyProfileViewController

end ProjectF02
