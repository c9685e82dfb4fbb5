import ProjectF02.Posts.ProfileTable

/-! The posts that the loop over a snapshot ends with.

The callback sorts all posts read so far after each of them, so what counts is the
sort after the last one: it sorts all posts at once.
-/

set_option autoImplicit false

namespace ProjectF02
open Swift Firebase Transition Sorting

variable {Double : Type} [Ring Double] [LinearOrder Double] [FloorRing Double]

namespace MyProfileViewController

def NotOlder (post1 post2 : Post Double) : Prop :=
  ∃ time1 time2, post1.time = some time1 ∧ post2.time = some time2 ∧ time2 ≤ time1

omit [Ring Double] [FloorRing Double] in
theorem addPost_sorted (sort : ComparisonSort) {vc : MyProfileViewController Double} {newPos : Post Double}
    (timed : ∀ post ∈ vc.posts ++ [newPos], post.time.isSome) :
    ∃ next, addPost sort vc newPos = .ok next ∧ next.posts.Perm (vc.posts ++ [newPos]) ∧
      next.posts.Pairwise NotOlder := by
  obtain ⟨next, added⟩ := (addPost_isOk_iff sort vc newPos).mpr (.inr timed)
  obtain ⟨listed, -⟩ := addPost_ok added
  refine ⟨next, added, listed, ?_⟩
  obtain ⟨result, ran, same⟩ := ok_of_bind added
  obtain rfl := Except.ok.inj same
  have keyed : ∀ post ∈ vc.posts ++ [newPos], (sortKey post).isSome := by
    simpa only [sortKey, Option.isSome_map] using timed
  have ordered := ComparisonSort.ordered_of_sorted newer_compares newer_answers sort keyed ran
  refine ordered.imp_of_mem fun {post1 post2} member1 member2 below => ?_
  obtain ⟨time1, known1⟩ := Option.isSome_iff_exists.mp (timed post1 (listed.mem_iff.mp member1))
  obtain ⟨time2, known2⟩ := Option.isSome_iff_exists.mp (timed post2 (listed.mem_iff.mp member2))
  have key1 : sortKey post1 = some (OrderDual.toDual time1) := congrArg _ known1
  have key2 : sortKey post2 = some (OrderDual.toDual time2) := congrArg _ known2
  exact ⟨time1, time2, known1, known2, (ComparisonSort.orBottom_le key1 key2).mp below⟩

omit [Ring Double] [FloorRing Double] in
theorem addPosts_sorted (sort : ComparisonSort) {vc : MyProfileViewController Double}
    {posts : List (Post Double)} (timed : ∀ post ∈ vc.posts ++ posts, post.time.isSome) :
    ∃ next, posts.foldlM (addPost sort) vc = .ok next ∧ next.posts.Perm (vc.posts ++ posts) ∧
      (posts ≠ [] → next.posts.Pairwise NotOlder) := by
  induction posts generalizing vc with
  | nil => exact ⟨vc, rfl, by rw [List.append_nil], fun none => absurd rfl none⟩
  | cons newPos posts ih =>
    rw [List.append_cons] at timed
    obtain ⟨middle, added, shown, sorted⟩ := addPost_sorted sort fun post member =>
      timed post (List.mem_append_left _ member)
    have regrouped := shown.append_right posts
    obtain ⟨next, others, listed, last⟩ := ih fun post member => timed post (regrouped.mem_iff.mp member)
    refine ⟨next, ?_, ?_, fun _ => ?_⟩
    · rw [List.foldlM_cons, added]
      exact others
    · rw [List.append_cons]
      exact listed.trans regrouped
    · cases posts with
      | nil =>
        obtain rfl := Except.ok.inj others
        exact sorted
      | cons another rest => exact last (List.cons_ne_nil _ _)

/-- `getPost` ends with the posts its query finds, whatever it showed before, from the newest to the
oldest. -/
theorem getPost_sorted [NSScanner] (sort : ComparisonSort) (order : Enumeration (Value Double)) {uID : String}
    (vc : MyProfileViewController Double) {posts : Node Double} (present : queryEqual posts "uid" uID ≠ [])
    (timed : ∀ child ∈ queryEqual posts "uid" uID, Timed child) :
    ∃ next read, vc.getPost order uID (showPosts sort) posts = .ok next ∧
      ((queryEqual posts "uid" uID).map Node.val).mapM (Post.ofSnapshot order) = .ok read ∧
      next.posts.Perm read ∧ next.posts.Pairwise NotOlder := by
  have times := (timed_queried order posts uID).mpr timed
  obtain ⟨next, added, listed, sorted⟩ :=
    @addPosts_sorted Double _ sort { vc with posts := [] } (queried order posts uID) times
  refine ⟨next, _, (getPost_eq sort order uID vc posts).trans added, mapM_ofSnapshot order posts uID, listed,
    sorted ?_⟩
  rwa [queried, Ne, List.map_eq_nil_iff]

/-- A screen that shows a post which is no longer stored. -/
def outdated : MyProfileViewController ℚ := { posts := [{ time := some 3 }], rows := 1 }

/-- The older post comes first in the snapshot. -/
theorem getPost_sorted_twoPosts : ∃ next read,
    outdated.getPost .stored "u1" (showPosts .insertion) twoPosts = .ok next ∧
      ((queryEqual twoPosts "uid" "u1").map Node.val).mapM (Post.ofSnapshot .stored) = .ok read ∧
      next.posts.Perm read ∧ next.posts.Pairwise NotOlder :=
  getPost_sorted .insertion .stored outdated (List.cons_ne_nil _ _) twoPosts_timed

end MyProfileViewController

end ProjectF02
