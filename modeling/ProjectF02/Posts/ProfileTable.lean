import ProjectF02.Posts.MyProfileViewController

/-! The rows of the profile table against the posts behind them.

Every event but one ends in a reload. A snapshot without a post of the user empties
the posts and calls nothing back.
-/

set_option autoImplicit false

namespace ProjectF02
open Swift Firebase Transition Sorting

variable {Double : Type}

inductive ProfileEvent (Double : Type) where
  -- The `Post` node of the database, and the order in which the decoder lists dictionaries.
  | snapshot (order : Enumeration (Value Double)) (posts : Node Double)
  | viewWillAppear
  | updateData

namespace MyProfileViewController

section Events
variable [Ring Double] [LinearOrder Double] [FloorRing Double]

def step [NSScanner] (sort : ComparisonSort) (uID : String) (vc : MyProfileViewController Double) :
    ProfileEvent Double → Except Trap (MyProfileViewController Double × List (MyProfileViewController Double))
  | .snapshot order posts => do
    let vc ← vc.getPost order uID (showPosts sort) posts
    return (vc, [vc])
  | .viewWillAppear => .ok (vc.reloadData, [vc.reloadData])
  | .updateData => .ok (vc.reloadData, [vc.reloadData])

end Events

/-- The table has a row for each post, and a post for each row it may ask for. -/
structure InStep (vc : MyProfileViewController Double) : Prop where
  rows : vc.rows = vc.posts.length
  cells : ∀ row < vc.rows, (vc.cellForRowAt row).isSome

def Refreshed (uID : String) (vc : MyProfileViewController Double) : ProfileEvent Double → Prop
  | .snapshot _ posts => queryEqual posts "uid" uID = [] → vc.rows = 0
  | _ => True

theorem inStep_iff_rows (vc : MyProfileViewController Double) : vc.InStep ↔ vc.rows = vc.posts.length := by
  constructor
  · exact InStep.rows
  · intro rows
    refine ⟨rows, fun row asked => ?_⟩
    rw [rows] at asked
    simp [cellForRowAt, asked]

theorem inStep_reloadData (vc : MyProfileViewController Double) : vc.reloadData.InStep :=
  (inStep_iff_rows _).mpr rfl

variable [Ring Double] [LinearOrder Double] [FloorRing Double]

theorem getPost_ok [NSScanner] {sort : ComparisonSort} {order : Enumeration (Value Double)} {uID : String}
    {vc next : MyProfileViewController Double} {posts : Node Double}
    (ran : vc.getPost order uID (showPosts sort) posts = .ok next) :
    next.posts.Perm (queried order posts uID) ∧
      next.rows = if queryEqual posts "uid" uID = [] then vc.rows else next.posts.length := by
  rw [getPost_eq] at ran
  obtain ⟨shown, rows⟩ := addPosts_ok ran
  refine ⟨shown, rows.trans ?_⟩
  simp only [queried, List.map_eq_nil_iff]

theorem inStep_step_iff [NSScanner] {sort : ComparisonSort} {uID : String}
    {vc next : MyProfileViewController Double}
    {event : ProfileEvent Double} {emitted : List (MyProfileViewController Double)}
    (taken : step sort uID vc event = .ok (next, emitted)) :
    (∀ shown ∈ emitted, shown.InStep) ↔ Refreshed uID vc event := by
  cases event with
  | snapshot order posts =>
    obtain ⟨result, ran, same⟩ := ok_of_bind taken
    cases same
    obtain ⟨listed, rows⟩ := getPost_ok ran
    rw [List.forall_mem_singleton, inStep_iff_rows, rows, listed.length_eq, queried, List.length_map, Refreshed]
    by_cases none : queryEqual posts "uid" uID = []
    · simp [none]
    · simp [none]
  | viewWillAppear =>
    cases taken
    exact iff_of_true (List.forall_mem_singleton.mpr vc.inStep_reloadData) trivial
  | updateData =>
    cases taken
    exact iff_of_true (List.forall_mem_singleton.mpr vc.inStep_reloadData) trivial

theorem inStep_iff_refreshed [NSScanner] {sort : ComparisonSort} {uID : String}
    {vc final : MyProfileViewController Double} {events : List (ProfileEvent Double)}
    {shown : List (MyProfileViewController Double)}
    (run : Runs (computes (step sort uID)) vc events final shown) :
    (∀ screen ∈ shown, screen.InStep) ↔
      Runs ((computes (step sort uID)).guardedBy (Refreshed uID)) vc events final shown :=
  run.outputs_forall_iff_guarded (fun _ => True) (Refreshed uID) InStep
    (fun _ _ _ _ _ taken => inStep_step_iff taken) (fun _ _ _ _ _ _ _ => trivial) trivial

theorem step_of_readable [NSScanner] (sort : ComparisonSort) {uID : String}
    (vc : MyProfileViewController Double)
    {order : Enumeration (Value Double)} {posts : Node Double} (readable : PostsReadable posts uID) :
    ∃ next, step sort uID vc (.snapshot order posts) = .ok (next, [next]) := by
  obtain ⟨next, ran⟩ := (getPost_isOk_iff sort order uID vc posts).mpr readable
  exact ⟨next, by rw [step, ran]; rfl⟩

def ownPost (time : Int64) : Node ℚ :=
  .children [⟨"time", .leaf (.number (.integer time))⟩, ⟨"uid", .leaf (.string "u1")⟩]

def onePost : Node ℚ := .children [⟨"p1", ownPost 1⟩]

def twoPosts : Node ℚ := .children [⟨"p1", ownPost 1⟩, ⟨"p2", ownPost 2⟩]

theorem onePost_readable : PostsReadable onePost "u1" := .inl (by decide)

theorem twoPosts_timed : ∀ child ∈ queryEqual twoPosts "uid" "u1", Timed child :=
  List.forall_mem_cons.mpr ⟨⟨_, rfl, rfl⟩, List.forall_mem_singleton.mpr ⟨_, rfl, rfl⟩⟩

/-- One of two posts is deleted: the table follows. -/
theorem inStep_twoPosts : ∃ final shown,
    Runs (computes (step .insertion "u1")) {}
        [.snapshot .stored twoPosts, .snapshot .stored onePost, .viewWillAppear] final shown ∧
      shown.length = 3 ∧ ∀ screen ∈ shown, screen.InStep := by
  obtain ⟨both, first⟩ := @step_of_readable ℚ _ _ _ _ .insertion "u1" {} .stored twoPosts (.inr twoPosts_timed)
  obtain ⟨one, second⟩ := @step_of_readable ℚ _ _ _ _ .insertion "u1" both .stored onePost onePost_readable
  have found : queryEqual twoPosts "uid" "u1" ≠ [] ∧ queryEqual onePost "uid" "u1" ≠ [] :=
    ⟨List.cons_ne_nil _ _, List.cons_ne_nil _ _⟩
  have guarded : Runs ((computes (step .insertion "u1")).guardedBy (Refreshed "u1")) {}
      [.snapshot .stored twoPosts, .snapshot .stored onePost, .viewWillAppear] one.reloadData
      ([both] ++ ([one] ++ ([one.reloadData] ++ []))) :=
    .next ⟨fun none => absurd none found.1, first⟩
      (.next ⟨fun none => absurd none found.2, second⟩ (.next ⟨trivial, rfl⟩ (.done _)))
  exact ⟨_, _, guarded.unguarded, rfl, (inStep_iff_refreshed guarded.unguarded).mpr guarded⟩

/-- The user's only post is deleted: the table keeps its row. -/
theorem row_without_post : ∃ final shown,
    Runs (computes (step .insertion "u1")) {} [.snapshot .stored onePost, .snapshot .stored .empty] final shown ∧
      (final.rows = 1 ∧ final.cellForRowAt 0 = none) ∧ ¬ ∀ screen ∈ shown, screen.InStep := by
  obtain ⟨next, taken⟩ := @step_of_readable ℚ _ _ _ _ .insertion "u1" {} .stored onePost onePost_readable
  obtain ⟨result, ran, same⟩ := ok_of_bind taken
  cases same
  obtain ⟨listed, rows⟩ := getPost_ok ran
  have one : next.rows = 1 := by
    rw [rows, listed.length_eq]
    decide
  have run : Runs (computes (step .insertion "u1")) {}
      [.snapshot .stored onePost, .snapshot .stored .empty] { next with posts := [] } ([next] ++ ([_] ++ [])) :=
    .next taken (.next rfl (.done _))
  refine ⟨_, _, run, ⟨one, rfl⟩, fun all => ?_⟩
  have last := (all { next with posts := [] } (by simp)).rows
  rw [show ({ next with posts := [] } : MyProfileViewController ℚ).rows = 1 from one] at last
  cases last

end MyProfileViewController

end ProjectF02
