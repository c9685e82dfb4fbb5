import ProjectF02.Posts.Images

/-! A post cell that the table uses again for other posts.

Every fill asks for the URL of the avatar, and for that of the image if the post has
one. The answers come in any order and go to the image views of the cell, whatever
post it shows by then. An image is told by the object in Storage that it was read from.
-/

set_option autoImplicit false

namespace ProjectF02
open Swift Firebase Transition

variable {Double : Type}

inductive DownloadResult where
  | error
  | url (absoluteString : String)
  deriving DecidableEq, Repr

/-- An image view; `image` is the URL that it was last told to show. -/
structure PostImageView where
  image : Option String := none
  isHidden : Bool := false
  isUserInteractionEnabled : Bool := true

structure PostTableViewCell where
  imageviewPost : PostImageView := {}
  heighImageview : Nat := 250
  imageAvatar : Option String := none
  labeluserName : Option String := none
  labelContentpost : Option String := none
  timePosted : Option String := none
  likenumberLabel : Option String := none

namespace PostTableViewCell

def postavatarref (useruid : String) : StoragePath := (StoragePath.child [] "avatar").child useruid

/-- What `fillData` changes at once; `strDate` is the date formatter. -/
def fillData [Zero Double] (strDate : Date Double → String) (cell : PostTableViewCell) (post : Post Double) :
    PostTableViewCell :=
  let cell :=
    if post.imageLink = some 1 then
      { cell with
        imageviewPost := { cell.imageviewPost with isUserInteractionEnabled := true, isHidden := false }
        heighImageview := 250 }
    else
      { cell with
        imageviewPost := { cell.imageviewPost with isHidden := true, isUserInteractionEnabled := false }
        heighImageview := 1 }
  { cell with
    labeluserName := post.fullName
    labelContentpost := post.contentText
    timePosted := some (strDate ⟨post.time.getD 0⟩)
    likenumberLabel := some (toString post.like.length ++ " lượt thích") }

def avatarCompleted (cell : PostTableViewCell) : DownloadResult → PostTableViewCell
  | .error => cell
  | .url avatarstring => { cell with imageAvatar := some avatarstring }

def imageCompleted (cell : PostTableViewCell) : DownloadResult → PostTableViewCell
  | .error => cell
  | .url postimagestring =>
      { cell with imageviewPost := { cell.imageviewPost with image := some postimagestring } }

end PostTableViewCell

/-- A request for the URL of an image, with the number of the fill that made it. -/
structure PostDownload where
  fill : Nat
  ref : StoragePath
  deriving DecidableEq, Repr

/-- A cell with its requests that have not come back. The last three fields tell which post was
filled in last, which object the image comes from and how the request of the last fill ended. -/
structure ReusedCell (Double : Type) where
  cell : PostTableViewCell
  fills : Nat := 0
  avatars : List StoragePath := []
  images : List PostDownload := []
  last : Option (Post Double × String) := none
  source : Option StoragePath := none
  own : Option DownloadResult := none

inductive CellEvent (Double : Type) where
  | fillData (post : Post Double) (useruid : String)
  | avatarCompleted (task : Nat) (result : DownloadResult)
  | imageCompleted (task : Nat) (result : DownloadResult)

namespace ReusedCell
open PostTableViewCell

def fillData [Zero Double] (strDate : Date Double → String) (state : ReusedCell Double) (post : Post Double)
    (useruid : String) : ReusedCell Double where
  cell := state.cell.fillData strDate post
  fills := state.fills + 1
  avatars := state.avatars ++ [postavatarref useruid]
  images :=
    if post.imageLink = some 1 then state.images ++ [⟨state.fills, postimageref post useruid⟩]
    else state.images
  last := some (post, useruid)
  source := state.source
  own := none

def imageCompleted (state : ReusedCell Double) (task : Nat) (download : PostDownload)
    (result : DownloadResult) : ReusedCell Double :=
  { state with
    cell := state.cell.imageCompleted result
    images := state.images.eraseIdx task
    source := match result with
      | .error => state.source
      | .url _ => some download.ref
    own := if download.fill + 1 = state.fills then some result else state.own }

def step [Zero Double] (strDate : Date Double → String) (state : ReusedCell Double) :
    CellEvent Double → Except Trap (ReusedCell Double × List (ReusedCell Double))
  | .fillData post useruid => .ok (state.fillData strDate post useruid, [state.fillData strDate post useruid])
  | .avatarCompleted task result =>
    match state.avatars[task]? with
    | none => .ok (state, [])
    | some _ =>
      let state := { state with
        cell := state.cell.avatarCompleted result, avatars := state.avatars.eraseIdx task }
      .ok (state, [state])
  | .imageCompleted task result =>
    match state.images[task]? with
    | none => .ok (state, [])
    | some download => .ok (state.imageCompleted task download result, [state.imageCompleted task download result])

def Shows (state : ReusedCell Double) (ref : StoragePath) : Prop := ∀ source ∈ state.source, source = ref

/-- The cell shows the post that was filled in last: its image view is hidden if that has no image;
otherwise it never shows another image, and after all requests have come back it shows this one
unless the request for it has failed. -/
structure ShowsPost (state : ReusedCell Double) (post : Post Double) (useruid : String) : Prop where
  hidden : state.cell.imageviewPost.isHidden = true ↔ post.imageLink ≠ some 1
  other : post.imageLink = some 1 → state.Shows (postimageref post useruid)
  settled : post.imageLink = some 1 → state.avatars = [] → state.images = [] →
    (state.source = some (postimageref post useruid) ∧ state.cell.imageviewPost.image.isSome) ∨
      (state.cell.imageviewPost.image = none ∧ state.own = some .error)

def Right (state : ReusedCell Double) : Prop :=
  ∀ post useruid, state.last = some (post, useruid) → state.ShowsPost post useruid

/-- A post with an image finds no image in the cell, or its own; and while it is shown, no request
for another object comes back with a URL. -/
def Own (state : ReusedCell Double) : CellEvent Double → Prop
  | .fillData post useruid => post.imageLink = some 1 → state.Shows (postimageref post useruid)
  | .avatarCompleted _ _ => True
  | .imageCompleted _ .error => True
  | .imageCompleted task (.url _) => ∀ download ∈ state.images[task]?, ∀ post useruid,
      state.last = some (post, useruid) → post.imageLink = some 1 →
        download.ref = postimageref post useruid

/-! ## What holds of every cell -/

/-- The source goes with the image, hiding goes with the last post, and the request of a last fill
with an image is pending or has ended. -/
structure Sound (state : ReusedCell Double) : Prop where
  linked : state.source.isSome = state.cell.imageviewPost.image.isSome
  hidden : ∀ post useruid, state.last = some (post, useruid) →
    (state.cell.imageviewPost.isHidden = true ↔ post.imageLink ≠ some 1)
  asked : ∀ post useruid, state.last = some (post, useruid) → post.imageLink = some 1 →
    (∃ download ∈ state.images, download.fill + 1 = state.fills) ∨ state.own.isSome
  shown : ∀ absoluteString, state.own = some (.url absoluteString) → state.source.isSome

theorem sound_blank {cell : PostTableViewCell} (blank : cell.imageviewPost.image = none) :
    Sound ({ cell := cell } : ReusedCell Double) where
  linked := by rw [blank]; rfl
  hidden _ _ filled := by cases filled
  asked _ _ filled := by cases filled
  shown _ ended := by cases ended

theorem sound_fillData [Zero Double] (strDate : Date Double → String) {state : ReusedCell Double}
    (sound : state.Sound) (post : Post Double) (useruid : String) :
    (state.fillData strDate post useruid).Sound where
  linked := by
    unfold fillData PostTableViewCell.fillData
    split <;> exact sound.linked
  hidden _ _ filled := by
    cases filled
    unfold fillData PostTableViewCell.fillData
    split
    next image => exact iff_of_false Bool.false_ne_true (not_not_intro image)
    next none => exact iff_of_true rfl none
  asked _ _ filled image := by
    cases filled
    refine .inl ⟨⟨state.fills, postimageref post useruid⟩, ?_, rfl⟩
    unfold fillData
    rw [if_pos image]
    exact List.mem_append_right _ (List.mem_singleton_self _)
  shown _ ended := by cases ended

theorem mem_eraseIdx_of_ne {Item : Type} {items : List Item} {index : Nat} {item other : Item}
    (found : items[index]? = some item) (member : other ∈ items) (different : other ≠ item) :
    other ∈ items.eraseIdx index := by
  obtain ⟨place, same⟩ := List.mem_iff_getElem?.mp member
  refine List.mem_eraseIdx_iff_getElem?.mpr ⟨place, fun taken => ?_, same⟩
  rw [taken, found] at same
  exact different (Option.some.inj same).symm

theorem sound_imageCompleted {state : ReusedCell Double} (sound : state.Sound) {task : Nat}
    {download : PostDownload} (pending : state.images[task]? = some download) (result : DownloadResult) :
    (state.imageCompleted task download result).Sound where
  linked := by
    cases result with
    | error => exact sound.linked
    | url absoluteString => rfl
  hidden post useruid filled := by
    cases result with
    | error => exact sound.hidden post useruid filled
    | url absoluteString => exact sound.hidden post useruid filled
  asked post useruid filled image := by
    by_cases own : download.fill + 1 = state.fills
    · refine .inr ?_
      unfold imageCompleted
      rw [if_pos own]
      rfl
    · rcases sound.asked post useruid filled image with ⟨other, member, fill⟩ | ended
      · -- Another request came back: that of the last fill still waits.
        have different : other ≠ download := fun same => own (same ▸ fill)
        exact .inl ⟨other, mem_eraseIdx_of_ne pending member different, fill⟩
      · refine .inr ?_
        unfold imageCompleted
        rw [if_neg own]
        exact ended
  shown absoluteString ended := by
    cases result with
    | error =>
      change (if download.fill + 1 = state.fills then some DownloadResult.error else state.own) = _ at ended
      split at ended
      · cases ended
      · exact sound.shown absoluteString ended
    | url _ => rfl

def Clean (state : ReusedCell Double) : Prop :=
  ∀ post useruid, state.last = some (post, useruid) → post.imageLink = some 1 →
    state.Shows (postimageref post useruid)

theorem right_iff_clean {state : ReusedCell Double} (sound : state.Sound) : state.Right ↔ state.Clean := by
  constructor
  · exact fun right post useruid filled => (right post useruid filled).other
  · intro clean post useruid filled
    refine ⟨sound.hidden post useruid filled, clean post useruid filled, fun image _ noneLeft => ?_⟩
    have linked := sound.linked
    cases from_ : state.source with
    | some source =>
      rw [from_] at linked
      exact .inl ⟨congrArg some (clean post useruid filled image source from_), linked.symm⟩
    | none =>
      rw [from_] at linked
      have blank : state.cell.imageviewPost.image = Option.none :=
        Option.not_isSome_iff_eq_none.mp (by rw [← linked]; exact Bool.false_ne_true)
      refine .inr ⟨blank, ?_⟩
      rcases sound.asked post useruid filled image with ⟨download, member, -⟩ | ended
      · rw [noneLeft] at member
        cases member
      · obtain ⟨result, own⟩ := Option.isSome_iff_exists.mp ended
        cases result with
        | error => exact own
        | url absoluteString =>
          have shown := sound.shown absoluteString own
          rw [from_] at shown
          cases shown

variable [Zero Double]

theorem sound_step {strDate : Date Double → String} {state next : ReusedCell Double}
    {event : CellEvent Double} {emitted : List (ReusedCell Double)} (sound : state.Sound)
    (taken : step strDate state event = .ok (next, emitted)) :
    next.Sound ∧ (emitted = [next] ∨ emitted = [] ∧ next = state) := by
  cases event with
  | fillData post useruid =>
    cases taken
    exact ⟨sound_fillData strDate sound post useruid, .inl rfl⟩
  | avatarCompleted task result =>
    rw [step] at taken
    split at taken
    · cases taken
      exact ⟨sound, .inr ⟨rfl, rfl⟩⟩
    · cases taken
      refine ⟨?_, .inl rfl⟩
      cases result <;> exact ⟨sound.linked, sound.hidden, sound.asked, sound.shown⟩
  | imageCompleted task result =>
    rw [step] at taken
    split at taken
    · cases taken
      exact ⟨sound, .inr ⟨rfl, rfl⟩⟩
    next download pending =>
      cases taken
      exact ⟨sound_imageCompleted sound pending result, .inl rfl⟩

theorem clean_step_iff {strDate : Date Double → String} {state next : ReusedCell Double}
    {event : CellEvent Double} {emitted : List (ReusedCell Double)} (clean : state.Clean)
    (taken : step strDate state event = .ok (next, emitted)) : next.Clean ↔ Own state event := by
  cases event with
  | fillData post useruid =>
    cases taken
    constructor
    · exact fun cleaned => cleaned post useruid rfl
    · intro own _ _ filled
      cases filled
      exact own
  | avatarCompleted task result =>
    refine iff_of_true ?_ trivial
    rw [step] at taken
    split at taken <;> cases taken <;> exact clean
  | imageCompleted task result =>
    rw [step] at taken
    split at taken
    next none =>
      cases taken
      refine iff_of_true clean ?_
      cases result with
      | error => trivial
      | url absoluteString =>
        intro download pending
        rw [none] at pending
        cases pending
    next download pending =>
      cases taken
      cases result with
      | error => exact iff_of_true clean trivial
      | url absoluteString =>
        constructor
        · intro cleaned other found post useruid filled image
          rw [pending] at found
          cases found
          exact cleaned post useruid filled image download.ref rfl
        · intro own post useruid filled image source from_
          cases from_
          exact own download pending post useruid filled image

theorem right_iff_own {strDate : Date Double → String} {cell : PostTableViewCell}
    (blank : cell.imageviewPost.image = none) {final : ReusedCell Double} {events : List (CellEvent Double)}
    {shown : List (ReusedCell Double)}
    (run : Runs (computes (step strDate)) { cell := cell } events final shown) :
    (∀ state ∈ shown, state.Right) ↔
      Runs ((computes (step strDate)).guardedBy Own) { cell := cell } events final shown := by
  apply run.outputs_forall_iff_guarded (fun state => state.Sound ∧ state.Clean) Own Right
  · intro state event next emitted ⟨sound, clean⟩ taken
    obtain ⟨soundNext, rfl | ⟨rfl, rfl⟩⟩ := sound_step sound taken
    · rw [List.forall_mem_singleton, right_iff_clean soundNext]
      exact clean_step_iff clean taken
    · exact iff_of_true (List.forall_mem_nil _) ((clean_step_iff clean taken).mp clean)
  · intro state event next emitted ⟨sound, clean⟩ taken own
    exact ⟨(sound_step sound taken).1, (clean_step_iff clean taken).mpr own⟩
  · exact ⟨sound_blank blank, fun _ _ filled => by cases filled⟩

def firstPost : Post ℚ := { postid := some "p1", imageLink := some 1 }

def secondPost : Post ℚ := { postid := some "p2", imageLink := some 1 }

def noDate (_ : Date ℚ) : String := ""

theorem right_firstPost : ∃ final shown,
    Runs (computes (step noDate)) { cell := {} }
      [.fillData firstPost "u1", .imageCompleted 0 (.url "1"), .avatarCompleted 0 .error] final shown ∧
      (final.images = [] ∧ final.avatars = []) ∧ shown ≠ [] ∧ ∀ state ∈ shown, state.Right := by
  have run : Runs (computes (step noDate)) { cell := {} }
      [.fillData firstPost "u1", .imageCompleted 0 (.url "1"), .avatarCompleted 0 .error] _
      ([_] ++ ([_] ++ ([_] ++ []))) := .next rfl (.next rfl (.next rfl (.done _)))
  refine ⟨_, _, run, ⟨rfl, rfl⟩, List.cons_ne_nil _ _, ?_⟩
  refine (right_iff_own rfl run).mpr
    (.next ⟨?_, rfl⟩ (.next ⟨?_, rfl⟩ (.next ⟨trivial, rfl⟩ (.done _))))
  · intro _ source from_
    cases from_
  · intro download pending post useruid filled _
    cases pending
    cases filled
    rfl

/-- The cell is filled with two posts, and the first request comes back last: it ends up with the
second post and the image of the first. -/
theorem other_image_shown : ∃ final shown,
    Runs (computes (step noDate)) { cell := {} }
      [.fillData firstPost "u1", .fillData secondPost "u1", .imageCompleted 1 (.url "2"),
        .imageCompleted 0 (.url "1"), .avatarCompleted 0 .error, .avatarCompleted 0 .error] final shown ∧
      (final.images = [] ∧ final.avatars = []) ∧
      (final.last = some (secondPost, "u1") ∧ final.cell.imageviewPost.image = some "1") ∧
      ¬ ∀ state ∈ shown, state.Right := by
  have run : Runs (computes (step noDate)) { cell := {} }
      [.fillData firstPost "u1", .fillData secondPost "u1", .imageCompleted 1 (.url "2"),
        .imageCompleted 0 (.url "1"), .avatarCompleted 0 .error, .avatarCompleted 0 .error] _
      ([_] ++ ([_] ++ ([_] ++ ([_] ++ ([_] ++ ([_] ++ [])))))) :=
    .next rfl (.next rfl (.next rfl (.next rfl (.next rfl (.next rfl (.done _))))))
  refine ⟨_, _, run, ⟨rfl, rfl⟩, ⟨rfl, rfl⟩, fun all => ?_⟩
  -- The fourth state: the request of the first fill has just come back.
  have right := all _ (List.mem_cons_of_mem _
    (List.mem_cons_of_mem _ (List.mem_cons_of_mem _ List.mem_cons_self)))
  have same := (right secondPost "u1" rfl).other rfl (postimageref firstPost "u1") rfl
  exact absurd same (by decide)

end ReusedCell

end ProjectF02
