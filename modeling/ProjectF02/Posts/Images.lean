import ProjectF02.Posts.Records

/-! The images that posts claim to have.

The record of an image post is written after its upload, under the path the cell
reads. The branch of the share button for an image without a text writes the
record and uploads nothing.
-/

set_option autoImplicit false

namespace ProjectF02
open Swift Firebase Transition Store

variable {Image Double Screen : Type}

/-- Where `PostTableViewCell.fillData` looks for the image of a post. -/
def PostTableViewCell.postimageref (post : Post Double) (useruid : String) : StoragePath :=
  ((StoragePath.child [] "post").child useruid).child (post.postid.getD "")

namespace Sharing

/-- Where `buttonUppostAction` puts the image of a post. -/
def imageref (uid strmydate : String) : StoragePath :=
  ((StoragePath.child [] "post").child uid).child (uid ++ strmydate)

variable [Ring Double] [LinearOrder Double] [FloorRing Double]

/-- Each record that reads as a post with an image has one where the cell looks for it. -/
def State.ImagesStored [NSScanner] (state : State Image Double Screen) : Prop :=
  ∀ key node order post, state.posts.lookup key = some node →
    Post.ofSnapshot order node.val = .ok post → post.imageLink = some 1 →
    PostTableViewCell.postimageref post (post.uid.getD "") ∈ state.storage

/-- The invariant of the screens: pending posts are addressed to the path of their user and
second, a post that waits for its URL is uploaded, and no record claims a missing image. -/
structure State.Sound [NSScanner] (state : State Image Double Screen) : Prop where
  stamped : state.Stamped
  addressed : ∀ post ∈ state.uploads ++ state.downloads,
    post.storageref = imageref (state.screens post.screen).uid post.strmydate
  uploaded : ∀ post ∈ state.downloads, post.storageref ∈ state.storage
  images : state.ImagesStored

/-- The tap does not share an image without a text, unless the image is there already. -/
def ImageSent (state : State Image Double Screen) : Event Image Double Screen → Prop
  | .tapped screen mydate =>
      (state.screens screen).contentTextView = some "" → (state.screens screen).imagePostup.isSome →
        imageref (state.screens screen).uid (formatWhole mydate.timeIntervalSince1970) ∈ state.storage
  | _ => True

theorem State.ImagesStored.post [NSScanner] {state : State Image Double Screen} (images : state.ImagesStored)
    (vc : UpStatusViewController Image Double) (timestamp : Double) (linkimage : Int64)
    (sent : linkimage = TRUE → imageref vc.uid (formatWhole timestamp) ∈ state.storage) :
    (state.post vc timestamp linkimage).1.ImagesStored := by
  intro key node order post found decoded claims
  have reached := posts_post state vc timestamp linkimage
  rw [reached] at found
  change ((state.posts.insert (formatWhole timestamp) _).lookup key) = some node at found
  -- Only the record under this key is new.
  by_cases same : key = formatWhole timestamp
  · subst same
    rw [AList.lookup_insert] at found
    obtain rfl := Option.some.inj found
    have scalars := Post.sameScalars_ofSnapshot order decoded
    have link : linkimage = TRUE := by
      rw [scalars.imageLink] at claims
      unfold UpStatusViewController.mypost at claims
      by_contra other
      simp only [other, if_false] at claims
      split at claims
      · exact absurd claims (by decide)
      · cases claims
    unfold PostTableViewCell.postimageref
    rw [scalars.uid, scalars.postid]
    exact sent link
  · rw [AList.lookup_insert_ne same] at found
    exact images key node order post found decoded claims

variable [DecidableEq Screen]

omit [Ring Double] [LinearOrder Double] [FloorRing Double] in
theorem uid_edit {state : State Image Double Screen} {screen : Screen}
    {vc : UpStatusViewController Image Double}
    (same : vc.userforstatusvc = (state.screens screen).userforstatusvc) (other : Screen) :
    ((state.edit screen vc).screens other).uid = (state.screens other).uid := by
  have shown : (state.edit screen vc).screens other = if other = screen then vc else state.screens other :=
    Function.update_apply _ _ _ _
  unfold UpStatusViewController.uid
  rw [shown]
  split
  next edited => rw [same, edited]
  next => rfl

theorem Effect.uid {state : State Image Double Screen} {event : Event Image Double Screen}
    {result : State Image Double Screen × List (Written Double)} (effect : Effect state event result)
    (screen : Screen) : (result.1.screens screen).uid = (state.screens screen).uid := by
  cases effect with
  | edited _ edited vc same => exact uid_edit same screen
  | _ => rfl

theorem Effect.uploaded {state : State Image Double Screen} {event : Event Image Double Screen}
    {result : State Image Double Screen × List (Written Double)} (effect : Effect state event result)
    (uploaded : ∀ post ∈ state.downloads, post.storageref ∈ state.storage) :
    ∀ post ∈ result.1.downloads, post.storageref ∈ result.1.storage := by
  cases effect with
  | dropped _ _ downloads _ fewerDownloads =>
    exact fun post pending => uploaded post (fewerDownloads pending)
  | stored task post pending =>
    intro other waiting
    rcases List.mem_append.mp waiting with download | current
    · exact (AList.mem_insert _).mpr (.inr (uploaded other download))
    · obtain rfl := List.mem_singleton.mp current
      exact (AList.mem_insert _).mpr (.inl rfl)
  | postedImage task post pending =>
    exact fun other waiting => uploaded other (List.eraseIdx_subset waiting)
  | _ => exact uploaded

theorem Effect.images [NSScanner] {state : State Image Double Screen} {event : Event Image Double Screen}
    {result : State Image Double Screen × List (Written Double)} (effect : Effect state event result)
    (sent : ImageSent state event) (sound : state.Sound) : result.1.ImagesStored := by
  have images := sound.images
  cases effect with
  | postedText screen mydate => exact images.post _ _ _ fun link => absurd link (by decide)
  | postedUnsent screen mydate blank image => exact images.post _ _ _ fun _ => sent blank image
  | stored task post pending =>
    -- Storage only grows, so no image that was there goes missing.
    intro key node order read found decoded claims
    exact (AList.mem_insert _).mpr (.inr (images key node order read found decoded claims))
  | postedImage task post pending =>
    -- The post is written to the path that its upload went to before.
    have member := List.mem_append_right state.uploads pending
    have address := sound.addressed post member
    rw [sound.stamped post member] at address
    apply State.ImagesStored.post images
    intro _
    exact address ▸ sound.uploaded post pending
  | _ => exact images

theorem Effect.sound [NSScanner] {state : State Image Double Screen} {event : Event Image Double Screen}
    {result : State Image Double Screen × List (Written Double)} (effect : Effect state event result)
    (sent : ImageSent state event) (sound : state.Sound) : result.1.Sound := by
  refine ⟨effect.stamped sound.stamped, fun post pending => ?_, effect.uploaded sound.uploaded,
    effect.images sent sound⟩
  rw [effect.uid]
  rcases effect.pending pending with earlier | ⟨-, address⟩
  · exact sound.addressed post earlier
  · exact address

theorem imageSent_of_imagesStored [NSScanner] {state next : State Image Double Screen}
    {event : Event Image Double Screen} {written : List (Written Double)}
    (taken : step state event = .ok (next, written)) (images : next.ImagesStored) : ImageSent state event := by
  cases event with
  | tapped screen mydate =>
    intro blank picked
    obtain ⟨image, shown⟩ := Option.isSome_iff_exists.mp picked
    rw [step_tapped_unsent blank shown] at taken
    cases taken
    have found := lookup_posts_post state (state.screens screen) mydate.timeIntervalSince1970 TRUE
    obtain ⟨data, decoded, -⟩ := Post.ofSnapshot_node .stored ((state.screens screen).stored_mypost
      (formatWhole mydate.timeIntervalSince1970) mydate.timeIntervalSince1970 (state.screens screen).uid TRUE)
    have scalars := Post.sameScalars_ofSnapshot .stored decoded
    have claimed := images _ _ .stored _ found decoded scalars.imageLink
    rw [PostTableViewCell.postimageref, scalars.uid, scalars.postid] at claimed
    exact claimed
  | _ => trivial

theorem imagesStored_step_iff [NSScanner] {state next : State Image Double Screen}
    {event : Event Image Double Screen} {shown : List (State Image Double Screen)} (sound : state.Sound)
    (taken : (computes step).showing state event next shown) :
    (∀ reached ∈ shown, reached.ImagesStored) ↔ ImageSent state event := by
  obtain ⟨rfl, written, ran⟩ := taken
  rw [List.forall_mem_singleton]
  constructor
  · exact imageSent_of_imagesStored ran
  · exact fun sent => ((Effect.of_step sound.stamped ran).sound sent sound).images

variable {state final : State Image Double Screen} {events : List (Event Image Double Screen)}
  {shown : List (State Image Double Screen)}

theorem images_stored_iff_sent [NSScanner] (fresh : state.uploads = [] ∧ state.downloads = [])
    (images : state.ImagesStored) (run : Runs (computes step).showing state events final shown) :
    (∀ reached ∈ shown, reached.ImagesStored) ↔
      Runs ((computes step).showing.guardedBy ImageSent) state events final shown := by
  have initial : state.Sound := by
    constructor
    · intro post pending
      simp [fresh] at pending
    · intro post pending
      simp [fresh] at pending
    · intro post pending
      simp [fresh] at pending
    · exact images
  refine run.outputs_forall_iff_guarded State.Sound ImageSent State.ImagesStored
    (fun _ _ _ _ sound taken => imagesStored_step_iff sound taken) (fun _ _ _ _ sound taken sent => ?_) initial
  obtain ⟨-, written, ran⟩ := taken
  exact (Effect.of_step sound.stamped ran).sound sent sound

def opened : State Unit ℚ Unit where
  screens _ := { userforstatusvc := some (User.registered 0) }
  database := .empty

def shareDate : Date ℚ := ⟨1541650000⟩

theorem opened_images [NSScanner] : opened.ImagesStored := by
  intro key node order post found
  cases found

theorem images_stored_iff_sent_located : ∃ (final : State Unit ℚ Unit) (shown : List (State Unit ℚ Unit)),
    Runs (computes step).showing opened
      [.picked () (), .typed () "Hi", .tapped () shareDate, .uploaded 0 true, .located 0 true]
      final shown ∧ final.posts.entries ≠ [] ∧ ∀ reached ∈ shown, reached.ImagesStored := by
  let vc : UpStatusViewController Unit ℚ :=
    { contentTextView := some "Hi", imagePostup := some (), userforstatusvc := some (User.registered 0) }
  let post : ImagePost Unit ℚ Unit :=
    ⟨(), imageref "u1" (formatWhole shareDate.timeIntervalSince1970), (),
      formatWhole shareDate.timeIntervalSince1970, shareDate.timeIntervalSince1970⟩
  let waiting : State Unit ℚ Unit :=
    { screens := Function.update (Function.update opened.screens () { vc with contentTextView := some "" })
        () vc, database := .empty, storage := AList.insert post.storageref () ∅, downloads := [post] }
  let final := ({ waiting with downloads := [] }.post vc shareDate.timeIntervalSince1970 TRUE).1
  have located : step waiting (.located 0 true) =
      .ok ({ waiting with downloads := [] }.post vc shareDate.timeIntervalSince1970 TRUE) :=
    @step_located _ _ _ _ _ _ _ waiting 0 post rfl rfl
  have guarded : Runs ((computes step).showing.guardedBy ImageSent) opened
      [.picked () (), .typed () "Hi", .tapped () shareDate, .uploaded 0 true, .located 0 true]
      final ([_] ++ ([_] ++ ([_] ++ ([waiting] ++ ([final] ++ []))))) :=
    .next ⟨trivial, rfl, _, rfl⟩ (.next ⟨trivial, rfl, _, rfl⟩
      (.next ⟨fun blank => absurd blank (by decide), rfl, _, rfl⟩ (.next ⟨trivial, rfl, _, rfl⟩
        (.next ⟨trivial, rfl, _, located⟩ (.done _)))))
  have run := guarded.unguarded
  refine ⟨final, _, run, ?_, (images_stored_iff_sent ⟨rfl, rfl⟩ opened_images run).mpr guarded⟩
  intro none
  have found := lookup_posts_post { waiting with downloads := [] } vc shareDate.timeIntervalSince1970 TRUE
  rw [show (State.post _ vc _ TRUE).1.posts = ∅ from AList.ext none, AList.lookup_empty] at found
  cases found

/-- An image without a text: the record claims an image that was never sent. -/
theorem image_missing : ∃ final written,
    Runs (computes step) opened [.picked () (), .tapped () shareDate] final written ∧
      ¬ final.ImagesStored := by
  let picked := opened.edit () { opened.screens () with imagePostup := some () }
  have tapped : step picked (.tapped () shareDate) =
      .ok (picked.post (picked.screens ()) shareDate.timeIntervalSince1970 TRUE) :=
    step_tapped_unsent rfl rfl _
  have run : Runs (computes step) opened [.picked () (), .tapped () shareDate] _ ([] ++ ([_] ++ [])) :=
    .next rfl (.next tapped (.done _))
  refine ⟨_, _, run, fun images => ?_⟩
  have found := lookup_posts_post picked (picked.screens ()) shareDate.timeIntervalSince1970 TRUE
  obtain ⟨data, decoded, -⟩ := Post.ofSnapshot_node .stored ((picked.screens ()).stored_mypost
    (formatWhole shareDate.timeIntervalSince1970) shareDate.timeIntervalSince1970 "u1" TRUE)
  have scalars := Post.sameScalars_ofSnapshot .stored decoded
  have missing := images _ _ .stored _ found decoded scalars.imageLink
  cases missing

end Sharing

end ProjectF02
