import ProjectF02.Posts.UpStatusViewController

/-! Everything one step of the share screens can do.

The effects are stated once, for states whose pending image posts carry the key
that their clock reading formats to. Such a state never makes a step fail, and
every step leads to such a state again.
-/

set_option autoImplicit false

namespace ProjectF02.Sharing
open Swift Firebase Transition

variable {Image Double Screen : Type} [Ring Double] [LinearOrder Double] [FloorRing Double]

def State.Stamped (state : State Image Double Screen) : Prop :=
  ∀ post ∈ state.uploads ++ state.downloads, post.strmydate = formatWhole post.mytimestamp

def State.post (state : State Image Double Screen) (vc : UpStatusViewController Image Double)
    (timestamp : Double) (linkimage : Int64) : State Image Double Screen × List (Written Double) :=
  let mypost := vc.mypost (formatWhole timestamp) timestamp vc.uid linkimage
  ({ state with database := state.database.updateChild ["Post", formatWhole timestamp] mypost.node },
    [(formatWhole timestamp, mypost)])

theorem State.write_eq (state : State Image Double Screen) (vc : UpStatusViewController Image Double)
    (timestamp : Double) (linkimage : Int64) :
    state.write (vc.upPostFirebase (formatWhole timestamp) timestamp vc.uid linkimage state.database) =
      .ok (state.post vc timestamp linkimage) := by
  rw [UpStatusViewController.upPostFirebase_eq]
  rfl

variable [DecidableEq Screen]

inductive Effect (state : State Image Double Screen) :
    Event Image Double Screen → State Image Double Screen × List (Written Double) → Prop where
  | idle (event : Event Image Double Screen) : Effect state event (state, [])
  | edited (event : Event Image Double Screen) (screen : Screen)
      (vc : UpStatusViewController Image Double)
      (same : vc.userforstatusvc = (state.screens screen).userforstatusvc) :
      Effect state event (state.edit screen vc, [])
  | uploading (screen : Screen) (mydate : Date Double) (image : Image) :
      Effect state (.tapped screen mydate) ({ state with
        uploads := state.uploads ++ [{
          screen := screen
          storageref := ((StoragePath.child [] "post").child (state.screens screen).uid).child
            ((state.screens screen).uid ++ formatWhole mydate.timeIntervalSince1970)
          imagepick := image
          strmydate := formatWhole mydate.timeIntervalSince1970
          mytimestamp := mydate.timeIntervalSince1970 }] }, [])
  | postedText (screen : Screen) (mydate : Date Double) :
      Effect state (.tapped screen mydate)
        (state.post (state.screens screen) mydate.timeIntervalSince1970 FALSE)
  | postedUnsent (screen : Screen) (mydate : Date Double)
      (blank : (state.screens screen).contentTextView = some "")
      (image : (state.screens screen).imagePostup.isSome) :
      Effect state (.tapped screen mydate)
        (state.post (state.screens screen) mydate.timeIntervalSince1970 TRUE)
  | dropped (event : Event Image Double Screen) (uploads downloads : List (ImagePost Image Double Screen))
      (fewerUploads : uploads ⊆ state.uploads) (fewerDownloads : downloads ⊆ state.downloads) :
      Effect state event ({ state with uploads := uploads, downloads := downloads }, [])
  | stored (task : Nat) (post : ImagePost Image Double Screen) (pending : post ∈ state.uploads) :
      Effect state (.uploaded task true) ({ state with
        uploads := state.uploads.eraseIdx task
        storage := state.storage.insert post.storageref post.imagepick
        downloads := state.downloads ++ [post] }, [])
  | postedImage (task : Nat) (post : ImagePost Image Double Screen) (pending : post ∈ state.downloads) :
      Effect state (.located task true)
        ({ state with downloads := state.downloads.eraseIdx task }.post
          (state.screens post.screen) post.mytimestamp TRUE)

theorem tapped_effect (state : State Image Double Screen) (screen : Screen) (mydate : Date Double) :
    ∃ result, buttonUppostAction state screen mydate = .ok result ∧
      Effect state (.tapped screen mydate) result := by
  simp only [buttonUppostAction, State.write_eq]
  split
  next text image shown picked =>
    by_cases filled : text = ""
    · have blank : (state.screens screen).contentTextView = some "" := by rw [shown, filled]
      exact ⟨_, if_neg (not_not.mpr filled), .postedUnsent screen mydate blank (by rw [picked]; rfl)⟩
    · exact ⟨_, if_pos filled, .uploading screen mydate image⟩
  next text shown absent =>
    by_cases filled : text = ""
    · exact ⟨_, if_neg (not_not.mpr filled), .idle _⟩
    · exact ⟨_, if_pos filled, .postedText screen mydate⟩
  next => exact ⟨_, rfl, .idle _⟩

theorem step_tapped_text {state : State Image Double Screen} {screen : Screen} {text : String}
    (shown : (state.screens screen).contentTextView = some text) (filled : text ≠ "")
    (absent : (state.screens screen).imagePostup = none) (mydate : Date Double) :
    step state (.tapped screen mydate) =
      .ok (state.post (state.screens screen) mydate.timeIntervalSince1970 FALSE) := by
  simp only [step, buttonUppostAction, State.write_eq, shown, absent, filled, ne_eq, not_false_eq_true,
    if_true]

/-- A tap with an image and an empty text writes the post without an upload. -/
theorem step_tapped_unsent {state : State Image Double Screen} {screen : Screen} {image : Image}
    (blank : (state.screens screen).contentTextView = some "")
    (picked : (state.screens screen).imagePostup = some image) (mydate : Date Double) :
    step state (.tapped screen mydate) =
      .ok (state.post (state.screens screen) mydate.timeIntervalSince1970 TRUE) := by
  simp only [step, buttonUppostAction, State.write_eq, blank, picked, ne_eq, not_true_eq_false, if_false]

theorem step_located {state : State Image Double Screen} {task : Nat}
    {post : ImagePost Image Double Screen} (found : state.downloads[task]? = some post)
    (key : post.strmydate = formatWhole post.mytimestamp) :
    step state (.located task true) =
      .ok ({ state with downloads := state.downloads.eraseIdx task }.post
        (state.screens post.screen) post.mytimestamp TRUE) := by
  simp only [step, urlCompleted, found, if_true, key]
  exact State.write_eq _ _ _ _

theorem uploaded_effect (state : State Image Double Screen) (task : Nat) (success : Bool) :
    Effect state (.uploaded task success) (uploadCompleted state task success, []) := by
  unfold uploadCompleted
  split
  next => exact .idle _
  next post found =>
    cases success with
    | false => exact .dropped _ _ _ List.eraseIdx_subset (List.Subset.refl _)
    | true => exact .stored task post (List.mem_of_getElem? found)

theorem located_effect {state : State Image Double Screen} (stamped : state.Stamped) (task : Nat)
    (success : Bool) : ∃ result, step state (.located task success) = .ok result ∧
      Effect state (.located task success) result := by
  cases found : state.downloads[task]? with
  | none => exact ⟨(state, []), by simp only [step, urlCompleted, found], .idle _⟩
  | some post =>
    have pending := List.mem_of_getElem? found
    cases success with
    | false =>
      refine ⟨({ state with downloads := state.downloads.eraseIdx task }, []), ?_,
        .dropped _ _ _ (List.Subset.refl _) List.eraseIdx_subset⟩
      simp only [step, urlCompleted, found, Bool.false_eq_true, if_false]
    | true =>
      exact ⟨_, step_located found (stamped post (List.mem_append_right _ pending)),
        .postedImage task post pending⟩

theorem step_effect {state : State Image Double Screen} (stamped : state.Stamped)
    (event : Event Image Double Screen) :
    ∃ result, step state event = .ok result ∧ Effect state event result := by
  cases event with
  | typed screen text => exact ⟨_, rfl, .edited _ screen _ rfl⟩
  | picked screen image => exact ⟨_, rfl, .edited _ screen _ rfl⟩
  | tapped screen mydate => exact tapped_effect state screen mydate
  | uploaded task success => exact ⟨_, rfl, uploaded_effect state task success⟩
  | located task success => exact located_effect stamped task success

theorem Effect.of_step {state next : State Image Double Screen} {event : Event Image Double Screen}
    {posts : List (Written Double)} (stamped : state.Stamped)
    (taken : step state event = .ok (next, posts)) : Effect state event (next, posts) := by
  obtain ⟨result, same, effect⟩ := step_effect stamped event
  rw [taken] at same
  exact Except.ok.inj same ▸ effect

theorem Effect.pending {state : State Image Double Screen} {event : Event Image Double Screen}
    {result : State Image Double Screen × List (Written Double)} (effect : Effect state event result)
    {post : ImagePost Image Double Screen} (member : post ∈ result.1.uploads ++ result.1.downloads) :
    post ∈ state.uploads ++ state.downloads ∨
      post.strmydate = formatWhole post.mytimestamp ∧
        post.storageref = ((StoragePath.child [] "post").child (state.screens post.screen).uid).child
          ((state.screens post.screen).uid ++ post.strmydate) := by
  cases effect with
  | uploading screen mydate image =>
    simp only [List.append_assoc, List.mem_append, List.mem_singleton] at member
    rcases member with earlier | rfl | waiting
    · exact .inl (List.mem_append_left _ earlier)
    · exact .inr ⟨rfl, rfl⟩
    · exact .inl (List.mem_append_right _ waiting)
  | dropped _ uploads downloads fewerUploads fewerDownloads =>
    rcases List.mem_append.mp member with upload | download
    · exact .inl (List.mem_append_left _ (fewerUploads upload))
    · exact .inl (List.mem_append_right _ (fewerDownloads download))
  | stored task moved pending =>
    -- The upload that succeeded moves from one list to the other.
    simp only [List.mem_append, List.mem_singleton] at member
    rcases member with upload | download | rfl
    · exact .inl (List.mem_append_left _ (List.eraseIdx_subset upload))
    · exact .inl (List.mem_append_right _ download)
    · exact .inl (List.mem_append_left _ pending)
  | postedImage task posted pending =>
    rcases List.mem_append.mp member with upload | download
    · exact .inl (List.mem_append_left _ upload)
    · exact .inl (List.mem_append_right _ (List.eraseIdx_subset download))
  | _ => exact .inl member

theorem Effect.stamped {state : State Image Double Screen} {event : Event Image Double Screen}
    {result : State Image Double Screen × List (Written Double)} (effect : Effect state event result)
    (stamped : state.Stamped) : result.1.Stamped := by
  intro post member
  rcases effect.pending member with earlier | ⟨stamp, -⟩
  · exact stamped post earlier
  · exact stamp

end ProjectF02.Sharing
