import ProjectF02.Store.LastWrites
import ProjectF02.Transition.Runs
import Mathlib.Data.List.Perm.Basic

/-! Image views that are given URLs, with the caches and the downloads they share.

Transcribed from the extension of `ImageView`, `KingfisherManager`, `ImageCache` and
`ImageDownloader` for the default options, which are the ones the program uses, and
without cancelling. Reads of the disk, downloads and their callbacks may come back
in any order. The disk keeps one file for each URL: the hashes that name the files
are taken as distinct.
-/

set_option autoImplicit false

namespace ProjectF02.Kingfisher
open Store Transition

variable {View URL Image : Type}

structure ImageView (URL Image : Type) where
  image : Option Image := none
  webURL : Option URL := none

/-- The view to which an image is to be set, and the image's URL. -/
abbrev Request (View URL : Type) := View × URL

/-- The end of a retrieval: an image, or none after an error. -/
abbrev Answer (View URL Image : Type) := Request View URL × Option Image

structure State (View URL Image : Type) where
  views : View → ImageView URL Image
  memoryCache : Map URL Image := ∅
  diskCache : Map URL Image := ∅
  diskWrites : List (URL × Image) := []
  -- Reads of the disk, before and after they took place.
  lookups : List (Request View URL) := []
  found : List (Answer View URL Image) := []
  -- The views whose completion handlers wait for the download of a URL.
  fetchLoads : Map URL (List View) := ∅
  callbacks : List (Answer View URL Image) := []

inductive Event (View URL Image : Type) where
  | setImage (view : View) (resource : Option URL)
  | readDisk (lookup : ℕ)
  | retrieved (answer : ℕ)
  -- A download of this URL ends, with the image in its data, if there is one.
  | processImage (url : URL) (image : Option Image)
  | callCompletionHandlerFailure (url : URL)
  | downloaded (callback : ℕ)
  | writeDisk (write : ℕ)
  | clearMemoryCache
  | evicted (url : URL)
  | expired (url : URL)

namespace State
variable [DecidableEq View] [DecidableEq URL]

def completionHandler (state : State View URL Image) (request : Request View URL) (image : Option Image) :
    State View URL Image :=
  if (state.views request.1).webURL = some request.2 then
    match image with
    | some image => { state with
        views := Function.update state.views request.1 { state.views request.1 with image := some image } }
    | none => state
  else state

def setImage (state : State View URL Image) (view : View) (resource : Option URL) :
    State View URL Image × List (Answer View URL Image) :=
  -- Without a placeholder the image is emptied.
  let state := { state with views := Function.update state.views view { image := none, webURL := resource } }
  match resource with
  | none => (state, [])
  | some url =>
    match state.memoryCache.lookup url with
    | some image => (state.completionHandler (view, url) (some image), [((view, url), some image)])
    | none => ({ state with lookups := state.lookups ++ [(view, url)] }, [])

/-- The part of `retrieveImage` that runs on the queue of the disk. -/
def readDisk (state : State View URL Image) (lookup : ℕ) : State View URL Image :=
  match state.lookups[lookup]? with
  | none => state
  | some request =>
    let state := { state with lookups := state.lookups.eraseIdx lookup }
    match state.diskCache.lookup request.2 with
    | some image => { state with
        memoryCache := state.memoryCache.insert request.2 image
        found := state.found ++ [(request, some image)] }
    | none => { state with found := state.found ++ [(request, none)] }

/-- A download that is running serves the new request, too. -/
def downloadImage (state : State View URL Image) (request : Request View URL) : State View URL Image :=
  { state with
    fetchLoads := state.fetchLoads.insert request.2
      ((state.fetchLoads.lookup request.2).getD [] ++ [request.1]) }

def retrieved (state : State View URL Image) (answer : ℕ) :
    State View URL Image × List (Answer View URL Image) :=
  match state.found[answer]? with
  | none => (state, [])
  | some (request, image) =>
    let state := { state with found := state.found.eraseIdx answer }
    match image with
    | some image => (state.completionHandler request (some image), [(request, some image)])
    | none => (state.downloadImage request, [])

def processImage (state : State View URL Image) (url : URL) (image : Option Image) : State View URL Image :=
  match state.fetchLoads.lookup url with
  | none => state
  | some contents => { state with
      fetchLoads := state.fetchLoads.erase url
      callbacks := state.callbacks ++ contents.map fun view => ((view, url), image) }

def callCompletionHandlerFailure (state : State View URL Image) (url : URL) :
    State View URL Image × List (Answer View URL Image) :=
  match state.fetchLoads.lookup url with
  | none => (state, [])
  | some contents =>
    (contents.foldl (fun state view => state.completionHandler (view, url) none)
      { state with fetchLoads := state.fetchLoads.erase url }, contents.map fun view => ((view, url), none))

def downloaded (state : State View URL Image) (callback : ℕ) :
    State View URL Image × List (Answer View URL Image) :=
  match state.callbacks[callback]? with
  | none => (state, [])
  | some (request, image) =>
    let state := { state with callbacks := state.callbacks.eraseIdx callback }
    let state := match image with
      | some image => { state with
          memoryCache := state.memoryCache.insert request.2 image
          diskWrites := state.diskWrites ++ [(request.2, image)] }
      | none => state
    (state.completionHandler request image, [(request, image)])

def writeDisk (state : State View URL Image) (write : ℕ) : State View URL Image :=
  match state.diskWrites[write]? with
  | none => state
  | some (url, image) => { state with
      diskWrites := state.diskWrites.eraseIdx write
      diskCache := state.diskCache.insert url image }

def step (state : State View URL Image) :
    Event View URL Image → State View URL Image × List (Answer View URL Image)
  | .setImage view resource => state.setImage view resource
  | .readDisk lookup => (state.readDisk lookup, [])
  | .retrieved answer => state.retrieved answer
  | .processImage url image => (state.processImage url image, [])
  | .callCompletionHandlerFailure url => state.callCompletionHandlerFailure url
  | .downloaded callback => state.downloaded callback
  | .writeDisk write => (state.writeDisk write, [])
  | .clearMemoryCache => ({ state with memoryCache := ∅ }, [])
  | .evicted url => ({ state with memoryCache := state.memoryCache.erase url }, [])
  | .expired url => ({ state with diskCache := state.diskCache.erase url }, [])

end State

def system [DecidableEq View] [DecidableEq URL] :
    System (State View URL Image) (Event View URL Image) (Answer View URL Image) :=
  fun state event next emitted => state.step event = (next, emitted)

def State.run [DecidableEq View] [DecidableEq URL] (state : State View URL Image) :
    List (Event View URL Image) → State View URL Image × List (Answer View URL Image)
  | [] => (state, [])
  | event :: events =>
    (((state.step event).1.run events).1, (state.step event).2 ++ ((state.step event).1.run events).2)

theorem runs_run [DecidableEq View] [DecidableEq URL] (state : State View URL Image)
    (events : List (Event View URL Image)) :
    Runs system state events (state.run events).1 (state.run events).2 := by
  induction events generalizing state with
  | nil => exact .done state
  | cons event events ih => exact .next rfl (ih _)

/-! ## Requests and their answers -/

def requested : Event View URL Image → List (Request View URL)
  | .setImage view (some url) => [(view, url)]
  | _ => []

section
variable {Item Target : Type} [BEq Target] [LawfulBEq Target]

omit [LawfulBEq Target] in
theorem count_map_eraseIdx {items : List Item} {index : ℕ} {item : Item} (found : items[index]? = some item)
    (key : Item → Target) (target : Target) :
    (items.map key).count target =
      ((items.eraseIdx index).map key).count target + if key item == target then 1 else 0 := by
  obtain ⟨within, same⟩ := List.getElem?_eq_some_iff.mp found
  have moved := (List.getElem_cons_eraseIdx_perm within).map key
  rw [← moved.count_eq, same, List.map_cons, List.count_cons]

end

namespace State
variable [DecidableEq View] [DecidableEq URL]

def pending (state : State View URL Image) (request : Request View URL) : ℕ :=
  state.lookups.count request + (state.found.map Prod.fst).count request +
    ((state.fetchLoads.lookup request.2).getD []).count request.1 +
    (state.callbacks.map Prod.fst).count request

@[simp] theorem pending_completionHandler (state : State View URL Image) (request other : Request View URL)
    (image : Option Image) : (state.completionHandler request image).pending other = state.pending other := by
  unfold completionHandler
  split
  · cases image <;> rfl
  · rfl

theorem foldl_completionHandler_none (state : State View URL Image) (contents : List View) (url : URL) :
    contents.foldl (fun state view => state.completionHandler (view, url) none) state = state := by
  induction contents with
  | nil => rfl
  | cons view rest ih =>
    rw [List.foldl_cons]
    have same : state.completionHandler (view, url) none = state := by
      unfold completionHandler
      exact ite_self state
    rw [same, ih]

theorem count_map_pair (contents : List View) (url : URL) (request : Request View URL) :
    (contents.map fun view => (view, url)).count request = if url = request.2 then contents.count request.1 else 0 := by
  obtain ⟨view, other⟩ := request
  induction contents with
  | nil => simp
  | cons first rest ih =>
    rw [List.map_cons, List.count_cons, ih, List.count_cons]
    by_cases same : url = other <;> simp [same]

theorem pending_setImage (state : State View URL Image) (view : View) (resource : Option URL)
    (request : Request View URL) :
    ((state.setImage view resource).2.map Prod.fst).count request +
        (state.setImage view resource).1.pending request =
      (resource.toList.map fun url => (view, url)).count request + state.pending request := by
  cases resource with
  | none => simp [setImage, pending]
  | some url =>
    cases hit : state.memoryCache.lookup url with
    | some image =>
      simp only [setImage, hit, pending_completionHandler]
      rfl
    | none =>
      simp only [setImage, hit, pending, List.map_nil, List.count_nil, List.count_append, Option.toList_some,
        List.map_cons]
      omega

theorem pending_readDisk (state : State View URL Image) (lookup : ℕ) (request : Request View URL) :
    (state.readDisk lookup).pending request = state.pending request := by
  unfold readDisk
  split
  next => rfl
  next started found =>
    have moved := count_map_eraseIdx found id request
    simp only [List.map_id, id_eq] at moved
    cases hit : state.diskCache.lookup started.2 <;>
      simp only [hit, pending, moved, List.map_append, List.count_append, List.map_cons, List.map_nil,
        List.count_singleton] <;> omega

theorem pending_downloadImage (state : State View URL Image) (started request : Request View URL) :
    (state.downloadImage started).pending request =
      state.pending request + if started == request then 1 else 0 := by
  obtain ⟨view, url⟩ := started
  obtain ⟨other, otherUrl⟩ := request
  by_cases same : otherUrl = url
  · subst same
    simp only [downloadImage, pending, AList.lookup_insert, Option.getD_some, List.count_append,
      List.count_singleton, beq_iff_eq, Prod.mk.injEq, and_true]
    omega
  · have apart : ¬ (view, url) = (other, otherUrl) := fun both => same (congrArg Prod.snd both).symm
    simp only [downloadImage, pending, AList.lookup_insert_ne same, beq_iff_eq, apart, if_false, Nat.add_zero]

theorem pending_retrieved (state : State View URL Image) (answer : ℕ) (request : Request View URL) :
    ((state.retrieved answer).2.map Prod.fst).count request + (state.retrieved answer).1.pending request =
      state.pending request := by
  unfold retrieved
  split
  next => simp
  next started image found =>
    have moved := count_map_eraseIdx found Prod.fst request
    dsimp only at moved
    cases image with
    | some image =>
      rw [pending_completionHandler, List.map_singleton, List.count_singleton]
      simp only [pending, moved]
      omega
    | none =>
      rw [pending_downloadImage]
      simp only [pending, moved, List.map_nil, List.count_nil]
      omega

theorem pending_processImage (state : State View URL Image) (url : URL) (image : Option Image)
    (request : Request View URL) : (state.processImage url image).pending request = state.pending request := by
  unfold processImage
  split
  next => rfl
  next contents waiting =>
    by_cases same : request.2 = url
    · subst same
      simp only [pending, AList.lookup_erase, waiting, List.map_append, List.count_append, List.map_map,
        Function.comp_def, count_map_pair, if_true, Option.getD_none, Option.getD_some, List.count_nil]
      omega
    · have apart : url ≠ request.2 := fun other => same other.symm
      simp only [pending, AList.lookup_erase_ne same, List.map_append, List.count_append, List.map_map,
        Function.comp_def, count_map_pair, apart, if_false, Nat.add_zero]

theorem pending_callCompletionHandlerFailure (state : State View URL Image) (url : URL)
    (request : Request View URL) :
    ((state.callCompletionHandlerFailure url).2.map Prod.fst).count request +
        (state.callCompletionHandlerFailure url).1.pending request = state.pending request := by
  unfold callCompletionHandlerFailure
  split
  next => simp
  next contents waiting =>
    rw [foldl_completionHandler_none]
    by_cases same : request.2 = url
    · subst same
      simp only [pending, AList.lookup_erase, waiting, List.map_map, Function.comp_def, count_map_pair, if_true,
        Option.getD_none, Option.getD_some, List.count_nil]
      omega
    · have apart : url ≠ request.2 := fun other => same other.symm
      simp only [pending, AList.lookup_erase_ne same, List.map_map, Function.comp_def, count_map_pair, apart,
        if_false, Nat.zero_add]

theorem pending_downloaded (state : State View URL Image) (callback : ℕ) (request : Request View URL) :
    ((state.downloaded callback).2.map Prod.fst).count request + (state.downloaded callback).1.pending request =
      state.pending request := by
  unfold downloaded
  split
  next => simp
  next started image found =>
    have moved := count_map_eraseIdx found Prod.fst request
    dsimp only at moved
    rw [pending_completionHandler, List.map_singleton, List.count_singleton]
    cases image <;>
    · simp only [pending, moved]
      omega

theorem pending_step (state : State View URL Image) (event : Event View URL Image) (request : Request View URL) :
    ((state.step event).2.map Prod.fst).count request + (state.step event).1.pending request =
      (requested event).count request + state.pending request := by
  cases event with
  | setImage view resource =>
    rw [step, pending_setImage]
    cases resource <;> rfl
  | readDisk lookup => simp [step, requested, pending_readDisk]
  | retrieved answer => simp [step, requested, pending_retrieved]
  | processImage url image => simp [step, requested, pending_processImage]
  | callCompletionHandlerFailure url => simp [step, requested, pending_callCompletionHandlerFailure]
  | downloaded callback => simp [step, requested, pending_downloaded]
  | writeDisk write =>
    simp only [step, requested, writeDisk]
    split <;> simp [pending]
  | clearMemoryCache => simp [step, requested, pending]
  | evicted url => simp [step, requested, pending]
  | expired url => simp [step, requested, pending]

/-! ## What the views show -/

@[simp] theorem webURL_completionHandler (state : State View URL Image) (request : Request View URL)
    (image : Option Image) (view : View) :
    ((state.completionHandler request image).views view).webURL = (state.views view).webURL := by
  unfold completionHandler
  split
  · cases image with
    | none => rfl
    | some image =>
      by_cases same : view = request.1
      · subst same
        simp
      · simp only [Function.update_of_ne same]
  · rfl

theorem image_completionHandler (state : State View URL Image) (request : Request View URL)
    (image : Option Image) (view : View) :
    ((state.completionHandler request image).views view).image =
      if view = request.1 ∧ (state.views view).webURL = some request.2 then
        image.or (state.views view).image
      else (state.views view).image := by
  unfold completionHandler
  by_cases same : view = request.1
  · subst same
    split
    next waits => cases image <;> simp [waits]
    next apart => simp [apart]
  · simp only [same, false_and, if_false]
    split
    · cases image with
      | none => rfl
      | some image => simp only [Function.update_of_ne same]
    · rfl

theorem isSome_completionHandler {state : State View URL Image} {view : View}
    (shown : (state.views view).image.isSome) (request : Request View URL) (image : Option Image) :
    ((state.completionHandler request image).views view).image.isSome := by
  rw [image_completionHandler]
  split
  · simp [shown]
  · exact shown

theorem isSome_completionHandler_of_answer {state : State View URL Image} {view : View} {url : URL}
    (waits : (state.views view).webURL = some url) (image : Image) :
    ((state.completionHandler (view, url) (some image)).views view).image.isSome := by
  rw [image_completionHandler, if_pos ⟨rfl, waits⟩]
  rfl

theorem views_step (state : State View URL Image) (event : Event View URL Image) (view : View)
    (kept : ∀ resource, event ≠ .setImage view resource) :
    (((state.step event).1.views view).webURL = (state.views view).webURL) ∧
      ((state.views view).image.isSome → ((state.step event).1.views view).image.isSome) := by
  cases event with
  | setImage other resource =>
    have apart : view ≠ other := fun same => kept resource (same ▸ rfl)
    cases resource with
    | none => simp [step, setImage, Function.update_of_ne apart]
    | some url =>
      cases hit : state.memoryCache.lookup url with
      | none => simp [step, setImage, hit, Function.update_of_ne apart]
      | some image =>
        simp only [step, setImage, hit, webURL_completionHandler, image_completionHandler, apart, false_and,
          if_false, Function.update_of_ne apart]
        exact ⟨trivial, id⟩
  | readDisk lookup =>
    simp only [step, readDisk]
    split
    · exact ⟨rfl, id⟩
    · split <;> exact ⟨rfl, id⟩
  | retrieved answer =>
    simp only [step, retrieved]
    split
    · exact ⟨rfl, id⟩
    · split
      · refine ⟨webURL_completionHandler _ _ _ _, fun shown => ?_⟩
        apply isSome_completionHandler
        exact shown
      · exact ⟨rfl, id⟩
  | processImage url image =>
    simp only [step, processImage]
    split <;> exact ⟨rfl, id⟩
  | callCompletionHandlerFailure url =>
    simp only [step, callCompletionHandlerFailure]
    split
    · exact ⟨rfl, id⟩
    · rw [foldl_completionHandler_none]
      exact ⟨rfl, id⟩
  | downloaded callback =>
    simp only [step, downloaded]
    split
    · exact ⟨rfl, id⟩
    next request image _ =>
      cases image <;>
      · refine ⟨webURL_completionHandler _ _ _ _, fun shown => ?_⟩
        apply isSome_completionHandler
        exact shown
  | writeDisk write =>
    simp only [step, writeDisk]
    split <;> exact ⟨rfl, id⟩
  | clearMemoryCache => exact ⟨rfl, id⟩
  | evicted url => exact ⟨rfl, id⟩
  | expired url => exact ⟨rfl, id⟩

theorem shown_of_answered {state : State View URL Image} {event : Event View URL Image} {view : View}
    {url : URL} {image : Image} (answered : ((view, url), some image) ∈ (state.step event).2)
    (waits : ((state.step event).1.views view).webURL = some url) :
    ((state.step event).1.views view).image.isSome := by
  cases event with
  | setImage other resource =>
    cases resource with
    | none => cases answered
    | some otherURL =>
      cases hit : state.memoryCache.lookup otherURL with
      | none =>
        simp only [step, setImage, hit] at answered
        cases answered
      | some held =>
        simp only [step, setImage, hit] at answered waits ⊢
        cases List.mem_singleton.mp answered
        rw [webURL_completionHandler] at waits
        exact isSome_completionHandler_of_answer waits _
  | retrieved answer =>
    cases found : state.found[answer]? with
    | none =>
      simp only [step, retrieved, found] at answered
      cases answered
    | some held =>
      obtain ⟨request, image | image⟩ := held
      · simp only [step, retrieved, found] at answered
        cases answered
      · simp only [step, retrieved, found] at answered waits ⊢
        cases List.mem_singleton.mp answered
        rw [webURL_completionHandler] at waits
        exact isSome_completionHandler_of_answer waits _
  | callCompletionHandlerFailure failed =>
    simp only [step, callCompletionHandlerFailure] at answered
    split at answered
    · cases answered
    · obtain ⟨other, -, same⟩ := List.mem_map.mp answered
      cases same
  | downloaded callback =>
    cases found : state.callbacks[callback]? with
    | none =>
      simp only [step, downloaded, found] at answered
      cases answered
    | some held =>
      obtain ⟨request, image⟩ := held
      simp only [step, downloaded, found] at answered waits ⊢
      cases List.mem_singleton.mp answered
      rw [webURL_completionHandler] at waits
      exact isSome_completionHandler_of_answer waits _
  | _ => cases answered

def Cached (of : URL → Image → Prop) (cache : Map URL Image) : Prop :=
  ∀ url image, cache.lookup url = some image → of url image

theorem Cached.insert {of : URL → Image → Prop} {cache : Map URL Image} (holds : Cached of cache) {url : URL}
    {image : Image} (right : of url image) : Cached of (cache.insert url image) := by
  intro other held found
  by_cases same : other = url
  · subst same
    rw [AList.lookup_insert] at found
    cases found
    exact right
  · rw [AList.lookup_insert_ne same] at found
    exact holds other held found

theorem Cached.erase {of : URL → Image → Prop} {cache : Map URL Image} (holds : Cached of cache) (url : URL) :
    Cached of (cache.erase url) := by
  intro other held found
  by_cases same : other = url
  · subst same
    rw [AList.lookup_erase] at found
    cases found
  · rw [AList.lookup_erase_ne same] at found
    exact holds other held found

def Answered (of : URL → Image → Prop) (answers : List (Answer View URL Image)) : Prop :=
  ∀ request image, (request, some image) ∈ answers → of request.2 image

omit [DecidableEq View] [DecidableEq URL] in
theorem Answered.append {of : URL → Image → Prop} {first second : List (Answer View URL Image)}
    (before : Answered of first) (after : Answered of second) : Answered of (first ++ second) := by
  intro request image member
  rcases List.mem_append.mp member with early | late
  · exact before request image early
  · exact after request image late

omit [DecidableEq View] [DecidableEq URL] in
theorem Answered.eraseIdx {of : URL → Image → Prop} {answers : List (Answer View URL Image)}
    (holds : Answered of answers) (index : ℕ) : Answered of (answers.eraseIdx index) :=
  fun request image member => holds request image (List.mem_of_mem_eraseIdx member)

/-- Each image in a state is that of the URL that it stands for. -/
structure Genuine (of : URL → Image → Prop) (state : State View URL Image) : Prop where
  shown : ∀ view image, (state.views view).image = some image →
    ∃ url, (state.views view).webURL = some url ∧ of url image
  memory : Cached of state.memoryCache
  disk : Cached of state.diskCache
  writes : ∀ write ∈ state.diskWrites, of write.1 write.2
  found : Answered of state.found
  callbacks : Answered of state.callbacks

theorem completionHandler_eq (state : State View URL Image) (request : Request View URL) (image : Option Image) :
    state.completionHandler request image = { state with views := (state.completionHandler request image).views } := by
  unfold completionHandler
  split
  · cases image <;> rfl
  · rfl

theorem Genuine.completionHandler {of : URL → Image → Prop} {state : State View URL Image}
    (holds : state.Genuine of) {request : Request View URL} {image : Option Image}
    (right : ∀ held, image = some held → of request.2 held) :
    (state.completionHandler request image).Genuine of := by
  rw [completionHandler_eq]
  refine { holds with shown := fun view held shows => ?_ }
  dsimp only at shows ⊢
  rw [image_completionHandler] at shows
  rw [webURL_completionHandler]
  split at shows
  next waits =>
    cases image with
    | none => exact holds.shown view held shows
    | some answer =>
      cases shows
      exact ⟨request.2, waits.2, right held rfl⟩
  next => exact holds.shown view held shows

theorem Genuine.setImage {of : URL → Image → Prop} {state : State View URL Image} (holds : state.Genuine of)
    (view : View) (resource : Option URL) : (state.setImage view resource).1.Genuine of := by
  have emptied : Genuine of
      { state with views := Function.update state.views view { image := none, webURL := resource } } := by
    refine { holds with shown := fun other held shows => ?_ }
    dsimp only at shows ⊢
    by_cases same : other = view
    · subst same
      rw [Function.update_self] at shows
      cases shows
    · rw [Function.update_of_ne same] at shows ⊢
      exact holds.shown other held shows
  cases resource with
  | none => exact emptied
  | some url =>
    cases hit : state.memoryCache.lookup url with
    | none =>
      simp only [State.setImage, hit]
      exact { emptied with }
    | some image =>
      simp only [State.setImage, hit]
      refine emptied.completionHandler fun held same => ?_
      cases same
      exact holds.memory url image hit

omit [DecidableEq View] in
theorem Genuine.readDisk {of : URL → Image → Prop} {state : State View URL Image} (holds : state.Genuine of)
    (lookup : ℕ) : (state.readDisk lookup).Genuine of := by
  unfold State.readDisk
  split
  · exact holds
  next request _ =>
    cases hit : state.diskCache.lookup request.2 with
    | none =>
      simp only [hit]
      refine { holds with found := holds.found.append fun other image member => ?_ }
      cases List.mem_singleton.mp member
    | some image =>
      have right := holds.disk request.2 image hit
      simp only [hit]
      refine { holds with
        memory := holds.memory.insert right
        found := holds.found.append fun other held member => ?_ }
      cases List.mem_singleton.mp member
      exact right

theorem Genuine.retrieved {of : URL → Image → Prop} {state : State View URL Image} (holds : state.Genuine of)
    (answer : ℕ) : (state.retrieved answer).1.Genuine of := by
  unfold State.retrieved
  split
  · exact holds
  next request image found =>
    have taken : Genuine of { state with found := state.found.eraseIdx answer } :=
      { holds with found := holds.found.eraseIdx answer }
    cases image with
    | none => exact { taken with }
    | some image =>
      dsimp only
      refine taken.completionHandler fun held same => ?_
      cases same
      exact holds.found request image (List.mem_of_getElem? found)

omit [DecidableEq View] in
theorem Genuine.processImage {of : URL → Image → Prop} {state : State View URL Image} (holds : state.Genuine of)
    {url : URL} {image : Option Image} (right : ∀ held, image = some held → of url held) :
    (state.processImage url image).Genuine of := by
  unfold State.processImage
  split
  · exact holds
  next contents _ =>
    refine { holds with callbacks := holds.callbacks.append fun request held member => ?_ }
    obtain ⟨view, -, same⟩ := List.mem_map.mp member
    cases same
    exact right held rfl

theorem Genuine.callCompletionHandlerFailure {of : URL → Image → Prop} {state : State View URL Image}
    (holds : state.Genuine of) (url : URL) : (state.callCompletionHandlerFailure url).1.Genuine of := by
  unfold State.callCompletionHandlerFailure
  split
  · exact holds
  · rw [foldl_completionHandler_none]
    exact { holds with }

theorem Genuine.downloaded {of : URL → Image → Prop} {state : State View URL Image} (holds : state.Genuine of)
    (callback : ℕ) : (state.downloaded callback).1.Genuine of := by
  unfold State.downloaded
  split
  · exact holds
  next request image found =>
    have right : ∀ held, image = some held → of request.2 held := by
      rintro held rfl
      exact holds.callbacks request held (List.mem_of_getElem? found)
    have taken : Genuine of { state with callbacks := state.callbacks.eraseIdx callback } :=
      { holds with callbacks := holds.callbacks.eraseIdx callback }
    cases image with
    | none => exact taken.completionHandler right
    | some image =>
      have stored : Genuine of { state with
          callbacks := state.callbacks.eraseIdx callback
          memoryCache := state.memoryCache.insert request.2 image
          diskWrites := state.diskWrites ++ [(request.2, image)] } := by
        refine { taken with
          memory := holds.memory.insert (right image rfl)
          writes := List.forall_mem_append.mpr ⟨holds.writes, fun write member => ?_⟩ }
        cases List.mem_singleton.mp member
        exact right image rfl
      exact stored.completionHandler right

omit [DecidableEq View] in
theorem Genuine.writeDisk {of : URL → Image → Prop} {state : State View URL Image} (holds : state.Genuine of)
    (write : ℕ) : (state.writeDisk write).Genuine of := by
  unfold State.writeDisk
  split
  · exact holds
  next url image found =>
    exact { holds with
      disk := holds.disk.insert (holds.writes _ (List.mem_of_getElem? found))
      writes := fun other member => holds.writes other (List.mem_of_mem_eraseIdx member) }

theorem Genuine.step {of : URL → Image → Prop} {state : State View URL Image} (holds : state.Genuine of)
    {event : Event View URL Image} (right : ∀ url image, event = .processImage url (some image) → of url image) :
    (state.step event).1.Genuine of := by
  cases event with
  | setImage view resource => exact holds.setImage view resource
  | readDisk lookup => exact holds.readDisk lookup
  | retrieved answer => exact holds.retrieved answer
  | processImage url image => exact holds.processImage fun held same => right url held (by rw [same])
  | callCompletionHandlerFailure url => exact holds.callCompletionHandlerFailure url
  | downloaded callback => exact holds.downloaded callback
  | writeDisk write => exact holds.writeDisk write
  | clearMemoryCache => exact { holds with memory := fun _ _ found => nomatch found }
  | evicted url => exact { holds with memory := holds.memory.erase url }
  | expired url => exact { holds with disk := holds.disk.erase url }

theorem webURL_setImage (state : State View URL Image) (view : View) (resource : Option URL) :
    ((state.setImage view resource).1.views view).webURL = resource := by
  cases resource with
  | none => simp [setImage]
  | some url => cases hit : state.memoryCache.lookup url <;> simp [setImage, hit]

theorem shown_or_pending_step {state : State View URL Image} {event : Event View URL Image} {view : View}
    {url : URL} (waits : ((state.step event).1.views view).webURL = some url)
    (started : 0 < (requested event).count (view, url) + state.pending (view, url)) :
    ((state.step event).1.views view).image.isSome ∨ 0 < (state.step event).1.pending (view, url) ∨
      ((view, url), none) ∈ (state.step event).2 := by
  have now := pending_step state event (view, url)
  by_cases answered : 0 < ((state.step event).2.map Prod.fst).count (view, url)
  · obtain ⟨⟨request, image⟩, member, rfl⟩ := List.mem_map.mp (List.count_pos_iff.mp answered)
    cases image with
    | none => exact .inr (.inr member)
    | some image => exact .inl (shown_of_answered member waits)
  · refine .inr (.inl ?_)
    omega

end State

/-! ## Whole runs -/

section
variable [DecidableEq View] [DecidableEq URL]

/-- The program as it starts, with the disk cache that earlier runs of it have left. Its views show nothing
yet: an image that the layout of a cell gives to a view is left out. -/
def launched (diskCache : Map URL Image) : State View URL Image where
  views := fun _ => {}
  diskCache := diskCache

open State

theorem answered_of_run {state final : State View URL Image} {events : List (Event View URL Image)}
    {outputs : List (Answer View URL Image)} (run : Runs system state events final outputs)
    (request : Request View URL) :
    (outputs.map Prod.fst).count request + final.pending request =
      (events.flatMap requested).count request + state.pending request := by
  induction run with
  | done state => simp
  | @next state middle final event events emitted later first rest ih =>
    have now := pending_step state event request
    rw [show state.step event = (middle, emitted) from first] at now
    dsimp only at now
    rw [List.map_append, List.count_append, List.flatMap_cons, List.count_append]
    omega

def sharedDownload : List (Event Bool ℕ Char) :=
  [.setImage false (some 7), .setImage true (some 7), .readDisk 0, .readDisk 0, .retrieved 0, .retrieved 0,
    .processImage 7 (some 'a'), .downloaded 1, .downloaded 0]

theorem answered_of_run_shared : ∃ (final : State Bool ℕ Char) (outputs : List (Answer Bool ℕ Char)),
    Runs system (launched ∅) sharedDownload final outputs ∧
      (outputs.map Prod.fst).count (true, 7) + final.pending (true, 7) = 1 := by
  have run := runs_run (launched ∅) sharedDownload
  exact ⟨_, _, run, (answered_of_run run (true, 7)).trans rfl⟩

/-- A view never shows an image of a URL but the one that it was given last: what it shows was
downloaded from that URL or comes from its entry in the cache. -/
theorem image_of_run {diskCache : Map URL Image} {final : State View URL Image}
    {events : List (Event View URL Image)} {outputs : List (Answer View URL Image)}
    (run : Runs system (launched diskCache) events final outputs) {view : View} {image : Image}
    (shown : (final.views view).image = some image) :
    ∃ url, (final.views view).webURL = some url ∧
      (diskCache.lookup url = some image ∨ .processImage url (some image) ∈ events) := by
  have start : (launched diskCache : State View URL Image).Genuine
      fun url image => diskCache.lookup url = some image ∨ .processImage url (some image) ∈ events :=
    { shown := fun _ _ shows => nomatch shows
      memory := fun _ _ found => nomatch found
      disk := fun _ _ found => .inl found
      writes := fun _ member => nomatch member
      found := fun _ _ member => nomatch member
      callbacks := fun _ _ member => nomatch member }
  have reached := run.invariant (Genuine _) (fun state event next emitted member holds taken => ?_) start
  · exact reached.shown view image shown
  · rw [← show (state.step event).1 = next from congrArg Prod.fst taken]
    exact holds.step fun url image same => .inr (same ▸ member)

def reusedView : List (Event Unit ℕ Char) :=
  [.setImage () (some 7), .readDisk 0, .retrieved 0, .setImage () (some 8), .readDisk 0, .retrieved 0,
    .processImage 8 (some 'b'), .downloaded 0, .processImage 7 (some 'a'), .downloaded 0]

theorem image_of_run_reused : ∃ (final : State Unit ℕ Char) (outputs : List (Answer Unit ℕ Char)),
    Runs system (launched ∅) reusedView final outputs ∧ (final.views ()).image = some 'b' ∧
      ∃ url, (final.views ()).webURL = some url ∧
        ((∅ : Map ℕ Char).lookup url = some 'b' ∨ .processImage url (some 'b') ∈ reusedView) := by
  have run := runs_run (launched ∅) reusedView
  exact ⟨_, _, run, rfl, image_of_run run rfl⟩

/-- A view that is given a URL, and no other afterwards, shows an image once no retrieval for it is
under way, unless one of them failed. -/
theorem shown_of_run {state final : State View URL Image} {events : List (Event View URL Image)}
    {outputs : List (Answer View URL Image)} {view : View} {url : URL}
    (run : Runs system state (.setImage view (some url) :: events) final outputs)
    (kept : ∀ resource, .setImage view resource ∉ events) (settled : final.pending (view, url) = 0) :
    (final.views view).image.isSome ∨ ((view, url), none) ∈ outputs := by
  cases run with
  | @next _ middle _ _ _ emitted later first rest =>
    have taken : state.step (.setImage view (some url)) = (middle, emitted) := first
    have waits : (middle.views view).webURL = some url := by
      have given := webURL_setImage state view (some url)
      rwa [show state.setImage view (some url) = (middle, emitted) from first] at given
    have started := shown_or_pending_step (by rw [taken]; exact waits)
      (show 0 < (requested (.setImage view (some url))).count (view, url) + state.pending (view, url) by
        rw [requested, List.count_singleton_self]
        omega)
    rw [taken] at started
    -- The retrieval that was started stays under way until it is answered.
    have reached := rest.logged
      (fun state log => (state.views view).webURL = some url ∧
        ((state.views view).image.isSome ∨ 0 < state.pending (view, url) ∨ ((view, url), none) ∈ log))
      (fun state event next emitted log member holds taken => ?_) emitted ⟨waits, started⟩
    · obtain ⟨-, shown | under | failed⟩ := reached
      · exact .inl shown
      · exact absurd settled (Nat.ne_of_gt under)
      · exact .inr failed
    · have step : state.step event = (next, emitted) := taken
      obtain ⟨sameURL, keeps⟩ := views_step state event view fun resource same => kept resource (same ▸ member)
      rw [step] at sameURL keeps
      refine ⟨sameURL.trans holds.1, ?_⟩
      rcases holds.2 with shown | under | failed
      · exact .inl (keeps shown)
      · have later := shown_or_pending_step (by rw [step]; exact sameURL.trans holds.1)
          (Nat.add_pos_right ((requested event).count (view, url)) under)
        rw [step] at later
        exact later.imp_right fun other => other.imp_right (List.mem_append_right log)
      · exact .inr (.inr (List.mem_append_left emitted failed))

theorem shown_of_run_reused : ∃ (start final : State Unit ℕ Char) (outputs : List (Answer Unit ℕ Char)),
    Runs system start (reusedView.drop 3) final outputs ∧
      ((final.views ()).image.isSome ∨ (((), 8), none) ∈ outputs) := by
  have run := runs_run (launched ∅) (reusedView.drop 3)
  exact ⟨_, _, _, run, shown_of_run run (by simp) rfl⟩

end

end ProjectF02.Kingfisher
