import ProjectF02.Posts.Effects

/-! The records of the `Post` node over runs of the share screens.

A record is filed under the whole second of its clock reading, without the user,
although its `postid` and the path of its image name the user. A record is lost
when another user's post falls into the same second.
-/

set_option autoImplicit false

namespace ProjectF02.Sharing
open Swift Firebase Transition Store

variable {Image Double Screen : Type}

def State.posts (state : State Image Double Screen) : Children Double :=
  (state.database.getChild ["Post"]).childMap

def record (one : Written Double) : String × Node Double := (one.1, one.2.node)

variable [Ring Double] [LinearOrder Double] [FloorRing Double]

/-- A written post names its user, files itself under its second and joins both in its `postid`. -/
structure Signed (one : Written Double) (uid : String) (timestamp : Double) : Prop where
  stored : one.2.Stored
  user : one.2.uid = some uid
  clock : one.2.time = some timestamp
  key : one.1 = formatWhole timestamp
  postid : one.2.postid = some (uid ++ one.1)

theorem posts_post (state : State Image Double Screen) (vc : UpStatusViewController Image Double)
    (timestamp : Double) (linkimage : Int64) :
    (state.post vc timestamp linkimage).1.posts =
      applyWrites state.posts ((state.post vc timestamp linkimage).2.map record) := by
  have stored := Node.getChild_updateChild_child (Post.node_nonempty
      (vc.stored_mypost (formatWhole timestamp) timestamp vc.uid linkimage))
    state.database ["Post"] (formatWhole timestamp)
  unfold State.posts
  exact (congrArg Node.childMap stored).trans (Node.childMap_ofChildMap _)

theorem lookup_posts_post (state : State Image Double Screen) (vc : UpStatusViewController Image Double)
    (timestamp : Double) (linkimage : Int64) :
    (state.post vc timestamp linkimage).1.posts.lookup (formatWhole timestamp) =
      some (vc.mypost (formatWhole timestamp) timestamp vc.uid linkimage).node := by
  rw [posts_post]
  exact AList.lookup_insert state.posts

theorem signed_post (state : State Image Double Screen) (vc : UpStatusViewController Image Double)
    (timestamp : Double) (linkimage : Int64) :
    ∀ one ∈ (state.post vc timestamp linkimage).2, ∃ uid timestamp, Signed one uid timestamp := by
  intro one member
  obtain rfl := List.mem_singleton.mp member
  exact ⟨vc.uid, timestamp, vc.stored_mypost _ _ _ _, rfl, rfl, rfl, rfl⟩

variable [DecidableEq Screen]

theorem Effect.records {state : State Image Double Screen} {event : Event Image Double Screen}
    {result : State Image Double Screen × List (Written Double)} (effect : Effect state event result) :
    result.1.posts = applyWrites state.posts (result.2.map record) ∧
      ∀ one ∈ result.2, ∃ uid timestamp, Signed one uid timestamp := by
  cases effect with
  | idle => exact ⟨rfl, by simp⟩
  | edited => exact ⟨rfl, by simp⟩
  | uploading => exact ⟨rfl, by simp⟩
  | dropped => exact ⟨rfl, by simp⟩
  | stored => exact ⟨rfl, by simp⟩
  | postedText => exact ⟨posts_post state _ _ _, signed_post state _ _ _⟩
  | postedUnsent => exact ⟨posts_post state _ _ _, signed_post state _ _ _⟩
  | postedImage task post pending => exact ⟨posts_post _ _ _ _, signed_post _ _ _ _⟩

variable {state final : State Image Double Screen} {events : List (Event Image Double Screen)}
  {written : List (Written Double)}

theorem records_run (stamped : state.Stamped) (run : Runs (computes step) state events final written) :
    final.posts = applyWrites state.posts (written.map record) ∧
      ∀ one ∈ written, ∃ uid timestamp, Signed one uid timestamp := by
  have logged := run.logged
    (fun reached log => reached.Stamped ∧ reached.posts = applyWrites state.posts (log.map record) ∧
      ∀ one ∈ log, ∃ uid timestamp, Signed one uid timestamp)
    (fun reached event next posts log _ holds taken => by
      obtain ⟨stamped, same, signed⟩ := holds
      have effect := Effect.of_step stamped taken
      obtain ⟨inserted, fresh⟩ := effect.records
      refine ⟨effect.stamped stamped, ?_, List.forall_mem_append.mpr ⟨signed, fresh⟩⟩
      rw [inserted, same, List.map_append, applyWrites_append]) [] ⟨stamped, rfl, by simp⟩
  simpa using logged.2

/-- The record of each written post can be read, with the post's own `uid` and `postid`. -/
def EveryPostKept [NSScanner] (final : State Image Double Screen) (written : List (Written Double)) : Prop :=
  ∀ one ∈ written, ∃ key node, final.posts.lookup key = some node ∧
    ∀ order, ∃ read, Post.ofSnapshot order node.val = .ok read ∧
      read.uid = one.2.uid ∧ read.postid = one.2.postid

def SecondsApart (written : List (Written Double)) : Prop :=
  ∀ one ∈ written, ∀ other ∈ written, ∀ s t, one.2.time = some s → other.2.time = some t →
    one.2.uid ≠ other.2.uid → formatWhole s ≠ formatWhole t

/-- Every record that reads as a post has the key its `postid` ends in. -/
def Filed [NSScanner] (posts : Children Double) : Prop :=
  ∀ key node order read, posts.lookup key = some node → Post.ofSnapshot order node.val = .ok read →
    ∃ uid, read.uid = some uid ∧ read.postid = some (uid ++ key)

theorem Signed.read [NSScanner] {one : Written Double} {uid : String} {timestamp : Double}
    (signed : Signed one uid timestamp) (order : Enumeration (Value Double)) :
    ∃ read, Post.ofSnapshot order one.2.node.val = .ok read ∧ read.uid = some uid ∧
      read.postid = some (uid ++ one.1) := by
  obtain ⟨data, decoded, -⟩ := Post.ofSnapshot_node order signed.stored
  have same := Post.sameScalars_ofSnapshot order decoded
  exact ⟨_, decoded, same.uid.trans signed.user, same.postid.trans signed.postid⟩

theorem lookup_posts_run (stamped : state.Stamped)
    (run : Runs (computes step) state events final written) (key : String) :
    final.posts.lookup key =
      ((lastWrite key written).map Post.node).or (state.posts.lookup key) := by
  rw [(records_run stamped run).1, lookup_applyWrites]
  exact congrArg (fun last : Option (Node Double) => last.or (state.posts.lookup key))
    (lastWrite_map Post.node key written)

theorem filed_run [NSScanner] (stamped : state.Stamped) (filed : Filed state.posts)
    (run : Runs (computes step) state events final written) : Filed final.posts := by
  intro key node order read found decoded
  rw [lookup_posts_run stamped run] at found
  cases last : lastWrite key written with
  | none =>
    rw [last] at found
    exact filed key node order read found decoded
  | some post =>
    rw [last] at found
    obtain rfl := Option.some.inj found
    obtain ⟨uid, timestamp, signed⟩ := (records_run stamped run).2 _ (lastWrite_mem last)
    obtain ⟨other, same, user, postid⟩ := signed.read order
    obtain rfl := Except.ok.inj (same.symm.trans decoded)
    exact ⟨uid, user, postid⟩

theorem every_post_kept [NSScanner] (stamped : state.Stamped)
    (run : Runs (computes step) state events final written) (apart : SecondsApart written) :
    EveryPostKept final written := by
  have signatures := (records_run stamped run).2
  rintro ⟨key, post⟩ member
  obtain ⟨last, found⟩ := lastWrite_isSome member
  obtain ⟨uid, t, signed⟩ := signatures _ member
  obtain ⟨uid', t', signed'⟩ := signatures _ (lastWrite_mem found)
  have sameSecond : formatWhole t = formatWhole t' := signed.key.symm.trans signed'.key
  have sameUser : post.uid = last.uid := by
    by_contra different
    exact apart _ member _ (lastWrite_mem found) t t' signed.clock signed'.clock different sameSecond
  have same : uid = uid' :=
    Option.some.inj (signed.user.symm.trans (sameUser.trans signed'.user))
  -- The last post in this second is by the same user, so it reads as this one.
  refine ⟨key, last.node, ?_, fun order => ?_⟩
  · rw [lookup_posts_run stamped run, found]
    rfl
  · obtain ⟨read, decoded, user, postid⟩ := signed'.read order
    refine ⟨read, decoded, ?_, ?_⟩
    · rw [user, signed.user, same]
    · rw [postid, signed.postid, same]

/-- Where records are filed, a kept post is the record of its own second, so two users never
share one. -/
theorem seconds_apart [NSScanner] (stamped : state.Stamped) (filed : Filed state.posts)
    (run : Runs (computes step) state events final written) (kept : EveryPostKept final written) :
    SecondsApart written := by
  have signatures := (records_run stamped run).2
  have readAt : ∀ one ∈ written, ∃ node read, final.posts.lookup one.1 = some node ∧
      Post.ofSnapshot .stored node.val = .ok read ∧ read.uid = one.2.uid := by
    intro one member
    obtain ⟨uid, t, signed⟩ := signatures one member
    obtain ⟨key, node, found, reads⟩ := kept one member
    obtain ⟨read, decoded, user, postid⟩ := reads .stored
    obtain ⟨uid', user', postid'⟩ := filed_run stamped filed run key node .stored read found decoded
    -- The `postid` that is read is the user followed by the key, which gives the key away.
    have sameUser : uid = uid' :=
      Option.some.inj (signed.user.symm.trans (user.symm.trans user'))
    have sameId : uid ++ one.1 = uid' ++ key :=
      Option.some.inj (signed.postid.symm.trans (postid.symm.trans postid'))
    rw [← sameUser] at sameId
    obtain rfl := (String.append_right_inj _).mp sameId
    exact ⟨node, read, found, decoded, user⟩
  intro one member other member' s t clock clock' different sameSecond
  obtain ⟨uid, s', signed⟩ := signatures one member
  obtain ⟨uid', t', signed'⟩ := signatures other member'
  obtain rfl := Option.some.inj (clock.symm.trans signed.clock)
  obtain rfl := Option.some.inj (clock'.symm.trans signed'.clock)
  obtain ⟨node, read, found, decoded, user⟩ := readAt one member
  obtain ⟨node', read', found', decoded', user'⟩ := readAt other member'
  rw [signed.key, sameSecond, ← signed'.key, found'] at found
  obtain rfl := Option.some.inj found
  obtain rfl := Except.ok.inj (decoded'.symm.trans decoded)
  exact different (user.symm.trans user')

theorem every_post_kept_iff [NSScanner] (stamped : state.Stamped)
    (run : Runs (computes step) state events final written) :
    (SecondsApart written → EveryPostKept final written) ∧
      (Filed state.posts → EveryPostKept final written → SecondsApart written) :=
  ⟨every_post_kept stamped run, fun filed => seconds_apart stamped filed run⟩

def typed : State Unit ℚ Bool where
  screens first :=
    { contentTextView := some "Hi"
      userforstatusvc := some { User.registered 0 with uid := some (if first then "u1" else "u2") } }
  database := .empty

theorem typed_stamped : typed.Stamped := by
  intro post pending
  cases pending

theorem typed_filed [NSScanner] : Filed typed.posts := by
  intro key node order read found
  cases found

def sharing (first second : ℤ) : List (Event Unit ℚ Bool) :=
  [.tapped true ⟨first⟩, .tapped false ⟨second⟩]

theorem run_sharing (first second : ℤ) :
    ∃ final post other, Runs (computes step) typed (sharing first second) final
        [(formatWhole (first : ℚ), post), (formatWhole (second : ℚ), other)] ∧
      post.uid = some "u1" ∧ post.time = some (first : ℚ) ∧
      other.uid = some "u2" ∧ other.time = some (second : ℚ) := by
  let middle := (typed.post (typed.screens true) (first : ℚ) FALSE).1
  have early : step typed (.tapped true ⟨first⟩) = .ok (typed.post (typed.screens true) first FALSE) :=
    step_tapped_text rfl (by decide) rfl _
  have late : step middle (.tapped false ⟨second⟩) = .ok (middle.post (typed.screens false) second FALSE) :=
    step_tapped_text rfl (by decide) rfl _
  have run : Runs (computes step) typed (sharing first second) _ ([_] ++ ([_] ++ [])) :=
    .next early (.next late (.done _))
  exact ⟨_, _, _, run, rfl, rfl, rfl, rfl⟩

theorem every_post_kept_apart : ∃ final written,
    Runs (computes step) typed (sharing 1541650000 1541650001) final written ∧
      EveryPostKept final written := by
  obtain ⟨final, post, other, run, user, clock, user', clock'⟩ := run_sharing 1541650000 1541650001
  refine ⟨final, _, run, (every_post_kept_iff typed_stamped run).1 ?_⟩
  have apart : formatWhole ((1541650000 : ℤ) : ℚ) ≠ formatWhole ((1541650001 : ℤ) : ℚ) := by
    rw [formatWhole_intCast, formatWhole_intCast]
    decide
  intro one member two member' s t read read' different
  rcases List.mem_pair.mp member with rfl | rfl <;> rcases List.mem_pair.mp member' with rfl | rfl
  · exact absurd rfl different
  · obtain rfl := Option.some.inj (clock.symm.trans read)
    obtain rfl := Option.some.inj (clock'.symm.trans read')
    exact apart
  · obtain rfl := Option.some.inj (clock'.symm.trans read)
    obtain rfl := Option.some.inj (clock.symm.trans read')
    exact apart.symm
  · exact absurd rfl different

/-- Two users sharing in the same second: one post replaces the other. -/
theorem post_lost : ∃ final written,
    Runs (computes step) typed (sharing 1541650000 1541650000) final written ∧
      ¬ EveryPostKept final written := by
  obtain ⟨final, post, other, run, user, clock, user', clock'⟩ := run_sharing 1541650000 1541650000
  refine ⟨final, _, run, fun kept => ?_⟩
  have apart := seconds_apart typed_stamped typed_filed run kept
  have different : post.uid ≠ other.uid := by
    rw [user, user']
    decide
  exact apart _ List.mem_cons_self _ (List.mem_cons_of_mem _ List.mem_cons_self) _ _ clock clock'
    different rfl

end ProjectF02.Sharing
