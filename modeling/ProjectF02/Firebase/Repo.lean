import ProjectF02.Firebase.WriteTree
import ProjectF02.Transition.Loops
import ProjectF02.Transition.Runs

/-! The client from the calls of the program to its pending writes.

Transcribed from `FRepo` and the part of `FSyncTree` that records and removes
user writes. The database is opened without persistence, so no write is restored
from disk. Server values are not represented: the program stores none.
-/

set_option autoImplicit false

namespace ProjectF02.Firebase
open Store Transition

variable {Key Double : Type} [NodeKey Key]

def kFWPResponseForActionStatusOk : String := "ok"
def kFErrorWriteCanceled : String := "write_canceled"

inductive FOperationSource where
  | userInstance
  | serverInstance
  deriving DecidableEq, Repr

inductive FOperation (Key Double : Type) [NodeKey Key] where
  | overwrite (source : FOperationSource) (path : KeyPath Key) (snap : Node Double)
  | merge (source : FOperationSource) (path : KeyPath Key) (children : FCompoundWrite Key Double)
  | ackUserWrite (path : KeyPath Key) (affectedTree : FImmutableTree Key Bool) (revert : Bool)

namespace FSyncTree

def applyUserOverwriteAtPath (pendingWriteTree : FWriteTree Key Double) (path : KeyPath Key)
    (newData : Node Double)
    (writeId : ℤ) (visible : Bool) : Except AssertionFailure (FWriteTree Key Double × List (FOperation Key Double)) := do
  let tree ← pendingWriteTree.addOverwriteAtPath path newData writeId visible
  return (tree, if visible then [.overwrite .userInstance path newData] else [])

def applyUserMergeAtPath (pendingWriteTree : FWriteTree Key Double) (path : KeyPath Key)
    (changedChildren : FCompoundWrite Key Double) (writeId : ℤ) :
    Except AssertionFailure (FWriteTree Key Double × List (FOperation Key Double)) := do
  let tree ← pendingWriteTree.addMergeAtPath path changedChildren writeId
  return (tree, [.merge .userInstance path changedChildren])

def affectedTree (write : FWriteRecord Key Double) : FImmutableTree Key Bool :=
  match write with
  | .overwrite .. => FImmutableTree.empty.setValue (some true) []
  | .merge _ merge _ =>
      merge.enumerateWrites.foldl (fun tree entry => tree.setValue (some true) entry.1) .empty

def ackUserWriteWithWriteId (pendingWriteTree : FWriteTree Key Double) (writeId : ℤ) (revert : Bool) :
    Except AssertionFailure (FWriteTree Key Double × List (FOperation Key Double)) := do
  let (needToReevaluate, tree) ← pendingWriteTree.removeWriteId writeId
  return (tree,
    match pendingWriteTree.writeForId writeId with
    | some write => if needToReevaluate then [.ackUserWrite write.path (affectedTree write) revert] else []
    | none => [])

def removeAllWrites (pendingWriteTree : FWriteTree Key Double) :
    FWriteTree Key Double × List (FOperation Key Double) :=
  let (removedWrites, tree) := pendingWriteTree.removeAllWrites
  (tree, if removedWrites.length > 0 then
      [.ackUserWrite [] (FImmutableTree.empty.setValue (some true) []) true] else [])

end FSyncTree

structure FRepo (Key Double : Type) [NodeKey Key] where
  writeIdCounter : ℤ
  pendingWriteTree : FWriteTree Key Double

/-- What reaches the client: calls of the program and answers of the server to its writes. -/
inductive Request (Key Double : Type) [NodeKey Key] where
  | set (path : KeyPath Key) (node : Node Double)
  | update (path : KeyPath Key) (nodes : FCompoundWrite Key Double)
  | startTransaction (path : KeyPath Key) (node : Node Double) (applyLocally : Bool)
  | ackWrite (writeId : ℤ) (status : String)
  | purgeOutstandingWrites

namespace FRepo

def init : FRepo Key Double := ⟨0, .init⟩

def step (repo : FRepo Key Double) : Request Key Double → Except AssertionFailure (FRepo Key Double × List (FOperation Key Double))
  | .set path node => do
    let writeId := repo.writeIdCounter
    let (tree, operations) ← FSyncTree.applyUserOverwriteAtPath repo.pendingWriteTree path node writeId true
    return (⟨writeId + 1, tree⟩, operations)
  | .update path nodes =>
    -- An update with empty data does nothing and takes no id.
    if nodes.isEmpty then .ok (repo, [])
    else do
      let writeId := repo.writeIdCounter
      let (tree, operations) ← FSyncTree.applyUserMergeAtPath repo.pendingWriteTree path nodes writeId
      return (⟨writeId + 1, tree⟩, operations)
  | .startTransaction path node applyLocally => do
    let writeId := repo.writeIdCounter
    let (tree, operations) ← FSyncTree.applyUserOverwriteAtPath repo.pendingWriteTree path node writeId applyLocally
    return (⟨writeId + 1, tree⟩, operations)
  | .ackWrite writeId status =>
    -- A canceled write was removed before.
    if status = kFErrorWriteCanceled then .ok (repo, [])
    else do
      let revert := decide (status ≠ kFWPResponseForActionStatusOk)
      let (tree, operations) ← FSyncTree.ackUserWriteWithWriteId repo.pendingWriteTree writeId revert
      return (⟨repo.writeIdCounter, tree⟩, operations)
  | .purgeOutstandingWrites =>
    let (tree, operations) := FSyncTree.removeAllWrites repo.pendingWriteTree
    .ok (⟨repo.writeIdCounter, tree⟩, operations)

def recordOf (writeId : ℤ) : Request Key Double → Option (FWriteRecord Key Double)
  | .set path node => some (.overwrite path node writeId true)
  | .update path nodes => if nodes.isEmpty then none else some (.merge path nodes writeId)
  | .startTransaction path node applyLocally => some (.overwrite path node writeId applyLocally)
  | .ackWrite _ _ => none
  | .purgeOutstandingWrites => none

/-! ## What one step does -/

def append (tree : FWriteTree Key Double) (record : FWriteRecord Key Double) : FWriteTree Key Double where
  visibleWrites :=
    if record.visible then FWriteTree.layerRecord [] tree.visibleWrites record else tree.visibleWrites
  allWrites := tree.allWrites ++ [record]
  lastWriteId := record.writeId

inductive Step (repo : FRepo Key Double) : Request Key Double → FRepo Key Double → Prop
  | issued {request : Request Key Double} {record : FWriteRecord Key Double}
      (record_eq : recordOf repo.writeIdCounter request = some record)
      (newer : repo.pendingWriteTree.lastWriteId < repo.writeIdCounter) :
      Step repo request ⟨repo.writeIdCounter + 1, append repo.pendingWriteTree record⟩
  | nothing {path : KeyPath Key} {nodes : FCompoundWrite Key Double} (empty : nodes.isEmpty = true) :
      Step repo (.update path nodes) repo
  | canceled {writeId : ℤ} : Step repo (.ackWrite writeId kFErrorWriteCanceled) repo
  | removed {status : String} {record : FWriteRecord Key Double} {earlier later : List (FWriteRecord Key Double)}
      {again : Bool} {tree : FWriteTree Key Double} (answered : status ≠ kFErrorWriteCanceled)
      (pending : repo.pendingWriteTree.allWrites = earlier ++ record :: later)
      (first : ∀ entry ∈ earlier, entry.writeId ≠ record.writeId)
      (removal : FWriteTree.Removal repo.pendingWriteTree earlier record later again tree) :
      Step repo (.ackWrite record.writeId status) ⟨repo.writeIdCounter, tree⟩
  | purged : Step repo .purgeOutstandingWrites
      ⟨repo.writeIdCounter, { repo.pendingWriteTree with visibleWrites := .emptyWrite, allWrites := [] }⟩

theorem applyUserOverwriteAtPath_spec {tree next : FWriteTree Key Double} {path : KeyPath Key}
    {node : Node Double}
    {writeId : ℤ} {visible : Bool} {operations : List (FOperation Key Double)}
    (applied : FSyncTree.applyUserOverwriteAtPath tree path node writeId visible = .ok (next, operations)) :
    tree.lastWriteId < writeId ∧ next = append tree (.overwrite path node writeId visible) := by
  obtain ⟨added, recorded, same⟩ := ok_of_bind applied
  cases same
  rw [FWriteTree.addOverwriteAtPath] at recorded
  split at recorded
  next newer =>
    cases recorded
    exact ⟨newer, rfl⟩
  next => cases recorded

theorem applyUserMergeAtPath_spec {tree next : FWriteTree Key Double} {path : KeyPath Key}
    {changed : FCompoundWrite Key Double} {writeId : ℤ} {operations : List (FOperation Key Double)}
    (applied : FSyncTree.applyUserMergeAtPath tree path changed writeId = .ok (next, operations)) :
    tree.lastWriteId < writeId ∧ next = append tree (.merge path changed writeId) := by
  obtain ⟨added, recorded, same⟩ := ok_of_bind applied
  cases same
  rw [FWriteTree.addMergeAtPath] at recorded
  split at recorded
  next newer =>
    cases recorded
    exact ⟨newer, rfl⟩
  next => cases recorded

theorem ackUserWriteWithWriteId_spec {tree next : FWriteTree Key Double} {writeId : ℤ} {revert : Bool}
    {operations : List (FOperation Key Double)}
    (acknowledged : FSyncTree.ackUserWriteWithWriteId tree writeId revert = .ok (next, operations)) :
    ∃ again, tree.removeWriteId writeId = .ok (again, next) := by
  obtain ⟨⟨again, removed⟩, done, same⟩ := ok_of_bind acknowledged
  cases same
  exact ⟨again, done⟩

theorem step_spec {repo next : FRepo Key Double} {request : Request Key Double}
    {operations : List (FOperation Key Double)}
    (taken : repo.step request = .ok (next, operations)) : Step repo request next := by
  cases request with
  | set path node =>
    obtain ⟨⟨tree, emitted⟩, applied, same⟩ := ok_of_bind taken
    cases same
    obtain ⟨newer, rfl⟩ := applyUserOverwriteAtPath_spec applied
    exact .issued rfl newer
  | update path nodes =>
    rw [step] at taken
    split at taken
    next blank =>
      cases taken
      exact .nothing blank
    next present =>
      obtain ⟨⟨tree, emitted⟩, applied, same⟩ := ok_of_bind taken
      cases same
      obtain ⟨newer, rfl⟩ := applyUserMergeAtPath_spec applied
      exact .issued (by rw [recordOf, if_neg present]) newer
  | startTransaction path node applyLocally =>
    obtain ⟨⟨tree, emitted⟩, applied, same⟩ := ok_of_bind taken
    cases same
    obtain ⟨newer, rfl⟩ := applyUserOverwriteAtPath_spec applied
    exact .issued rfl newer
  | ackWrite writeId status =>
    rw [step] at taken
    split at taken
    next canceled =>
      cases taken
      subst canceled
      exact .canceled
    next answered =>
      obtain ⟨⟨tree, emitted⟩, applied, same⟩ := ok_of_bind taken
      cases same
      obtain ⟨again, removed⟩ := ackUserWriteWithWriteId_spec applied
      obtain ⟨earlier, record, later, pending, rfl, first, removal⟩ := FWriteTree.removeWriteId_cases removed
      exact .removed answered pending first removal
  | purgeOutstandingWrites =>
    cases taken
    exact .purged

structure Numbered (repo : FRepo Key Double) : Prop where
  increasing : repo.pendingWriteTree.allWrites.Pairwise fun entry later => entry.writeId < later.writeId
  below : ∀ entry ∈ repo.pendingWriteTree.allWrites, entry.writeId < repo.writeIdCounter
  last : repo.pendingWriteTree.lastWriteId < repo.writeIdCounter
  natural : 0 ≤ repo.writeIdCounter

theorem numbered_init : (init : FRepo Key Double).Numbered where
  increasing := List.Pairwise.nil
  below := List.forall_mem_nil _
  last := (by decide : (-1 : ℤ) < 0)
  natural := le_refl (0 : ℤ)

theorem writeId_recordOf {writeId : ℤ} {request : Request Key Double} {record : FWriteRecord Key Double}
    (record_eq : recordOf writeId request = some record) : record.writeId = writeId := by
  cases request with
  | set path node =>
    cases record_eq
    rfl
  | update path nodes =>
    rw [recordOf] at record_eq
    split at record_eq
    · cases record_eq
    · cases record_eq
      rfl
  | startTransaction path node applyLocally =>
    cases record_eq
    rfl
  | ackWrite other status => cases record_eq
  | purgeOutstandingWrites => cases record_eq

theorem removal_allWrites {tree next : FWriteTree Key Double} {earlier later : List (FWriteRecord Key Double)}
    {record : FWriteRecord Key Double} {again : Bool}
    (removal : FWriteTree.Removal tree earlier record later again next) : next.allWrites = earlier ++ later := by
  cases removal <;> rfl

theorem removal_lastWriteId {tree next : FWriteTree Key Double} {earlier later : List (FWriteRecord Key Double)}
    {record : FWriteRecord Key Double} {again : Bool}
    (removal : FWriteTree.Removal tree earlier record later again next) :
    next.lastWriteId = tree.lastWriteId ∨ next.lastWriteId = -1 ∨
      ∃ entry ∈ earlier ++ later, next.lastWriteId = entry.writeId := by
  cases removal with
  | hidden shadowed => exact .inl rfl
  | rebuilt visible overlap =>
    right
    rw [FWriteTree.resetTree]
    cases final : (earlier ++ later).getLast? with
    | none => exact .inl rfl
    | some lastRecord => exact .inr ⟨lastRecord, List.mem_of_getLast? final, rfl⟩
  | taken visible unshadowed separate => exact .inl rfl

theorem Numbered.step {repo next : FRepo Key Double} (numbered : repo.Numbered) {request : Request Key Double}
    (taken : Step repo request next) : next.Numbered := by
  obtain ⟨increasing, below, last, natural⟩ := numbered
  cases taken with
  | @issued request record record_eq newer =>
    have id := writeId_recordOf record_eq
    refine ⟨?_, ?_, ?_, by simp only; omega⟩
    · refine List.pairwise_append.mpr ⟨increasing, List.pairwise_singleton _ _, fun entry member other last => ?_⟩
      rw [List.mem_singleton.mp last, id]
      exact below entry member
    · intro entry member
      rcases List.mem_append.mp member with old | new
      · exact (below entry old).trans (lt_add_one _)
      · rw [List.mem_singleton.mp new, id]
        exact lt_add_one _
    · change record.writeId < _
      rw [id]
      exact lt_add_one _
  | nothing empty => exact ⟨increasing, below, last, natural⟩
  | canceled => exact ⟨increasing, below, last, natural⟩
  | @removed status record earlier later again tree answered pending first removal =>
    have left := removal_allWrites removal
    have kept : (earlier ++ later).Sublist repo.pendingWriteTree.allWrites := by
      rw [pending]
      exact List.Sublist.append (List.Sublist.refl _) (List.sublist_cons_self _ _)
    refine ⟨?_, ?_, ?_, natural⟩
    · rw [left]
      exact increasing.sublist kept
    · rw [left]
      exact fun entry member => below entry (kept.subset member)
    · rcases removal_lastWriteId removal with same | fresh | ⟨entry, member, same⟩
      · exact same.trans_lt last
      · exact fresh.trans_lt (lt_of_lt_of_le (by decide) natural)
      · exact same.trans_lt (below entry (kept.subset member))
  | purged => exact ⟨List.Pairwise.nil, List.forall_mem_nil _, last, natural⟩

theorem numbered_run {start final : FRepo Key Double} {requests : List (Request Key Double)}
    {operations : List (FOperation Key Double)} (run : Runs (computes step) start requests final operations)
    (numbered : start.Numbered) : final.Numbered :=
  run.invariant Numbered (fun _ _ _ _ _ holds taken => holds.step (step_spec taken)) numbered

theorem removeWriteId_of_missing {tree : FWriteTree Key Double} {writeId : ℤ}
    (missing : ∀ entry ∈ tree.allWrites, entry.writeId ≠ writeId) :
    tree.removeWriteId writeId = .error ⟨"[FWriteTree removeWriteId:] called with nonexistent writeId."⟩ := by
  have none : tree.allWrites.findIdx? (fun record => record.writeId = writeId) = none := by
    rw [List.findIdx?_eq_none_iff]
    exact fun entry member => decide_eq_false (missing entry member)
  rw [FWriteTree.removeWriteId, none]

theorem step_total {repo : FRepo Key Double} (numbered : repo.Numbered) (request : Request Key Double)
    (known : ∀ writeId status, request = .ackWrite writeId status → status = kFErrorWriteCanceled ∨
      ∃ entry ∈ repo.pendingWriteTree.allWrites, entry.writeId = writeId) :
    ∃ next operations, repo.step request = .ok (next, operations) := by
  have newer := numbered.last
  cases request with
  | set path node =>
    rw [step, FSyncTree.applyUserOverwriteAtPath, FWriteTree.addOverwriteAtPath, if_pos newer]
    exact ⟨_, _, rfl⟩
  | update path nodes =>
    rw [step]
    split
    · exact ⟨_, _, rfl⟩
    · dsimp only [FSyncTree.applyUserMergeAtPath, FWriteTree.addMergeAtPath]
      rw [if_pos newer]
      exact ⟨_, _, rfl⟩
  | startTransaction path node applyLocally =>
    rw [step, FSyncTree.applyUserOverwriteAtPath, FWriteTree.addOverwriteAtPath, if_pos newer]
    exact ⟨_, _, rfl⟩
  | ackWrite writeId status =>
    rw [step]
    split
    next => exact ⟨_, _, rfl⟩
    next answered =>
      obtain ⟨entry, member, rfl⟩ := (known writeId status rfl).resolve_left answered
      obtain ⟨earlier, later, pending⟩ := List.append_of_mem member
      have first : ∀ other ∈ earlier, other.writeId ≠ entry.writeId := by
        intro other old
        have ordered := numbered.increasing
        rw [pending, List.pairwise_append] at ordered
        exact ne_of_lt (ordered.2.2 other old entry List.mem_cons_self)
      obtain ⟨again, tree, removed, -⟩ := FWriteTree.removeWriteId_spec pending first
      dsimp only [FSyncTree.ackUserWriteWithWriteId]
      rw [removed]
      exact ⟨_, _, rfl⟩
  | purgeOutstandingWrites => exact ⟨_, _, rfl⟩

/-- No assertion of the client fails in any run, except that an answer must be to a write that is
still pending: ids stay in order although rebuilding the tree lowers the last id. -/
theorem step_fails_iff {final : FRepo Key Double} {requests : List (Request Key Double)}
    {operations : List (FOperation Key Double)} (run : Runs (computes step) init requests final operations)
    (request : Request Key Double) :
    (∃ failure, final.step request = .error failure) ↔
      ∃ writeId status, request = .ackWrite writeId status ∧ status ≠ kFErrorWriteCanceled ∧
        ∀ entry ∈ final.pendingWriteTree.allWrites, entry.writeId ≠ writeId := by
  have numbered := numbered_run run numbered_init
  constructor
  · rintro ⟨failure, fails⟩
    by_contra fine
    obtain ⟨next, emitted, taken⟩ := step_total numbered request fun writeId status same => by
      by_cases canceled : status = kFErrorWriteCanceled
      · exact .inl canceled
      · right
        by_contra missing
        exact fine ⟨writeId, status, same, canceled, fun entry member known => missing ⟨entry, member, known⟩⟩
    rw [fails] at taken
    cases taken
  · rintro ⟨writeId, status, rfl, answered, missing⟩
    rw [step, if_neg answered]
    dsimp only [FSyncTree.ackUserWriteWithWriteId]
    rw [removeWriteId_of_missing missing]
    exact ⟨_, rfl⟩

/-- The first answer rebuilds the tree and lowers the last id. The second one is to the same write. -/
theorem step_fails_iff_answered : ∃ (final : FRepo String ℕ) (operations : List (FOperation String ℕ)),
    Runs (computes step) init [.set ["users", "a"] (.leaf (.string "Minh")), .set ["users"] .empty, .ackWrite 1 "ok"]
        final operations ∧
      final.pendingWriteTree.lastWriteId = 0 ∧ ∃ failure, final.step (.ackWrite 1 "ok") = .error failure := by
  obtain ⟨final, operations, ids, last, run⟩ :
      ∃ (final : FRepo String ℕ) (operations : List (FOperation String ℕ)),
        final.pendingWriteTree.allWrites.map FWriteRecord.writeId = [0] ∧ final.pendingWriteTree.lastWriteId = 0 ∧
        Runs (computes step) init
          [.set ["users", "a"] (.leaf (.string "Minh")), .set ["users"] .empty, .ackWrite 1 "ok"] final operations :=
    ⟨_, _, rfl, rfl, .next rfl (.next rfl (.next rfl (.done _)))⟩
  refine ⟨final, operations, run, last, (step_fails_iff run _).mpr ⟨1, "ok", rfl, by decide, ?_⟩⟩
  intro entry member known
  have listed : entry.writeId ∈ final.pendingWriteTree.allWrites.map FWriteRecord.writeId :=
    List.mem_map_of_mem member
  rw [ids, known] at listed
  exact absurd listed (by decide)

/-! ## What is pending -/

def issued (writeId : ℤ) : List (Request Key Double) → List (FWriteRecord Key Double)
  | [] => []
  | request :: rest =>
    match recordOf writeId request with
    | some record => record :: issued (writeId + 1) rest
    | none => issued writeId rest

def acknowledged : List (Request Key Double) → List ℤ
  | [] => []
  | .ackWrite writeId status :: rest =>
      if status = kFErrorWriteCanceled then acknowledged rest else writeId :: acknowledged rest
  | _ :: rest => acknowledged rest

theorem writeId_issued {writeId : ℤ} {requests : List (Request Key Double)} {record : FWriteRecord Key Double}
    (member : record ∈ issued writeId requests) : writeId ≤ record.writeId := by
  induction requests generalizing writeId with
  | nil => cases member
  | cons request rest ih =>
    rw [issued] at member
    split at member
    next first record_eq =>
      rcases List.mem_cons.mp member with rfl | later
      · exact (writeId_recordOf record_eq).ge
      · exact (ih later).trans' (by omega)
    next => exact ih member

theorem acknowledged_of_recordOf {writeId : ℤ} {request : Request Key Double} {record : FWriteRecord Key Double}
    (record_eq : recordOf writeId request = some record) (rest : List (Request Key Double)) :
    acknowledged (request :: rest) = acknowledged rest := by
  cases request with
  | ackWrite other status => cases record_eq
  | _ => rfl

theorem pending_of_run {start final : FRepo Key Double} {requests : List (Request Key Double)}
    {operations : List (FOperation Key Double)} (run : Runs (computes step) start requests final operations)
    (numbered : start.Numbered) (unpurged : .purgeOutstandingWrites ∉ requests) :
    final.pendingWriteTree.allWrites =
      (start.pendingWriteTree.allWrites ++ issued start.writeIdCounter requests).filter
        fun record => record.writeId ∉ acknowledged requests := by
  induction run with
  | done state => simp [issued, acknowledged]
  | @next state middle final request requests emitted later taken rest ih =>
    have taken := step_spec taken
    have reached := ih (numbered.step taken) fun member => unpurged (List.mem_cons_of_mem _ member)
    rw [reached]
    cases taken with
    | @issued _ record record_eq newer =>
      rw [acknowledged_of_recordOf record_eq, issued, record_eq]
      simp only [append, List.append_assoc, List.singleton_append]
    | nothing empty =>
      rw [issued, recordOf, if_pos empty]
      rfl
    | canceled => rfl
    | @removed status record earlier later again tree answered pending first removal =>
      have acked : acknowledged (.ackWrite record.writeId status :: requests) =
          record.writeId :: acknowledged requests := if_neg answered
      have others : (earlier ++ record :: later ++ issued state.writeIdCounter requests).filter
          (fun entry => entry.writeId ≠ record.writeId) =
          earlier ++ later ++ issued state.writeIdCounter requests := by
        have ordered := numbered.increasing
        rw [pending, List.pairwise_append, List.pairwise_cons] at ordered
        have below := numbered.below record (pending ▸ List.mem_append_right _ List.mem_cons_self)
        have kept : ∀ entry ∈ earlier ++ later ++ issued state.writeIdCounter requests,
            entry.writeId ≠ record.writeId := by
          intro entry member
          rcases List.mem_append.mp member with before | new
          · rcases List.mem_append.mp before with old | young
            · exact first entry old
            · exact ne_of_gt (ordered.2.1.1 entry young)
          · exact ne_of_gt (below.trans_le (writeId_issued new))
        rw [List.filter_append, List.filter_append, List.filter_cons_of_neg (by simp), ← List.filter_append,
          ← List.filter_append]
        exact List.filter_eq_self.mpr fun entry member => decide_eq_true (kept entry member)
      have unissued : issued state.writeIdCounter (.ackWrite record.writeId status :: requests) =
          issued state.writeIdCounter requests := rfl
      rw [removal_allWrites removal, ← others, List.filter_filter, acked, pending, unissued]
      apply List.filter_congr
      intro entry _
      simpa using Bool.and_comm _ _
    | purged => exact absurd List.mem_cons_self unpurged

/-- Whatever the order of the answers, what is pending after a run is what was issued and not
acknowledged, in order, under ids that no other pending write has. -/
theorem allWrites_of_run {final : FRepo Key Double} {requests : List (Request Key Double)}
    {operations : List (FOperation Key Double)} (run : Runs (computes step) init requests final operations)
    (unpurged : .purgeOutstandingWrites ∉ requests) :
    final.pendingWriteTree.allWrites =
        (issued 0 requests).filter (fun record => record.writeId ∉ acknowledged requests) ∧
      (final.pendingWriteTree.allWrites.map FWriteRecord.writeId).Nodup := by
  refine ⟨pending_of_run run numbered_init unpurged, ?_⟩
  rw [List.Nodup, List.pairwise_map]
  exact (numbered_run run numbered_init).increasing.imp fun smaller => ne_of_lt smaller

theorem allWrites_of_run_answered : ∃ (requests : List (Request String ℕ)) (final : FRepo String ℕ)
      (operations : List (FOperation String ℕ)),
    requests = [.set ["a"] (.leaf (.string "Minh")), .set ["b"] (.leaf (.string "An")), .ackWrite 1 "ok"] ∧
      Runs (computes step) init requests final operations ∧
      final.pendingWriteTree.allWrites =
        (issued 0 requests).filter (fun record => record.writeId ∉ acknowledged requests) ∧
      (final.pendingWriteTree.allWrites.map FWriteRecord.writeId).Nodup := by
  obtain ⟨final, operations, run⟩ : ∃ (final : FRepo String ℕ) (operations : List (FOperation String ℕ)),
      Runs (computes step) init [.set ["a"] (.leaf (.string "Minh")), .set ["b"] (.leaf (.string "An")),
        .ackWrite 1 "ok"] final operations :=
    ⟨_, _, .next rfl (.next rfl (.next rfl (.done _)))⟩
  exact ⟨_, final, operations, rfl, run, allWrites_of_run run (by simp)⟩

/-! ## The visible writes over whole runs -/

/-- Updates are one level deep, transactions show their writes, and a write is answered when no older
pending write covers what it wrote, as it is when answers come in the order of the writes. -/
def InOrder (repo : FRepo Key Double) : Request Key Double → Prop
  | .set _ _ => True
  | .update _ nodes => ∀ entry ∈ nodes.enumerateWrites, entry.1.length ≤ 1
  | .startTransaction _ _ applyLocally => applyLocally = true
  | .ackWrite writeId status => status = kFErrorWriteCanceled ∨
      ∀ earlier record later, repo.pendingWriteTree.allWrites = earlier ++ record :: later →
        record.writeId = writeId → ∀ entry ∈ earlier, ∀ old ∈ entry.writes, ∀ gone ∈ record.writes,
          ¬ old.1 <+: gone.1
  | .purgeOutstandingWrites => True

theorem inOrder_of_oldest {repo : FRepo Key Double}
    (increasing : repo.pendingWriteTree.allWrites.Pairwise fun entry later => entry.writeId < later.writeId)
    {writeId : ℤ} (oldest : repo.pendingWriteTree.allWrites.head?.map FWriteRecord.writeId = some writeId)
    (status : String) : InOrder repo (.ackWrite writeId status) := by
  right
  intro earlier other others split same entry old
  rw [split] at increasing oldest
  cases earlier with
  | nil => cases old
  | cons first rest =>
    have newer := (List.pairwise_cons.mp increasing).1 other (List.mem_append_right _ List.mem_cons_self)
    rw [same, ← Option.some.inj oldest] at newer
    exact absurd newer (lt_irrefl _)

structure Layered (repo : FRepo Key Double) : Prop where
  visible : ∀ entry ∈ repo.pendingWriteTree.allWrites, entry.visible = true
  oneLevel : ∀ entry ∈ repo.pendingWriteTree.allWrites, FWriteTree.OneLevel entry
  layered : repo.pendingWriteTree.visibleWrites = FWriteTree.layered repo.pendingWriteTree.allWrites

theorem layered_init : (init : FRepo Key Double).Layered where
  visible := List.forall_mem_nil _
  oneLevel := List.forall_mem_nil _
  layered := rfl

theorem recordOf_inOrder {repo : FRepo Key Double} {request : Request Key Double}
    {record : FWriteRecord Key Double}
    {writeId : ℤ} (record_eq : recordOf writeId request = some record) (inOrder : InOrder repo request) :
    record.visible = true ∧ FWriteTree.OneLevel record := by
  cases request with
  | set path node =>
    cases record_eq
    exact ⟨rfl, fun entry member => by rw [List.mem_singleton.mp member]; exact Nat.le_succ _⟩
  | update path nodes =>
    rw [recordOf] at record_eq
    split at record_eq
    · cases record_eq
    · cases record_eq
      refine ⟨rfl, fun entry member => ?_⟩
      obtain ⟨child, listed, rfl⟩ := List.mem_map.mp member
      change (path ++ child.1).length ≤ path.length + 1
      rw [List.length_append]
      exact Nat.add_le_add_left (inOrder child listed) _
  | startTransaction path node applyLocally =>
    cases record_eq
    exact ⟨inOrder, fun entry member => by rw [List.mem_singleton.mp member]; exact Nat.le_succ _⟩
  | ackWrite other status => cases record_eq
  | purgeOutstandingWrites => cases record_eq

theorem Layered.step {repo next : FRepo Key Double} (holds : repo.Layered) {request : Request Key Double}
    (inOrder : InOrder repo request) (taken : Step repo request next) : next.Layered := by
  obtain ⟨visible, oneLevel, layered⟩ := holds
  cases taken with
  | @issued request record record_eq newer =>
    obtain ⟨shown, shallow⟩ := recordOf_inOrder record_eq inOrder
    refine ⟨?_, ?_, ?_⟩
    · intro entry member
      rcases List.mem_append.mp member with old | new
      · exact visible entry old
      · rw [List.mem_singleton.mp new, shown]
    · intro entry member
      rcases List.mem_append.mp member with old | new
      · exact oneLevel entry old
      · rw [List.mem_singleton.mp new]
        exact shallow
    · simp only [append, shown, if_true, layered]
      exact (FWriteTree.layered_append_singleton _ record).symm
  | nothing empty => exact ⟨visible, oneLevel, layered⟩
  | canceled => exact ⟨visible, oneLevel, layered⟩
  | @removed status record earlier later again tree answered pending first removal =>
    have uncovered := inOrder.resolve_left answered earlier record later pending rfl
    rw [pending] at visible oneLevel layered
    have kept : ∀ entry ∈ earlier ++ later, entry ∈ earlier ++ record :: later := fun entry member =>
      (List.mem_append.mp member).elim (List.mem_append_left _) fun new =>
        List.mem_append_right _ (List.mem_cons_of_mem _ new)
    obtain ⟨left, rebuilt⟩ := removal.layered visible (fun entry member => oneLevel entry (kept entry member))
      uncovered layered
    refine ⟨?_, ?_, ?_⟩
    · rw [left]
      exact fun entry member => visible entry (kept entry member)
    · rw [left]
      exact fun entry member => oneLevel entry (kept entry member)
    · rw [left]
      exact rebuilt
  | purged => exact ⟨List.forall_mem_nil _, List.forall_mem_nil _, rfl⟩

theorem layered_run {start final : FRepo Key Double} {requests : List (Request Key Double)}
    {operations : List (FOperation Key Double)}
    (run : Runs ((computes step).guardedBy InOrder) start requests final operations)
    (layered : start.Layered) : final.Layered :=
  run.invariant Layered (fun _ _ _ _ _ holds taken => holds.step taken.1 (step_spec taken.2)) layered

/-- In every run in order, the tree of visible writes, which is changed piece by piece, is the one
that the pending writes build from scratch. -/
theorem visibleWrites_of_run {final : FRepo Key Double} {requests : List (Request Key Double)}
    {operations : List (FOperation Key Double)}
    (run : Runs ((computes step).guardedBy InOrder) init requests final operations) :
    final.pendingWriteTree.visibleWrites =
      FWriteTree.layerTreeFromWrites final.pendingWriteTree.allWrites FWriteTree.defaultFilter [] :=
  (layered_run run layered_init).layered

def threeWrites : List (Request String ℕ) :=
  [.set ["users", "a"] (.leaf (.string "Minh")),
    .update ["users"] (FCompoundWrite.emptyWrite.addWrite (.leaf (.string "An")) ["b"]),
    .set ["users", "a"] (.leaf (.string "Mai"))]

theorem inOrder_update (repo : FRepo String ℕ) :
    InOrder repo (.update ["users"] (FCompoundWrite.emptyWrite.addWrite (.leaf (.string "An")) ["b"])) := by
  intro entry member
  rw [FCompoundWrite.mem_enumerateWrites_single.mp member]
  exact le_refl 1

theorem run_threeWrites_answered : ∃ (final : FRepo String ℕ) (operations : List (FOperation String ℕ)),
    Runs ((computes step).guardedBy InOrder) init (threeWrites ++ [.ackWrite 0 "ok"]) final operations := by
  refine ⟨_, _, .next ⟨trivial, rfl⟩ (.next ⟨inOrder_update _, rfl⟩ (.next ⟨trivial, rfl⟩
    (.next ⟨inOrder_of_oldest ?_ rfl "ok", rfl⟩ (.done _))))⟩
  decide

theorem visibleWrites_of_run_answered : ∃ (final : FRepo String ℕ) (operations : List (FOperation String ℕ)),
    Runs ((computes step).guardedBy InOrder) init (threeWrites ++ [.ackWrite 0 "ok"]) final operations ∧
      final.pendingWriteTree.visibleWrites =
        FWriteTree.layerTreeFromWrites final.pendingWriteTree.allWrites FWriteTree.defaultFilter [] := by
  obtain ⟨final, operations, run⟩ := run_threeWrites_answered
  exact ⟨final, operations, run, visibleWrites_of_run run⟩

theorem Step.answers_oldest {repo next : FRepo Key Double} {writeId : ℤ} {status : String}
    (taken : Step repo (.ackWrite writeId status) next) (answered : status ≠ kFErrorWriteCanceled)
    {record : FWriteRecord Key Double} {later : List (FWriteRecord Key Double)}
    (pending : repo.pendingWriteTree.allWrites = record :: later) (oldest : record.writeId = writeId) :
    ∃ again, FWriteTree.Removal repo.pendingWriteTree [] record later again next.pendingWriteTree := by
  cases taken with
  | issued record_eq newer => cases record_eq
  | canceled => exact absurd rfl answered
  | @removed _ other earlier others again tree _ split first removal =>
    rw [pending] at split
    cases earlier with
    | nil =>
      obtain ⟨rfl, rfl⟩ := List.cons.inj split
      exact ⟨again, removal⟩
    | cons head rest =>
      obtain ⟨rfl, -⟩ := List.cons.inj split
      exact absurd oldest (first _ List.mem_cons_self)

/-- An update below the path of an older write disappears from what is shown when that write is
answered, although it is still pending: the code looks only at the path of the update as a whole. -/
theorem deepUpdate_lost {repo final : FRepo Key Double} {requests : List (Request Key Double)}
    {operations answers : List (FOperation Key Double)}
    (run : Runs ((computes step).guardedBy InOrder) init requests repo operations)
    {base middle rest : KeyPath Key} (deep : middle ≠ []) (deeper : rest ≠ []) {value node : Node Double}
    {writeId : ℤ} {later : List (FWriteRecord Key Double)}
    (pending : repo.pendingWriteTree.allWrites = .overwrite (base ++ middle) value writeId true :: later)
    (separate : ∀ entry ∈ later, ¬ base ++ middle <+: entry.path ∧
      ∀ other ∈ entry.writes, ¬ other.1 <+: base ++ middle)
    {status : String} (answered : status ≠ kFErrorWriteCanceled)
    (after : Runs (computes step) repo
      [.update base (FCompoundWrite.emptyWrite.addWrite node (middle ++ rest)), .ackWrite writeId status]
      final answers) :
    (∃ record ∈ final.pendingWriteTree.allWrites, (base ++ middle ++ rest, node) ∈ record.writes) ∧
      ∀ lower, final.pendingWriteTree.visibleWrites.completeNodeAtPath (base ++ middle ++ lower) = none := by
  have holds := layered_run run layered_init
  cases after with
  | @next _ updated _ _ _ _ _ first others =>
  cases others with
  | next second done =>
  cases done
  have update := step_spec first
  have ack := step_spec second
  generalize recorded : FCompoundWrite.emptyWrite.addWrite node (middle ++ rest) = nodes at update
  have member : ∀ entry, entry ∈ nodes.enumerateWrites ↔ entry = (middle ++ rest, node) := fun entry =>
    recorded ▸ FCompoundWrite.mem_enumerateWrites_single
  cases update with
  | nothing empty =>
    rw [← recorded, FCompoundWrite.isEmpty_single] at empty
    cases empty
  | @issued _ record record_eq newer =>
  rw [recordOf, ← recorded, FCompoundWrite.isEmpty_single, recorded] at record_eq
  cases record_eq
  have written : ∀ entry, entry ∈ (FWriteRecord.merge base nodes repo.writeIdCounter).writes ↔
      entry = (base ++ middle ++ rest, node) := by
    intro entry
    simp only [FWriteRecord.writes, List.mem_map, member, exists_eq_left, List.append_assoc, eq_comm]
  have longer : ¬ base ++ middle ++ rest <+: base ++ middle := by
    intro below
    have bound := below.length_le
    rw [List.length_append] at bound
    exact deeper (List.length_eq_zero_iff.mp (by omega))
  have oldest : (append repo.pendingWriteTree (.merge base nodes repo.writeIdCounter)).allWrites =
      .overwrite (base ++ middle) value writeId true :: (later ++ [.merge base nodes repo.writeIdCounter]) :=
    congrArg (· ++ [_]) pending
  obtain ⟨again, removal⟩ := ack.answers_oldest answered oldest rfl
  have left := removal_allWrites removal
  rw [List.nil_append] at left
  refine ⟨⟨_, left ▸ List.mem_append_right _ List.mem_cons_self, (written _).mpr rfl⟩, fun lower => ?_⟩
  generalize final.pendingWriteTree = tree at removal
  cases removal with
  | hidden shadowed =>
    rcases shadowed with invisible | ⟨entry, listed, -, contains⟩
    · cases invisible
    · obtain ⟨other, otherMember, above⟩ := FWriteTree.recordContainsPath_iff.mp contains
      rcases List.mem_append.mp listed with old | new
      · exact absurd above ((separate entry old).2 other otherMember)
      · rw [List.mem_singleton.mp new, written] at otherMember
        rw [otherMember] at above
        exact absurd above longer
  | rebuilt visible overlap =>
    obtain ⟨entry, listed, -, below⟩ := overlap
    rw [List.nil_append] at listed
    rcases List.mem_append.mp listed with old | new
    · exact absurd below (separate entry old).1
    · rw [List.mem_singleton.mp new] at below
      have bound : (base ++ middle).length ≤ base.length := below.length_le
      rw [List.length_append] at bound
      exact absurd (List.length_eq_zero_iff.mp (by omega)) deep
  | taken visible unshadowed apart =>
    change (FCompoundWrite.removeWriteAtPath _ (base ++ middle)).completeNodeAtPath _ = none
    rw [FCompoundWrite.completeNodeAtPath_removeWriteAtPath, if_pos (List.prefix_append _ _)]
    intro upper above shorter
    change (FWriteTree.layerRecord [] repo.pendingWriteTree.visibleWrites
      (.merge base nodes repo.writeIdCounter)).completeNodeAtPath upper = none
    rw [FWriteTree.completeNodeAtPath_layerRecord, holds.layered, FWriteTree.completeNodeAtPath_layered, pending,
      List.flatMap_cons, ← Overlay.overlay_append]
    apply Overlay.overlay_eq_none_iff.mpr
    intro other otherMember covers
    simp only [List.mem_append, List.mem_flatMap, written] at otherMember
    rcases otherMember with (own | ⟨entry, listed, otherMember⟩) | rfl
    · rw [List.mem_singleton.mp own] at covers
      exact shorter (above.eq_of_length (le_antisymm above.length_le covers.length_le))
    · exact (separate entry listed).2 other otherMember (covers.trans above)
    · exact longer (covers.trans above)

theorem deepUpdate_lost_name : ∃ (repo final : FRepo String ℕ) (operations answers : List (FOperation String ℕ)),
    Runs ((computes step).guardedBy InOrder) init [.set ["users", "a"] (.leaf (.string "Minh"))] repo operations ∧
      Runs (computes step) repo
        [.update ["users"] (FCompoundWrite.emptyWrite.addWrite (.leaf (.string "An")) ["a", "name"]),
          .ackWrite 0 "ok"] final answers ∧
      (∃ record ∈ final.pendingWriteTree.allWrites,
        (["users", "a", "name"], .leaf (.string "An")) ∈ record.writes) ∧
      ∀ lower, final.pendingWriteTree.visibleWrites.completeNodeAtPath (["users", "a"] ++ lower) = none := by
  obtain ⟨repo, final, operations, answers, pending, run, after⟩ :
      ∃ (repo final : FRepo String ℕ) (operations answers : List (FOperation String ℕ)),
        repo.pendingWriteTree.allWrites = [.overwrite ["users", "a"] (.leaf (.string "Minh")) 0 true] ∧
        Runs ((computes step).guardedBy InOrder) init [.set ["users", "a"] (.leaf (.string "Minh"))] repo operations ∧
        Runs (computes step) repo
          [.update ["users"] (FCompoundWrite.emptyWrite.addWrite (.leaf (.string "An")) ["a", "name"]),
            .ackWrite 0 "ok"] final answers :=
    ⟨_, _, _, _, rfl, .next ⟨trivial, rfl⟩ (.done _), .next rfl (.next rfl (.done _))⟩
  exact ⟨repo, final, operations, answers, run, after,
    @deepUpdate_lost _ _ _ _ _ _ _ _ run ["users"] ["a"] ["name"] (by simp) (by simp) _ _ _ _ pending (by simp) _
      (by decide) after⟩

end FRepo

end ProjectF02.Firebase
