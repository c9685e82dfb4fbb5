import ProjectF02.Firebase.CompoundWrite

/-! The writes of the client that the server has not acknowledged yet.

Transcribed from `FWriteRecord` and `FWriteTree`. The visible writes are kept
layered in one tree, and removing one of them rebuilds the tree only where the
code finds that others overlap.
-/

set_option autoImplicit false

namespace ProjectF02.Firebase
open Store

variable {Key Double : Type} [NodeKey Key]

inductive FWriteRecord (Key Double : Type) [NodeKey Key] where
  | overwrite (path : KeyPath Key) (overwrite : Node Double) (writeId : ℤ) (visible : Bool)
  -- A merge is visible from the start.
  | merge (path : KeyPath Key) (merge : FCompoundWrite Key Double) (writeId : ℤ)

namespace FWriteRecord

def path : FWriteRecord Key Double → KeyPath Key
  | .overwrite path _ _ _ => path
  | .merge path _ _ => path

def writeId : FWriteRecord Key Double → ℤ
  | .overwrite _ _ writeId _ => writeId
  | .merge _ _ writeId => writeId

def visible : FWriteRecord Key Double → Bool
  | .overwrite _ _ _ visible => visible
  | .merge .. => true

def writes : FWriteRecord Key Double → List (KeyPath Key × Node Double)
  | .overwrite path node _ _ => [(path, node)]
  | .merge path changed _ => changed.enumerateWrites.map fun entry => (path ++ entry.1, entry.2)

end FWriteRecord

structure AssertionFailure where
  message : String
  deriving DecidableEq, Repr

structure FWriteTree (Key Double : Type) [NodeKey Key] where
  visibleWrites : FCompoundWrite Key Double
  allWrites : List (FWriteRecord Key Double)
  lastWriteId : ℤ

namespace FWriteTree

def init : FWriteTree Key Double := ⟨.emptyWrite, [], -1⟩

def addOverwriteAtPath (tree : FWriteTree Key Double) (path : KeyPath Key) (newData : Node Double) (writeId : ℤ)
    (visible : Bool) : Except AssertionFailure (FWriteTree Key Double) :=
  if writeId > tree.lastWriteId then
    .ok {
      visibleWrites := if visible then tree.visibleWrites.addWrite newData path else tree.visibleWrites
      allWrites := tree.allWrites ++ [.overwrite path newData writeId visible]
      lastWriteId := writeId }
  else .error ⟨"Stacking an older write on top of a newer one"⟩

def addMergeAtPath (tree : FWriteTree Key Double) (path : KeyPath Key)
    (changedChildren : FCompoundWrite Key Double)
    (writeId : ℤ) : Except AssertionFailure (FWriteTree Key Double) :=
  if writeId > tree.lastWriteId then
    .ok {
      visibleWrites := tree.visibleWrites.addCompoundWrite changedChildren path
      allWrites := tree.allWrites ++ [.merge path changedChildren writeId]
      lastWriteId := writeId }
  else .error ⟨"Stacking an older merge on top of newer one"⟩

def writeForId (tree : FWriteTree Key Double) (writeId : ℤ) : Option (FWriteRecord Key Double) :=
  tree.allWrites.find? fun write => write.writeId = writeId

def recordContainsPath (record : FWriteRecord Key Double) (path : KeyPath Key) : Bool :=
  match record with
  | .overwrite recordPath _ _ _ => recordPath.contains path
  | .merge recordPath merge _ => merge.enumerateWrites.any fun entry =>
      KeyPath.contains (recordPath ++ entry.1) path

/-- One record layered over what was layered so far, seen from the root of the tree. -/
def layerRecord (treeRoot : KeyPath Key) (compoundWrite : FCompoundWrite Key Double)
    (record : FWriteRecord Key Double) :
    FCompoundWrite Key Double :=
  match record with
  | .overwrite writePath overwrite _ _ =>
      if treeRoot.contains writePath then
        compoundWrite.addWrite overwrite (KeyPath.relativePathFrom treeRoot writePath)
      else if writePath.contains treeRoot then
        compoundWrite.addWrite (overwrite.getChild (KeyPath.relativePathFrom writePath treeRoot).names) []
      else compoundWrite
  | .merge writePath merge _ =>
      if treeRoot.contains writePath then
        compoundWrite.addCompoundWrite merge (KeyPath.relativePathFrom treeRoot writePath)
      else if writePath.contains treeRoot then
        let relativePath := KeyPath.relativePathFrom writePath treeRoot
        if relativePath.isEmpty then compoundWrite.addCompoundWrite merge []
        else match merge.completeNodeAtPath relativePath with
          | some child => compoundWrite.addWrite (child.getChild (KeyPath.names relativePath.tail)) []
          | none => compoundWrite
      else compoundWrite

def layerTreeFromWrites (writes : List (FWriteRecord Key Double)) (filter : FWriteRecord Key Double → Bool)
    (treeRoot : KeyPath Key) : FCompoundWrite Key Double :=
  (writes.filter filter).foldl (layerRecord treeRoot) .emptyWrite

/-- Named for keeping what is visible, it keeps every record. -/
def defaultFilter (_ : FWriteRecord Key Double) : Bool := true

def resetTree (tree : FWriteTree Key Double) : FWriteTree Key Double :=
  { tree with
    visibleWrites := layerTreeFromWrites tree.allWrites defaultFilter []
    lastWriteId := match tree.allWrites.getLast? with
      | some lastRecord => lastRecord.writeId
      | none => -1 }

/-- The loop over the remaining writes, from the last one: whether the removed write was visible until
now, and whether others overlap with it. -/
def overlaps (index : ℕ) (writeToRemove : FWriteRecord Key Double) :
    List (FWriteRecord Key Double × ℕ) → Bool → Bool × Bool
  | [], overlapsWithOtherWrites => (true, overlapsWithOtherWrites)
  | (currentWrite, i) :: rest, overlapsWithOtherWrites =>
      if currentWrite.visible then
        -- Completely shadowed by a later write, which ends the loop.
        if i ≥ index && recordContainsPath currentWrite writeToRemove.path then (false, overlapsWithOtherWrites)
        else overlaps index writeToRemove rest
          (overlapsWithOtherWrites || writeToRemove.path.contains currentWrite.path)
      else overlaps index writeToRemove rest overlapsWithOtherWrites

def removeRecord (visibleWrites : FCompoundWrite Key Double) (record : FWriteRecord Key Double) :
    FCompoundWrite Key Double :=
  match record with
  | .overwrite path _ _ _ => visibleWrites.removeWriteAtPath path
  | .merge path merge _ => merge.enumerateWrites.foldl
      (fun visibleWrites entry => visibleWrites.removeWriteAtPath (path ++ entry.1)) visibleWrites

/-- Whether views must be computed again, and the tree without the write. -/
def removeWriteId (tree : FWriteTree Key Double) (writeId : ℤ) :
    Except AssertionFailure (Bool × FWriteTree Key Double) :=
  match tree.allWrites.findIdx? fun record => record.writeId = writeId with
  | none => .error ⟨"[FWriteTree removeWriteId:] called with nonexistent writeId."⟩
  | some index =>
    match tree.allWrites[index]? with
    | none => .error ⟨"[FWriteTree removeWriteId:] called with nonexistent writeId."⟩
    | some writeToRemove =>
      let remaining := { tree with allWrites := tree.allWrites.eraseIdx index }
      let (wasVisible, overlapsWithOtherWrites) :=
        if writeToRemove.visible then overlaps index writeToRemove remaining.allWrites.zipIdx.reverse false
        else (false, false)
      if !wasVisible then .ok (false, remaining)
      else if overlapsWithOtherWrites then .ok (true, remaining.resetTree)
      else .ok (true, { remaining with visibleWrites := removeRecord tree.visibleWrites writeToRemove })

def removeAllWrites (tree : FWriteTree Key Double) : List (FWriteRecord Key Double) × FWriteTree Key Double :=
  (tree.allWrites, { tree with visibleWrites := .emptyWrite, allWrites := [] })

theorem path_prefix_of_mem_writes {record : FWriteRecord Key Double} {entry : KeyPath Key × Node Double}
    (member : entry ∈ record.writes) : record.path <+: entry.1 := by
  cases record with
  | overwrite path node writeId visible =>
    rw [List.mem_singleton.mp member]
    exact List.prefix_refl path
  | merge path merge writeId =>
    obtain ⟨child, -, rfl⟩ := List.mem_map.mp member
    exact List.prefix_append _ _

theorem recordContainsPath_iff {record : FWriteRecord Key Double} {path : KeyPath Key} :
    recordContainsPath record path = true ↔ ∃ entry ∈ record.writes, entry.1 <+: path := by
  cases record with
  | overwrite recordPath node writeId visible =>
    simp [recordContainsPath, FWriteRecord.writes]
  | merge recordPath merge writeId =>
    simp only [recordContainsPath, FWriteRecord.writes, List.any_eq_true, KeyPath.contains_iff, List.mem_map,
      exists_exists_and_eq_and]

theorem writes_apart {record : FWriteRecord Key Double} {first second : KeyPath Key × Node Double}
    (firstMember : first ∈ record.writes) (secondMember : second ∈ record.writes)
    (above : first.1 <+: second.1) : first = second := by
  cases record with
  | overwrite path node writeId visible =>
    rw [List.mem_singleton.mp firstMember, List.mem_singleton.mp secondMember]
  | merge path merge writeId =>
    obtain ⟨one, oneMember, rfl⟩ := List.mem_map.mp firstMember
    obtain ⟨other, otherMember, rfl⟩ := List.mem_map.mp secondMember
    rw [FCompoundWrite.enumerateWrites_apart oneMember otherMember ((List.prefix_append_right_inj _).mp above)]

/-- The record writes at its own path or at keys directly below it. -/
def OneLevel (record : FWriteRecord Key Double) : Prop :=
  ∀ entry ∈ record.writes, entry.1.length ≤ record.path.length + 1

theorem OneLevel.eq_of_below {record : FWriteRecord Key Double} (oneLevel : OneLevel record) {path : KeyPath Key}
    (notBelow : ¬ path <+: record.path) {entry : KeyPath Key × Node Double} (member : entry ∈ record.writes)
    (below : path <+: entry.1) : entry.1 = path := by
  have above : record.path <+: path := by
    rcases List.prefix_or_prefix_of_prefix (path_prefix_of_mem_writes member) below with shorter | longer
    · exact shorter
    · exact absurd longer notBelow
  have shorter : record.path.length < path.length := by
    apply lt_of_le_of_ne above.length_le
    intro same
    rw [above.eq_of_length same] at notBelow
    exact notBelow (List.prefix_refl path)
  have reach := oneLevel entry member
  exact (below.eq_of_length (le_antisymm below.length_le (by omega))).symm

/-! ## Layers -/

theorem completeNodeAtPath_layerRecord (compoundWrite : FCompoundWrite Key Double)
    (record : FWriteRecord Key Double)
    (path : KeyPath Key) :
    (layerRecord [] compoundWrite record).completeNodeAtPath path =
      record.writes.foldl (Overlay.effect path) (compoundWrite.completeNodeAtPath path) := by
  cases record with
  | overwrite writePath overwrite writeId visible =>
    exact FCompoundWrite.completeNodeAtPath_addWrite compoundWrite overwrite writePath path
  | merge writePath merge writeId =>
    exact FCompoundWrite.completeNodeAtPath_addCompoundWrite compoundWrite merge writePath path

theorem completeNodeAtPath_layerTreeFromWrites (records : List (FWriteRecord Key Double))
    (filter : FWriteRecord Key Double → Bool) (path : KeyPath Key) :
    (layerTreeFromWrites records filter []).completeNodeAtPath path =
      Overlay.overlay ((records.filter filter).flatMap FWriteRecord.writes) path := by
  have layered : ∀ (kept : List (FWriteRecord Key Double)) (compoundWrite : FCompoundWrite Key Double),
      (kept.foldl (layerRecord []) compoundWrite).completeNodeAtPath path =
        (kept.flatMap FWriteRecord.writes).foldl (Overlay.effect path)
          (compoundWrite.completeNodeAtPath path) := by
    intro kept
    induction kept with
    | nil => exact fun _ => rfl
    | cons record rest ih =>
      intro compoundWrite
      rw [List.foldl_cons, ih, completeNodeAtPath_layerRecord, List.flatMap_cons, List.foldl_append]
  rw [layerTreeFromWrites, layered, FCompoundWrite.completeNodeAtPath_emptyWrite]
  rfl

theorem filter_defaultFilter (records : List (FWriteRecord Key Double)) :
    records.filter defaultFilter = records :=
  List.filter_eq_self.mpr fun _ _ => rfl

def layered (records : List (FWriteRecord Key Double)) : FCompoundWrite Key Double :=
  layerTreeFromWrites records defaultFilter []

theorem layered_append_singleton (records : List (FWriteRecord Key Double)) (record : FWriteRecord Key Double) :
    layered (records ++ [record]) = layerRecord [] (layered records) record := by
  simp only [layered, layerTreeFromWrites, filter_defaultFilter, List.foldl_append]
  rfl

@[simp] theorem completeNodeAtPath_layered (records : List (FWriteRecord Key Double)) (path : KeyPath Key) :
    (layered records).completeNodeAtPath path =
      Overlay.overlay (records.flatMap FWriteRecord.writes) path := by
  rw [layered, completeNodeAtPath_layerTreeFromWrites, filter_defaultFilter]

/-! ## Which way a write is removed -/

theorem overlaps_fst {index : ℕ} {removed : FWriteRecord Key Double} {rest : List (FWriteRecord Key Double × ℕ)}
    {found : Bool} :
    (overlaps index removed rest found).1 = true ↔
      ∀ entry ∈ rest, entry.1.visible = true → index ≤ entry.2 →
        recordContainsPath entry.1 removed.path = false := by
  induction rest generalizing found with
  | nil => simp [overlaps]
  | cons entry rest ih =>
    obtain ⟨current, i⟩ := entry
    rw [overlaps, List.forall_mem_cons]
    cases shown : current.visible with
    | false => simp [ih]
    | true =>
      by_cases shadow : index ≤ i ∧ recordContainsPath current removed.path = true
      · simp [shadow]
      · have kept : (decide (i ≥ index) && recordContainsPath current removed.path) = false := by
          simpa [Bool.and_eq_false_iff, imp_iff_not_or] using shadow
        have here : index ≤ i → recordContainsPath current removed.path = false := by
          intro later
          simpa [later] using shadow
        simpa [kept, ih] using fun _ => here

theorem overlaps_snd {index : ℕ} {removed : FWriteRecord Key Double} {rest : List (FWriteRecord Key Double × ℕ)}
    {found : Bool} (visible : (overlaps index removed rest found).1 = true) :
    (overlaps index removed rest found).2 = true ↔
      found = true ∨ ∃ entry ∈ rest, entry.1.visible = true ∧ removed.path <+: entry.1.path := by
  induction rest generalizing found with
  | nil => simp [overlaps]
  | cons entry rest ih =>
    obtain ⟨current, i⟩ := entry
    rw [overlaps] at visible ⊢
    cases shown : current.visible with
    | false =>
      simp only [shown, Bool.false_eq_true, if_false] at visible ⊢
      rw [ih visible]
      simp [shown]
    | true =>
      simp only [shown, if_true] at visible ⊢
      cases shadow : (decide (i ≥ index) && recordContainsPath current removed.path) with
      | true =>
        simp only [shadow, if_true] at visible
        cases visible
      | false =>
        simp only [shadow, Bool.false_eq_true, if_false] at visible ⊢
        rw [ih visible]
        simp [shown, or_assoc]

/-- The three ways in which a record is removed from between the earlier and the later ones. -/
inductive Removal (tree : FWriteTree Key Double) (earlier : List (FWriteRecord Key Double))
    (record : FWriteRecord Key Double) (later : List (FWriteRecord Key Double)) :
    Bool → FWriteTree Key Double → Prop
  | hidden
      (shadowed : record.visible = false ∨
        ∃ entry ∈ later, entry.visible = true ∧ recordContainsPath entry record.path = true) :
      Removal tree earlier record later false { tree with allWrites := earlier ++ later }
  | rebuilt (visible : record.visible = true)
      (overlap : ∃ entry ∈ earlier ++ later, entry.visible = true ∧ record.path <+: entry.path) :
      Removal tree earlier record later true { tree with allWrites := earlier ++ later }.resetTree
  | taken (visible : record.visible = true)
      (unshadowed : ∀ entry ∈ later, entry.visible = true → recordContainsPath entry record.path = false)
      (separate : ∀ entry ∈ earlier ++ later, entry.visible = true → ¬ record.path <+: entry.path) :
      Removal tree earlier record later true
        { tree with allWrites := earlier ++ later, visibleWrites := removeRecord tree.visibleWrites record }

theorem mem_later_iff {earlier later : List (FWriteRecord Key Double)} {entry : FWriteRecord Key Double} :
    entry ∈ later ↔ ∃ i, earlier.length ≤ i ∧ (entry, i) ∈ (earlier ++ later).zipIdx := by
  simp only [List.mem_zipIdx_iff_getElem?]
  constructor
  · intro member
    obtain ⟨i, found⟩ := List.mem_iff_getElem?.mp member
    refine ⟨earlier.length + i, Nat.le_add_right _ _, ?_⟩
    rw [List.getElem?_append_right (Nat.le_add_right _ _), Nat.add_sub_cancel_left]
    exact found
  · rintro ⟨i, after, found⟩
    rw [List.getElem?_append_right after] at found
    exact List.mem_of_getElem? found

theorem unshadowed_iff {earlier later : List (FWriteRecord Key Double)} {record : FWriteRecord Key Double} :
    (overlaps earlier.length record (earlier ++ later).zipIdx.reverse false).1 = true ↔
      ∀ entry ∈ later, entry.visible = true → recordContainsPath entry record.path = false := by
  rw [overlaps_fst]
  constructor
  · intro clear entry member shown
    obtain ⟨i, after, listed⟩ := mem_later_iff.mp member
    exact clear (entry, i) (List.mem_reverse.mpr listed) shown after
  · rintro clear ⟨entry, i⟩ listed shown after
    exact clear entry (mem_later_iff.mpr ⟨i, after, List.mem_reverse.mp listed⟩) shown

theorem overlapping_iff {earlier later : List (FWriteRecord Key Double)} {record : FWriteRecord Key Double}
    (visible : (overlaps earlier.length record (earlier ++ later).zipIdx.reverse false).1 = true) :
    (overlaps earlier.length record (earlier ++ later).zipIdx.reverse false).2 = true ↔
      ∃ entry ∈ earlier ++ later, entry.visible = true ∧ record.path <+: entry.path := by
  rw [overlaps_snd visible]
  constructor
  · rintro (impossible | ⟨⟨entry, i⟩, listed, shown, below⟩)
    · cases impossible
    · have found := List.mem_zipIdx_iff_getElem?.mp (List.mem_reverse.mp listed)
      exact ⟨entry, List.mem_of_getElem? found, shown, below⟩
  · rintro ⟨entry, member, shown, below⟩
    obtain ⟨i, found⟩ := List.mem_iff_getElem?.mp member
    exact .inr ⟨(entry, i), List.mem_reverse.mpr (List.mem_zipIdx_iff_getElem?.mpr found), shown, below⟩

theorem findIdx?_pending {earlier later : List (FWriteRecord Key Double)} {record : FWriteRecord Key Double}
    (first : ∀ entry ∈ earlier, entry.writeId ≠ record.writeId) :
    (earlier ++ record :: later).findIdx? (fun entry => entry.writeId = record.writeId) =
      some earlier.length := by
  have none : earlier.findIdx? (fun entry => entry.writeId = record.writeId) = none := by
    rw [List.findIdx?_eq_none_iff]
    exact fun entry member => decide_eq_false (first entry member)
  rw [List.findIdx?_append, none, List.findIdx?_cons]
  simp

theorem removeWriteId_spec {tree : FWriteTree Key Double} {earlier later : List (FWriteRecord Key Double)}
    {record : FWriteRecord Key Double} (pending : tree.allWrites = earlier ++ record :: later)
    (first : ∀ entry ∈ earlier, entry.writeId ≠ record.writeId) :
    ∃ again next, tree.removeWriteId record.writeId = .ok (again, next) ∧
      Removal tree earlier record later again next := by
  have here : tree.allWrites[earlier.length]? = some record := by
    rw [pending, List.getElem?_append_right le_rfl, Nat.sub_self]
    rfl
  have remaining : tree.allWrites.eraseIdx earlier.length = earlier ++ later := by
    rw [pending, List.eraseIdx_append_of_length_le le_rfl, Nat.sub_self, List.eraseIdx_cons_zero]
  have found := @findIdx?_pending Key Double _ earlier later record first
  rw [← pending] at found
  simp only [removeWriteId, found, here, remaining]
  cases shown : record.visible with
  | false => exact ⟨false, _, rfl, .hidden (.inl shown)⟩
  | true =>
    have shadow := @unshadowed_iff Key Double _ earlier later record
    have overlap := @overlapping_iff Key Double _ earlier later record
    simp only [if_true]
    cases scanned : overlaps earlier.length record (earlier ++ later).zipIdx.reverse false with
    | mk wasVisible overlapsWithOtherWrites =>
      rw [scanned] at shadow overlap
      cases wasVisible with
      | false =>
        refine ⟨false, _, rfl, .hidden (.inr ?_)⟩
        by_contra none
        have clear := shadow.mpr fun entry member visible => Bool.eq_false_iff.mpr fun contained =>
          none ⟨entry, member, visible, contained⟩
        cases clear
      | true =>
        cases overlapsWithOtherWrites with
        | true => exact ⟨true, _, rfl, .rebuilt shown ((overlap rfl).mp rfl)⟩
        | false =>
          refine ⟨true, _, rfl, .taken shown (shadow.mp rfl) fun entry member visible below => ?_⟩
          exact Bool.false_ne_true ((overlap rfl).mpr ⟨entry, member, visible, below⟩)

theorem removeWriteId_cases {tree next : FWriteTree Key Double} {writeId : ℤ} {again : Bool}
    (removed : tree.removeWriteId writeId = .ok (again, next)) :
    ∃ earlier record later, tree.allWrites = earlier ++ record :: later ∧ record.writeId = writeId ∧
      (∀ entry ∈ earlier, entry.writeId ≠ writeId) ∧ Removal tree earlier record later again next := by
  cases found : tree.allWrites.find? fun record => record.writeId = writeId with
  | none =>
    have missing : tree.allWrites.findIdx? (fun record => record.writeId = writeId) = none := by
      rw [List.findIdx?_eq_none_iff]
      intro entry member
      simpa using List.find?_eq_none.mp found entry member
    rw [removeWriteId, missing] at removed
    cases removed
  | some record =>
    obtain ⟨same, earlier, later, pending, first⟩ := List.find?_eq_some_iff_append.mp found
    have id : record.writeId = writeId := by simpa using same
    subst id
    have distinct : ∀ entry ∈ earlier, entry.writeId ≠ record.writeId := fun entry member => by
      simpa using first entry member
    obtain ⟨other, result, done, removal⟩ := removeWriteId_spec pending distinct
    rw [done] at removed
    cases removed
    exact ⟨earlier, record, later, pending, rfl, distinct, removal⟩

theorem completeNodeAtPath_foldl_removeWriteAtPath {writes : List (KeyPath Key × Node Double)}
    {visibleWrites : FCompoundWrite Key Double}
    (first : ∀ gone ∈ writes, ∀ upper, upper <+: gone.1 → upper ≠ gone.1 →
      visibleWrites.completeNodeAtPath upper = none) (path : KeyPath Key) :
    (writes.foldl (fun visible gone => visible.removeWriteAtPath gone.1) visibleWrites).completeNodeAtPath
      path = if ∃ gone ∈ writes, gone.1 <+: path then none else visibleWrites.completeNodeAtPath path := by
  induction writes generalizing visibleWrites with
  | nil => simp
  | cons gone rest ih =>
    have removed := FCompoundWrite.completeNodeAtPath_removeWriteAtPath (first gone List.mem_cons_self)
    rw [List.foldl_cons, ih]
    · rw [removed]
      simp only [List.mem_cons, exists_eq_or_imp]
      by_cases here : gone.1 <+: path
      · simp only [here, true_or, if_true, ite_self]
      · simp only [here, false_or, if_false]
    · intro other member upper above shorter
      rw [removed, first other (List.mem_cons_of_mem _ member) upper above shorter, ite_self]

theorem removeRecord_eq_foldl (visibleWrites : FCompoundWrite Key Double) (record : FWriteRecord Key Double) :
    removeRecord visibleWrites record =
      record.writes.foldl (fun visible gone => visible.removeWriteAtPath gone.1) visibleWrites := by
  cases record with
  | overwrite path node writeId visible => rfl
  | merge path merge writeId => rw [removeRecord, FWriteRecord.writes, List.foldl_map]

section
variable {earlier later : List (FWriteRecord Key Double)} {record : FWriteRecord Key Double}

/-- Where the code finds no overlap, no other write lies above or below one of the record's. -/
theorem apart_of_separate (oneLevel : ∀ entry ∈ earlier ++ later, OneLevel entry)
    (uncovered : ∀ entry ∈ earlier, ∀ old ∈ entry.writes, ∀ gone ∈ record.writes, ¬ old.1 <+: gone.1)
    (unshadowed : ∀ entry ∈ later, recordContainsPath entry record.path = false)
    (separate : ∀ entry ∈ earlier ++ later, ¬ record.path <+: entry.path)
    {entry : FWriteRecord Key Double} (member : entry ∈ earlier ++ later)
    {other gone : KeyPath Key × Node Double}
    (otherMember : other ∈ entry.writes) (goneMember : gone ∈ record.writes) :
    ¬ other.1 <+: gone.1 ∧ ¬ gone.1 <+: other.1 := by
  have base := path_prefix_of_mem_writes goneMember
  -- A write of the entry below the record's path is at that path, since it is one level deep.
  have atPath : record.path <+: other.1 → other.1 = record.path :=
    (oneLevel entry member).eq_of_below (separate entry member) otherMember
  have notAbove : ¬ other.1 <+: gone.1 := by
    intro above
    rcases List.mem_append.mp member with old | new
    · exact uncovered entry old other otherMember gone goneMember above
    · have clear := Bool.eq_false_iff.mp (unshadowed entry new)
      apply clear
      rw [recordContainsPath_iff]
      refine ⟨other, otherMember, ?_⟩
      rcases List.prefix_or_prefix_of_prefix above base with shorter | longer
      · exact shorter
      · rw [atPath longer]
  refine ⟨notAbove, fun below => notAbove ?_⟩
  rw [atPath (base.trans below)]
  exact base

/-- The tree after a removal is the one built from the writes that are left, provided that what the
removed record wrote is covered by nothing older and merges are one level deep. -/
theorem Removal.layered {tree next : FWriteTree Key Double} {again : Bool}
    (removal : Removal tree earlier record later again next)
    (visible : ∀ entry ∈ earlier ++ record :: later, entry.visible = true)
    (oneLevel : ∀ entry ∈ earlier ++ later, OneLevel entry)
    (uncovered : ∀ entry ∈ earlier, ∀ old ∈ entry.writes, ∀ gone ∈ record.writes, ¬ old.1 <+: gone.1)
    (synced : tree.visibleWrites = FWriteTree.layered (earlier ++ record :: later)) :
    next.allWrites = earlier ++ later ∧ next.visibleWrites = FWriteTree.layered (earlier ++ later) := by
  have shown : ∀ entry ∈ earlier ++ later, entry.visible = true := by
    intro entry member
    apply visible
    rcases List.mem_append.mp member with old | new
    · exact List.mem_append_left _ old
    · exact List.mem_append_right _ (List.mem_cons_of_mem _ new)
  have told : ∀ path, tree.visibleWrites.completeNodeAtPath path =
      Overlay.overlay (earlier.flatMap FWriteRecord.writes ++ record.writes ++
        later.flatMap FWriteRecord.writes) path := by
    intro path
    rw [synced, completeNodeAtPath_layered, List.flatMap_append, List.flatMap_cons, List.append_assoc]
  have outermost : ∀ gone ∈ record.writes, ∀ old ∈ earlier.flatMap FWriteRecord.writes,
      old.1 <+: gone.1 → gone.1 <+: old.1 := by
    intro gone goneMember old oldMember above
    obtain ⟨entry, member, listed⟩ := List.mem_flatMap.mp oldMember
    exact absurd above (uncovered entry member old listed gone goneMember)
  cases removal with
  | hidden shadowed =>
    refine ⟨rfl, FCompoundWrite.ext_completeNodeAtPath fun path => ?_⟩
    rw [told, completeNodeAtPath_layered, List.flatMap_append]
    apply Overlay.overlay_without outermost
    by_cases covered : ∃ gone ∈ record.writes, gone.1 <+: path
    · right
      obtain ⟨gone, goneMember, above⟩ := covered
      rcases shadowed with hidden | ⟨entry, member, -, contains⟩
      · rw [visible record (List.mem_append_right _ List.mem_cons_self)] at hidden
        cases hidden
      · obtain ⟨cover, listed, covers⟩ := recordContainsPath_iff.mp contains
        exact ⟨cover, List.mem_flatMap.mpr ⟨entry, member, listed⟩,
          covers.trans ((path_prefix_of_mem_writes goneMember).trans above)⟩
    · exact .inl fun gone goneMember above => covered ⟨gone, goneMember, above⟩
  | rebuilt _ overlap => exact ⟨rfl, rfl⟩
  | taken _ unshadowed separate =>
    refine ⟨rfl, FCompoundWrite.ext_completeNodeAtPath fun path => ?_⟩
    have apart := fun entry (member : entry ∈ earlier ++ later) other (listed : other ∈ entry.writes) gone
        (goneMember : gone ∈ record.writes) =>
      apart_of_separate oneLevel uncovered
        (fun entry member => unshadowed entry member (shown entry (List.mem_append_right _ member)))
        (fun entry member => separate entry member (shown entry member)) member listed goneMember
    have first : ∀ gone ∈ record.writes, ∀ upper, upper <+: gone.1 → upper ≠ gone.1 →
        tree.visibleWrites.completeNodeAtPath upper = none := by
      intro gone goneMember upper above shorter
      rw [told, Overlay.overlay_eq_none_iff]
      intro other otherMember covers
      simp only [List.mem_append, List.mem_flatMap] at otherMember
      rcases otherMember with (⟨entry, member, listed⟩ | own) | ⟨entry, member, listed⟩
      · exact (apart entry (List.mem_append_left _ member) other listed gone goneMember).1
          (covers.trans above)
      · have same := writes_apart own goneMember (covers.trans above)
        subst same
        exact shorter (above.eq_of_length (le_antisymm above.length_le covers.length_le))
      · exact (apart entry (List.mem_append_right _ member) other listed gone goneMember).1
          (covers.trans above)
    change (removeRecord tree.visibleWrites record).completeNodeAtPath path = _
    rw [removeRecord_eq_foldl, completeNodeAtPath_foldl_removeWriteAtPath first, completeNodeAtPath_layered]
    split
    next covered =>
      obtain ⟨gone, goneMember, above⟩ := covered
      symm
      rw [Overlay.overlay_eq_none_iff]
      intro other otherMember covers
      obtain ⟨entry, member, listed⟩ := List.mem_flatMap.mp otherMember
      have separated := apart entry member other listed gone goneMember
      rcases List.prefix_or_prefix_of_prefix covers above with higher | lower
      · exact separated.1 higher
      · exact separated.2 lower
    next free =>
      rw [told, List.flatMap_append]
      exact Overlay.overlay_without outermost (.inl fun gone goneMember above => free ⟨gone, goneMember, above⟩)

end

end FWriteTree

end ProjectF02.Firebase
