import ProjectF02.SortedDictionary.LLRBNode

/-! Removal from a left-leaning red-black tree.

Transcribed from `removeMin` and `remove:withComparator:` of `FLLRBValueNode`. A
node is made ready on the way down, so that what is removed has a red neighbor,
and is repaired on the way up. After the smallest entry of its right side has
taken the place of an entry, that entry is sought there once more in vain.
-/

set_option autoImplicit false

namespace ProjectF02.SortedDictionary
open Store

variable {Key Val : Type}

namespace FLLRBNode

theorem count_rotateLeft_le (tree : FLLRBNode Key Val) : tree.rotateLeft.count ≤ tree.count := by
  cases tree with
  | empty => exact Nat.le_refl _
  | node color left key value right =>
    cases right with
    | empty => exact Nat.zero_le _
    | node =>
      simp only [rotateLeft, count]
      omega

theorem count_rotateRight_le (tree : FLLRBNode Key Val) : tree.rotateRight.count ≤ tree.count := by
  cases tree with
  | empty => exact Nat.le_refl _
  | node color left key value right =>
    cases left with
    | empty => exact Nat.zero_le _
    | node =>
      simp only [rotateRight, count]
      omega

@[simp] theorem count_colorFlip (tree : FLLRBNode Key Val) : tree.colorFlip.count = tree.count := by
  rw [← length_entries, entries_colorFlip, length_entries]

theorem count_moveRedLeft_le (tree : FLLRBNode Key Val) : tree.moveRedLeft.count ≤ tree.count := by
  rw [moveRedLeft, ← count_colorFlip tree]
  generalize tree.colorFlip = flipped
  split
  · rw [count_colorFlip]
    apply Nat.le_trans (count_rotateLeft_le _)
    cases flipped with
    | empty => exact Nat.le_refl _
    | node color left key value right =>
      have less := count_rotateRight_le right
      simp only [withRight, right_node, count]
      omega
  · exact Nat.le_refl _

theorem count_moveRedRight_le (tree : FLLRBNode Key Val) : tree.moveRedRight.count ≤ tree.count := by
  rw [moveRedRight, ← count_colorFlip tree]
  generalize tree.colorFlip = flipped
  split
  · rw [count_colorFlip]
    exact count_rotateRight_le flipped
  · exact Nat.le_refl _

theorem count_readyLeft_le (tree : FLLRBNode Key Val) : tree.readyLeft.count ≤ tree.count := by
  unfold readyLeft
  split
  · exact count_moveRedLeft_le tree
  · exact Nat.le_refl _

theorem count_readyRight_le (tree : FLLRBNode Key Val) : tree.readyRight.count ≤ tree.count := by
  have turned : (if tree.left.isRed then tree.rotateRight else tree).count ≤ tree.count := by
    split
    · exact count_rotateRight_le tree
    · exact Nat.le_refl _
  unfold readyRight
  generalize (if tree.left.isRed then tree.rotateRight else tree) = first at turned ⊢
  dsimp only
  split
  · exact Nat.le_trans (count_moveRedRight_le first) turned
  · exact turned

section
variable {tree before after : FLLRBNode Key Val} {color : FLLRBColor} {key : Key} {value : Val}

theorem count_lt_of_readyLeft (ready : tree.readyLeft = node color before key value after) :
    before.count < tree.count := by
  have less := count_readyLeft_le tree
  rw [ready, count] at less
  omega

theorem count_lt_of_readyRight (ready : tree.readyRight = node color before key value after) :
    after.count < tree.count := by
  have less := count_readyRight_le tree
  rw [ready, count] at less
  omega

end

def removeMin (tree : FLLRBNode Key Val) : FLLRBNode Key Val :=
  if tree.left.isEmpty then .empty
  else
    match _ : tree.readyLeft with
    | .empty => .empty
    | .node color left key value right => (node color left.removeMin key value right).fixUp
termination_by tree.count
decreasing_by exact count_lt_of_readyLeft ‹_›

theorem count_removeMin_le (tree : FLLRBNode Key Val) : tree.removeMin.count ≤ tree.count := by
  fun_induction removeMin tree with
  | case1 => exact Nat.zero_le _
  | case2 => exact Nat.zero_le _
  | case3 tree some color left key value right ready ih =>
    have less := count_readyLeft_le tree
    rw [ready, count] at less
    rw [← length_entries, entries_fixUp, length_entries, count]
    omega

def remove [LinearOrder Key] (key : Key) : FLLRBNode Key Val → FLLRBNode Key Val
  | .empty => .empty
  | .node color left held value right =>
    if key < held then
      match _ : (node color left held value right).readyLeft with
      | .empty => .empty
      | .node color left held value right => (node color (left.remove key) held value right).fixUp
    else
      match _ : (node color left held value right).readyRight with
      | .empty => .empty
      | .node color left held value right =>
        if key = held then
          match right.min with
          -- Nothing is to the right.
          | none => .empty
          | some (smallest, least) =>
            (node color left smallest least (right.removeMin.remove key)).fixUp
        else (node color left held value (right.remove key)).fixUp
termination_by tree => tree.count
decreasing_by
  · exact count_lt_of_readyLeft ‹_›
  · exact Nat.lt_of_le_of_lt (count_removeMin_le _) (count_lt_of_readyRight ‹_›)
  · exact count_lt_of_readyRight ‹_›

theorem entries_withRight {tree new : FLLRBNode Key Val} (same : new.entries = tree.right.entries) :
    (tree.withRight new).entries = tree.entries := by
  cases tree with
  | empty => rfl
  | node color left key value right => rw [withRight, entries, same, right_node, entries]

@[simp] theorem entries_moveRedLeft (tree : FLLRBNode Key Val) : tree.moveRedLeft.entries = tree.entries := by
  rw [moveRedLeft, ← entries_colorFlip tree]
  generalize tree.colorFlip = flipped
  split
  next red =>
    have there : flipped.right.left.isEmpty = false := isEmpty_of_isRed red
    have turned := entries_rotateRight there
    rw [entries_colorFlip, entries_rotateLeft, entries_withRight turned]
    -- The right side is not empty after its rotation, either.
    rcases flipped with _ | ⟨color, left, key, value, _ | ⟨_, _ | _, _, _, _⟩⟩
    all_goals first | cases red | rfl
  next => rfl

@[simp] theorem entries_moveRedRight (tree : FLLRBNode Key Val) : tree.moveRedRight.entries = tree.entries := by
  rw [moveRedRight, ← entries_colorFlip tree]
  generalize tree.colorFlip = flipped
  split
  next red =>
    have there : flipped.left.isEmpty = false := by
      cases found : flipped.left with
      | empty =>
        rw [found] at red
        cases red
      | node => rfl
    rw [entries_colorFlip, entries_rotateRight there]
  next => rfl

@[simp] theorem entries_readyLeft (tree : FLLRBNode Key Val) : tree.readyLeft.entries = tree.entries := by
  unfold readyLeft
  split
  · exact entries_moveRedLeft tree
  · rfl

@[simp] theorem entries_readyRight (tree : FLLRBNode Key Val) : tree.readyRight.entries = tree.entries := by
  have turned : (if tree.left.isRed then tree.rotateRight else tree).entries = tree.entries := by
    split
    next red => exact entries_rotateRight (isEmpty_of_isRed red)
    next => rfl
  unfold readyRight
  rw [← turned]
  generalize (if tree.left.isRed then tree.rotateRight else tree) = first
  dsimp only
  split
  · exact entries_moveRedRight first
  · rfl

section
variable {color : FLLRBColor} {height : ℕ} {before after : FLLRBNode Key Val} {key : Key} {value : Val}

inductive Three : ℕ → FLLRBNode Key Val → Prop where
  | node {height : ℕ} {left right : FLLRBNode Key Val} {key : Key} {value : Val} :
      Balanced .red height left → Balanced .black height right →
      Three (height + 1) (.node .black left key value right)

/-- A black node with this key and a red node to its right, as only a removal makes it. -/
inductive Leaning (key : Key) : ℕ → FLLRBNode Key Val → Prop where
  | node {height : ℕ} {left right : FLLRBNode Key Val} {value : Val} :
      Balanced .black height left → Balanced .red height right →
      Leaning key (height + 1) (.node .black left key value right)

theorem Leaning.key_eq {color : FLLRBColor} {root : Key}
    (holds : Leaning root height (FLLRBNode.node color before key value after)) : key = root := by
  cases holds
  rfl

theorem Three.balanced {tree : FLLRBNode Key Val} (holds : Three height tree) : Balanced .black height tree := by
  cases holds with
  | node left right => exact .black left right

/-- A node of this color that is ready for a removal from its left. Its key is among these. -/
inductive ReadyLeft (color : FLLRBColor) (upper : Entries Key Val) : ℕ → FLLRBNode Key Val → Prop where
  | empty {key : Key} {value : Val} :
      (key, value) ∈ upper → ReadyLeft color upper 0 (.node color .empty key value .empty)
  | three {height : ℕ} {left right : FLLRBNode Key Val} {key : Key} {value : Val} :
      (key, value) ∈ upper → Three height left → Balanced .black height right →
      ReadyLeft color upper height (.node color left key value right)
  | both {height : ℕ} {left right : FLLRBNode Key Val} {key : Key} {value : Val} :
      (key, value) ∈ upper → Balanced .red height left → Balanced .red height right →
      ReadyLeft color upper (height + 1) (.node color.flip left key value right)

theorem readyLeft_of_black (left : Balanced .black height before) (right : Balanced .black height after) :
    ReadyLeft color ((key, value) :: after.entries) height (FLLRBNode.node color before key value after).readyLeft := by
  cases left with
  | empty =>
    cases right
    exact .empty List.mem_cons_self
  | @black leftColor _ _ _ _ _ first second =>
    cases leftColor with
    | red =>
      simp only [readyLeft, left_node, first.isRed_eq, decide_true, Bool.not_true, Bool.and_false,
        Bool.false_eq_true, if_false]
      exact .three List.mem_cons_self (.node first second) right
    | black =>
      cases right with
      | @black rightColor _ _ _ _ _ third fourth =>
        cases rightColor with
        | black =>
          simp [readyLeft, isEmpty, first.isRed_black, moveRedLeft, colorFlip, flipped, third.isRed_black]
          exact .both List.mem_cons_self (.red first second) (.red third fourth)
        | red =>
          cases third with
          | red inner outer =>
            simp [readyLeft, isEmpty, first.isRed_black, moveRedLeft, colorFlip, flipped, withRight, rotateRight,
              rotateLeft]
            -- The key comes from the left of the right side.
            refine .three ?_ (.node (.red first second) inner) (.black outer fourth)
            simp [entries]

/-- A node that had this color, key and left side and is ready for a removal from it or from its right. -/
inductive ReadyRight (color : FLLRBColor) (lower : Entries Key Val) (root : Key) :
    ℕ → FLLRBNode Key Val → Prop where
  | empty {value : Val} : ReadyRight color lower root 0 (.node color .empty root value .empty)
  | three {height : ℕ} {left right : FLLRBNode Key Val} {value : Val} :
      Balanced .black height left → Three height right →
      ReadyRight color lower root height (.node color left root value right)
  | leaning {height : ℕ} {left right : FLLRBNode Key Val} {key : Key} {value : Val} :
      (key, value) ∈ lower → Balanced .black height left → Leaning root height right →
      ReadyRight color lower root height (.node color left key value right)
  | both {height : ℕ} {left right : FLLRBNode Key Val} {value : Val} :
      Balanced .red height left → Balanced .red height right →
      ReadyRight color lower root (height + 1) (.node color.flip left root value right)

theorem readyRight_of_black (left : Balanced .black height before) (right : Balanced .black height after) :
    ReadyRight color before.entries key height (FLLRBNode.node color before key value after).readyRight := by
  have same := left.isRed_black
  cases right with
  | empty =>
    cases left
    exact .empty
  | @black rightColor _ _ _ _ _ third fourth =>
    cases rightColor with
    | red =>
      simp [readyRight, same, isEmpty, third.isRed_eq]
      exact .three left (.node third fourth)
    | black =>
      cases left with
      | @black leftColor _ _ _ _ _ first second =>
        cases leftColor with
        | black =>
          simp [readyRight, isEmpty, third.isRed_black, moveRedRight, colorFlip, flipped, first.isRed_black]
          exact .both (.red first second) (.red third fourth)
        | red =>
          cases first with
          | red outer inner =>
            simp [readyRight, isEmpty, third.isRed_black, moveRedRight, colorFlip, flipped, rotateRight]
            refine .leaning ?_ (.black outer inner) (.node second (.red third fourth))
            simp [entries]

theorem readyRight_of_three (left : Balanced .red height before) (right : Balanced .black height after) :
    ∃ root ∈ before.entries,
      Leaning root.1 (height + 1) (FLLRBNode.node .black before key value after).readyRight := by
  cases left with
  | @red _ _ _ root held outer inner =>
    refine ⟨(root, held), by simp [entries], ?_⟩
    simp [readyRight, rotateRight]
    exact .node outer (.red inner right)

theorem readyRight_of_leaning {root : Key} {tree : FLLRBNode Key Val} (holds : Leaning root height tree) :
    tree.readyRight = tree := by
  cases holds with
  | node left right => simp [readyRight, left.isRed_black, right.isRed_eq]

end

theorem ReadyLeft.mem {color root : FLLRBColor} {upper : Entries Key Val} {height : ℕ}
    {before after : FLLRBNode Key Val} {key : Key} {value : Val}
    (ready : ReadyLeft color upper height (node root before key value after)) : (key, value) ∈ upper := by
  cases ready <;> assumption

theorem ReadyRight.key_eq_or_mem {color root : FLLRBColor} {lower : Entries Key Val} {height : ℕ}
    {before after : FLLRBNode Key Val} {first second : Key} {value : Val}
    (ready : ReadyRight color lower first height (node root before second value after)) :
    second = first ∨ (second, value) ∈ lower := by
  cases ready with
  | empty | three | both => exact .inl rfl
  | leaning member => exact .inr member

/-! ## Removal of the smallest entry -/

theorem isEmpty_of_three {height : ℕ} {tree : FLLRBNode Key Val} (holds : Three height tree) :
    tree.isEmpty = false := by
  cases holds
  rfl

theorem readyLeft_of_three {height : ℕ} {tree : FLLRBNode Key Val} (holds : Three height tree) :
    tree.readyLeft = tree := by
  cases holds with
  | node left right => simp [readyLeft, left.isRed_eq]

theorem Balanced.eq_empty {color : FLLRBColor} {tree : FLLRBNode Key Val} (holds : Balanced color 0 tree)
    (black : color = .black) : tree = .empty := by
  cases holds with
  | empty => rfl
  | red => cases black

/-- With a red node where it begins, the removal of the smallest entry keeps the number of black nodes
on every path, and a black root. -/
theorem removeMin_spec {tree : FLLRBNode Key Val} {color : FLLRBColor} {height : ℕ}
    (holds : Balanced color height tree) (rich : color = .red ∨ Three height tree) :
    ∃ after, Balanced after height tree.removeMin ∧ (color = .black → after = .black) ∧
      tree.removeMin.entries = tree.entries.tail := by
  fun_induction removeMin tree generalizing color height with
  | case1 tree none =>
    cases holds with
    | empty => exact ⟨.black, .empty, id, rfl⟩
    | red left right =>
      rw [left_node] at none
      cases left with
      | empty =>
        cases right
        exact ⟨.black, .empty, fun _ => rfl, rfl⟩
      | black => cases none
    | black left right =>
      obtain black | three := rich
      · cases black
      · cases three with
        | node left right =>
          cases left
          cases none
  | case2 tree some ready =>
    have nothing := entries_readyLeft tree
    rw [ready] at nothing
    cases tree with
    | empty => exact absurd rfl some
    | node => simp [entries] at nothing
  | case3 tree some root left key value right ready ih =>
    have kept := entries_readyLeft tree
    rw [ready, entries] at kept
    have joined (there : left.isEmpty = false) (shorter : left.removeMin.entries = left.entries.tail) :
        (node root left.removeMin key value right).fixUp.entries = tree.entries.tail := by
      rw [entries_fixUp, entries, shorter, ← kept, List.tail_append_of_ne_nil]
      rw [Ne, entries_eq_nil_iff, there]
      exact Bool.false_ne_true
    obtain rfl | three := rich
    · cases holds with
      | red first second =>
        have shape : ReadyLeft .red _ height (node root left key value right) :=
          ready ▸ readyLeft_of_black first second
        cases shape with
        | empty =>
          rw [left_node, first.eq_empty rfl] at some
          exact absurd rfl some
        | three _ there beyond =>
          obtain ⟨leftColor, shorter, black, same⟩ := ih there.balanced (.inr there)
          cases black rfl
          exact ⟨.red, (Balanced.red shorter beyond).fixUp, id, joined (isEmpty_of_three there) same⟩
        | both _ there beyond =>
          obtain ⟨leftColor, shorter, -, same⟩ := ih there (.inl rfl)
          have kept := joined (isEmpty_of_isRed there.isRed_eq) same
          cases leftColor with
          | red => exact ⟨.red, shorter.fixUp_both beyond, id, kept⟩
          | black => exact ⟨.black, shorter.fixUp_right beyond, fun _ => rfl, kept⟩
    · rw [readyLeft_of_three three] at ready
      subst ready
      cases three with
      | node there beyond =>
        obtain ⟨leftColor, shorter, -, same⟩ := ih there (.inl rfl)
        exact ⟨.black, (Balanced.black shorter beyond).fixUp, fun _ => rfl,
          joined (isEmpty_of_isRed there.isRed_eq) same⟩

/-! ## Removal of a key -/

/-- What the removal of a key makes of a balanced tree, provided that there is a red node where it
begins or the key is not present: a tree with these entries and as many black nodes on every path. Its
root keeps its color, but where the key was present a red root may become black. -/
def Shrinks (present : Prop) (shorter : Entries Key Val) (tree new : FLLRBNode Key Val) : Prop :=
  ∀ color height, Balanced color height tree →
    (tree.isEmpty ∨ color = .red ∨ Three height tree ∨ ¬ present) →
    (∃ after, Balanced after height new ∧ (after = color ∨ color = .red ∧ present)) ∧ new.entries = shorter

theorem Shrinks.imp {present whole : Prop} {shorter : Entries Key Val} {tree new : FLLRBNode Key Val}
    (holds : Shrinks present shorter tree new) (more : present → whole) : Shrinks whole shorter tree new := by
  intro color height balanced rich
  obtain ⟨⟨after, kept, changed⟩, same⟩ := holds color height balanced
    (rich.imp_right (Or.imp_right (Or.imp_right (mt more))))
  exact ⟨⟨after, kept, changed.imp_right (And.imp_right more)⟩, same⟩

section
variable {present : Prop} {color root : FLLRBColor} {height : ℕ} {shorter whole : Entries Key Val}
  {before after new : FLLRBNode Key Val} {key : Key} {value : Val}

theorem Shrinks.left {upper : Entries Key Val} (inner : Shrinks present shorter before new)
    (ready : ReadyLeft color upper height (node root before key value after)) (rich : color = .red ∨ ¬ present)
    (joined : new.entries = shorter → (node root new key value after).fixUp.entries = whole) :
    (∃ last, Balanced last (color.above height) (node root new key value after).fixUp ∧
      (last = color ∨ color = .red ∧ present)) ∧ (node root new key value after).fixUp.entries = whole := by
  cases ready with
  | empty =>
    obtain ⟨⟨last, kept, black | ⟨red, -⟩⟩, same⟩ := inner .black 0 .empty (.inl rfl)
    · subst black
      exact ⟨⟨color, (Balanced.above kept .empty).fixUp, .inl rfl⟩, joined same⟩
    · cases red
  | three _ there beyond =>
    obtain ⟨⟨last, kept, black | ⟨red, -⟩⟩, same⟩ := inner .black height there.balanced (.inr (.inr (.inl there)))
    · subst black
      exact ⟨⟨color, (Balanced.above kept beyond).fixUp, .inl rfl⟩, joined same⟩
    · cases red
  | both _ there beyond =>
    obtain ⟨⟨last, kept, changed⟩, same⟩ := inner .red _ there (.inr (.inl rfl))
    refine ⟨?_, joined same⟩
    cases last with
    | red => exact ⟨color, kept.fixUp_both beyond, .inl rfl⟩
    | black =>
      obtain red | ⟨-, found⟩ := changed
      · cases red
      obtain red | absent := rich
      · subst red
        exact ⟨.black, kept.fixUp_right beyond, .inr ⟨rfl, found⟩⟩
      · exact absurd found absent

theorem Shrinks.right {lower : Entries Key Val} {first second : Key} {old : Val}
    (inner : Shrinks present shorter after new)
    (ready : ReadyRight color lower first height (node root before second old after))
    (leaning : (∃ entry ∈ lower, entry.1 = second) → ∀ height, Leaning first height after →
      Balanced .black height new ∧ new.entries = shorter)
    (rich : color = .red ∨ ¬ present)
    (joined : new.entries = shorter → (node root before key value new).fixUp.entries = whole) :
    (∃ last, Balanced last (color.above height) (node root before key value new).fixUp ∧
      (last = color ∨ color = .red ∧ present)) ∧ (node root before key value new).fixUp.entries = whole := by
  cases ready with
  | empty =>
    obtain ⟨⟨last, kept, black | ⟨red, -⟩⟩, same⟩ := inner .black 0 .empty (.inl rfl)
    · subst black
      exact ⟨⟨color, (Balanced.above .empty kept).fixUp, .inl rfl⟩, joined same⟩
    · cases red
  | three preceding there =>
    obtain ⟨⟨last, kept, black | ⟨red, -⟩⟩, same⟩ := inner .black height there.balanced (.inr (.inr (.inl there)))
    · subst black
      exact ⟨⟨color, (Balanced.above preceding kept).fixUp, .inl rfl⟩, joined same⟩
    · cases red
  | leaning below preceding there =>
    obtain ⟨kept, same⟩ := leaning ⟨_, below, rfl⟩ height there
    exact ⟨⟨color, (Balanced.above preceding kept).fixUp, .inl rfl⟩, joined same⟩
  | both preceding there =>
    obtain ⟨⟨last, kept, changed⟩, same⟩ := inner .red _ there (.inr (.inl rfl))
    refine ⟨?_, joined same⟩
    cases last with
    | red => exact ⟨color, preceding.fixUp_both kept, .inl rfl⟩
    | black =>
      obtain red | ⟨-, found⟩ := changed
      · cases red
      obtain red | absent := rich
      · subst red
        exact ⟨.black, (Balanced.black preceding kept).fixUp, .inr ⟨rfl, found⟩⟩
      · exact absurd found absent

theorem Shrinks.leaning {first : Key} {second : Key} {old : Val} (inner : Shrinks present shorter after new)
    (ready : Leaning first height (node root before second old after))
    (joined : new.entries = shorter → (node root before key value new).fixUp.entries = whole) :
    Balanced .black height (node root before key value new).fixUp ∧
      (node root before key value new).fixUp.entries = whole := by
  cases ready with
  | node preceding there =>
    obtain ⟨⟨last, kept, -⟩, same⟩ := inner .red _ there (.inr (.inl rfl))
    exact ⟨preceding.fixUp_right kept, joined same⟩

end

section
variable [LinearOrder Key]

def Present (key : Key) (tree : FLLRBNode Key Val) : Prop := ∃ entry ∈ tree.entries, entry.1 = key

/-- What is known of a removal from every tree that one comes across on the way down. -/
structure Removed (key : Key) (tree : FLLRBNode Key Val) : Prop where
  shrinks : Shrinks (tree.Present key) (tree.entries.erase key) tree (tree.remove key)
  leaning : ∀ root height, Leaning root height tree → root ≤ key →
    Balanced .black height (tree.remove key) ∧ (tree.remove key).entries = tree.entries.erase key

section
variable {color root : FLLRBColor} {left right before after : FLLRBNode Key Val} {key held first : Key}
  {value old : Val}

theorem remove_left (below : key < held)
    (ready : (node color left held value right).readyLeft = node root before first old after) :
    (node color left held value right).remove key = (node root (before.remove key) first old after).fixUp := by
  rw [remove, if_pos below]
  split
  next none =>
    rw [ready] at none
    cases none
  next same =>
    rw [ready] at same
    cases same
    rfl

theorem remove_right (notBelow : ¬ key < held)
    (ready : (node color left held value right).readyRight = node root before first old after) :
    (node color left held value right).remove key =
      if key = first then
        match after.min with
        | none => .empty
        | some (smallest, least) => (node root before smallest least (after.removeMin.remove key)).fixUp
      else (node root before first old (after.remove key)).fixUp := by
  rw [remove, if_neg notBelow]
  split
  next none =>
    rw [ready] at none
    cases none
  next same =>
    rw [ready] at same
    cases same
    rfl

end

section
variable {color root : FLLRBColor} {left right before after : FLLRBNode Key Val} {key held first : Key}
  {value old : Val}

omit [LinearOrder Key] in
/-- A balanced black node without a red node to its left is entered only for a key that is absent. -/
theorem absent_of_rich {height : ℕ} {present : Prop} (balanced : Balanced .black height left)
    (rich : (node .black left held value right).isEmpty ∨ FLLRBColor.black = .red ∨
      Three (height + 1) (node .black left held value right) ∨ ¬ present) : ¬ present := by
  obtain none | red | three | absent := rich
  · cases none
  · cases red
  · cases three with
    | node preceding there => exact absurd (balanced.isRed_black.symm.trans preceding.isRed_eq) Bool.false_ne_true
  · exact absent

theorem Removed.of_left (sorted : (node color left held value right).entries.Sorted) (below : key < held)
    (ready : (node color left held value right).readyLeft = node root before first old after)
    (ih : before.entries.Sorted → Removed key before) : Removed key (node color left held value right) := by
  have kept := entries_readyLeft (node color left held value right)
  rw [ready, entries] at kept
  obtain ⟨⟨sortedBefore, -⟩, -, higher⟩ := Entries.sorted_append_cons (kept ▸ sorted)
  obtain ⟨-, -, above⟩ := Entries.sorted_append_cons sorted
  have inner : Shrinks ((node color left held value right).Present key) (before.entries.erase key) before
      (before.remove key) := by
    refine (ih sortedBefore).shrinks.imp ?_
    rintro ⟨entry, member, same⟩
    exact ⟨entry, kept ▸ List.mem_append_left _ member, same⟩
  have joined (precedes : key < first) (same : (before.remove key).entries = before.entries.erase key) :
      (node root (before.remove key) first old after).fixUp.entries =
        (node color left held value right).entries.erase key := by
    rw [entries_fixUp, entries, same, ← kept, Entries.erase_append_of_ne_back]
    intro entry member
    rcases List.mem_cons.mp member with rfl | later
    · exact ne_of_gt precedes
    · exact ne_of_gt (lt_trans precedes (higher entry later))
  have precedes (member : (first, old) ∈ (held, value) :: right.entries) : key < first := by
    rcases List.mem_cons.mp member with same | later
    · cases same
      exact below
    · exact lt_trans below (above _ later)
  constructor
  · intro color' height holds rich
    rw [remove_left below ready]
    cases holds with
    | red balanced beyond =>
      have shape : ReadyLeft .red _ height (node root before first old after) :=
        ready ▸ readyLeft_of_black balanced beyond
      exact inner.left shape (.inl rfl) (joined (precedes shape.mem))
    | @black leftColor height _ _ _ _ balanced beyond =>
      cases leftColor with
      | black =>
        have shape : ReadyLeft .black _ height (node root before first old after) :=
          ready ▸ readyLeft_of_black balanced beyond
        exact inner.left shape (.inr (absent_of_rich balanced rich)) (joined (precedes shape.mem))
      | red =>
        rw [readyLeft_of_three (.node balanced beyond)] at ready
        cases ready
        obtain ⟨⟨last, shorter, -⟩, same⟩ := inner .red height balanced (.inr (.inl rfl))
        exact ⟨⟨.black, (Balanced.black shorter beyond).fixUp, .inl rfl⟩, joined below same⟩
  · intro root' height lean notBelow
    cases lean
    exact absurd below (not_lt.mpr notBelow)

theorem Removed.of_none (sorted : (node color left held value right).entries.Sorted) (notBelow : ¬ key < held)
    (ready : (node color left held value right).readyRight = node root before key old .empty) :
    Removed key (node color left held value right) := by
  have result := remove_right notBelow ready
  rw [if_pos rfl] at result
  have kept := entries_readyRight (node color left held value right)
  rw [ready, entries] at kept
  have found : (node color left held value right).Present key :=
    ⟨(key, old), kept ▸ List.mem_append_right _ List.mem_cons_self, rfl⟩
  have erased (none : before = .empty) : (node color left held value right).entries.erase key = [] := by
    rw [← kept, none]
    exact if_pos rfl
  constructor
  · intro color' height holds rich
    rw [result]
    cases holds with
    | red balanced beyond =>
      have shape : ReadyRight .red _ held height (node root before key old .empty) :=
        ready ▸ readyRight_of_black balanced beyond
      cases shape with
      | empty => exact ⟨⟨.black, .empty, .inr ⟨rfl, found⟩⟩, (erased rfl).symm⟩
      | three _ there => cases there
      | leaning _ _ there => cases there
      | both _ there => cases there
    | @black leftColor height _ _ _ _ balanced beyond =>
      cases leftColor with
      | black => exact absurd found (absent_of_rich balanced rich)
      | red =>
        obtain ⟨entry, member, shape⟩ : ∃ entry ∈ left.entries,
            Leaning entry.1 (height + 1) (node root before key old .empty) :=
          ready ▸ readyRight_of_three balanced beyond
        cases shape with
        | node _ there => cases there
  · intro root' height lean _
    have shape : Leaning root' height (node root before key old .empty) := by
      rwa [← ready, readyRight_of_leaning lean]
    cases shape with
    | node _ there => cases there

/-- What all removals from the right side of a node, and of the node itself, have in common. -/
theorem Removed.of_right {shorter : Entries Key Val} {smallest : Key} {least : Val} {new : FLLRBNode Key Val}
    (sorted : (node color left held value right).entries.Sorted)
    (ready : (node color left held value right).readyRight = node root before first old after)
    (result : (node color left held value right).remove key = (node root before smallest least new).fixUp)
    (inner : Shrinks ((node color left held value right).Present key) shorter after new)
    (leaning : first < held → ∀ height, Leaning held height after →
      Balanced .black height new ∧ new.entries = shorter)
    (joined : first ≤ held → new.entries = shorter → (node root before smallest least new).fixUp.entries =
      (node color left held value right).entries.erase key) :
    Removed key (node color left held value right) := by
  obtain ⟨-, under, -⟩ := Entries.sorted_append_cons sorted
  constructor
  · intro color' height holds rich
    rw [result]
    cases holds with
    | red balanced beyond =>
      have shape : ReadyRight .red _ held height (node root before first old after) :=
        ready ▸ readyRight_of_black balanced beyond
      have below : first ≤ held := shape.key_eq_or_mem.elim le_of_eq fun member => le_of_lt (under _ member)
      exact inner.right shape (fun ⟨entry, member, same⟩ => leaning (same ▸ under entry member)) (.inl rfl)
        (joined below)
    | @black leftColor height _ _ _ _ balanced beyond =>
      cases leftColor with
      | black =>
        have shape : ReadyRight .black _ held height (node root before first old after) :=
          ready ▸ readyRight_of_black balanced beyond
        have below : first ≤ held := shape.key_eq_or_mem.elim le_of_eq fun member => le_of_lt (under _ member)
        exact inner.right shape (fun ⟨entry, member, same⟩ => leaning (same ▸ under entry member))
          (.inr (absent_of_rich balanced rich)) (joined below)
      | red =>
        obtain ⟨entry, member, shape⟩ : ∃ entry ∈ left.entries,
            Leaning entry.1 (height + 1) (node root before first old after) :=
          ready ▸ readyRight_of_three balanced beyond
        have below : first ≤ held := shape.key_eq ▸ le_of_lt (under entry member)
        obtain ⟨kept, same⟩ := inner.leaning shape (joined below)
        exact ⟨⟨.black, kept, .inl rfl⟩, same⟩
  · intro key' height lean _
    have shape : Leaning key' height (node root before first old after) := by
      rwa [← ready, readyRight_of_leaning lean]
    rw [result]
    exact inner.leaning shape (joined (le_of_eq (shape.key_eq.trans lean.key_eq.symm)))

theorem Removed.of_self {smallest : Key} {least : Val}
    (sorted : (node color left held value right).entries.Sorted) (notBelow : ¬ key < held)
    (ready : (node color left held value right).readyRight = node root before key old after)
    (found : after.min = some (smallest, least))
    (result : (node color left held value right).remove key =
      (node root before smallest least (after.removeMin.remove key)).fixUp)
    (ih : after.removeMin.entries.Sorted → Removed key after.removeMin) :
    Removed key (node color left held value right) := by
  have kept := entries_readyRight (node color left held value right)
  rw [ready, entries] at kept
  obtain ⟨⟨-, sortedAfter⟩, under, higher⟩ := Entries.sorted_append_cons (kept ▸ sorted)
  rw [min_eq] at found
  have after_eq : after.entries = (smallest, least) :: after.entries.tail := List.eq_cons_of_mem_head? found
  have present : (node color left held value right).Present key :=
    ⟨(key, old), kept ▸ List.mem_append_right _ List.mem_cons_self, rfl⟩
  have absent : ∀ entry ∈ after.entries.tail, entry.1 ≠ key := fun entry member =>
    ne_of_gt (higher entry (List.mem_of_mem_tail member))
  have inner : Shrinks ((node color left held value right).Present key) after.entries.tail after
      (after.removeMin.remove key) := by
    intro color' height balanced rich
    have ready : color' = .red ∨ Three height after := by
      obtain none | red | three | missing := rich
      · rw [entries_eq_nil_iff.mpr none] at found
        cases found
      · exact .inl red
      · exact .inr three
      · exact absurd present missing
    obtain ⟨middle, shorter, black, same⟩ := removeMin_spec balanced ready
    -- The key is sought once more, where it is not.
    have missing : ∀ entry ∈ after.removeMin.entries, entry.1 ≠ key := same ▸ absent
    have sortedRest : after.removeMin.entries.Sorted := same ▸ List.Pairwise.tail sortedAfter
    have gone : ¬ after.removeMin.Present key := by
      rintro ⟨entry, member, equal⟩
      exact missing entry member equal
    obtain ⟨⟨last, kept, changed⟩, again⟩ := (ih sortedRest).shrinks middle height shorter (.inr (.inr (.inr gone)))
    refine ⟨⟨last, kept, ?_⟩, by rw [again, Entries.erase_of_ne missing, same]⟩
    obtain rfl | ⟨-, entry, member, equal⟩ := changed
    · cases color' with
      | red => exact .inr ⟨rfl, present⟩
      | black => exact .inl (black rfl)
    · exact absurd equal (missing entry member)
  refine .of_right sorted ready result inner ?_ ?_
  · intro below
    exact absurd below notBelow
  · intro _ same
    rw [entries_fixUp, entries, same, ← after_eq, ← kept, Entries.erase_append_of_ne, Entries.erase, if_pos rfl]
    exact fun entry member => ne_of_lt (under entry member)

end

theorem removed (key : Key) {tree : FLLRBNode Key Val} (sorted : tree.entries.Sorted) : Removed key tree := by
  induction tree using remove.induct key with
  | case1 =>
    refine ⟨fun color height holds rich => ?_, nofun⟩
    cases holds
    rw [remove]
    exact ⟨⟨.black, .empty, .inl rfl⟩, rfl⟩
  | case2 color left held value right below ready =>
    have kept := entries_readyLeft (node color left held value right)
    rw [ready] at kept
    exact absurd kept (by simp [entries])
  | case3 color left held value right below root before least old after ready ih =>
    exact .of_left sorted below ready ih
  | case4 color left held value right notBelow ready =>
    have kept := entries_readyRight (node color left held value right)
    rw [ready] at kept
    exact absurd kept (by simp [entries])
  | case5 color left held value right notBelow root before old after none ready =>
    rw [min_eq, List.head?_eq_none_iff, entries_eq_nil_iff] at none
    cases after with
    | empty => exact .of_none sorted notBelow ready
    | node => cases none
  | case6 color left held value right notBelow root before old after smallest least found ready ih =>
    have result := remove_right notBelow ready
    rw [if_pos rfl, found] at result
    exact .of_self sorted notBelow ready found result ih
  | case7 color left held value right notBelow root before first old after ready apart ih =>
    have result := remove_right notBelow ready
    rw [if_neg apart] at result
    have kept := entries_readyRight (node color left held value right)
    rw [ready, entries] at kept
    obtain ⟨⟨-, sortedAfter⟩, under, -⟩ := Entries.sorted_append_cons (kept ▸ sorted)
    have spec := ih sortedAfter
    refine .of_right sorted ready result (spec.shrinks.imp ?_) ?_ ?_
    · rintro ⟨entry, member, same⟩
      exact ⟨entry, kept ▸ List.mem_append_right _ (List.mem_cons_of_mem _ member), same⟩
    · intro _ height lean
      exact spec.leaning held height lean (not_lt.mp notBelow)
    · intro below same
      have reached : first ≤ key := le_trans below (not_lt.mp notBelow)
      rw [entries_fixUp, entries, same, ← kept, Entries.erase_append_of_ne, Entries.erase, if_neg (Ne.symm apart)]
      exact fun entry member => ne_of_lt (lt_of_lt_of_le (under entry member) reached)

end

/-! ## At the root -/

theorem rotateLeft_flipped (tree : FLLRBNode Key Val) : tree.flipped.rotateLeft = tree.rotateLeft.flipped := by
  cases tree with
  | empty => rfl
  | node color left key value right => cases right <;> rfl

theorem rotateRight_flipped (tree : FLLRBNode Key Val) :
    tree.flipped.rotateRight = tree.rotateRight.flipped := by
  cases tree with
  | empty => rfl
  | node color left key value right => cases left <;> rfl

theorem colorFlip_flipped (tree : FLLRBNode Key Val) : tree.flipped.colorFlip = tree.colorFlip.flipped := by
  cases tree <;> rfl

theorem withRight_flipped (tree new : FLLRBNode Key Val) :
    tree.flipped.withRight new = (tree.withRight new).flipped := by
  cases tree <;> rfl

@[simp] theorem left_flipped (tree : FLLRBNode Key Val) : tree.flipped.left = tree.left := by
  cases tree <;> rfl

@[simp] theorem right_flipped (tree : FLLRBNode Key Val) : tree.flipped.right = tree.right := by
  cases tree <;> rfl

theorem ite_flipped (condition : Prop) [Decidable condition] (first second : FLLRBNode Key Val) :
    (if condition then first.flipped else second.flipped) = (if condition then first else second).flipped := by
  split <;> rfl

theorem fixUp_flipped (tree : FLLRBNode Key Val) : tree.flipped.fixUp = tree.fixUp.flipped := by
  simp only [fixUp, left_flipped, right_flipped, rotateLeft_flipped, rotateRight_flipped, colorFlip_flipped,
    ite_flipped]

theorem readyLeft_flipped (tree : FLLRBNode Key Val) : tree.flipped.readyLeft = tree.readyLeft.flipped := by
  simp only [readyLeft, moveRedLeft, left_flipped, right_flipped, rotateLeft_flipped, colorFlip_flipped,
    withRight_flipped, ite_flipped]

theorem readyRight_flipped (tree : FLLRBNode Key Val) : tree.flipped.readyRight = tree.readyRight.flipped := by
  simp only [readyRight, moveRedRight, left_flipped, right_flipped, rotateRight_flipped, colorFlip_flipped,
    ite_flipped]

theorem withColor_flipped (color : FLLRBColor) (tree : FLLRBNode Key Val) :
    tree.flipped.withColor color = tree.withColor color := by
  cases tree <;> rfl

section
variable [LinearOrder Key]

theorem remove_flipped (key : Key) (tree : FLLRBNode Key Val) :
    tree.flipped.remove key = (tree.remove key).flipped := by
  cases tree with
  | empty =>
    rw [flipped, remove]
    rfl
  | node color left held value right =>
    by_cases below : key < held
    · cases ready : (node color left held value right).readyLeft with
      | empty =>
        have kept := entries_readyLeft (node color left held value right)
        rw [ready] at kept
        exact absurd kept (by simp [entries])
      | node root before first old after =>
        have turned := readyLeft_flipped (node color left held value right)
        rw [ready] at turned
        rw [remove_left below ready]
        exact (remove_left below turned).trans (fixUp_flipped (.node root _ first old after))
    · cases ready : (node color left held value right).readyRight with
      | empty =>
        have kept := entries_readyRight (node color left held value right)
        rw [ready] at kept
        exact absurd kept (by simp [entries])
      | node root before first old after =>
        have turned := readyRight_flipped (node color left held value right)
        rw [ready] at turned
        rw [remove_right below ready]
        refine (remove_right below turned).trans ?_
        by_cases same : key = first
        · rw [if_pos same, if_pos same]
          cases after.min with
          | none => rfl
          | some entry => exact fixUp_flipped (.node root before entry.1 entry.2 _)
        · rw [if_neg same, if_neg same]
          exact fixUp_flipped (.node root before first old _)

/-- From a balanced tree with a black root a removal takes the entry of the key, and leaves such a
tree once its root is made black. -/
theorem Balanced.remove {height : ℕ} {tree : FLLRBNode Key Val} (holds : Balanced .black height tree)
    (sorted : tree.entries.Sorted) (key : Key) :
    (∃ height, Balanced .black height ((tree.remove key).withColor .black)) ∧
      (tree.remove key).entries = tree.entries.erase key := by
  cases holds with
  | empty =>
    rw [FLLRBNode.remove]
    exact ⟨⟨0, .empty⟩, rfl⟩
  | @black color height left right held value balanced beyond =>
    cases color with
    | red =>
      obtain ⟨⟨after, kept, -⟩, same⟩ := (removed key sorted).shrinks .black _ (.black balanced beyond)
        (.inr (.inr (.inl (.node balanced beyond))))
      exact ⟨kept.withColor, same⟩
    | black =>
      -- A red root would do as well, and there the removal may begin.
      have spec : Removed key (FLLRBNode.node .red left held value right) := removed key sorted
      obtain ⟨⟨after, kept, -⟩, same⟩ := spec.shrinks .red _ (.red balanced beyond) (.inr (.inl rfl))
      have turned : (FLLRBNode.node .black left held value right).remove key =
          ((FLLRBNode.node .red left held value right).remove key).flipped := remove_flipped key (.node .red ..)
      rw [turned, withColor_flipped, entries_flipped]
      exact ⟨kept.withColor, same⟩

end

end FLLRBNode

end ProjectF02.SortedDictionary
