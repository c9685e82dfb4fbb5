import Mathlib.Data.List.Basic
import Mathlib.Data.List.Infix

/-! Data addressed by paths, and writes kept apart from the data they are for.

A list of writes tells the data at a path as soon as one of them covers it,
whatever they are applied to. Later writes below a covered path change what is
known there, and a write that a later one covers leaves no trace.
-/

set_option autoImplicit false

namespace ProjectF02.Store

/-- Data that is read and replaced at a path. -/
class PathData (Key Data : Type) where
  read : Data → List Key → Data
  write : Data → List Key → Data → Data
  read_nil : ∀ data, read data [] = data
  read_append : ∀ data path rest, read data (path ++ rest) = read (read data path) rest
  write_nil : ∀ data new, write data [] new = new
  read_write_above : ∀ data path rest new,
    read (write data (path ++ rest) new) path = write (read data path) rest new
  read_write_apart : ∀ data path other new, ¬ path <+: other → ¬ other <+: path →
    read (write data path new) other = read data other

namespace PathData

variable {Key Data : Type} [PathData Key Data]

theorem read_write_self (data : Data) (path : List Key) (new : Data) :
    read (write data path new) path = new := by
  have here := read_write_above data path [] new
  rw [List.append_nil, write_nil] at here
  exact here

theorem read_write_below (data : Data) (path rest : List Key) (new : Data) :
    read (write data path new) (path ++ rest) = read new rest := by
  rw [read_append, read_write_self]

variable [DecidableEq Key]

theorem read_write (data : Data) (path other : List Key) (new : Data) :
    read (write data path new) other =
      if path <+: other then read new (other.drop path.length)
      else if other <+: path then write (read data other) (path.drop other.length) new
      else read data other := by
  split
  next covers =>
    obtain ⟨rest, rfl⟩ := covers
    rw [read_write_below, List.drop_left]
  next uncovered =>
    split
    next below =>
      obtain ⟨rest, rfl⟩ := below
      rw [read_write_above, List.drop_left]
    next apart => exact read_write_apart data path other new uncovered apart

end PathData

namespace Overlay
open PathData

variable {Key Data : Type}

abbrev Write (Key Data : Type) := List Key × Data

section
variable [DecidableEq Key]

def below (path : List Key) (writes : List (Write Key Data)) : List (Write Key Data) :=
  writes.filterMap fun entry => if path <+: entry.1 then some (entry.1.drop path.length, entry.2) else none

end

variable [PathData Key Data]

variable [DecidableEq Key]

/-- What a write makes of what is known at a path. -/
def effect (path : List Key) (known : Option Data) (entry : Write Key Data) : Option Data :=
  if entry.1 <+: path then some (read entry.2 (path.drop entry.1.length))
  else if path <+: entry.1 then known.map fun data => write data (entry.1.drop path.length) entry.2
  else known

/-- What the writes tell about a path on their own. -/
def overlay (writes : List (Write Key Data)) (path : List Key) : Option Data :=
  writes.foldl (effect path) none

theorem effect_of_covers {entry : Write Key Data} {path : List Key} (covers : entry.1 <+: path)
    (known : Option Data) : effect path known entry = some (read entry.2 (path.drop entry.1.length)) :=
  if_pos covers

theorem effect_none {entry : Write Key Data} {path : List Key} (uncovered : ¬ entry.1 <+: path) :
    effect path none entry = none := by
  rw [effect, if_neg uncovered]
  split <;> rfl

theorem effect_of_apart {entry : Write Key Data} {path : List Key} (uncovered : ¬ entry.1 <+: path)
    (apart : ¬ path <+: entry.1) (known : Option Data) : effect path known entry = known := by
  rw [effect, if_neg uncovered, if_neg apart]

theorem effect_some (entry : Write Key Data) (path : List Key) (data : Data) :
    effect path (some (read data path)) entry = some (read (write data entry.1 entry.2) path) := by
  rw [effect, read_write]
  split
  · rfl
  · split <;> rfl

theorem foldl_effect_none {writes : List (Write Key Data)} {path : List Key}
    (uncovered : ∀ entry ∈ writes, ¬ entry.1 <+: path) : writes.foldl (effect path) none = none := by
  induction writes with
  | nil => rfl
  | cons entry rest ih =>
    rw [List.foldl_cons, effect_none (uncovered entry List.mem_cons_self)]
    exact ih fun later member => uncovered later (List.mem_cons_of_mem _ member)

theorem foldl_effect_of_apart {writes : List (Write Key Data)} {path : List Key}
    (apart : ∀ entry ∈ writes, ¬ entry.1 <+: path ∧ ¬ path <+: entry.1) (known : Option Data) :
    writes.foldl (effect path) known = known := by
  induction writes with
  | nil => rfl
  | cons entry rest ih =>
    obtain ⟨uncovered, above⟩ := apart entry List.mem_cons_self
    rw [List.foldl_cons, effect_of_apart uncovered above]
    exact ih fun later member => apart later (List.mem_cons_of_mem _ member)

theorem foldl_effect_of_covered {writes : List (Write Key Data)} {path : List Key}
    (covered : ∃ entry ∈ writes, entry.1 <+: path) (known other : Option Data) :
    writes.foldl (effect path) known = writes.foldl (effect path) other := by
  induction writes generalizing known other with
  | nil =>
    obtain ⟨entry, member, -⟩ := covered
    cases member
  | cons entry rest ih =>
    rw [List.foldl_cons, List.foldl_cons]
    by_cases covers : entry.1 <+: path
    · rw [effect_of_covers covers, effect_of_covers covers]
    · obtain ⟨cover, member, above⟩ := covered
      rcases List.mem_cons.mp member with rfl | later
      · exact absurd above covers
      · exact ih ⟨cover, later, above⟩ _ _

theorem foldl_effect_isSome {writes : List (Write Key Data)} {path : List Key} (data : Data) :
    ∃ reached, writes.foldl (effect path) (some data) = some reached := by
  induction writes generalizing data with
  | nil => exact ⟨data, rfl⟩
  | cons entry rest ih =>
    rw [List.foldl_cons, effect]
    split
    · exact ih _
    · split
      · exact ih _
      · exact ih _

theorem overlay_append (first second : List (Write Key Data)) (path : List Key) :
    overlay (first ++ second) path = second.foldl (effect path) (overlay first path) := by
  unfold overlay
  rw [List.foldl_append]

theorem overlay_eq_none_iff {writes : List (Write Key Data)} {path : List Key} :
    overlay writes path = none ↔ ∀ entry ∈ writes, ¬ entry.1 <+: path := by
  constructor
  · intro unknown entry member covers
    obtain ⟨before, after, rfl⟩ := List.append_of_mem member
    rw [overlay_append, List.foldl_cons, effect_of_covers covers] at unknown
    obtain ⟨reached, found⟩ : ∃ reached, after.foldl (effect path)
        (some (read entry.2 (path.drop entry.1.length))) = some reached := foldl_effect_isSome _
    rw [found] at unknown
    cases unknown
  · exact foldl_effect_none

section
variable {earlier removed later : List (Write Key Data)}

/-- Writes with nothing earlier above them may be left out wherever they cover nothing, or where a
later write covers as well. -/
theorem overlay_without {path : List Key}
    (outermost : ∀ gone ∈ removed, ∀ entry ∈ earlier, entry.1 <+: gone.1 → gone.1 <+: entry.1)
    (free : (∀ gone ∈ removed, ¬ gone.1 <+: path) ∨ ∃ entry ∈ later, entry.1 <+: path) :
    overlay (earlier ++ removed ++ later) path = overlay (earlier ++ later) path := by
  rcases free with uncovered | covered
  · have unchanged : removed.foldl (effect path) (overlay earlier path) = overlay earlier path := by
      by_cases known : ∃ entry ∈ earlier, entry.1 <+: path
      · -- Where an earlier write covers the path, no removed one lies below it.
        obtain ⟨entry, member, above⟩ := known
        apply foldl_effect_of_apart
        intro gone taken
        refine ⟨uncovered gone taken, fun lower => uncovered gone taken ?_⟩
        exact (outermost gone taken entry member (above.trans lower)).trans above
      · have unknown : overlay earlier path = none := overlay_eq_none_iff.mpr fun entry member above =>
          known ⟨entry, member, above⟩
        rw [unknown, foldl_effect_none uncovered]
    rw [overlay_append, overlay_append, overlay_append earlier later, unchanged]
  · rw [overlay_append, overlay_append earlier later]
    exact foldl_effect_of_covered covered _ _

end

end Overlay

end ProjectF02.Store
