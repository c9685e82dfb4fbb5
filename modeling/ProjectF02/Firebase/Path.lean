import ProjectF02.Swift.Decimal

/-! Paths below the database root and the check `child:` makes on each piece. -/

set_option autoImplicit false

namespace ProjectF02.Firebase
open Swift

abbrev FPath := List String

def kInvalidPathCharacters : List Char := ['[', ']', '.', '#', '$']

def isValidPathString (pathString : String) : Bool :=
  pathString ≠ "" ∧ pathString.toList.all fun c => c ∉ kInvalidPathCharacters

/-- A path string may name several levels; empty pieces are dropped. -/
def pathPieces (childPath : String) : List String :=
  ((childPath.toList.splitOn '/').filter fun piece => !piece.isEmpty).map String.ofList

def FPath.childFromString (path : FPath) (childPath : String) : FPath := path ++ pathPieces childPath

/-- `child:` on a reference below the root, where an invalid string raises an exception. -/
def FPath.child (path : FPath) (pathString : String) : Except Trap FPath :=
  if isValidPathString pathString then .ok (path.childFromString pathString)
  else .error .invalidPath

theorem isDecimal_not_special {c : Char} (decimal : isDecimal c = true) :
    c ≠ '/' ∧ c ∉ kInvalidPathCharacters := by
  have none : ('/' :: kInvalidPathCharacters).all (fun c => !isDecimal c) = true := by decide
  have excluded : ∀ special ∈ '/' :: kInvalidPathCharacters, isDecimal special = false := by
    simpa only [List.all_eq_true, Bool.not_eq_true'] using none
  constructor
  · rintro rfl
    exact Bool.noConfusion (decimal.symm.trans (excluded '/' (by simp)))
  · intro member
    exact Bool.noConfusion (decimal.symm.trans (excluded c (List.mem_cons_of_mem _ member)))

theorem FPath.child_decimal (path : FPath) {key : String} (present : key ≠ "")
    (decimal : ∀ c ∈ key.toList, isDecimal c = true) :
    path.child key = .ok (path ++ [key]) := by
  have whole : key.toList.splitOn '/' = [key.toList] :=
    List.splitOn_eq_singleton_of_beq_eq_false fun c member =>
      beq_false_of_ne (isDecimal_not_special (decimal c member)).1
  have valid : isValidPathString key = true := by
    simp only [isValidPathString, List.all_eq_true, decide_eq_true_eq]
    exact ⟨present, fun c member => (isDecimal_not_special (decimal c member)).2⟩
  simp [child, valid, childFromString, pathPieces, whole, present]

/-- The pieces of the path of an object in Storage, where no string is invalid. -/
abbrev StoragePath := List String

def StoragePath.child (path : StoragePath) (childPath : String) : StoragePath :=
  path ++ pathPieces childPath

end ProjectF02.Firebase
