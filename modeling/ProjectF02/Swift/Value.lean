import ProjectF02.Transition.Loops
import Mathlib.Data.List.AList
import Mathlib.Data.List.ReduceOption
import Mathlib.Algebra.Order.Floor.Defs
import Mathlib.Algebra.Order.Floor.Ring

/-! Swift values, dictionaries and conditional casts as the program uses them.

`Double` is a parameter: any ring with a linear order and a floor, so a result
holds of the rationals, which contain every finite double, and of the reals.
Swift's `Int` is 64 bits wide on the program's platform but is a different
dynamic type from `Int64`, and both differ from a number read back from Firebase.
-/

set_option autoImplicit false

namespace ProjectF02.Swift
open Transition

/-- A runtime failure; the program does not continue past it. -/
inductive Trap where
  | forceCast
  | forceUnwrap
  | integerRange
  | invalidPath
  | invalidData
  deriving DecidableEq, Repr

/-- A number as Foundation boxes it. -/
inductive NSNumber (Double : Type) where
  | integer (n : Int64)
  | double (d : Double)
  | bool (b : Bool)
  deriving DecidableEq, Repr

/-- The stored properties of `Comment`, a class whose instances an `Any` may hold. -/
structure Comment (Double : Type) where
  commentID : Double
  uid : String
  content : String
  deriving DecidableEq, Repr

inductive Value (Double : Type) where
  | null
  | string (text : String)
  | int (n : Int64)
  | int64 (n : Int64)
  | double (d : Double)
  | number (n : NSNumber Double)
  | array (items : List (Value Double))
  | dict (entries : List (Sigma fun _ : String => Value Double))
  | comment (c : Comment Double)

abbrev Dict (Double : Type) := AList fun _ : String => Value Double

variable {Double : Type}

/-- Subscript assignment; assigning `nil` removes the key. -/
def Dict.set (dict : Dict Double) (key : String) (value : Option (Value Double)) : Dict Double :=
  match value with
  | some value => dict.insert key value
  | none => dict.erase key

@[simp] theorem Dict.lookup_set (dict : Dict Double) (key other : String)
    (value : Option (Value Double)) :
    (dict.set key value).lookup other = if other = key then value else dict.lookup other := by
  by_cases same : other = key
  · subst same
    cases value <;> simp [set]
  · cases value <;> simp [set, same, AList.lookup_insert_ne, AList.lookup_erase_ne]

theorem Dict.mem_keys_set {dict : Dict Double} {key other : String}
    {value : Option (Value Double)} (member : other ∈ (dict.set key value).keys) :
    other = key ∨ other ∈ dict.keys := by
  cases value with
  | none => exact .inr ((AList.mem_erase.mp (AList.mem_keys.mpr member)).2)
  | some value => exact (AList.mem_insert dict).mp (AList.mem_keys.mpr member)

def Value.ofDict (dict : Dict Double) : Value Double := .dict dict.entries

theorem toAList_entries {Val : Type} (dict : AList fun _ : String => Val) :
    dict.entries.toAList = dict := by
  apply AList.ext
  rw [AList.entries_toAList]
  obtain ⟨entries, distinct⟩ := dict
  induction entries with
  | nil => rfl
  | cons entry rest ih =>
    obtain ⟨absent, others⟩ := List.nodupKeys_cons.mp distinct
    rw [List.dedupKeys_cons, ih others, List.kinsert_def, List.kerase_of_notMem_keys absent]

/-! ## Conditional casts -/

def Value.asString : Value Double → Option String
  | .string text => some text
  | _ => none

def Value.asDict : Value Double → Option (Dict Double)
  | .dict entries => some entries.toAList
  | _ => none

/-- `as? [String]`: one element that is no string fails the cast. -/
def Value.asStrings : Value Double → Option (List String)
  | .array items => items.mapM asString
  | _ => none

/-- `as? Comment`: only an instance of the class casts to it. -/
def Value.asComment : Value Double → Option (Comment Double)
  | .comment c => some c
  | _ => none

@[simp] theorem Value.asDict_ofDict (dict : Dict Double) : (ofDict dict).asDict = some dict :=
  congrArg some (toAList_entries dict)

theorem Value.asString_eq_some {value : Value Double} {text : String} :
    value.asString = some text ↔ value = .string text := by
  cases value <;> simp [asString]

theorem Value.asStrings_eq_some {value : Value Double} {texts : List String} :
    value.asStrings = some texts ↔ value = .array (texts.map .string) := by
  have elements (items : List (Value Double)) :
      items.mapM asString = some texts ↔ items = texts.map .string := by
    induction items generalizing texts with
    | nil => cases texts <;> simp
    | cons item items ih =>
      simp only [List.mapM_cons, Option.bind_eq_bind, Option.bind_eq_some_iff, asString_eq_some,
        Option.pure_def, Option.some.injEq, ih]
      cases texts <;> simp
  cases value <;> simp [asStrings, elements]

/-- `as!`, given what `as?` yields. -/
def forceCast {Target : Type} : Option Target → Except Trap Target
  | some value => .ok value
  | none => .error .forceCast

def forceUnwrap {Wrapped : Type} : Option Wrapped → Except Trap Wrapped
  | some value => .ok value
  | none => .error .forceUnwrap

@[simp] theorem forceCast_eq_ok {Target : Type} {cast : Option Target} {value : Target} :
    forceCast cast = .ok value ↔ cast = some value := by
  cases cast <;> simp [forceCast]

@[simp] theorem forceUnwrap_eq_ok {Wrapped : Type} {wrapped : Option Wrapped} {value : Wrapped} :
    forceUnwrap wrapped = .ok value ↔ wrapped = some value := by
  cases wrapped <;> simp [forceUnwrap]

theorem forceCast_isOk_iff {Target : Type} {cast : Option Target} :
    (∃ value, forceCast cast = .ok value) ↔ cast.isSome := by
  simp [Option.isSome_iff_exists]

theorem mapM_forceCast {Item Target : Type} {cast : Item → Option Target} {items : List Item}
    (casts : ∀ item ∈ items, (cast item).isSome) :
    (items.mapM fun item => forceCast (cast item)) = .ok (items.map cast).reduceOption := by
  induction items with
  | nil => rfl
  | cons item items ih =>
    obtain ⟨first, others⟩ := List.forall_mem_cons.mp casts
    obtain ⟨value, found⟩ := Option.isSome_iff_exists.mp first
    rw [List.mapM_cons, found, ih others, List.map_cons, found, List.reduceOption_cons_of_some]
    rfl

instance instLinearOrderInt64 : LinearOrder Int64 where
  le_refl := Int64.le_refl
  le_trans _ _ _ := Int64.le_trans
  lt_iff_le_not_ge a b := by
    rw [Int64.lt_iff_toInt_lt, Int64.le_iff_toInt_le, Int64.le_iff_toInt_le]
    omega
  le_antisymm _ _ := Int64.le_antisymm
  le_total := Int64.le_total
  toDecidableLE := inferInstance
  toDecidableLT := inferInstance
  toDecidableEq := inferInstance
  compare_eq_compareOfLessAndEq _ _ := rfl

def string (n : Int64) : String := toString n.toInt

def InInt64 (n : ℤ) : Prop := -2 ^ 63 ≤ n ∧ n < 2 ^ 63

instance (n : ℤ) : Decidable (InInt64 n) := inferInstanceAs (Decidable (_ ∧ _))

section Numbers

variable [Ring Double] [LinearOrder Double] [FloorRing Double]

/-- The integer a boxed number equals, when `Int64` can hold it. -/
def NSNumber.int64Exactly : NSNumber Double → Option Int64
  | .integer n => some n
  | .double d => if ((⌊d⌋ : ℤ) : Double) = d ∧ InInt64 ⌊d⌋ then some (Int64.ofInt ⌊d⌋) else none
  | .bool b => some (if b then 1 else 0)

/-- Some double equals the integer, whose magnitude has at most 53 binary digits before its zeros. -/
def Representable (n : Int64) : Prop := ∃ digits zeros : ℕ, digits < 2 ^ 53 ∧ n.toInt.natAbs = digits * 2 ^ zeros

theorem representable_iff (n : Int64) :
    Representable n ↔ n.toInt.natAbs % 2 ^ (n.toInt.natAbs.log2 - 52) = 0 := by
  unfold Representable
  generalize n.toInt.natAbs = size
  constructor
  · rintro ⟨digits, zeros, small, rfl⟩
    rcases Nat.eq_zero_or_pos digits with rfl | positive
    · rw [Nat.zero_mul, Nat.zero_mod]
    · have length : (digits * 2 ^ zeros).log2 < 53 + zeros := by
        rw [Nat.log2_lt (Nat.mul_pos positive (Nat.two_pow_pos zeros)).ne', pow_add]
        exact Nat.mul_lt_mul_of_pos_right small (Nat.two_pow_pos zeros)
      exact Nat.mod_eq_zero_of_dvd ((pow_dvd_pow 2 (by omega)).trans (Nat.dvd_mul_left _ _))
  · intro even
    refine ⟨size / 2 ^ (size.log2 - 52), size.log2 - 52, ?_,
      (Nat.div_mul_cancel (Nat.dvd_of_mod_eq_zero even)).symm⟩
    apply Nat.div_lt_of_lt_mul
    rw [← pow_add]
    exact Nat.lt_log2_self.trans_le (Nat.pow_le_pow_right (by decide) (by omega))

instance (n : Int64) : Decidable (Representable n) := decidable_of_iff' _ (representable_iff n)

-- The first integer that rounding would change.
example : ¬ Representable 9007199254740993 := by decide

/-- `Double(exactly: number)`, which never rounds an integer. -/
def NSNumber.doubleExactly : NSNumber Double → Option Double
  | .integer n => if Representable n then some (n.toInt : Double) else none
  | .double d => some d
  | .bool b => some (if b then 1 else 0)

def Value.asInt : Value Double → Option Int64
  | .int n => some n
  | .number n => n.int64Exactly
  | _ => none

def Value.asInt64 : Value Double → Option Int64
  | .int64 n => some n
  | .number n => n.int64Exactly
  | _ => none

def Value.asDouble : Value Double → Option Double
  | .double d => some d
  | .number n => n.doubleExactly
  | _ => none

structure Date (Double : Type) where
  timeIntervalSince1970 : Double

def Date.toMillis (date : Date Double) : Double := date.timeIntervalSince1970 * 1000

def truncated (d : Double) : ℤ := if 0 ≤ d then ⌊d⌋ else ⌈d⌉

/-- `Int64(d)`, which traps outside the range of the type. -/
def int64 (d : Double) : Except Trap Int64 :=
  if InInt64 (truncated d) then .ok (Int64.ofInt (truncated d)) else .error .integerRange

theorem truncated_intCast [IsStrictOrderedRing Double] (n : ℤ) : truncated (n : Double) = n := by
  unfold truncated
  rw [Int.floor_intCast, Int.ceil_intCast, ite_self]

theorem int64_of_range {d : Double} (range : InInt64 (truncated d)) :
    int64 d = .ok (Int64.ofInt (truncated d)) := if_pos range

theorem toInt_of_range {n : ℤ} (range : InInt64 n) : (Int64.ofInt n).toInt = n :=
  Int64.toInt_ofInt_of_le range.1 range.2

theorem string_of_range {n : ℤ} (range : InInt64 n) : string (Int64.ofInt n) = toString n := by
  unfold string
  rw [toInt_of_range range]

def roundHalfEven (d : Double) : ℤ :=
  if 2 * Int.fract d < 1 then ⌊d⌋
  else if 1 < 2 * Int.fract d then ⌊d⌋ + 1
  else if Even ⌊d⌋ then ⌊d⌋ else ⌊d⌋ + 1

/-- `String(format: "%.0f", d)`, which keeps the sign of a negative number rounded to zero. -/
def formatWhole (d : Double) : String :=
  if d < 0 ∧ roundHalfEven d = 0 then "-0" else toString (roundHalfEven d)

end Numbers

/-- An order in which Swift may enumerate a dictionary. -/
structure Enumeration (Val : Type) where
  entries : (AList fun _ : String => Val) → List (Sigma fun _ : String => Val)
  perm : ∀ dict, (entries dict).Perm dict.entries

def Enumeration.keys {Val : Type} (order : Enumeration Val) (dict : AList fun _ : String => Val) :
    List String := (order.entries dict).keys

def Enumeration.values {Val : Type} (order : Enumeration Val) (dict : AList fun _ : String => Val) :
    List Val := (order.entries dict).map fun entry => entry.2

theorem Enumeration.keys_perm {Val : Type} (order : Enumeration Val)
    (dict : AList fun _ : String => Val) : (order.keys dict).Perm dict.keys :=
  (order.perm dict).map Sigma.fst

theorem Enumeration.values_perm {Val : Type} (order : Enumeration Val)
    (dict : AList fun _ : String => Val) :
    (order.values dict).Perm (dict.entries.map fun entry => entry.2) :=
  (order.perm dict).map fun entry : Sigma fun _ : String => Val => entry.2

theorem Enumeration.mem_values {Val : Type} (order : Enumeration Val)
    {dict : AList fun _ : String => Val} {value : Val} :
    value ∈ order.values dict ↔ ∃ key, dict.lookup key = some value := by
  rw [(order.values_perm dict).mem_iff, List.mem_map]
  constructor
  · rintro ⟨entry, member, rfl⟩
    exact ⟨entry.1, AList.mem_lookup_iff.mpr member⟩
  · rintro ⟨key, found⟩
    exact ⟨⟨key, value⟩, AList.mem_lookup_iff.mp found, rfl⟩

def Enumeration.stored {Val : Type} : Enumeration Val := ⟨AList.entries, fun _ => .refl _⟩

end ProjectF02.Swift
