import Mathlib.Algebra.BigOperators.Group.List.Basic
import Mathlib.Algebra.Order.BigOperators.Group.List
import Mathlib.Data.List.DropRight
import Mathlib.Data.Nat.Digits.Defs

/-! Texts as a scanner sees them.

A text is the list of its UTF-16 code units, which `NSString` and `Scanner` count. A
`Character` of Swift may take several of them. How texts fall into characters, and
their upper case, is left to the tables of Unicode.
-/

set_option autoImplicit false

namespace ProjectF02.Swift

def utf16 (c : Char) : List UInt16 :=
  if c.val < 0x10000 then [c.val.toUInt16]
  else
    let offset : UInt32 := c.val - 0x10000
    [((offset >>> 10) + 0xD800).toUInt16, ((offset &&& 0x3FF) + 0xDC00).toUInt16]

def units (text : String) : List UInt16 := text.toList.flatMap utf16

/-- The spaces of Unicode, its separators of lines and paragraphs, and the control characters for them. -/
def whitespacesAndNewlines : List UInt16 :=
  [0x09, 0x0A, 0x0B, 0x0C, 0x0D, 0x20, 0x85, 0xA0, 0x1680, 0x2000, 0x2001, 0x2002, 0x2003, 0x2004, 0x2005,
    0x2006, 0x2007, 0x2008, 0x2009, 0x200A, 0x2028, 0x2029, 0x202F, 0x205F, 0x3000]

def isWhitespace (unit : UInt16) : Bool := unit ∈ whitespacesAndNewlines

def hexValue (unit : UInt16) : Option ℕ :=
  if 0x30 ≤ unit.toNat ∧ unit.toNat ≤ 0x39 then some (unit.toNat - 0x30)
  else if 0x41 ≤ unit.toNat ∧ unit.toNat ≤ 0x46 then some (unit.toNat - 0x37)
  else if 0x61 ≤ unit.toNat ∧ unit.toNat ≤ 0x66 then some (unit.toNat - 0x57)
  else none

theorem hexValue_lt {unit : UInt16} {digit : ℕ} (found : hexValue unit = some digit) : digit < 16 := by
  unfold hexValue at found
  split at found
  · cases found
    omega
  · split at found
    · cases found
      omega
    · split at found
      · cases found
        omega
      · cases found

theorem hexValue_of_isWhitespace {unit : UInt16} (space : isWhitespace unit = true) : hexValue unit = none := by
  have none : whitespacesAndNewlines.filterMap hexValue = [] := rfl
  exact List.filterMap_eq_nil_iff.mp none unit (of_decide_eq_true space)

/-- `trimmingCharacters(in: .whitespacesAndNewlines)`. -/
def trimmingCharacters (text : List UInt16) : List UInt16 :=
  (text.dropWhile isWhitespace).rdropWhile isWhitespace

/-- `NSString.substring(from:)`, which raises an exception beyond the end. -/
def substringFrom (text : List UInt16) (index : ℕ) : Option (List UInt16) :=
  if index ≤ text.length then some (text.drop index) else none

def substringTo (text : List UInt16) (index : ℕ) : Option (List UInt16) :=
  if index ≤ text.length then some (text.take index) else none

def hexRun : List UInt16 → List ℕ
  | [] => []
  | unit :: rest =>
    match hexValue unit with
    | some digit => digit :: hexRun rest
    | none => []

def unprefixed : List UInt16 → List UInt16
  | zero :: x :: rest => if zero = 0x30 ∧ (x = 0x58 ∨ x = 0x78) then rest else zero :: x :: rest
  | text => text

def leadingDigits (text : List UInt16) : List ℕ := hexRun (unprefixed (text.dropWhile isWhitespace))

/-- The number at the beginning of a text, the largest one on overflow. -/
def scanHexInt32 (text : List UInt16) : UInt32 :=
  .ofNat (min (Nat.ofDigits 16 (leadingDigits text).reverse) (2 ^ 32 - 1))

theorem lt_of_mem_hexRun {text : List UInt16} {digit : ℕ} (member : digit ∈ hexRun text) : digit < 16 := by
  induction text with
  | nil => cases member
  | cons unit rest ih =>
    rw [hexRun] at member
    cases found : hexValue unit with
    | none =>
      rw [found] at member
      cases member
    | some first =>
      rw [found] at member
      rcases List.mem_cons.mp member with rfl | later
      · exact hexValue_lt found
      · exact ih later

theorem lt_of_mem_leadingDigits {text : List UInt16} {digit : ℕ} (member : digit ∈ leadingDigits text) :
    digit < 16 := lt_of_mem_hexRun member

theorem hexRun_sublist (text : List UInt16) : (hexRun text).Sublist (text.filterMap hexValue) := by
  induction text with
  | nil => exact .slnil
  | cons unit rest ih =>
    rw [hexRun]
    cases found : hexValue unit with
    | none => exact List.nil_sublist _
    | some first =>
      rw [List.filterMap_cons_some found]
      exact ih.cons_cons first

theorem unprefixed_suffix (text : List UInt16) : unprefixed text <:+ text := by
  unfold unprefixed
  split
  · split
    · exact ⟨[_, _], rfl⟩
    · exact List.suffix_rfl
  · exact List.suffix_rfl

theorem leadingDigits_sublist (text : List UInt16) : (leadingDigits text).Sublist (text.filterMap hexValue) :=
  (hexRun_sublist _).trans
    (((unprefixed_suffix _).trans (List.dropWhile_suffix isWhitespace)).sublist.filterMap hexValue)

theorem length_leadingDigits_le (text : List UInt16) : (leadingDigits text).length ≤ text.length :=
  (leadingDigits_sublist text).length_le.trans (List.length_filterMap_le hexValue text)

theorem ofDigits_leadingDigits_lt {text : List UInt16} {length : ℕ}
    (short : (leadingDigits text).length ≤ length) :
    Nat.ofDigits 16 (leadingDigits text).reverse < 16 ^ length := by
  have bound : Nat.ofDigits 16 (leadingDigits text).reverse < 16 ^ (leadingDigits text).reverse.length :=
    Nat.ofDigits_lt_base_pow_length (by decide)
      fun digit member => lt_of_mem_leadingDigits (List.mem_reverse.mp member)
  exact bound.trans_le (Nat.pow_le_pow_right (by decide) (List.length_reverse.trans_le short))

theorem scanHexInt32_toNat {text : List UInt16} (short : (leadingDigits text).length ≤ 8) :
    (scanHexInt32 text).toNat = Nat.ofDigits 16 (leadingDigits text).reverse := by
  have bound := ofDigits_leadingDigits_lt short
  unfold scanHexInt32
  rw [UInt32.toNat_ofNat']
  omega

theorem scanHexInt32_lt {text : List UInt16} {length : ℕ} (short : (leadingDigits text).length ≤ length)
    (fits : length ≤ 8) : (scanHexInt32 text).toNat < 16 ^ length := by
  rw [scanHexInt32_toNat (short.trans fits)]
  exact ofDigits_leadingDigits_lt short

/-- The tables of Unicode that the app relies on. No character holds two hexadecimal digits. -/
structure Unicode where
  uppercased : List UInt16 → List UInt16
  characters : List UInt16 → List (List UInt16)
  flatten_characters : ∀ text, (characters text).flatten = text
  characters_ne_nil : ∀ text, ∀ character ∈ characters text, character ≠ []
  one_digit : ∀ text, ∀ character ∈ characters text, (character.filterMap hexValue).length ≤ 1

namespace Unicode
variable (unicode : Unicode) (text : List UInt16)

def count : ℕ := (unicode.characters text).length

def hasHash : Bool := (unicode.characters text).head? = some [0x23]

def removeFirst : List UInt16 := (unicode.characters text).tail.flatten

theorem count_le_length : unicode.count text ≤ text.length := by
  conv_rhs => rw [← unicode.flatten_characters text, List.length_flatten]
  have bound := List.length_le_sum_of_one_le ((unicode.characters text).map List.length)
  rw [List.length_map] at bound
  refine bound (List.forall_mem_map.mpr fun character member => ?_)
  exact List.length_pos_iff.mpr (unicode.characters_ne_nil text character member)

theorem digits_le_count : (text.filterMap hexValue).length ≤ unicode.count text := by
  conv_lhs => rw [← unicode.flatten_characters text, List.filterMap_flatten, List.length_flatten, List.map_map]
  have bound := List.sum_le_card_nsmul ((unicode.characters text).map
    (List.length ∘ List.filterMap hexValue)) 1 (List.forall_mem_map.mpr (unicode.one_digit text))
  rwa [List.length_map, nsmul_eq_mul, Nat.mul_one] at bound

theorem substringFrom_one (hash : unicode.hasHash text = true) :
    substringFrom text 1 = some (unicode.removeFirst text) := by
  have first := of_decide_eq_true hash
  have whole := unicode.flatten_characters text
  unfold removeFirst
  cases fallen : unicode.characters text with
  | nil =>
    rw [fallen] at first
    cases first
  | cons character rest =>
    rw [fallen] at first whole
    cases first
    rw [← whole]
    rfl

end Unicode

end ProjectF02.Swift
