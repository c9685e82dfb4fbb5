import ProjectF02.Swift.Scanner

/-! The two parsers of colours.

The one of the registration screen scans a text once and takes the number apart; the
other one scans it pair by pair. Digits that stop short of six are pushed to the end by
the first, while for the second each pair keeps its place.
-/

set_option autoImplicit false

namespace ProjectF02
open Swift

inductive RGBAColor (CGFloat : Type) where
  | gray
  | rgba (red green blue alpha : CGFloat)
  deriving DecidableEq, Repr

variable {CGFloat : Type} [Field CGFloat]

namespace RegisterViewController

def cString (unicode : Unicode) (hex : String) : List UInt16 :=
  let cString := unicode.uppercased (trimmingCharacters (units hex))
  if unicode.hasHash cString then unicode.removeFirst cString else cString

def color (rgbValue : UInt32) : RGBAColor CGFloat :=
  .rgba
    (((rgbValue &&& 0xFF0000) >>> 16).toNat / 255)
    (((rgbValue &&& 0x00FF00) >>> 8).toNat / 255)
    ((rgbValue &&& 0x0000FF).toNat / 255)
    1

def hexStringToUIColor (unicode : Unicode) (hex : String) : RGBAColor CGFloat :=
  let cString := cString unicode hex
  if unicode.count cString ≠ 6 then .gray else color (scanHexInt32 cString)

end RegisterViewController

namespace UIColor

def cString (unicode : Unicode) (hex : String) : Option (List UInt16) :=
  let cString := unicode.uppercased (trimmingCharacters (units hex))
  if unicode.hasHash cString then substringFrom cString 1 else some cString

/-- The colour of three pairs; an exception is raised if the text is too short for them. -/
def ofPairs (cString : List UInt16) (alpha : CGFloat) : Option (RGBAColor CGFloat) := do
  let rString ← substringTo cString 2
  let gString ← substringTo (← substringFrom cString 2) 2
  let bString ← substringTo (← substringFrom cString 4) 2
  let red := scanHexInt32 rString
  let green := scanHexInt32 gString
  let blue := scanHexInt32 bString
  return .rgba (red.toNat / 255) (green.toNat / 255) (blue.toNat / 255) alpha

def colorFromHex (unicode : Unicode) (hex : String) (alpha : CGFloat) : Option (RGBAColor CGFloat) := do
  let cString ← cString unicode hex
  if unicode.count cString ≠ 6 then return .gray else ofPairs cString alpha

end UIColor

theorem cString_eq (unicode : Unicode) (hex : String) :
    UIColor.cString unicode hex = some (RegisterViewController.cString unicode hex) := by
  unfold UIColor.cString RegisterViewController.cString
  by_cases hash : unicode.hasHash (unicode.uppercased (trimmingCharacters (units hex))) = true
  · simp only [hash, if_true]
    exact unicode.substringFrom_one _ hash
  · simp only [hash, if_false, Bool.false_eq_true]

/-! ## What the pairs show -/

/-- A pair shows both its digits, or a lone one at the second place. A second digit is only seen
behind a first one or behind whitespace. -/
def pairDigits (first second : UInt16) : List ℕ :=
  match hexValue first, hexValue second with
  | some high, some low => [high, low]
  | some low, none => [0, low]
  | none, some low => if isWhitespace first then [0, low] else [0, 0]
  | none, none => [0, 0]

def shownDigits : List UInt16 → List ℕ
  | a :: b :: c :: d :: e :: f :: _ => pairDigits a b ++ (pairDigits c d ++ pairDigits e f)
  | _ => []

/-- The digits that a text begins with, moved to the end of six places, are those that its pairs show. -/
def Aligned (text : List UInt16) : Prop := (leadingDigits text).leftpad 6 0 = shownDigits text

instance instDecidableAligned (text : List UInt16) : Decidable (Aligned text) :=
  inferInstanceAs (Decidable (_ = _))

theorem pairDigits_of_lone {first second : UInt16} {low : ℕ} (digit : hexValue first = some low)
    (none : hexValue second = none) : pairDigits first second = [0, low] := by
  rw [pairDigits, digit, none]

theorem pairDigits_of_none {first second : UInt16} (none : hexValue first = none) :
    pairDigits first second = [0, if isWhitespace first then (hexValue second).getD 0 else 0] := by
  rw [pairDigits, none]
  cases hexValue second <;> cases isWhitespace first <;> rfl

/-- A pair scanned by itself; whether its prefix is `0X` or its first digit is 0 makes no difference. -/
theorem leadingDigits_pair (first second : UInt16) :
    (leadingDigits [first, second]).leftpad 2 0 = pairDigits first second := by
  rw [leadingDigits]
  by_cases space : isWhitespace first = true
  · rw [List.dropWhile_cons_of_pos space, pairDigits_of_none (hexValue_of_isWhitespace space), if_pos space]
    by_cases space' : isWhitespace second = true
    · rw [List.dropWhile_cons_of_pos space', hexValue_of_isWhitespace space']
      rfl
    · have alone : unprefixed [second] = [second] := rfl
      rw [List.dropWhile_cons_of_neg space', alone, hexRun]
      cases hexValue second <;> rfl
  · rw [List.dropWhile_cons_of_neg space]
    by_cases marked : first = 0x30 ∧ (second = 0x58 ∨ second = 0x78)
    · rw [unprefixed, if_pos marked]
      obtain ⟨rfl, rfl | rfl⟩ := marked <;> rfl
    · rw [unprefixed, if_neg marked, hexRun]
      cases digit : hexValue first with
      | none =>
        rw [pairDigits_of_none digit, if_neg space]
        rfl
      | some high =>
        simp only [hexRun]
        cases digit' : hexValue second with
        | none =>
          rw [pairDigits_of_lone digit digit']
          rfl
        | some low =>
          rw [pairDigits, digit, digit']
          rfl

theorem ofDigits_leftpad (length : ℕ) (digits : List ℕ) :
    Nat.ofDigits 16 (digits.leftpad length 0).reverse = Nat.ofDigits 16 digits.reverse := by
  rw [List.leftpad, List.reverse_append, List.reverse_replicate, Nat.ofDigits_append_replicate_zero]

theorem lt_of_mem_leftpad {length digit : ℕ} {text : List UInt16}
    (member : digit ∈ (leadingDigits text).leftpad length 0) : digit < 16 := by
  rcases List.mem_append.mp member with zero | found
  · rw [List.eq_of_mem_replicate zero]
    decide
  · exact lt_of_mem_leadingDigits found

theorem length_pairDigits (first second : UInt16) : (pairDigits first second).length = 2 := by
  rw [← leadingDigits_pair, List.length_leftpad]
  exact max_eq_left (length_leadingDigits_le [first, second])

theorem lt_of_mem_pairDigits {first second : UInt16} {digit : ℕ} (member : digit ∈ pairDigits first second) :
    digit < 16 := by
  rw [← leadingDigits_pair] at member
  exact lt_of_mem_leftpad member

theorem scanHexInt32_pair (first second : UInt16) :
    (scanHexInt32 [first, second]).toNat = Nat.ofDigits 16 (pairDigits first second).reverse := by
  have short : (leadingDigits [first, second]).length ≤ 8 := (length_leadingDigits_le _).trans (show 2 ≤ 8 by decide)
  rw [scanHexInt32_toNat short, ← ofDigits_leftpad 2, leadingDigits_pair]

section Six
variable {a b c d e f : UInt16} {rest : List UInt16}

theorem ofPairs_eq (alpha : CGFloat) :
    UIColor.ofPairs (a :: b :: c :: d :: e :: f :: rest) alpha =
      some (.rgba ((scanHexInt32 [a, b]).toNat / 255) ((scanHexInt32 [c, d]).toNat / 255)
        ((scanHexInt32 [e, f]).toNat / 255) alpha) := by
  simp [UIColor.ofPairs, substringTo, substringFrom]

theorem ofDigits_shownDigits :
    Nat.ofDigits 16 (shownDigits (a :: b :: c :: d :: e :: f :: rest)).reverse =
      65536 * (scanHexInt32 [a, b]).toNat + 256 * (scanHexInt32 [c, d]).toNat + (scanHexInt32 [e, f]).toNat := by
  simp only [shownDigits, List.reverse_append, Nat.ofDigits_append, List.length_append, List.length_reverse,
    length_pairDigits, scanHexInt32_pair]
  omega

theorem length_shownDigits : (shownDigits (a :: b :: c :: d :: e :: f :: rest)).length = 6 := by
  simp only [shownDigits, List.length_append, length_pairDigits]

theorem lt_of_mem_shownDigits {digit : ℕ}
    (member : digit ∈ shownDigits (a :: b :: c :: d :: e :: f :: rest)) : digit < 16 := by
  rcases List.mem_append.mp member with found | member
  · exact lt_of_mem_pairDigits found
  · rcases List.mem_append.mp member with found | found
    · exact lt_of_mem_pairDigits found
    · exact lt_of_mem_pairDigits found

theorem aligned_iff (short : (leadingDigits (a :: b :: c :: d :: e :: f :: rest)).length ≤ 6) :
    Aligned (a :: b :: c :: d :: e :: f :: rest) ↔
      (scanHexInt32 (a :: b :: c :: d :: e :: f :: rest)).toNat =
        65536 * (scanHexInt32 [a, b]).toNat + 256 * (scanHexInt32 [c, d]).toNat +
          (scanHexInt32 [e, f]).toNat := by
  rw [← @ofDigits_shownDigits a b c d e f rest, scanHexInt32_toNat (short.trans (by decide)), ← ofDigits_leftpad 6]
  constructor
  · intro aligned
    rw [aligned]
  · intro same
    have length : ((leadingDigits (a :: b :: c :: d :: e :: f :: rest)).leftpad 6 0).reverse.length =
        (shownDigits (a :: b :: c :: d :: e :: f :: rest)).reverse.length := by
      rw [List.length_reverse, List.length_reverse, length_shownDigits, List.length_leftpad]
      exact max_eq_left short
    exact List.reverse_injective (Nat.ofDigits_inj_of_len_eq (by decide) length
      (fun digit member => lt_of_mem_leftpad (List.mem_reverse.mp member))
      (fun digit member => lt_of_mem_shownDigits (List.mem_reverse.mp member)) same)

end Six

theorem byte_toNat (value mask shift : UInt32) (place : ℕ) (shifted : shift.toNat % 32 = place)
    (masked : mask.toNat >>> place = 2 ^ 8 - 1) :
    ((value &&& mask) >>> shift).toNat = value.toNat / 2 ^ place % 256 := by
  rw [UInt32.toNat_shiftRight, UInt32.toNat_and, shifted, Nat.shiftRight_and_distrib, masked,
    Nat.and_two_pow_sub_one_eq_mod, Nat.shiftRight_eq_div_pow]

theorem color_eq (rgbValue : UInt32) :
    (RegisterViewController.color rgbValue : RGBAColor CGFloat) =
      .rgba ((rgbValue.toNat / 65536 % 256 : ℕ) / 255) ((rgbValue.toNat / 256 % 256 : ℕ) / 255)
        ((rgbValue.toNat % 256 : ℕ) / 255) 1 := by
  have red : ((rgbValue &&& 0xFF0000) >>> 16).toNat = rgbValue.toNat / 65536 % 256 :=
    byte_toNat rgbValue 0xFF0000 16 16 rfl rfl
  have green : ((rgbValue &&& 0x00FF00) >>> 8).toNat = rgbValue.toNat / 256 % 256 :=
    byte_toNat rgbValue 0x00FF00 8 8 rfl rfl
  have blue : (rgbValue &&& 0x0000FF).toNat = rgbValue.toNat % 256 := by
    rw [UInt32.toNat_and]
    exact Nat.and_two_pow_sub_one_eq_mod _ 8
  rw [RegisterViewController.color, red, green, blue]

def RGBAColor.EightBit (color : RGBAColor CGFloat) : Prop :=
  color = .gray ∨ ∃ red green blue : ℕ, red ≤ 255 ∧ green ≤ 255 ∧ blue ≤ 255 ∧
    color = .rgba (red / 255) (green / 255) (blue / 255) 1

theorem eightBit_hexStringToUIColor (unicode : Unicode) (hex : String) :
    (RegisterViewController.hexStringToUIColor unicode hex : RGBAColor CGFloat).EightBit := by
  unfold RegisterViewController.hexStringToUIColor
  by_cases six : unicode.count (RegisterViewController.cString unicode hex) = 6
  · refine .inr ⟨_, _, _, ?_, ?_, ?_, (if_neg (not_not.mpr six)).trans (color_eq _)⟩ <;> omega
  · exact .inl (if_pos six)

section Agreement
variable [CharZero CGFloat]

theorem rgba_inj {red green blue red' green' blue' : ℕ} :
    (RGBAColor.rgba (red / 255) (green / 255) (blue / 255) 1 : RGBAColor CGFloat) =
        .rgba (red' / 255) (green' / 255) (blue' / 255) 1 ↔
      red = red' ∧ green = green' ∧ blue = blue' := by
  have positive : (255 : CGFloat) ≠ 0 := by norm_num
  simp only [RGBAColor.rgba.injEq, div_left_inj' positive, Nat.cast_inj, and_true]

theorem ofPairs_eq_color_iff {text : List UInt16} (long : 6 ≤ text.length)
    (short : (leadingDigits text).length ≤ 6) :
    UIColor.ofPairs text 1 = some (RegisterViewController.color (scanHexInt32 text) : RGBAColor CGFloat) ↔
      Aligned text := by
  match text, long with
  | a :: b :: c :: d :: e :: f :: rest, _ =>
    have number := scanHexInt32_lt short (by decide)
    have red := scanHexInt32_lt (length_leadingDigits_le [a, b]) (show 2 ≤ 8 by decide)
    have green := scanHexInt32_lt (length_leadingDigits_le [c, d]) (show 2 ≤ 8 by decide)
    have blue := scanHexInt32_lt (length_leadingDigits_le [e, f]) (show 2 ≤ 8 by decide)
    rw [List.length_cons, List.length_singleton] at red green blue
    rw [ofPairs_eq, color_eq, Option.some_inj, rgba_inj, aligned_iff short]
    omega

theorem colorFromHex_eq_iff (unicode : Unicode) (hex : String) :
    UIColor.colorFromHex unicode hex 1 =
        some (RegisterViewController.hexStringToUIColor unicode hex : RGBAColor CGFloat) ↔
      (unicode.count (RegisterViewController.cString unicode hex) = 6 →
        Aligned (RegisterViewController.cString unicode hex)) := by
  unfold UIColor.colorFromHex RegisterViewController.hexStringToUIColor
  rw [cString_eq, Option.bind_eq_bind, Option.bind_some]
  by_cases six : unicode.count (RegisterViewController.cString unicode hex) = 6
  · have long := unicode.count_le_length (RegisterViewController.cString unicode hex)
    have short := (leadingDigits_sublist (RegisterViewController.cString unicode hex)).length_le.trans
      (unicode.digits_le_count _)
    rw [six] at long short
    rw [if_neg (not_not.mpr six), if_neg (not_not.mpr six), ofPairs_eq_color_iff long short]
    exact ⟨fun aligned _ => aligned, fun aligned => aligned six⟩
  · rw [if_pos six, if_pos six]
    exact iff_of_true rfl fun six' => absurd six' six

theorem colorFromHex_agrees_iff (unicode : Unicode) (hex : String) :
    (UIColor.colorFromHex unicode hex 1 =
          some (RegisterViewController.hexStringToUIColor unicode hex : RGBAColor CGFloat) ∧
        (RegisterViewController.hexStringToUIColor unicode hex : RGBAColor CGFloat).EightBit) ↔
      (unicode.count (RegisterViewController.cString unicode hex) = 6 →
        Aligned (RegisterViewController.cString unicode hex)) := by
  rw [and_iff_left (eightBit_hexStringToUIColor unicode hex)]
  exact colorFromHex_eq_iff unicode hex

end Agreement

theorem aligned_of_digits {text : List UInt16} (six : text.length = 6)
    (digits : ∀ unit ∈ text, (hexValue unit).isSome) : Aligned text := by
  match text, six with
  | [a, b, c, d, e, f], _ =>
    simp only [List.forall_mem_cons, Option.isSome_iff_exists] at digits
    obtain ⟨⟨a', ha⟩, ⟨b', hb⟩, ⟨c', hc⟩, ⟨d', hd⟩, ⟨e', he⟩, ⟨f', hf⟩, -⟩ := digits
    have solid : ¬ isWhitespace a = true := by
      intro space
      rw [hexValue_of_isWhitespace space] at ha
      cases ha
    have unmarked : ¬ (a = 0x30 ∧ (b = 0x58 ∨ b = 0x78)) := by
      rintro ⟨-, rfl | rfl⟩ <;> cases hb
    rw [Aligned, leadingDigits, List.dropWhile_cons_of_neg solid, unprefixed, if_neg unmarked]
    simp only [hexRun, shownDigits, pairDigits, ha, hb, hc, hd, he, hf]
    rfl

/-- The tables for texts in ASCII without line breaks, where a character is one unit. -/
def ascii : Unicode where
  uppercased := List.map fun unit => if 0x61 ≤ unit ∧ unit ≤ 0x7A then unit - 0x20 else unit
  characters := List.map fun unit => [unit]
  flatten_characters text := List.flatMap_singleton' text
  characters_ne_nil _ := List.forall_mem_map.mpr fun unit _ => List.cons_ne_nil unit []
  one_digit _ := List.forall_mem_map.mpr fun unit _ => List.length_filterMap_le hexValue [unit]

theorem colorFromHex_mainBlue :
    UIColor.colorFromHex ascii "#57ADF9" 1 =
        some (RegisterViewController.hexStringToUIColor ascii "#57ADF9" : RGBAColor ℚ) ∧
      (RegisterViewController.hexStringToUIColor ascii "#57ADF9" : RGBAColor ℚ).EightBit :=
  (colorFromHex_agrees_iff ascii "#57ADF9").mpr fun _ => by decide

/-- The whole text has no digits to begin with; two of its pairs have. -/
theorem colorFromHex_malformed :
    UIColor.colorFromHex ascii "GG1234" 1 ≠
      some (RegisterViewController.hexStringToUIColor ascii "GG1234" : RGBAColor ℚ) := by
  rw [ne_eq, colorFromHex_eq_iff]
  decide

end ProjectF02
