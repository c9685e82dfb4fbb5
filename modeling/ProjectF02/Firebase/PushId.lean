import ProjectF02.Sorting.Digits
import ProjectF02.Transition.Runs
import Mathlib.Data.Char
import Mathlib.Data.List.Chain
import Mathlib.Data.Vector.Basic

/-! The ids that the client makes up for new children.

Transcribed from `FNextPushId`. An id is the list of its characters, and ids are
compared like texts. The clock gives whole milliseconds.
-/

set_option autoImplicit false

namespace ProjectF02.Firebase
open Sorting Transition

def PUSH_CHARS : List Char :=
  ['-', '0', '1', '2', '3', '4', '5', '6', '7', '8', '9', 'A', 'B', 'C', 'D', 'E', 'F', 'G', 'H', 'I', 'J', 'K',
    'L', 'M', 'N', 'O', 'P', 'Q', 'R', 'S', 'T', 'U', 'V', 'W', 'X', 'Y', 'Z', '_', 'a', 'b', 'c', 'd', 'e', 'f',
    'g', 'h', 'i', 'j', 'k', 'l', 'm', 'n', 'o', 'p', 'q', 'r', 's', 't', 'u', 'v', 'w', 'x', 'y', 'z']

abbrev PushDigit := Fin (63 + 1)

def pushChar (digit : PushDigit) : Char := PUSH_CHARS.get digit

/-- What the client remembers of its last id. -/
structure FNextPushId where
  lastPushTime : ℕ := 0
  lastRandChars : List.Vector PushDigit 12 := .replicate 12 0

structure PushCall where
  now : ℕ
  random : Fin 12 → UInt32

/-- With all digits at their greatest, the digit before the first one is written. -/
inductive PushFailure where
  | outOfBounds
  deriving DecidableEq

namespace FNextPushId

/-- The digits of an id are drawn for a new time, and counted up for the last one. -/
def randChars (state : FNextPushId) (call : PushCall) : Except PushFailure (List.Vector PushDigit 12) :=
  if call.now ≠ state.lastPushTime then .ok (.ofFn fun i => Fin.ofNat (63 + 1) (call.random i).toNat)
  else match found : successor state.lastRandChars.toList.reverse with
    | none => .error .outOfBounds
    | some next => .ok ⟨next.reverse, by simp [← (lt_successor found).1]⟩

def get (state : FNextPushId) (call : PushCall) : Except PushFailure (FNextPushId × List (List Char)) := do
  let lastRandChars ← state.randChars call
  let timeStampChars := (digits 63 8 call.now).map pushChar
  return ({ lastPushTime := call.now, lastRandChars }, [timeStampChars ++ lastRandChars.toList.map pushChar])

theorem pushChar_strictMono : StrictMono pushChar := by
  have increasing : (PUSH_CHARS.map Char.toNat).Pairwise (· < ·) := by decide
  intro first second less
  exact List.pairwise_iff_get.mp (List.pairwise_map.mp increasing) first second less

def lastId (state : FNextPushId) : List Char :=
  (digits 63 8 state.lastPushTime).map pushChar ++ state.lastRandChars.toList.map pushChar

theorem randChars_of_again {state : FNextPushId} {call : PushCall} {next : List.Vector PushDigit 12}
    (again : call.now = state.lastPushTime) (taken : state.randChars call = .ok next) :
    state.lastRandChars.toList < next.toList := by
  rw [randChars, if_neg (not_not.mpr again)] at taken
  split at taken
  · cases taken
  next later found =>
    cases taken
    have less := (lt_successor found).2
    rwa [List.reverse_reverse] at less

theorem get_spec {state next : FNextPushId} {call : PushCall} {ids : List (List Char)}
    (taken : state.get call = .ok (next, ids)) :
    next.lastPushTime = call.now ∧ ids = [next.lastId] ∧
      (call.now = state.lastPushTime → state.lastRandChars.toList < next.lastRandChars.toList) := by
  rw [get] at taken
  cases drawn : state.randChars call with
  | error failure =>
    rw [drawn] at taken
    cases taken
  | ok rand =>
    rw [drawn] at taken
    cases taken
    exact ⟨rfl, rfl, fun again => randChars_of_again again drawn⟩

theorem get_fails_iff {state : FNextPushId} {call : PushCall} :
    (∃ failure, state.get call = .error failure) ↔
      call.now = state.lastPushTime ∧ ∀ digit ∈ state.lastRandChars.toList, digit = Fin.last 63 := by
  have full := @successor_eq_none_iff 63 state.lastRandChars.toList.reverse
  simp only [List.mem_reverse] at full
  rw [← full, get, randChars]
  by_cases again : call.now = state.lastPushTime
  · rw [if_neg (not_not.mpr again)]
    split
    next none => exact ⟨fun _ => ⟨again, none⟩, fun _ => ⟨.outOfBounds, rfl⟩⟩
    next next found => exact ⟨nofun, fun both => nomatch found.symm.trans both.2⟩
  · rw [if_pos again]
    exact ⟨nofun, fun both => absurd both.1 again⟩

theorem lastId_lt_iff {state next : FNextPushId} {call : PushCall} {ids : List (List Char)}
    (taken : state.get call = .ok (next, ids)) (fits : state.lastPushTime < 64 ^ 8) (short : call.now < 64 ^ 8) :
    state.lastId < next.lastId ↔ state.lastPushTime ≤ next.lastPushTime := by
  obtain ⟨time, -, grown⟩ := get_spec taken
  rw [← time] at short grown
  obtain ⟨less, equal⟩ := @digits_lt_iff 63 8 state.lastPushTime next.lastPushTime fits short
  rw [lastId, lastId, ← List.map_append, ← List.map_append, map_lt_map_iff pushChar_strictMono,
    append_lt_append_iff (by rw [length_digits, length_digits]), less, equal]
  constructor
  · rintro (before | ⟨same, -⟩)
    · exact le_of_lt before
    · exact le_of_eq same
  · intro notBack
    rcases lt_or_eq_of_le notBack with before | same
    · exact .inl before
    · exact .inr ⟨same, grown same.symm⟩

theorem isChain_iff {state final : FNextPushId} {calls : List PushCall} {ids : List (List Char)}
    (run : Runs (computes get) state calls final ids) (fits : state.lastPushTime < 64 ^ 8)
    (short : ∀ call ∈ calls, call.now < 64 ^ 8) :
    List.IsChain (· < ·) (state.lastId :: ids) ↔
      List.IsChain (· ≤ ·) (state.lastPushTime :: calls.map PushCall.now) := by
  induction run with
  | done state => simp
  | next taken rest ih =>
    obtain ⟨now, later⟩ := List.forall_mem_cons.mp short
    obtain ⟨time, made, -⟩ := get_spec taken
    have step := lastId_lt_iff taken fits now
    subst made
    rw [List.singleton_append, List.map_cons, List.isChain_cons_cons, List.isChain_cons_cons, step, ← time,
      ih (time ▸ now) later]

/-- From any state on, the ids of a run come in increasing order exactly if the clock never goes back, also
where several are made in one millisecond; and the run goes on with any call but one in the millisecond of
the last id whose digits are all at their greatest. -/
theorem increasing_iff {state final : FNextPushId} {calls : List PushCall} {ids : List (List Char)}
    (run : Runs (computes get) state calls final ids) (short : ∀ call ∈ calls, call.now < 64 ^ 8) :
    (ids.Pairwise (· < ·) ↔ (calls.map PushCall.now).Pairwise (· ≤ ·)) ∧
      ∀ call, (∃ failure, final.get call = .error failure) ↔
        call.now = final.lastPushTime ∧ ∀ digit ∈ final.lastRandChars.toList, digit = Fin.last 63 := by
  refine ⟨?_, fun call => get_fails_iff⟩
  rw [← List.isChain_iff_pairwise, ← List.isChain_iff_pairwise]
  cases run with
  | done state => simp
  | next taken rest =>
    obtain ⟨now, later⟩ := List.forall_mem_cons.mp short
    obtain ⟨time, made, -⟩ := get_spec taken
    subst made
    rw [List.singleton_append, List.map_cons, isChain_iff rest (time ▸ now) later, time]

/-- Two ids of one millisecond, then one with twelve greatest digits, which no other follows in its
millisecond. -/
theorem increasing_iff_sameMillisecond : ∃ (final : FNextPushId) (ids : List (List Char)),
    Runs (computes get) {} [⟨5, fun _ => 7⟩, ⟨5, fun _ => 7⟩, ⟨6, fun _ => 63⟩] final ids ∧
      ids.Pairwise (· < ·) ∧ ∃ failure, final.get ⟨6, fun _ => 7⟩ = .error failure := by
  obtain ⟨final, ids, run, greatest⟩ : ∃ (final : FNextPushId) (ids : List (List Char)),
      Runs (computes get) {} [⟨5, fun _ => 7⟩, ⟨5, fun _ => 7⟩, ⟨6, fun _ => 63⟩] final ids ∧
        final.lastPushTime = 6 ∧ ∀ digit ∈ final.lastRandChars.toList, digit = Fin.last 63 :=
    ⟨_, _, .next rfl (.next rfl (.next rfl (.done _))), rfl, by decide⟩
  have short : ∀ call ∈ [(⟨5, fun _ => 7⟩ : PushCall), ⟨5, fun _ => 7⟩, ⟨6, fun _ => 63⟩], call.now < 64 ^ 8 := by
    simp
  obtain ⟨increasing, fails⟩ := increasing_iff run short
  exact ⟨final, ids, run, increasing.mpr (by decide), (fails ⟨6, _⟩).mpr ⟨greatest.1.symm, greatest.2⟩⟩

end FNextPushId

end ProjectF02.Firebase
