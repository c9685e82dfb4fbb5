import ProjectF02.Chat.ChatViewController
import ProjectF02.Transition.Runs
import Mathlib.Data.Rat.Floor

/-! The text that is being written in an open chat.

Sending leaves the text in its field. The observer clears the field, whatever the
snapshot it is called with is about.
-/

set_option autoImplicit false

namespace ProjectF02
open Swift Firebase Transition Sorting

variable {Double : Type}

/-- What `text` of a text field returns after an assignment. -/
structure UITextField where
  text : Option String → Option String
  kept : ∀ content, text (some content) = some content
  -- After `nil` the field is empty, and says so with a string or with `nil`.
  cleared : (text none).getD "" = ""

/-- An open chat with the drafts that taps have written to the database since the last edit. -/
structure Drafting (Double : Type) where
  vc : ChatViewController
  database : Node Double
  written : List String := []

inductive DraftEvent (Double : Type) where
  | edited (text : String)
  | tapped (now : Date Double)
  | delivered (order : Enumeration (Value Double)) (snapshot : Value Double)

/-- A tap that wrote the draft, or a delivery with the draft before and after it; either with
the drafts written before. -/
inductive DraftOutput where
  | wrote (content : String) (written : List String)
  | redrawn (before after : String) (written : List String)

/-- No draft is written twice, and none is changed by a delivery before it is written. -/
def DraftOutput.Allowed : DraftOutput → Prop
  | .wrote content written => content ∉ written
  | .redrawn before after written => before ∉ written → after = before

namespace UITextField

def draft (field : UITextField) (vc : ChatViewController) : String := (field.text vc.messTF).getD ""

section Steps
variable [Ring Double] [LinearOrder Double] [FloorRing Double]

def step (field : UITextField) (routine : Routine Message) (state : Drafting Double) :
    DraftEvent Double → Except Trap (Drafting Double × List DraftOutput)
  | .edited text => .ok ({ state with vc := { state.vc with messTF := some text }, written := [] }, [])
  | .tapped now => do
    let content := field.draft state.vc
    let vc := { state.vc with messTF := field.text state.vc.messTF }
    let (database, sent) ← vc.sendMessAction now state.database
    return ({ state with database := database, written := (sent.map fun _ => content) ++ state.written },
      sent.map fun _ => .wrote content state.written)
  | .delivered order snapshot =>
    let vc := state.vc.observer order routine snapshot
    .ok ({ state with vc := vc }, [.redrawn (field.draft state.vc) (field.draft vc) state.written])

end Steps

/-- A draft is sent once at most, and what an observer is handed finds no draft that is still to
be sent. -/
def Careful (field : UITextField) (state : Drafting Double) : DraftEvent Double → Prop
  | .edited _ => True
  | .tapped _ => ∀ content, field.text state.vc.messTF = some content → content ∉ state.written
  | .delivered _ snapshot =>
      snapshot.asDict.isSome → field.draft state.vc ∉ state.written → field.draft state.vc = ""

variable [Ring Double] [LinearOrder Double] [FloorRing Double]

theorem draft_observer (field : UITextField) (vc : ChatViewController) (order : Enumeration (Value Double))
    (routine : Routine Message) (snapshot : Value Double) :
    field.draft (vc.observer order routine snapshot) =
      if snapshot.asDict.isSome then "" else field.draft vc := by
  unfold ChatViewController.observer
  cases cast : snapshot.asDict with
  | none =>
    unfold ChatViewController.observed
    rw [cast]
    rfl
  | some dict =>
    rw [ChatViewController.observed_of_dict order routine cast]
    exact field.cleared

theorem allowed_step_iff {field : UITextField} {routine : Routine Message} {path : FPath}
    {state next : Drafting Double} {event : DraftEvent Double} {emitted : List DraftOutput}
    (opened : state.vc.OpenedAt path) (taken : field.step routine state event = .ok (next, emitted)) :
    (∀ output ∈ emitted, output.Allowed) ↔ field.Careful state event := by
  cases event with
  | edited text =>
    cases taken
    exact iff_of_true (List.forall_mem_nil _) trivial
  | tapped now =>
    have opened' : { state.vc with messTF := field.text state.vc.messTF }.OpenedAt path := opened
    obtain ⟨⟨database, sent⟩, ran, same⟩ := ok_of_bind taken
    cases same
    rw [ChatViewController.sendMessAction_eq opened'] at ran
    cases content : field.text state.vc.messTF with
    | none =>
      rw [content] at ran
      cases ran
      simp [Careful, content]
    | some text =>
      rw [content] at ran
      dsimp only at ran
      split at ran
      · cases ran
        rw [List.map_singleton, List.forall_mem_singleton, Careful]
        simp only [DraftOutput.Allowed, draft, content, Option.getD_some, Option.some.injEq, forall_eq']
      · cases ran
  | delivered order snapshot =>
    cases taken
    rw [List.forall_mem_singleton, DraftOutput.Allowed, draft_observer, Careful]
    split
    next read =>
      rw [forall_prop_of_true read]
      exact imp_congr_right fun _ => eq_comm
    next ignored => simp [ignored]

theorem opened_step {field : UITextField} {routine : Routine Message} {path : FPath}
    {state next : Drafting Double} {event : DraftEvent Double} {emitted : List DraftOutput}
    (opened : state.vc.OpenedAt path) (taken : field.step routine state event = .ok (next, emitted)) :
    next.vc.OpenedAt path := by
  cases event with
  | edited text =>
    cases taken
    exact opened
  | tapped now =>
    obtain ⟨⟨database, sent⟩, -, same⟩ := ok_of_bind taken
    cases same
    exact opened
  | delivered order snapshot =>
    cases taken
    exact ChatViewController.openedAt_observer opened order routine snapshot

theorem step_tapped {field : UITextField} (routine : Routine Message) {path : FPath} {state : Drafting Double}
    (opened : state.vc.OpenedAt path) {now : Date Double} (range : InInt64 (truncated now.toMillis))
    {content : String} (shown : field.text state.vc.messTF = some content) :
    ∃ next, field.step routine state (.tapped now) = .ok (next, [.wrote content state.written]) := by
  have opened' : { state.vc with messTF := field.text state.vc.messTF }.OpenedAt path := opened
  have ran := ChatViewController.sendMessAction_eq opened' now state.database
  simp only [shown, range, if_true] at ran
  exact ⟨_, by simp only [step, draft, shown, ran]; rfl⟩

theorem drafts_kept_iff {field : UITextField} {routine : Routine Message} {path : FPath}
    {state final : Drafting Double} {events : List (DraftEvent Double)} {outputs : List DraftOutput}
    (opened : state.vc.OpenedAt path)
    (run : Runs (computes (field.step routine)) state events final outputs) :
    (∀ output ∈ outputs, output.Allowed) ↔
      Runs ((computes (field.step routine)).guardedBy field.Careful) state events final outputs :=
  run.outputs_forall_iff_guarded (fun state => state.vc.OpenedAt path) field.Careful DraftOutput.Allowed
    (fun _ _ _ _ opened taken => allowed_step_iff opened taken)
    (fun _ _ _ _ opened taken _ => opened_step opened taken) opened

def plain : UITextField where
  text content := some (content.getD "")
  kept _ := rfl
  cleared := rfl

def openedChat : Drafting ℚ where
  vc := { chat := some { id := some "c1" }, uID := "u1" }
  database := .empty

theorem openedChat_at : openedChat.vc.OpenedAt ["Chat", "c1", "messages"] := ⟨_, _, rfl, rfl, by decide⟩

def others : Value ℚ :=
  let message : Message := { content := "Yo", time := 1541650000000 }
  .ofDict (AList.singleton "1541650000000" (.ofDict message.toDict))

theorem draft_written : ∃ final outputs,
    Runs (computes (plain.step .merge)) openedChat [.edited "Hi", .tapped ⟨(1541650000 : ℤ)⟩] final outputs ∧
      outputs ≠ [] ∧ ∀ output ∈ outputs, output.Allowed := by
  let edited : Drafting ℚ := { openedChat with vc := { openedChat.vc with messTF := some "Hi" } }
  have range : InInt64 (truncated (Date.toMillis ⟨((1541650000 : ℤ) : ℚ)⟩)) := by
    rw [ChatViewController.truncated_toMillis]
    decide
  obtain ⟨next, taken⟩ := @step_tapped ℚ _ _ _ plain .merge _ edited openedChat_at _ range "Hi" rfl
  have guarded : Runs ((computes (plain.step .merge)).guardedBy plain.Careful) openedChat
      [.edited "Hi", .tapped ⟨(1541650000 : ℤ)⟩] next ([] ++ ([_] ++ [])) :=
    .next ⟨trivial, rfl⟩ (.next ⟨fun _ _ => List.not_mem_nil, taken⟩ (.done _))
  exact ⟨next, _, guarded.unguarded, List.cons_ne_nil _ _,
    (drafts_kept_iff openedChat_at guarded.unguarded).mpr guarded⟩

/-- A message of another participant arrives while the user writes: the draft is gone. -/
theorem draft_lost : ∃ final outputs,
    Runs (computes (plain.step .merge)) openedChat [.edited "Hi", .delivered .stored others] final outputs ∧
      plain.draft final.vc = "" ∧ ¬ ∀ output ∈ outputs, output.Allowed := by
  have run : Runs (computes (plain.step .merge)) openedChat [.edited "Hi", .delivered .stored others] _
      ([] ++ ([.redrawn "Hi" "" []] ++ [])) := .next rfl (.next rfl (.done _))
  refine ⟨_, _, run, rfl, fun all => ?_⟩
  have kept := all _ List.mem_cons_self List.not_mem_nil
  exact absurd kept (by decide)

end UITextField

end ProjectF02
