import ProjectF02.Register.Form
import ProjectF02.Transition.Runs

/-! The country list that the registration form opens.

The list reads its entries from a bundled file and hands a chosen one to the form.
`contains` is the search in a text. `null` is no text for the casts; the bundled
file holds none.
-/

set_option autoImplicit false

namespace ProjectF02
open Swift Transition

variable {Double : Type}

/-- What the bundle has for the file: nothing, nothing readable, or its JSON. -/
inductive CountryResource (Double : Type) where
  | missing
  | unreadable
  | json (jsonResult : Value Double)

/-- `rows` is the number of entries that the table was last told about. -/
structure CountryListViewController where
  countryCodeList : List CountryDialCode := []
  displayList : List CountryDialCode := []
  rows : Nat := 0
  searchTextfield : Option String := some ""

structure CountryListTableViewCell where
  nameLabel : String
  dialCodeLabel : String

def CountryListTableViewCell.fillData (countryDialCode : CountryDialCode) : CountryListTableViewCell where
  nameLabel := countryDialCode.name ++ " (" ++ countryDialCode.name_code ++ ")"
  dialCodeLabel := countryDialCode.dial_code

namespace CountryListViewController

/-- `as? String?` on what a subscript gives: an absent value casts to `nil`. -/
def asOptionalString : Option (Value Double) → Option (Option String)
  | none => some none
  | some value => value.asString.map some

/-- `if let text = dict[key] as? String? { property = text! }`. -/
def assignText (dict : Dict Double) (key property : String) : Except Trap String :=
  match asOptionalString (dict.lookup key) with
  | some text => forceUnwrap text
  | none => .ok property

def readCode (dict : Dict Double) : Except Trap CountryDialCode := do
  let name ← assignText dict "name" ""
  let dial_code ← assignText dict "dial_code" ""
  let name_code ← assignText dict "code" ""
  return ⟨name, dial_code, name_code⟩

def asDicts : Value Double → Option (List (Dict Double))
  | .array items => items.mapM Value.asDict
  | _ => none

def reloadData (vc : CountryListViewController) : CountryListViewController :=
  { vc with rows := vc.displayList.length }

def append (vc : CountryListViewController) (dict : Dict Double) : Except Trap CountryListViewController := do
  let countryDialogCode ← readCode dict
  return { vc with
    countryCodeList := vc.countryCodeList ++ [countryDialogCode]
    displayList := vc.displayList ++ [countryDialogCode] }

def getListDialCode (resource : CountryResource Double) (vc : CountryListViewController) :
    Except Trap CountryListViewController :=
  match resource with
  | .missing => .ok vc
  -- The error is printed.
  | .unreadable => .ok vc
  | .json jsonResult => do
    let vc ← match asDicts jsonResult with
      | some jsonStrResult => jsonStrResult.foldlM append vc
      | none => pure vc
    return vc.reloadData

def searchTextFieldChange (contains : String → String → Bool) (vc : CountryListViewController)
    (text : Option String) : CountryListViewController :=
  let vc := { vc with searchTextfield := text }
  match text with
  | some searchStr =>
    if searchStr ≠ "" then
      { vc with displayList := vc.countryCodeList.filter fun code => contains code.name searchStr }.reloadData
    else { vc with displayList := vc.countryCodeList }.reloadData
  | none => { vc with displayList := vc.countryCodeList }.reloadData

def cellForRowAt (vc : CountryListViewController) (row : Nat) : Option CountryListTableViewCell :=
  (vc.displayList[row]?).map CountryListTableViewCell.fillData

end CountryListViewController

def CountryResource.entries : CountryResource Double → List (Dict Double)
  | .missing => []
  | .unreadable => []
  | .json jsonResult => (CountryListViewController.asDicts jsonResult).getD []

def CountryDialCode.keys : List String := ["name", "dial_code", "code"]

namespace CountryListViewController

/-- A value of another type is passed over; an absent one is unwrapped. -/
theorem assignText_isOk_iff {dict : Dict Double} {key property : String} :
    (∃ text, assignText dict key property = .ok text) ↔ dict.lookup key ≠ none := by
  cases found : dict.lookup key with
  | none => simp [assignText, asOptionalString, found, forceUnwrap]
  | some value => cases cast : value.asString <;> simp [assignText, asOptionalString, found, cast]

theorem readCode_isOk_iff {dict : Dict Double} :
    (∃ code, readCode dict = .ok code) ↔ ∀ key ∈ CountryDialCode.keys, dict.lookup key ≠ none := by
  have present (key : String) := @assignText_isOk_iff Double dict key ""
  simp only [CountryDialCode.keys, List.forall_mem_cons, List.not_mem_nil, false_imp_iff, implies_true,
    and_true, ← present]
  constructor
  · rintro ⟨code, read⟩
    obtain ⟨name, first, read⟩ := ok_of_bind read
    obtain ⟨dial_code, second, read⟩ := ok_of_bind read
    obtain ⟨name_code, third, -⟩ := ok_of_bind read
    exact ⟨⟨name, first⟩, ⟨dial_code, second⟩, name_code, third⟩
  · rintro ⟨⟨name, first⟩, ⟨dial_code, second⟩, name_code, third⟩
    exact ⟨_, by simp only [readCode, first, second, third]; rfl⟩

theorem foldlM_append (dicts : List (Dict Double)) (vc : CountryListViewController) :
    dicts.foldlM append vc = (dicts.mapM readCode).map fun codes =>
      { vc with
        countryCodeList := vc.countryCodeList ++ codes
        displayList := vc.displayList ++ codes } := by
  induction dicts generalizing vc with
  | nil => simp [Except.map, Pure.pure, Except.pure]
  | cons dict rest ih =>
    rw [List.foldlM_cons, List.mapM_cons, append]
    cases readCode dict with
    | error trap => rfl
    | ok code =>
      change rest.foldlM append _ = _
      rw [ih]
      cases rest.mapM readCode with
      | error trap => rfl
      | ok codes => simp [Except.map, Bind.bind, Except.bind, Pure.pure, Except.pure]

theorem getListDialCode_eq (resource : CountryResource Double) :
    getListDialCode resource {} = (resource.entries.mapM readCode).map fun codes =>
      { countryCodeList := codes, displayList := codes, rows := codes.length } := by
  cases resource with
  | missing => rfl
  | unreadable => rfl
  | json jsonResult =>
    simp only [getListDialCode, CountryResource.entries]
    cases asDicts jsonResult with
    | none => rfl
    | some dicts =>
      simp only [foldlM_append, Option.getD_some]
      cases dicts.mapM readCode <;> rfl

/-- The list shows the entries whose names contain the text that is searched for, in their order, and draws
each of them in its row. -/
structure Shows (contains : String → String → Bool) (codes : List CountryDialCode)
    (vc : CountryListViewController) : Prop where
  countryCodeList : vc.countryCodeList = codes
  displayList : vc.displayList = codes.filter fun code =>
    vc.searchTextfield.getD "" = "" ∨ contains code.name (vc.searchTextfield.getD "")
  rows : vc.rows = vc.displayList.length
  cells : (List.range vc.rows).map vc.cellForRowAt =
    vc.displayList.map fun code => some (CountryListTableViewCell.fillData code)

theorem cells_of_rows {vc : CountryListViewController} (rows : vc.rows = vc.displayList.length) :
    (List.range vc.rows).map vc.cellForRowAt =
      vc.displayList.map fun code => some (CountryListTableViewCell.fillData code) := by
  rw [rows]
  apply List.ext_getElem
  · simp
  · intro row inside _
    have within : row < vc.displayList.length := by simpa using inside
    simp [cellForRowAt, List.getElem?_eq_getElem within]

theorem cellForRowAt_isSome {vc : CountryListViewController} (rows : vc.rows = vc.displayList.length)
    {row : Nat} (within : row < vc.rows) : ∃ cell, vc.cellForRowAt row = some cell := by
  rw [rows] at within
  exact ⟨_, by rw [cellForRowAt, List.getElem?_eq_getElem within, Option.map_some]⟩

theorem shows_loaded (contains : String → String → Bool) (codes : List CountryDialCode) :
    Shows contains codes { countryCodeList := codes, displayList := codes, rows := codes.length } where
  countryCodeList := rfl
  displayList := by simp
  rows := rfl
  cells := cells_of_rows rfl

theorem Shows.searchTextFieldChange {contains : String → String → Bool} {codes : List CountryDialCode}
    {vc : CountryListViewController} (shows : Shows contains codes vc) (text : Option String) :
    Shows contains codes (vc.searchTextFieldChange contains text) := by
  obtain ⟨rfl, displayList, rows, cells⟩ := shows
  unfold CountryListViewController.searchTextFieldChange
  cases text with
  | none => exact ⟨rfl, by simp [reloadData], rfl, cells_of_rows rfl⟩
  | some searchStr =>
    by_cases blank : searchStr = ""
    · simp only [blank, ne_eq, not_true_eq_false, if_false]
      exact ⟨rfl, by simp [reloadData], rfl, cells_of_rows rfl⟩
    · simp only [blank, ne_eq, not_false_eq_true, if_true]
      exact ⟨rfl, by simp [reloadData, blank], rfl, cells_of_rows rfl⟩

end CountryListViewController

namespace CountryChoice
open RegisterViewController CountryListViewController

/-- The form below the country lists pushed onto it, the one on the screen first. -/
structure State (Double : Type) where
  form : RegisterViewController Double
  pushed : List CountryListViewController := []

inductive Event (Double : Type) where
  | form (action : FormAction Double)
  | handleCountryViewTap
  | searchTextFieldChange (text : Option String)
  | cellForRowAt (row : Nat)
  | didSelectRowAt (row : Nat)
  | back

inductive Failure where
  | trap (trap : Trap)
  | indexOutOfRange
  deriving DecidableEq, Repr

section
variable (getDateString : Date Double → String) (contains : String → String → Bool)
  (resource : CountryResource Double)

def step (state : State Double) : Event Double → Except Failure (State Double × List (FormAction Double))
  | .form action => .ok ({ state with form := state.form.act getDateString action }, [action])
  | .handleCountryViewTap =>
    match getListDialCode resource {} with
    | .ok countryVC => .ok ({ state with pushed := countryVC :: state.pushed }, [])
    | .error trap => .error (.trap trap)
  | .searchTextFieldChange text =>
    match state.pushed with
    | countryVC :: others =>
        .ok ({ state with pushed := countryVC.searchTextFieldChange contains text :: others }, [])
    | [] => .ok (state, [])
  | .cellForRowAt row =>
    match state.pushed with
    | countryVC :: _ =>
      match countryVC.cellForRowAt row with
      | some _ => .ok (state, [])
      | none => .error .indexOutOfRange
    | [] => .ok (state, [])
  | .didSelectRowAt row =>
    match state.pushed with
    | countryVC :: others =>
      match countryVC.displayList[row]? with
      | some code => .ok (⟨state.form.act getDateString (.codeSelected code), others⟩, [.codeSelected code])
      | none => .error .indexOutOfRange
    | [] => .ok (state, [])
  | .back => .ok ({ state with pushed := state.pushed.tail }, [])

/-- The user picks a country in the list only; the table draws, and lets the user pick, rows that it has. -/
def Offered (state : State Double) : Event Double → Prop
  | .form action => action.picksCountry = false
  | .cellForRowAt row => ∀ countryVC others, state.pushed = countryVC :: others → row < countryVC.rows
  | .didSelectRowAt row => ∀ countryVC others, state.pushed = countryVC :: others → row < countryVC.rows
  | _ => True

/-! ## Runs -/

/-- The actions done on the form were done in order, and every list shows entries of the file. -/
structure Follows (start : RegisterViewController Double) (state : State Double)
    (actions : List (FormAction Double)) : Prop where
  form : state.form = start.perform getDateString actions
  lists : ∀ countryVC ∈ state.pushed, ∃ codes, resource.entries.mapM readCode = .ok codes ∧
    Shows contains codes countryVC
  chosen : ∀ code, .codeSelected code ∈ actions → ∃ dict ∈ resource.entries, readCode dict = .ok code

variable {getDateString contains resource}

theorem Follows.act {start : RegisterViewController Double} {state : State Double}
    {actions : List (FormAction Double)}
    (follows : Follows getDateString contains resource start state actions) {action : FormAction Double}
    (known : ∀ code, action = .codeSelected code → ∃ dict ∈ resource.entries, readCode dict = .ok code)
    {pushed : List CountryListViewController} (kept : ∀ countryVC ∈ pushed, countryVC ∈ state.pushed) :
    Follows getDateString contains resource start ⟨state.form.act getDateString action, pushed⟩
      (actions ++ [action]) where
  form := by
    rw [perform, List.foldl_append, follows.form]
    rfl
  lists countryVC member := follows.lists countryVC (kept countryVC member)
  chosen code member := by
    rcases List.mem_append.mp member with before | last
    · exact follows.chosen code before
    · exact known code (List.mem_singleton.mp last).symm

theorem Follows.keep {start : RegisterViewController Double} {state : State Double}
    {actions : List (FormAction Double)}
    (follows : Follows getDateString contains resource start state actions)
    {pushed : List CountryListViewController}
    (lists : ∀ countryVC ∈ pushed, ∃ codes, resource.entries.mapM readCode = .ok codes ∧
      Shows contains codes countryVC) :
    Follows getDateString contains resource start ⟨state.form, pushed⟩ (actions ++ []) := by
  rw [List.append_nil]
  exact ⟨follows.form, lists, follows.chosen⟩

theorem Follows.step {start : RegisterViewController Double} {state next : State Double}
    {actions emitted : List (FormAction Double)}
    (follows : Follows getDateString contains resource start state actions) {event : Event Double}
    (offered : Offered state event)
    (taken : step getDateString contains resource state event = .ok (next, emitted)) :
    Follows getDateString contains resource start next (actions ++ emitted) := by
  cases event with
  | form action =>
    cases taken
    refine follows.act (fun code picked => ?_) fun countryVC member => member
    rw [picked] at offered
    cases offered
  | handleCountryViewTap =>
    rw [CountryChoice.step, getListDialCode_eq] at taken
    cases loaded : resource.entries.mapM readCode with
    | error trap =>
      rw [loaded] at taken
      cases taken
    | ok codes =>
      rw [loaded] at taken
      cases taken
      apply follows.keep
      intro countryVC member
      rcases List.mem_cons.mp member with rfl | below
      · exact ⟨codes, loaded, shows_loaded contains codes⟩
      · exact follows.lists countryVC below
  | searchTextFieldChange text =>
    obtain ⟨form, pushed⟩ := state
    cases pushed with
    | nil =>
      cases taken
      exact follows.keep follows.lists
    | cons top others =>
      cases taken
      apply follows.keep
      intro countryVC member
      rcases List.mem_cons.mp member with rfl | below
      · obtain ⟨codes, loaded, shows⟩ := follows.lists top List.mem_cons_self
        exact ⟨codes, loaded, shows.searchTextFieldChange text⟩
      · exact follows.lists countryVC (List.mem_cons_of_mem _ below)
  | cellForRowAt row =>
    obtain ⟨form, pushed⟩ := state
    cases pushed with
    | nil =>
      cases taken
      exact follows.keep follows.lists
    | cons top others =>
      cases drawn : top.cellForRowAt row with
      | none =>
        simp only [CountryChoice.step, drawn] at taken
        cases taken
      | some cell =>
        simp only [CountryChoice.step, drawn] at taken
        cases taken
        exact follows.keep follows.lists
  | didSelectRowAt row =>
    obtain ⟨form, pushed⟩ := state
    cases pushed with
    | nil =>
      cases taken
      exact follows.keep follows.lists
    | cons top others =>
      cases found : top.displayList[row]? with
      | none =>
        simp only [CountryChoice.step, found] at taken
        cases taken
      | some code =>
        simp only [CountryChoice.step, found] at taken
        cases taken
        refine follows.act (fun picked same => ?_) fun countryVC member => List.mem_cons_of_mem _ member
        cases same
        obtain ⟨codes, loaded, shows⟩ := follows.lists top List.mem_cons_self
        have listed := List.mem_of_getElem? found
        rw [shows.displayList] at listed
        exact mem_of_mapM_eq_ok loaded (List.mem_filter.mp listed).1
  | back =>
    cases taken
    exact follows.keep fun countryVC member => follows.lists countryVC (List.mem_of_mem_tail member)

theorem follows_of_run {start : RegisterViewController Double} {final : State Double}
    {events : List (Event Double)} {actions : List (FormAction Double)}
    (run : Runs ((computes (step getDateString contains resource)).guardedBy Offered) ⟨start, []⟩ events
      final actions) : Follows getDateString contains resource start final actions := by
  refine run.logged (Follows getDateString contains resource start)
    (fun _ _ _ _ _ _ follows taken => follows.step taken.1 taken.2) [] ⟨rfl, ?_, ?_⟩
  · exact List.forall_mem_nil _
  · intro code none
    cases none

theorem step_fails_iff_missing {state : State Double} {event : Event Double}
    (lists : ∀ countryVC ∈ state.pushed, ∃ codes, resource.entries.mapM readCode = .ok codes ∧
      Shows contains codes countryVC) (offered : Offered state event) :
    (∃ failure, step getDateString contains resource state event = .error failure) ↔
      event = .handleCountryViewTap ∧
        ∃ dict ∈ resource.entries, ∃ key ∈ CountryDialCode.keys, dict.lookup key = none := by
  cases event with
  | form action => simp [CountryChoice.step]
  | handleCountryViewTap =>
    have returns : (∃ codes, resource.entries.mapM readCode = .ok codes) ↔
        ¬ ∃ dict ∈ resource.entries, ∃ key ∈ CountryDialCode.keys, dict.lookup key = none := by
      rw [mapM_isOk_iff]
      simp only [readCode_isOk_iff]
      push Not
      rfl
    rw [CountryChoice.step, getListDialCode_eq]
    cases loaded : resource.entries.mapM readCode with
    | ok codes =>
      have present := returns.mp ⟨codes, loaded⟩
      simp [Except.map, present]
    | error trap =>
      have missing : ∃ dict ∈ resource.entries, ∃ key ∈ CountryDialCode.keys, dict.lookup key = none := by
        by_contra present
        obtain ⟨codes, loaded'⟩ := returns.mpr present
        rw [loaded] at loaded'
        cases loaded'
      exact iff_of_true ⟨_, rfl⟩ ⟨rfl, missing⟩
  | searchTextFieldChange text => cases pushed : state.pushed <;> simp [CountryChoice.step, pushed]
  | cellForRowAt row =>
    cases pushed : state.pushed with
    | nil => simp [CountryChoice.step, pushed]
    | cons top others =>
      obtain ⟨codes, -, shows⟩ := lists top (pushed ▸ List.mem_cons_self)
      obtain ⟨cell, drawn⟩ := cellForRowAt_isSome shows.rows (offered top others pushed)
      simp [CountryChoice.step, pushed, drawn]
  | didSelectRowAt row =>
    cases pushed : state.pushed with
    | nil => simp [CountryChoice.step, pushed]
    | cons top others =>
      obtain ⟨codes, -, shows⟩ := lists top (pushed ▸ List.mem_cons_self)
      have within : row < top.displayList.length := shows.rows ▸ offered top others pushed
      simp [CountryChoice.step, pushed, List.getElem?_eq_getElem within]
  | back => simp [CountryChoice.step]

/-- Over whole runs a list shows exactly the entries whose names contain what is searched for, so that no
row it draws or offers is out of range; and opening one fails exactly when an entry of the file lacks a
key. -/
theorem list_of_run {start : RegisterViewController Double} {final : State Double}
    {events : List (Event Double)} {actions : List (FormAction Double)}
    (run : Runs ((computes (step getDateString contains resource)).guardedBy Offered) ⟨start, []⟩ events
      final actions) :
    (∀ countryVC ∈ final.pushed, ∃ codes, resource.entries.mapM readCode = .ok codes ∧
      Shows contains codes countryVC) ∧
    ∀ event, Offered final event →
      ((∃ failure, step getDateString contains resource final event = .error failure) ↔
        event = .handleCountryViewTap ∧
          ∃ dict ∈ resource.entries, ∃ key ∈ CountryDialCode.keys, dict.lookup key = none) :=
  ⟨(follows_of_run run).lists, fun _ offered => step_fails_iff_missing (follows_of_run run).lists offered⟩

/-- The first and the last entry of a file. -/
def file : CountryResource ℚ := .json (.array [
  .dict [⟨"name", .string "Afghanistan"⟩, ⟨"dial_code", .string "+93"⟩, ⟨"code", .string "AF"⟩],
  .dict [⟨"name", .string "Vietnam"⟩, ⟨"dial_code", .string "+84"⟩, ⟨"code", .string "VN"⟩]])

def containsText (text searchStr : String) : Bool := text.toList.tails.any searchStr.toList.isPrefixOf

theorem list_of_run_searched : ∃ (final : State ℚ) (actions : List (FormAction ℚ)),
    Runs ((computes (step october containsText file)).guardedBy Offered) ⟨form, []⟩
        [.handleCountryViewTap, .cellForRowAt 1, .searchTextFieldChange (some "Viet"), .cellForRowAt 0] final
        actions ∧
      final.pushed.map (fun countryVC => countryVC.cellForRowAt 0) = [some ⟨"Vietnam (VN)", "+84"⟩] ∧
      (∀ countryVC ∈ final.pushed, ∃ codes, file.entries.mapM readCode = .ok codes ∧
        Shows containsText codes countryVC) ∧
      ((∃ failure, step october containsText file final .handleCountryViewTap = .error failure) ↔
        (Event.handleCountryViewTap : Event ℚ) = .handleCountryViewTap ∧
          ∃ dict ∈ file.entries, ∃ key ∈ CountryDialCode.keys, dict.lookup key = none) := by
  obtain ⟨final, actions, run, drawn⟩ : ∃ (final : State ℚ) (actions : List (FormAction ℚ)),
      Runs ((computes (step october containsText file)).guardedBy Offered) ⟨form, []⟩
        [.handleCountryViewTap, .cellForRowAt 1, .searchTextFieldChange (some "Viet"), .cellForRowAt 0] final
        actions ∧
      final.pushed.map (fun countryVC => countryVC.cellForRowAt 0) = [some ⟨"Vietnam (VN)", "+84"⟩] := by
    refine ⟨_, _, .next ⟨trivial, rfl⟩ (.next ⟨?_, rfl⟩ (.next ⟨trivial, rfl⟩ (.next ⟨?_, rfl⟩ (.done _)))), ?_⟩
    case refine_3 => rfl
    all_goals
      rintro countryVC others same
      cases same
      decide
  obtain ⟨lists, fails⟩ := list_of_run run
  exact ⟨final, actions, run, drawn, lists, fails .handleCountryViewTap trivial⟩

def picked (actions : List (FormAction Double)) : List CountryDialCode :=
  actions.filterMap fun
    | .codeSelected code => some code
    | _ => none

theorem mem_picked {actions : List (FormAction Double)} {code : CountryDialCode} :
    code ∈ picked actions ↔ .codeSelected code ∈ actions := by
  rw [picked, List.mem_filterMap]
  constructor
  · rintro ⟨action, member, chosen⟩
    cases action <;> cases chosen
    exact member
  · exact fun member => ⟨_, member, rfl⟩

theorem dialCode_perform (getDateString : Date Double → String) (vc : RegisterViewController Double)
    (actions : List (FormAction Double)) :
    (vc.perform getDateString actions).dialCode =
      ((picked actions).getLast?.map CountryDialCode.dial_code).getD vc.dialCode := by
  induction actions generalizing vc with
  | nil => rfl
  | cons action rest ih =>
    change ((vc.act getDateString action).perform getDateString rest).dialCode = _
    rw [ih]
    cases action with
    | codeSelected code =>
      have cons : picked (.codeSelected code :: rest) = code :: picked rest := rfl
      rw [cons, List.getLast?_cons]
      cases (picked rest).getLast? <;> rfl
    | _ => rfl

section Numbers
variable [Ring Double] [LinearOrder Double] [FloorRing Double]

/-- Whatever was searched for and picked in between, the phone that is registered is the number typed after
the dial code of the last pick, which is one of an entry of the file; without a pick it has none. -/
theorem phone_of_run {created loaded : Date Double} {final : State Double} {events : List (Event Double)}
    {actions : List (FormAction Double)}
    (run : Runs ((computes (step getDateString contains resource)).guardedBy Offered)
      ⟨initial getDateString created loaded, []⟩ events final actions) (uid : String) :
    (∃ number, final.form.phoneTextfield = some number ∧ (final.form.userInfo uid).phone =
      some (((picked actions).getLast?.map CountryDialCode.dial_code).getD "" ++ number)) ∧
    ∀ code ∈ picked actions, ∃ dict ∈ resource.entries, readCode dict = .ok code := by
  have follows := follows_of_run run
  refine ⟨?_, fun code member => follows.chosen code (mem_picked.mp member)⟩
  have consistent := consistent_perform getDateString (consistent_initial getDateString created loaded) actions
  rw [← follows.form] at consistent
  obtain ⟨number, typed⟩ := Option.isSome_iff_exists.mp consistent.phone
  have dialCode : final.form.dialCode = ((picked actions).getLast?.map CountryDialCode.dial_code).getD "" := by
    rw [follows.form, dialCode_perform]
    rfl
  refine ⟨number, typed, ?_⟩
  rw [← dialCode, userInfo, typed]
  rfl

theorem phone_of_run_picked : ∃ (final : State ℚ) (actions : List (FormAction ℚ)),
    Runs ((computes (step october containsText file)).guardedBy Offered) ⟨initial october ⟨0⟩ ⟨0⟩, []⟩
        [.form (.phone "912"), .handleCountryViewTap, .searchTextFieldChange (some "Viet"), .didSelectRowAt 0]
        final actions ∧
      (∃ number, final.form.phoneTextfield = some number ∧ (final.form.userInfo "u1").phone =
        some (((picked actions).getLast?.map CountryDialCode.dial_code).getD "" ++ number)) ∧
      ∀ code ∈ picked actions, ∃ dict ∈ file.entries, readCode dict = .ok code := by
  obtain ⟨final, actions, run⟩ : ∃ (final : State ℚ) (actions : List (FormAction ℚ)),
      Runs ((computes (step october containsText file)).guardedBy Offered) ⟨initial october ⟨0⟩ ⟨0⟩, []⟩
        [.form (.phone "912"), .handleCountryViewTap, .searchTextFieldChange (some "Viet"), .didSelectRowAt 0]
        final actions := by
    refine ⟨_, _, .next ⟨rfl, rfl⟩ (.next ⟨trivial, rfl⟩ (.next ⟨trivial, rfl⟩ (.next ⟨?_, rfl⟩ (.done _))))⟩
    rintro countryVC others same
    cases same
    decide
  exact ⟨final, actions, run, phone_of_run run "u1"⟩

end Numbers

end

end CountryChoice

end ProjectF02
