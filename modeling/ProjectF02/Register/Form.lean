import ProjectF02.Register.RegisterViewController

/-! What the form shows and what is registered.

The two names always agree. The e-mail is never copied to the record, the birthday
and the gender keep the values they had when the screen was created, and the dial
code is empty until a country is picked.
-/

set_option autoImplicit false

namespace ProjectF02
open Swift Firebase

variable {Double : Type}

namespace FormAction

def picksCountry : FormAction Double → Bool
  | .codeSelected _ => true
  | _ => false

end FormAction

namespace RegisterViewController

def femaleHighlighted (vc : RegisterViewController Double) : Prop :=
  vc.female.backgroundColor = highlight

def maleHighlighted (vc : RegisterViewController Double) : Prop :=
  vc.male.backgroundColor = highlight

/-- What holds of every form, given whether a country was picked on it. -/
structure Consistent (created : Date Double) (picked : Bool) (vc : RegisterViewController Double) :
    Prop where
  firstName : vc.firstNameTextfield.isSome
  lastname : vc.lastnameTextfield.isSome
  phone : vc.phoneTextfield.isSome
  gender : vc.femaleHighlighted ↔ ¬ vc.maleHighlighted
  isFemale : vc.isFemale = true
  birthday : vc.birthday = created
  dialCode : vc.dialCodeLabel = some (if picked then vc.dialCode else "+84")
  unpicked : picked = false → vc.dialCode = ""

theorem consistent_initial (getDateString : Date Double → String) (created loaded : Date Double) :
    Consistent created false (initial getDateString created loaded) where
  firstName := rfl
  lastname := rfl
  phone := rfl
  gender := (by decide : highlight = highlight ↔ ¬ UIColor.white = highlight)
  isFemale := rfl
  birthday := rfl
  dialCode := rfl
  unpicked _ := rfl

theorem Consistent.or_false {created : Date Double} {picked : Bool} {vc : RegisterViewController Double}
    (consistent : Consistent created picked vc) : Consistent created (picked || false) vc := by
  rw [Bool.or_false]
  exact consistent

theorem consistent_act (getDateString : Date Double → String) {created : Date Double} {picked : Bool}
    {vc : RegisterViewController Double} (consistent : Consistent created picked vc)
    (action : FormAction Double) :
    Consistent created (picked || action.picksCountry) (vc.act getDateString action) := by
  obtain ⟨firstName, lastname, phone, gender, isFemale, birthday, dialCode, unpicked⟩ := consistent
  cases action with
  | firstName text =>
    exact .or_false ⟨rfl, lastname, phone, gender, isFemale, birthday, dialCode, unpicked⟩
  | lastname text =>
    exact .or_false ⟨firstName, rfl, phone, gender, isFemale, birthday, dialCode, unpicked⟩
  | phone text =>
    exact .or_false ⟨firstName, lastname, rfl, gender, isFemale, birthday, dialCode, unpicked⟩
  | email text =>
    exact .or_false ⟨firstName, lastname, phone, gender, isFemale, birthday, dialCode, unpicked⟩
  | password text =>
    exact .or_false ⟨firstName, lastname, phone, gender, isFemale, birthday, dialCode, unpicked⟩
  | femaleViewTap =>
    have tapped : highlight = highlight ↔ ¬ UIColor.white = highlight := by decide
    exact .or_false ⟨firstName, lastname, phone, tapped, isFemale, birthday, dialCode, unpicked⟩
  | maleViewTap =>
    have tapped : UIColor.white = highlight ↔ ¬ highlight = highlight := by decide
    exact .or_false ⟨firstName, lastname, phone, tapped, isFemale, birthday, dialCode, unpicked⟩
  | doneCallBack date =>
    exact .or_false ⟨firstName, lastname, phone, gender, isFemale, birthday, dialCode, unpicked⟩
  | codeSelected code =>
    have selected : (picked || true) = true := Bool.or_true picked
    refine ⟨firstName, lastname, phone, gender, isFemale, birthday, ?_, ?_⟩
    · rw [FormAction.picksCountry, selected]
      rfl
    · intro none
      rw [FormAction.picksCountry, selected] at none
      cases none

theorem consistent_perform (getDateString : Date Double → String) {created : Date Double}
    {picked : Bool} {vc : RegisterViewController Double} (consistent : Consistent created picked vc)
    (actions : List (FormAction Double)) :
    Consistent created (picked || actions.any FormAction.picksCountry)
      (vc.perform getDateString actions) := by
  induction actions generalizing vc picked with
  | nil => exact consistent.or_false
  | cons action rest ih =>
    have later := ih (consistent_act getDateString consistent action)
    rw [List.any_cons, ← Bool.or_assoc]
    exact later

theorem email_of_signUp {signUpNewUser : String → String → AuthResult}
    {vc : RegisterViewController Double} {uid : String}
    (success : vc.signUp signUpNewUser = some (.user uid)) : vc.emailTextfield ≠ some "" := by
  intro blank
  unfold signUp at success
  rw [blank] at success
  cases entered : vc.passwordTextfield with
  | none =>
    rw [entered] at success
    cases success
  | some password =>
    rw [entered] at success
    exact email_of_createUser (Option.some.inj success) rfl

section Numbers
variable [Ring Double] [LinearOrder Double] [FloorRing Double]

/-- The gender the profile page shows for a user stored and read back. -/
def shownGender (user : User Double) : String :=
  (fillUserinfomation (some (User.init user.toDict))).labelgender

structure Agrees (getDateString : Date Double → String) (vc : RegisterViewController Double)
    (user : User Double) : Prop where
  firstName : user.firstName = vc.firstNameTextfield
  lastName : user.lastName = vc.lastnameTextfield
  email : user.email = vc.emailTextfield
  phone : user.phone = some (vc.dialCodeLabel.getD "" ++ vc.phoneTextfield.getD "")
  birthday : user.birthday.map (fun seconds => getDateString ⟨seconds⟩) = vc.birthdayTextfield
  female : shownGender user = "Nữ" ↔ vc.femaleHighlighted
  male : shownGender user = "Nam" ↔ vc.maleHighlighted

/-- The birthday that is registered is the one the screen was created with. -/
theorem birthday_of_consistent (getDateString : Date Double → String) {created : Date Double} {picked : Bool}
    {vc : RegisterViewController Double} (consistent : Consistent created picked vc) (uid : String) :
    (vc.userInfo uid).birthday.map (fun seconds => getDateString ⟨seconds⟩) =
      some (getDateString created) := by
  rw [← consistent.birthday]
  rfl

theorem shownGender_of_consistent {created : Date Double} {picked : Bool}
    {vc : RegisterViewController Double} (consistent : Consistent created picked vc) (uid : String) :
    shownGender (vc.userInfo uid) = "Nam" := by
  have same : (User.init (vc.userInfo uid).toDict).gender = true :=
    (User.gender_init_toDict _).trans consistent.isFemale
  unfold shownGender fillUserinfomation
  rw [Option.map_some, same, if_pos rfl]

/-- Without a pick the label shows a code that the property does not hold. -/
theorem phone_agrees_iff {created : Date Double} {picked : Bool} {vc : RegisterViewController Double}
    (consistent : Consistent created picked vc) (uid : String) :
    (vc.userInfo uid).phone = some (vc.dialCodeLabel.getD "" ++ vc.phoneTextfield.getD "") ↔
      picked = true := by
  obtain ⟨number, phone⟩ := Option.isSome_iff_exists.mp consistent.phone
  have called : (vc.userInfo uid).phone = some (vc.dialCode ++ number) := by
    unfold userInfo
    rw [phone]
    rfl
  rw [called, phone, consistent.dialCode]
  cases picked with
  | true => exact iff_of_true rfl rfl
  | false =>
    refine iff_of_false (fun agrees => ?_) Bool.false_ne_true
    have same := Option.some.inj agrees
    rw [consistent.unpicked rfl] at same
    exact absurd ((String.append_left_inj number).mp same) (by decide)

theorem agrees_consistent (getDateString : Date Double → String) {created : Date Double} {picked : Bool}
    {vc : RegisterViewController Double} (consistent : Consistent created picked vc) (uid : String) :
    Agrees getDateString vc (vc.userInfo uid) ↔
      vc.emailTextfield = some "" ∧ picked = true ∧
        vc.birthdayTextfield = some (getDateString created) ∧ vc.maleHighlighted := by
  obtain ⟨first, firstName⟩ := Option.isSome_iff_exists.mp consistent.firstName
  obtain ⟨last, lastname⟩ := Option.isSome_iff_exists.mp consistent.lastname
  have email : (vc.userInfo uid).email = some "" := rfl
  have born := birthday_of_consistent getDateString consistent uid
  have called := phone_agrees_iff consistent uid
  have shown := shownGender_of_consistent consistent uid
  constructor
  · intro agrees
    exact ⟨agrees.email.symm.trans email, called.mp agrees.phone, agrees.birthday.symm.trans born,
      agrees.male.mp shown⟩
  · rintro ⟨typed, hasCode, shownDate, male⟩
    constructor
    · unfold userInfo
      rw [firstName]
      rfl
    · unfold userInfo
      rw [lastname]
      rfl
    · rw [email, typed]
    · exact called.mpr hasCode
    · rw [born, shownDate]
    · rw [shown, consistent.gender]
      simp [male]
    · simp [shown, male]

/-- The record of a sign-up agrees with the form exactly if the e-mail field was emptied while
the account was being created, a country was picked, the birthday reads as the day the screen was
created, and the male view is highlighted. Without an edit in between it never agrees. -/
theorem agrees_iff (getDateString : Date Double → String) (created loaded : Date Double)
    (actions edits : List (FormAction Double)) (signUpNewUser : String → String → AuthResult)
    (uid : String)
    (success : ((initial getDateString created loaded).perform getDateString actions).signUp
      signUpNewUser = some (.user uid)) :
    let vc := (initial getDateString created loaded).perform getDateString (actions ++ edits)
    (Agrees getDateString vc (vc.userInfo uid) ↔
      vc.emailTextfield = some "" ∧ (actions ++ edits).any FormAction.picksCountry = true ∧
        vc.birthdayTextfield = some (getDateString created) ∧ vc.maleHighlighted) ∧
    (edits = [] → ¬ Agrees getDateString vc (vc.userInfo uid)) := by
  intro vc
  have fields := agrees_consistent getDateString (consistent_perform getDateString
    (consistent_initial getDateString created loaded) (actions ++ edits)) uid
  refine ⟨fields, ?_⟩
  rintro rfl agrees
  have blank := (fields.mp agrees).1
  rw [List.append_nil] at blank
  exact email_of_signUp success blank

end Numbers

def october (_ : Date ℚ) : String := "Oct 11, 2018"

def accepting (_ _ : String) : AuthResult := .user "u1"

def answers : List (FormAction ℚ) :=
  [.firstName "An", .email "an@example.com", .password "secret", .maleViewTap]

def lateEdits : List (FormAction ℚ) := [.email "", .codeSelected ⟨"Vietnam", "+84", "VN"⟩]

def form : RegisterViewController ℚ := (initial october ⟨0⟩ ⟨0⟩).perform october answers

def editedForm : RegisterViewController ℚ :=
  (initial october ⟨0⟩ ⟨0⟩).perform october (answers ++ lateEdits)

theorem agrees_iff_answers : ¬ Agrees october form (form.userInfo "u1") ∧
    Agrees october editedForm (editedForm.userInfo "u1") :=
  ⟨(agrees_iff october ⟨0⟩ ⟨0⟩ answers [] accepting "u1" rfl).2 rfl,
    (agrees_iff october ⟨0⟩ ⟨0⟩ answers lateEdits accepting "u1" rfl).1.mpr ⟨rfl, rfl, rfl, rfl⟩⟩

/-- The registered e-mail is empty, although one was typed and accepted. -/
theorem email_not_registered : form.signUp accepting = some (.user "u1") ∧
    form.emailTextfield = some "an@example.com" ∧ (form.userInfo "u1").email = some "" ∧
      ¬ Agrees october form (form.userInfo "u1") := by
  refine ⟨rfl, rfl, rfl, fun agrees => ?_⟩
  have same : some "" = some "an@example.com" := agrees.email
  exact absurd same (by decide)

end RegisterViewController

end ProjectF02
