import ProjectF02.Models.User
import ProjectF02.Firebase.Auth

/-! The sign-up form and the profile page that shows what was signed up.

The screen keeps most answers twice, in a widget and in a property of its own, and
its callbacks update one of the two, or both. `getDateString` is the date
formatter.
-/

set_option autoImplicit false

namespace ProjectF02
open Swift Firebase

variable {Double : Type}

inductive UIColor where
  | white
  | hexStringToUIColor (hex : String)
  | nib
  deriving DecidableEq, Repr

structure GenderView where
  backgroundColor : UIColor
  imgBackgroundColor : UIColor := .nib
  imgTintColor : UIColor := .nib
  textColor : UIColor := .nib

structure CountryDialCode where
  name : String
  dial_code : String
  name_code : String

structure RegisterViewController (Double : Type) where
  firstNameTextfield : Option String := some ""
  lastnameTextfield : Option String := some ""
  phoneTextfield : Option String := some ""
  emailTextfield : Option String := some ""
  passwordTextfield : Option String := some ""
  countryText : Option String := some "VN"
  dialCodeLabel : Option String := some "+84"
  birthdayTextfield : Option String := some "September 3, 2018"
  female : GenderView := { backgroundColor := .white }
  male : GenderView := { backgroundColor := .white }
  isFemale : Bool := true
  birthday : Date Double
  dialCode : String := ""

/-- What the user can do on the form, and what its two pickers call back with. -/
inductive FormAction (Double : Type) where
  | firstName (text : String)
  | lastname (text : String)
  | phone (text : String)
  | email (text : String)
  | password (text : String)
  | femaleViewTap
  | maleViewTap
  | doneCallBack (date : Date Double)
  | codeSelected (code : CountryDialCode)

namespace RegisterViewController

def highlight : UIColor := .hexStringToUIColor "#4267B2"

def configGenderView (vc : RegisterViewController Double) : RegisterViewController Double :=
  { vc with
    female := { vc.female with
      imgBackgroundColor := .white, backgroundColor := highlight, textColor := .white }
    male := { vc.male with imgBackgroundColor := .white } }

def viewDidLoad (getDateString : Date Double → String) (vc : RegisterViewController Double)
    (now : Date Double) : RegisterViewController Double :=
  { vc.configGenderView with birthdayTextfield := some (getDateString now) }

def handleFemaleViewTap (vc : RegisterViewController Double) : RegisterViewController Double :=
  { vc with
    female := { vc.female with
      imgBackgroundColor := .white, textColor := .white, backgroundColor := highlight }
    male := {
      imgBackgroundColor := .white, imgTintColor := highlight, textColor := highlight
      backgroundColor := .white } }

def handleMaleViewTap (vc : RegisterViewController Double) : RegisterViewController Double :=
  { vc with
    male := { vc.male with
      backgroundColor := highlight, imgBackgroundColor := .white, textColor := .white }
    female := {
      backgroundColor := .white, imgBackgroundColor := .white, imgTintColor := highlight
      textColor := highlight } }

def act (getDateString : Date Double → String) (vc : RegisterViewController Double) :
    FormAction Double → RegisterViewController Double
  | .firstName text => { vc with firstNameTextfield := some text }
  | .lastname text => { vc with lastnameTextfield := some text }
  | .phone text => { vc with phoneTextfield := some text }
  | .email text => { vc with emailTextfield := some text }
  | .password text => { vc with passwordTextfield := some text }
  | .femaleViewTap => vc.handleFemaleViewTap
  | .maleViewTap => vc.handleMaleViewTap
  -- The label alone: the property `birthday` stays.
  | .doneCallBack date => { vc with birthdayTextfield := some (getDateString date) }
  | .codeSelected code =>
      { vc with
        countryText := some code.name_code
        dialCodeLabel := some code.dial_code
        dialCode := code.dial_code }

def perform (getDateString : Date Double → String) (vc : RegisterViewController Double)
    (actions : List (FormAction Double)) : RegisterViewController Double :=
  actions.foldl (act getDateString) vc

/-- The screen created at one moment and loaded at another. -/
def initial (getDateString : Date Double → String) (created loaded : Date Double) :
    RegisterViewController Double :=
  viewDidLoad getDateString { birthday := created } loaded

/-- What `createUser` hands back to the completion handler; `none` when a guard returns first. -/
def signUp (signUpNewUser : String → String → AuthResult) (vc : RegisterViewController Double) :
    Option AuthResult := do
  let email ← vc.emailTextfield
  let password ← vc.passwordTextfield
  return createUser signUpNewUser email password

section Numbers
variable [Ring Double] [LinearOrder Double] [FloorRing Double]

def userInfo (vc : RegisterViewController Double) (uid : String) : User Double :=
  let userInfo := User.init (∅ : Dict Double)
  -- The e-mail field is not among the properties assigned.
  { userInfo with
    uid := some uid
    firstName := vc.firstNameTextfield.or userInfo.firstName
    lastName := vc.lastnameTextfield.or userInfo.lastName
    phone := (vc.phoneTextfield.map fun phone => vc.dialCode ++ phone).or userInfo.phone
    birthday := some vc.birthday.timeIntervalSince1970
    gender := vc.isFemale
    description := some ""
    friendList := ∅ }

end Numbers

end RegisterViewController

structure DescriptionViewController where
  labelname : String
  labelbirthday : String
  labeladress : String
  labelemail : String
  labelphonenumber : String
  labelgender : String
  labelortherinfor : String

def fillUserinfomation (userdescription : Option (User Double)) : DescriptionViewController where
  labelname := ((userdescription.bind User.firstName).getD "chưa có") ++ " " ++
    ((userdescription.bind User.lastName).getD "")
  labelbirthday := "chưa có"
  labeladress := (userdescription.bind User.adress).getD "chưa có"
  labelemail := (userdescription.bind User.email).getD "chưa có"
  labelphonenumber := (userdescription.bind User.phone).getD "chưa có"
  labelgender := if userdescription.map User.gender = some true then "Nam" else "Nữ"
  labelortherinfor := (userdescription.bind User.description).getD "chưa có"

end ProjectF02
