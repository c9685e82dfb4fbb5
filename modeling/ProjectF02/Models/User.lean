import ProjectF02.Swift.Value
import Mathlib.Data.Rat.Floor

/-! `User` and its dictionary form. -/

set_option autoImplicit false

namespace ProjectF02
open Swift

variable {Double : Type}

structure User (Double : Type) where
  uid : Option String
  adress : Option String
  email : Option String
  firstName : Option String
  lastName : Option String
  birthday : Option Double
  gender : Bool
  description : Option String
  friendList : Dict Double
  isAvailable : Bool
  phone : Option String

namespace User

variable [Ring Double] [LinearOrder Double] [FloorRing Double]

/-- `init(_:)`: a missing or mistyped field keeps its default. -/
def init (dict : Dict Double) : User Double where
  uid := some (((dict.lookup "uid").bind Value.asString).getD "")
  adress := some (((dict.lookup "adress").bind Value.asString).getD "")
  email := some (((dict.lookup "email").bind Value.asString).getD "")
  firstName := some (((dict.lookup "firstName").bind Value.asString).getD "")
  lastName := some (((dict.lookup "lastName").bind Value.asString).getD "")
  -- No key is read for it: the default of the declaration stays.
  birthday := some 0
  gender := match (dict.lookup "gender").bind Value.asInt with
    | some gender => if gender = 1 then false else true
    | none => true
  description := some (((dict.lookup "description").bind Value.asString).getD "")
  friendList := ((dict.lookup "friendlist").bind Value.asDict).getD ∅
  isAvailable := match (dict.lookup "isAvailable").bind Value.asInt with
    | some isAvailable => if isAvailable = 1 then false else true
    | none => false
  phone := some (((dict.lookup "phone").bind Value.asString).getD "")

def toDict (user : User Double) : Dict Double :=
  (∅ : Dict Double)
    |>.set "uid" (user.uid.map .string)
    |>.set "firstName" (user.firstName.map .string)
    |>.set "lastName" (user.lastName.map .string)
    |>.set "gender" (some (.int (if user.gender then 0 else 1)))
    |>.set "description" (user.description.map .string)
    |>.set "friendlist" (some (.ofDict user.friendList))
    |>.set "phone" (user.phone.map .string)
    |>.set "email" (user.email.map .string)
    |>.set "adress" (user.adress.map .string)
    |>.set "isAvailable" (some (.int (if user.isAvailable then 0 else 1)))

structure Complete (user : User Double) : Prop where
  uid : user.uid.isSome
  adress : user.adress.isSome
  email : user.email.isSome
  firstName : user.firstName.isSome
  lastName : user.lastName.isSome
  birthday : user.birthday.isSome
  description : user.description.isSome
  phone : user.phone.isSome

/-- What decoding keeps of an encoded user: every property but the birthday. -/
theorem init_toDict (user : User Double) (complete : user.Complete) :
    init user.toDict = { user with birthday := some 0 } := by
  obtain ⟨uid, adress, email, firstName, lastName, birthday, gender, description, friendList,
    isAvailable, phone⟩ := user
  obtain ⟨hasUid, hasAdress, hasEmail, hasFirst, hasLast, -, hasDescription, hasPhone⟩ := complete
  obtain ⟨uid, rfl⟩ := Option.isSome_iff_exists.mp hasUid
  obtain ⟨adress, rfl⟩ := Option.isSome_iff_exists.mp hasAdress
  obtain ⟨email, rfl⟩ := Option.isSome_iff_exists.mp hasEmail
  obtain ⟨firstName, rfl⟩ := Option.isSome_iff_exists.mp hasFirst
  obtain ⟨lastName, rfl⟩ := Option.isSome_iff_exists.mp hasLast
  obtain ⟨description, rfl⟩ := Option.isSome_iff_exists.mp hasDescription
  obtain ⟨phone, rfl⟩ := Option.isSome_iff_exists.mp hasPhone
  cases gender <;> cases isAvailable <;> simp [init, toDict, Value.asString, Value.asInt]

/-- The two opposite 0/1 encodings of the gender cancel out, complete or not. -/
theorem gender_init_toDict (user : User Double) : (init user.toDict).gender = user.gender := by
  cases shown : user.gender <;> simp [init, toDict, Value.asInt, shown]

theorem init_toDict_eq_iff (user : User Double) (complete : user.Complete) :
    init user.toDict = user ↔ user.birthday = some 0 := by
  rw [init_toDict user complete]
  constructor
  · exact fun same => (congrArg birthday same).symm
  · intro unset
    rw [← unset]

/-- A user as the sign-up screen fills one in. -/
def registered (birthday : Double) : User Double where
  uid := some "u1"
  adress := some ""
  email := some ""
  firstName := some "An"
  lastName := some "Le"
  birthday := some birthday
  gender := true
  description := some ""
  friendList := ∅
  isAvailable := false
  phone := some "+84912"

omit [Ring Double] [LinearOrder Double] [FloorRing Double] in
theorem registered_complete (birthday : Double) : (registered birthday).Complete := by
  constructor <;> rfl

theorem init_toDict_registered_unset :
    init (registered (0 : ℚ)).toDict = registered 0 :=
  (init_toDict_eq_iff (registered 0) (registered_complete 0)).mpr rfl

theorem birthday_lost : (registered (86400 : ℚ)).Complete ∧
    (init (registered (86400 : ℚ)).toDict).birthday ≠ (registered (86400 : ℚ)).birthday := by
  refine ⟨registered_complete _, ?_⟩
  rw [init_toDict _ (registered_complete _)]
  simp [registered]

end User

end ProjectF02
