/-! The calls of Firebase Auth that the screens make, up to the backend.

The backend is a parameter. What `FIRAuth` checks before it asks the backend, and
what it can hand to a completion handler, is transcribed.
-/

set_option autoImplicit false

namespace ProjectF02.Firebase

/-- What a completion handler receives: an error, neither an error nor a user, or a user. -/
inductive AuthResult where
  | error
  | noUser
  | user (uid : String)
  deriving DecidableEq, Repr

/-- `internalCreateUserWithEmail:`, which sends no request without a password or an e-mail. -/
def createUser (signUpNewUser : String → String → AuthResult) (email password : String) :
    AuthResult :=
  if password = "" then .error
  else if email = "" then .error
  else signUpNewUser email password

theorem email_of_createUser {signUpNewUser : String → String → AuthResult} {email password uid : String}
    (created : createUser signUpNewUser email password = .user uid) : email ≠ "" := by
  unfold createUser at created
  split at created
  · cases created
  · split at created
    · cases created
    · assumption

end ProjectF02.Firebase
