import ProjectF02.Firebase.Repo

/-! What the client shows: data of the server under the writes that are pending.

Transcribed from the calculations of `FWriteTree`. They are given the server
data of one path at a time; together they show one database, the server's with
the visible writes applied to it.
-/

set_option autoImplicit false

namespace ProjectF02.Firebase
open Store Transition

variable {Key Double : Type} [NodeKey Key]

namespace FWriteTree

end FWriteTree

namespace FCompoundWrite

end FCompoundWrite

namespace FWriteTree

end FWriteTree

/-! ## The leaves that are shown -/

namespace Node

end Node

namespace FRepo

end FRepo

end ProjectF02.Firebase
