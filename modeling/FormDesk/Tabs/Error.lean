/-
Why an operation on the pages of an editor fails (`PageError`), and the wording of
each reason.
-/
namespace FormDesk

/-- Why an operation on pages fails. -/
inductive PageError where
  | unknownPage (id : String)
  | outOfRange (index count : Nat)
  | duplicatePage (id : String)
  /-- The editor has its pages already. -/
  | alreadyOpen
  /-- The memory of active pages took no entry for `key`. -/
  | readOnlyMemory (key : String)
  deriving DecidableEq, Repr

/-- The wording of a failure with pages. -/
def PageError.message : PageError → String
  | .unknownPage id => "unknown page id: " ++ id
  | .outOfRange index count =>
    "page index " ++ toString index ++ " out of range (" ++ toString count ++ " pages)"
  | .duplicatePage id => "duplicate page id: " ++ id
  | .alreadyOpen => "editor pages already created"
  | .readOnlyMemory key => "page memory unavailable: cannot store " ++ key ++ ": read-only"

end FormDesk
