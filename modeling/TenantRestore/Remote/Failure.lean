/-
# Failures of collaborators

A restore depends on others: the remote service, the collections it reads, whoever handles a
container.  It does not interpret their failures.  A failure has a cause, and everyone it
passes may wrap it into a context; what is shown is the outermost text.
-/

namespace TenantRestore

/-- A failure of a collaborator. -/
inductive Failure
  /-- A failure described by a text. -/
  | because (text : String)
  /-- The link of an enumeration is no longer valid. -/
  | expiredLink
  /-- A failure within a context. -/
  | within (context : String) (cause : Failure)
deriving DecidableEq, Repr

namespace Failure

/-- What is shown of a failure: its outermost text. -/
def message : Failure → String
  | .because text => text
  | .expiredLink => "the delta token is invalid or expired"
  | .within context _ => context

/-- Whether an expired link is the cause of a failure, at any depth. -/
def isExpiredLink : Failure → Bool
  | .because _ => false
  | .expiredLink => true
  | .within _ cause => cause.isExpiredLink

end Failure

end TenantRestore
