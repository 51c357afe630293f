/-!
# Errors

Three causes end a derivation without a value.

* A `Violation` is a defect in a builder or in the way a pass was driven. It names the key
  at fault by its text.
* A `Failure` is the domain's own error, raised by a builder. It has an identity:
  two failures with one message are still two failures, and a replayed failure is the one
  that was remembered.
* A conflict is a pass that could not be reconciled with what others published.

`Violation.message` and `RequestError.message` are the texts shown to a reader.
-/

namespace DerivationCache

/-- The identity of a failure. Counted failures are numbered from one in the order in which
they were raised; the others are told apart but carry no number of their own. -/
inductive FailureId where
  | counted (number : Nat)
  | uncounted (serial : Nat)
  deriving DecidableEq

/-- The number a failure is reported under, zero if it was not counted. -/
def FailureId.number : FailureId → Nat
  | .counted n => n
  | .uncounted _ => 0

/-- A domain error raised by a builder. -/
structure Failure where
  id : FailureId
  message : String
  deriving DecidableEq

/-- A violated rule of the engine. -/
inductive Violation where
  /-- A commit was attempted while a key's builder had not returned. -/
  | pendingAtCommit (key : String)
  /-- A commit was attempted while a placeholder issued for a key had no value. -/
  | unresolvedPlaceholder (key : String)
  /-- A key was requested while it was being derived, with nothing to stand in for it. -/
  | unresolvableReentry (key : String)
  /-- A value has to be derived, and the cache has no builder. -/
  | readOnlyCache (key : String)
  /-- The key lies outside the namespace of the cache. -/
  | foreignKey (key : String)
  /-- A context without a parent cache was committed. -/
  | detachedCommit
  /-- A placeholder was read before it had a value. -/
  | placeholderUnresolved
  /-- No value is recorded for the key. -/
  | keyNotFound (key : String)
  /-- A different value was given for a key that has one. -/
  | duplicateKey (key : String)
  deriving DecidableEq

/-- What a request for a derived value can fail with. -/
inductive RequestError where
  | violation (violation : Violation)
  | failure (failure : Failure)
  /-- Every attempt to publish the pass of this key conflicted with published values. -/
  | conflict (key : String)
  deriving DecidableEq

namespace Violation

/-- The text shown to a reader. -/
def message : Violation → String
  | pendingAtCommit key => "cannot commit generation pass: key " ++ key ++ " is still pending"
  | unresolvedPlaceholder key =>
    "cannot commit generation pass: placeholder for key " ++ key ++ " was never resolved"
  | unresolvableReentry key =>
    "re-entrant request for pending key " ++ key ++ " with no placeholder factory"
  | readOnlyCache key =>
    "cache is read-only: no builder factory configured to derive key " ++ key
  | foreignKey key => "key " ++ key ++ " does not belong to this cache's namespace"
  | detachedCommit => "generation context has no parent cache to commit into"
  | placeholderUnresolved => "placeholder has not been resolved yet"
  | keyNotFound key => "no value recorded for key " ++ key
  | duplicateKey key => "a different value is already recorded for key " ++ key

end Violation

namespace RequestError

/-- The text shown to a reader. -/
def message : RequestError → String
  | violation e => e.message
  | failure f => "derivation failed: " ++ f.message
  | conflict key => "generation pass for key " ++ key ++ " conflicts with published entries"

/-- The violated rule, if that is the cause. -/
def violation? : RequestError → Option Violation
  | violation e => some e
  | _ => none

/-- The domain failure, if that is the cause. -/
def failure? : RequestError → Option Failure
  | failure f => some f
  | _ => none

/-- Whether both errors are one and the same failure, not merely two with one message. -/
def sameFailure : RequestError → RequestError → Bool
  | failure f, failure g => f.id == g.id
  | _, _ => false

end RequestError

end DerivationCache
