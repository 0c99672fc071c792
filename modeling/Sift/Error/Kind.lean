/-!
# Kinds of request errors

The kinds form a tree: everything under *validation* is the fault of a request and is answered as a bad request,
everything else is answered as an internal error. The answer never says more than that.
-/

namespace Sift

inductive ErrorKind where
  | general
  | validation
  | malformedSpec
  | unknownField
  | unknownRelation
  | unknownOperator
  | typeMismatch
  | policyViolation
  | infrastructure
  | lookupFailed
  deriving DecidableEq, Repr

namespace ErrorKind

def all : List ErrorKind :=
  [.general, .validation, .malformedSpec, .unknownField, .unknownRelation, .unknownOperator, .typeMismatch,
    .policyViolation, .infrastructure, .lookupFailed]

/-- The kinds a kind belongs to, from itself up to the most general one. -/
def lineage : ErrorKind → List ErrorKind
  | .general => [.general]
  | .validation => [.validation, .general]
  | .unknownRelation => [.unknownRelation, .unknownField, .validation, .general]
  | .infrastructure => [.infrastructure, .general]
  | .lookupFailed => [.lookupFailed, .infrastructure, .general]
  | kind => [kind, .validation, .general]

/-- Is a request at fault? -/
def isValidation (kind : ErrorKind) : Bool :=
  kind.lineage.contains .validation

def status (kind : ErrorKind) : Nat :=
  if kind.isValidation then 400 else 500

/-- All that the sender of a request is told. -/
def publicMessage (kind : ErrorKind) : String :=
  if kind.isValidation then "Bad request" else "Internal server error"

end ErrorKind

end Sift
