import Sift.Error.Query
import Sift.Number.Arithmetic

/-!
# Faults

Why an operation has no result. Request errors are answered by an endpoint; all other faults are mistakes in the
configuration, in the data or in a storage, and are passed on.
-/

namespace Sift

/-- A value with which nothing can be configured or computed. -/
inductive BadValue where
  | mismatch (reason : Mismatch)
  | columnType (v : Value)
  | operatorKind (v : Value)
  /-- Only a direct relation can be flattened. -/
  | indirectFlattening (label : Value)
  | tooManyItems (expected : Nat)
  | tooFewItems (expected got : Nat)
  /-- "Not a number" where an integer is asked for. -/
  | noInteger (decimal : Bool)
  /-- An item of what should be a list of pairs has another length. -/
  | unpaired (index length : Nat)
  /-- An integer with more digits than can be written. -/
  | tooManyDigits

namespace BadValue

def message : BadValue → String
  | .mismatch reason => reason.message
  | .columnType v => v.literal ++ " is not a valid ColumnType"
  | .operatorKind v => v.literal ++ " is not a valid OperatorKind"
  | .indirectFlattening label => "Flattening only works with a direct relation; got " ++ label.literal
  | .tooManyItems expected => "too many values to unpack (expected " ++ toString expected ++ ")"
  | .tooFewItems expected got =>
    "not enough values to unpack (expected " ++ toString expected ++ ", got " ++ toString got ++ ")"
  | .noInteger decimal => "cannot convert " ++ (if decimal then "" else "float ") ++ "NaN to integer"
  | .unpaired index length =>
    "dictionary update sequence element #" ++ toString index ++ " has length " ++ toString length ++ "; 2 is required"
  | .tooManyDigits =>
    "Exceeds the limit (4300 digits) for integer string conversion; " ++
      "use sys.set_int_max_str_digits() to increase the limit"

end BadValue

/-- Why an operation has no result. -/
inductive Fault where
  | query (error : QueryError)
  | badValue (fault : BadValue)
  /-- A plan was given to an executor a second time. -/
  | planSpent
  /-- An entity, or an entry of a configuration, is missing. -/
  | missingKey
  /-- A value has a kind with which the operation cannot be done. -/
  | wrongKind
  /-- A value or a model has no such member. -/
  | noMember
  | outOfRange
  /-- A configured size is not positive. -/
  | brokenPremise
  /-- A number is too large for what it is used for. -/
  | overflow
  | unsupported
  /-- The store cannot compare a column with such a value. -/
  | uncomparable
  /-- A column cannot take such a value. -/
  | unfitting
  /-- The store has no such kind of value. -/
  | unstorable
  /-- A key of a row is missing, or another row has it. -/
  | brokenKey
  /-- A stored word is not one of those that its column allows. -/
  | unknownWord
  /-- A decimal number that refuses to be compared. -/
  | undecided
  /-- A decimal number beyond the largest power of ten. -/
  | unbounded
  /-- The stack has no frame left: to go on with a request, or to show a value in the wording of an error. -/
  | exhausted (showing : Bool)
  /-- A storage failed in a way of its own. -/
  | storage (name message : String)

namespace Fault

/-- The fault of asking for a column of a storage or a schema by a value that does not fit. -/
def ofMismatch : Mismatch → Fault
  | .infiniteNumber => .overflow
  | .undecidedNumber => .undecided
  | reason => .badValue (.mismatch reason)

/-- The wording that a lookup error repeats. -/
def message : Fault → String
  | .query error => error.message
  | .badValue fault => fault.message
  | .planSpent => "This ExecutionPlan has already been executed. Compile a new one."
  | .exhausted showing =>
    "maximum recursion depth exceeded" ++ if showing then " while getting the repr of an object" else ""
  | .storage _ message => message
  | _ => ""

def ofArithmetic : ArithmeticFault → Fault
  | .tooLarge => .overflow
  | .noInteger decimal => .badValue (.noInteger decimal)
  | .undefined => .undecided
  | .mixed => .wrongKind
  | .unbounded => .unbounded

def malformed (m : Malformation) : Fault := .query (.malformedSpec m)

end Fault

end Sift
