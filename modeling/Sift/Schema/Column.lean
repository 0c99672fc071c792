/-!
# Column types

What a column holds, as far as a request can be checked against it.
-/

namespace Sift

inductive ColumnType where
  | integer
  | decimal
  | boolean
  | date
  | datetime
  | text
  /-- Anything else: no value is refused but lists and objects. -/
  | other
  deriving DecidableEq, Repr

namespace ColumnType

def all : List ColumnType := [.integer, .decimal, .boolean, .date, .datetime, .text, .other]

def name : ColumnType → String
  | .integer => "integer"
  | .decimal => "decimal"
  | .boolean => "boolean"
  | .date => "date"
  | .datetime => "datetime"
  | .text => "text"
  | .other => "other"

def ofName? (s : String) : Option ColumnType :=
  all.find? (·.name = s)

/-- The type under which the values of a storage type are checked. A storage type that wraps another one counts as
the one it wraps. -/
def ofStorage? (s : String) : Option ColumnType :=
  if ["Boolean", "BOOLEAN", "MatchType"].contains s then some .boolean
  else if ["Integer", "SmallInteger", "BigInteger", "INTEGER", "INT", "SMALLINT", "BIGINT"].contains s then
    some .integer
  else if ["Numeric", "Float", "Double", "NUMERIC", "DECIMAL", "FLOAT", "REAL", "DOUBLE", "DOUBLE_PRECISION"].contains s
  then some .decimal
  else if ["DateTime", "DATETIME", "TIMESTAMP", "Interval"].contains s then some .datetime
  else if ["Date", "DATE"].contains s then some .date
  else if ["String", "Text", "Unicode", "UnicodeText", "Enum", "Trimmed", "VARCHAR", "NVARCHAR", "CHAR", "NCHAR",
      "TEXT", "CLOB"].contains s then some .text
  else if ["Time", "TIME", "JSON", "LargeBinary", "BLOB", "BINARY", "VARBINARY", "Uuid", "UUID", "PickleType", "ARRAY",
      "NullType", "TupleType", "SchemaType", "TypeEngine"].contains s then some .other
  else none

end ColumnType

end Sift
