import Sift.Error.Fault
import Sift.Sorting

/-!
# What values are made of

Configurations and rows come in more than one form: a list of names may be any value that has elements, and a table may
be given as an object or as a list of pairs.
-/

namespace Sift

namespace Value

/-- The elements of a value: the items of an array, the keys of an object, the characters of a text. Nothing else has
any. -/
def elements : Value → Except Fault (List Value)
  | .list items | .tuple items => .ok items
  | .mapping entity key exposed => .ok [entity, key, exposed]
  | .object entries => .ok (Table.keys entries)
  | .text s => .ok (s.toList.map fun c => .text c.toString)
  | _ => .error .wrongKind

/-- The elements of a value that may be left out; what counts as false has none. -/
def elementsOrNone (v : Value) : Except Fault (List Value) :=
  if v.truthy then v.elements else .ok []

/-- A value that has to be a key. -/
def requireKey (v : Value) : Except Fault Value :=
  if v.isKey then .ok v else .error .wrongKind

theorem requireKey_text (s : String) : (text s).requireKey = .ok (.text s) := rfl

/-- The first of two values that counts as true, or the second. -/
def either (v w : Value) : Value := if v.truthy then v else w

/-- Is the first key to stand before the second? Only texts and numbers have an order. -/
def before? (v w : Value) : Option Bool :=
  match v, w with
  | .text s, .text t => some (s < t)
  | v, w =>
    match v.size?, w.size? with
    | some a, some b => some (a.before b)
    | _, _ => none

/-- Keys in order. Keys of kinds that have no common order cannot be sorted. -/
def sortedKeys (vs : List Value) : Except Fault (List Value) :=
  match vs with
  | [] | [_] => .ok vs
  | v :: _ =>
    if vs.all fun w => (before? v w).isSome then .ok (sortBy (fun a b => (before? b a) != some true) vs)
    else .error .wrongKind

end Value

namespace Row

/-- The value under a key of any kind; null when there is none. -/
def field (key : Value) (row : Row) : Value := (Table.get? key row).getD .null

/-- The key and the entry that an item of a list of pairs gives. -/
def pair (index : Nat) (item : Value) : Except Fault (Value × Value) := do
  match ← item.elements with
  | [k, v] => return (k, v)
  | items => throw (.badValue (.unpaired index items.length))

/-- The row that a list of pairs gives, the pairs being numbered from `index` on. -/
def ofPairs (index : Nat) (row : Row) : List Value → Except Fault Row
  | [] => .ok row
  | item :: items => do
    let (k, v) ← pair index item
    ofPairs (index + 1) (Table.insert (← k.requireKey) v row) items

/-- The row that a value gives: an object, or what has pairs for elements. -/
def ofValue : Value → Except Fault Row
  | .object entries => .ok entries
  | v => do ofPairs 0 [] (← v.elements)

end Row

end Sift
