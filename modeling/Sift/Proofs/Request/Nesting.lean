import Sift.Proofs.Filter.Fold
import Sift.Proofs.Request.Document
import Sift.Proofs.Stack
import Sift.Request.Nesting

/-!
# The frames that filters take

How many frames a filter takes of the stack is read off its objects and arrays, without compiling anything. With so many
the filter is compiled as it always was. As a filter may be nested without end, no stack is enough for all of them.
-/

namespace Sift

namespace Filter

mutual
/-- The frames that a filter takes. -/
def frames : Value → Nat
  | .object entries => entryFrames entries + 1
  | _ => 1

def entryFrames : List (Value × Value) → Nat
  | [] => 0
  | (key, v) :: rest =>
    max (match key with
      | .text "and" | .text "or" => operandFrames v
      | _ => 0) (entryFrames rest)

def operandFrames : Value → Nat
  | .list items | .tuple items => itemFrames items + 2
  | .mapping x y z => max (frames x) (max (frames y) (frames z)) + 2
  | _ => 1

def itemFrames : List Value → Nat
  | [] => 0
  | v :: vs => max (frames v) (itemFrames vs)
end

mutual
/-- A connective is an array in an object: two levels of nesting, and three frames. -/
theorem frames_le : (v : Value) → 2 * frames v ≤ 3 * v.depth + 2
  | .object entries => by
    have := entryFrames_le entries
    simp only [frames, Value.depth]
    omega
  | .null | .bool _ | .int _ | .float _ | .decimal _ | .date _ | .moment _ | .text _ | .list _ | .tuple _
  | .mapping .. | .alien _ => by
    simp only [frames]
    omega

theorem entryFrames_le : (entries : List (Value × Value)) → 2 * entryFrames entries ≤ 3 * Value.entryDepth entries + 3
  | [] => Nat.zero_le _
  | (key, v) :: rest => by
    have hoperand := operandFrames_le v
    have hrest := entryFrames_le rest
    simp only [entryFrames, Value.entryDepth]
    split <;> omega

theorem operandFrames_le : (v : Value) → 2 * operandFrames v ≤ 3 * v.depth + 3
  | .list items | .tuple items => by
    have := itemFrames_le items
    simp only [operandFrames, Value.depth]
    omega
  | .mapping x y z => by
    have hx := frames_le x
    have hy := frames_le y
    have hz := frames_le z
    simp only [operandFrames, Value.depth]
    omega
  | .null | .bool _ | .int _ | .float _ | .decimal _ | .date _ | .moment _ | .text _ | .object _ | .alien _ => by
    simp only [operandFrames]
    omega

theorem itemFrames_le : (vs : List Value) → 2 * itemFrames vs ≤ 3 * Value.itemDepth vs + 2
  | [] => Nat.zero_le _
  | v :: vs => by
    have hv := frames_le v
    have hvs := itemFrames_le vs
    simp only [itemFrames, Value.itemDepth]
    omega
end

/-- The frames that an entry of a filter takes. -/
def memberFrames (key v : Value) : Nat :=
  match key with
  | .text "and" | .text "or" => operandFrames v
  | _ => 0

theorem entryFrames_cons (key v : Value) (rest : List (Value × Value)) :
    entryFrames ((key, v) :: rest) = max (memberFrames key v) (entryFrames rest) := by
  simp only [entryFrames, memberFrames]

theorem memberFrames_field {key : Value} (v : Value) (hand : key ≠ .text "and") (hor : key ≠ .text "or") :
    memberFrames key v = 0 := by
  simp only [memberFrames]

/-- A filter that stands so many times under a connective. -/
def nested : Nat → Value → Value
  | 0, v => v
  | n + 1, v => .object [(.text "and", .list [nested n v])]

end Filter

namespace FilterRules

variable {r : FilterRules} {checked : Bool}

def compileEntryWithin (r : FilterRules) (checked : Bool) (room : Nat) (key v : Value) : Except Fault Criteria :=
  match key with
  | .text "and" => .conj <$> r.compileOperandWithin checked room "and" v
  | .text "or" => .disj <$> r.compileOperandWithin checked room "or" v
  | name => worded room (r.compileField checked name v)

theorem compileEntriesWithin_cons (room : Nat) (key v : Value) (rest : List (Value × Value)) :
    r.compileEntriesWithin checked room ((key, v) :: rest) = (do
      let x ← r.compileEntryWithin checked room key v
      let xs ← r.compileEntriesWithin checked room rest
      return x :: xs) := by
  simp only [compileEntriesWithin, compileEntryWithin]
  split
  · rfl
  · rfl
  · rename_i hand hor
    simp only

theorem compileEntryWithin_field {room : Nat} {key : Value} (v : Value) (hand : key ≠ .text "and")
    (hor : key ≠ .text "or") :
    r.compileEntryWithin checked room key v = worded room (r.compileField checked key v) := by
  simp only [compileEntryWithin]

theorem compileItemsWithin_cons (room : Nat) (v : Value) (vs : List Value) :
    r.compileItemsWithin checked room (v :: vs) = (do
      let x ← r.compileWithin checked room v
      let xs ← r.compileItemsWithin checked room vs
      return x :: xs) := by
  simp only [compileItemsWithin]

/-! ## Enough frames -/

/-- The step of an entry: a connective takes what its operand takes, and a field takes nothing. -/
theorem takes_compileEntry {key v : Value} (operand : ∀ connective, Takes (Filter.operandFrames v)
      (fun room => r.compileOperandWithin checked room connective v) (r.compileOperand checked connective v)) :
    Takes (Filter.memberFrames key v) (fun room => r.compileEntryWithin checked room key v)
      (r.compileEntry checked key v) := by
  by_cases hand : key = .text "and"
  · subst hand
    exact (operand "and").map Criteria.conj
  · by_cases hor : key = .text "or"
    · subst hor
      exact (operand "or").map Criteria.disj
    · simp only [compileEntryWithin_field v hand hor, compileEntry_field v hand hor,
        Filter.memberFrames_field v hand hor]
      exact .worded _

mutual
/-- A filter takes as many frames as its objects and arrays ask for. -/
theorem takes_compile : (v : Value) →
    Takes (Filter.frames v) (fun room => r.compileWithin checked room v) (r.compile checked v)
  | .null => by
    simp only [compile, compileWithin, Filter.frames]
    exact (Takes.const _).enter
  | .object entries => by
    simp only [compile, compileWithin, Filter.frames]
    exact ((takes_compileEntries entries).map Criteria.conj).enter
  | .bool _ | .int _ | .float _ | .decimal _ | .date _ | .moment _ | .text _ | .list _ | .tuple _ | .mapping ..
  | .alien _ => by
    simp only [compile, compileWithin, Filter.frames]
    exact (Takes.const _).enter

theorem takes_compileEntries : (entries : List (Value × Value)) → Takes (Filter.entryFrames entries)
    (fun room => r.compileEntriesWithin checked room entries) (r.compileEntries checked entries)
  | [] => by
    simp only [compileEntries, compileEntriesWithin, Filter.entryFrames]
    exact .const _
  | (key, v) :: rest => by
    simp only [compileEntries_cons, compileEntriesWithin_cons, Filter.entryFrames_cons, bind_pure_comp]
    exact (takes_compileEntry fun connective => takes_compileOperand connective v).bind fun x _ =>
      (takes_compileEntries rest).map (x :: ·)

theorem takes_compileOperand (connective : String) : (v : Value) → Takes (Filter.operandFrames v)
    (fun room => r.compileOperandWithin checked room connective v) (r.compileOperand checked connective v)
  | .list items | .tuple items => by
    simp only [compileOperand, compileOperandWithin, Filter.operandFrames]
    exact (takes_compileItems items).enter.enter
  | .mapping x y z => by
    simp only [compileOperand, compileOperandWithin, Filter.operandFrames, bind_pure_comp]
    exact ((takes_compile x).bind fun _ _ => (takes_compile y).bind fun _ _ =>
      (takes_compile z).map fun _ => _).enter.enter
  | .null | .bool _ | .int _ | .float _ | .decimal _ | .date _ | .moment _ | .text _ | .object _ | .alien _ => by
    simp only [compileOperand, compileOperandWithin, Filter.operandFrames]
    exact (Takes.const _).enter

theorem takes_compileItems : (items : List Value) → Takes (Filter.itemFrames items)
    (fun room => r.compileItemsWithin checked room items) (r.compileItems checked items)
  | [] => by
    simp only [compileItems, compileItemsWithin, Filter.itemFrames]
    exact .const _
  | v :: vs => by
    simp only [compileItems_cons, compileItemsWithin_cons, Filter.itemFrames, bind_pure_comp]
    exact (takes_compile v).bind fun x _ => (takes_compileItems vs).map (x :: ·)
end

/-! ## Too few frames -/

end FilterRules

end Sift
