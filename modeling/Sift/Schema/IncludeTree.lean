import Sift.Schema.Catalog
import Sift.Text.Split

/-!
# Included relations

The relations that a request brings along with every row, as a tree that starts at the base entity. Trees are built
by adding chains of labels and by merging; a label occurs once under a node, and keeps the place where it was first
added.
-/

namespace Sift

/-- A relation that is brought along, with the ones that are brought along with it in turn. -/
structure Branch where
  label : String
  target : Value
  many : Value
  through : Value
  nested : List Branch

namespace Branch

mutual
def same : Branch → Branch → Bool
  | ⟨a, t, m, h, ns⟩, ⟨a', t', m', h', ns'⟩ => a == a' && t == t' && m == m' && h == h' && sameAll ns ns'

def sameAll : List Branch → List Branch → Bool
  | [], [] => true
  | b :: bs, c :: cs => same b c && sameAll bs cs
  | _, _ => false
end

instance : BEq Branch := ⟨same⟩

def find? (label : String) (bs : List Branch) : Option Branch :=
  bs.find? (·.label = label)

/-- The branch that a chain of labels leads to; an empty chain leads nowhere. -/
def follow (bs : List Branch) : List String → Option Branch
  | [] => none
  | [label] => find? label bs
  | label :: chain => (find? label bs).bind fun b => follow b.nested chain

/-- Adds a chain of labels that starts at an entity. A label that is already there is followed, a new one is added
at the end. -/
def addChain (c : Catalog) (entity : Value) (bs : List Branch) : List String → Except Fault (List Branch)
  | [] => .ok bs
  | label :: chain => do
    let some relation ← c.relation? entity label
      | throw (.query (.unknownRelation entity.plain label "include"))
    let followed ← bs.mapM fun b =>
      if b.label = label then do return { b with nested := ← addChain c b.target b.nested chain } else pure b
    if bs.any (·.label = label) then return followed
    let nested ← addChain c relation.target [] chain
    return followed ++ [⟨label, relation.target, relation.many, relation.through, nested⟩]

/-- Changes the first branch with the label of `b`, or adds `b` at the end. -/
def graft (b : Branch) (change : Branch → Branch) : List Branch → List Branch
  | [] => [b]
  | e :: es => if e.label = b.label then change e :: es else e :: graft b change es

mutual
/-- Merges one branch into a list of branches. -/
def mergeOne (bs : List Branch) : Branch → List Branch
  | ⟨label, target, many, through, nested⟩ =>
    graft ⟨label, target, many, through, nested⟩ (fun e => { e with nested := merge e.nested nested }) bs

/-- Merges the second list of branches into the first. -/
def merge (bs : List Branch) : List Branch → List Branch
  | [] => bs
  | b :: rest => merge (mergeOne bs b) rest
end

mutual
/-- The chains of labels of a branch, its own first. -/
def paths : Branch → List (List String)
  | ⟨label, _, _, _, nested⟩ => [label] :: (pathsAll nested).map (label :: ·)

def pathsAll : List Branch → List (List String)
  | [] => []
  | b :: bs => paths b ++ pathsAll bs
end

mutual
def literal : Branch → String
  | ⟨label, target, many, through, nested⟩ =>
    call "Include" ["alias=" ++ Text.quoted label, "target_entity=" ++ target.literal,
      "many=" ++ many.literal, "through_entity=" ++ through.literal,
      "includes=" ++ Value.tupleLiteral (literals nested)]

def literals : List Branch → List String
  | [] => []
  | b :: bs => literal b :: literals bs
end

end Branch

/-- The relations that are brought along with the rows of an entity. -/
structure IncludeTree where
  entity : String
  branches : List Branch := []

namespace IncludeTree

instance : BEq IncludeTree := ⟨fun s t => s.entity == t.entity && Branch.sameAll s.branches t.branches⟩

def isEmpty (t : IncludeTree) : Bool := t.branches.isEmpty

def find? (t : IncludeTree) (label : String) : Option Branch := Branch.find? label t.branches

def follow (t : IncludeTree) (chain : List String) : Option Branch := Branch.follow t.branches chain

/-- Every chain of labels in the tree, parents first. -/
def paths (t : IncludeTree) : List (List String) := Branch.pathsAll t.branches

def withChain (c : Catalog) (t : IncludeTree) (chain : List String) : Except Fault IncludeTree := do
  return { t with branches := ← Branch.addChain c (.text t.entity) t.branches chain }

def merge (s t : IncludeTree) : IncludeTree :=
  { s with branches := Branch.merge s.branches t.branches }

mutual
/-- Adds what a specification names: a dotted chain, an array of specifications, or an object of chains with the
specifications of what follows them. What is null or empty names nothing. -/
def add (c : Catalog) (chain : List String) (t : IncludeTree) : Value → Except Fault IncludeTree
  | .text s => if s.isEmpty then .ok t else t.withChain c (chain ++ Text.pieces '.' s)
  | .list items | .tuple items => addAll c chain t items
  | .mapping x y z => do add c chain (← add c chain (← add c chain t x) y) z
  | .object entries => addEntries c chain t entries
  | v => if v.truthy then .error (.malformed (.includes v.fullKindName)) else .ok t

def addAll (c : Catalog) (chain : List String) (t : IncludeTree) : List Value → Except Fault IncludeTree
  | [] => .ok t
  | v :: vs => do addAll c chain (← add c chain t v) vs

/-- Adds what the entries of an object name, each chain before what follows it. -/
def addEntries (c : Catalog) (chain : List String) (t : IncludeTree) :
    List (Value × Value) → Except Fault IncludeTree
  | [] => .ok t
  | (key, v) :: rest =>
    match key with
    | .text s => do
      let longer := chain ++ Text.pieces '.' s
      addEntries c chain (← add c longer (← t.withChain c longer) v) rest
    | _ => .error .noMember
end

/-- The tree that a specification describes. -/
def parse (c : Catalog) (entity : String) (spec : Value) : Except Fault IncludeTree :=
  add c [] ⟨entity, []⟩ spec

def literal (t : IncludeTree) : String :=
  call "IncludeGraph" [Text.quoted t.entity, Value.tupleLiteral (Branch.literals t.branches)]

end IncludeTree

end Sift
