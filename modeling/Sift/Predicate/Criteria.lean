import Sift.Predicate.Basic

/-!
# Criteria

A predicate together with the chains of labels that have to be joined for it. A set of chains is kept as a list in
order without repetitions, so that equal sets are equal lists.
-/

namespace Sift

/-- The chains of labels that have to be joined, in order. -/
abbrev Joins := List (List String)

namespace Joins

def before : List String → List String → Bool
  | _, [] => false
  | [], _ :: _ => true
  | a :: as, b :: bs => if a = b then before as bs else a < b

def insert (chain : List String) : Joins → Joins
  | [] => [chain]
  | c :: cs =>
    if chain = c then c :: cs
    else if before chain c then chain :: c :: cs
    else c :: insert chain cs

def union (js ks : Joins) : Joins :=
  ks.foldl (fun js chain => insert chain js) js

theorem mem_insert {chain c : List String} {js : Joins} : c ∈ insert chain js ↔ c = chain ∨ c ∈ js := by
  induction js with
  | nil => simp [insert]
  | cons d js ih =>
    simp only [insert]
    split
    · rename_i h; subst h; simp
    · split
      · simp
      · simp only [List.mem_cons, ih]
        constructor
        · rintro (h | h | h)
          · exact Or.inr (Or.inl h)
          · exact Or.inl h
          · exact Or.inr (Or.inr h)
        · rintro (h | h | h)
          · exact Or.inr (Or.inl h)
          · exact Or.inl h
          · exact Or.inr (Or.inr h)

theorem mem_union {c : List String} {js ks : Joins} : c ∈ union js ks ↔ c ∈ js ∨ c ∈ ks := by
  induction ks generalizing js with
  | nil => simp [union]
  | cons k ks ih =>
    have step : union js (k :: ks) = union (insert k js) ks := rfl
    rw [step, ih, mem_insert, List.mem_cons]
    constructor
    · rintro ((h | h) | h)
      · exact Or.inr (Or.inl h)
      · exact Or.inl h
      · exact Or.inr (Or.inr h)
    · rintro (h | h | h)
      · exact Or.inl (Or.inr h)
      · exact Or.inl (Or.inl h)
      · exact Or.inr h

end Joins

structure Criteria where
  predicate : Predicate := .always
  joins : Joins := []

namespace Criteria

instance : BEq Criteria := ⟨fun x y => x.predicate == y.predicate && x.joins == y.joins⟩

def isAlways (x : Criteria) : Bool := x.predicate.isAlways

/-- The joins that any of some criteria needs. -/
def allJoins (xs : List Criteria) : Joins :=
  xs.foldl (fun js x => js.union x.joins) []

/-- What meets all of some criteria. -/
def conj (xs : List Criteria) : Criteria :=
  ⟨.conj (xs.map predicate), allJoins xs⟩

/-- What meets any of some criteria. -/
def disj (xs : List Criteria) : Criteria :=
  ⟨.disj (xs.map predicate), allJoins xs⟩

def literal (x : Criteria) : String :=
  let join (chain : List String) := call "RequiredJoin" ["alias_chain=" ++ Value.tupleLiteral (chain.map Text.quoted)]
  call "FilterContext" [x.predicate.literal, "joins=" ++ Value.listLiteral (x.joins.map join)]

end Criteria

end Sift
