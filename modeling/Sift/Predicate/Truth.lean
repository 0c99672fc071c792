import Sift.Predicate.Basic

/-!
# Truth of predicates

A clause about a missing value is neither true nor false, so a predicate has one of three truth values. A conjunction
is as true as its least true part, a disjunction as its most true one. Putting predicates together keeps this meaning,
however the parts are spliced.
-/

namespace Sift

inductive Truth where
  | no
  | unknown
  | yes
  deriving DecidableEq, Repr

namespace Truth

/-- The truth value of what is decided. -/
def ofBool (b : Bool) : Truth := if b then .yes else .no

def and : Truth → Truth → Truth
  | .no, _ | _, .no => .no
  | .yes, .yes => .yes
  | _, _ => .unknown

def or : Truth → Truth → Truth
  | .yes, _ | _, .yes => .yes
  | .no, .no => .no
  | _, _ => .unknown

def not : Truth → Truth
  | .no => .yes
  | .unknown => .unknown
  | .yes => .no

theorem and_yes (a : Truth) : a.and .yes = a := by cases a <;> rfl

theorem yes_and (a : Truth) : Truth.yes.and a = a := by cases a <;> rfl

theorem and_assoc (a b c : Truth) : (a.and b).and c = a.and (b.and c) := by
  cases a <;> cases b <;> cases c <;> rfl

theorem or_no (a : Truth) : a.or .no = a := by cases a <;> rfl

theorem yes_or (a : Truth) : Truth.yes.or a = .yes := by cases a <;> rfl

theorem or_comm (a b : Truth) : a.or b = b.or a := by cases a <;> cases b <;> rfl

theorem or_assoc (a b c : Truth) : (a.or b).or c = a.or (b.or c) := by
  cases a <;> cases b <;> cases c <;> rfl

theorem and_eq_yes_iff {a b : Truth} : a.and b = .yes ↔ a = .yes ∧ b = .yes := by
  cases a <;> cases b <;> decide

end Truth

namespace Predicate

mutual
/-- The truth value of a predicate, given those of its clauses. -/
def truth (value : Clause → Truth) : Predicate → Truth
  | .clause c => value c
  | .all ps => truthAll value ps
  | .any ps => truthAny value ps

def truthAll (value : Clause → Truth) : List Predicate → Truth
  | [] => .yes
  | p :: ps => (truth value p).and (truthAll value ps)

def truthAny (value : Clause → Truth) : List Predicate → Truth
  | [] => .no
  | p :: ps => (truth value p).or (truthAny value ps)
end

variable {value : Clause → Truth}

theorem truth_always : truth value always = .yes := by
  simp only [always, truth, truthAll]

theorem truthAll_append (ps qs : List Predicate) :
    truthAll value (ps ++ qs) = (truthAll value ps).and (truthAll value qs) := by
  induction ps with
  | nil => simp only [List.nil_append, truthAll, Truth.yes_and]
  | cons p ps ih => simp only [List.cons_append, truthAll, ih, Truth.and_assoc]

theorem truthAll_conjuncts (p : Predicate) : truthAll value p.conjuncts = p.truth value := by
  cases p with
  | clause c => simp only [conjuncts, truthAll, truth, Truth.and_yes]
  | all ps => simp only [conjuncts, truth]
  | any ps => simp only [conjuncts, truthAll, truth, Truth.and_yes]

/-- Splicing does not change what a conjunction means. -/
theorem truth_conj (ps : List Predicate) : (conj ps).truth value = truthAll value ps := by
  have spliced : ∀ qs : List Predicate, truthAll value (qs.flatMap conjuncts) = truthAll value qs := by
    intro qs
    induction qs with
    | nil => rfl
    | cons q qs ih => simp only [List.flatMap_cons, truthAll_append, truthAll_conjuncts, truthAll, ih]
  rw [← spliced ps, conj]
  split
  · rename_i p h; rw [h]; simp only [truthAll, Truth.and_yes]
  · simp only [truth]

theorem truthAny_of_isAlways_mem {ps : List Predicate} (h : always ∈ ps) : truthAny value ps = .yes := by
  induction ps with
  | nil => cases h
  | cons p ps ih =>
    simp only [truthAny]
    rcases List.mem_cons.mp h with rfl | h
    · rw [truth_always, Truth.yes_or]
    · rw [ih h, Truth.or_comm, Truth.yes_or]

/-- A disjunction means what its parts mean together; of no parts it holds. -/
theorem truth_disj (ps : List Predicate) :
    (disj ps).truth value = if ps.isEmpty then .yes else truthAny value ps := by
  cases ps with
  | nil => simp [disj, truth_always]
  | cons p ps =>
    simp only [disj, List.isEmpty_cons, Bool.false_or, Bool.false_eq_true, if_false]
    split
    · rename_i h
      obtain ⟨q, hq, ha⟩ := List.any_eq_true.mp h
      rw [isAlways_iff.mp ha] at hq
      rw [truth_always, truthAny_of_isAlways_mem hq]
    · cases ps with
      | nil => simp only [truthAny, Truth.or_no]
      | cons q qs => simp only [truth]

end Predicate

end Sift
