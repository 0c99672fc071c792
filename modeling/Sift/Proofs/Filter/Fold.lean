import Mathlib.Data.List.Forall2
import Sift.Proofs.Outcome
import Sift.Request.Filter

/-!
# Filters from the top

A filter is read by recursion: an object asks for all of its entries, `and` for all of its items, `or` for any of them,
and every other entry is a field. `fold` is this recursion, whatever the fields come to. What compiling does is tied to
it once, for every relation that the connectives keep.
-/

namespace Sift

namespace Filter

variable {α : Type} (leaf : Value → Value → α) (all any : List α → α)

mutual
/-- What a filter comes to. What is no object asks for nothing. -/
def fold : Value → α
  | .object entries => all (foldEntries entries)
  | _ => all []

def foldEntries : List (Value × Value) → List α
  | [] => []
  | (key, v) :: rest =>
    (match key with
      | .text "and" => all (foldOperand v)
      | .text "or" => any (foldOperand v)
      | name => leaf name v) :: foldEntries rest

def foldOperand : Value → List α
  | .list items | .tuple items => foldItems items
  | .mapping x y z => [fold x, fold y, fold z]
  | _ => []

def foldItems : List Value → List α
  | [] => []
  | v :: vs => fold v :: foldItems vs
end

def foldEntry (key v : Value) : α :=
  match key with
  | .text "and" => all (foldOperand leaf all any v)
  | .text "or" => any (foldOperand leaf all any v)
  | name => leaf name v

theorem foldEntries_cons (key v : Value) (rest : List (Value × Value)) :
    foldEntries leaf all any ((key, v) :: rest) = foldEntry leaf all any key v :: foldEntries leaf all any rest := by
  simp only [foldEntries, foldEntry]

theorem foldEntry_field {key : Value} (v : Value) (hand : key ≠ .text "and") (hor : key ≠ .text "or") :
    foldEntry leaf all any key v = leaf key v := by
  simp only [foldEntry]

end Filter

namespace FilterRules

variable {r : FilterRules} {checked : Bool}

def compileEntry (r : FilterRules) (checked : Bool) (key v : Value) : Except Fault Criteria :=
  match key with
  | .text "and" => .conj <$> r.compileOperand checked "and" v
  | .text "or" => .disj <$> r.compileOperand checked "or" v
  | name => r.compileField checked name v

theorem compileEntry_field {key : Value} (v : Value) (hand : key ≠ .text "and") (hor : key ≠ .text "or") :
    r.compileEntry checked key v = r.compileField checked key v := by
  simp only [compileEntry]

theorem compileEntries_cons (key v : Value) (rest : List (Value × Value)) :
    r.compileEntries checked ((key, v) :: rest) = (do
      let x ← r.compileEntry checked key v
      let xs ← r.compileEntries checked rest
      return x :: xs) := by
  simp only [compileEntries]
  split
  · rfl
  · rfl
  · rename_i hand hor
    rw [compileEntry_field v hand hor]

theorem compileItems_cons (v : Value) (vs : List Value) :
    r.compileItems checked (v :: vs) = (do
      let x ← r.compile checked v
      let xs ← r.compileItems checked vs
      return x :: xs) := by
  simp only [compileItems]

/-- A relation between compiled criteria and what filters come to that holds of the fields and that both connectives
keep. -/
structure Tied {α : Type} (r : FilterRules) (checked : Bool) (leaf : Value → Value → α) (all any : List α → α)
    (R : Criteria → α → Prop) : Prop where
  field : ∀ {name v x}, r.compileField checked name v = .ok x → R x (leaf name v)
  conj : ∀ {xs as}, List.Forall₂ R xs as → R (.conj xs) (all as)
  disj : ∀ {xs as}, List.Forall₂ R xs as → R (.disj xs) (any as)

variable {α : Type} {leaf : Value → Value → α} {all any : List α → α} {R : Criteria → α → Prop}

/-- The step of an entry: a connective keeps the relation when its operand does. -/
theorem Tied.compileEntry (t : Tied r checked leaf all any R) {key v : Value} {x : Criteria}
    (operand : ∀ {connective xs}, r.compileOperand checked connective v = .ok xs →
      List.Forall₂ R xs (Filter.foldOperand leaf all any v))
    (h : r.compileEntry checked key v = .ok x) : R x (Filter.foldEntry leaf all any key v) := by
  by_cases hand : key = .text "and"
  · subst hand
    obtain ⟨xs, hxs, rfl⟩ := map_eq_ok_iff.mp h
    exact t.conj (operand hxs)
  · by_cases hor : key = .text "or"
    · subst hor
      obtain ⟨xs, hxs, rfl⟩ := map_eq_ok_iff.mp h
      exact t.disj (operand hxs)
    · rw [compileEntry_field v hand hor] at h
      rw [Filter.foldEntry_field leaf all any v hand hor]
      exact t.field h

mutual
theorem Tied.compile (t : Tied r checked leaf all any R) :
    ∀ {v x}, r.compile checked v = .ok x → R x (Filter.fold leaf all any v)
  | .null, x, h => by
    simp only [FilterRules.compile, Except.ok.injEq] at h
    subst h
    exact t.conj .nil
  | .object entries, x, h => by
    simp only [FilterRules.compile, map_eq_ok_iff] at h
    obtain ⟨xs, hxs, rfl⟩ := h
    exact t.conj (Tied.compileEntries t hxs)

theorem Tied.compileEntries (t : Tied r checked leaf all any R) :
    ∀ {entries xs}, r.compileEntries checked entries = .ok xs →
      List.Forall₂ R xs (Filter.foldEntries leaf all any entries)
  | [], xs, h => by
    simp only [FilterRules.compileEntries, Except.ok.injEq] at h
    subst h
    exact .nil
  | (key, v) :: rest, xs, h => by
    simp only [compileEntries_cons, bind_eq_ok_iff, pure_eq_ok_iff] at h
    obtain ⟨x, hx, ys, hys, rfl⟩ := h
    rw [Filter.foldEntries_cons]
    exact .cons (Tied.compileEntry t (Tied.compileOperand t) hx) (Tied.compileEntries t hys)

theorem Tied.compileOperand (t : Tied r checked leaf all any R) {connective : String} :
    ∀ {v xs}, r.compileOperand checked connective v = .ok xs → List.Forall₂ R xs (Filter.foldOperand leaf all any v)
  | .list items, xs, h => Tied.compileItems t (by simpa only [FilterRules.compileOperand] using h)
  | .tuple items, xs, h => Tied.compileItems t (by simpa only [FilterRules.compileOperand] using h)
  | .mapping a b c, xs, h => by
    simp only [FilterRules.compileOperand, bind_eq_ok_iff, pure_eq_ok_iff] at h
    obtain ⟨x, hx, y, hy, z, hz, rfl⟩ := h
    exact .cons (Tied.compile t hx) (.cons (Tied.compile t hy) (.cons (Tied.compile t hz) .nil))

theorem Tied.compileItems (t : Tied r checked leaf all any R) :
    ∀ {items xs}, r.compileItems checked items = .ok xs → List.Forall₂ R xs (Filter.foldItems leaf all any items)
  | [], xs, h => by
    simp only [FilterRules.compileItems, Except.ok.injEq] at h
    subst h
    exact .nil
  | v :: vs, xs, h => by
    simp only [compileItems_cons, bind_eq_ok_iff, pure_eq_ok_iff] at h
    obtain ⟨x, hx, ys, hys, rfl⟩ := h
    exact .cons (Tied.compile t hx) (Tied.compileItems t hys)
end

end FilterRules

end Sift
