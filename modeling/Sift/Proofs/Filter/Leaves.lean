import Sift.Proofs.Filter.Conjunction
import Sift.Proofs.Filter.Reading
import Sift.Proofs.Predicate.Clauses

/-!
# The leaves of a filter

Every bare value and every operator in a filter is a leaf of it. A compiled filter has one clause for each leaf, in the
order in which they are written, unless an alternative that always holds has made the others needless; and it joins what
the fields of the leaves are behind, whether or not their clauses were needed.
-/

namespace Sift

namespace Predicate

theorem clauses_disj {ps : List Predicate} (h : ∀ p ∈ ps, p.isAlways = false) :
    (disj ps).clauses = ps.flatMap clauses := by
  unfold disj
  split
  · rename_i hneedless
    rcases Bool.or_eq_true_iff.mp hneedless with hempty | halways
    · rw [List.isEmpty_iff.mp hempty]
      rfl
    · obtain ⟨p, hp, halways⟩ := List.any_eq_true.mp halways
      rw [h p hp] at halways
      cases halways
  · split
    · rw [List.flatMap_cons, List.flatMap_nil, List.append_nil]
    · rw [clauses, clausesAll_eq]

end Predicate

namespace Filter

def operands : Value → List Value
  | .list items | .tuple items => items
  | .mapping x y z => [x, y, z]
  | _ => []

mutual
/-- The filters that stand under an `or`, however deep. -/
def alternatives : Value → List Value
  | .object entries => entriesAlternatives entries
  | _ => []

def entriesAlternatives : List (Value × Value) → List Value
  | [] => []
  | (key, v) :: rest =>
    (match key with
      | .text "and" => operandAlternatives v
      | .text "or" => operands v ++ operandAlternatives v
      | _ => []) ++ entriesAlternatives rest

def operandAlternatives : Value → List Value
  | .list items | .tuple items => itemsAlternatives items
  | .mapping x y z => alternatives x ++ (alternatives y ++ alternatives z)
  | _ => []

def itemsAlternatives : List Value → List Value
  | [] => []
  | v :: vs => alternatives v ++ itemsAlternatives vs
end

def entryAlternatives (key v : Value) : List Value :=
  match key with
  | .text "and" => operandAlternatives v
  | .text "or" => operands v ++ operandAlternatives v
  | _ => []

theorem entriesAlternatives_cons (key v : Value) (rest : List (Value × Value)) :
    entriesAlternatives ((key, v) :: rest) = entryAlternatives key v ++ entriesAlternatives rest := by
  simp only [entriesAlternatives, entryAlternatives]

end Filter

/-- What a filter says with one operator about one field. A bare value has no token. -/
structure Leaf where
  name : Value
  token : Option Value
  operand : Value

namespace FilterRules

/-- What the value of a field says about it: a bare value says one thing, and an object with a known operator one thing
for each of its entries. -/
def fieldLeaves (r : FilterRules) (name : Value) : Value → List Leaf
  | .object entries =>
    if entries.any r.known then entries.map fun (token, operand) => ⟨name, some token, operand⟩ else []
  | v => [⟨name, none, v⟩]

/-- The leaves of a filter, in the order in which they are written. -/
def leaves (r : FilterRules) : Value → List Leaf :=
  Filter.fold r.fieldLeaves List.flatten List.flatten

def leafClause (r : FilterRules) (l : Leaf) : Except Fault Clause := do
  let ref ← r.resolve l.name
  let op ← l.token.elim (r.registry.defaultFor ref.type l.operand) fun token => r.registry.get (token.text?.getD "")
  clause l.name.plain ref op l.operand

variable {r : FilterRules} {checked : Bool}

/-! ## Fields -/

theorem leafClauses_of_compileField {name v : Value} {x : Criteria} (h : r.compileField checked name v = .ok x) :
    (r.fieldLeaves name v).mapM r.leafClause = .ok x.predicate.clauses := by
  simp only [compileField, bind_eq_ok_iff, pure_eq_ok_iff] at h
  obtain ⟨ref, href, cs, hcs, rfl⟩ := h
  have hresolve := resolve_of_field href
  have hclauses : (cs.elim {} (criteria ref)).predicate.clauses = cs.getD [] := by
    cases cs with
    | none => rfl
    | some cs => exact Predicate.clauses_conj_clause cs
  rw [hclauses]
  cases v with
  | object entries =>
    simp only [fieldClauses, operatorClauses] at hcs
    split at hcs
    · rename_i hknown
      split at hcs
      · cases hcs
      · obtain ⟨ds, hds, rfl⟩ := map_eq_ok_iff.mp hcs
        rw [fieldLeaves, if_pos hknown, List.mapM_map, Option.getD_some, ← hds]
        refine congrArg entries.mapM (funext fun entry => ?_)
        simp only [Function.comp, leafClause, hresolve, Option.elim_some, bind, Except.bind]
    · rename_i hunknown
      cases hcs
      rw [fieldLeaves, if_neg hunknown]
      rfl
  | _ =>
    simp only [fieldClauses, bind_eq_ok_iff, pure_eq_ok_iff] at hcs
    obtain ⟨op, hop, c, hc, rfl⟩ := hcs
    simp only [fieldLeaves, List.mapM_cons, List.mapM_nil, leafClause, hresolve, Option.elim_none, hop, hc, bind,
      Except.bind, pure, Except.pure, Option.getD_some]

theorem name_of_mem_fieldLeaves {name v : Value} {l : Leaf} (h : l ∈ r.fieldLeaves name v) : l.name = name := by
  unfold fieldLeaves at h
  split at h
  · split at h
    · obtain ⟨entry, -, rfl⟩ := List.mem_map.mp h
      rfl
    · cases h
  · obtain rfl := List.mem_singleton.mp h
    rfl

theorem isSome_fieldClauses {name : String} {ref : FieldRef} {v : Value} {cs : Option (List Clause)} (key : Value)
    (h : r.fieldClauses name ref v = .ok cs) : cs.isSome = true ↔ ∃ l, l ∈ r.fieldLeaves key v := by
  cases v with
  | object entries =>
    simp only [fieldClauses, operatorClauses] at h
    rw [fieldLeaves]
    split at h
    · rename_i hknown
      obtain ⟨entry, hentry, -⟩ := List.any_eq_true.mp hknown
      rw [if_pos hknown]
      refine iff_of_true ?_ ⟨_, List.mem_map_of_mem hentry⟩
      split at h
      · cases h
      · obtain ⟨ds, -, rfl⟩ := map_eq_ok_iff.mp h
        rfl
    · rename_i hunknown
      cases h
      rw [if_neg hunknown]
      refine iff_of_false Bool.false_ne_true ?_
      rintro ⟨_, hl⟩
      exact List.not_mem_nil hl
  | _ =>
    simp only [fieldClauses, bind_eq_ok_iff, pure_eq_ok_iff] at h
    obtain ⟨_, _, _, _, rfl⟩ := h
    exact iff_of_true rfl ⟨_, List.mem_singleton_self _⟩

/-- Is the field of the leaf behind these labels, of which there is one at least? -/
def IsBehind (r : FilterRules) (chain : List String) (l : Leaf) : Prop :=
  chain ≠ [] ∧ ∃ ref, r.resolve l.name = .ok ref ∧ ref.chain = chain

theorem isBehind_iff {ref : FieldRef} {chain : List String} {l : Leaf} (h : r.resolve l.name = .ok ref) :
    r.IsBehind chain l ↔ ref.isRelated = true ∧ chain = ref.chain := by
  have hrelated : ref.isRelated = true ↔ ref.chain ≠ [] := by
    rw [FieldRef.isRelated, Bool.not_eq_true', List.isEmpty_eq_false_iff]
  rw [hrelated]
  constructor
  · rintro ⟨hne, ref', href, rfl⟩
    cases h.symm.trans href
    exact ⟨hne, rfl⟩
  · rintro ⟨hne, rfl⟩
    exact ⟨hne, ref, h, rfl⟩

theorem mem_joins_of_compileField {name v : Value} {x : Criteria} (h : r.compileField checked name v = .ok x)
    (chain : List String) : chain ∈ x.joins ↔ ∃ l ∈ r.fieldLeaves name v, r.IsBehind chain l := by
  simp only [compileField, bind_eq_ok_iff, pure_eq_ok_iff] at h
  obtain ⟨ref, href, cs, hcs, rfl⟩ := h
  have hbehind : ∀ l ∈ r.fieldLeaves name v, (r.IsBehind chain l ↔ ref.isRelated = true ∧ chain = ref.chain) := by
    intro l hl
    exact isBehind_iff (name_of_mem_fieldLeaves hl ▸ resolve_of_field href)
  have hleaves := isSome_fieldClauses name hcs
  cases cs with
  | none =>
    refine iff_of_false List.not_mem_nil ?_
    rintro ⟨l, hl, -⟩
    exact Bool.false_ne_true (hleaves.mpr ⟨l, hl⟩)
  | some cs =>
    obtain ⟨l, hl⟩ := hleaves.mp rfl
    have hjoins : chain ∈ (criteria ref cs).joins ↔ ref.isRelated = true ∧ chain = ref.chain := by
      unfold criteria
      split
      · rename_i hrelated
        rw [List.mem_singleton, and_iff_right hrelated]
      · rename_i hown
        refine iff_of_false List.not_mem_nil ?_
        rintro ⟨hrelated, -⟩
        exact hown hrelated
    rw [Option.elim_some, hjoins]
    constructor
    · exact fun hchain => ⟨l, hl, (hbehind l hl).mpr hchain⟩
    · rintro ⟨l', hl', hchain⟩
      exact (hbehind l' hl').mp hchain

/-! ## Joins -/

/-- Every leaf has the joins that it needs, and there are no others. -/
def JoinsOf (r : FilterRules) (x : Criteria) (ls : List Leaf) : Prop :=
  x.joins.Sorted ∧ ∀ chain, chain ∈ x.joins ↔ ∃ l ∈ ls, r.IsBehind chain l

theorem mem_allJoins_iff {xs : List Criteria} {lss : List (List Leaf)} (h : List.Forall₂ r.JoinsOf xs lss)
    (chain : List String) : chain ∈ Criteria.allJoins xs ↔ ∃ l ∈ lss.flatten, r.IsBehind chain l := by
  rw [Criteria.mem_allJoins]
  induction h with
  | nil => simp
  | cons hx _ ih =>
    rw [List.exists_mem_cons_iff, hx.2 chain, ih, List.flatten_cons]
    simp only [List.mem_append, or_and_right, exists_or]

theorem tied_joins : r.Tied checked r.fieldLeaves List.flatten List.flatten r.JoinsOf where
  field h := ⟨sorted_of_compileField h, mem_joins_of_compileField h⟩
  conj h := ⟨Criteria.sorted_allJoins _, mem_allJoins_iff h⟩
  disj h := ⟨Criteria.sorted_allJoins _, mem_allJoins_iff h⟩

/-! ## Clauses -/

/-- None of some filters always holds, as it is compiled. -/
def NoneAlways (r : FilterRules) (checked : Bool) (vs : List Value) : Prop :=
  ∀ v ∈ vs, ∀ x, r.compile checked v = .ok x → x.isAlways = false

theorem noneAlways_append {vs ws : List Value} :
    r.NoneAlways checked (vs ++ ws) ↔ r.NoneAlways checked vs ∧ r.NoneAlways checked ws :=
  List.forall_mem_append

theorem exists_of_compileItems {vs : List Value} {xs : List Criteria} (h : r.compileItems checked vs = .ok xs) :
    ∀ x ∈ xs, ∃ v ∈ vs, r.compile checked v = .ok x := by
  induction vs generalizing xs with
  | nil =>
    rw [compileItems] at h
    cases h
    exact fun _ hx => absurd hx List.not_mem_nil
  | cons v vs ih =>
    rw [compileItems_cons] at h
    simp only [bind_eq_ok_iff, pure_eq_ok_iff] at h
    obtain ⟨y, hy, ys, hys, rfl⟩ := h
    intro x hx
    rcases List.mem_cons.mp hx with rfl | hx
    · exact ⟨v, List.mem_cons_self, hy⟩
    · obtain ⟨w, hw, hx⟩ := ih hys x hx
      exact ⟨w, List.mem_cons_of_mem v hw, hx⟩

theorem isAlways_of_compileOperand {connective : String} {v : Value} {xs : List Criteria}
    (h : r.compileOperand checked connective v = .ok xs) (hnone : r.NoneAlways checked (Filter.operands v)) :
    ∀ x ∈ xs, x.isAlways = false := by
  have hitems : r.compileItems checked (Filter.operands v) = .ok xs := by
    cases v with
    | list items => simpa only [compileOperand, Filter.operands] using h
    | tuple items => simpa only [compileOperand, Filter.operands] using h
    | mapping a b c =>
      simp only [compileOperand, bind_eq_ok_iff, pure_eq_ok_iff] at h
      obtain ⟨x, hx, y, hy, z, hz, rfl⟩ := h
      simp only [Filter.operands, compileItems_cons, compileItems, hx, hy, hz]
      rfl
    | _ => simp only [compileOperand, reduceCtorEq] at h
  intro x hx
  obtain ⟨w, hw, hcompile⟩ := exists_of_compileItems hitems x hx
  exact hnone w hw x hcompile

def entryLeaves (r : FilterRules) (key v : Value) : List Leaf :=
  Filter.foldEntry r.fieldLeaves List.flatten List.flatten key v

def entriesLeaves (r : FilterRules) (entries : List (Value × Value)) : List Leaf :=
  (Filter.foldEntries r.fieldLeaves List.flatten List.flatten entries).flatten

def operandLeaves (r : FilterRules) (v : Value) : List Leaf :=
  (Filter.foldOperand r.fieldLeaves List.flatten List.flatten v).flatten

def itemsLeaves (r : FilterRules) (vs : List Value) : List Leaf :=
  (Filter.foldItems r.fieldLeaves List.flatten List.flatten vs).flatten

theorem entriesLeaves_cons (key v : Value) (rest : List (Value × Value)) :
    r.entriesLeaves ((key, v) :: rest) = r.entryLeaves key v ++ r.entriesLeaves rest := by
  rw [entriesLeaves, Filter.foldEntries_cons, List.flatten_cons]
  rfl

theorem operandLeaves_mapping (a b c : Value) :
    r.operandLeaves (.mapping a b c) = r.leaves a ++ (r.leaves b ++ r.leaves c) := by
  simp only [operandLeaves, Filter.foldOperand, leaves, List.flatten_cons, List.flatten_nil, List.append_nil]

theorem itemsLeaves_cons (v : Value) (vs : List Value) : r.itemsLeaves (v :: vs) = r.leaves v ++ r.itemsLeaves vs := by
  simp only [itemsLeaves, Filter.foldItems, leaves, List.flatten_cons]

/-- The clauses of the leaves are those of some criteria, one after another. -/
def ClausesOf (r : FilterRules) (ls : List Leaf) (xs : List Criteria) : Prop :=
  ls.mapM r.leafClause = .ok (xs.flatMap fun x => x.predicate.clauses)

theorem ClausesOf.append {ls ms : List Leaf} {xs ys : List Criteria} (hx : r.ClausesOf ls xs) (hy : r.ClausesOf ms ys) :
    r.ClausesOf (ls ++ ms) (xs ++ ys) := by
  unfold ClausesOf at hx hy ⊢
  rw [List.mapM_append, hx, hy, List.flatMap_append]
  rfl

theorem ClausesOf.conj {ls : List Leaf} {xs : List Criteria} (h : r.ClausesOf ls xs) : r.ClausesOf ls [.conj xs] := by
  unfold ClausesOf at h ⊢
  rw [h, Criteria.conj, List.flatMap_singleton, Predicate.clauses_conj, List.flatMap_map]

theorem ClausesOf.disj {ls : List Leaf} {xs : List Criteria} (h : r.ClausesOf ls xs)
    (hxs : ∀ x ∈ xs, x.isAlways = false) : r.ClausesOf ls [.disj xs] := by
  unfold ClausesOf at h ⊢
  rw [h, Criteria.disj, List.flatMap_singleton, Predicate.clauses_disj (List.forall_mem_map.mpr hxs), List.flatMap_map]

/-- The step of an entry: a connective has the clauses of its operand. -/
theorem clausesOf_compileEntry {key v : Value} {x : Criteria}
    (operand : ∀ {connective xs}, r.compileOperand checked connective v = .ok xs →
      r.NoneAlways checked (Filter.operandAlternatives v) → r.ClausesOf (r.operandLeaves v) xs)
    (h : r.compileEntry checked key v = .ok x) (hnone : r.NoneAlways checked (Filter.entryAlternatives key v)) :
    r.ClausesOf (r.entryLeaves key v) [x] := by
  by_cases hand : key = .text "and"
  · subst hand
    obtain ⟨xs, hxs, rfl⟩ := map_eq_ok_iff.mp h
    exact (operand hxs hnone).conj
  by_cases hor : key = .text "or"
  · subst hor
    obtain ⟨xs, hxs, rfl⟩ := map_eq_ok_iff.mp h
    obtain ⟨hitems, hbelow⟩ := noneAlways_append.mp hnone
    exact (operand hxs hbelow).disj (isAlways_of_compileOperand hxs hitems)
  · rw [compileEntry_field v hand hor] at h
    rw [entryLeaves, Filter.foldEntry_field _ _ _ v hand hor, ClausesOf, List.flatMap_singleton]
    exact leafClauses_of_compileField h

mutual
theorem clausesOf_compile : ∀ {v x}, r.compile checked v = .ok x → r.NoneAlways checked (Filter.alternatives v) →
    r.ClausesOf (r.leaves v) [x]
  | .null, x, h, _ => by
    simp only [FilterRules.compile, Except.ok.injEq] at h
    subst h
    rfl
  | .object entries, x, h, hnone => by
    simp only [FilterRules.compile, map_eq_ok_iff] at h
    obtain ⟨xs, hxs, rfl⟩ := h
    rw [Filter.alternatives] at hnone
    exact (clausesOf_compileEntries hxs hnone).conj

theorem clausesOf_compileEntries : ∀ {entries xs}, r.compileEntries checked entries = .ok xs →
    r.NoneAlways checked (Filter.entriesAlternatives entries) → r.ClausesOf (r.entriesLeaves entries) xs
  | [], xs, h, _ => by
    simp only [FilterRules.compileEntries, Except.ok.injEq] at h
    subst h
    rfl
  | (key, v) :: rest, xs, h, hnone => by
    simp only [compileEntries_cons, bind_eq_ok_iff, pure_eq_ok_iff] at h
    obtain ⟨x, hx, ys, hys, rfl⟩ := h
    rw [Filter.entriesAlternatives_cons, noneAlways_append] at hnone
    rw [entriesLeaves_cons]
    exact (clausesOf_compileEntry clausesOf_compileOperand hx hnone.1).append (clausesOf_compileEntries hys hnone.2)

theorem clausesOf_compileOperand {connective : String} : ∀ {v xs}, r.compileOperand checked connective v = .ok xs →
    r.NoneAlways checked (Filter.operandAlternatives v) → r.ClausesOf (r.operandLeaves v) xs
  | .list items, xs, h, hnone =>
    clausesOf_compileItems (by simpa only [FilterRules.compileOperand] using h)
      (by simpa only [Filter.operandAlternatives] using hnone)
  | .tuple items, xs, h, hnone =>
    clausesOf_compileItems (by simpa only [FilterRules.compileOperand] using h)
      (by simpa only [Filter.operandAlternatives] using hnone)
  | .mapping a b c, xs, h, hnone => by
    simp only [FilterRules.compileOperand, bind_eq_ok_iff, pure_eq_ok_iff] at h
    obtain ⟨x, hx, y, hy, z, hz, rfl⟩ := h
    rw [Filter.operandAlternatives, noneAlways_append, noneAlways_append] at hnone
    obtain ⟨ha, hb, hc⟩ := hnone
    rw [operandLeaves_mapping]
    exact (clausesOf_compile hx ha).append ((clausesOf_compile hy hb).append (clausesOf_compile hz hc))

theorem clausesOf_compileItems : ∀ {items xs}, r.compileItems checked items = .ok xs →
    r.NoneAlways checked (Filter.itemsAlternatives items) → r.ClausesOf (r.itemsLeaves items) xs
  | [], xs, h, _ => by
    simp only [FilterRules.compileItems, Except.ok.injEq] at h
    subst h
    rfl
  | v :: vs, xs, h, hnone => by
    simp only [compileItems_cons, bind_eq_ok_iff, pure_eq_ok_iff] at h
    obtain ⟨x, hx, ys, hys, rfl⟩ := h
    rw [Filter.itemsAlternatives, noneAlways_append] at hnone
    rw [itemsLeaves_cons]
    exact (clausesOf_compile hx hnone.1).append (clausesOf_compileItems hys hnone.2)
end

/-- What compiles joins exactly what its leaves are behind, once each. Unless an alternative always holds, it has one
clause for each leaf, in the order of the leaves. -/
theorem compile_leaves {v : Value} {x : Criteria} (h : r.compile checked v = .ok x) :
    (x.joins.Sorted ∧ ∀ chain, chain ∈ x.joins ↔ ∃ l ∈ r.leaves v, r.IsBehind chain l) ∧
      (r.NoneAlways checked (Filter.alternatives v) → (r.leaves v).mapM r.leafClause = .ok x.predicate.clauses) := by
  refine ⟨tied_joins.compile h, fun hnone => ?_⟩
  have hclauses := clausesOf_compile h hnone
  rwa [ClausesOf, List.flatMap_singleton] at hclauses

theorem compile_leaves_branching : ∃ x, (Shop.products Shop.fullCatalog {}).compile true Shop.branching = .ok x ∧
    ["owner"] ∈ x.joins ∧ ((Shop.products Shop.fullCatalog {}).leaves Shop.branching).length = 4 ∧
      ((Shop.products Shop.fullCatalog {}).leaves Shop.branching).mapM (Shop.products Shop.fullCatalog {}).leafClause =
        .ok x.predicate.clauses := by
  obtain ⟨x, hx⟩ : ∃ x, (Shop.products Shop.fullCatalog {}).compile true Shop.branching = .ok x := ⟨_, rfl⟩
  obtain ⟨⟨-, hjoins⟩, hclauses⟩ := compile_leaves hx
  refine ⟨x, hx, (hjoins _).mpr ?_, rfl, hclauses ?_⟩
  · exact ⟨⟨.text "owner.id", some (.text "eq"), .text "ext-007"⟩, .tail _ (.tail _ (.head _)), List.cons_ne_nil _ _, _,
      rfl, rfl⟩
  · intro v hv y hy
    rcases List.mem_pair.mp hv with rfl | rfl
    · cases hy
      rfl
    · cases hy
      rfl

end FilterRules

end Sift
