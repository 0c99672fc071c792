import Sift.Proofs.Filter.Reading
import Sift.Proofs.Predicate.Clauses

/-!
# The fields of a filter

Compiling asks for every field of a filter, wherever it stands and whether or not a clause comes of it, and for no
other. So what a second compilation comes to is known once it is known what each field comes to the second time.
-/

namespace Sift

namespace Filter

/-- The names of fields in a filter, in the order in which they stand there. -/
def keys : Value → List Value :=
  fold (fun key _ => [key]) List.flatten List.flatten

def entryKeys : Value → Value → List Value :=
  foldEntry (fun key _ => [key]) List.flatten List.flatten

def entriesKeys (entries : List (Value × Value)) : List Value :=
  (foldEntries (fun key _ => [key]) List.flatten List.flatten entries).flatten

def operandKeys (v : Value) : List Value :=
  (foldOperand (fun key _ => [key]) List.flatten List.flatten v).flatten

def itemsKeys (vs : List Value) : List Value :=
  (foldItems (fun key _ => [key]) List.flatten List.flatten vs).flatten

theorem keys_object (entries : List (Value × Value)) : keys (.object entries) = entriesKeys entries := rfl

theorem entriesKeys_cons (key v : Value) (rest : List (Value × Value)) :
    entriesKeys ((key, v) :: rest) = entryKeys key v ++ entriesKeys rest := by
  rw [entriesKeys, foldEntries_cons, List.flatten_cons]
  rfl

theorem entryKeys_and (v : Value) : entryKeys (.text "and") v = operandKeys v := rfl

theorem entryKeys_or (v : Value) : entryKeys (.text "or") v = operandKeys v := rfl

theorem entryKeys_field {key : Value} (v : Value) (hand : key ≠ .text "and") (hor : key ≠ .text "or") :
    entryKeys key v = [key] :=
  foldEntry_field _ _ _ v hand hor

theorem operandKeys_list (items : List Value) : operandKeys (.list items) = itemsKeys items := rfl

theorem operandKeys_tuple (items : List Value) : operandKeys (.tuple items) = itemsKeys items := rfl

theorem operandKeys_mapping (a b c : Value) : operandKeys (.mapping a b c) = keys a ++ (keys b ++ keys c) := by
  simp only [operandKeys, foldOperand, keys, List.flatten_cons, List.flatten_nil, List.append_nil]

theorem itemsKeys_cons (v : Value) (vs : List Value) : itemsKeys (v :: vs) = keys v ++ itemsKeys vs := by
  simp only [itemsKeys, foldItems, keys, List.flatten_cons]

end Filter

namespace FilterRules

variable {r : FilterRules} {checked : Bool}

/-! ## Where clauses come from -/

theorem field_of_clause {name : String} {ref : FieldRef} {op : Operator} {operand : Value} {c : Clause}
    (h : clause name ref op operand = .ok c) : c.field = ref := by
  simp only [clause, bind_eq_ok_iff, pure_eq_ok_iff] at h
  obtain ⟨_, _, rfl⟩ := h
  rfl

theorem resolve_of_comparisons {name v : Value} {cs : List Clause} (h : r.comparisons name v = .ok cs) :
    ∀ c ∈ cs, r.resolve name = .ok c.field := by
  simp only [comparisons, bind_eq_ok_iff] at h
  obtain ⟨ref, href, ops, -, hcs⟩ := h
  intro c hc
  obtain ⟨_, _, hclause⟩ := mem_of_mapM_eq_ok hcs c hc
  rw [field_of_clause hclause, href]

theorem field_of_compileField {name v : Value} {x : Criteria} (h : r.compileField checked name v = .ok x) :
    ∃ ref, r.field checked name = .ok ref := by
  simp only [compileField, bind_eq_ok_iff] at h
  obtain ⟨ref, href, -⟩ := h
  exact ⟨ref, href⟩

/-- What compiles has looked all of its fields up, and its clauses compare no other ones. -/
structure Grounded (r : FilterRules) (checked : Bool) (x : Criteria) (keys : List Value) : Prop where
  field : ∀ key ∈ keys, ∃ ref, r.field checked key = .ok ref
  clause : ∀ c ∈ x.predicate.clauses, ∃ key ∈ keys, r.resolve key = .ok c.field

theorem mem_flatten_of_grounded {xs : List Criteria} {kss : List (List Value)}
    (h : List.Forall₂ (r.Grounded checked) xs kss) :
    (∀ key ∈ kss.flatten, ∃ ref, r.field checked key = .ok ref) ∧
      ∀ x ∈ xs, ∀ c ∈ x.predicate.clauses, ∃ key ∈ kss.flatten, r.resolve key = .ok c.field := by
  induction h with
  | nil => exact ⟨fun _ h => (nomatch h), fun _ h => (nomatch h)⟩
  | cons hx _ ih =>
    rw [List.flatten_cons]
    constructor
    · intro key hk
      rcases List.mem_append.mp hk with hk | hk
      · exact hx.field key hk
      · exact ih.1 key hk
    · intro y hy c hc
      rcases List.mem_cons.mp hy with rfl | hy
      · obtain ⟨key, hk, hr⟩ := hx.clause c hc
        exact ⟨key, List.mem_append_left _ hk, hr⟩
      · obtain ⟨key, hk, hr⟩ := ih.2 y hy c hc
        exact ⟨key, List.mem_append_right _ hk, hr⟩

theorem tied_grounded :
    r.Tied checked (fun key _ => [key]) List.flatten List.flatten (r.Grounded checked) where
  field h := by
    obtain ⟨cs, hcs, hx⟩ := compileField_comparisons h
    refine ⟨fun key hk => ?_, fun c hc => ?_⟩
    · rw [List.mem_singleton.mp hk]
      exact field_of_compileField h
    · rw [hx, Predicate.clauses_conj_clause] at hc
      exact ⟨_, List.mem_singleton_self _, resolve_of_comparisons hcs c hc⟩
  conj h := by
    obtain ⟨hfield, hclause⟩ := mem_flatten_of_grounded h
    refine ⟨hfield, fun c hc => ?_⟩
    rw [Criteria.conj, Predicate.clauses_conj, List.flatMap_map] at hc
    obtain ⟨x, hx, hc⟩ := List.mem_flatMap.mp hc
    exact hclause x hx c hc
  disj h := by
    obtain ⟨hfield, hclause⟩ := mem_flatten_of_grounded h
    refine ⟨hfield, fun c hc => ?_⟩
    obtain ⟨p, hp, hc⟩ := Predicate.mem_clauses_of_disj hc
    obtain ⟨x, hx, rfl⟩ := List.mem_map.mp hp
    exact hclause x hx c hc

theorem grounded_of_compile {v : Value} {x : Criteria} (h : r.compile checked v = .ok x) :
    r.Grounded checked x (Filter.keys v) :=
  tied_grounded.compile h

/-! ## A second time -/

variable {r' : FilterRules} {checked' : Bool} {ask : Value → Except Fault Unit}

/-- Other rules that find every field again and do something else before. -/
structure Retraced (r : FilterRules) (checked : Bool) (r' : FilterRules) (checked' : Bool)
    (ask : Value → Except Fault Unit) : Prop where
  registry : r'.registry = r.registry
  field : ∀ {key ref}, r.field checked key = .ok ref → r'.field checked' key = (do ask key; return ref)

theorem fieldClauses_congr (h : r'.registry = r.registry) (name : String) (ref : FieldRef) (v : Value) :
    r'.fieldClauses name ref v = r.fieldClauses name ref v := by
  have hknown : r'.known = r.known := by
    funext entry
    rw [known, known, h]
  cases v with
  | object entries => simp only [fieldClauses, operatorClauses, hknown, h]
  | _ => simp only [fieldClauses, h]

theorem Retraced.compileField (t : Retraced r checked r' checked' ask) {name v : Value} {x : Criteria}
    (h : r.compileField checked name v = .ok x) :
    r'.compileField checked' name v = (do ask name; return x) := by
  simp only [FilterRules.compileField, bind_eq_ok_iff, pure_eq_ok_iff] at h
  obtain ⟨ref, href, cs, hcs, rfl⟩ := h
  simp only [FilterRules.compileField, t.field href, bind_assoc, pure_bind, fieldClauses_congr t.registry, hcs]
  rfl

/-- The step of an entry: a connective asks for what its operand asks for. -/
theorem Retraced.compileEntry (t : Retraced r checked r' checked' ask) {key v : Value} {x : Criteria}
    (operand : ∀ {connective xs}, r.compileOperand checked connective v = .ok xs →
      r'.compileOperand checked' connective v = (do forM (Filter.operandKeys v) ask; return xs))
    (h : r.compileEntry checked key v = .ok x) :
    r'.compileEntry checked' key v = (do forM (Filter.entryKeys key v) ask; return x) := by
  by_cases hand : key = .text "and"
  · subst hand
    obtain ⟨xs, hxs, rfl⟩ := map_eq_ok_iff.mp h
    simp only [FilterRules.compileEntry, operand hxs, Filter.entryKeys_and, map_bind, map_pure]
  · by_cases hor : key = .text "or"
    · subst hor
      obtain ⟨xs, hxs, rfl⟩ := map_eq_ok_iff.mp h
      simp only [FilterRules.compileEntry, operand hxs, Filter.entryKeys_or, map_bind, map_pure]
    · rw [compileEntry_field v hand hor] at h ⊢
      rw [Filter.entryKeys_field v hand hor, t.compileField h, List.forM_cons, List.forM_nil]
      simp only [bind_pure_unit]

mutual
theorem Retraced.compile (t : Retraced r checked r' checked' ask) :
    ∀ {v x}, r.compile checked v = .ok x → r'.compile checked' v = (do forM (Filter.keys v) ask; return x)
  | .null, x, h => h
  | .object entries, x, h => by
    simp only [FilterRules.compile, map_eq_ok_iff] at h
    obtain ⟨xs, hxs, rfl⟩ := h
    simp only [FilterRules.compile, Retraced.compileEntries t hxs, Filter.keys_object, map_bind, map_pure]

theorem Retraced.compileEntries (t : Retraced r checked r' checked' ask) :
    ∀ {entries xs}, r.compileEntries checked entries = .ok xs →
      r'.compileEntries checked' entries = (do forM (Filter.entriesKeys entries) ask; return xs)
  | [], xs, h => h
  | (key, v) :: rest, xs, h => by
    simp only [compileEntries_cons, bind_eq_ok_iff, pure_eq_ok_iff] at h
    obtain ⟨x, hx, ys, hys, rfl⟩ := h
    simp only [compileEntries_cons, Retraced.compileEntry t (Retraced.compileOperand t) hx,
      Retraced.compileEntries t hys, Filter.entriesKeys_cons, List.forM_append, bind_assoc, pure_bind]

theorem Retraced.compileOperand (t : Retraced r checked r' checked' ask) {connective : String} :
    ∀ {v xs}, r.compileOperand checked connective v = .ok xs →
      r'.compileOperand checked' connective v = (do forM (Filter.operandKeys v) ask; return xs)
  | .list items, xs, h => by
    simp only [FilterRules.compileOperand, Filter.operandKeys_list] at h ⊢
    exact Retraced.compileItems t h
  | .tuple items, xs, h => by
    simp only [FilterRules.compileOperand, Filter.operandKeys_tuple] at h ⊢
    exact Retraced.compileItems t h
  | .mapping a b c, xs, h => by
    simp only [FilterRules.compileOperand, bind_eq_ok_iff, pure_eq_ok_iff] at h
    obtain ⟨x, hx, y, hy, z, hz, rfl⟩ := h
    simp only [FilterRules.compileOperand, Retraced.compile t hx, Retraced.compile t hy, Retraced.compile t hz,
      Filter.operandKeys_mapping, List.forM_append, bind_assoc, pure_bind]

theorem Retraced.compileItems (t : Retraced r checked r' checked' ask) :
    ∀ {items xs}, r.compileItems checked items = .ok xs →
      r'.compileItems checked' items = (do forM (Filter.itemsKeys items) ask; return xs)
  | [], xs, h => h
  | v :: vs, xs, h => by
    simp only [compileItems_cons, bind_eq_ok_iff, pure_eq_ok_iff] at h
    obtain ⟨x, hx, ys, hys, rfl⟩ := h
    simp only [compileItems_cons, Retraced.compile t hx, Retraced.compileItems t hys, Filter.itemsKeys_cons,
      List.forM_append, bind_assoc, pure_bind]
end

end FilterRules

end Sift
