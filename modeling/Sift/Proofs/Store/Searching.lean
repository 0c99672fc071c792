import Mathlib.Data.List.TakeWhile
import Sift.Proofs.Filter.Related
import Sift.Proofs.Operator.Patterns
import Sift.Proofs.Request.Fields
import Sift.Proofs.Sample
import Sift.Proofs.Store.Asking

/-!
# Searching texts

A store ignores the case of ASCII letters wherever it matches a pattern, and looks at texts up to their first null
character. So the operators that look for a text at a place of a column find it there whatever its case is, those that
are to ignore case and those that are not alike.
-/

namespace Sift

/-! ## What is visible of a pattern -/

namespace Pattern

/-- The place where a pattern looks for what is left of a text whose end is cut off: the run of characters after it is cut
off as well. -/
def Place.cut : Place → Option Place
  | .atStart => none
  | _ => some .atEnd

/-- Where marks are visible, what is visible of an escaped text is the escaped text of what is visible of it. -/
theorem takeWhile_escape_append {p : Char → Bool} (hp : ∀ c, IsMark c → p c = true) (v q : List Char) :
    (escape v ++ q).takeWhile p = escape (v.takeWhile p) ++ if v.all p then q.takeWhile p else [] := by
  induction v with
  | nil => simp [escape]
  | cons c v ih =>
    by_cases hc : IsMark c
    · have hbackslash : p '\\' = true := hp '\\' (.inl rfl)
      simp [escape_of_isMark hc, hp c hc, hbackslash, ih]
    · rw [escape_of_not_isMark hc, List.cons_append, List.takeWhile_cons, List.takeWhile_cons, List.all_cons]
      cases p c with
      | true => simp [escape_of_not_isMark hc, ih]
      | false => simp [escape]

end Pattern

namespace Cell

/-- Is the character not the null character, which ends a text for patterns? -/
def inSight (c : Char) : Bool := c.toNat ≠ 0

theorem visible_eq (s : String) : visible s = s.toList.takeWhile inSight := rfl

/-- The place where a store looks for a text at a place: a text with a null character is cut off there. -/
def sought (place : Pattern.Place) (v : String) : Option Pattern.Place :=
  if visible v = v.toList then some place else place.cut

theorem any_before_sought (place : Pattern.Place) (v : String) : (sought place v).any Pattern.Place.before = place.before := by
  unfold sought
  split
  · rfl
  · cases place <;> rfl

theorem any_after_sought (place : Pattern.Place) (v : String) :
    (sought place v).any Pattern.Place.after = (v.toList.all inSight && place.after) := by
  have hwhole : visible v = v.toList ↔ v.toList.all inSight = true := by
    rw [visible_eq, List.takeWhile_eq_self_iff, List.all_eq_true]
  unfold sought
  split
  · rename_i h
    rw [hwhole.mp h, Bool.true_and]
    rfl
  · rename_i h
    rw [Bool.eq_false_iff.mpr (hwhole.not.mp h), Bool.false_and]
    cases place <;> rfl

theorem visible_around (place : Pattern.Place) (v : String) :
    visible (place.around (Pattern.escaped v)) =
      (Pattern.looking (sought place v) (String.ofList (visible v))).toList := by
  have hmarks : ∀ c, Pattern.IsMark c → inSight c = true := by
    rintro c (rfl | rfl | rfl) <;> rfl
  have hrun : ∀ (b : Bool) (q : List Char), ((if b then ['%'] else []) ++ q).takeWhile inSight =
      (if b then ['%'] else []) ++ q.takeWhile inSight := by
    intro b q
    cases b <;> rfl
  have hend : (if place.after then ['%'] else []).takeWhile inSight = if place.after then ['%'] else [] := by
    simpa using hrun place.after []
  have hlooking : (place.around (Pattern.escaped v)).toList = Pattern.framed place.before place.after v.toList :=
    Pattern.toList_looking (some place) v
  rw [visible_eq, hlooking, Pattern.toList_looking, any_before_sought, any_after_sought, String.toList_ofList,
    Pattern.framed, Pattern.framed, List.append_assoc, hrun, Pattern.takeWhile_escape_append hmarks, hend, visible_eq]
  cases v.toList.all inSight <;> simp

theorem like_around {c : Cell} (hc : c.isNull = false) (place : Pattern.Place) (v : String) :
    c.like (.text (place.around (Pattern.escaped v))) = .yes ↔
      Pattern.Occurs (alike · ·) (sought place v) (visible v) (visible c.shown) := by
  have htext : ∀ t : String, (Cell.text t).isNull = false := fun _ => rfl
  have hyes : ∀ b : Bool, Truth.ofBool b = .yes ↔ b = true := by decide
  have hmarks : ∀ c d, Pattern.IsMark c → (alike c d = true ↔ alike c d = true) := fun _ _ _ => Iff.rfl
  rw [like, compareWith, hc, htext, Bool.or_false, if_neg Bool.false_ne_true, hyes, shown, visible_around,
    Pattern.matchText_iff_like, Pattern.like_looking_iff hmarks, String.toList_ofList]

end Cell

/-! ## Asking for patterns -/

namespace OperatorKind

/-- Does the kind ask whether a pattern matches? -/
def Matches (kind : OperatorKind) : Prop := kind = .like ∨ kind = .ilike

theorem Matches.isTextual {kind : OperatorKind} (h : kind.Matches) : kind.isTextual = true := by
  rcases h with rfl | rfl <;> rfl

end OperatorKind

variable {kind : OperatorKind} {column : Storage} {m : Matcher} {t : String}

theorem Comparison.operands_text {storage : Storage} (hkind : kind.Matches)
    (hhand : storage.handOver (.text t) = .ok (.text t)) :
    (Comparison.mk kind storage [.text t]).operands column = .ok [.text t] := by
  have hdrawn : (Comparison.mk kind storage [.text t]).isDrawn = false := by
    rcases hkind with rfl | rfl <;> rfl
  simp only [operands, handedOver, List.mapM_cons, List.mapM_nil, hhand, hdrawn, bind, Except.bind, pure, Except.pure,
    Storage.takeIn, Bool.false_eq_true, if_false]

/-- A text is handed over as it is, and no column draws it to its side. -/
theorem Matcher.exists_operands (hm : m ≠ .none) (hcolumn : column.columnType = .text) (hkind : kind.Matches)
    (t : String) : ∃ x, m.comparison column kind (.text t) = .ok x ∧ x.Taken ∧ x.kind = kind ∧
      x.operands column = .ok [.text t] := by
  have hcomparing : (column.comparing (.text t)).handOver (.text t) = .ok (.text t) := by
    cases column with
    | text | wrapped | choice words => rfl
    | _ => cases hcolumn
  obtain ⟨x, hx, htaken⟩ := exists_comparison_text hm hcolumn hkind.isTextual t
  refine ⟨x, hx, htaken, ?_⟩
  have hordered : Comparison.ofOrdered kind column (.text t) = .ok ⟨kind, column.comparing (.text t), [.text t]⟩ := rfl
  rcases hkind with rfl | rfl
  · cases hordered.symm.trans hx
    exact ⟨rfl, Comparison.operands_text (.inl rfl) hcomparing⟩
  · cases m with
    | patterns =>
      cases hordered.symm.trans hx
      exact ⟨rfl, Comparison.operands_text (.inr rfl) hcomparing⟩
    | lowering =>
      cases hx
      exact ⟨rfl, Comparison.operands_text (.inr rfl) rfl⟩
    | none => exact absurd rfl hm

namespace Store

variable {s : Store} {entity name : String} {type : ColumnType}

theorem clauseTruth_text (hm : s.matcher ≠ .none)
    (hst : s.storageOf entity { entity := .text entity, column := name, type } = column)
    (hcolumn : column.columnType = .text) (hkind : kind.Matches) (t token : String) :
    s.Askable entity ⟨{ entity := .text entity, column := name, type }, kind, .text t, token⟩ ∧ ∀ r : Record,
      s.clauseTruth entity r ⟨{ entity := .text entity, column := name, type }, kind, .text t, token⟩ =
        (r.cell name).like (.text t) := by
  obtain ⟨x, hx, htaken, rfl, hoperands⟩ := Matcher.exists_operands hm hcolumn hkind t
  have hask : s.comparison entity ⟨{ entity := .text entity, column := name, type }, x.kind, .text t, token⟩ = .ok x := by
    rw [comparison, hst, hx]
  refine ⟨⟨x, hask, htaken⟩, fun r => ?_⟩
  have hmatch : ∀ c : Cell, c.satisfies x.kind [.text t] = c.like (.text t) := by
    intro c
    rcases hkind with hkind | hkind <;> rw [hkind] <;> rfl
  show s.columnTruth entity _ r = _
  simp only [columnTruth, hask, comparisonTruth, hst, hoperands, reaches, hmatch]

/-! ## Searching columns -/

/-- A column of texts of an entity, under a name that a request can write for it. -/
structure HasText (s : Store) (entity column : String) : Prop where
  stored : ∃ m st, Model.find? s.models entity = some m ∧ m.columns.get? column = some st ∧ st.columnType = .text
  plain : Scope.IsPath [column]
  noConnective : column ≠ "and" ∧ column ≠ "or"

end Store

/-- The tokens of the operators that look for a text at a place; the second one is to ignore case. -/
def Pattern.Place.tokens : Pattern.Place → List String
  | .anywhere => ["contains", "icontains"]
  | .atStart => ["starts_with", "istarts_with"]
  | .atEnd => ["ends_with", "iends_with"]

theorem Registry.exists_search {place : Pattern.Place} {token : String} (h : token ∈ place.tokens) :
    ∃ kind : OperatorKind, kind.Matches ∧ Registry.default.get? token = some (Operator.search token kind place) := by
  cases place with
  | anywhere =>
    rcases List.mem_pair.mp h with rfl | rfl
    · exact ⟨.like, .inl rfl, rfl⟩
    · exact ⟨.ilike, .inr rfl, rfl⟩
  | atStart =>
    rcases List.mem_pair.mp h with rfl | rfl
    · exact ⟨.like, .inl rfl, rfl⟩
    · exact ⟨.ilike, .inr rfl, rfl⟩
  | atEnd =>
    rcases List.mem_pair.mp h with rfl | rfl
    · exact ⟨.like, .inl rfl, rfl⟩
    · exact ⟨.ilike, .inr rfl, rfl⟩

theorem Operator.prepare_search (token : String) (kind : OperatorKind) (place : Pattern.Place) (name v : String) :
    (search token kind place).prepare name .text (.text v) = .ok (.text (place.around (Pattern.escaped v))) := rfl

namespace Store

/-- The rules for filters on an entity where nothing is configured. -/
def plainRules (s : Store) (entity : String) (includes : IncludeTree) : FilterRules :=
  .ofScope { catalog := .ofModels s.models, entity, includes } {} .default

variable {s : Store} {entity column : String}

theorem HasText.resolve (h : s.HasText entity column) (hc : (Catalog.ofModels s.models).WellFormed entity)
    (includes : IncludeTree) : (s.plainRules entity includes).resolve (.text column) =
      .ok { entity := .text entity, column, type := .text } := by
  obtain ⟨m, st, hm, hst, htext⟩ := h.stored
  have hplain : (s.plainRules entity includes).scope.IsPlain := ⟨rfl, rfl, rfl⟩
  have htype := Catalog.columnType_ofModels hm hst
  have hhas := Catalog.hasColumn_ofModels hm hst
  rw [Section.resolve, Policy.toInternal]
  show (s.plainRules entity includes).scope.resolve (.text column) _ _ = _
  rw [Scope.resolve_own (hplain.path column) h.plain]
  obtain ⟨-, type, htype', hown⟩ | ⟨hnone, -⟩ := hplain.ownField_cases hc column _ _
  · cases htype.symm.trans htype'
    rw [hown, htext]
    rfl
  · exact absurd ⟨.inl rfl, [], .nil _, hhas⟩ hnone

theorem HasText.permits (h : s.HasText entity column) (hc : (Catalog.ofModels s.models).WellFormed entity)
    (includes : IncludeTree) : (s.plainRules entity includes).permits (.text column) = true := by
  rw [Section.permits_eq (h.resolve hc includes), Policy.allows_eq]
  rfl

/-- A filter that looks for a text at a place of a column selects the records that have it there whatever its case is,
whether its operator is one that ignores case or not. What follows a null character is not looked at. -/
theorem searches_ignore_case (hmatcher : s.matcher ≠ .none) (hc : (Catalog.ofModels s.models).WellFormed entity)
    (hcolumn : s.HasText entity column) (includes : IncludeTree) (checked : Bool) (place : Pattern.Place) {token : String}
    (htoken : token ∈ place.tokens) (v : String) :
    ∃ c, (s.plainRules entity includes).compile checked
        (.object [(.text column, .object [(.text token, .text v)])]) = .ok c ∧
      (∀ d ∈ c.predicate.clauses, s.Askable entity d) ∧
      ∀ r : Record, (r.cell column).isNull = false → (s.meets entity c.predicate r = true ↔
        Pattern.Occurs (Cell.alike · ·) (Cell.sought place v) (Cell.visible v) (Cell.visible (r.cell column).shown)) := by
  obtain ⟨m, st, hm, hst, htext⟩ := hcolumn.stored
  obtain ⟨hand, hor⟩ := hcolumn.noConnective
  obtain ⟨kind, hkind, hop⟩ := Registry.exists_search htoken
  have hstorage : s.storageOf entity { entity := .text entity, column, type := .text } = st := by
    rw [storageOf, show s.targetOf entity [] = entity from rfl, hm, Option.bind_some, hst, Option.getD_some]
  obtain ⟨hask, htruth⟩ := clauseTruth_text hmatcher hstorage htext hkind (place.around (Pattern.escaped v)) token
  have hcompile : (s.plainRules entity includes).compile checked
      (.object [(.text column, .object [(.text token, .text v)])]) =
        .ok ⟨.clause ⟨{ entity := .text entity, column, type := .text }, kind, .text (place.around (Pattern.escaped v)),
          token⟩, []⟩ := by
    rw [FilterRules.compile_single hand hor (hcolumn.resolve hc includes) (fun _ => hcolumn.permits hc includes) hop,
      Operator.prepare_search]
    rfl
  refine ⟨_, hcompile, fun d hd => ?_, fun r hr => ?_⟩
  · obtain rfl := List.mem_singleton.mp hd
    exact hask
  · rw [meets, decide_eq_true_iff, Predicate.truth, ← Cell.like_around hr]
    exact htruth r ▸ Iff.rfl

end Store

namespace Shop

def named (id : Int) (name : String) : Record :=
  record product [.integer id, .text name, .null, .null, .null, .null, .null, .null]

def laptops : Store where
  models := [user, product]
  tables := [("Product", [named 1 "Laptop"])]

def searching (token v : String) : Value :=
  .object [(.text "name", .object [(.text token, .text v)])]

def found (token v : String) : Except Fault (List Bool) := do
  let c ← (laptops.plainRules "Product" owners).compile true (searching token v)
  return (laptops.records "Product").map (laptops.meets "Product" c.predicate)

end Shop

namespace Store

theorem searches_ignore_case_laptops : ∃ c d,
    (Shop.laptops.plainRules "Product" Shop.owners).compile true (Shop.searching "contains" "LAP") = .ok c ∧
      (Shop.laptops.plainRules "Product" Shop.owners).compile true (Shop.searching "iends_with" "TOP") = .ok d ∧
        Shop.laptops.meets "Product" c.predicate (Shop.named 1 "Laptop") = true ∧
          Shop.laptops.meets "Product" d.predicate (Shop.named 1 "Laptop") = true := by
  have hc : (Catalog.ofModels Shop.laptops.models).WellFormed "Product" :=
    Catalog.wellFormed_ofModels (m := Shop.product) rfl (by decide)
  have hname : Shop.laptops.HasText "Product" "name" := ⟨⟨Shop.product, .text, rfl, rfl, rfl⟩, by decide, by decide⟩
  obtain ⟨c, hcompile, -, hselects⟩ := searches_ignore_case (by decide) hc hname Shop.owners true .anywhere
    List.mem_cons_self "LAP"
  obtain ⟨d, hcompile', -, hselects'⟩ := searches_ignore_case (by decide) hc hname Shop.owners true .atEnd
    (List.mem_cons_of_mem _ List.mem_cons_self) "TOP"
  refine ⟨c, d, hcompile, hcompile', (hselects _ rfl).mpr ?_, (hselects' _ rfl).mpr ?_⟩
  · exact ⟨"Lap".toList, ⟨[], "top".toList, rfl⟩, by decide⟩
  · exact ⟨"top".toList, ⟨"Lap".toList, rfl⟩, by decide⟩

/-- A text is found in another one that has it in another case only, by the operators that are not to ignore case. -/
theorem not_case_sensitive :
    (Shop.found "contains" "LAPTOP").toOption = some [true] ∧ (Shop.found "starts_with" "LAPTOP").toOption = some [true] ∧
      (Shop.found "ends_with" "LAPTOP").toOption = some [true] ∧ ¬"LAPTOP".toList <:+: "Laptop".toList := by
  refine ⟨?_, ?_, ?_, by decide⟩
  · decide +kernel
  · decide +kernel
  · decide +kernel

end Store

end Sift
