import Sift.Proofs.Endpoint.Parameters
import Sift.Proofs.Ordering.Spellings
import Sift.Proofs.Text.Form

/-!
# Signs in query strings

A query string is a form, where a plus sign is read as a space. The fields of an ordering therefore lose the sign for
the ascending direction on their way through a query string, and get the direction of the fields without a sign.
-/

namespace Sift

namespace SignedField

variable {f : SignedField} {fs : List SignedField} {d : Option Direction}

/-- The query string of an ordering, with a direction for the fields without a sign or without one. -/
def query (fs : List SignedField) (d : Option Direction) : String :=
  Text.formText (("order_by", listing fs) :: d.toList.map fun d => ("order_dir", d.word))

example : query [Shop.byName (some .ascending), Shop.byName none] (some .descending) =
    "order_by=+name,name&order_dir=DESC" := by decide

/-- The field as a query string has it read, where the sign for the ascending direction is not seen. -/
def heard (f : SignedField) : SignedField := { f with sign := f.sign.filter (· = .descending) }

/-- No character of the name is read as something else in a query string. -/
def Queryable (f : SignedField) : Prop := ∀ c ∈ f.name.toList, c ≠ '%' ∧ c ≠ '&' ∧ c ≠ '+'

instance (f : SignedField) : Decidable f.Queryable :=
  decidable_of_iff (f.name.toList.all (fun c => c ≠ '%' ∧ c ≠ '&' ∧ c ≠ '+') = true) <| by
    simp only [List.all_eq_true, decide_eq_true_eq, Queryable]

theorem getD_heard_iff (f : SignedField) {default : Direction} :
    f.heard.sign.getD default = f.sign.getD default ↔ (f.sign = some .ascending → default = .ascending) := by
  unfold heard
  cases hs : f.sign with
  | none => simp
  | some d => cases d <;> simp [Option.filter]

theorem not_mem_listing {c : Char} (hc : c ≠ ',') (hmark : ∀ d : Direction, c ≠ d.mark)
    (h : ∀ f ∈ fs, c ∉ f.name.toList) : c ∉ (listing fs).toList := by
  rw [toList_listing]
  refine Text.not_mem_intercalate hc fun p hp => ?_
  obtain ⟨f, hf, rfl⟩ := List.mem_map.mp hp
  rw [toList_text, List.mem_append, List.mem_map, not_or]
  exact ⟨fun ⟨d, _, hd⟩ => hmark d hd.symm, h f hf⟩

theorem Queryable.writesItem (h : f.Queryable) : WritesItem (f.text.toList.map Text.formChar) [f.heard] := by
  have hname : f.name.toList.map Text.formChar = f.name.toList := Text.map_formChar fun hplus => (h '+' hplus).2.2 rfl
  rw [toList_text, List.map_append, hname]
  match hs : f.sign with
  | none =>
    have hheard : f.heard.sign = none := by rw [heard, hs, Option.filter_none]
    have hitem := WritesItem.unsigned f.heard [] [] hheard nofun nofun
    rwa [List.append_nil] at hitem
  | some .ascending =>
    have hheard : f.heard.sign = none := by rw [heard, hs]; rfl
    have hitem := WritesItem.unsigned f.heard [' '] [] hheard (by decide) nofun
    rwa [List.append_nil] at hitem
  | some .descending =>
    have hheard : f.heard.sign = some .descending := by rw [heard, hs]; rfl
    have hitem := WritesItem.signed f.heard .descending [] [] [] hheard nofun nofun nofun
    rwa [List.append_nil] at hitem

/-- The listed fields are read from a query string, except for the signs that are not seen. -/
theorem spells_formDecoded (h : ∀ f ∈ fs, f.Queryable) :
    Spells (.text (Text.formDecoded (listing fs).toList)) (fs.map heard) := by
  have hmark : '%' ∉ (listing fs).toList :=
    not_mem_listing (by decide) (fun d => by cases d <;> decide) fun f hf hmem => (h f hf '%' hmem).1 rfl
  have htext : WritesText ((listing fs).toList.map Text.formChar) (fs.map heard) := by
    rw [toList_listing, Text.map_intercalate rfl, List.map_map]
    exact writesText_intercalate fun f hf => (h f hf).writesItem
  rw [Text.formDecoded_of_not_mem hmark]
  exact .item (.text (by rwa [String.toList_ofList]))

theorem formPairs_query (h : ∀ f ∈ fs, f.Queryable) (d : Option Direction) :
    Text.formPairs (query fs d) = ("order_by", Text.formDecoded (listing fs).toList) ::
      d.toList.map fun d => ("order_dir", d.word) := by
  have hand : '&' ∉ (listing fs).toList :=
    not_mem_listing (by decide) (fun d => by cases d <;> decide) fun f hf hmem => (h f hf '&' hmem).2.1 rfl
  have hname : '=' ∉ "order_by".toList ∧ '&' ∉ "order_by".toList := by decide
  have hdecoded : Text.formDecoded "order_by".toList = "order_by" := by decide
  have hdirection (d : Direction) :
      (Text.formDecoded "order_dir".toList, Text.formDecoded d.word.toList) = ("order_dir", d.word) := by
    cases d <;> decide
  rw [query, Text.formPairs_formText, List.map_cons, hdecoded, List.map_map]
  · exact congrArg _ (List.map_congr_left fun d _ => hdirection d)
  · refine List.forall_mem_cons.mpr ⟨⟨hname.1, hname.2, hand⟩, fun p hp => ?_⟩
    obtain ⟨d, -, rfl⟩ := List.mem_map.mp hp
    cases d <;> decide

end SignedField

namespace OrderRules

variable {r : OrderRules} {fs : List SignedField} {d : Option Direction} {o o' : SortOrder}

/-- Whether all columns are found does not depend on the directions. -/
theorem orderBy_eq (r : OrderRules) (fs : List SignedField) (d : Option Direction) :
    r.orderBy fs (SortOrder.directionValue d) = (do
      let refs ← fs.mapM fun f => r.column f.name
      r.complete (List.zipWith (fun named ref => ⟨named.1, ref, named.2⟩)
        (fs.map fun f => (f.name, f.sign.getD (d.getD r.defaultDirection))) refs)) := by
  calc r.orderBy fs (SortOrder.directionValue d)
      = (fs.mapM (fun f => do
          return ⟨f.name, ← r.column f.name, f.sign.getD (d.getD r.defaultDirection)⟩) >>= r.complete) := by
        rw [orderBy, SortOrder.parse_directionValue]
        rfl
    _ = _ := by
        rw [mapM_return (fun f : SignedField => r.column f.name)
          fun f ref => (⟨f.name, ref, f.sign.getD (d.getD r.defaultDirection)⟩ : OrderTerm)]
        simp only [bind_assoc, pure_bind, List.zipWith_map_left]

theorem directions_of_orderBy (h : r.orderBy fs (SortOrder.directionValue d) = .ok o) (hne : fs ≠ []) :
    o.terms.map OrderTerm.direction = fs.map fun f => f.sign.getD (d.getD r.defaultDirection) := by
  rw [orderBy, SortOrder.parse_directionValue] at h
  obtain ⟨_, ⟨⟩, h⟩ := bind_eq_ok_iff.mp h
  obtain ⟨terms, hterms, ho⟩ := bind_eq_ok_iff.mp h
  have hterms_ne : terms ≠ [] := fun hnil => hne ((eq_nil_iff_of_mapM_eq_ok hterms).mp hnil)
  rw [complete_of_ne_nil r hterms_ne] at ho
  cases ho
  refine map_eq_of_mapM_eq_ok (fun f t ht => ?_) hterms
  obtain ⟨ref, -, ht⟩ := bind_eq_ok_iff.mp ht
  cases ht
  rfl

/-- Signs that are not seen change nothing where the fields without a sign are in ascending order anyway, nor where the
ordering is refused. -/
theorem orderBy_heard (h : ∀ o, r.orderBy fs (SortOrder.directionValue d) = .ok o →
    ∀ f ∈ fs, f.sign = some .ascending → d.getD r.defaultDirection = .ascending) :
    r.orderBy (fs.map SignedField.heard) (SortOrder.directionValue d) = r.orderBy fs (SortOrder.directionValue d) := by
  have hcolumns : (fs.map SignedField.heard).mapM (fun f => r.column f.name) = fs.mapM fun f => r.column f.name :=
    List.mapM_map
  rw [orderBy_eq] at h
  rw [orderBy_eq, orderBy_eq, hcolumns]
  cases hrefs : fs.mapM fun f => r.column f.name with
  | error fault => rfl
  | ok refs =>
    rw [hrefs] at h
    -- without fields both fall back on the default one, which has no sign
    by_cases hnil : fs = []
    · rw [hnil]
      rfl
    · have hrefs_ne : refs ≠ [] := fun heq => hnil ((eq_nil_iff_of_mapM_eq_ok hrefs).mp heq)
      have hasc := h _ (complete_of_ne_nil r (by simp [hnil, hrefs_ne]))
      have hdirected : ((fs.map SignedField.heard).map fun f => (f.name, f.sign.getD (d.getD r.defaultDirection))) =
          fs.map fun f => (f.name, f.sign.getD (d.getD r.defaultDirection)) := by
        rw [List.map_map]
        exact List.map_congr_left fun f hf => Prod.ext rfl ((SignedField.getD_heard_iff f).mpr (hasc f hf))
      rw [hdirected]

theorem ascending_of_orderBy_heard (h : r.orderBy fs (SortOrder.directionValue d) = .ok o)
    (h' : r.orderBy (fs.map SignedField.heard) (SortOrder.directionValue d) = .ok o') (heq : o.terms = o'.terms)
    {f : SignedField} (hf : f ∈ fs) (hs : f.sign = some .ascending) : d.getD r.defaultDirection = .ascending := by
  have hne : fs ≠ [] := List.ne_nil_of_mem hf
  have hdirections := directions_of_orderBy h hne
  rw [heq, directions_of_orderBy h' (by simpa using hne), List.map_map] at hdirections
  exact (SignedField.getD_heard_iff f).mp (List.map_inj_left.mp hdirections f hf) hs

end OrderRules

namespace Endpoint

variable {e : Endpoint} {fs : List SignedField} {d : Option Direction} {includes : Value}

def Request.ordered (fs : List SignedField) (d : Option Direction) (includes : Value) : Request where
  ordering := .text (SignedField.listing fs)
  direction := SortOrder.directionValue d
  paging := .object (Row.ofList [("page", .null), ("size", .null)])
  includes
  echo := .object []

theorem entries_query (h : ∀ f ∈ fs, f.Queryable) (d : Option Direction) :
    (Parameters.query (SignedField.query fs d)).entries =
      .ok (.ok (.text "order_by", .text (Text.formDecoded (SignedField.listing fs).toList)) ::
        d.toList.map fun d => .ok (.text "order_dir", .text d.word)) := by
  have hquery : String.ofList ((SignedField.query fs d).toList.dropWhile (· = '?')) = SignedField.query fs d := by
    obtain ⟨rest, hrest⟩ := Text.exists_toList_formText ("order_by", SignedField.listing fs)
      (d.toList.map fun d => ("order_dir", d.word))
    have hname : "order_by".toList = 'o' :: "rder_by".toList := rfl
    rw [SignedField.query, hrest, hname, List.cons_append, List.dropWhile_cons_of_neg (by decide), ← List.cons_append,
      ← hname, ← hrest, String.ofList_toList]
  simp only [Parameters.entries, hquery, SignedField.formPairs_query h, List.map_cons, List.map_map]
  rfl

theorem ofParameters_query (h : ∀ f ∈ fs, f.Queryable) (d : Option Direction) (includes : Value) :
    Request.ofParameters (.text "") (.query (SignedField.query fs d)) includes = .ok { Request.ordered fs d includes with
      ordering := Parameters.orNull (.text (Text.formDecoded (SignedField.listing fs).toList)) } := by
  have hroles : (Parameters.query (SignedField.query fs d)).roles "" =
      .ok (.control "order_by" (.text (Text.formDecoded (SignedField.listing fs).toList)) ::
        d.toList.map fun d => .control "order_dir" (.text d.word)) := by
    rw [Parameters.roles, entries_query h d]
    cases d with
    | none => rfl
    | some d => rfl
  rw [Request.ofParameters]
  simp only [Parameters.request, hroles, bind, Except.bind, pure, Except.pure]
  cases d with
  | none => rfl
  | some d => cases d <;> rfl

/-- A query string asks for the ordering by the fields as they are read from it. -/
theorem compileParameters_query (hmarker : e.settings.querystringPrefix = .text "") (h : ∀ f ∈ fs, f.Queryable)
    (d : Option Direction) (includes : Value) :
    e.compileParameters (.query (SignedField.query fs d)) includes =
      e.compile (.ordered (fs.map SignedField.heard) d includes) := by
  have hread (rules : OrderRules) (direction : Value) :
      rules.compile (Parameters.orNull (.text (Text.formDecoded (SignedField.listing fs).toList))) direction =
        rules.compile (.text (SignedField.listing (fs.map SignedField.heard))) direction := by
    rw [OrderRules.compile_eq, Parameters.fields_orNull, ← OrderRules.compile_eq,
      OrderRules.compile_of_spells (SignedField.spells_formDecoded h),
      OrderRules.compile_of_spells (SignedField.spells_listing _)]
  simp only [compileParameters, hmarker, ofParameters_query h, bind, Except.bind]
  simp only [compile, ordering, hread, Request.ordered]

/-! ## Where the signs count -/

def surroundings (e : Endpoint) (r : Request) : Except Fault (Page × IncludeTree × Criteria) := do
  let page ← (← e.pageSizes).compile r.paging
  let includes ← e.requestIncludes r.includes
  return (page, includes, ← e.criteria includes r.filtering)

theorem compile_eq (r : Request) : e.compile r = do
    let (page, includes, criteria) ← e.surroundings r
    let order ← e.ordering includes r.ordering r.direction
    return {
      entity := e.entity
      criteria, page, includes
      order := order.terms
      joins := criteria.joins.union order.joins
      echo := if e.settings.allowFiltering.truthy then r.echo else .null
    } := by
  simp only [compile, surroundings, bind_assoc, pure_bind]

theorem ordering_listing (hallow : e.settings.allowOrdering.truthy = true) (includes : IncludeTree)
    (fs : List SignedField) (direction : Value) :
    e.ordering includes (.text (SignedField.listing fs)) direction =
      (e.orderRules includes >>= fun rules => rules.orderBy fs direction) := by
  simp only [ordering, hallow, if_true, OrderRules.compile_of_spells (SignedField.spells_listing fs)]

theorem exists_orderBy_of_compile {plan : Plan} (hallow : e.settings.allowOrdering.truthy = true)
    (h : e.compile (.ordered fs d includes) = .ok plan) : ∃ rules o, e.orderRules plan.includes = .ok rules ∧
      rules.orderBy fs (SortOrder.directionValue d) = .ok o ∧ plan.order = o.terms := by
  rw [compile_eq] at h
  obtain ⟨⟨page, t, criteria⟩, -, h⟩ := bind_eq_ok_iff.mp h
  obtain ⟨o, horder, h⟩ := bind_eq_ok_iff.mp h
  cases h
  obtain ⟨rules, hrules, ho⟩ := bind_eq_ok_iff.mp ((ordering_listing hallow t fs _).symm.trans horder)
  exact ⟨rules, o, hrules, ho, rfl⟩

/-- An ordering is compiled alike without the signs that are not seen, if none of these would have counted. -/
theorem compile_ordered_heard (h : ∀ plan, e.compile (.ordered fs d includes) = .ok plan →
    e.settings.allowOrdering.truthy = true → ∀ f ∈ fs, f.sign = some .ascending →
      ∃ rules, e.orderRules plan.includes = .ok rules ∧ d.getD rules.defaultDirection = .ascending) :
    e.compile (.ordered (fs.map SignedField.heard) d includes) = e.compile (.ordered fs d includes) := by
  -- nothing but the ordering sees the signs
  have hsame : e.surroundings (.ordered (fs.map SignedField.heard) d includes) =
      e.surroundings (.ordered fs d includes) := rfl
  rw [compile_eq] at h
  rw [compile_eq, compile_eq, hsame]
  refine bind_congr_of_ok fun (page, t, criteria) hs => ?_
  have hordering : e.ordering t (.text (SignedField.listing (fs.map SignedField.heard))) (SortOrder.directionValue d) =
      e.ordering t (.text (SignedField.listing fs)) (SortOrder.directionValue d) := by
    by_cases hallow : e.settings.allowOrdering.truthy = true
    · rw [ordering_listing hallow, ordering_listing hallow]
      refine bind_congr_of_ok fun rules hrules => OrderRules.orderBy_heard fun o ho f hf hsign => ?_
      have horder : e.ordering t (.text (SignedField.listing fs)) (SortOrder.directionValue d) = .ok o :=
        (ordering_listing hallow t fs _).trans (bind_eq_ok_iff.mpr ⟨rules, hrules, ho⟩)
      obtain ⟨rules', hrules', hdirection⟩ :=
        h _ (bind_eq_ok_iff.mpr ⟨_, hs, bind_eq_ok_iff.mpr ⟨o, horder, rfl⟩⟩) hallow f hf hsign
      cases hrules.symm.trans hrules'
      exact hdirection
    · simp only [ordering, if_neg hallow]
  simp only [Request.ordered, hordering]

/-- A plan for some fields orders by them in the directions that their signs ask for. A query string comes to this plan,
or is refused like it, exactly if every field with a plus sign would be in ascending order without the sign too. -/
theorem compileParameters_query_eq_iff (hmarker : e.settings.querystringPrefix = .text "")
    (h : ∀ f ∈ fs, f.Queryable) (d : Option Direction) (includes : Value) :
    (∀ plan, e.compile (.ordered fs d includes) = .ok plan → e.settings.allowOrdering.truthy = true →
      ∃ rules, e.orderRules plan.includes = .ok rules ∧
        SortOrder.terms <$> rules.orderBy fs (SortOrder.directionValue d) = .ok plan.order) ∧
    (e.compileParameters (.query (SignedField.query fs d)) includes = e.compile (.ordered fs d includes) ↔
      ∀ plan, e.compile (.ordered fs d includes) = .ok plan → e.settings.allowOrdering.truthy = true →
        ∀ f ∈ fs, f.sign = some .ascending →
          ∃ rules, e.orderRules plan.includes = .ok rules ∧ d.getD rules.defaultDirection = .ascending) := by
  constructor
  · intro plan hplan hallow
    obtain ⟨rules, o, hrules, ho, horder⟩ := exists_orderBy_of_compile hallow hplan
    exact ⟨rules, hrules, by rw [ho, horder]; rfl⟩
  · rw [compileParameters_query hmarker h]
    refine ⟨fun heq plan hplan hallow f hf hs => ?_, compile_ordered_heard⟩
    obtain ⟨rules, o, hrules, ho, horder⟩ := exists_orderBy_of_compile hallow hplan
    obtain ⟨rules', o', hrules', ho', horder'⟩ := exists_orderBy_of_compile hallow (heq.trans hplan)
    cases hrules.symm.trans hrules'
    exact ⟨rules, hrules, OrderRules.ascending_of_orderBy_heard ho ho' (horder.symm.trans horder') hf hs⟩

theorem compileParameters_query_eq_iff_labelled :
    Shop.labelled.settings.querystringPrefix = .text "" ∧
      (∀ f ∈ [Shop.byName (some .ascending), Shop.byName none], f.Queryable) ∧
      Shop.labelled.compileParameters (.query "order_by=+name,name&order_dir=ASC") .null =
        Shop.labelled.compile (.ordered [Shop.byName (some .ascending), Shop.byName none] (some .ascending) .null) := by
  have hmarker : Shop.labelled.settings.querystringPrefix = .text "" := rfl
  have hqueryable : ∀ f ∈ [Shop.byName (some .ascending), Shop.byName none], f.Queryable := by decide
  obtain ⟨hordered, hiff⟩ := compileParameters_query_eq_iff hmarker hqueryable (some .ascending) .null
  refine ⟨hmarker, hqueryable, hiff.mpr fun plan hplan hallow f _ _ => ?_⟩
  obtain ⟨rules, hrules, -⟩ := hordered plan hplan hallow
  exact ⟨rules, hrules, rfl⟩

/-- With the plus sign in front of a field, its direction is lost. -/
theorem compileParameters_query_ne_labelled :
    ((Shop.labelled.compileParameters (.query "order_by=+name&order_dir=DESC") .null).toOption.map fun plan =>
        plan.order.map OrderTerm.direction) = some [.descending] ∧
      ((Shop.labelled.compile (.ordered [Shop.byName (some .ascending)] (some .descending) .null)).toOption.map fun plan =>
        plan.order.map OrderTerm.direction) = some [.ascending] := by
  decide +kernel

end Endpoint

end Sift
