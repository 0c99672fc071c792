import Sift.Proofs.Endpoint.Forced
import Sift.Proofs.Paging.Quantity
import Sift.Proofs.Request.Filter
import Sift.Proofs.Request.Ordering
import Sift.Proofs.Sample

/-!
# Requests are served or rejected

As long as the stack lasts, a well-configured endpoint compiles whatever a document or a query string holds into a plan,
or rejects it with an error of the request; no other fault gets out. What is rejected is answered at once, with nothing
but the words that say so, and never reaches an executor.
-/

namespace Sift

namespace PageSizes

/-- A setting that is a positive number of any kind. -/
def IsPositiveNumber (v : Value) : Prop := ∃ q, Quantity.ofValue v = .ok q ∧ (Quantity.whole 0).before q = true

theorem size_of_positive {v : Value} (h : IsPositiveNumber v) : ∃ q, size v = .ok q := by
  obtain ⟨q, hq, hpos⟩ := h
  refine ⟨q, ?_⟩
  simp only [size, hq, bind, Except.bind, Quantity.requirePositive]
  split
  · cases hpos
  · rw [if_pos hpos]

theorem exists_ofValues_positive {default entity largest : Value}
    (hd : IsPositiveNumber (if entity.truthy then entity else default))
    (hl : largest = .null ∨ IsPositiveNumber largest) : ∃ sizes, ofValues default entity largest = .ok sizes := by
  obtain ⟨q, hq⟩ := size_of_positive hd
  rcases hl with rfl | hl
  · exact ⟨_, by simp only [ofValues, hq, bind, Except.bind]; rfl⟩
  · obtain ⟨r, hr⟩ := size_of_positive hl
    cases largest with
    | null => exact ⟨_, by simp only [ofValues, hq, bind, Except.bind]; rfl⟩
    | _ => exact ⟨_, by simp only [ofValues, hq, hr, bind, Except.bind, Functor.map, Except.map]; rfl⟩

theorem judges_compile {most : Nat} (sizes : PageSizes) (v : Value) : Judges most (sizes.compile v) fun _ => True := by
  unfold compile
  cases v with
  | null => trivial
  | object entries => trivial
  | _ => exact .refuse rfl rfl

end PageSizes

namespace Endpoint

variable {e : Endpoint} {entity : String} {catalog : Catalog} {s : Settings} {most : Nat}

/-! ## Configured endpoints -/

/-- What configuring an endpoint makes of its settings. -/
structure Configured (e : Endpoint) : Prop where
  registry : e.registry = Registry.default.extended (e.settings.operators.getD [])
  included : e.catalog.WellFormed e.entity → e.includes.Within e.catalog e.entity
  forced : ∀ rules, e.filterRules e.includes = .ok rules → ∃ forced, e.forced rules = .ok forced

/-- Settings and a schema with which an endpoint can serve: sizes are positive, relations and exposed columns exist,
names are texts, and operators that look for texts ask for columns of texts. -/
structure WellConfigured (e : Endpoint) : Prop where
  catalog : e.catalog.WellFormed e.entity
  defaultSize : ∀ own, e.catalog.option (.text e.entity) "page_size" = .ok own →
    PageSizes.IsPositiveNumber (if own.truthy then own else e.settings.defaultPageSize)
  largestSize : e.settings.maxPageSize = .null ∨ PageSizes.IsPositiveNumber e.settings.maxPageSize
  orderBy : ∀ own, e.catalog.option (.text e.entity) "order_by" = .ok own →
    ∃ name, own.either e.settings.defaultOrderBy = .text name
  orderDir : ∀ own, e.catalog.option (.text e.entity) "order_dir" = .ok own →
    ∃ word, own.either e.settings.defaultOrderDir = .text word
  mappings : ∀ m ∈ e.mappings, ∃ entity column, m.entity = .text entity ∧ m.exposed = .text column ∧
    e.catalog.Has entity column
  idColumn : Scope.IsName e.idColumn
  aliases : ∀ policy ∈ [e.filteringPolicy, e.orderingPolicy], ∀ v ∈ policy.aliases.values, ∃ name, v = .text name
  marker : ∃ marker, e.settings.querystringPrefix = .text marker
  operators : ∀ op ∈ e.settings.operators.getD [], op.Sound

namespace WellConfigured

theorem option (h : e.WellConfigured) (name : String) :
    ∃ own, e.catalog.option (.text e.entity) name = .ok own := by
  obtain ⟨row, hrow⟩ := h.catalog.options
  exact ⟨Row.get name row, by rw [Catalog.option, hrow]; rfl⟩

/-- The mapping of an entity is one of those that were configured for it. -/
theorem exists_scope (h : e.WellConfigured) (hc : e.Configured) : ∃ scope, e.scope e.includes = .ok scope ∧ scope.Sound := by
  have hkeys : e.mappings.mapM (fun m => do return (← m.entity.requireKey, m)
      : KeyMapping → Except Fault (Value × KeyMapping)) = .ok (e.mappings.map fun m => (m.entity, m)) := by
    refine mapM_eq_ok fun m hm => ?_
    obtain ⟨entity, _, hentity, -⟩ := h.mappings m hm
    rw [hentity]
    rfl
  refine ⟨_, by rw [Endpoint.scope, KeyMapping.table, hkeys]; rfl,
    h.catalog, hc.included h.catalog, fun entity m hm => ?_, h.idColumn⟩
  obtain ⟨key, hmem, hkey⟩ := Table.exists_mem_of_get?_eq_some hm
  cases Value.text_beq_iff.mp hkey
  let Shown (key : Value) (m : KeyMapping) : Prop :=
    ∃ entity column, key = .text entity ∧ m.exposed = .text column ∧ e.catalog.Has entity column
  have hsame (k k' : Value) (m : KeyMapping) (hk : (k == k') = true) : Shown k m → Shown k' m := by
    rintro ⟨entity, column, rfl, hm⟩
    cases Value.text_beq_iff.mp hk
    exact ⟨entity, column, rfl, hm⟩
  have hentries : ∀ p ∈ e.mappings.map fun m => (m.entity, m), Shown p.1 p.2 := by
    intro p hp
    obtain ⟨m, hm, rfl⟩ := List.mem_map.mp hp
    exact h.mappings m hm
  obtain ⟨entity', column, heq, hexposed, hhas⟩ := Table.forall_mem_ofList hsame hentries _ hmem
  cases heq
  exact ⟨column, hexposed, hhas⟩

theorem exists_filterRules (h : e.WellConfigured) (hc : e.Configured) :
    ∃ rules, e.filterRules e.includes = .ok rules ∧ rules.Sound := by
  obtain ⟨scope, hscope, hsound⟩ := h.exists_scope hc
  refine ⟨_, by rw [Endpoint.filterRules, hscope]; rfl, ⟨hsound, h.aliases _ (.head _)⟩, ?_⟩
  rw [show (FilterRules.ofScope scope e.filteringPolicy e.registry).registry = e.registry from rfl, hc.registry]
  exact Registry.sound_extended_default h.operators

theorem judges_orderRules (h : e.WellConfigured) (hc : e.Configured) :
    Judges most (e.orderRules e.includes) OrderRules.Sound := by
  obtain ⟨scope, hscope, hsound⟩ := h.exists_scope hc
  obtain ⟨ownField, hownField⟩ := h.option "order_by"
  obtain ⟨ownDir, hownDir⟩ := h.option "order_dir"
  obtain ⟨word, hword⟩ := h.orderDir ownDir hownDir
  have hbase : scope.catalog = e.catalog ∧ scope.entity = e.entity := by
    obtain ⟨_, -, hscope⟩ := bind_eq_ok_iff.mp hscope
    cases pure_eq_ok_iff.mp hscope
    exact ⟨rfl, rfl⟩
  refine Judges.bind_of_eq hscope ?_
  unfold OrderRules.ofScope
  simp only [hbase]
  refine Judges.bind_of_eq (a := ownField.either e.settings.defaultOrderBy) (by rw [hownField]; rfl) ?_
  refine Judges.bind_of_eq (a := ownDir.either e.settings.defaultOrderDir) (by rw [hownDir]; rfl) ?_
  rw [hword]
  exact (Direction.judges_parse ⟨rfl, Nat.zero_le _⟩ _).bind fun _ _ => ⟨⟨hsound, h.aliases _ (.tail _ (.head _))⟩, h.orderBy _ hownField⟩

/-! ## Requests -/

theorem exists_pageSizes (h : e.WellConfigured) : ∃ sizes, e.pageSizes = .ok sizes := by
  obtain ⟨own, hown⟩ := h.option "page_size"
  obtain ⟨sizes, hsizes⟩ := PageSizes.exists_ofValues_positive (h.defaultSize own hown) h.largestSize
  exact ⟨sizes, by rw [Endpoint.pageSizes, hown]; exact hsizes⟩

theorem judges_criteria (h : e.WellConfigured) (hc : e.Configured) {filtering : Value}
    (hv : filtering.IsNested most) : Judges most (e.criteria e.includes filtering) fun _ => True := by
  obtain ⟨rules, hrules, hsound⟩ := h.exists_filterRules hc
  obtain ⟨forced, hforced⟩ := hc.forced rules hrules
  have hown : Judges most (e.own e.includes filtering) fun _ => True := by
    refine Judges.bind_of_eq hrules ?_
    split
    · exact hsound.judges_compile filtering hv
    · trivial
  rw [criteria_eq hrules]
  exact hown.bind fun own _ => Judges.bind_of_eq hforced trivial

theorem judges_ordering (h : e.WellConfigured) (hc : e.Configured) {v direction : Value}
    (hv : v.IsNested most) (hd : direction.IsNested most) :
    Judges most (e.ordering e.includes v direction) fun _ => True := by
  refine (h.judges_orderRules hc).bind fun rules hrules => ?_
  split
  · exact hrules.judges_compile hv hd
  · exact hrules.judges_compile .null .null

theorem judges_compile (h : e.WellConfigured) (hc : e.Configured) {r : Request} (hi : r.includes = .null)
    (hf : r.filtering.IsNested most) (ho : r.ordering.IsNested most) (hd : r.direction.IsNested most) :
    Judges most (e.compile r) fun _ => True := by
  obtain ⟨sizes, hsizes⟩ := h.exists_pageSizes
  refine Judges.bind_of_eq hsizes ((sizes.judges_compile r.paging).bind fun page _ => ?_)
  rw [hi]
  refine Judges.bind_of_eq (a := e.includes) rfl ?_
  exact (h.judges_criteria hc hf).bind fun criteria _ => (h.judges_ordering hc ho hd).bind fun order _ => trivial

end WellConfigured

/-! ## Answers -/

end Endpoint

end Sift
