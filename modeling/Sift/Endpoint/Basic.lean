import Sift.Endpoint.Plan
import Sift.Endpoint.Settings
import Sift.Projection
import Sift.Request.Filter
import Sift.Request.Parameters

/-!
# Endpoints

An endpoint serves the requests for one entity: it compiles them into plans, and makes responses of what an executor
finds. It holds its configuration only, so the order of requests does not matter.
-/

namespace Sift

structure Endpoint where
  entity : String
  catalog : Catalog
  settings : Settings
  registry : Registry
  idColumn : Value
  mappings : List KeyMapping
  flattening : Flattening
  filteringPolicy : Policy
  orderingPolicy : Policy
  /-- The relations that come along with every row. -/
  includes : IncludeTree

namespace Endpoint

/-! ## Configuration -/

/-- A mapping from its configuration: its three names, or an object of which the key may be left out. -/
def mapping (c : Catalog) (v : Value) : Except Fault KeyMapping :=
  match v with
  | .mapping entity key exposed | .tuple [entity, key, exposed] => .ok ⟨entity, key, exposed⟩
  | .object fields => do
    let some entity := Table.get? (.text "entity") fields | throw .missingKey
    let given := Row.get "pk_field" fields
    let key ← if given.truthy then pure given else c.primaryKey entity
    let some exposed := Table.get? (.text "id_field") fields | throw .missingKey
    return ⟨entity, key, exposed⟩
  | _ => .error .wrongKind

/-- Includes a flattened relation, whose label has to be a text to be found. -/
def withLifted (c : Catalog) (t : IncludeTree) (label : Value) : Except Fault IncludeTree := do
  match ← label.requireKey with
  | .text label => t.withChain c [label]
  | label =>
    let _ ← c.relations (.text t.entity)
    throw (.query (.unknownRelation t.entity label.plain "include"))

/-- The scope of the names in a request with the given relations. -/
def scope (e : Endpoint) (includes : IncludeTree) : Except Fault Scope := do
  return {
    catalog := e.catalog
    entity := e.entity
    includes
    mappings := ← KeyMapping.table e.mappings
    idColumn := e.idColumn
    flattening := e.flattening
  }

def filterRules (e : Endpoint) (includes : IncludeTree) : Except Fault FilterRules := do
  return .ofScope (← e.scope includes) e.filteringPolicy e.registry

def orderRules (e : Endpoint) (includes : IncludeTree) : Except Fault OrderRules := do
  OrderRules.ofScope (← e.scope includes) e.orderingPolicy e.settings.defaultOrderBy e.settings.defaultOrderDir

/-- Compiles the filter that is forced on every request, if there is one. It is not subject to the policy. -/
def forced (e : Endpoint) (rules : FilterRules) : Except Fault (Option Criteria) :=
  match e.settings.forceFilter with
  | .null => .ok none
  | v => some <$> rules.compile false v

/-- Configures an endpoint. Flattened relations are always included, and the forced filter has to compile. -/
def configure (entity : String) (catalog : Catalog) (s : Settings) : Except Fault Endpoint := do
  let mappings ← (← s.relationIdMapping.elementsOrNone).mapM (mapping catalog)
  let flattening ← Flattening.ofValue s.flattening
  let filteringPolicy ← Policy.ofValues s.allowFilteringOn s.blockFilteringOn s.fieldAliases
  let orderingPolicy ← Policy.ofValues s.allowOrderingOn s.blockOrderingOn s.fieldAliases
  let includes ← IncludeTree.parse catalog entity s.includes
  let includes ← flattening.labels.foldlM (withLifted catalog) includes
  let endpoint : Endpoint := {
    entity, catalog, mappings, flattening, filteringPolicy, orderingPolicy, includes
    idColumn := s.idMapping
    settings := s
    registry := Registry.default.extended (s.operators.getD [])
  }
  match s.forceFilter with
  | .null => return endpoint
  | v =>
    let _ ← (← endpoint.filterRules includes).compile false v
    return endpoint

/-! ## Compiling requests -/

/-- The sections of a request. -/
structure Request where
  filtering : Value := .null
  ordering : Value := .null
  /-- The direction of fields without one. -/
  direction : Value := .null
  paging : Value := .null
  /-- Relations beside those that always come along. -/
  includes : Value := .null
  /-- The filters as they are shown to the sender. -/
  echo : Value := .null

def Request.ofBody (body includes : Value) : Except Fault Request := do
  let row ← match body with
    | .null => pure []
    | .object entries => pure entries
    | v => throw (.malformed (.body v.kindName))
  let filtering := Row.get "filtering" row
  return {
    filtering, includes
    ordering := Row.get "ordering" row
    paging := Row.get "paging" row
    echo := filtering
  }

def Request.ofParameters (marker : Value) (p : Parameters) (includes : Value) : Except Fault Request := do
  let .text marker := marker | throw .wrongKind
  let r ← p.request marker
  return {
    filtering := r.filtering
    ordering := r.ordering
    direction := r.direction
    paging := .object r.paging
    includes
    echo := .object r.echo
  }

def pageSizes (e : Endpoint) : Except Fault PageSizes := do
  let own ← e.catalog.option (.text e.entity) "page_size"
  PageSizes.ofValues e.settings.defaultPageSize own e.settings.maxPageSize

/-- The relations that come along with the rows of a request. -/
def requestIncludes (e : Endpoint) (v : Value) : Except Fault IncludeTree := do
  if v.truthy then return e.includes.merge (← IncludeTree.parse e.catalog e.entity v)
  return e.includes

/-- Compiles the filter of a request, where the sender may filter at all, together with the forced one. -/
def criteria (e : Endpoint) (includes : IncludeTree) (filtering : Value) : Except Fault Criteria := do
  let rules ← e.filterRules includes
  let own ← if e.settings.allowFiltering.truthy then rules.compile true filtering else pure {}
  return (← e.forced rules).elim own fun forced => .conj [own, forced]

/-- Compiles the ordering of a request, where the sender may order at all. -/
def ordering (e : Endpoint) (includes : IncludeTree) (v direction : Value) : Except Fault SortOrder := do
  let rules ← e.orderRules includes
  if e.settings.allowOrdering.truthy then rules.compile v direction else rules.compile .null .null

def compile (e : Endpoint) (r : Request) : Except Fault Plan := do
  let page ← (← e.pageSizes).compile r.paging
  let includes ← e.requestIncludes r.includes
  let criteria ← e.criteria includes r.filtering
  let order ← e.ordering includes r.ordering r.direction
  return {
    entity := e.entity
    criteria, page, includes
    order := order.terms
    joins := criteria.joins.union order.joins
    echo := if e.settings.allowFiltering.truthy then r.echo else .null
  }

def compileBody (e : Endpoint) (body includes : Value) : Except Fault Plan := do
  e.compile (← Request.ofBody body includes)

def compileParameters (e : Endpoint) (p : Parameters) (includes : Value) : Except Fault Plan := do
  e.compile (← Request.ofParameters e.settings.querystringPrefix p includes)

/-! ## Making responses -/

/-- Shows rows as the sender is to see them: with exposed identifiers, and flattened. -/
def present (e : Endpoint) (plan : Plan) (store : LookupStore) (rows : List Value) : Except Fault (List Value) := do
  let projector ← Projector.ofMappings e.catalog e.entity plan.includes e.mappings e.idColumn
  e.flattening.flattenRows ((← projector.project store rows).map .object)

structure Meta where
  page : Page
  totalPages : Int
  count : Value
  order : Option (List OrderTerm)
  filters : Option Value

inductive Response where
  | success (rows : List Value) (info : Meta)
  | failure (publicMessage : String)

def Meta.toRow (m : Meta) : Row :=
  Row.ofList <|
    [("page", .int m.page.number), ("page_size", m.page.size.toValue), ("total_pages", .int m.totalPages),
      ("count", m.count)]
      ++ m.order.elim [] (fun terms => [("order", .list (terms.map fun t => .object t.toRow))])
      ++ m.filters.elim [] (fun v => [("filters", v)])

def Response.toRow : Response → Row
  | .success rows info =>
    Row.ofList [("success", .bool true), ("data", .list rows), ("meta", .object info.toRow)]
  | .failure publicMessage => Row.ofList [("success", .bool false), ("error", .text publicMessage)]

/-- The answer to an error. It never tells more than the kind of error allows. -/
def Response.ofError (error : QueryError) : Response :=
  .failure error.kind.publicMessage

def respond (e : Endpoint) (plan : Plan) (result : Result) (store : LookupStore) : Except Fault Response := do
  let rows ← e.present plan store result.rows
  let totalPages ← plan.page.total result.count
  return .success rows {
    page := plan.page
    totalPages
    count := result.count
    order := if e.settings.metaShowOrdering.truthy then some plan.order else none
    filters :=
      if e.settings.metaShowFilters.truthy then some (if plan.echo.truthy then plan.echo else .object []) else none
  }

/-- Runs a compiled request and answers it with a status code. Request errors are answered too; other faults are
passed on. -/
def answer (e : Endpoint) (run : Executor) (store : LookupStore) (plan : Except Fault Plan) :
    Except Fault (Response × Nat) :=
  let response : Except Fault Response := do
    let plan ← plan
    e.respond plan (← run plan) store
  match response with
  | .ok r => .ok (r, 200)
  | .error (.query error) => .ok (.ofError error, error.kind.status)
  | .error fault => .error fault

def answerBody (e : Endpoint) (run : Executor) (store : LookupStore) (body includes : Value) :
    Except Fault (Response × Nat) :=
  e.answer run store (e.compileBody body includes)

def answerParameters (e : Endpoint) (run : Executor) (store : LookupStore) (p : Parameters) (includes : Value) :
    Except Fault (Response × Nat) :=
  e.answer run store (e.compileParameters p includes)

end Endpoint

end Sift
