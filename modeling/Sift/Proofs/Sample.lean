import Sift.Endpoint.Basic
import Sift.Shop
import Sift.Store.Run

/-!
# Requests in the shop

Rules for filters on products, whose owners are shown by a column of their own, and some filters.
-/

namespace Sift.Shop

/-- The owners of products, brought along. -/
def owners : IncludeTree :=
  ⟨"Product", [⟨"owner", .text "User", .bool false, .null, []⟩]⟩

/-- Users are shown by their external key. -/
def external : KeyMapping := ⟨.text "User", .text "id", .text "external_id"⟩

/-- Filters on products under a policy. -/
def products (catalog : Catalog) (policy : Policy) : FilterRules :=
  .ofScope { catalog, entity := "Product", includes := owners, mappings := [(.text "User", external)] } policy .default

/-- Orderings of products by a field where none is named. Their owners and tags come along. -/
def ranking (field : String) : OrderRules where
  scope := { (products fullCatalog {}).scope with
    includes := ⟨"Product", owners.branches ++ [⟨"tags", .text "Tag", .bool true, .text "product_tags", []⟩]⟩ }
  policy := { aliases := [(.text "title", .text "name")] }
  place := "ordering"
  defaultField := .text field
  defaultDirection := .ascending

/-- A shop in which the column that refers to the owner of a product has no name. -/
def unnamed : Catalog := .ofModels [user,
  { name := "Product"
    columns := [("id", .integer), ("", .integer)]
    key := ["id"]
    relations := [({ label := "owner", target := .text "User", foreignKey := .text "" }, .columns [("", "id")])] }]

/-- A filter on products: by name and score, or else by category. -/
def mixed : Value :=
  .object [(.text "or", .list [
    .object [(.text "name", .text "Lamp"), (.text "score", .object [(.text "gt", .int 1)])],
    .object [(.text "and", .list [.null, .object [(.text "category", .text "furniture"), (.text "id", .object [])]])]])]

/-- A filter on products by the key of their owner. -/
def owned : Value :=
  .object [(.text "owner.id", .object [(.text "eq", .text "ext-007")])]

/-- A filter on products: by score or else by owner, and by category. -/
def branching : Value :=
  .object [
    (.text "or", .list [.object [(.text "score", .object [(.text "gt", .int 1), (.text "lt", .int 9)])], owned]),
    (.text "category", .text "furniture")]

/-- A request for a page that is far away. -/
def faraway : Value :=
  .object [(.text "paging", .object [(.text "page", .int 9223372036854775808)])]

/-- A request for a page that is too long for a store. -/
def endless : Value :=
  .object [(.text "paging", .object [(.text "size", .int 9223372036854775808)])]

/-- A request for a score that a store does not keep. -/
def unmatched : Value :=
  .object [(.text "filtering", .object [(.text "score", .int 9223372036854775808)])]

/-- The operator that asks for a value. -/
def equals : Operator := { token := "eq", kind := .eq, nullable := .bool true }

/-- Settings under which only the products of one owner are served. -/
def forcing : Settings where
  includes := .text "owner"
  forceFilter := .object [(.text "owner.name", .text "Alice")]

/-- Settings under which users are shown by their external key, with one more operator. -/
def exposing : Settings where
  includes := .text "owner"
  relationIdMapping := .list [.mapping (.text "User") (.text "id") (.text "external_id")]
  fieldAliases := .object [(.text "title", .text "name")]
  operators := some [Operator.search "begins" .like .atStart]

/-! ## People -/

/-- A record of the sample: cells for the columns of a model, in order. -/
def record (m : Model) (cells : List Cell) : Record :=
  List.zipWith (fun column c => (column, .ofCell c)) m.columns.keys cells

/-- Somebody who may be led by somebody else. -/
def person (id : Int) (name : String) (manager : Cell) : Record :=
  record user [.integer id, .null, .text name, .null, .null, .null, .null, manager]

/-- Somebody with an external key. -/
def customer (id : Int) (external : String) : Record :=
  record user [.integer id, .text external, .null, .null, .null, .null, .null, .null]

/-- Something that may have an owner. -/
def item (id : Int) (owner : Cell) : Record :=
  record product [.integer id, .null, .null, .null, .null, .null, .null, owner]

/-- Two people with a product each, and a product of nobody. -/
def owning : Store where
  models := [user, product]
  tables := [("User", [customer 7 "ext-007", customer 8 "ext-008"]),
    ("Product", [item 1 (.integer 7), item 2 (.integer 8), item 3 .null])]

/-- What the keys of these people are shown as. -/
def identifiers : Table Value Row :=
  [(.text "User", [(.int 7, .text "ext-007"), (.int 8, .text "ext-008")])]

/-- The record that stores a row of a model. -/
def kept (m : Model) (row : Row) : Record := (Record.ofRow m row).toOption.getD []

/-- Somebody who was seen once, and something of theirs. -/
def seen : Store where
  models := [user, product]
  tables := [("User", [kept user (Row.ofList [("id", .int 7), ("last_seen", moment 2024 1 2 3 4 5 0)])]),
    ("Product", [item 1 (.integer 7)])]

/-- Somebody at a company with something of theirs, and something of nobody. -/
def employed : Store where
  models := [company, user, product]
  tables := [("Company", [kept company (Row.ofList [("id", .int 1), ("slug", .text "acme")])]),
    ("User", [kept user (Row.ofList [("id", .int 7), ("external_id", .text "ext-007"), ("company_id", .int 1)])]),
    ("Product", [item 1 (.integer 7), item 2 .null])]

/-- Companies are shown by their slug. -/
def slugs : KeyMapping := ⟨.text "Company", .text "id", .text "slug"⟩

/-- What they are shown as. -/
def shownAs : Table Value Row :=
  [(.text "User", [(.int 7, .text "ext-007")]), (.text "Company", [(.int 1, .text "acme")])]

/-- Settings under which a column of a related row is shown under a flat name. -/
def lifting (label source flat : String) : Settings where
  flattening := .object [(.text "as", .text label),
    (.text "attributes", .list [.tuple [.text source, .text flat]])]

/-- Settings under which products show the key of their owner among their own columns. -/
def labelling : Settings :=
  { lifting "owner" "id" "owned_by" with
    relationIdMapping := .list [.mapping (.text "User") (.text "id") (.text "external_id"),
      .mapping (.text "Company") (.text "id") (.text "slug")] }

/-- Products under these settings. -/
def labelled : Endpoint where
  entity := "Product"
  catalog := .ofModels employed.models
  settings := labelling
  registry := .default
  idColumn := .null
  mappings := [external, slugs]
  flattening := ⟨[⟨.text "owner", [(.text "id", .text "owned_by")]⟩]⟩
  filteringPolicy := {}
  orderingPolicy := {}
  includes := owners

/-- Of each record of an endpoint's entity, whether a filter that asks for a value under a name finds it, and whether its
row in the response shows the value. A filter that is refused finds nothing. -/
def foundAndAnswered (e : Endpoint) (s : Store) (tables : Table Value Row) (name : String) (x : Value)
    (shows : Row → Bool) : Except Fault (List (Bool × Bool)) := do
  let rules ← e.filterRules e.includes
  let finds := match rules.compile true (.object [(.text name, .object [(.text "eq", x)])]) with
    | .ok c => s.meets e.entity c.predicate
    | .error _ => fun _ => false
  let records := s.records e.entity
  let plan ← e.compile {}
  let rows ← e.present plan (.ofTables tables) (records.map fun r => .object (s.present e.entity e.includes r))
  return List.zipWith (fun r row => (finds r, row.entries?.any shows)) records rows

/-- What their names may refer to. -/
def labelledScope : Scope where
  catalog := .ofModels employed.models
  entity := "Product"
  includes := owners
  mappings := [(.text "User", external), (.text "Company", slugs)]
  flattening := labelled.flattening

/-- How filters on them are compiled. -/
def labelledRules : FilterRules := .ofScope labelledScope {} .default

/-- How they are projected. -/
def labelledRows : Projector where
  catalog := .ofModels employed.models
  entity := "Product"
  includes := owners
  mappings := [(.text "User", external), (.text "Company", slugs)]

/-- A product with its owner, who is at a company. -/
def ownedRow : Value :=
  .object [(.text "id", .int 1), (.text "owner_id", .int 7),
    (.text "owner", .object [(.text "id", .int 7), (.text "company_id", .int 1)])]

/-- The lookup that knows people, and fails for companies. -/
def halting : LookupStore := fun l =>
  if l.entity == .text "Company" then .error (.storage "OSError" "down") else .ok [(.int 7, .text "ext-007")]

/-- What somebody says about themselves. -/
def bio (id : Int) (text : String) (person : Int) : Record :=
  record profile [.integer id, .text text, .integer person]

/-- Three people, of whom the first leads the others, and what they say about themselves. -/
def people (bios : List Record) : Store where
  models := models
  tables := [("User", [person 7 "Alice" .null, person 8 "Bob" (.integer 7), person 9 "Carol" (.integer 7)]),
    ("Profile", bios)]

/-- People who say one thing about themselves at most. -/
def team : Store := people [bio 1 "green" 8]

/-- A tag of a kind that there is not. -/
def misfiled : Store where
  models := models
  tables := [("Tag", [record tag [.integer 1, .text "old", .text "gone"]])]

/-- A column of the people that somebody leads. -/
def led (column : String) (type : ColumnType) : FieldRef where
  entity := .text "User"
  column := column
  type := type
  chain := ["reports"]
  many := .bool true

/-- Those who lead anybody, and those who are led by the first. -/
def leading : Predicate :=
  .any [.clause ⟨led "id" .integer, .gt, .int 0, "gt"⟩,
    .clause ⟨{ entity := .text "User", column := "manager_id", type := .integer }, .eq, .int 7, "eq"⟩]

/-- The last in what they say about themselves first. -/
def byBio : List OrderTerm :=
  [⟨"profile.bio", { entity := .text "Profile", column := "bio", type := .text, chain := ["profile"] }, .descending⟩]

/-- A page of the people that meet a predicate. -/
def listed (p : Predicate) (order : List OrderTerm) (page : Page) : Plan where
  entity := "User"
  criteria := { predicate := p }
  order := order
  page := page
  includes := ⟨"User", []⟩
  joins := []
  echo := .null

end Sift.Shop
