import Sift.Store.Loading

/-!
# The shop

A small sample of models and rows: companies with their users, the products that users own, tags, and shelves for
boxes.
-/

namespace Sift.Shop

def company : Model where
  name := "Company"
  columns := [("id", .integer), ("name", .text), ("slug", .wrapped), ("founded", .date), ("extra", .document)]
  key := ["id"]
  relations := [({ label := "users", target := .text "User", many := .bool true }, .columns [("id", "company_id")])]
  capitals := [("name_upper", "name")]

/-- The people of a company. -/
def user : Model where
  name := "User"
  columns := [("id", .integer), ("external_id", .text), ("name", .text), ("email", .text), ("active", .boolean),
    ("last_seen", .moment), ("company_id", .integer), ("manager_id", .integer)]
  key := ["id"]
  relations := [
    ({ label := "company", target := .text "Company", foreignKey := .text "company_id" },
      .columns [("company_id", "id")]),
    ({ label := "manager", target := .text "User", foreignKey := .text "manager_id" }, .columns [("manager_id", "id")]),
    ({ label := "products", target := .text "Product", many := .bool true }, .columns [("id", "owner_id")]),
    ({ label := "profile", target := .text "Profile" }, .columns [("id", "user_id")]),
    ({ label := "reports", target := .text "User", many := .bool true }, .columns [("id", "manager_id")])]

/-- What users say about themselves. -/
def profile : Model where
  name := "Profile"
  columns := [("profile_id", .integer), ("bio", .text), ("user_id", .integer)]
  key := ["profile_id"]
  relations := [
    ({ label := "user", target := .text "User", foreignKey := .text "user_id" }, .columns [("user_id", "id")])]

/-- Products. -/
def product : Model where
  name := "Product"
  columns := [("id", .integer), ("name", .text), ("category", .text), ("price", .real), ("score", .integer),
    ("in_stock", .boolean), ("created", .date), ("owner_id", .integer)]
  key := ["id"]
  relations := [
    ({ label := "owner", target := .text "User", foreignKey := .text "owner_id" }, .columns [("owner_id", "id")]),
    ({ label := "tags", target := .text "Tag", many := .bool true, through := .text "product_tags" },
      .association "product_tags" false)]

/-- Tags of products. They have a page size and an ordering of their own. -/
def tag : Model where
  name := "Tag"
  columns := [("id", .integer), ("name", .text), ("kind", .choice ["promo", "info"])]
  key := ["id"]
  relations := [
    ({ label := "products", target := .text "Product", many := .bool true, through := .text "product_tags" },
      .association "product_tags" true)]
  options := Row.ofList [("page_size", .int 5), ("order_by", .text "name"), ("order_dir", .text "DESC")]

/-- Shelves, which are found by row and column. -/
def shelf : Model where
  name := "Shelf"
  columns := [("row", .integer), ("col", .integer), ("photo", .bytes)]
  key := ["row", "col"]

/-- Boxes on shelves. -/
def box : Model where
  name := "Box"
  columns := [("id", .integer), ("shelf_row", .integer), ("shelf_col", .integer)]
  key := ["id"]
  relations := [({ label := "shelf", target := .text "Shelf" }, .columns [("shelf_row", "row"), ("shelf_col", "col")])]

def models : List Model := [company, user, profile, product, tag, shelf, box]

/-! ## Rows -/

def day (y m d : Nat) : Value :=
  (Date.ofFields y m d).toOption.elim .null .date

def moment (y mo d h mi s us : Nat) : Value :=
  match Date.ofFields y mo d, Clock.ofFields h mi s us with
  | .ok date, .ok clock => .moment ⟨date, clock, none⟩
  | _, _ => .null

/-- A number of the sample, in hundredths. -/
def hundredths (negative : Bool) (n : Nat) : Value := .float (Binary64.ofDecimal negative n (-2))

/-- A row of the sample: values for the columns of a model, in order. -/
def row (m : Model) (values : List Value) : Row :=
  List.zipWith (fun column v => (.text column, v)) m.columns.keys values

def rows : Table String (List Row) := [
  ("Company", [
    row company [.int 1, .text "Acme", .text "acme", day 1999 12 31, .object [(.text "k", .list [.int 1, .null])]],
    row company [.int 2, .text "Globex", .text "globex", day 2010 6 1, .null],
    row company [.int 3, .text "ÉCLAIR", .null, .null, .null]]),
  ("User", [
    row user [.int 7, .text "ext-007", .text "Alice", .text "alice@example.com", .bool true,
      moment 2024 1 2 3 4 5 0, .int 1, .null],
    row user [.int 8, .text "ext-008", .text "Bob", .text "bob@example.org", .bool false,
      moment 2024 1 2 3 4 5 600, .int 2, .int 7],
    row user [.int 9, .text "ext-009", .text "Carol", .null, .null, .null, .null, .int 7],
    row user [.int 10, .text "EXT-010", .text "élodie", .text "Elodie@Example.com", .bool true,
      moment 2023 12 31 23 59 59 0, .int 3, .int 8]]),
  ("Profile", [
    row profile [.int 1, .text "I like 100% cotton", .int 7],
    row profile [.int 2, .text "snake_case \\ fan", .int 8]]),
  ("Tag", [
    row tag [.int 1, .text "sale", .text "promo"],
    row tag [.int 2, .text "new", .text "info"],
    row tag [.int 3, .text "unused", .null]]),
  ("Product", [
    row product [.int 1, .text "Laptop", .text "electronics", hundredths false 9999, .int 1, .bool true,
      day 2024 1 10, .int 7],
    row product [.int 2, .text "Phone", .text "electronics", hundredths false 25000, .int 5, .bool true,
      day 2024 2 15, .int 8],
    row product [.int 3, .text "Monitor 100%", .text "electronics", hundredths false 99900, .int 10, .bool false,
      day 2024 3 20, .int 7],
    row product [.int 4, .text "Chair", .text "Furniture", hundredths false 30000, .int 3, .bool true,
      day 2024 4 25, .int 9],
    row product [.int 5, .text "lamp_x", .text "furniture", .null, .null, .null, .null, .null],
    row product [.int 6, .text "ÉTAGÈRE \\ big", .null, hundredths true 150, .int (-4), .bool false,
      day 2023 12 31, .int 10]]),
  ("Shelf", [row shelf [.int 1, .int 2, .null]]),
  ("Box", [
    row box [.int 1, .int 1, .int 2],
    row box [.int 2, .null, .null]])]

/-- Which products have which tags. -/
def productTags : List (Value × Value) :=
  [(1, 1), (2, 1), (2, 2), (3, 2), (6, 1)].map fun ((p, t) : Int × Int) => (.int p, .int t)

/-- The shop with the rows of some models, or the pairs of the association, replaced. -/
def store (replaced : Table String (List Row)) (pairs : Option (List (Value × Value))) (matcher : Matcher) :
    Except Fault Store :=
  Store.ofRows models (rows.insertMany replaced) [("product_tags", pairs.getD productTags)] matcher

/-- The catalog of the models with the given names. -/
def catalog (names : List String) : Except Fault Catalog := do
  return .ofModels (← names.mapM fun name => (Model.find? models name).elim (.error .missingKey) .ok)

def fullCatalog : Catalog := .ofModels models

end Sift.Shop
