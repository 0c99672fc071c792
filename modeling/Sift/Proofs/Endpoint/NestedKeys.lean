import Sift.Proofs.Endpoint.Serving
import Sift.Proofs.Store.ShownKeys

/-!
# Foreign keys behind included relations

A projected row shows an identifier under every foreign key to a mapped entity, however deep it stands. A filter on such
a key behind relations asks for the key itself. So what is shown there is found only where it is taken for the key.
-/

namespace Sift

namespace ExposedKey

variable {s : Store} {e : Endpoint} {includes : IncludeTree} {rules : FilterRules} {p : Projector}
  {lookups : LookupStore} {chain : List String} {bs : List Branch} {checked : Bool} {name : String} {op : Operator}

/-- What a row shows under a foreign key behind relations is exposed of the row that the key refers to, and it is found
there exactly where it can be taken for the key and is equal to it. -/
theorem finds_nested_iff (k : ExposedKey s.models p.mappings) (h : e.Serves s includes rules p lookups)
    (hchain : Branch.Along e.entity includes.branches chain k.entity bs) (hne : chain ≠ [])
    (hone : s.LeadsToOne e.entity chain) (hids : "id" ∉ chain) (hnames : Scope.IsPath (chain ++ [k.column]))
    (hkey : ∀ own, rules.scope.mappings.get? (.text k.entity) = some own → own.key ≠ .text k.column)
    (htype : k.keyStorage.columnType ≠ .other) (hand : name ≠ "and") (hor : name ≠ "or")
    (hname : rules.scope.path (rules.policy.toInternal (.text name)) = .ok (Text.dotted (chain ++ [k.column])))
    (hpermits : checked = true → rules.permits (.text name) = true) (hop : rules.registry.get? "eq" = some op)
    (hsound : op.isSound = true) (hkind : op.kind = .eq) :
    ∀ records, (∀ r ∈ records, r ∈ s.records e.entity) → ∃ rows,
      p.project lookups (records.map fun r => .object (s.present e.entity includes r)) = .ok rows ∧
        List.Forall₂ (fun r row => ∀ o x, row.at? chain = some o → o.get k.column = x → x ≠ .null →
          (∀ w, op.prepare name k.keyStorage.columnType x = .ok w →
            w.InRange ∧ ∀ t, w = .moment t → t.offset = none) →
          ∃ other, s.behind e.entity r chain = some other ∧ k.IsShown other x ∧
            ((∃ c, rules.compile checked (.object [(.text name, .object [(.text "eq", x)])]) = .ok c ∧
                s.meets e.entity c.predicate r = true) ↔
              ∃ w, op.prepare name k.keyStorage.columnType x = .ok w ∧
                ((other.content k.column).shown == w) = true)) records rows := by
  intro records hrecords
  obtain ⟨found, rows, hproject, hfound, hrendered⟩ := h.exists_rendered hrecords
  obtain ⟨many, href⟩ := h.exists_resolve hname hne hnames hchain k.model_found k.column_kept hkey
  have hfollow : Branch.AllFollow (.ofModels s.models) (.text e.entity) includes.branches := h.entity ▸ h.follows
  have htarget := Store.targetOf_along h.labelled hchain h.model hfollow
  refine ⟨rows, hproject, hrendered.imp fun r row hrow o x ho hx hnull hprepared => ?_⟩
  obtain ⟨other, hother, hnested⟩ := Projector.Renders.at? h.suits h.stored h.labelled hfound hchain hids hrow ho
  refine ⟨other, hother, hx ▸ isShown_of_renders k h.suits h.stored h.labelled hfound hnested, ?_⟩
  cases hw : op.prepare name k.keyStorage.columnType x with
  | error fault =>
    have hcompile := FilterRules.compile_single (x := x) hand hor href hpermits hop
    rw [hw] at hcompile
    constructor
    · rintro ⟨c, hc, -⟩
      cases hcompile.symm.trans hc
    · rintro ⟨w, hw', -⟩
      cases hw'
  | ok w =>
    obtain ⟨hrange, hoffset⟩ := hprepared w hw
    have hholds := (Operator.prepare_eq_cases hsound hkind htype hw).resolve_left
      (Operator.prepare_ne_null hsound hnull hw)
    obtain ⟨c, hc, -, hmeets⟩ := h.exists_compile hand hor href hpermits hop hkind
      (htarget.symm ▸ k.model_found) k.column_kept hone hw hholds hrange hoffset
    constructor
    · rintro ⟨c', hc', hmet⟩
      cases hc.symm.trans hc'
      obtain ⟨other', hother', heq⟩ := (hmeets r hrow.mem).mp hmet
      cases hother.symm.trans hother'
      exact ⟨w, rfl, heq⟩
    · rintro ⟨w', hw', heq⟩
      cases hw'
      exact ⟨c, hc, (hmeets r hrow.mem).mpr ⟨other, hother, heq⟩⟩

end ExposedKey

namespace Shop

def companyKey : ExposedKey employed.models labelledRows.mappings where
  entity := "User"
  model := user
  relation := { label := "company", target := .text "Company", foreignKey := .text "company_id" }
  column := "company_id"
  target := "Company"
  owner := company
  key := "id"
  exposed := "slug"
  keyStorage := .integer
  storage := .wrapped
  model_found := user_employed
  owner_found := rfl
  linked := List.mem_cons_self
  toOne := rfl
  foreignKey_eq := rfl
  target_eq := rfl
  only := by
    intro r hr hcolumn
    rcases List.mem_cons.mp hr with rfl | hr
    · rfl
    · obtain rfl := List.mem_singleton.mp hr
      exact absurd (Value.text.inj hcolumn) (by decide)
  mapped := rfl
  column_kept := rfl
  key_kept := rfl
  exposed_kept := rfl
  not_id := by decide
  not_own := by
    intro own hown
    cases hown
    exact fun h => absurd (Value.text.inj h) (by decide)
  not_connective := by decide
  plain_names := by decide

end Shop

namespace ExposedKey

theorem finds_nested_iff_labelled : ∃ rows, Shop.labelledRows.project (.ofTables Shop.shownAs)
      ((Shop.employed.records "Product").map fun r => .object (Shop.employed.present "Product" Shop.owners r)) =
        .ok rows ∧
    List.Forall₂ (fun r row => ∀ o x, row.at? ["owner"] = some o → o.get "company_id" = x → x ≠ .null →
      (∀ w, Shop.equals.prepare "owner.company_id" .integer x = .ok w →
        w.InRange ∧ ∀ t, w = .moment t → t.offset = none) →
      ∃ other, Shop.employed.behind "Product" r ["owner"] = some other ∧ Shop.companyKey.IsShown other x ∧
        ((∃ c, Shop.labelledRules.compile true (.object [(.text "owner.company_id", .object [(.text "eq", x)])]) =
              .ok c ∧ Shop.employed.meets "Product" c.predicate r = true) ↔
          ∃ w, Shop.equals.prepare "owner.company_id" .integer x = .ok w ∧
            ((other.content "company_id").shown == w) = true)) (Shop.employed.records "Product") rows := by
  have hchain : Branch.Along "Product" Shop.owners.branches ["owner"] "User" [] :=
    .cons List.mem_cons_self rfl rfl (.nil "User" [])
  have hone : Shop.employed.LeadsToOne "Product" ["owner"] := ⟨by decide +kernel, trivial⟩
  have hkey : ∀ own, Shop.labelledRules.scope.mappings.get? (.text "User") = some own →
      own.key ≠ .text "company_id" := by
    intro own hown
    cases hown
    exact fun h => absurd (Value.text.inj h) (by decide)
  have hname : Shop.labelledRules.scope.path (Shop.labelledRules.policy.toInternal (.text "owner.company_id")) =
    .ok (Text.dotted (["owner"] ++ ["company_id"])) := rfl
  have hop : Registry.default.get? "eq" = some Shop.equals := rfl
  exact finds_nested_iff Shop.companyKey Shop.serves_labelled hchain (List.cons_ne_nil _ _) hone (by decide) (by decide)
    hkey (by decide) (by decide) (by decide) hname (fun _ => rfl) hop (by decide) rfl _ fun r hr => hr

/-- What is shown for the company of an owner is not found there. -/
theorem not_finds_nested : (do
    let e ← Endpoint.configure "Product" (.ofModels Shop.employed.models)
      { includes := .text "owner", relationIdMapping := .list [.mapping (.text "Company") (.text "id") (.text "slug")] }
    Shop.foundAndAnswered e Shop.employed Shop.shownAs "owner.company_id" (.text "acme") fun row =>
      (row.at? ["owner"]).any fun (o : Row) => o.get "company_id" == Value.text "acme").toOption =
        some [(false, true), (false, false)] := by
  decide +kernel

end ExposedKey

end Sift
