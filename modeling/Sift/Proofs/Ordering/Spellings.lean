import Sift.Proofs.Ordering.Terms
import Sift.Proofs.Sample

/-!
# The spellings of an ordering

The fields of an ordering may be written in a text, each with its sign, in texts and objects one after another, or in a
single object, with blanks and empty items wherever a text has room for them. What is written so is told by a relation,
and every ordering that says the same fields is compiled to the same.
-/

namespace Sift

/-- The sign that asks for a direction. -/
def Direction.mark : Direction → Char
  | .ascending => '+'
  | .descending => '-'

/-- A field to order by, which may have a sign. Its name can be told from what stands around it in a text. -/
structure SignedField where
  name : String
  sign : Option Direction
  named : name ≠ ""
  whole : ',' ∉ name.toList
  trimmed : Text.Trimmed name.toList
  unsigned : ∀ d : Direction, d.mark ∉ name.toList.head?

def Shop.byName (sign : Option Direction) : SignedField where
  name := "name"
  sign := sign
  named := by decide
  whole := by decide
  trimmed := by decide
  unsigned d := by cases d <;> decide

namespace SignedField

def entry (f : SignedField) : String × Value := (f.name, SortOrder.directionValue f.sign)

/-- One item of a text: blanks only, or a field with blanks around it and behind its sign. -/
inductive WritesItem : List Char → List SignedField → Prop
  | blank (cs : List Char) (h : Text.AllBlank cs) : WritesItem cs []
  | unsigned (f : SignedField) (before after : List Char) (hs : f.sign = none) (hb : Text.AllBlank before)
      (ha : Text.AllBlank after) : WritesItem (before ++ f.name.toList ++ after) [f]
  | signed (f : SignedField) (d : Direction) (before between after : List Char) (hs : f.sign = some d)
      (hb : Text.AllBlank before) (hm : Text.AllBlank between) (ha : Text.AllBlank after) :
      WritesItem (before ++ d.mark :: (between ++ f.name.toList) ++ after) [f]

/-- A text: items with commas between them. -/
inductive WritesText : List Char → List SignedField → Prop
  | last {cs : List Char} {fs : List SignedField} (h : WritesItem cs fs) : WritesText cs fs
  | cons {cs ds : List Char} {fs gs : List SignedField} (h : WritesItem cs fs) (hs : WritesText ds gs) :
      WritesText (cs ++ ',' :: ds) (fs ++ gs)

/-- A text of fields, or an object for one of them. -/
inductive SpellsItem : Value → List SignedField → Prop
  | text {s : String} {fs : List SignedField} (h : WritesText s.toList fs) : SpellsItem (.text s) fs
  | object {entries : Row} {f : SignedField} (h : SortOrder.Says entries f.name f.sign) :
      SpellsItem (.object entries) [f]

/-- A whole ordering: one item, or an array of them. -/
inductive Spells : Value → List SignedField → Prop
  | item {v : Value} {fs : List SignedField} (h : SpellsItem v fs) : Spells v fs
  | list {items : List Value} {parts : List (List SignedField)} (h : List.Forall₂ SpellsItem items parts) :
      Spells (.list items) parts.flatten
  | tuple {items : List Value} {parts : List (List SignedField)} (h : List.Forall₂ SpellsItem items parts) :
      Spells (.tuple items) parts.flatten

variable {f : SignedField} {fs : List SignedField} {cs : List Char} {v w : Value}

/-! ## Writing -/

/-- A field with its sign in front. -/
def text (f : SignedField) : String := f.sign.elim f.name fun d => String.singleton d.mark ++ f.name

/-- Fields with commas between them. -/
def listing (fs : List SignedField) : String := ",".intercalate (fs.map text)

theorem toList_text (f : SignedField) : f.text.toList = f.sign.toList.map Direction.mark ++ f.name.toList := by
  unfold text
  cases f.sign with
  | none => rfl
  | some d =>
    rw [Option.elim_some, String.toList_append, String.toList_singleton]
    rfl

theorem toList_listing (fs : List SignedField) :
    (listing fs).toList = [','].intercalate (fs.map fun f => f.text.toList) := by
  rw [listing, String.toList_intercalate, List.map_map]
  rfl

theorem writesText_intercalate {α : Type} {write : α → List Char} {said : α → SignedField} {as : List α}
    (h : ∀ a ∈ as, WritesItem (write a) [said a]) : WritesText ([','].intercalate (as.map write)) (as.map said) := by
  induction as with
  | nil => exact .last (.blank [] nofun)
  | cons a as ih =>
    obtain ⟨ha, has⟩ := List.forall_mem_cons.mp h
    cases as with
    | nil =>
      rw [List.map_singleton, List.intercalate_singleton]
      exact .last ha
    | cons b bs =>
      rw [List.map_cons, List.map_cons, List.intercalate_cons_cons, List.append_assoc]
      exact .cons ha (ih has)

theorem spells_listing (fs : List SignedField) : Spells (.text (listing fs)) fs := by
  have hitem : ∀ f ∈ fs, WritesItem f.text.toList [id f] := fun f _ => by
    rw [toList_text]
    cases hs : f.sign with
    | none => simpa using WritesItem.unsigned f [] [] hs nofun nofun
    | some d => simpa using WritesItem.signed f d [] [] [] hs nofun nofun nofun
  have htext := writesText_intercalate hitem
  rw [List.map_id, ← toList_listing] at htext
  exact .item (.text htext)

/-! ## Reading -/

theorem WritesItem.comma_not_mem (h : WritesItem cs fs) : ',' ∉ cs := by
  cases h with
  | blank _ h => exact h.not_mem rfl
  | unsigned f before after hs hb ha =>
    simp only [List.mem_append, not_or]
    exact ⟨⟨hb.not_mem rfl, f.whole⟩, ha.not_mem rfl⟩
  | signed f d before between after hs hb hm ha =>
    have hmark : ',' ≠ d.mark := by cases d <;> decide
    simp only [List.mem_append, List.mem_cons, not_or]
    exact ⟨⟨hb.not_mem rfl, hmark, hm.not_mem rfl, f.whole⟩, ha.not_mem rfl⟩

theorem exists_cons (f : SignedField) : ∃ c cs, f.name.toList = c :: cs ∧ c ≠ '-' ∧ c ≠ '+' := by
  cases hname : f.name.toList with
  | nil => exact absurd (String.toList_eq_nil_iff.mp hname) f.named
  | cons c cs =>
    have hunsigned := f.unsigned
    simp only [hname, List.head?_cons, Option.mem_def, Option.some.injEq] at hunsigned
    exact ⟨c, cs, rfl, hunsigned .descending, hunsigned .ascending⟩

theorem trimmed_signed (f : SignedField) (d : Direction) (between : List Char) :
    Text.Trimmed (d.mark :: (between ++ f.name.toList)) where
  front := by
    rintro c ⟨⟩
    cases d <;> decide
  back := by
    obtain ⟨c, cs, hname, -, -⟩ := f.exists_cons
    have hlast : (d.mark :: (between ++ f.name.toList)).getLast? = f.name.toList.getLast? := by
      rw [← List.cons_append, hname, List.getLast?_append_cons]
    rw [hlast]
    exact f.trimmed.back

theorem WritesItem.signedField (h : WritesItem cs fs) : (SortOrder.signedField cs).toList = fs.map entry := by
  cases h with
  | blank _ h =>
    rw [SortOrder.signedField, Text.trim_of_allBlank h]
    rfl
  | unsigned f before after hs hb ha =>
    obtain ⟨c, cs, hname, hminus, hplus⟩ := f.exists_cons
    rw [SortOrder.signedField, Text.trim_padded hb ha f.trimmed]
    -- the name begins with no sign, so that it is left as it is
    split
    · next heq => exact absurd (List.cons.inj (hname.symm.trans heq)).1 hminus
    · next heq => exact absurd (List.cons.inj (hname.symm.trans heq)).1 hplus
    · next heq => exact absurd (hname.symm.trans heq) (List.cons_ne_nil _ _)
    · rw [String.ofList_toList, List.map_cons, entry, hs]
      rfl
  | signed f d before between after hs hb hm ha =>
    have hname : Text.trim (between ++ f.name.toList ++ []) = f.name.toList := Text.trim_padded hm nofun f.trimmed
    rw [List.append_nil] at hname
    rw [SortOrder.signedField, Text.trim_padded hb ha (f.trimmed_signed d between)]
    cases d <;>
    · simp only [Direction.mark, hname, String.ofList_toList, List.map_cons, List.map_nil, entry, hs]
      rfl

theorem WritesText.signedFields (h : WritesText cs fs) :
    (Text.splitAt ',' cs).filterMap SortOrder.signedField = fs.map entry := by
  induction h with
  | last h =>
    rw [Text.splitAt_of_not_mem h.comma_not_mem, List.filterMap_cons, ← h.signedField]
    cases SortOrder.signedField _ <;> rfl
  | cons h _ ih =>
    rw [Text.splitAt_append h.comma_not_mem, List.filterMap_cons, List.map_append, ← ih, ← h.signedField]
    cases SortOrder.signedField _ <;> rfl

theorem SpellsItem.itemFields (h : SpellsItem v fs) : SortOrder.itemFields v = .ok (fs.map entry) := by
  cases h with
  | text h => exact congrArg Except.ok h.signedFields
  | @object entries f h =>
    rw [SortOrder.itemFields, h.objectField f.named]
    rfl

theorem mapM_itemFields {items : List Value} {parts : List (List SignedField)}
    (h : List.Forall₂ SpellsItem items parts) :
    List.flatten <$> items.mapM SortOrder.itemFields = .ok (parts.flatten.map entry) := by
  have hparts : items.mapM SortOrder.itemFields = .ok (parts.map (List.map entry)) := by
    refine mapM_eq_ok_of_forall₂ (List.forall₂_map_right_iff.mpr (h.imp fun _ _ hitem => ?_))
    exact hitem.itemFields
  rw [hparts, List.map_flatten]
  rfl

theorem SpellsItem.fields (h : SpellsItem v fs) : SortOrder.fields v = .ok (fs.map entry) := by
  cases h with
  | text h => rw [SortOrder.fields_text, SortOrder.signedFields, h.signedFields]
  | @object entries f h => exact h.fields_object f.named

theorem Spells.fields (h : Spells v fs) : SortOrder.fields v = .ok (fs.map entry) := by
  cases h with
  | item h => exact h.fields
  | list h => rw [SortOrder.fields_list, mapM_itemFields h]
  | tuple h => rw [SortOrder.fields_tuple, mapM_itemFields h]

end SignedField

namespace OrderRules

variable {r : OrderRules} {fs : List SignedField} {v w direction : Value}

/-- The ordering by some fields: each has the direction of its sign, and one without a sign has the given direction. -/
def orderBy (r : OrderRules) (fs : List SignedField) (direction : Value) : Except Fault SortOrder := do
  let default ← Direction.parse direction r.defaultDirection
  let terms ← fs.mapM fun f => do return ⟨f.name, ← r.column f.name, f.sign.getD default⟩
  r.complete terms

theorem compile_of_spells (h : SignedField.Spells v fs) (direction : Value) :
    r.compile v direction = r.orderBy fs direction := by
  -- a field without a sign has no direction to parse, so only the columns can be refused
  have hterm : ∀ default, (fun f => r.term default f.1 f.2) ∘ SignedField.entry =
      fun f => do return ⟨f.name, ← r.column f.name, f.sign.getD default⟩ := fun default => funext fun f => by
    simp only [Function.comp, SignedField.entry, term_eq, SortOrder.parse_directionValue]
    rfl
  rw [compile_eq, orderBy, h.fields]
  refine bind_congr fun default => ?_
  rw [← hterm, ← List.mapM_map]
  rfl

/-- All spellings of the same fields are compiled to the same ordering, which is by these fields, or are refused for the
same reason. -/
theorem compile_eq_of_spells (hv : SignedField.Spells v fs) (hw : SignedField.Spells w fs) (direction : Value) :
    r.compile v direction = r.compile w direction ∧ r.compile v direction = r.orderBy fs direction :=
  ⟨(compile_of_spells hv direction).trans (compile_of_spells hw direction).symm, compile_of_spells hv direction⟩

theorem compile_eq_of_spells_ranking :
    (Shop.ranking "name").compile (.text " - name , ,+name,name") .null =
        (Shop.ranking "name").compile (.list [.object [(.text "column", .text "name"), (.text "dir", .text "DESC")],
          .text "+name,", .object [(.text "field", .text "name")]]) .null ∧
      ∃ o, (Shop.ranking "name").orderBy [Shop.byName (some .descending), Shop.byName (some .ascending),
        Shop.byName none] .null = .ok o := by
  have hdown : SignedField.WritesItem " - name ".toList [Shop.byName (some .descending)] :=
    .signed (Shop.byName (some .descending)) .descending [' '] [' '] [' '] rfl (by decide) (by decide) (by decide)
  have hup : SignedField.WritesItem "+name".toList [Shop.byName (some .ascending)] :=
    .signed (Shop.byName (some .ascending)) .ascending [] [] [] rfl nofun nofun nofun
  have hplain : SignedField.WritesItem "name".toList [Shop.byName none] :=
    .unsigned (Shop.byName none) [] [] rfl nofun nofun
  have htext : SignedField.WritesText " - name , ,+name,name".toList
      [Shop.byName (some .descending), Shop.byName (some .ascending), Shop.byName none] :=
    .cons hdown (.cons (.blank [' '] (by decide)) (.cons hup (.last hplain)))
  have hobject : SortOrder.Says [(.text "column", .text "name"), (.text "dir", .text "DESC")] "name"
      (some .descending) := SortOrder.says_pair (by decide) (by decide) "name" .descending
  have hbare : SortOrder.Says [(.text "field", .text "name")] "name" none :=
    SortOrder.says_single (by decide) "name"
  have hitems : List.Forall₂ SignedField.SpellsItem
      [.object [(.text "column", .text "name"), (.text "dir", .text "DESC")], .text "+name,",
        .object [(.text "field", .text "name")]]
      [[Shop.byName (some .descending)], [Shop.byName (some .ascending)], [Shop.byName none]] :=
    .cons (.object hobject) (.cons (.text (.cons hup (.last (.blank [] nofun)))) (.cons (.object hbare) .nil))
  exact ⟨(compile_eq_of_spells (.item (.text htext)) (.list hitems) .null).1, _, rfl⟩

end OrderRules

end Sift
