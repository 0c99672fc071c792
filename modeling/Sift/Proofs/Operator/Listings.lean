import Sift.Operator.Preparation
import Sift.Proofs.Outcome

/-!
# Lists of values

The values of a list may be given as an array or in one text, with commas between them, blanks around them and empty
items anywhere. Either is prepared to the same values, or is refused for the same reason.
-/

namespace Sift

/-- A value that can be told from what stands around it in a text. -/
structure Listable (x : String) : Prop where
  nonempty : x ≠ ""
  whole : ',' ∉ x.toList
  trimmed : Text.Trimmed x.toList

instance (x : String) : Decidable (Listable x) :=
  decidable_of_iff (x ≠ "" ∧ ',' ∉ x.toList ∧ Text.Trimmed x.toList)
    ⟨fun h => ⟨h.1, h.2.1, h.2.2⟩, fun h => ⟨h.nonempty, h.whole, h.trimmed⟩⟩

/-- One item of a text: blanks only, or a value with blanks around it. -/
inductive ListsItem : List Char → List String → Prop
  | blank (cs : List Char) (h : Text.AllBlank cs) : ListsItem cs []
  | value (x : String) (before after : List Char) (hb : Text.AllBlank before) (ha : Text.AllBlank after) :
      ListsItem (before ++ x.toList ++ after) [x]

/-- A text of values: items with commas between them. -/
inductive Lists : List Char → List String → Prop
  | last {cs : List Char} {xs : List String} (h : ListsItem cs xs) : Lists cs xs
  | cons {cs ds : List Char} {xs ys : List String} (h : ListsItem cs xs) (hs : Lists ds ys) :
      Lists (cs ++ ',' :: ds) (xs ++ ys)

variable {x s : String} {xs : List String} {cs : List Char}

/-! ## Taking a text apart -/

/-- The value that one item of a text gives, if it gives any. -/
def listedItem (cs : List Char) : Option Value :=
  if (Text.trim cs).isEmpty then none else some (.text (String.ofList (Text.trim cs)))

theorem splitList_text (s : String) : splitList (.text s) = (Text.splitAt ',' s.toList).filterMap listedItem := by
  have hempty (cs : List Char) : (String.ofList cs).isEmpty = cs.isEmpty := by
    rw [Bool.eq_iff_iff, String.isEmpty_iff, List.isEmpty_iff, String.ofList_eq_empty_iff]
  simp only [splitList, Text.pieces, List.map_map, List.filterMap_map]
  refine List.filterMap_congr fun cs _ => ?_
  simp only [Function.comp, Text.trimmed, String.toList_ofList, hempty, listedItem]

theorem ListsItem.comma_not_mem (h : ListsItem cs xs) (hxs : ∀ x ∈ xs, Listable x) : ',' ∉ cs := by
  cases h with
  | blank _ h => exact h.not_mem rfl
  | value x before after hb ha =>
    simp only [List.mem_append, not_or]
    exact ⟨⟨hb.not_mem rfl, (hxs x List.mem_cons_self).whole⟩, ha.not_mem rfl⟩

theorem ListsItem.listedItem (h : ListsItem cs xs) (hxs : ∀ x ∈ xs, Listable x) :
    (listedItem cs).toList = xs.map .text := by
  cases h with
  | blank _ h =>
    rw [Sift.listedItem, Text.trim_of_allBlank h]
    rfl
  | value x before after hb ha =>
    obtain ⟨hne, -, htrimmed⟩ := hxs x List.mem_cons_self
    have hchars : x.toList.isEmpty = false := by
      rw [List.isEmpty_eq_false_iff]
      exact fun hnil => hne (String.toList_eq_nil_iff.mp hnil)
    rw [Sift.listedItem, Text.trim_padded hb ha htrimmed, hchars, String.ofList_toList]
    rfl

theorem Lists.filterMap_listedItem (h : Lists cs xs) (hxs : ∀ x ∈ xs, Listable x) :
    (Text.splitAt ',' cs).filterMap listedItem = xs.map .text := by
  induction h with
  | last h =>
    rw [Text.splitAt_of_not_mem (h.comma_not_mem hxs), List.filterMap_cons, ← h.listedItem hxs]
    cases listedItem _ <;> rfl
  | cons h _ ih =>
    obtain ⟨hxs, hys⟩ := List.forall_mem_append.mp hxs
    rw [Text.splitAt_append (h.comma_not_mem hxs), List.filterMap_cons, List.map_append, ← ih hys, ← h.listedItem hxs]
    cases listedItem _ <;> rfl

/-- A text of values is taken apart into them, in their order. -/
theorem splitList_of_lists (h : Lists s.toList xs) (hxs : ∀ x ∈ xs, Listable x) :
    splitList (.text s) = splitList (.list (xs.map .text)) := by
  rw [splitList_text, h.filterMap_listedItem hxs]
  rfl

/-! ## Preparing them -/

namespace Operator

/-- An operator that takes a list of values, for columns of any type. -/
structure TakesAny (op : Operator) : Prop where
  anyText : op.textOnly.truthy = false
  anyBoolean : op.booleanOnly.truthy = false
  noLiteral : op.literal = .null
  list : op.takesList.truthy = true

variable {op : Operator} {token field : String} {type : ColumnType} {v : Value}

theorem takesAny_of_get (htoken : token ∈ ["in", "not_in"]) (h : Registry.default.get token = .ok op) :
    op.TakesAny ∧ op.token = token := by
  simp only [List.mem_cons, List.not_mem_nil, or_false] at htoken
  rcases htoken with rfl | rfl
  · cases h
    exact ⟨⟨rfl, rfl, rfl, rfl⟩, rfl⟩
  · cases h
    exact ⟨⟨rfl, rfl, rfl, rfl⟩, rfl⟩

/-- The values of a list are coerced one after another, and the first one that is refused is the reason. -/
theorem TakesAny.prepare (h : op.TakesAny) (hv : v ≠ .null) : op.prepare field type v =
    Value.tuple <$> ((splitList v).mapM type.coerce).mapError fun reason =>
      .query (.typeMismatch field op.token v reason) := by
  unfold Operator.prepare
  simp only [h.anyText, h.anyBoolean, h.noLiteral, h.list, Bool.false_and, Bool.false_eq_true, if_false, if_true]

/-- A list of values and a text of them are prepared to the same tuple, which holds what each value becomes in its place,
or both are refused as mismatches. -/
theorem prepare_listed (htoken : token ∈ ["in", "not_in"]) (hop : Registry.default.get token = .ok op)
    (hxs : ∀ x ∈ xs, Listable x) (hs : Lists s.toList xs) (field : String) (type : ColumnType) :
    (∃ vs, List.Forall₂ (fun x v => type.coerce (.text x) = .ok v) xs vs ∧
      op.prepare field type (.list (xs.map .text)) = .ok (.tuple vs) ∧
      op.prepare field type (.text s) = .ok (.tuple vs)) ∨
    ∃ reason,
      op.prepare field type (.list (xs.map .text)) =
        .error (.query (.typeMismatch field token (.list (xs.map .text)) reason)) ∧
      op.prepare field type (.text s) = .error (.query (.typeMismatch field token (.text s) reason)) := by
  obtain ⟨htakes, htoken⟩ := takesAny_of_get htoken hop
  rw [htakes.prepare Value.noConfusion, htakes.prepare Value.noConfusion, splitList_of_lists hs hxs, htoken]
  cases hvs : (splitList (.list (xs.map .text))).mapM type.coerce with
  | ok vs => exact .inl ⟨vs, List.forall₂_map_left_iff.mp (forall₂_of_mapM_eq_ok hvs), rfl, rfl⟩
  | error reason => exact .inr ⟨reason, rfl, rfl⟩

theorem prepare_listed_scores : ∃ op vs, "not_in" ∈ ["in", "not_in"] ∧ Registry.default.get "not_in" = .ok op ∧
    (∀ x ∈ ["5", "1", "5"], Listable x) ∧ Lists " 5,, 1, ,5 ".toList ["5", "1", "5"] ∧
    List.Forall₂ (fun x v => ColumnType.integer.coerce (.text x) = .ok v) ["5", "1", "5"] vs ∧
    op.prepare "score" .integer (.list [.text "5", .text "1", .text "5"]) = .ok (.tuple vs) ∧
    op.prepare "score" .integer (.text " 5,, 1, ,5 ") = .ok (.tuple vs) := by
  obtain ⟨op, hop⟩ : ∃ op, Registry.default.get "not_in" = .ok op := ⟨_, rfl⟩
  have hxs : ∀ x ∈ ["5", "1", "5"], Listable x := by decide
  have hs : Lists " 5,, 1, ,5 ".toList ["5", "1", "5"] :=
    .cons (.value "5" [' '] [] (by decide) nofun) (.cons (.blank [] nofun) (.cons (.value "1" [' '] [] (by decide) nofun)
      (.cons (.blank [' '] (by decide)) (.last (.value "5" [] [' '] nofun (by decide))))))
  rcases prepare_listed (by decide) hop hxs hs "score" .integer with ⟨vs, hvs, hlist, htext⟩ | ⟨reason, hlist, -⟩
  · exact ⟨op, vs, by decide, hop, hxs, hs, hvs, hlist, htext⟩
  · -- each of these values is a numeral
    cases hop
    cases hlist

end Operator

end Sift
