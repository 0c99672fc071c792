import Sift.Proofs.Request.Parameters
import Sift.Proofs.Value.Rows

/-!
# Parameters as pairs of texts

Each parameter of a list is a condition, a control parameter or ignored, which its key alone decides. All conditions are
kept in their order, whichever fields and operators they repeat, and of each control parameter the last value counts.
So neither kind disturbs the other, and a table of the values of each key says the same as a list in which equal keys
stand side by side.
-/

namespace Sift

/-! ## Keys without repetitions -/

theorem eraseDups_sublist : (keys : List String) → keys.eraseDups.Sublist keys
  | [] => .slnil
  | key :: keys => by
    rw [List.eraseDups_cons]
    exact .cons_cons key ((eraseDups_sublist _).trans List.filter_sublist)
termination_by keys => keys.length
decreasing_by
  have := List.length_filter_le (fun k => !k == key) keys
  simp only [List.length_cons]
  omega

theorem nodup_eraseDups : (keys : List String) → keys.eraseDups.Nodup
  | [] => List.nodup_nil
  | key :: keys => by
    rw [List.eraseDups_cons]
    refine List.nodup_cons.mpr ⟨fun hmem => ?_, nodup_eraseDups _⟩
    simpa using (List.mem_filter.mp (List.mem_eraseDups.mp hmem)).2
termination_by keys => keys.length
decreasing_by
  have := List.length_filter_le (fun k => !k == key) keys
  simp only [List.length_cons]
  omega

theorem nodup_of_length_eraseDups {keys : List String} (h : keys.eraseDups.length = keys.length) : keys.Nodup :=
  (eraseDups_sublist keys).eq_of_length h ▸ nodup_eraseDups keys

theorem eraseDups_concat (keys : List String) (key : String) :
    (keys ++ [key]).eraseDups = if key ∈ keys then keys.eraseDups else keys.eraseDups ++ [key] := by
  rw [List.eraseDups_append, List.removeAll]
  split
  · simp_all
  · simp_all [List.eraseDups_cons]

namespace Parameters

variable {marker key name : String} {p : String × String} {ps qs : List (String × String)} {rs : List Role}

def ofPairs (ps : List (String × String)) : Parameters :=
  .pairs (.list (ps.map fun p => .tuple [.text p.1, .text p.2]))

/-- A table with all values of a key in one array. -/
def ofGroups (groups : List (String × List String)) : Parameters :=
  .fields (groups.map fun g => (.text g.1, .list (g.2.map .text)))

/-- A table in which a key stands once for each of its values. -/
def ofMulti (groups : List (String × List String)) : Parameters :=
  .fields (groups.flatMap fun g => g.2.map fun v => (.text g.1, .text v))

/-! ## What a list of parameters says -/

/-- Is the key one of a condition: no control parameter, and without the marker for which all others are ignored? -/
def IsCondition (marker key : String) : Prop :=
  (∀ name ∈ controls, marker ++ name ≠ key) ∧ (marker ≠ "" → ¬ marker.toList <+: key.toList)

instance (marker key : String) : Decidable (IsCondition marker key) := inferInstanceAs (Decidable (_ ∧ _))

def stated (marker : String) (ps : List (String × String)) : List (String × String) :=
  ps.filter fun p => IsCondition marker p.1

def values (key : String) (ps : List (String × String)) : List String :=
  (ps.filter fun p => p.1 = key).map Prod.snd

def last? (marker name : String) (ps : List (String × String)) : Option String :=
  (values (marker ++ name) ps).getLast?

/-- What a condition asks for: a field to be compared with a text, by an operator or without one. -/
structure Requirement where
  field : String
  operator : Option String
  text : String
  deriving DecidableEq

/-- The parts of a key: without a colon it is a field, else the last colon stands before the operator, which may be
missing. -/
inductive Splits : String → String → Option String → Prop
  | whole {field : String} (h : ':' ∉ field.toList) : Splits field field none
  | bare (field : String) : Splits (field ++ ":") field none
  | operator (field : String) {op : String} (hne : op ≠ "") (h : ':' ∉ op.toList) :
      Splits (field ++ ":" ++ op) field (some op)

/-- The requirement of a parameter. -/
def Requires (p : String × String) (q : Requirement) : Prop :=
  Splits p.1 q.field q.operator ∧ q.text = p.2

/-- The requirement that an entry of a filter stands for. -/
def readEntry : Value × Value → Option Requirement
  | (.text field, .text s) => some ⟨field, none, s⟩
  | (.text field, .object [(.text op, .text s)]) => some ⟨field, some op, s⟩
  | _ => none

/-- The requirements of a filter: an array of objects with one entry each, or one object that has no field twice. -/
def readFilter : Value → Option (List Requirement)
  | .null => some []
  | .object [(.text name, .list filters)] =>
    if name = "and" then filters.mapM fun
      | .object [entry] => readEntry entry
      | _ => none
    else none
  | .object entries => (entries.mapM readEntry).filter fun qs => (qs.map Requirement.field).Nodup
  | _ => none

/-- The values of a key as they are shown: one stands for itself. -/
def shown : List String → Value
  | [s] => .text s
  | ss => .list (ss.map .text)

/-- What is given for a control parameter; the empty text gives nothing. -/
def unlessEmpty (s : Option String) : Value := (s.filter (· ≠ "")).elim .null .text

/-- What a list of parameters says. -/
structure Tells (marker : String) (ps : List (String × String)) (r : ParameterRequest) : Prop where
  filtering : ∃ qs, readFilter r.filtering = some qs ∧ List.Forall₂ Requires (stated marker ps) qs
  echo : r.echo = Row.ofKeys ((stated marker ps).map Prod.fst).eraseDups fun key => shown (values key (stated marker ps))
  ordering : r.ordering = unlessEmpty (last? marker "order_by" ps)
  direction : r.direction = unlessEmpty (last? marker "order_dir" ps)
  paging : r.paging = [(.text "page", (last? marker "page" ps).elim .null .text),
    (.text "size", (last? marker "page_size" ps).elim .null .text)]

/-! ## Roles -/

/-- What a parameter is for. -/
inductive Plays (marker : String) : String × String → Role → Prop
  | condition {p : String × String} (h : IsCondition marker p.1) :
      Plays marker p (.condition (.ofKey p.1 (.text p.2)))
  | control {name : String} (s : String) (h : name ∈ controls) :
      Plays marker (marker ++ name, s) (.control name (.text s))
  | ignored {p : String × String} (hcontrol : ∀ name ∈ controls, marker ++ name ≠ p.1) (h : ¬ IsCondition marker p.1) :
      Plays marker p .ignored

theorem exists_plays (marker : String) (p : String × String) :
    ∃ r, role marker (.text p.1) (.text p.2) = .ok r ∧ Plays marker p r := by
  by_cases hcontrol : ∃ name ∈ controls, marker ++ name = p.1
  · obtain ⟨name, hname, hkey⟩ := hcontrol
    obtain ⟨key, s⟩ := p
    subst hkey
    exact ⟨_, role_control hname _, .control s hname⟩
  · simp only [not_exists, not_and] at hcontrol
    by_cases hmarker : marker ≠ "" ∧ marker.toList <+: p.1.toList
    · exact ⟨_, role_ignored hcontrol hmarker.1 hmarker.2 _, .ignored hcontrol fun h => h.2 hmarker.1 hmarker.2⟩
    · rw [not_and] at hmarker
      exact ⟨_, role_condition hcontrol hmarker _, .condition ⟨hcontrol, hmarker⟩⟩

theorem entries_ofPairs (ps : List (String × String)) :
    (ofPairs ps).entries = .ok (ps.map fun p => .ok (.text p.1, .text p.2)) := by
  simp only [ofPairs, entries, Value.elements, bind, Except.bind, pure, Except.pure, List.map_map]
  rfl

theorem exists_roles_ofPairs (marker : String) (ps : List (String × String)) :
    ∃ rs, (ofPairs ps).roles marker = .ok rs ∧ List.Forall₂ (Plays marker) ps rs := by
  obtain ⟨rs, hrs, hplays⟩ := exists_mapM_forall₂ fun p (_ : p ∈ ps) => exists_plays marker p
  refine ⟨rs, ?_, hplays⟩
  simp only [roles, entries_ofPairs, bind, Except.bind]
  rw [List.mapM_map]
  exact hrs

theorem conditions_of_plays (h : List.Forall₂ (Plays marker) ps rs) :
    conditions rs = (stated marker ps).map fun p => .ofKey p.1 (.text p.2) := by
  induction h with
  | nil => rfl
  | @cons p r ps rs hp _ ih =>
    simp only [conditions, stated, List.filterMap_cons, List.filter_cons] at ih ⊢
    cases hp with
    | condition h => rw [if_pos (decide_eq_true h), List.map_cons, ih]
    | control s hname => rw [if_neg (by simpa using fun h => h.1 _ hname rfl), ih]
    | ignored _ h => rw [if_neg (by simpa using h), ih]

/-- The value that a parameter gives to a control parameter. -/
def Role.given? (name : String) : Role → Option Value
  | .control name' v => if name' = name then some v else none
  | _ => none

theorem control_eq (rs : List Role) (name : String) :
    control rs name = (rs.filterMap (Role.given? name)).getLast?.getD .null := by
  rw [List.getLast?_filterMap]
  rfl

theorem control_of_plays (hname : name ∈ controls) (h : List.Forall₂ (Plays marker) ps rs) :
    control rs name = (last? marker name ps).elim .null .text := by
  have hvalues : rs.filterMap (Role.given? name) = (values (marker ++ name) ps).map .text := by
    induction h with
    | nil => rfl
    | @cons p r ps rs hp _ ih =>
      simp only [values, List.filterMap_cons, List.filter_cons] at ih ⊢
      cases hp with
      | condition h => simp only [Role.given?, Ne.symm (h.1 name hname), decide_false, Bool.false_eq_true, if_false, ih]
      | @control name' s hname' =>
        by_cases heq : name' = name
        · simp only [Role.given?, heq, if_true, decide_true, List.map_cons, ih]
        · simp only [Role.given?, heq, String.append_right_inj, if_false, decide_false, Bool.false_eq_true, ih]
      | ignored hcontrol _ =>
        simp only [Role.given?, Ne.symm (hcontrol name hname), decide_false, Bool.false_eq_true, if_false, ih]
  rw [control_eq, hvalues, List.getLast?_map, last?]
  cases (values (marker ++ name) ps).getLast? <;> rfl

/-! ## Conditions -/

theorem key_cases (key : String) : ':' ∉ key.toList ∨ ∃ field op, key = field ++ ":" ++ op ∧ ':' ∉ op.toList := by
  rw [or_iff_not_imp_left, not_not]
  intro hcolon
  obtain ⟨after, before, hkey, hafter⟩ := List.eq_append_cons_of_mem (List.mem_reverse.mpr hcolon)
  refine ⟨String.ofList before.reverse, String.ofList after.reverse, ?_, by simpa using hafter⟩
  rw [← String.toList_inj, ← List.reverse_inj, hkey]
  simp

/-- The requirement of a parameter, from the condition it is read as. -/
def requirement (p : String × String) : Requirement where
  field := (Condition.ofKey p.1 (.text p.2)).field
  operator := (Condition.ofKey p.1 (.text p.2)).operator
  text := p.2

theorem requires_requirement (p : String × String) : Requires p (requirement p) := by
  refine ⟨?_, rfl⟩
  obtain ⟨key, s⟩ := p
  rcases key_cases key with hcolon | ⟨field, op, rfl, hop⟩
  · rw [requirement, Condition.ofKey_field hcolon]
    exact .whole hcolon
  · by_cases hne : op = ""
    · rw [requirement, hne, String.append_empty, Condition.ofKey_bare]
      exact .bare field
    · rw [requirement, Condition.ofKey_operator hne hop]
      exact .operator field hne hop

theorem readEntry_entry {c : Condition} {s : String} (h : c.value = .text s) :
    readEntry c.entry = some ⟨c.field, c.operator, s⟩ := by
  obtain ⟨key, field, operator, v⟩ := c
  subst h
  cases operator <;> rfl

theorem value_ofKey (key : String) (v : Value) : (Condition.ofKey key v).key = key ∧ (Condition.ofKey key v).value = v := by
  unfold Condition.ofKey
  split
  · exact ⟨rfl, rfl⟩
  · exact ⟨rfl, rfl⟩

theorem readEntry_ofKey (p : String × String) :
    readEntry (Condition.ofKey p.1 (.text p.2)).entry = some (requirement p) :=
  readEntry_entry (value_ofKey p.1 (.text p.2)).2

theorem readFilter_object {entries : List (Value × Value)}
    (h : ∀ name filters, entries ≠ [(.text name, .list filters)]) :
    readFilter (.object entries) = (entries.mapM readEntry).filter fun qs => (qs.map Requirement.field).Nodup := by
  unfold readFilter
  split
  · rename_i heq
    cases heq
  · rename_i heq
    cases heq
    exact absurd rfl (h _ _)
  · rename_i heq
    cases heq
    rfl
  · rename_i hother
    exact absurd rfl (hother entries)

theorem entry_ne_list (c : Condition) {s : String} (h : c.value = .text s) (name : String) (filters : List Value) :
    c.entry ≠ (.text name, .list filters) := by
  obtain ⟨key, field, operator, v⟩ := c
  subst h
  cases operator <;> exact fun heq => nomatch (Prod.mk.inj heq).2

/-- However the filter of some conditions is written, it is read as all of them in their order. -/
theorem readFilter_filtering (ps : List (String × String)) :
    readFilter (filtering (ps.map fun p => .ofKey p.1 (.text p.2))) = some (ps.map requirement) := by
  have hread : (ps.mapM fun p => readEntry (Condition.ofKey p.1 (.text p.2)).entry) = some (ps.map requirement) := by
    simp only [readEntry_ofKey]
    exact List.mapM_pure
  unfold filtering
  split
  · rename_i hempty
    rw [List.map_eq_nil_iff.mp (List.isEmpty_iff.mp hempty)]
    rfl
  · split
    · rename_i hfields
      have hentries : (ps.map fun p => Condition.ofKey p.1 (.text p.2)).flatMap Condition.filter =
          ps.map fun p => (Condition.ofKey p.1 (.text p.2)).entry := by
        rw [List.flatMap_map, List.map_eq_flatMap]
        exact List.flatMap_congr fun p _ => Condition.filter_eq _
      have hdistinct : ((ps.map requirement).map Requirement.field).Nodup := by
        refine nodup_of_length_eraseDups ?_
        simp only [List.map_map, List.length_map] at hfields ⊢
        exact hfields
      rw [hentries, readFilter_object, List.mapM_map]
      · simp only [Function.comp_def, hread, Option.filter_some, hdistinct, decide_true, if_true]
      · intro name filters heq
        obtain ⟨p, hp⟩ : ∃ p : String × String,
            (Condition.ofKey p.1 (.text p.2)).entry = (.text name, .list filters) := by
          have hmem := List.mem_singleton_self (Value.text name, Value.list filters)
          rw [← heq] at hmem
          obtain ⟨p, -, hp⟩ := List.mem_map.mp hmem
          exact ⟨p, hp⟩
        exact entry_ne_list _ (value_ofKey p.1 (.text p.2)).2 name filters hp
    · simp only [readFilter, List.map_map, List.mapM_map, Function.comp_def, Condition.filter_eq, if_true]
      exact hread

/-! ## The echo -/

theorem values_append (key : String) (ps qs : List (String × String)) :
    values key (ps ++ qs) = values key ps ++ values key qs := by
  rw [values, List.filter_append, List.map_append]
  rfl

theorem values_cons_of_eq (key s : String) (ps : List (String × String)) :
    values key ((key, s) :: ps) = s :: values key ps := by
  simp [values]

theorem values_cons_of_ne (h : p.1 ≠ key) : values key (p :: ps) = values key ps := by
  simp [values, h]

theorem values_eq_nil_iff : values key ps = [] ↔ key ∉ ps.map Prod.fst := by
  simp only [values, List.map_eq_nil_iff, List.filter_eq_nil_iff, decide_eq_true_eq, List.mem_map, not_exists, not_and]

/-- The values of all keys, each key in the place of its first value. -/
def echoOf (ps : List (String × String)) : Row :=
  Row.ofKeys (ps.map Prod.fst).eraseDups fun key => shown (values key ps)

/-- One more parameter is added to the values of its key. -/
theorem echoed_echoOf (ps : List (String × String)) (p : String × String) :
    echoed (echoOf ps) (.ofKey p.1 (.text p.2)) = echoOf (ps ++ [p]) := by
  obtain ⟨key, s⟩ := p
  obtain ⟨hkey, hvalue⟩ := value_ofKey key (.text s)
  have hkeys : ((ps ++ [(key, s)]).map Prod.fst).eraseDups =
      if key ∈ ps.map Prod.fst then (ps.map Prod.fst).eraseDups else (ps.map Prod.fst).eraseDups ++ [key] := by
    rw [List.map_append]
    exact eraseDups_concat _ key
  have hvalues (keys : List String) :
      (Row.ofKeys keys fun k => if k = key then shown (values key ps ++ [s]) else shown (values k ps)) =
        Row.ofKeys keys fun k => shown (values k (ps ++ [(key, s)])) := by
    refine Row.ofKeys_congr fun k _ => ?_
    rw [values_append]
    split
    · rename_i hk
      rw [hk, values_cons_of_eq]
      rfl
    · rename_i hk
      rw [values_cons_of_ne (Ne.symm hk)]
      exact congrArg shown (List.append_nil _).symm
  rw [echoed, hkey, hvalue, echoOf, echoOf, Row.contains_ofKeys, hkeys]
  simp only [List.mem_eraseDups, decide_eq_true_eq]
  split
  · rename_i hmem
    have hmem' : key ∈ (ps.map Prod.fst).eraseDups := List.mem_eraseDups.mpr hmem
    rw [Row.get_ofKeys hmem', ← hvalues, ← Row.insert_ofKeys_of_mem _ (nodup_eraseDups _) hmem']
    match h : values key ps with
    | [] => exact absurd hmem (values_eq_nil_iff.mp h)
    | [v] => rfl
    | v :: w :: vs => simp only [shown, List.cons_append, List.map_cons, List.map_append, List.map_nil]
  · rename_i hmem
    rw [← hvalues, ← Row.insert_ofKeys_of_not_mem _ fun h => hmem (List.mem_eraseDups.mp h),
      values_eq_nil_iff.mpr hmem]
    rfl

theorem foldl_echoed (ps qs : List (String × String)) :
    (ps.map fun p => Condition.ofKey p.1 (.text p.2)).foldl echoed (echoOf qs) = echoOf (qs ++ ps) := by
  induction ps generalizing qs with
  | nil => rw [List.append_nil]; rfl
  | cons p ps ih => rw [List.map_cons, List.foldl_cons, echoed_echoOf, ih, List.append_assoc]; rfl

/-! ## The request -/

/-- The request of a list of parameters. -/
def told (marker : String) (ps : List (String × String)) : ParameterRequest where
  filtering := filtering ((stated marker ps).map fun p => .ofKey p.1 (.text p.2))
  ordering := unlessEmpty (last? marker "order_by" ps)
  direction := unlessEmpty (last? marker "order_dir" ps)
  paging := [(.text "page", (last? marker "page" ps).elim .null .text),
    (.text "size", (last? marker "page_size" ps).elim .null .text)]
  echo := echoOf (stated marker ps)

theorem orNull_text (s : Option String) : orNull (s.elim .null .text) = unlessEmpty s := by
  cases s with
  | none => rfl
  | some s =>
    by_cases h : s = ""
    · subst h
      rfl
    · have htruthy : (Value.text s).truthy = true := by simpa [Value.truthy] using h
      simp only [orNull, unlessEmpty, Option.elim_some, htruthy, if_true, Option.filter_some, ne_eq, h, not_false_eq_true,
        decide_true]

theorem request_eq_told (marker : String) (ps : List (String × String)) :
    (ofPairs ps).request marker = .ok (told marker ps) := by
  obtain ⟨rs, hrs, hplays⟩ := exists_roles_ofPairs marker ps
  have hecho := foldl_echoed (stated marker ps) []
  simp only [request, hrs, bind, Except.bind, pure, Except.pure, conditions_of_plays hplays]
  rw [control_of_plays (by decide) hplays, control_of_plays (by decide) hplays, control_of_plays (by decide) hplays,
    control_of_plays (by decide) hplays, orNull_text, orNull_text]
  exact congrArg (fun echo => Except.ok { told marker ps with echo }) hecho

theorem tells_told (marker : String) (ps : List (String × String)) : Tells marker ps (told marker ps) where
  filtering := ⟨_, readFilter_filtering _, List.forall₂_map_right_iff.mpr
    (List.forall₂_same.mpr fun p _ => requires_requirement p)⟩
  echo := rfl
  ordering := rfl
  direction := rfl
  paging := rfl

/-! ## Tables -/

/-- Do equal keys stand side by side? A key is new then, or that of the next parameter. -/
inductive Adjacent : List (String × String) → Prop
  | nil : Adjacent []
  | new {p : String × String} {ps : List (String × String)} (h : p.1 ∉ ps.map Prod.fst) (rest : Adjacent ps) :
      Adjacent (p :: ps)
  | again {key t : String} {ps : List (String × String)} (s : String) (rest : Adjacent ((key, t) :: ps)) :
      Adjacent ((key, s) :: (key, t) :: ps)

/-- The values of each key, the keys in the order of their first values. -/
def grouped (ps : List (String × String)) : List (String × List String) :=
  (ps.map Prod.fst).eraseDups.map fun key => (key, values key ps)

/-- The parameters of a table, key by key. -/
def ungrouped (groups : List (String × List String)) : List (String × String) :=
  groups.flatMap fun g => g.2.map fun v => (g.1, v)

theorem ungrouped_cons (key : String) (vs : List String) (groups : List (String × List String)) :
    ungrouped ((key, vs) :: groups) = (vs.map fun v => (key, v)) ++ ungrouped groups := rfl

/-- The values of the keys other than a given one. -/
def others (key : String) (ps : List (String × String)) : List (String × List String) :=
  ((ps.map Prod.fst).filter fun k => !k == key).eraseDups.map fun k => (k, values k ps)

theorem others_cons (p : String × String) (ps : List (String × String)) : others p.1 (p :: ps) = others p.1 ps := by
  simp only [others, List.map_cons, List.filter_cons, beq_self_eq_true, Bool.not_true, Bool.false_eq_true, if_false]
  refine List.map_congr_left fun k hk => ?_
  have hne : k ≠ p.1 := by simpa using (List.mem_filter.mp (List.mem_eraseDups.mp hk)).2
  rw [values_cons_of_ne hne.symm]

theorem others_of_not_mem (h : key ∉ ps.map Prod.fst) : others key ps = grouped ps := by
  have hkept : (ps.map Prod.fst).filter (fun k => !k == key) = ps.map Prod.fst := by
    refine List.filter_eq_self.mpr fun k hk => ?_
    simpa using ne_of_mem_of_not_mem hk h
  rw [others, hkept, grouped]

theorem grouped_cons (key s : String) (ps : List (String × String)) :
    grouped ((key, s) :: ps) = (key, s :: values key ps) :: others key ps := by
  rw [grouped, List.map_cons, List.eraseDups_cons, List.map_cons, values_cons_of_eq, ← others_cons (key, s)]
  simp only [others, List.map_cons, List.filter_cons, beq_self_eq_true, Bool.not_true, Bool.false_eq_true, if_false]

theorem ungrouped_grouped (h : Adjacent ps) : ungrouped (grouped ps) = ps := by
  induction h with
  | nil => rfl
  | @new p ps hnew _ ih =>
    rw [grouped_cons, ungrouped_cons, others_of_not_mem hnew, ih, values_eq_nil_iff.mpr hnew]
    rfl
  | @again key t ps s _ ih =>
    rw [grouped_cons, ungrouped_cons] at ih
    rw [grouped_cons, ungrouped_cons, others_cons (key, t), values_cons_of_eq, List.map_cons, List.cons_append, ih]

theorem entries_ofGroups (groups : List (String × List String)) :
    (ofGroups groups).entries = (ofPairs (ungrouped groups)).entries := by
  rw [entries_ofPairs]
  simp only [ofGroups, entries, ungrouped, List.flatMap_map, List.map_flatMap, List.map_map]
  rfl

theorem entries_ofMulti (groups : List (String × List String)) :
    (ofMulti groups).entries = (ofPairs (ungrouped groups)).entries := by
  have hone : (ofMulti groups).entries =
      .ok ((ungrouped groups).flatMap fun p => [.ok (.text p.1, .text p.2)]) := by
    simp only [ofMulti, entries, ungrouped, List.flatMap_assoc, List.flatMap_map]
  rw [hone, entries_ofPairs, List.map_eq_flatMap]

theorem request_congr {p q : Parameters} (h : p.entries = q.entries) (marker : String) :
    p.request marker = q.request marker := by
  simp only [request, roles, h]

/-- Every list of parameters makes a request, and nothing in it is lost or mixed up. The conditions alone make the
filter and its echo, whatever control parameters stand among them, and the last values of the control parameters alone
make the ordering and the page. Tables that group the parameters by their keys make the same request where equal keys
stand side by side. -/
theorem request_ofPairs (marker : String) (ps : List (String × String)) :
    ∃ r, (ofPairs ps).request marker = .ok r ∧ Tells marker ps r ∧
      (∀ qs, stated marker qs = stated marker ps →
        ∃ r', (ofPairs qs).request marker = .ok r' ∧ r'.filtering = r.filtering ∧ r'.echo = r.echo) ∧
      (∀ qs, (∀ name ∈ controls, last? marker name qs = last? marker name ps) →
        ∃ r', (ofPairs qs).request marker = .ok r' ∧
          r'.ordering = r.ordering ∧ r'.direction = r.direction ∧ r'.paging = r.paging) ∧
      (∀ qs, stated marker qs = stated marker ps →
        (∀ name ∈ controls, last? marker name qs = last? marker name ps) → (ofPairs qs).request marker = .ok r) ∧
      (Adjacent ps →
        (ofGroups (grouped ps)).request marker = .ok r ∧ (ofMulti (grouped ps)).request marker = .ok r) := by
  have hlast {qs} (hqs : ∀ name ∈ controls, last? marker name qs = last? marker name ps) :
      last? marker "page" qs = last? marker "page" ps ∧ last? marker "page_size" qs = last? marker "page_size" ps ∧
        last? marker "order_by" qs = last? marker "order_by" ps ∧
        last? marker "order_dir" qs = last? marker "order_dir" ps := by
    simpa only [controls, List.forall_mem_cons, List.not_mem_nil, false_implies, implies_true, and_true] using hqs
  refine ⟨told marker ps, request_eq_told marker ps, tells_told marker ps, fun qs hqs => ?_, fun qs hqs => ?_,
    fun qs hqs hcontrols => ?_, fun hps => ?_⟩
  · refine ⟨told marker qs, request_eq_told marker qs, ?_, ?_⟩
    · rw [told, told, hqs]
    · rw [told, told, hqs]
  · obtain ⟨hpage, hsize, hordering, hdirection⟩ := hlast hqs
    refine ⟨told marker qs, request_eq_told marker qs, ?_, ?_, ?_⟩
    · rw [told, told, hordering]
    · rw [told, told, hdirection]
    · rw [told, told, hpage, hsize]
  · obtain ⟨hpage, hsize, hordering, hdirection⟩ := hlast hcontrols
    rw [request_eq_told, told, told, hqs, hpage, hsize, hordering, hdirection]
  · rw [← request_eq_told, request_congr (entries_ofGroups _), request_congr (entries_ofMulti _), ungrouped_grouped hps]
    exact ⟨rfl, rfl⟩

/-- Conditions and control parameters in turn, with two values under one key and a parameter that is ignored. -/
theorem request_ofPairs_mixed :
    let ps := [("score:in", "1,2"), ("api:page", "2"), ("name", "a"), ("name", "b"), ("api:debug", "1")]
    let qs := [("api:page", "1"), ("score:in", "1,2"), ("name", "a"), ("api:page", "2"), ("name", "b")]
    stated "api:" qs = stated "api:" ps ∧ (∀ name ∈ controls, last? "api:" name qs = last? "api:" name ps) ∧
      Adjacent ps ∧
      ∃ r, (ofPairs ps).request "api:" = .ok r ∧ (ofPairs qs).request "api:" = .ok r ∧
        (ofGroups (grouped ps)).request "api:" = .ok r ∧
        r.echo = [(.text "score:in", .text "1,2"), (.text "name", .list [.text "a", .text "b"])] := by
  intro ps qs
  have hstated : stated "api:" qs = stated "api:" ps := by decide
  have hcontrols : ∀ name ∈ controls, last? "api:" name qs = last? "api:" name ps := by decide
  have hadjacent : Adjacent ps :=
    .new (by decide) (.new (by decide) (.again "a" (.new (by decide) (.new (by decide) .nil))))
  obtain ⟨r, hr, htells, -, -, hsame, htables⟩ := request_ofPairs "api:" ps
  exact ⟨hstated, hcontrols, hadjacent, r, hr, hsame qs hstated hcontrols, (htables hadjacent).1, htells.echo.trans rfl⟩

end Parameters
end Sift
