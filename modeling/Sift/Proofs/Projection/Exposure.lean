import Mathlib.Data.List.Forall2
import Sift.Proofs.Projection.Lookups
import Sift.Proofs.Value.Rows

/-!
# What projected rows show

Rows that suit a store can be projected. Replacing the keys of a row and of the objects in it leaves alone whatever is
neither a foreign key nor a label, so every foreign key is replaced exactly once, by what was found for it.
-/

namespace Sift

/-- Under every name there is what was there before, or else a key. -/
def Row.Rekeyed (row row' : Row) : Prop := ∀ name, row'.get name = row.get name ∨ (row'.get name).isKey = true

namespace Row.Rekeyed

variable {row row₁ row' : Row}

theorem refl (row : Row) : Rekeyed row row := fun _ => .inl rfl

theorem trans (h : Rekeyed row row₁) (h' : Rekeyed row₁ row') : Rekeyed row row' := by
  intro name
  rcases h' name with heq | hkey
  · rw [heq]
    exact h name
  · exact .inr hkey

theorem insert {name : String} {v : Value} (h : Rekeyed row row₁) (hv : v.isKey = true) :
    Rekeyed row (row₁.insert name v) := by
  intro name'
  rw [Row.get_insert]
  split
  · exact .inr hv
  · exact h name'

theorem allFit {s : Store} {entity : String} {bs : List Branch} (h : Rekeyed row row')
    (hfit : Branch.AllFit s entity row bs) : Branch.AllFit s entity row' bs := by
  refine hfit.mono fun b _ o ho => ?_
  rcases h b.label with heq | hkey
  · rwa [heq] at ho
  · rw [Branch.nestedObjects_of_isKey hkey] at ho
    cases ho

end Row.Rekeyed

namespace Projector

variable {p : Projector} {s : Store} {found : Table Value Row} {entity name column : String} {row row' : Row}
  {v v' : Value} {b : Branch} {bs : List Branch}

/-- What a foreign key is replaced with. Null stays null. -/
def replacement (found : Table Value Row) (k : KeyMapping) : Value → Except Fault Value
  | .null => .ok .null
  | v => identifier found k.entity v

theorem replacement_of_ne_null (found : Table Value Row) (k : KeyMapping) (hv : v ≠ .null) :
    replacement found k v = identifier found k.entity v := by
  unfold replacement
  split
  · exact absurd rfl hv
  · rfl

theorem exists_identifier (hs : s.Stored) (hfound : Finds s found) (e : Value) (hv : s.Shows v) :
    ∃ w, identifier found e v = .ok w ∧ s.Shows w := by
  have hrequire : v.requireKey = .ok v := if_pos (hv.isKey hs)
  refine ⟨(((found.get? e).getD []).get? v).getD v, by rw [identifier, hrequire]; rfl, ?_⟩
  cases htable : found.get? e with
  | none => exact hv
  | some table =>
    cases hw : Table.get? v table with
    | none => rwa [Option.getD_some, hw]
    | some w =>
      rw [Option.getD_some, hw]
      obtain ⟨k, hk, -⟩ := Table.exists_mem_of_get?_eq_some hw
      obtain ⟨e', he', -⟩ := Table.exists_mem_of_get?_eq_some htable
      exact hfound _ he' _ hk

/-! ## The keys of one object -/

/-- The name is neither `id` nor the column that the entity is exposed by, if it is mapped. -/
def NotOwn (p : Projector) (entity name : String) : Prop :=
  ∀ own, p.mappings.get? (.text entity) = some own → name ≠ "id" ∧ own.exposed ≠ .text name

theorem exists_exposeOwn (h : p.Suits s) (hs : s.Stored) (hfound : Finds s found) {m : Model}
    (hm : Model.find? s.models entity = some m) (hrow : s.Fills entity row) :
    ∃ row', p.exposeOwn found (.text entity) row = .ok row' ∧ s.Fills entity row' ∧ row.Rekeyed row' ∧
      (∀ name, p.NotOwn entity name → row'.get name = row.get name) ∧
      ∀ own, p.mappings.get? (.text entity) = some own → Table.contains own.exposed row = true →
        row'.get "id" = row.field own.exposed := by
  unfold exposeOwn
  cases hk : p.mappings.get? (.text entity) with
  | none => exact ⟨row, rfl, hrow, .refl row, fun _ _ => rfl, fun _ hown => nomatch hown⟩
  | some k =>
    obtain ⟨key, exposed, hexposes⟩ := h.mapped entity m k hm hk
    cases hk.symm.trans hexposes.mapping
    have hkey := hexposes.key
    have hexposed := hexposes.exposed
    simp only [Value.requireKey_text, bind, Except.bind, Row.field_text]
    split
    · -- the identifier was loaded
      have hshows := hrow.get hexposed
      have herase : row.Rekeyed (row.erase exposed) := by
        intro name
        by_cases hname : name = exposed
        · subst hname
          exact .inr ((hrow.erase.get hexposed).isKey hs)
        · exact .inl (Row.get_erase hname row)
      refine ⟨_, rfl, hrow.erase.insert fun _ => hshows, herase.insert (hshows.isKey hs), fun name hname => ?_, ?_⟩
      · obtain ⟨hid, hne⟩ := hname _ hk
        rw [Row.get_insert, if_neg hid]
        exact Row.get_erase (fun heq => hne (congrArg Value.text heq.symm)) row
      · rintro own hown -
        cases hown
        rw [Row.get_insert, if_pos rfl]
        rfl
    · rename_i hloaded
      have hshows := hrow.get hkey
      have hown : ∀ own, (some ⟨.text entity, .text key, .text exposed⟩ : Option KeyMapping) = some own →
          Table.contains own.exposed row = true → ∀ row' : Row, row'.get "id" = row.field own.exposed := by
        rintro own hown hcontains
        cases hown
        exact absurd hcontains hloaded
      split
      · exact ⟨row, rfl, hrow, .refl row, fun _ _ => rfl, fun own hk hc => hown own hk hc row⟩
      · obtain ⟨w, hw, hshown⟩ := exists_identifier hs hfound (.text entity) hshows
        rw [hw]
        refine ⟨_, rfl, hrow.insert fun _ => hshown, (Row.Rekeyed.refl row).insert (hshown.isKey hs),
          fun name hname => ?_, fun own hk hc => hown own hk hc _⟩
        rw [Row.get_insert, if_neg (hname _ hk).1]

theorem exists_exposeForeignKey (hs : s.Stored) (hfound : Finds s found) (hrow : s.Fills entity row)
    (hcolumn : IsPlain s.models entity column) (k : KeyMapping) :
    ∃ row', exposeForeignKey found row (.text column, k) = .ok row' ∧ s.Fills entity row' ∧ row.Rekeyed row' ∧
      (∀ name, name ≠ column → row'.get name = row.get name) ∧
      replacement found k (row.get column) = .ok (row'.get column) := by
  have hshows := hrow.get hcolumn
  rw [exposeForeignKey, Row.field_text]
  by_cases hnull : row.get column = .null
  · rw [hnull]
    exact ⟨row, rfl, hrow, .refl row, fun _ _ => rfl, by rw [hnull, replacement]⟩
  · obtain ⟨w, hw, hshown⟩ := exists_identifier hs hfound k.entity hshows
    refine ⟨row.insert column w, ?_, hrow.insert fun _ => hshown, (Row.Rekeyed.refl row).insert (hshown.isKey hs),
      fun name hne => ?_, ?_⟩
    · simp only [hw, bind, Except.bind]
      rfl
    · rw [Row.get_insert, if_neg hne]
    · rw [Row.get_insert, if_pos rfl, ← hw, replacement_of_ne_null found k hnull]

/-- Foreign keys are replaced one after another; as they are told once each, none is replaced twice. -/
theorem exists_foldlM_exposeForeignKey (hs : s.Stored) (hfound : Finds s found) {keys : List (Value × KeyMapping)}
    (hkeys : ∀ e ∈ keys, ∃ column, e.1 = .text column ∧ IsPlain s.models entity column)
    (honce : keys.Pairwise fun a b => ¬ (b.1 == a.1) = true) (hrow : s.Fills entity row) :
    ∃ row', keys.foldlM (exposeForeignKey found) row = .ok row' ∧ row.Rekeyed row' ∧
      (∀ name, (∀ e ∈ keys, e.1 ≠ .text name) → row'.get name = row.get name) ∧
      ∀ column k, (.text column, k) ∈ keys → replacement found k (row.get column) = .ok (row'.get column) := by
  induction keys generalizing row with
  | nil => exact ⟨row, rfl, .refl row, fun _ _ => rfl, fun _ _ hk => absurd hk List.not_mem_nil⟩
  | cons e keys ih =>
    obtain ⟨e, k⟩ := e
    obtain ⟨⟨column, rfl, hcolumn⟩, htail⟩ := List.forall_mem_cons.mp hkeys
    obtain ⟨hfirst, honce⟩ := List.pairwise_cons.mp honce
    have hother : ∀ e ∈ keys, e.1 ≠ .text column := fun e he heq => hfirst e he (Value.beq_text_iff.mpr heq)
    obtain ⟨row₁, hrow₁, hfills, hrekeyed, hsame, hreplaced⟩ := exists_exposeForeignKey hs hfound hrow hcolumn k
    obtain ⟨row', hrow', hrekeyed', hsame', hreplaced'⟩ := ih htail honce hfills
    refine ⟨row', by rw [List.foldlM_cons, hrow₁]; exact hrow', hrekeyed.trans hrekeyed', fun name hname => ?_,
      fun column' k' hk' => ?_⟩
    · obtain ⟨hhead, hrest⟩ := List.forall_mem_cons.mp hname
      rw [hsame' name hrest, hsame name fun heq => hhead (congrArg Value.text heq.symm)]
    · rcases List.mem_cons.mp hk' with heq | hk'
      · cases heq
        rw [hsame' column hother, hreplaced]
      · have hne : column' ≠ column := fun heq => hother _ hk' (congrArg Value.text heq)
        rw [← hsame column' hne]
        exact hreplaced' column' k' hk'

/-- What replacing the keys that an object of an entity holds makes of it. -/
structure KeysExposed (p : Projector) (s : Store) (found : Table Value Row) (entity : String) (m : Model)
    (row row' : Row) : Prop where
  rekeyed : row.Rekeyed row'
  replaced : ∀ column k, (.text column, k) ∈ p.exposedKeys s m → p.NotOwn entity column →
    replacement found k (row.get column) = .ok (row'.get column)
  same : ∀ name, p.NotOwn entity name → (∀ e ∈ p.exposedKeys s m, e.1 ≠ .text name) → row'.get name = row.get name
  /-- The identifier, where it was loaded. -/
  own : ∀ own, p.mappings.get? (.text entity) = some own → Table.contains own.exposed row = true →
    (∀ e ∈ p.exposedKeys s m, e.1 ≠ .text "id") → row'.get "id" = row.field own.exposed

/-- What stands under a name that is no column stays there, unless the name is `id`. -/
theorem KeysExposed.get_of_not_isPlain {m : Model} (hkeys : p.KeysExposed s found entity m row row') (h : p.Suits s)
    (hm : Model.find? s.models entity = some m) (hname : ¬ IsPlain s.models entity name) (hid : name ≠ "id") :
    row'.get name = row.get name := by
  refine hkeys.same name (fun own hown => ?_) fun e he heq => ?_
  · obtain ⟨key, exposed, hexposes⟩ := h.mapped entity m own hm hown
    cases hown.symm.trans hexposes.mapping
    refine ⟨hid, fun heq => hname ?_⟩
    cases heq
    exact hexposes.exposed
  · obtain ⟨column, name, key, exposed, rfl, hplain, -⟩ := h.mem_exposedKeys hm he
    cases heq
    exact hname hplain

theorem exists_exposeKeys (h : p.Suits s) (hs : s.Stored) (hfound : Finds s found) {m : Model}
    (hm : Model.find? s.models entity = some m) (hrow : s.Fills entity row) :
    ∃ row', p.exposeKeys found (.text entity) row = .ok row' ∧ p.KeysExposed s found entity m row row' := by
  obtain ⟨row₁, hrow₁, hfills, hrekeyed, hsame, hown⟩ := exists_exposeOwn h hs hfound hm hrow
  have hkeys : ∀ e ∈ p.exposedKeys s m, ∃ column, e.1 = .text column ∧ IsPlain s.models entity column := by
    intro e he
    obtain ⟨column, name, key, exposed, rfl, hplain, -⟩ := h.mem_exposedKeys hm he
    exact ⟨column, rfl, hplain⟩
  obtain ⟨row', hrow', hrekeyed', hkept, hreplaced⟩ :=
    exists_foldlM_exposeForeignKey hs hfound hkeys distinct_exposedKeys hfills
  refine ⟨row', ?_, hrekeyed.trans hrekeyed', fun column k hk hname => ?_, fun name hname hforeign => ?_,
    fun own hk hcontains hforeign => ?_⟩
  · simp only [exposeKeys, hrow₁, h.foreignKeys hm, bind, Except.bind]
    exact hrow'
  · rw [← hsame column hname]
    exact hreplaced column k hk
  · rw [hkept name hforeign, hsame name hname]
  · rw [hkept "id" hforeign, hown own hk hcontains]

theorem keysExposed_of_exposeKeys (h : p.Suits s) (hs : s.Stored) (hfound : Finds s found) {m : Model}
    (hm : Model.find? s.models entity = some m) (hrow : s.Fills entity row)
    (hrow' : p.exposeKeys found (.text entity) row = .ok row') : p.KeysExposed s found entity m row row' := by
  obtain ⟨row₁, hrow₁, hkeys⟩ := exists_exposeKeys h hs hfound hm hrow
  cases hrow₁.symm.trans hrow'
  exact hkeys

/-! ## The objects in a row -/

/-- Replaces the keys of an object of an entity, and of the objects below it. -/
def exposeObject (p : Projector) (found : Table Value Row) (entity : Value) (bs : List Branch) (row : Row) :
    Except Fault Row := do
  p.exposeNested found (← p.exposeKeys found entity row) bs

/-- Replaces the keys of the objects under a label. -/
def exposeValue (p : Projector) (found : Table Value Row) (b : Branch) (v : Value) : Except Fault Value :=
  match v with
  | .list items => .list <$> (nestedObjects (.list items)).mapM fun o =>
      .object <$> p.exposeObject found b.target b.nested o
  | .object o => .object <$> p.exposeObject found b.target b.nested o
  | v => .ok v

/-- Replacing the keys below a branch changes what is under its label, if anything is there. -/
theorem exposeBranch_cases (h : p.exposeBranch found row b = .ok row') :
    (∀ name, name ≠ b.label → Table.get? (.text name) row' = Table.get? (.text name) row) ∧
      row'.contains b.label = row.contains b.label ∧
        p.exposeValue found b (row.get b.label) = .ok (row'.get b.label) := by
  obtain ⟨label, target, many, through, nested⟩ := b
  have hobject (o : Row) : (do return .object (← p.exposeNested found (← p.exposeKeys found target o) nested) :
      Except Fault Value) = .object <$> p.exposeObject found target nested o := by
    simp only [exposeObject, map_eq_pure_bind, bind_assoc]
  have hput (v : Value) (hv : row.get label ≠ .null) :
      (∀ name, name ≠ label → Table.get? (.text name) (row.insert label v) = Table.get? (.text name) row) ∧
        (row.insert label v).contains label = row.contains label :=
    ⟨fun name hne => Row.get?_insert_of_ne hne v, by rw [Row.contains_insert_self, Row.contains_of_get hv]⟩
  rw [exposeBranch] at h
  simp only [hobject] at h
  split at h
  · rename_i items heq
    obtain ⟨os, hos, h⟩ := bind_eq_ok_iff.mp h
    cases pure_eq_ok_iff.mp h
    obtain ⟨hsame, hcontains⟩ := hput (.list os) (by simp [heq])
    refine ⟨hsame, hcontains, ?_⟩
    rw [heq, Row.get_insert, if_pos rfl, exposeValue]
    simp only [hos]
    rfl
  · rename_i o heq
    obtain ⟨o', ho', h⟩ := bind_eq_ok_iff.mp h
    cases pure_eq_ok_iff.mp h
    obtain ⟨hsame, hcontains⟩ := hput o' (by simp [heq])
    refine ⟨hsame, hcontains, ?_⟩
    rw [heq, Row.get_insert, if_pos rfl, exposeValue]
    exact ho'
  · rename_i hlist hobject
    cases pure_eq_ok_iff.mp h
    exact ⟨fun _ _ => rfl, rfl, exposeValue.eq_3 p found _ _ hlist hobject⟩

theorem exposeNested_cases (hlabels : (bs.map Branch.label).Nodup) (h : p.exposeNested found row bs = .ok row') :
    (∀ name, name ∉ bs.map Branch.label → Table.get? (.text name) row' = Table.get? (.text name) row) ∧
      ∀ b ∈ bs, row'.contains b.label = row.contains b.label ∧
        p.exposeValue found b (row.get b.label) = .ok (row'.get b.label) := by
  induction bs generalizing row with
  | nil =>
    rw [exposeNested] at h
    cases h
    exact ⟨fun _ _ => rfl, fun _ hb => absurd hb List.not_mem_nil⟩
  | cons b bs ih =>
    obtain ⟨hnew, hlabels⟩ := List.nodup_cons.mp hlabels
    rw [exposeNested] at h
    obtain ⟨row₁, hrow₁, h⟩ := bind_eq_ok_iff.mp h
    obtain ⟨hsame, hcontains, hvalue⟩ := exposeBranch_cases hrow₁
    obtain ⟨hsame', hvalues⟩ := ih hlabels h
    refine ⟨fun name hname => ?_, List.forall_mem_cons.mpr ⟨?_, fun c hc => ?_⟩⟩
    · rw [List.map_cons, List.mem_cons, not_or] at hname
      rw [hsame' name hname.2, hsame name hname.1]
    · have hself := hsame' b.label hnew
      rw [Row.contains_of_get? hself, Row.get_of_get? hself]
      exact ⟨hcontains, hvalue⟩
    · have hother := hsame c.label fun heq => hnew (heq ▸ List.mem_map_of_mem hc)
      rw [← Row.contains_of_get? hother, ← Row.get_of_get? hother]
      exact hvalues c hc

mutual
theorem exists_exposeBranch (h : p.Suits s) (hs : s.Stored) (hfound : Finds s found) : (b : Branch) → {row : Row} →
    b.Fits s row → ∃ row', p.exposeBranch found row b = .ok row'
  | ⟨label, target, many, through, nested⟩, row, hb => by
    rw [Branch.Fits] at hb
    obtain ⟨name, m, rfl, hm, hobjects⟩ := hb
    have hobject : ∀ o ∈ nestedObjects (row.get label), ∃ o', (do
        return .object (← p.exposeNested found (← p.exposeKeys found (.text name) o) nested) : Except Fault Value) =
          .ok o' ∧ True := by
      intro o ho
      obtain ⟨hfills, hfit⟩ := hobjects o ho
      obtain ⟨o₁, ho₁, hkeys⟩ := exists_exposeKeys h hs hfound hm hfills
      obtain ⟨o', ho'⟩ := exists_exposeNested h hs hfound nested (hkeys.rekeyed.allFit hfit)
      exact ⟨.object o', by simp only [ho₁, ho', bind, Except.bind, pure, Except.pure], trivial⟩
    rw [exposeBranch]
    simp only
    split
    · rename_i items heq
      rw [heq] at hobject
      obtain ⟨os, hos, -⟩ := exists_mapM_eq_ok hobject
      rw [hos]
      exact ⟨_, rfl⟩
    · rename_i entries heq
      rw [heq] at hobject
      obtain ⟨o', ho', -⟩ := hobject entries (List.mem_singleton_self _)
      rw [ho']
      exact ⟨_, rfl⟩
    · exact ⟨row, rfl⟩

theorem exists_exposeNested (h : p.Suits s) (hs : s.Stored) (hfound : Finds s found) : (bs : List Branch) →
    {entity : String} → {row : Row} → Branch.AllFit s entity row bs → ∃ row', p.exposeNested found row bs = .ok row'
  | [], _, row, _ => ⟨row, by rw [exposeNested]⟩
  | b :: bs, entity, row, hbs => by
    rw [Branch.AllFit] at hbs
    obtain ⟨-, hlabel, hb, hbs⟩ := hbs
    obtain ⟨row₁, hrow₁⟩ := exists_exposeBranch h hs hfound b hb
    have hbs₁ : Branch.AllFit s entity row₁ bs := by
      refine hbs.mono fun c hc o ho => ?_
      have hne : c.label ≠ b.label := fun heq => hlabel (heq ▸ List.mem_map_of_mem hc)
      rwa [Row.get_of_get? ((exposeBranch_cases hrow₁).1 c.label hne)] at ho
    obtain ⟨row', hrow'⟩ := exists_exposeNested h hs hfound bs hbs₁
    exact ⟨row', by simp only [exposeNested, hrow₁, bind, Except.bind, hrow']⟩
end

/-! ## Rows -/

theorem exists_exposeObject (h : p.Suits s) (hs : s.Stored) (hfound : Finds s found) {m : Model}
    (hm : Model.find? s.models entity = some m) (hrow : s.Fills entity row) (hfit : Branch.AllFit s entity row bs) :
    ∃ row', p.exposeObject found (.text entity) bs row = .ok row' := by
  obtain ⟨row₁, hrow₁, hkeys⟩ := exists_exposeKeys h hs hfound hm hrow
  obtain ⟨row', hrow'⟩ := exists_exposeNested h hs hfound bs (hkeys.rekeyed.allFit hfit)
  exact ⟨row', by rw [exposeObject, hrow₁]; exact hrow'⟩

/-- First the keys of an object are replaced, then those of the objects under its labels. -/
theorem exposeObject_cases (h : p.Suits s) (hs : s.Stored) (hfound : Finds s found) {m : Model}
    (hm : Model.find? s.models entity = some m) (hrow : s.Fills entity row) (hlabels : (bs.map Branch.label).Nodup)
    (hrow' : p.exposeObject found (.text entity) bs row = .ok row') :
    ∃ row₁, p.KeysExposed s found entity m row row₁ ∧
      (∀ name, name ∉ bs.map Branch.label → row'.get name = row₁.get name) ∧
        ∀ b ∈ bs, p.exposeValue found b (row₁.get b.label) = .ok (row'.get b.label) := by
  obtain ⟨row₁, hrow₁, hnested⟩ := bind_eq_ok_iff.mp hrow'
  obtain ⟨hsame, hvalues⟩ := exposeNested_cases hlabels hnested
  refine ⟨row₁, keysExposed_of_exposeKeys h hs hfound hm hrow hrow₁, fun name hname => ?_, fun b hb => (hvalues b hb).2⟩
  exact Row.get_of_get? (hsame name hname)

/-- Rows of a store can be projected: each is exposed on its own, with identifiers that the store knows. -/
theorem exists_project (h : p.Suits s) (hs : s.Stored) {store : LookupStore} (hstore : p.Answered s store)
    {m : Model} (hm : Model.find? s.models p.entity = some m) {rows : List Row}
    (hrows : ∀ row ∈ rows, s.Fills p.entity row ∧ Branch.AllFit s p.entity row p.includes.branches) :
    ∃ found shown, p.project store (rows.map .object) = .ok shown ∧ Finds s found ∧
      List.Forall₂ (fun row row' => p.exposeObject found (.text p.entity) p.includes.branches row = .ok row' ∧
        Collects (p.rowRequests (.object row)) (p.IsFound s found)) rows shown := by
  obtain ⟨calls, found, hcalls, hfound, hfinds, hknows⟩ := exists_found h hs hstore hm hrows
  have hexposed : ∀ row ∈ rows, ∃ row', p.expose found (.object row) = .ok row' ∧
      p.exposeObject found (.text p.entity) p.includes.branches row = .ok row' ∧
        Collects (p.rowRequests (.object row)) (p.IsFound s found) := by
    intro row hrow
    obtain ⟨row', hrow'⟩ := exists_exposeObject h hs hfinds hm (hrows row hrow).1 (hrows row hrow).2
    exact ⟨row', hrow', hrow', hknows row hrow⟩
  obtain ⟨shown, hshown, hall⟩ := exists_mapM_forall₂ hexposed
  refine ⟨found, shown, ?_, hfinds, hall⟩
  simp only [project, hcalls, hfound, bind, Except.bind]
  rw [List.mapM_map]
  exact hshown

end Projector

end Sift
