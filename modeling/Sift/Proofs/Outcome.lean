import Mathlib.Data.List.Forall2

/-!
# Results

Taking a computation apart that has a result: every step of it has one. A walk over a list stops at the first refusal.
-/

namespace Sift

variable {ε α β : Type}

theorem bind_eq_ok_iff {x : Except ε α} {f : α → Except ε β} {b : β} :
    (x >>= f) = .ok b ↔ ∃ a, x = .ok a ∧ f a = .ok b := by
  cases x with
  | error e => simp [bind, Except.bind]
  | ok a => simp [bind, Except.bind]

theorem bind_congr_of_ok {x : Except ε α} {f g : α → Except ε β} (h : ∀ a, x = .ok a → f a = g a) :
    (x >>= f) = (x >>= g) := by
  cases x with
  | error e => rfl
  | ok a => exact h a rfl

theorem map_eq_ok_iff {x : Except ε α} {f : α → β} {b : β} :
    f <$> x = .ok b ↔ ∃ a, x = .ok a ∧ f a = b := by
  cases x with
  | error e => simp [Functor.map, Except.map]
  | ok a => simp [Functor.map, Except.map]

theorem pure_eq_ok_iff {a b : α} : (pure a : Except ε α) = .ok b ↔ a = b := by
  simp [pure, Except.pure]

theorem mapError_eq_ok_iff {ε' : Type} {f : ε → ε'} {x : Except ε α} {a : α} : x.mapError f = .ok a ↔ x = .ok a := by
  cases x with
  | error e => simp [Except.mapError]
  | ok b => simp [Except.mapError]

theorem eq_ok_of_isOk {x : Except ε α} (h : x.isOk = true) : ∃ a, x = .ok a := by
  cases x with
  | error e => cases h
  | ok a => exact ⟨a, rfl⟩

/-! ## Lists -/

theorem mem_of_mapM_eq_ok {f : α → Except ε β} {as : List α} {bs : List β} (h : as.mapM f = .ok bs) :
    ∀ b ∈ bs, ∃ a ∈ as, f a = .ok b := by
  induction as generalizing bs with
  | nil =>
    cases pure_eq_ok_iff.mp h
    intro b hb
    cases hb
  | cons a as ih =>
    simp only [List.mapM_cons, bind_eq_ok_iff, pure_eq_ok_iff] at h
    obtain ⟨b, hb, bs, hbs, rfl⟩ := h
    intro c hc
    rcases List.mem_cons.mp hc with rfl | hc
    · exact ⟨a, List.mem_cons_self, hb⟩
    · obtain ⟨a', ha', hf⟩ := ih hbs c hc
      exact ⟨a', List.mem_cons_of_mem _ ha', hf⟩

theorem exists_mem_of_mapM_eq_ok {f : α → Except ε β} {as : List α} {bs : List β} (h : as.mapM f = .ok bs) :
    ∀ a ∈ as, ∃ b ∈ bs, f a = .ok b := by
  induction as generalizing bs with
  | nil => exact fun _ ha => absurd ha List.not_mem_nil
  | cons a as ih =>
    simp only [List.mapM_cons, bind_eq_ok_iff, pure_eq_ok_iff] at h
    obtain ⟨b, hb, bs, hbs, rfl⟩ := h
    intro c hc
    rcases List.mem_cons.mp hc with rfl | hc
    · exact ⟨b, List.mem_cons_self, hb⟩
    · obtain ⟨b', hb', hf⟩ := ih hbs c hc
      exact ⟨b', List.mem_cons_of_mem _ hb', hf⟩

theorem exists_of_mapM_eq_error {f : α → Except ε β} {as : List α} {e : ε} (h : as.mapM f = .error e) :
    ∃ a ∈ as, f a = .error e := by
  induction as with
  | nil => cases h
  | cons a as ih =>
    rw [List.mapM_cons] at h
    cases ha : f a with
    | error e' =>
      rw [ha] at h
      cases h
      exact ⟨a, List.mem_cons_self, ha⟩
    | ok b =>
      rw [ha] at h
      cases has : as.mapM f with
      | error e' =>
        rw [has] at h
        cases h
        obtain ⟨a', ha', hf⟩ := ih has
        exact ⟨a', List.mem_cons_of_mem a ha', hf⟩
      | ok bs =>
        rw [has] at h
        cases h

theorem mapM_eq_ok {f : α → Except ε β} {g : α → β} {as : List α} (h : ∀ a ∈ as, f a = .ok (g a)) :
    as.mapM f = .ok (as.map g) := by
  induction as with
  | nil => rfl
  | cons a as ih =>
    obtain ⟨ha, has⟩ := List.forall_mem_cons.mp h
    simp only [List.mapM_cons, ha, ih has, List.map_cons, bind, Except.bind, pure, Except.pure]

theorem exists_mapM_eq_ok {f : α → Except ε β} {P : β → Prop} {as : List α} (h : ∀ a ∈ as, ∃ b, f a = .ok b ∧ P b) :
    ∃ bs, as.mapM f = .ok bs ∧ ∀ b ∈ bs, P b := by
  induction as with
  | nil => exact ⟨[], rfl, fun _ hb => absurd hb List.not_mem_nil⟩
  | cons a as ih =>
    obtain ⟨⟨b, hb, hP⟩, has⟩ := List.forall_mem_cons.mp h
    obtain ⟨bs, hbs, hPs⟩ := ih has
    exact ⟨b :: bs, by simp only [List.mapM_cons, hb, hbs, bind, Except.bind, pure, Except.pure],
      List.forall_mem_cons.mpr ⟨hP, hPs⟩⟩

theorem foldlM_eq_ok {f : β → α → Except ε β} {g : β → α → β} {as : List α} (h : ∀ a ∈ as, ∀ b, f b a = .ok (g b a))
    (b : β) : as.foldlM f b = .ok (as.foldl g b) := by
  induction as generalizing b with
  | nil => rfl
  | cons a as ih =>
    obtain ⟨ha, has⟩ := List.forall_mem_cons.mp h
    simp only [List.foldlM_cons, ha, ih has, List.foldl_cons, bind, Except.bind]

theorem map_eq_of_mapM_eq_ok {γ : Type} {f : α → Except ε β} {g : β → γ} {h : α → γ} {as : List α} {bs : List β}
    (hf : ∀ a b, f a = .ok b → g b = h a) (hbs : as.mapM f = .ok bs) : bs.map g = as.map h := by
  induction as generalizing bs with
  | nil =>
    cases pure_eq_ok_iff.mp hbs
    rfl
  | cons a as ih =>
    simp only [List.mapM_cons, bind_eq_ok_iff, pure_eq_ok_iff] at hbs
    obtain ⟨b, hb, bs, hbs, rfl⟩ := hbs
    rw [List.map_cons, List.map_cons, hf a b hb, ih hbs]

theorem exists_mapM_forall₂ {f : α → Except ε β} {R : α → β → Prop} {as : List α}
    (h : ∀ a ∈ as, ∃ b, f a = .ok b ∧ R a b) : ∃ bs, as.mapM f = .ok bs ∧ List.Forall₂ R as bs := by
  induction as with
  | nil => exact ⟨[], rfl, .nil⟩
  | cons a as ih =>
    obtain ⟨⟨b, hb, hR⟩, has⟩ := List.forall_mem_cons.mp h
    obtain ⟨bs, hbs, hRs⟩ := ih has
    exact ⟨b :: bs, by simp only [List.mapM_cons, hb, hbs, bind, Except.bind, pure, Except.pure], .cons hR hRs⟩

theorem forall₂_of_mapM_eq_ok {f : α → Except ε β} {as : List α} {bs : List β} (h : as.mapM f = .ok bs) :
    List.Forall₂ (fun a b => f a = .ok b) as bs := by
  induction as generalizing bs with
  | nil =>
    cases pure_eq_ok_iff.mp h
    exact .nil
  | cons a as ih =>
    simp only [List.mapM_cons, bind_eq_ok_iff, pure_eq_ok_iff] at h
    obtain ⟨b, hb, bs, hbs, rfl⟩ := h
    exact .cons hb (ih hbs)

theorem exists_of_forall₂ {R : α → β → Prop} {as : List α} {bs : List β} {i : Nat} {a : α} (h : List.Forall₂ R as bs)
    (ha : as[i]? = some a) : ∃ b, bs[i]? = some b ∧ R a b := by
  induction h generalizing i with
  | nil => cases ha
  | cons hR _ ih =>
    cases i with
    | zero =>
      cases ha
      exact ⟨_, rfl, hR⟩
    | succ i => exact ih ha

theorem forall₂_of_common {γ : Type} {R : α → β → Prop} {S : α → γ → Prop} {T : β → γ → Prop} {as : List α}
    {bs : List β} {cs : List γ} (hR : List.Forall₂ R as bs) (hS : List.Forall₂ S as cs)
    (h : ∀ a b c, R a b → S a c → T b c) : List.Forall₂ T bs cs := by
  induction hR generalizing cs with
  | nil =>
    cases hS
    exact .nil
  | cons hab _ ih =>
    cases hS with
    | cons hac hS => exact .cons (h _ _ _ hab hac) (ih hS)

theorem eq_nil_iff_of_mapM_eq_ok {f : α → Except ε β} {as : List α} {bs : List β} (h : as.mapM f = .ok bs) :
    bs = [] ↔ as = [] := by
  rw [← List.length_eq_zero_iff, ← (forall₂_of_mapM_eq_ok h).length_eq, List.length_eq_zero_iff]

theorem mapM_eq_ok_of_forall₂ {f : α → Except ε β} {as : List α} {bs : List β}
    (h : List.Forall₂ (fun a b => f a = .ok b) as bs) : as.mapM f = .ok bs := by
  induction h with
  | nil => rfl
  | cons hb _ ih => simp only [List.mapM_cons, hb, ih, bind, Except.bind, pure, Except.pure]

/-- Two walks, the second over the results of the first, are one step after the other for each item. -/
theorem mapM_mapM_eq_ok_iff {γ : Type} {f : α → Except ε β} {g : β → Except ε γ} {as : List α} {cs : List γ} :
    (∃ bs, as.mapM f = .ok bs ∧ bs.mapM g = .ok cs) ↔
      List.Forall₂ (fun a c => ∃ b, f a = .ok b ∧ g b = .ok c) as cs := by
  constructor
  · rintro ⟨bs, hbs, hcs⟩
    have hfirst := forall₂_of_mapM_eq_ok hbs
    have hsecond := forall₂_of_mapM_eq_ok hcs
    clear hbs hcs
    induction hfirst generalizing cs with
    | nil =>
      cases hsecond
      exact .nil
    | cons ha _ ih =>
      cases hsecond with
      | cons hb hrest => exact .cons ⟨_, ha, hb⟩ (ih hrest)
  · intro h
    induction h with
    | nil => exact ⟨[], rfl, rfl⟩
    | cons hc _ ih =>
      obtain ⟨b, hb, hc⟩ := hc
      obtain ⟨bs, hbs, hcs⟩ := ih
      exact ⟨b :: bs, by simp only [List.mapM_cons, hb, hbs, bind, Except.bind, pure, Except.pure],
        by simp only [List.mapM_cons, hc, hcs, bind, Except.bind, pure, Except.pure]⟩

/-- What each step makes of its result can be made of all results in the end. -/
theorem mapM_return {γ : Type} (f : α → Except ε β) (g : α → β → γ) (as : List α) :
    (as.mapM fun a => do return g a (← f a)) = do return List.zipWith g as (← as.mapM f) := by
  induction as with
  | nil => rfl
  | cons a as ih =>
    rw [List.mapM_cons, List.mapM_cons, ih]
    cases f a with
    | error e => rfl
    | ok b => cases as.mapM f <;> rfl

theorem exists_map_of_mapM_eq_ok {γ : Type} {f : α → Except ε β} {g : β → γ} {as : List α} {cs : List γ}
    (h : (as.mapM fun a => g <$> f a) = .ok cs) : ∃ bs, as.mapM f = .ok bs ∧ cs = bs.map g := by
  induction as generalizing cs with
  | nil => exact ⟨[], rfl, (pure_eq_ok_iff.mp h).symm⟩
  | cons a as ih =>
    simp only [List.mapM_cons, bind_eq_ok_iff, pure_eq_ok_iff, map_eq_ok_iff] at h ⊢
    obtain ⟨_, ⟨b, hb, rfl⟩, cs, hcs, rfl⟩ := h
    obtain ⟨bs, hbs, rfl⟩ := ih hcs
    exact ⟨b :: bs, ⟨b, hb, bs, hbs, rfl⟩, rfl⟩

variable {d : α → Except ε Unit} {as : List α}

theorem forM_eq_ok_iff : forM as d = .ok () ↔ ∀ a ∈ as, d a = .ok () := by
  induction as with
  | nil => simp [pure, Except.pure]
  | cons a as ih =>
    simp only [List.forM_cons, bind_eq_ok_iff, ih, List.forall_mem_cons]
    constructor
    · rintro ⟨_, h, hs⟩
      exact ⟨h, hs⟩
    · rintro ⟨h, hs⟩
      exact ⟨(), h, hs⟩

theorem forM_eq_error {a : α} {e : ε} {before after : List α} (hb : ∀ b ∈ before, d b = .ok ()) (ha : d a = .error e) :
    forM (before ++ a :: after) d = .error e := by
  rw [List.forM_append, forM_eq_ok_iff.mpr hb, List.forM_cons, ha]
  rfl

end Sift
