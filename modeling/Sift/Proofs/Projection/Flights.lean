import Sift.Projection.Flight
import Sift.Proofs.Projection.Lookups
import Sift.Proofs.Sample

/-!
# The outcome of calls at once

While calls are made at once, what was collected is what making the first of them one after another gives. So whatever
comes out does not depend on the schedule, and something does come out for every order in which the calls are answered.
-/

namespace Sift

namespace Projector

theorem lookAll_take_succ (store : LookupStore) {ls : List Lookup} {n : Nat} {l : Lookup} (h : ls[n]? = some l) :
    lookAll store (ls.take (n + 1)) = (do return (← lookAll store (ls.take n)) ++ [(l.entity, ← look store l)]) := by
  simp only [lookAll, List.take_add_one, h, Option.toList_some, List.mapM_append, List.mapM_cons, List.mapM_nil,
    bind_assoc, pure_bind]

theorem length_of_lookAll {store : LookupStore} {ls : List Lookup} {found : Table Value Row}
    (h : lookAll store ls = .ok found) : found.length = ls.length :=
  (forall₂_of_mapM_eq_ok h).length_eq.symm

theorem lookAll_append_error (store : LookupStore) {ls : List Lookup} {fault : Fault}
    (h : lookAll store ls = .error fault) (ms : List Lookup) : lookAll store (ls ++ ms) = .error fault := by
  rw [lookAll] at h ⊢
  rw [List.mapM_append, h]
  rfl

end Projector

open Projector (look lookAll lookAll_take_succ length_of_lookAll lookAll_append_error)

namespace Flight

variable {store : LookupStore} {ls : List Lookup} {f g : Flight} {event : Event} {schedule : List Event}

theorem step_cases (h : f.step store event = some g) :
    (∃ l rest, event = .submit ∧ f.waiting = l :: rest ∧
      g = { f with waiting := rest, sent := f.sent ++ [(l, none)] }) ∨
    (∃ i l, event = .finish i ∧ f.sent[i]? = some (l, none) ∧
      g = { f with sent := f.sent.set i (l, some (look store l)) }) ∨
    (∃ found l answer, event = .collect ∧ f.waiting = [] ∧ f.collected = .ok found ∧
      f.sent[found.length]? = some (l, some answer) ∧
        g = { f with collected := do return found ++ [(l.entity, ← answer)] }) := by
  cases event with
  | submit =>
    simp only [step] at h
    split at h
    · rename_i l rest hwaiting
      exact .inl ⟨l, rest, rfl, hwaiting, (Option.some.inj h).symm⟩
    · cases h
  | finish i =>
    simp only [step] at h
    split at h
    · rename_i l hsent
      exact .inr (.inl ⟨i, l, rfl, hsent, (Option.some.inj h).symm⟩)
    · cases h
  | collect =>
    simp only [step] at h
    split at h
    · rename_i found hwaiting hcollected
      split at h
      · rename_i l answer hsent
        exact .inr (.inr ⟨found, l, answer, rfl, hwaiting, hcollected, hsent, (Option.some.inj h).symm⟩)
      · cases h
    · cases h

theorem run_cons (store : LookupStore) (event : Event) (schedule : List Event) (f : Flight) :
    f.run store (event :: schedule) = (f.step store event).bind (run store schedule) :=
  rfl

theorem run_append (store : LookupStore) (before after : List Event) (f : Flight) :
    f.run store (before ++ after) = (f.run store before).bind (run store after) :=
  List.foldlM_append

/-! ## What is kept -/

/-- No call is lost, every answer is that of the store, and what was collected is what making the first calls one after
another gives. -/
structure Follows (store : LookupStore) (ls : List Lookup) (f : Flight) : Prop where
  calls : f.sent.map Prod.fst ++ f.waiting = ls
  answers : ∀ l answer, (l, some answer) ∈ f.sent → answer = look store l
  collected : ∃ n, n ≤ f.sent.length ∧ f.collected = lookAll store (ls.take n)

theorem follows_start (store : LookupStore) (ls : List Lookup) : Follows store ls (start ls) where
  calls := rfl
  answers _ _ h := absurd h List.not_mem_nil
  collected := ⟨0, Nat.le_refl 0, rfl⟩

namespace Follows

theorem getElem? (h : Follows store ls f) {i : Nat} {s : Lookup × Option (Except Fault Row)}
    (hs : f.sent[i]? = some s) : ls[i]? = some s.1 := by
  have hi : i < (f.sent.map Prod.fst).length := by
    rw [List.length_map]
    exact (List.getElem?_eq_some_iff.mp hs).1
  rw [← h.calls, List.getElem?_append_left hi, List.getElem?_map, hs]
  rfl

theorem length_le (h : Follows store ls f) : f.sent.length ≤ ls.length := by
  rw [← h.calls, List.length_append, List.length_map]
  exact Nat.le_add_right _ _

theorem take_length (h : Follows store ls f) {found : Table Value Row} (hfound : f.collected = .ok found) :
    found.length ≤ f.sent.length ∧ lookAll store (ls.take found.length) = .ok found := by
  obtain ⟨n, hn, hcollected⟩ := h.collected
  rw [hfound] at hcollected
  have hlength : found.length = n := by
    rw [length_of_lookAll hcollected.symm, List.length_take, Nat.min_eq_left (hn.trans h.length_le)]
  rw [hlength]
  exact ⟨hn, hcollected.symm⟩

theorem step (h : Follows store ls f) (hstep : f.step store event = some g) : Follows store ls g := by
  obtain ⟨n, hn, hcollected⟩ := h.collected
  obtain ⟨l, rest, -, hwaiting, rfl⟩ | ⟨i, l, -, hsent, rfl⟩ | ⟨found, l, answer, -, -, hfound, hsent, rfl⟩ :=
    step_cases hstep
  · refine ⟨?_, fun l' answer hmem => ?_, n, ?_, hcollected⟩
    · rw [← h.calls, hwaiting, List.map_append, List.append_assoc]
      rfl
    · rcases List.mem_append.mp hmem with hmem | hmem
      · exact h.answers l' answer hmem
      · cases List.mem_singleton.mp hmem
    · rw [List.length_append]
      exact hn.trans (Nat.le_add_right _ _)
  · refine ⟨?_, fun l' answer hmem => ?_, n, ?_, hcollected⟩
    · obtain ⟨hi, hget⟩ := List.getElem?_eq_some_iff.mp hsent
      have hsame : (f.sent.map Prod.fst).set i l = f.sent.map Prod.fst := by
        refine List.ext_getElem? fun j => ?_
        by_cases hij : i = j
        · subst hij
          rw [List.getElem?_set_self (by rwa [List.length_map]), List.getElem?_map, hsent]
          rfl
        · rw [List.getElem?_set_ne hij]
      rw [List.map_set, hsame, h.calls]
    · rcases List.mem_or_eq_of_mem_set hmem with hmem | heq
      · exact h.answers l' answer hmem
      · cases heq
        rfl
    · rwa [List.length_set]
  · refine ⟨h.calls, h.answers, found.length + 1, (List.getElem?_eq_some_iff.mp hsent).1, ?_⟩
    rw [lookAll_take_succ store (h.getElem? hsent), (h.take_length hfound).2,
      h.answers l answer (List.mem_of_getElem? hsent)]
    rfl

theorem run (h : Follows store ls f) (hrun : f.run store schedule = some g) : Follows store ls g := by
  induction schedule generalizing f with
  | nil =>
    cases hrun
    exact h
  | cons event schedule ih =>
    rw [run_cons] at hrun
    obtain ⟨f', hstep, hrun⟩ := Option.bind_eq_some_iff.mp hrun
    exact ih (h.step hstep) hrun

/-- What comes out is what making all calls one after another gives. -/
theorem outcome (h : Follows store ls f) {result : Except Fault (Table Value Row)}
    (hout : f.outcome? = some result) : result = lookAll store ls := by
  unfold outcome? at hout
  split at hout
  · rename_i fault hfault
    obtain ⟨n, -, hcollected⟩ := h.collected
    cases hout
    rw [hfault] at hcollected
    rw [← List.take_append_drop n ls, lookAll_append_error store hcollected.symm]
  · rename_i found hfound
    split at hout
    · rename_i hdone
      obtain ⟨hwaiting, hlength⟩ := Bool.and_eq_true_iff.mp hdone
      have hcalls := h.calls
      rw [List.isEmpty_iff.mp hwaiting, List.append_nil] at hcalls
      have htake := (h.take_length hfound).2
      rw [beq_iff_eq.mp hlength, ← List.length_map Prod.fst, hcalls, List.take_length] at htake
      cases hout
      exact htake.symm
    · cases hout

end Follows

/-! ## Coming to an end -/

/-- How many steps are left at most. -/
def left (f : Flight) : Nat :=
  3 * f.waiting.length + f.sent.countP (fun s => s.2.isNone) +
    (match f.collected with | .ok found => f.sent.length - found.length | .error _ => 0)

theorem left_step (h : f.step store event = some g) : g.left < f.left := by
  obtain ⟨l, rest, -, hwaiting, rfl⟩ | ⟨i, l, -, hsent, rfl⟩ | ⟨found, l, answer, -, -, hfound, hsent, rfl⟩ :=
    step_cases h
  · simp only [left, hwaiting, List.length_cons, List.length_append, List.countP_append, List.countP_singleton,
      Option.isNone_none, if_true, List.length_nil]
    cases f.collected with
    | ok found => simp only; omega
    | error fault => simp only; omega
  · obtain ⟨hi, hget⟩ := List.getElem?_eq_some_iff.mp hsent
    have hpending : 0 < f.sent.countP fun s => s.2.isNone :=
      List.countP_pos_iff.mpr ⟨(l, none), List.mem_of_getElem? hsent, rfl⟩
    simp only [left, List.countP_set hi, hget, Option.isNone_none, if_true, Option.isNone_some, Bool.false_eq_true,
      if_false, List.length_set]
    omega
  · have hlt := (List.getElem?_eq_some_iff.mp hsent).1
    simp only [left, hfound]
    cases answer with
    | ok row =>
      simp only [bind, Except.bind, pure, Except.pure, List.length_append, List.length_singleton]
      omega
    | error fault =>
      simp only [bind, Except.bind]
      omega

theorem length_le_left (h : f.run store schedule = some g) : schedule.length + g.left ≤ f.left := by
  induction schedule generalizing f with
  | nil =>
    cases h
    exact Nat.le_of_eq (Nat.zero_add _)
  | cons event schedule ih =>
    rw [run_cons] at h
    obtain ⟨f', hstep, hrun⟩ := Option.bind_eq_some_iff.mp h
    have hlt := left_step hstep
    have hle := ih hrun
    rw [List.length_cons]
    omega

/-- As long as nothing comes out, the next answer can be collected, or some call can be handed over or answered. -/
theorem Follows.exists_step (h : Follows store ls f) (hout : f.outcome? = none) :
    ∃ event g, f.step store event = some g ∧
      ((f.waiting = [] ∧ ∀ s ∈ f.sent, s.2.isSome = true) → event = .collect) := by
  unfold outcome? at hout
  split at hout
  · cases hout
  rename_i found hfound
  cases hwaiting : f.waiting with
  | cons l rest =>
    refine ⟨.submit, _, by simp only [Flight.step, hwaiting]; rfl, fun hdone => ?_⟩
    exact absurd hdone.1 (List.cons_ne_nil l rest)
  | nil =>
    have hlt : found.length < f.sent.length := by
      refine Nat.lt_of_le_of_ne (h.take_length hfound).1 fun heq => ?_
      rw [hwaiting, heq, beq_self_eq_true] at hout
      cases hout
    obtain ⟨⟨l, answer⟩, hsent⟩ : ∃ s, f.sent[found.length]? = some s := ⟨_, List.getElem?_eq_getElem hlt⟩
    cases answer with
    | none =>
      refine ⟨.finish found.length, _, by simp only [Flight.step, hsent]; rfl, fun hdone => ?_⟩
      exact absurd (hdone.2 _ (List.mem_of_getElem? hsent)) Bool.false_ne_true
    | some answer => exact ⟨.collect, _, by simp only [Flight.step, hwaiting, hfound, hsent]; rfl, fun _ => rfl⟩

/-! ## Every order of answers -/

theorem run_submit (store : LookupStore) (ls : List Lookup) (sent : List (Lookup × Option (Except Fault Row)))
    (collected : Except Fault (Table Value Row)) :
    run store (List.replicate ls.length .submit) ⟨ls, sent, collected⟩ =
      some ⟨[], sent ++ ls.map fun l => (l, none), collected⟩ := by
  induction ls generalizing sent with
  | nil =>
    rw [List.map_nil, List.append_nil]
    rfl
  | cons l ls ih =>
    rw [List.length_cons, List.replicate_succ, run_cons, step, Option.bind_some, ih, List.append_assoc]
    rfl

/-- Pending calls can be answered in any order, and then they are answered. -/
theorem exists_run_finish (store : LookupStore) {order : List Nat} (hnodup : order.Nodup)
    (hpending : ∀ i ∈ order, ∃ l, f.sent[i]? = some (l, none)) :
    ∃ sent, f.run store (order.map .finish) = some { f with sent } ∧ sent.length = f.sent.length ∧
      ∀ i, (i ∈ order → ∃ l answer, sent[i]? = some (l, some answer)) ∧ (i ∉ order → sent[i]? = f.sent[i]?) := by
  induction order generalizing f with
  | nil => exact ⟨f.sent, rfl, rfl, fun i => ⟨fun hi => absurd hi List.not_mem_nil, fun _ => rfl⟩⟩
  | cons i order ih =>
    obtain ⟨hnew, hnodup⟩ := List.nodup_cons.mp hnodup
    obtain ⟨⟨l, hl⟩, hpending⟩ := List.forall_mem_cons.mp hpending
    have hi := (List.getElem?_eq_some_iff.mp hl).1
    obtain ⟨sent, hrun, hlength, hsent⟩ := ih (f := { f with sent := f.sent.set i (l, some (look store l)) }) hnodup
      fun j hj => by
        have hne : i ≠ j := fun heq => hnew (heq ▸ hj)
        obtain ⟨m, hm⟩ := hpending j hj
        exact ⟨m, by rw [List.getElem?_set_ne hne, hm]⟩
    refine ⟨sent, ?_, by rw [hlength, List.length_set], fun j => ⟨fun hj => ?_, fun hj => ?_⟩⟩
    · rw [List.map_cons, run_cons, step, hl]
      exact hrun
    · rcases List.mem_cons.mp hj with rfl | hj
      · exact ⟨l, _, by rw [(hsent _).2 hnew, List.getElem?_set_self hi]⟩
      · exact (hsent j).1 hj
    · obtain ⟨hne, hj⟩ := not_or.mp (mt List.mem_cons.mpr hj)
      rw [(hsent j).2 hj, List.getElem?_set_ne (Ne.symm hne)]

/-- Once all calls are answered, collecting brings something out. -/
theorem exists_run_collect (h : Follows store ls f) (hwaiting : f.waiting = [])
    (hsent : ∀ s ∈ f.sent, s.2.isSome = true) :
    ∃ n g, f.run store (List.replicate n .collect) = some g ∧ g.outcome?.isSome = true := by
  induction hleft : f.left using Nat.strong_induction_on generalizing f with
  | _ left ih =>
    cases hout : f.outcome? with
    | some result => exact ⟨0, f, rfl, by rw [hout]; rfl⟩
    | none =>
      obtain ⟨event, f', hstep, hevent⟩ := h.exists_step hout
      obtain rfl := hevent ⟨hwaiting, hsent⟩
      obtain ⟨_, _, hevent, -⟩ | ⟨_, _, hevent, -⟩ | ⟨found, l, answer, -, -, -, -, rfl⟩ := step_cases hstep
      · cases hevent
      · cases hevent
      · obtain ⟨n, g, hrun, hg⟩ := ih _ (hleft ▸ left_step hstep) (h.step hstep) hwaiting hsent rfl
        exact ⟨n + 1, g, by rw [List.replicate_succ, run_cons, hstep, Option.bind_some, hrun], hg⟩

/-- Whatever the order in which the calls are answered, some schedule with that order brings something out. -/
theorem exists_schedule (store : LookupStore) {order : List Nat} (horder : order.Perm (List.range ls.length)) :
    ∃ schedule f, schedule.filterMap Event.finished? = order ∧ (start ls).run store schedule = some f ∧
      f.outcome?.isSome = true := by
  have hmem : ∀ i, i ∈ order ↔ i < ls.length := fun i => horder.mem_iff.trans List.mem_range
  have hsubmit := run_submit store ls [] (.ok [])
  obtain ⟨sent, hfinish, hlength, hsent⟩ := exists_run_finish store
    (f := ⟨[], [] ++ ls.map fun l => (l, none), .ok []⟩) (horder.nodup_iff.mpr List.nodup_range) fun i hi =>
      ⟨ls.get ⟨i, (hmem i).mp hi⟩, by simp [(hmem i).mp hi]⟩
  have hboth : (start ls).run store (List.replicate ls.length .submit ++ order.map .finish) =
      some ⟨[], sent, .ok []⟩ := by
    rw [run_append, start, hsubmit, Option.bind_some, hfinish]
  have hanswered : ∀ s ∈ sent, s.2.isSome = true := by
    intro s hs
    obtain ⟨i, hi⟩ := List.mem_iff_getElem?.mp hs
    have hlt := (List.getElem?_eq_some_iff.mp hi).1
    rw [hlength, List.nil_append, List.length_map] at hlt
    obtain ⟨l, answer, hget⟩ := (hsent i).1 ((hmem i).mpr hlt)
    cases hi.symm.trans hget
    rfl
  obtain ⟨n, f, hcollect, hout⟩ := exists_run_collect ((follows_start store ls).run hboth) rfl hanswered
  refine ⟨List.replicate ls.length .submit ++ order.map .finish ++ List.replicate n .collect, f, ?_, ?_, hout⟩
  · simp only [List.filterMap_append, List.filterMap_replicate, List.filterMap_map, Event.finished?, Function.comp_def,
      List.filterMap_some, List.nil_append, List.append_nil]
  · rw [run_append, hboth, Option.bind_some, hcollect]

end Flight

namespace Projector

variable {p : Projector} {store : LookupStore}

/-! ## The calls -/

theorem keys_foldl_addRequest (qs : List Request) (wanted : Table Value (List Value)) :
    (qs.foldl addRequest wanted).keys =
      wanted.keys ++ ((qs.map Prod.fst).filter fun e => !wanted.keys.any (e == ·)).eraseDups := by
  induction qs generalizing wanted with
  | nil => simp
  | cons q qs ih =>
    rw [List.foldl_cons, ih, addRequest, Table.keys_insert, List.map_cons, List.filter_cons]
    cases hknown : wanted.keys.any (q.1 == ·) with
    | true => simp
    | false =>
      simp only [Bool.false_eq_true, if_false, Bool.not_false, if_true, List.eraseDups_cons, List.append_assoc,
        List.singleton_append, List.filter_filter, List.any_append, List.any_cons, List.any_nil, Bool.or_false,
        Bool.not_or, Bool.and_comm]

/-- There is one call for each mapped entity, in the order in which the entities are met. -/
theorem entities_lookups {rows : List Value} {ls : List Lookup} (h : p.lookups rows = .ok ls) :
    ∃ requests, rows.mapM p.rowRequests = .ok requests ∧
      ls.map Lookup.entity =
        (requests.flatten.map Prod.fst).eraseDups.filter fun e => (p.mappings.get? e).isSome := by
  simp only [lookups, bind_eq_ok_iff, pure_eq_ok_iff] at h
  obtain ⟨requests, hrequests, rfl⟩ := h
  refine ⟨requests, hrequests, ?_⟩
  have hkeys := keys_foldl_addRequest requests.flatten []
  simp only [Table.keys, List.map_nil, List.nil_append, List.any_nil, Bool.not_false, List.filter_true] at hkeys
  rw [← hkeys]
  generalize requests.flatten.foldl addRequest [] = wanted
  induction wanted with
  | nil => rfl
  | cons e wanted ih =>
    rw [List.map_cons, List.filter_cons, ← ih, List.filterMap_cons]
    cases p.mappings.get? e.1 with
    | none => rfl
    | some m => rfl

/-! ## Projecting -/

/-- How a failure of the store is reported for a call. -/
def reported (l : Lookup) : Fault → Fault
  | .query (.lookupFailed entity reason) => .query (.lookupFailed entity reason)
  | fault => .query (.lookupFailed l.entity.plain fault.message)

theorem look_error {l : Lookup} {fault : Fault} (h : store l = .error fault) :
    look store l = .error (reported l fault) := by
  unfold look reported
  rw [h]
  cases fault with
  | query e => cases e <;> rfl
  | _ => rfl

/-- The first failure is the one that is reported. -/
theorem lookAll_error {before after : List Lookup} {l : Lookup} {fault : Fault}
    (hbefore : ∀ e ∈ before, (store e).isOk = true) (h : store l = .error fault) :
    lookAll store (before ++ l :: after) = .error (reported l fault) := by
  induction before with
  | nil =>
    rw [List.nil_append, lookAll, List.mapM_cons, look_error h]
    rfl
  | cons e before ih =>
    obtain ⟨he, hbefore⟩ := List.forall_mem_cons.mp hbefore
    obtain ⟨row, hrow⟩ := eq_ok_of_isOk he
    have hlook : look store e = .ok row := by rw [look, hrow]
    rw [lookAll] at ih
    rw [List.cons_append, lookAll, List.mapM_cons, hlook, ih hbefore]
    rfl

theorem lookAtOnce_eq_lookAll {schedule : List Flight.Event} {ls : List Lookup}
    {result : Except Fault (Table Value Row)} (h : lookAtOnce store schedule ls = some result) :
    result = lookAll store ls := by
  unfold lookAtOnce at h
  split at h
  · obtain ⟨f, hrun, hout⟩ := Option.bind_eq_some_iff.mp h
    exact ((Flight.follows_start store ls).run hrun).outcome hout
  · exact (Option.some.inj h).symm

theorem exists_lookAtOnce (store : LookupStore) {ls : List Lookup} {order : List Nat}
    (horder : order.Perm (List.range ls.length)) :
    ∃ schedule, schedule.filterMap Flight.Event.finished? = order ∧
      lookAtOnce store schedule ls = some (lookAll store ls) := by
  obtain ⟨schedule, f, hfinished, hrun, hout⟩ := Flight.exists_schedule store horder
  obtain ⟨result, hresult⟩ := Option.isSome_iff_exists.mp hout
  refine ⟨schedule, hfinished, ?_⟩
  unfold lookAtOnce
  split
  · rw [hrun, Option.bind_some, hresult, ((Flight.follows_start store ls).run hrun).outcome hresult]
  · rfl

theorem project_of_lookups {rows : List Value} {ls : List Lookup} (h : p.lookups rows = .ok ls) :
    p.project store rows = (do rows.mapM (p.expose (← lookAll store ls))) := by
  rw [project, h]
  rfl

/-- Whatever projecting with calls at once gives is what projecting gives. Every order of answers brings something out,
no schedule gets stuck or goes on forever before that, and the failure that is reported is that of the first call that
fails, in the order in which the entities are met in the rows. -/
theorem projectAtOnce_eq_project (p : Projector) (store : LookupStore) (rows : List Value) :
    (∀ schedule result, p.projectAtOnce store schedule rows = some result → result = p.project store rows) ∧
      ∀ ls, p.lookups rows = .ok ls →
        (∀ order : List Nat, order.Perm (List.range ls.length) →
          ∃ schedule, schedule.filterMap Flight.Event.finished? = order ∧
            p.projectAtOnce store schedule rows = some (p.project store rows)) ∧
        (∀ schedule f, (Flight.start ls).run store schedule = some f →
          schedule.length ≤ 3 * ls.length ∧
            (f.outcome? = none → ∃ event, (f.step store event).isSome = true)) ∧
        (∀ before l after fault, ls = before ++ l :: after → (∀ e ∈ before, (store e).isOk = true) →
          store l = .error fault → p.project store rows = .error (reported l fault)) ∧
        ∃ requests, rows.mapM p.rowRequests = .ok requests ∧
          ls.map Lookup.entity =
            (requests.flatten.map Prod.fst).eraseDups.filter fun e => (p.mappings.get? e).isSome := by
  refine ⟨fun schedule result h => ?_, fun ls hls => ⟨fun order horder => ?_, fun schedule f hrun =>
    ⟨?_, fun hout => ?_⟩, fun before l after fault heq hbefore hfault => ?_, entities_lookups hls⟩⟩
  · unfold projectAtOnce at h
    split at h
    · rename_i ls hls
      obtain ⟨found, hfound, rfl⟩ := Option.map_eq_some_iff.mp h
      rw [lookAtOnce_eq_lookAll hfound, project_of_lookups hls]
    · rename_i fault hfault
      cases h
      rw [project, hfault]
      rfl
  · obtain ⟨schedule, hfinished, hresult⟩ := exists_lookAtOnce store horder
    refine ⟨schedule, hfinished, ?_⟩
    rw [projectAtOnce, hls, project_of_lookups hls]
    simp only [hresult, Option.map_some]
  · exact (Nat.le_add_right _ _).trans (Flight.length_le_left hrun)
  · obtain ⟨event, g, hstep, -⟩ := ((Flight.follows_start store ls).run hrun).exists_step hout
    exact ⟨event, by rw [hstep]; rfl⟩
  · rw [project_of_lookups hls, heq, lookAll_error hbefore hfault]
    rfl

theorem projectAtOnce_eq_project_halting :
    Shop.labelledRows.projectAtOnce Shop.halting [.submit, .submit, .finish 1, .finish 0, .collect, .collect]
        [Shop.ownedRow] = some (Shop.labelledRows.project Shop.halting [Shop.ownedRow]) ∧
      Shop.labelledRows.project Shop.halting [Shop.ownedRow] = .error (.query (.lookupFailed "Company" "down")) := by
  obtain ⟨result, hresult⟩ : ∃ result, Shop.labelledRows.projectAtOnce Shop.halting
      [.submit, .submit, .finish 1, .finish 0, .collect, .collect] [Shop.ownedRow] = some result := ⟨_, rfl⟩
  obtain ⟨hagree, hcalls⟩ := projectAtOnce_eq_project Shop.labelledRows Shop.halting [Shop.ownedRow]
  refine ⟨by rw [hresult, hagree _ _ hresult], ?_⟩
  obtain ⟨-, -, hfailure, -⟩ := hcalls _ rfl
  refine hfailure [_] _ [] _ rfl (fun e he => ?_) rfl
  obtain rfl := List.mem_singleton.mp he
  rfl

end Projector

end Sift
