import Sift.Proofs.Outcome
import Sift.Stack

/-!
# What computations take of a stack

A computation that counts its frames comes to the same as the one that does not, if there are enough of them. How many
that are is a number of its own for each computation: where there is a result it is known exactly, and where there is an
error the value that the error shows may add to it.
-/

namespace Sift

variable {α β : Type} {run : Nat → Except Fault α} {x : Except Fault α}

/-- With so many frames or more the computation comes to `x`, with fewer it runs out of them. -/
structure Fits (frames : Nat) (run : Nat → Except Fault α) (x : Except Fault α) : Prop where
  enough : ∀ room, frames ≤ room → run room = x
  exhausted : ∀ room, room < frames → ∃ showing, run room = .error (.exhausted showing)

namespace Fits

variable {frames frames' : Nat}

theorem const (x : Except Fault α) : Fits 0 (fun _ => x) x where
  enough _ _ := rfl
  exhausted _ h := absurd h (Nat.not_lt_zero _)

theorem worded (x : Except Fault α) : Fits (shownDepth x) (fun room => worded room x) x where
  enough _ h := if_pos h
  exhausted _ h := ⟨true, if_neg (Nat.not_le.mpr h)⟩

theorem enter (h : Fits frames run x) : Fits (frames + 1) (fun room => enter room run) x where
  enough room hroom := by
    cases room with
    | zero => omega
    | succ left => exact h.enough left (by omega)
  exhausted room hroom := by
    cases room with
    | zero => exact ⟨false, rfl⟩
    | succ left => exact h.exhausted left (by omega)

theorem map (h : Fits frames run x) (g : α → β) : Fits frames (fun room => g <$> run room) (g <$> x) where
  enough room hroom := by rw [h.enough room hroom]
  exhausted room hroom := by
    obtain ⟨showing, hrun⟩ := h.exhausted room hroom
    exact ⟨showing, by rw [hrun]; rfl⟩

theorem bind_error {f : Nat → α → Except Fault β} {fault : Fault} (h : Fits frames run (.error fault)) :
    Fits frames (fun room => run room >>= f room) (.error fault) where
  enough room hroom := by
    rw [h.enough room hroom]
    rfl
  exhausted room hroom := by
    obtain ⟨showing, hrun⟩ := h.exhausted room hroom
    exact ⟨showing, by rw [hrun]; rfl⟩

/-- The second computation runs where the first one has given its frames back. -/
theorem bind_ok {f : Nat → α → Except Fault β} {a : α} {y : Except Fault β} (h : Fits frames run (.ok a))
    (hf : Fits frames' (fun room => f room a) y) :
    Fits (max frames frames') (fun room => run room >>= f room) y where
  enough room hroom := by
    rw [h.enough room (by omega)]
    exact hf.enough room (by omega)
  exhausted room hroom := by
    by_cases hfirst : room < frames
    · obtain ⟨showing, hrun⟩ := h.exhausted room hfirst
      exact ⟨showing, by rw [hrun]; rfl⟩
    · rw [h.enough room (by omega)]
      exact hf.exhausted room (by omega)

end Fits

/-- The computation comes to `x` from some number of frames on: from `height` on where that is a result, and else from
`height` and the depth of the value that is shown on, if not earlier. -/
def Takes (height : Nat) (run : Nat → Except Fault α) (x : Except Fault α) : Prop :=
  ∃ frames ≤ height + shownDepth x, (∀ a, x = .ok a → frames = height) ∧ Fits frames run x

namespace Takes

variable {height height' : Nat}

theorem const (x : Except Fault α) : Takes 0 (fun _ => x) x :=
  ⟨0, Nat.zero_le _, fun _ _ => rfl, .const x⟩

theorem error (height : Nat) (fault : Fault) : Takes (α := α) height (fun _ => .error fault) (.error fault) :=
  ⟨0, Nat.zero_le _, nofun, .const _⟩

theorem worded (x : Except Fault α) : Takes 0 (fun room => worded room x) x := by
  refine ⟨shownDepth x, Nat.le_add_left _ _, ?_, .worded x⟩
  rintro a rfl
  rfl

theorem enter (h : Takes height run x) : Takes (height + 1) (fun room => enter room run) x := by
  obtain ⟨frames, hle, hok, hfits⟩ := h
  exact ⟨frames + 1, by omega, fun a ha => by rw [hok a ha], hfits.enter⟩

theorem map (h : Takes height run x) (g : α → β) : Takes height (fun room => g <$> run room) (g <$> x) := by
  obtain ⟨frames, hle, hok, hfits⟩ := h
  refine ⟨frames, ?_, fun b hb => ?_, hfits.map g⟩
  · cases x with
    | ok a => exact hle
    | error fault => exact hle
  · obtain ⟨a, ha, -⟩ := map_eq_ok_iff.mp hb
    exact hok a ha

/-- One after the other takes what the larger of the two takes. -/
theorem bind {f : Nat → α → Except Fault β} {y : α → Except Fault β} (h : Takes height run x)
    (hf : ∀ a, x = .ok a → Takes height' (fun room => f room a) (y a)) :
    Takes (max height height') (fun room => run room >>= f room) (x >>= y) := by
  obtain ⟨frames, hle, hok, hfits⟩ := h
  cases x with
  | error fault =>
    exact ⟨frames, Nat.le_trans hle (Nat.add_le_add_right (Nat.le_max_left _ _) _), nofun, hfits.bind_error⟩
  | ok a =>
    -- a result shows nothing, so that what the first takes is known exactly
    obtain rfl := hok a rfl
    obtain ⟨frames', hle', hok', hfits'⟩ := hf a rfl
    have hbound : max frames frames' ≤ max frames height' + shownDepth (y a) := by omega
    exact ⟨max frames frames', hbound, fun b hb => by rw [hok' b hb], hfits.bind_ok hfits'⟩

/-- A step before all others that takes nothing. -/
theorem bind_const {f : Nat → α → Except Fault β} {y : α → Except Fault β}
    (hf : ∀ a, x = .ok a → Takes height (fun room => f room a) (y a)) :
    Takes height (fun room => x >>= f room) (x >>= y) := by
  cases x with
  | error fault => exact error height fault
  | ok a => exact hf a rfl

end Takes

end Sift
