import Sift.Stack

/-!
# Rejections

A request is either granted or rejected: what is wrong with it is told by an error of the request, and by no other
fault, and what the error shows of the request is not nested deeper than that. The rules say so for the steps of a
computation, of which each may count on what the ones before it have found.
-/

namespace Sift

/-- Is the fault that of a request? -/
def Fault.isRejection : Fault → Bool
  | .query error => error.kind.isValidation
  | _ => false

/-- The computation has a result with a property, or it rejects the request, and shows a value of some depth at most. -/
def Judges {α : Type} (most : Nat) (x : Except Fault α) (P : α → Prop) : Prop :=
  match x with
  | .ok a => P a
  | .error fault => fault.isRejection = true ∧ fault.shownDepth ≤ most

namespace Judges

variable {α β : Type} {most : Nat} {x : Except Fault α} {f : α → Except Fault β} {P P' : α → Prop} {Q : β → Prop}

theorem of_eq {a : α} (h : x = .ok a) (ha : P a) : Judges most x P := by
  rw [h]
  exact ha

theorem pure {a : α} (h : P a) : Judges most (pure a) P := h

/-- Rejecting a request without showing anything of it. -/
theorem refuse {fault : Fault} (h : fault.isRejection = true) (hshown : fault.shownDepth = 0) :
    Judges most (.error fault : Except Fault α) P :=
  ⟨h, Nat.le_trans (Nat.le_of_eq hshown) (Nat.zero_le _)⟩

theorem mono (h : Judges most x P) (hP : ∀ a, P a → P' a) : Judges most x P' := by
  cases x with
  | error fault => exact h
  | ok a => exact hP a h

theorem bind (h : Judges most x P) (hf : ∀ a, P a → Judges most (f a) Q) : Judges most (x >>= f) Q := by
  cases x with
  | error fault => exact h
  | ok a => exact hf a h

theorem bind_of_eq {a : α} (h : x = .ok a) (hf : Judges most (f a) Q) : Judges most (x >>= f) Q := by
  rw [h]
  exact hf

theorem map {g : α → β} (h : Judges most x P) (hg : ∀ a, P a → Q (g a)) : Judges most (g <$> x) Q := by
  cases x with
  | error fault => exact h
  | ok a => exact hg a h

theorem mapM {as : List α} (h : ∀ a ∈ as, Judges most (f a) Q) : Judges most (as.mapM f) fun bs => ∀ b ∈ bs, Q b := by
  induction as with
  | nil => exact fun b hb => absurd hb List.not_mem_nil
  | cons a as ih =>
    obtain ⟨ha, has⟩ := List.forall_mem_cons.mp h
    rw [List.mapM_cons]
    exact ha.bind fun b hb => (ih has).bind fun bs hbs => pure (List.forall_mem_cons.mpr ⟨hb, hbs⟩)

/-- Naming a reason for a rejection. -/
theorem mapError {ε : Type} {y : Except ε α} {g : ε → Fault} (h : ∀ a, y = .ok a → P a)
    (hg : ∀ e, (g e).isRejection = true ∧ (g e).shownDepth ≤ most) : Judges most (y.mapError g) P := by
  cases y with
  | error e => exact hg e
  | ok a => exact h a rfl

end Judges

end Sift
