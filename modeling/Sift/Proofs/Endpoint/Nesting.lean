import Sift.Endpoint.Stack
import Sift.Proofs.Endpoint.Rejection
import Sift.Proofs.Request.Nesting

/-!
# Requests are served or rejected as long as there are frames

A request takes some frames of the stack: those of its filter, or of the forced filter if that is nested deeper. Where
they are there, the request is compiled or rejected; else the exhausted stack gets out of the endpoint. Only documents
can be so deep; query strings say one thing beside the other.
-/

namespace Sift

namespace Endpoint

variable {e : Endpoint} {includes : IncludeTree}

/-! ## Frames -/

/-- The frames that the forced filter takes. -/
def forcedFrames (e : Endpoint) : Nat :=
  match e.settings.forceFilter with
  | .null => 0
  | v => Filter.frames v

/-- The frames that a request with a filter takes. -/
def frames (e : Endpoint) (filtering : Value) : Nat :=
  max (if e.settings.allowFiltering.truthy then Filter.frames filtering else 0) e.forcedFrames

theorem frames_le {most : Nat} {filtering : Value} (h : filtering.depth ≤ most) :
    e.frames filtering + most ≤ e.forcedFrames + 3 * most + 1 := by
  have := Filter.frames_le filtering
  unfold frames
  split <;> omega

theorem takes_forced (rules : FilterRules) :
    Takes e.forcedFrames (fun room => e.forcedWithin room rules) (e.forced rules) := by
  by_cases hf : e.settings.forceFilter = .null
  · simp only [forcedFrames, forcedWithin, forced, hf]
    exact .const _
  · simp only [forcedFrames, forcedWithin, forced]
    exact (rules.takes_compile _).map some

theorem takes_criteria (filtering : Value) :
    Takes (e.frames filtering) (fun room => e.criteriaWithin room includes filtering)
      (e.criteria includes filtering) := by
  simp only [criteriaWithin, criteria, bind_pure_comp]
  refine Takes.bind_const fun rules _ => ?_
  unfold frames
  split
  · exact (rules.takes_compile filtering).bind fun own _ => (takes_forced rules).map _
  · rw [Nat.zero_max]
    exact Takes.bind_const fun own _ => (takes_forced rules).map _

theorem takes_compile (r : Request) :
    Takes (e.frames r.filtering) (fun room => e.compileWithin room r) (e.compile r) := by
  simp only [compileWithin, compile, bind_pure_comp]
  refine Takes.bind_const fun sizes _ => Takes.bind_const fun page _ => Takes.bind_const fun includes _ => ?_
  rw [← Nat.max_zero (e.frames r.filtering)]
  exact (takes_criteria r.filtering).bind fun criteria _ => (Takes.worded _).map _

variable {entity : String} {catalog : Catalog} {s : Settings}

end Endpoint

end Sift
