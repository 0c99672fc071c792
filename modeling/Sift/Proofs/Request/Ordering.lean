import Sift.Proofs.Request.Document
import Sift.Proofs.Request.Names
import Sift.Request.Ordering

/-!
# Orderings are compiled or rejected

An ordering that came as a document is compiled or rejected in every form it may have: no direction in it is a number
that refuses to be compared, and every field it names is found or rejected.
-/

namespace Sift

/-- A direction that can be looked at, and shown. -/
structure Value.Readable (most : Nat) (v : Value) : Prop where
  isSignalling : v.isSignalling = false
  depth_le : v.depth ≤ most

theorem Value.IsNested.readable {most : Nat} {v : Value} (h : v.IsNested most) : v.Readable most :=
  ⟨h.isSignalling, h.depth_le⟩

theorem Direction.judges_parse {most : Nat} {v : Value} (h : v.Readable most) (default : Direction) :
    Judges most (parse v default) fun _ => True := by
  unfold parse
  have helim (d : Option Direction) :
      Judges most (d.elim (.error (.malformed (.direction v)) : Except Fault Direction) .ok) fun _ => True := by
    cases d with
    | none => exact ⟨rfl, h.depth_le⟩
    | some d => trivial
  simp only
  split
  · trivial
  · split
    · trivial
    · exact helim _
  · exact .refuse rfl rfl
  · cases h.isSignalling
  · exact helim _

namespace SortOrder

variable {most : Nat}

/-- Fields with such directions. -/
def Readable (most : Nat) (fields : List (String × Value)) : Prop := ∀ f ∈ fields, f.2.Readable most

theorem readable_signedFields (s : String) : Readable most (signedFields s) := by
  intro f hf
  obtain ⟨item, -, hitem⟩ := List.mem_filterMap.mp hf
  unfold signedField at hitem
  split at hitem <;> cases hitem <;> exact ⟨rfl, Nat.zero_le _⟩

theorem judges_objectField {entries : Row} (h : (Value.object entries).IsNested most) :
    Judges most (objectField entries) fun f => f.2.Readable most := by
  unfold objectField
  simp only
  split
  · show Value.Readable most (Option.elim _ .null _)
    cases List.find? (fun k => Row.contains k entries) ["direction", "dir"] with
    | none => exact Value.IsNested.null.readable
    | some k => exact (h.get k).readable
  · exact .refuse rfl rfl

theorem judges_object {entries : Row} (h : (Value.object entries).IsNested most) :
    Judges most (do return [← objectField entries]) (Readable most) :=
  (judges_objectField h).bind fun _ hf => List.forall_mem_singleton.mpr hf

theorem judges_itemFields {v : Value} (h : v.IsNested most) : Judges most (itemFields v) (Readable most) := by
  unfold itemFields
  split
  · exact readable_signedFields _
  · exact judges_object h
  · exact .refuse rfl rfl

theorem judges_fields {v : Value} (h : v.IsNested most) : Judges most (fields v) (Readable most) := by
  unfold fields
  split
  · split
    · exact readable_signedFields _
    · exact judges_object h
    · refine Judges.map (.mapM fun item hitem => judges_itemFields (h.items item hitem)) fun fs hfs f hf => ?_
      obtain ⟨part, hpart, hf⟩ := List.mem_flatten.mp hf
      exact hfs part hpart f hf
    · cases h.isDocument
    · cases h.isDocument
    · exact .refuse rfl rfl
  · exact fun f hf => absurd hf List.not_mem_nil

end SortOrder

namespace OrderRules

/-- What orderings rely on: the names in them, and the name of the default field. -/
structure Sound (r : OrderRules) : Prop where
  names : r.toSection.Sound
  defaultField : ∃ name, r.defaultField = .text name

variable {r : OrderRules} {most : Nat}

theorem Sound.judges_term (h : r.Sound) (default : Direction) (field : String) {direction : Value}
    (hd : direction.Readable most) : Judges most (r.term default field direction) fun _ => True := by
  refine (h.names.judges_field true field).bind fun ref _ => ?_
  split
  · exact .refuse rfl rfl
  · exact (Direction.judges_parse hd default).bind fun _ _ => trivial

theorem Sound.judges_defaultTerm (h : r.Sound) : Judges most r.defaultTerm fun _ => True := by
  obtain ⟨name, hname⟩ := h.defaultField
  unfold defaultTerm
  rw [hname]
  exact (h.names.judges_field false name).bind fun _ _ => trivial

theorem Sound.judges_compile (h : r.Sound) {v direction : Value} (hv : v.IsNested most)
    (hd : direction.IsNested most) : Judges most (r.compile v direction) fun _ => True := by
  refine (Direction.judges_parse hd.readable _).bind fun default _ => ?_
  refine (SortOrder.judges_fields hv).bind fun fields hfields => ?_
  refine (Judges.mapM fun f hf => h.judges_term default f.1 (hfields f hf)).bind fun terms _ => ?_
  split
  · exact h.judges_defaultTerm.bind fun _ _ => trivial
  · trivial

end OrderRules

end Sift
