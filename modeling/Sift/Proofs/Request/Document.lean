import Sift.Number.Numeral
import Sift.Proofs.Schema.WellFormed
import Sift.Request.Parameters
import Sift.Stack

/-!
# Documents

A request comes as a JSON document, or as a query string that states conditions one by one. What the latter comes to is
a document, too, and never a deep one.
-/

namespace Sift

namespace Value

mutual
/-- Can the value be read from a document? Keys are texts there, and no integer has more digits than can be read. -/
def isDocument : Value → Bool
  | .null | .bool _ | .float _ | .text _ => true
  | .int n => decide (n.natAbs < tenTo Numeral.maxDigits)
  | .list items => areDocuments items
  | .object entries => areMembers entries
  | _ => false

def areDocuments : List Value → Bool
  | [] => true
  | v :: vs => isDocument v && areDocuments vs

def areMembers : List (Value × Value) → Bool
  | [] => true
  | (key, v) :: rest => key.text?.isSome && isDocument v && areMembers rest
end

theorem areDocuments_iff {vs : List Value} : areDocuments vs = true ↔ ∀ v ∈ vs, v.isDocument = true := by
  induction vs with
  | nil => exact iff_of_true rfl fun _ hv => nomatch hv
  | cons v vs ih =>
    rw [List.forall_mem_cons, ← ih, ← Bool.and_eq_true]
    rfl

theorem areMembers_iff {entries : List (Value × Value)} :
    areMembers entries = true ↔ ∀ p ∈ entries, p.1.text?.isSome = true ∧ p.2.isDocument = true := by
  induction entries with
  | nil => exact iff_of_true rfl fun _ hp => nomatch hp
  | cons p rest ih =>
    rw [List.forall_mem_cons, ← ih, ← Bool.and_eq_true, ← Bool.and_eq_true]
    rfl

theorem itemDepth_le_iff {vs : List Value} {most : Nat} : itemDepth vs ≤ most ↔ ∀ v ∈ vs, v.depth ≤ most := by
  induction vs with
  | nil => exact iff_of_true (Nat.zero_le _) fun _ hv => nomatch hv
  | cons v vs ih => rw [List.forall_mem_cons, ← ih, itemDepth, Nat.max_le]

theorem entryDepth_le_iff {entries : List (Value × Value)} {most : Nat} :
    entryDepth entries ≤ most ↔ ∀ p ∈ entries, p.1.depth ≤ most ∧ p.2.depth ≤ most := by
  induction entries with
  | nil => exact iff_of_true (Nat.zero_le _) fun _ hp => nomatch hp
  | cons p rest ih => rw [List.forall_mem_cons, ← ih, entryDepth, Nat.max_le, Nat.max_le]

/-- A document with arrays and objects that are nested so deep at most. -/
structure IsNested (most : Nat) (v : Value) : Prop where
  isDocument : v.isDocument = true
  depth_le : v.depth ≤ most

namespace IsNested

variable {most : Nat}

theorem null : Value.null.IsNested most := ⟨rfl, Nat.zero_le _⟩

theorem text (s : String) : (Value.text s).IsNested most := ⟨rfl, Nat.zero_le _⟩

theorem mono {most' : Nat} {v : Value} (h : v.IsNested most) (hle : most ≤ most') : v.IsNested most' :=
  ⟨h.isDocument, Nat.le_trans h.depth_le hle⟩

theorem list {vs : List Value} (h : ∀ v ∈ vs, v.IsNested most) : (Value.list vs).IsNested (most + 1) where
  isDocument := areDocuments_iff.mpr fun v hv => (h v hv).isDocument
  depth_le := Nat.succ_le_succ (itemDepth_le_iff.mpr fun v hv => (h v hv).depth_le)

theorem items {vs : List Value} (h : (Value.list vs).IsNested most) : ∀ v ∈ vs, v.IsNested most :=
  fun v hv => ⟨areDocuments_iff.mp h.isDocument v hv, itemDepth_le_iff.mp (Nat.le_of_succ_le h.depth_le) v hv⟩

theorem object {entries : Row} (h : ∀ p ∈ entries, p.1.text?.isSome = true ∧ p.2.IsNested most) :
    (Value.object entries).IsNested (most + 1) where
  isDocument := areMembers_iff.mpr fun p hp => ⟨(h p hp).1, (h p hp).2.isDocument⟩
  depth_le := by
    refine Nat.succ_le_succ (entryDepth_le_iff.mpr fun p hp => ⟨?_, (h p hp).2.depth_le⟩)
    cases hkey : p.1 with
    | text name => exact Nat.zero_le _
    | _ => exact absurd (h p hp).1 (by rw [hkey]; exact Bool.false_ne_true)

theorem members {entries : Row} (h : (Value.object entries).IsNested most) :
    ∀ p ∈ entries, p.1.text?.isSome = true ∧ p.2.IsNested most := by
  intro p hp
  obtain ⟨hkey, hv⟩ := areMembers_iff.mp h.isDocument p hp
  exact ⟨hkey, hv, (entryDepth_le_iff.mp (Nat.le_of_succ_le h.depth_le) p hp).2⟩

theorem get {entries : Row} (h : (Value.object entries).IsNested most) (name : String) :
    (Row.get name entries).IsNested most := by
  unfold Row.get
  cases hv : Table.get? (.text name) entries with
  | none => exact null
  | some v =>
    obtain ⟨key, hmem, -⟩ := Table.exists_mem_of_get?_eq_some hv
    exact (h.members _ hmem).2

theorem isSignalling {v : Value} (h : v.IsNested most) : v.isSignalling = false := by
  cases v with
  | decimal d => cases h.isDocument
  | _ => rfl

end IsNested

end Value

/-! ## Query strings -/

namespace Parameters

variable {rs : List Role} {cs : List Condition}

end Parameters

end Sift
