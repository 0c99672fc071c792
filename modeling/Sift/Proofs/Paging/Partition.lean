import Sift.Proofs.Paging.Quantity
import Sift.Request.Paging

/-!
# Pages partition a result

Whatever page a request asks for, it gets one with a number from one on and with a size that is positive and no larger
than the largest one. The pages of that size, as many as are counted, hold every row of a result once and in order: the
places of the rows are found with integers, their number with a rounded quotient, and these never disagree.
-/

namespace Sift

variable {α : Type}

/-! ## Slices -/

theorem take_mul_eq_flatten (rows : List α) (s k : Nat) :
    ((List.range k).map fun i => (rows.drop (i * s)).take s).flatten = rows.take (k * s) := by
  induction k with
  | zero => simp
  | succ k ih =>
    rw [List.range_succ, List.map_append, List.flatten_append, ih, Nat.succ_mul, List.take_add]
    simp

namespace Page

/-- The rows on a page of a result. -/
def slice (p : Page) (rows : List α) : Except Fault (List α) := do
  let before ← (← p.offset).truncated
  let most ← p.limit.truncated
  return (rows.drop before.toNat).take most.toNat

theorem slice_eq {size : Quantity} {s : Nat} (h : size.integer? = some (s : Int)) (k : Nat) (rows : List α) :
    (Page.mk (k + 1) size).slice rows = .ok ((rows.drop (k * s)).take s) := by
  have hoffset : (Page.mk (k + 1) size).offset = .ok (.whole ((k * s : Nat) : Int)) := by
    rw [offset, Quantity.times_of_integer? h, add_sub_cancel_right]
    push_cast
    rfl
  have hlimit : (Page.mk (k + 1) size).limit.truncated = .ok (s : Int) := Quantity.truncated_of_integer? h
  simp only [slice, hoffset, hlimit, Quantity.truncated_of_integer? (q := .whole _) rfl, bind, Except.bind, pure,
    Except.pure, Int.toNat_natCast]

/-- The pages of a size, up to the last one, are a partition of some rows. -/
structure Partition (size : Quantity) (s : Nat) (rows : List α) (last : Nat) : Prop where
  /-- Nothing is lost, and nothing is repeated. -/
  whole : List.flatten <$> (List.range last).mapM (fun k : Nat => (Page.mk (k + 1) size).slice rows) = .ok rows
  /-- Every page before the last is full. -/
  full : ∀ k : Nat, 0 < k → k < last → ∃ shown, (Page.mk k size).slice rows = .ok shown ∧ shown.length = s
  /-- There is nothing after the last page. -/
  past : ∀ k : Nat, last < k → (Page.mk k size).slice rows = .ok []

theorem partition_of_bounds {size : Quantity} {s last : Nat} {rows : List α} (h : size.integer? = some (s : Int))
    (enough : rows.length ≤ last * s) (needed : ∀ k, 0 < k → k < last → k * s < rows.length) :
    Partition size s rows last where
  whole := by
    rw [mapM_eq_ok fun k _ => slice_eq h k rows]
    exact congrArg Except.ok (by rw [take_mul_eq_flatten, List.take_of_length_le enough])
  full k hk hlast := by
    obtain ⟨k, rfl⟩ : ∃ j, k = j + 1 := ⟨k - 1, by omega⟩
    refine ⟨_, slice_eq h k rows, ?_⟩
    have hlt := needed (k + 1) hk hlast
    rw [Nat.succ_mul] at hlt
    rw [List.length_take, List.length_drop]
    omega
  past k hk := by
    obtain ⟨k, rfl⟩ : ∃ j, k = j + 1 := ⟨k - 1, by omega⟩
    have hle : rows.length ≤ k * s := enough.trans (Nat.mul_le_mul_right s (by omega))
    have hslice := slice_eq h k rows
    rw [List.drop_of_length_le hle, List.take_nil] at hslice
    exact hslice

/-- The number of pages is one with which the pages are a partition. -/
theorem exists_partition {p : Page} {s : Nat} (h : p.size.integer? = some (s : Int)) (hs : 0 < s) {rows : List α}
    (hn : rows.length ≤ 2 ^ 53) : ∃ last : Nat, p.total (.int rows.length) = .ok last ∧ Partition p.size s rows last := by
  obtain ⟨k, hk, hle⟩ := Quantity.fills_whole_natCast h hn hs
  refine ⟨(max 1 k).toNat, ?_, partition_of_bounds h ?_ fun c hc hlast => ?_⟩
  · simp only [total, Quantity.ofValue, hk, bind, Except.bind, pure, Except.pure, Except.ok.injEq]
    omega
  · exact (hle _ (by omega)).mp (by omega)
  · by_contra hnot
    have := (hle c hc).mpr (by omega)
    omega

end Page

/-! ## Sizes -/

namespace PageSizes

/-- The integer in a setting: a truth value counts as one. -/
def whole? (v : Value) : Option Int := (Quantity.ofValue v).toOption.bind Quantity.integer?

/-- A setting that is a positive integer. -/
def IsPositive (v : Value) : Prop := ∃ n, whole? v = some n ∧ 0 < n

theorem size_of_whole? {v : Value} {n : Int} (h : whole? v = some n) (hpos : 0 < n) :
    ∃ q, size v = .ok q ∧ q.integer? = some n := by
  obtain ⟨q, hq, hn⟩ := Option.bind_eq_some_iff.mp h
  have hv : Quantity.ofValue v = .ok q := by
    cases hv : Quantity.ofValue v with
    | error e => simp only [hv, Except.toOption, reduceCtorEq] at hq
    | ok r =>
      rw [hv] at hq
      exact congrArg Except.ok (Option.some.inj hq)
  exact ⟨q, by simp only [size, hv, bind, Except.bind, Quantity.requirePositive_of_integer? hn hpos], hn⟩

theorem positive?_pos {v : Value} {n : Int} (h : positive? v = some n) : 1 ≤ n := by
  simp only [positive?, Option.filter_eq_some_iff, decide_eq_true_eq] at h
  exact h.2

/-- Sizes that are positive integers, with the integer that is the largest of them. -/
structure Bounded (sizes : PageSizes) (most : Option Int) : Prop where
  default : ∃ n, sizes.default.integer? = some n ∧ 0 < n
  largest : sizes.largest = none ∧ most = none ∨
    ∃ q m, sizes.largest = some q ∧ q.integer? = some m ∧ 0 < m ∧ most = some m

theorem exists_ofValues {default entity largest : Value} (hd : IsPositive (if entity.truthy then entity else default))
    (hl : largest = .null ∨ IsPositive largest) :
    ∃ sizes, ofValues default entity largest = .ok sizes ∧ Bounded sizes (whole? largest) := by
  obtain ⟨n, hn, hpos⟩ := hd
  obtain ⟨q, hq, hqn⟩ := size_of_whole? hn hpos
  rcases hl with rfl | ⟨m, hm, hmpos⟩
  · exact ⟨⟨q, none⟩, by simp only [ofValues, hq, bind, Except.bind, pure, Except.pure],
      ⟨n, hqn, hpos⟩, .inl ⟨rfl, rfl⟩⟩
  · obtain ⟨r, hr, hrm⟩ := size_of_whole? hm hmpos
    refine ⟨⟨q, some r⟩, ?_, ⟨n, hqn, hpos⟩, .inr ⟨r, m, rfl, hrm, hmpos, hm⟩⟩
    cases largest with
    | null => cases hm
    | _ => simp only [ofValues, hq, hr, bind, Except.bind, pure, Except.pure, Functor.map, Except.map]

variable {sizes : PageSizes} {most : Option Int}

theorem Bounded.cut (h : Bounded sizes most) {q : Quantity} {n : Int} (hq : q.integer? = some n) (hn : 0 < n) :
    ∃ s : Nat, (sizes.cut q).integer? = some (s : Int) ∧ 0 < s ∧ ∀ m, most = some m → (s : Int) ≤ m := by
  suffices h : ∃ k : Int, (sizes.cut q).integer? = some k ∧ 0 < k ∧ ∀ m, most = some m → k ≤ m by
    obtain ⟨k, hk, hpos, hle⟩ := h
    obtain ⟨s, rfl⟩ := Int.eq_ofNat_of_zero_le hpos.le
    exact ⟨s, hk, by omega, hle⟩
  rcases h.largest with ⟨hnone, rfl⟩ | ⟨r, m, hsome, hr, hm, rfl⟩
  · exact ⟨n, by simp only [PageSizes.cut, hnone, hq], hn, by rintro m ⟨⟩⟩
  · by_cases hlt : q.before r = true
    · have hnm : n < m := (Quantity.before_iff hq hr).mp hlt
      exact ⟨n, by simp only [PageSizes.cut, hsome, if_pos hlt, hq], hn, by rintro m ⟨⟩; exact hnm.le⟩
    · exact ⟨m, by simp only [PageSizes.cut, hsome, if_neg hlt, hr], hm, by rintro m ⟨⟩; exact le_rfl⟩

/-- Every page that a request asks for has a number and a size in the bounds. -/
theorem Bounded.exists_compile (h : Bounded sizes most) (row : Row) :
    ∃ (page : Page) (s : Nat), sizes.compile (.object row) = .ok page ∧ 1 ≤ page.number ∧
      page.size.integer? = some (s : Int) ∧ 0 < s ∧ ∀ m, most = some m → (s : Int) ≤ m := by
  let wanted := if Row.contains "size" row then Row.get "size" row else Row.get "page_size" row
  have hnumber : 1 ≤ (positive? (Row.get "page" row)).getD 1 := by
    cases hp : positive? (Row.get "page" row) with
    | none => exact le_rfl
    | some n => exact positive?_pos hp
  obtain ⟨n, hsize, hn⟩ : ∃ n, ((positive? wanted).elim sizes.default .whole).integer? = some n ∧ 0 < n := by
    cases hw : positive? wanted with
    | none => exact h.default
    | some n => exact ⟨n, rfl, positive?_pos hw⟩
  obtain ⟨s, hs⟩ := h.cut hsize hn
  exact ⟨_, s, rfl, hnumber, hs⟩

/-! ## Pages of a request -/

/-- Under settings that are positive integers every request for a page is granted, within the bounds, and the pages of
its size are a partition of every result. -/
theorem pages_partition {default entity largest : Value}
    (hd : IsPositive (if entity.truthy then entity else default)) (hl : largest = .null ∨ IsPositive largest) :
    ∃ sizes, ofValues default entity largest = .ok sizes ∧ ∀ row : Row,
      ∃ (page : Page) (s : Nat), sizes.compile (.object row) = .ok page ∧ 1 ≤ page.number ∧
        page.size.integer? = some (s : Int) ∧ 1 ≤ s ∧ (∀ m, whole? largest = some m → (s : Int) ≤ m) ∧
        ∀ {α : Type} (rows : List α), rows.length ≤ 2 ^ 53 →
          ∃ last : Nat, page.total (.int rows.length) = .ok last ∧ Page.Partition page.size s rows last := by
  obtain ⟨sizes, hsizes, hbounded⟩ := exists_ofValues hd hl
  refine ⟨sizes, hsizes, fun row => ?_⟩
  obtain ⟨page, s, hpage, hnumber, hs, hpos, hle⟩ := hbounded.exists_compile row
  exact ⟨page, s, hpage, hnumber, hs, hpos, hle, fun rows hn => Page.exists_partition hs hpos hn⟩

/-- Pages of eighty rows are asked for, where fifty are the most. -/
theorem pages_partition_fifty : ∃ sizes, ofValues (.int 100) .null (.int 50) = .ok sizes ∧
    ∃ (page : Page) (s : Nat), sizes.compile (.object [(.text "size", .int 80)]) = .ok page ∧ 1 ≤ s ∧ s ≤ 50 ∧
      ∃ last : Nat, page.total (.int 101) = .ok last ∧ Page.Partition page.size s (List.range 101) last := by
  obtain ⟨sizes, hsizes, hpages⟩ := @pages_partition (.int 100) .null (.int 50)
    ⟨100, rfl, by decide⟩ (.inr ⟨50, rfl, by decide⟩)
  obtain ⟨page, s, hpage, -, -, hs, hle, hrows⟩ := hpages [(.text "size", .int 80)]
  obtain ⟨last, htotal, hpartition⟩ := hrows (List.range 101) (by rw [List.length_range]; decide)
  rw [List.length_range] at htotal
  exact ⟨sizes, hsizes, page, s, hpage, hs, by exact_mod_cast hle 50 rfl, last, htotal, hpartition⟩

end PageSizes

end Sift
