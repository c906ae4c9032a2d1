import Mathlib.Data.List.Basic
import Mathlib.Data.List.Pairwise
import Mathlib.Data.List.TakeWhile
import Mathlib.Order.Lattice
import Mathlib.Tactic.Common

/-!
# Intervals in order

A set of points of a linear order, kept as half-open intervals from left to right.

* `Covers`, `Apart`: the points of some intervals; intervals that are in order and do not overlap.
* `merge`: an interval more, in one pass over the ones there are.
* `clip`: what lies in an interval.

Results: merging adds the interval (`covers_merge`), keeps the order (`Apart.merge`) and makes at
most one interval more (`merge_length_le`); clipping intersects (`covers_clip`) and keeps the order
(`Apart.clip`).
-/

namespace TiraRdp.Lib.Bands

variable {α : Type} [LinearOrder α]

/-- Some interval has the point. -/
def Covers (items : List (α × α)) (x : α) : Prop := ∃ i ∈ items, i.1 ≤ x ∧ x < i.2

/-- No interval is empty, and each ends before the next starts. -/
structure Apart (items : List (α × α)) : Prop where
  nonempty : ∀ i ∈ items, i.1 < i.2
  ordered : items.Pairwise fun i j => i.2 ≤ j.1

/-- The interval ends before the point. -/
def endsBefore (bound : α) (i : α × α) : Bool := i.2 < bound

/-- Where the merged interval starts. -/
def mergeStart (lo : α) : List (α × α) → α
  | [] => lo
  | i :: _ => if i.1 < lo then i.1 else lo

/-- The merged interval and what is behind it, from the first interval that ends no sooner. -/
def mergeEnd (start hi : α) : List (α × α) → List (α × α)
  | [] => [(start, hi)]
  | i :: after => if i.1 < hi then (start, i.2) :: after else (start, hi) :: i :: after

/-- An interval more: those that end before it stay, and it takes in those that overlap it. -/
def merge (lo hi : α) (items : List (α × α)) : List (α × α) :=
  items.takeWhile (endsBefore lo) ++
    mergeEnd (mergeStart lo (items.dropWhile (endsBefore lo))) hi
      ((items.dropWhile (endsBefore lo)).dropWhile (endsBefore hi))

@[simp] theorem endsBefore_iff {bound : α} {i : α × α} : endsBefore bound i = true ↔ i.2 < bound :=
  decide_eq_true_iff

variable {items more : List (α × α)} {lo hi x : α}

@[simp] theorem covers_nil : ¬ Covers ([] : List (α × α)) x := fun ⟨_, hi, _⟩ => nomatch hi

@[simp] theorem covers_cons {i : α × α} :
    Covers (i :: items) x ↔ (i.1 ≤ x ∧ x < i.2) ∨ Covers items x := by
  simp [Covers]

@[simp] theorem covers_append : Covers (items ++ more) x ↔ Covers items x ∨ Covers more x := by
  simp only [Covers, List.mem_append, or_and_right, exists_or]

@[simp] theorem apart_nil : Apart ([] : List (α × α)) :=
  ⟨fun _ hi => absurd hi List.not_mem_nil, List.Pairwise.nil⟩

theorem apart_cons {i : α × α} :
    Apart (i :: items) ↔ i.1 < i.2 ∧ (∀ j ∈ items, i.2 ≤ j.1) ∧ Apart items := by
  constructor
  · intro h
    obtain ⟨hfirst, hrest⟩ := List.pairwise_cons.mp h.ordered
    exact ⟨h.nonempty i List.mem_cons_self, hfirst,
      ⟨fun j hj => h.nonempty j (List.mem_cons_of_mem i hj), hrest⟩⟩
  · rintro ⟨hi, hfirst, hrest⟩
    exact ⟨List.forall_mem_cons.mpr ⟨hi, hrest.nonempty⟩,
      List.pairwise_cons.mpr ⟨hfirst, hrest.ordered⟩⟩

theorem apart_append : Apart (items ++ more) ↔
    Apart items ∧ Apart more ∧ ∀ i ∈ items, ∀ j ∈ more, i.2 ≤ j.1 := by
  constructor
  · intro h
    obtain ⟨hitems, hmore, hcross⟩ := List.pairwise_append.mp h.ordered
    exact ⟨⟨fun i hi => h.nonempty i (List.mem_append_left more hi), hitems⟩,
      ⟨fun i hi => h.nonempty i (List.mem_append_right items hi), hmore⟩, hcross⟩
  · rintro ⟨hitems, hmore, hcross⟩
    exact ⟨List.forall_mem_append.mpr ⟨hitems.nonempty, hmore.nonempty⟩,
      List.pairwise_append.mpr ⟨hitems.ordered, hmore.ordered, hcross⟩⟩

/-- Cut where the intervals stop to end before a point, both parts are in order, and the first lies
in front of the second. -/
theorem Apart.cut (h : Apart items) (bound : α) :
    Apart (items.takeWhile (endsBefore bound)) ∧ Apart (items.dropWhile (endsBefore bound)) ∧
      ∀ i ∈ items.takeWhile (endsBefore bound), ∀ j ∈ items.dropWhile (endsBefore bound),
        i.2 ≤ j.1 := by
  rw [← apart_append, List.takeWhile_append_dropWhile]
  exact h

section Merge

variable {start : α}

/-- The end of a merge that starts no later than what is there. -/
theorem covers_mergeEnd (hlt : start < hi) (hstart : ∀ i ∈ items, start ≤ i.1) :
    Covers (mergeEnd start hi (items.dropWhile (endsBefore hi))) x ↔
      (start ≤ x ∧ x < hi) ∨ Covers items x := by
  induction items with
  | nil => simp [mergeEnd]
  | cons i items ih =>
    have hi₁ := hstart i List.mem_cons_self
    have hrest := ih fun j hj => hstart j (List.mem_cons_of_mem i hj)
    by_cases hend : i.2 < hi
    · rw [List.dropWhile_cons_of_pos (endsBefore_iff.mpr hend), hrest, covers_cons]
      grind
    · rw [List.dropWhile_cons_of_neg (mt endsBefore_iff.mp hend), mergeEnd]
      by_cases hover : i.1 < hi
      · rw [if_pos hover, covers_cons, covers_cons]
        grind
      · rw [if_neg hover, covers_cons]

theorem apart_mergeEnd (h : Apart items) (hlt : start < hi) (hstart : ∀ i ∈ items, start ≤ i.1) :
    Apart (mergeEnd start hi (items.dropWhile (endsBefore hi))) ∧
      ∀ i ∈ mergeEnd start hi (items.dropWhile (endsBefore hi)), start ≤ i.1 := by
  induction items with
  | nil => simp [mergeEnd, apart_cons, hlt]
  | cons i items ih =>
    obtain ⟨hi₁, hfirst, hrest⟩ := apart_cons.mp h
    have hi₂ := hstart i List.mem_cons_self
    have hmore (j : α × α) (hj : j ∈ items) : start ≤ j.1 := hstart j (List.mem_cons_of_mem i hj)
    by_cases hend : i.2 < hi
    · rw [List.dropWhile_cons_of_pos (endsBefore_iff.mpr hend)]
      exact ih hrest hmore
    · rw [List.dropWhile_cons_of_neg (mt endsBefore_iff.mp hend), mergeEnd]
      by_cases hover : i.1 < hi
      · rw [if_pos hover]
        refine ⟨apart_cons.mpr ⟨?_, hfirst, hrest⟩, List.forall_mem_cons.mpr ⟨le_rfl, hmore⟩⟩
        exact hlt.trans_le (not_lt.mp hend)
      · rw [if_neg hover]
        refine ⟨apart_cons.mpr ⟨hlt, List.forall_mem_cons.mpr ⟨not_lt.mp hover, ?_⟩, h⟩,
          List.forall_mem_cons.mpr ⟨le_rfl, hstart⟩⟩
        intro j hj
        exact (not_lt.mp hover).trans (hi₁.le.trans (hfirst j hj))

theorem mergeEnd_length_le (start hi : α) (items : List (α × α)) :
    (mergeEnd start hi (items.dropWhile (endsBefore hi))).length ≤ items.length + 1 := by
  have hdrop := (List.dropWhile_sublist (l := items) (endsBefore hi)).length_le
  cases hrest : items.dropWhile (endsBefore hi) with
  | nil => exact Nat.succ_le_succ (Nat.zero_le _)
  | cons i after =>
    rw [hrest, List.length_cons] at hdrop
    rw [mergeEnd]
    by_cases hover : i.1 < hi
    · rw [if_pos hover, List.length_cons]
      omega
    · rw [if_neg hover, List.length_cons, List.length_cons]
      omega

/-- Where a merge starts: no later than the interval, nor than what does not end before it; and what
lies in front of the interval is there already. -/
theorem mergeStart_spec (lo : α) (h : Apart items) :
    mergeStart lo (items.dropWhile (endsBefore lo)) ≤ lo ∧
      (∀ i ∈ items.dropWhile (endsBefore lo),
        mergeStart lo (items.dropWhile (endsBefore lo)) ≤ i.1) ∧
      (∀ x, mergeStart lo (items.dropWhile (endsBefore lo)) ≤ x → x < lo →
        Covers (items.dropWhile (endsBefore lo)) x) ∧
      ∀ i ∈ items.takeWhile (endsBefore lo),
        i.2 ≤ mergeStart lo (items.dropWhile (endsBefore lo)) := by
  obtain ⟨-, hdrop, hcross⟩ := h.cut lo
  have hbefore (i : α × α) (hi : i ∈ items.takeWhile (endsBefore lo)) : i.2 < lo :=
    endsBefore_iff.mp (List.mem_takeWhile_imp hi)
  cases hrest : items.dropWhile (endsBefore lo) with
  | nil =>
    refine ⟨le_rfl, fun i hi => absurd hi List.not_mem_nil, fun x hle hlt => ?_,
      fun i hi => (hbefore i hi).le⟩
    exact absurd hlt (not_lt.mpr hle)
  | cons i after =>
    rw [hrest] at hdrop hcross
    obtain ⟨hi₁, hfirst, -⟩ := apart_cons.mp hdrop
    have hend : lo ≤ i.2 := by
      have hhead := List.head_dropWhile_not (endsBefore lo) (l := items)
        (hrest ▸ List.cons_ne_nil i after)
      simpa [hrest, endsBefore] using hhead
    by_cases hover : i.1 < lo
    · simp only [mergeStart, if_pos hover]
      refine ⟨hover.le, List.forall_mem_cons.mpr ⟨le_rfl, fun j hj => ?_⟩, fun x hle hlt => ?_, ?_⟩
      · exact hi₁.le.trans (hfirst j hj)
      · exact covers_cons.mpr (Or.inl ⟨hle, hlt.trans_le hend⟩)
      · exact fun j hj => hcross j hj i List.mem_cons_self
    · simp only [mergeStart, if_neg hover]
      refine ⟨le_rfl, List.forall_mem_cons.mpr ⟨not_lt.mp hover, fun j hj => ?_⟩,
        fun x hle hlt => absurd hlt (not_lt.mpr hle), fun j hj => (hbefore j hj).le⟩
      exact (not_lt.mp hover).trans (hi₁.le.trans (hfirst j hj))

/-- **A merge adds the interval.** -/
theorem covers_merge (h : Apart items) (hlt : lo < hi) :
    Covers (merge lo hi items) x ↔ Covers items x ∨ (lo ≤ x ∧ x < hi) := by
  obtain ⟨hle, hstart, hfront, -⟩ := mergeStart_spec lo h
  have hsplit : Covers items x ↔ Covers (items.takeWhile (endsBefore lo)) x ∨
      Covers (items.dropWhile (endsBefore lo)) x := by
    rw [← covers_append, List.takeWhile_append_dropWhile]
  rw [merge, covers_append, covers_mergeEnd (hle.trans_lt hlt) hstart, hsplit]
  have hx := hfront x
  grind

theorem Apart.merge (h : Apart items) (hlt : lo < hi) : Apart (merge lo hi items) := by
  obtain ⟨hle, hstart, -, hbefore⟩ := mergeStart_spec lo h
  obtain ⟨htake, hdrop, -⟩ := h.cut lo
  obtain ⟨hend, hfrom⟩ := apart_mergeEnd hdrop (hle.trans_lt hlt) hstart
  exact apart_append.mpr ⟨htake, hend, fun i hi j hj => (hbefore i hi).trans (hfrom j hj)⟩

theorem merge_length_le (lo hi : α) (items : List (α × α)) :
    (merge lo hi items).length ≤ items.length + 1 := by
  have hsplit := congrArg List.length
    (List.takeWhile_append_dropWhile (p := endsBefore lo) (l := items))
  have hend := mergeEnd_length_le (mergeStart lo (items.dropWhile (endsBefore lo))) hi
    (items.dropWhile (endsBefore lo))
  rw [List.length_append] at hsplit
  rw [merge, List.length_append]
  omega

theorem merge_ne_nil : merge lo hi items ≠ [] := by
  unfold merge mergeEnd
  split
  · simp
  · split <;> simp

end Merge

/-! ## Clipping -/

/-- What an interval shares with another. -/
def clipItem (lo hi : α) (i : α × α) : Option (α × α) :=
  if max i.1 lo < min i.2 hi then some (max i.1 lo, min i.2 hi) else none

/-- What lies in an interval. -/
def clip (lo hi : α) (items : List (α × α)) : List (α × α) := items.filterMap (clipItem lo hi)

theorem clipItem_eq_some {i j : α × α} : clipItem lo hi i = some j ↔
    max i.1 lo < min i.2 hi ∧ j = (max i.1 lo, min i.2 hi) := by
  unfold clipItem
  rw [Option.ite_none_right_eq_some, Option.some.injEq, eq_comm (a := j)]

/-- **Clipping intersects.** -/
theorem covers_clip (lo hi x : α) (items : List (α × α)) :
    Covers (clip lo hi items) x ↔ Covers items x ∧ lo ≤ x ∧ x < hi := by
  simp only [Covers, clip, List.mem_filterMap, clipItem_eq_some]
  constructor
  · rintro ⟨_, ⟨i, hmem, -, rfl⟩, hle, hlt⟩
    exact ⟨⟨i, hmem, (le_max_left _ _).trans hle, hlt.trans_le (min_le_left _ _)⟩,
      (le_max_right _ _).trans hle, hlt.trans_le (min_le_right _ _)⟩
  · rintro ⟨⟨i, hmem, hle, hlt⟩, hlo, hhi⟩
    have hmax : max i.1 lo ≤ x := max_le hle hlo
    have hmin : x < min i.2 hi := lt_min hlt hhi
    exact ⟨_, ⟨i, hmem, hmax.trans_lt hmin, rfl⟩, hmax, hmin⟩

theorem Apart.clip (h : Apart items) : Apart (clip lo hi items) := by
  constructor
  · intro j hj
    obtain ⟨i, -, hclip⟩ := List.mem_filterMap.mp hj
    obtain ⟨hlt, rfl⟩ := clipItem_eq_some.mp hclip
    exact hlt
  · refine h.ordered.filterMap _ ?_
    intro i j hij a ha b hb
    obtain ⟨-, rfl⟩ := clipItem_eq_some.mp ha
    obtain ⟨-, rfl⟩ := clipItem_eq_some.mp hb
    exact (min_le_left _ _).trans (hij.trans (le_max_left _ _))

end TiraRdp.Lib.Bands
