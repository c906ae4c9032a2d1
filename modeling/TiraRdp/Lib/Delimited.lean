import Mathlib.Data.List.Basic
import Mathlib.Data.List.Infix
import Mathlib.Tactic.Common

/-!
# Strings of terminated units

`findSub pat s` is where `pat` first occurs in `s`. A *unit* is a string in which the terminator
`pat` occurs at its end and nowhere before. `Splits pat s us t` says that `s` is the units `us`
followed by a tail without a terminator.

Results: an occurrence is not moved by what follows it (`findSub_append`) and is visible only when
it is complete (`findSub_eq_none_of_prefix`), so a reader that appends what arrives and takes out a
unit at a time keeps `Splits` (`Splits.more`, `Splits.emit`). Of a string of units every prefix
splits in one way only: the units that are complete and a beginning of the next
(`splits_prefix`).
-/

namespace TiraRdp.Lib.Delimited

variable {α : Type} [DecidableEq α]

/-- The position of the first occurrence of `pat`. -/
def findSub (pat : List α) : List α → Option Nat
  | [] => if pat = [] then some 0 else none
  | a :: s => if pat.isPrefixOf (a :: s) then some 0 else (findSub pat s).map (· + 1)

/-- `pat` occurs at the end of `u` and nowhere before. -/
def IsUnit (pat u : List α) : Prop := findSub pat u = some (u.length - pat.length)

instance (pat u : List α) : Decidable (IsUnit pat u) :=
  inferInstanceAs (Decidable (findSub pat u = some (u.length - pat.length)))

/-- The units `us`, then a tail with no terminator. -/
structure Splits (pat s : List α) (us : List (List α)) (t : List α) : Prop where
  eq : s = us.flatten ++ t
  units : ∀ u ∈ us, IsUnit pat u
  tail : findSub pat t = none

variable {pat s t : List α}

/-- The pattern stands where it is found. -/
theorem prefix_drop_of_findSub {n : Nat} (h : findSub pat s = some n) : pat <+: s.drop n := by
  induction s generalizing n with
  | nil =>
    by_cases hp : pat = []
    · simp [hp]
    · simp [findSub, hp] at h
  | cons a s ih =>
    unfold findSub at h
    by_cases hp : pat.isPrefixOf (a :: s) = true
    · rw [if_pos hp, Option.some.injEq] at h
      subst h
      exact List.isPrefixOf_iff_prefix.mp hp
    · rw [if_neg hp, Option.map_eq_some_iff] at h
      obtain ⟨m, hm, rfl⟩ := h
      rw [List.drop_succ_cons]
      exact ih hm

theorem findSub_add_length_le {n : Nat} (h : findSub pat s = some n) :
    pat.length ≤ s.length - n := by
  have hle := (prefix_drop_of_findSub h).length_le
  rwa [List.length_drop] at hle

theorem findSub_le {n : Nat} (h : findSub pat s = some n) : n ≤ s.length := by
  induction s generalizing n with
  | nil =>
    by_cases hp : pat = []
    · simp [findSub, hp] at h
      omega
    · simp [findSub, hp] at h
  | cons a s ih =>
    unfold findSub at h
    by_cases hp : pat.isPrefixOf (a :: s) = true
    · rw [if_pos hp, Option.some.injEq] at h
      omega
    · rw [if_neg hp, Option.map_eq_some_iff] at h
      obtain ⟨m, hm, rfl⟩ := h
      have hle := ih hm
      rw [List.length_cons]
      omega

/-- Wherever the pattern stands, it is found there or before. -/
theorem exists_findSub_of_prefix_drop {k : Nat} (hk : k ≤ s.length) (h : pat <+: s.drop k) :
    ∃ n ≤ k, findSub pat s = some n := by
  induction s generalizing k with
  | nil =>
    obtain rfl : k = 0 := Nat.le_zero.mp hk
    have hp : pat = [] := List.prefix_nil.mp h
    exact ⟨0, Nat.le_refl 0, by simp [findSub, hp]⟩
  | cons a s ih =>
    by_cases hp : pat.isPrefixOf (a :: s) = true
    · exact ⟨0, Nat.zero_le k, by rw [findSub, if_pos hp]⟩
    · cases k with
      | zero => exact absurd (List.isPrefixOf_iff_prefix.mpr h) hp
      | succ k =>
        rw [List.length_cons] at hk
        obtain ⟨n, hn, hf⟩ := ih (k := k) (by omega) h
        exact ⟨n + 1, by omega, by rw [findSub, if_neg hp, hf, Option.map_some]⟩

/-- What is found first is not found before. -/
theorem findSub_min {n k : Nat} (h : findSub pat s = some n) (hk : k ≤ s.length)
    (hp : pat <+: s.drop k) : n ≤ k := by
  obtain ⟨m, hm, hf⟩ := exists_findSub_of_prefix_drop hk hp
  obtain rfl : n = m := Option.some.inj (h.symm.trans hf)
  exact hm

/-- What follows an occurrence does not move it. -/
theorem findSub_append {n : Nat} (h : findSub pat s = some n) (t : List α) :
    findSub pat (s ++ t) = some n := by
  have hle := findSub_le h
  have hocc : pat <+: (s ++ t).drop n := by
    rw [List.drop_append_of_le_length hle]
    exact (prefix_drop_of_findSub h).trans (List.prefix_append _ _)
  obtain ⟨m, hm, hf⟩ :=
    exists_findSub_of_prefix_drop (by rw [List.length_append]; omega) hocc
  -- an occurrence before `n` in the longer string would lie in `s` already
  have hmin : pat <+: s.drop m := by
    have hlong := prefix_drop_of_findSub hf
    rw [List.drop_append_of_le_length (by omega)] at hlong
    have hlen := findSub_add_length_le h
    exact List.prefix_of_prefix_length_le hlong (List.prefix_append _ _)
      (by rw [List.length_drop]; omega)
  have hnm := findSub_min h (by omega) hmin
  rw [hf]
  congr 1
  omega

/-- A string that stops short of the end of the first occurrence has none. -/
theorem findSub_eq_none_of_prefix {n : Nat} (h : findSub pat s = some n) (ht : t <+: s)
    (hlt : t.length < n + pat.length) : findSub pat t = none := by
  cases hf : findSub pat t with
  | none => rfl
  | some m =>
    obtain ⟨u, rfl⟩ := ht
    obtain rfl : n = m := Option.some.inj (h.symm.trans (findSub_append hf u))
    have hlen := findSub_add_length_le hf
    have hle := findSub_le hf
    omega

/-- A string cut right behind its first occurrence is a unit. -/
theorem isUnit_take {n : Nat} (h : findSub pat s = some n) :
    IsUnit pat (s.take (n + pat.length)) := by
  have hlen := findSub_add_length_le h
  have hle := findSub_le h
  have htake : (s.take (n + pat.length)).length = n + pat.length :=
    List.length_take_of_le (by omega)
  have hocc : pat <+: (s.take (n + pat.length)).drop n := by
    rw [List.drop_take, Nat.add_sub_cancel_left]
    obtain ⟨u, hu⟩ := prefix_drop_of_findSub h
    rw [← hu, List.take_left' rfl]
  obtain ⟨m, hm, hf⟩ := exists_findSub_of_prefix_drop (by omega) hocc
  have hall := findSub_append hf (s.drop (n + pat.length))
  rw [List.take_append_drop, h] at hall
  unfold IsUnit
  rw [hf, htake, Nat.add_sub_cancel, ← Option.some.inj hall]

theorem IsUnit.length_le {u : List α} (h : IsUnit pat u) : pat.length ≤ u.length :=
  Nat.le_trans (findSub_add_length_le h) (Nat.sub_le _ _)

/-! ## Splitting -/

theorem Splits.nil (hp : pat ≠ []) : Splits pat [] [] [] :=
  ⟨rfl, fun _ hu => absurd hu List.not_mem_nil, by simp [findSub, hp]⟩

/-- What arrives completes no unit: the tail grows. -/
theorem Splits.more {us : List (List α)} {x : List α} (h : Splits pat s us t)
    (hx : findSub pat (t ++ x) = none) : Splits pat (s ++ x) us (t ++ x) :=
  ⟨by rw [h.eq, List.append_assoc], h.units, hx⟩

/-- What arrives completes one unit, and not a second one. -/
theorem Splits.emit {us : List (List α)} {x : List α} {n : Nat} (h : Splits pat s us t)
    (hx : findSub pat (t ++ x) = some n)
    (hrest : findSub pat ((t ++ x).drop (n + pat.length)) = none) :
    Splits pat (s ++ x) (us ++ [(t ++ x).take (n + pat.length)])
      ((t ++ x).drop (n + pat.length)) := by
  refine ⟨?_, ?_, hrest⟩
  · rw [h.eq, List.flatten_append, List.flatten_singleton, List.append_assoc, List.append_assoc,
      List.take_append_drop]
  · intro u hu
    rcases List.mem_append.mp hu with hu | hu
    · exact h.units u hu
    · obtain rfl := List.mem_singleton.mp hu
      exact isUnit_take hx

/-- Two units that begin one string are the same. -/
theorem unit_unique {u v w : List α} (hu : IsUnit pat u) (hv : IsUnit pat v) (hwu : u <+: w)
    (hwv : v <+: w) : u = v := by
  obtain ⟨x, rfl⟩ := hwu
  obtain ⟨y, hy⟩ := hwv
  have hpos : u.length - pat.length = v.length - pat.length := by
    have h1 := findSub_append hu x
    have h2 := findSub_append hv y
    rw [hy, h1] at h2
    exact Option.some.inj h2
  have hlen : u.length = v.length := by
    have h1 := hu.length_le
    have h2 := hv.length_le
    omega
  exact (List.append_inj hy hlen.symm).1.symm

/-- The tail stops short of the `j`-th unit, if there is one. -/
def Short (us : List (List α)) (j : Nat) (t : List α) : Prop :=
  ∀ u, us[j]? = some u → t.length < u.length

/-- **A prefix of a string of units** splits into the units it has completely and a beginning of
the next one, and in no other way. -/
theorem splits_prefix (hp : pat ≠ []) : ∀ {vs us : List (List α)} {s t : List α},
    (∀ u ∈ us, IsUnit pat u) → s <+: us.flatten → Splits pat s vs t →
    ∃ j, vs = us.take j ∧ Short us j t
  | [], us, s, t, hus, hs, h => by
    refine ⟨0, (List.take_zero).symm, ?_⟩
    intro u hu
    cases us with
    | nil => simp at hu
    | cons v us =>
      obtain rfl : v = u := by simpa using hu
      by_contra hlt
      have ht : t = s := by simpa using h.eq.symm
      have hvt : v <+: t := by
        rw [ht]
        exact List.prefix_of_prefix_length_le (List.prefix_append _ _) hs (by rw [← ht]; omega)
      obtain ⟨x, rfl⟩ := hvt
      have hfound := findSub_append (hus v List.mem_cons_self) x
      rw [h.tail] at hfound
      cases hfound
  | v :: vs, us, s, t, hus, hs, h => by
    have hv := h.units v List.mem_cons_self
    have hsv : v <+: s := by
      rw [h.eq, List.flatten_cons, List.append_assoc]
      exact List.prefix_append _ _
    cases us with
    | nil =>
      have hnil : v = [] := List.prefix_nil.mp (hsv.trans hs)
      have hlen := hv.length_le
      rw [hnil] at hlen
      exact absurd (List.eq_nil_of_length_eq_zero (Nat.le_zero.mp hlen)) hp
    | cons u us =>
      obtain rfl : v = u :=
        unit_unique hv (hus u List.mem_cons_self) (hsv.trans hs) (List.prefix_append _ _)
      have hrest : vs.flatten ++ t <+: us.flatten := by
        rw [h.eq, List.flatten_cons, List.append_assoc, List.flatten_cons] at hs
        exact (List.prefix_append_right_inj v).mp hs
      obtain ⟨j, hj, hshort⟩ := splits_prefix hp
        (fun x hx => hus x (List.mem_cons_of_mem v hx)) hrest
        ⟨rfl, fun x hx => h.units x (List.mem_cons_of_mem v hx), h.tail⟩
      exact ⟨j + 1, by rw [hj, List.take_succ_cons], fun x hx => hshort x (by simpa using hx)⟩

/-- A beginning of a string of units that stops short of the first has no terminator. -/
theorem findSub_short {us : List (List α)} {j : Nat} (hp : pat ≠ [])
    (hus : ∀ u ∈ us, IsUnit pat u) (ht : (us.take j).flatten ++ t <+: us.flatten)
    (hshort : Short us j t) : findSub pat t = none := by
  have hdrop : t <+: (us.drop j).flatten := by
    conv at ht => rhs; rw [← List.take_append_drop j us, List.flatten_append]
    exact (List.prefix_append_right_inj _).mp ht
  cases hu : us.drop j with
  | nil =>
    rw [hu, List.flatten_nil] at hdrop
    obtain rfl := List.prefix_nil.mp hdrop
    simp [findSub, hp]
  | cons u rest =>
    rw [hu, List.flatten_cons] at hdrop
    have hget : us[j]? = some u := by
      have h0 : (us.drop j)[0]? = some u := by rw [hu]; rfl
      rwa [List.getElem?_drop, Nat.add_zero] at h0
    have hunit := hus u (List.mem_of_getElem? hget)
    have hlt := hshort u hget
    have hlen := hunit.length_le
    exact findSub_eq_none_of_prefix (findSub_append hunit rest.flatten) hdrop (by omega)

end TiraRdp.Lib.Delimited
