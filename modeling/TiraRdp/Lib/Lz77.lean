import Mathlib.Algebra.Order.Ring.Int
import Mathlib.Data.List.Basic
import Mathlib.Tactic.Common

/-!
# Text that refers back to itself

What an LZ77 decoder makes of its tokens: a literal is a new element, a copy repeats what stands
some distance back (`copyBack`; it may run into what it is writing), and a raw run is taken as it is.
A text goes on from a history, so that a copy may reach into what was decoded before.

Results: a copy is fixed by the elements it is equal to (`copyBack_eq_iff`), a copy that goes by
whole blocks is the same as one that goes by elements (`copyBack_near`, `repeats_append`), and what
no copy reaches plays no part in it (`expandAll_append_left`).
-/

namespace TiraRdp.Lib.Lz77

variable {α : Type}

/-- `h` and `n` elements more, each equal to the one `d` places before it. -/
def copyBack (d : Nat) (h : List α) : Nat → List α
  | 0 => h
  | n + 1 => copyBack d (h ++ (h[h.length - d]?).toList) n

inductive Token (α : Type)
  | literal (a : α)
  | copy (distance count : Nat)
  | raw (run : List α)
  deriving Repr, DecidableEq

def Token.expand (h : List α) : Token α → List α
  | literal a => h ++ [a]
  | copy distance count => copyBack distance h count
  | raw run => h ++ run

/-- The history after the tokens. -/
def expandAll (h : List α) (ts : List (Token α)) : List α := ts.foldl Token.expand h

/-- How many elements a token adds. -/
def Token.size : Token α → Nat
  | literal _ => 1
  | copy _ count => count
  | raw run => run.length

/-- A copy reaches back at least one element and at most `window`. -/
def Token.Within (window : Nat) : Token α → Prop
  | copy distance _ => 1 ≤ distance ∧ distance ≤ window
  | _ => True

instance (window : Nat) : (t : Token α) → Decidable (t.Within window)
  | .copy distance _ => inferInstanceAs (Decidable (1 ≤ distance ∧ distance ≤ window))
  | .literal _ | .raw _ => .isTrue trivial

/-- From `start` on, each element of `xs` is equal to the one `d` places before it. -/
def Repeats (d start : Nat) (xs : List α) : Prop :=
  ∀ i, start ≤ i → i < xs.length → xs[i]? = xs[i - d]?

variable {d n : Nat} {h xs : List α}

theorem copyBack_succ (hd : 1 ≤ d) (hdh : d ≤ h.length) :
    ∃ a, h[h.length - d]? = some a ∧ copyBack d h (n + 1) = copyBack d (h ++ [a]) n := by
  have hlt : h.length - d < h.length := by omega
  refine ⟨h[h.length - d], List.getElem?_eq_getElem hlt, ?_⟩
  rw [copyBack, List.getElem?_eq_getElem hlt, Option.toList_some]

theorem copyBack_length (hd : 1 ≤ d) (hdh : d ≤ h.length) :
    (copyBack d h n).length = h.length + n := by
  induction n generalizing h with
  | zero => rfl
  | succ n ih =>
    obtain ⟨a, -, hcopy⟩ := copyBack_succ (n := n) hd hdh
    rw [hcopy, ih (by rw [List.length_append]; omega), List.length_append, List.length_singleton]
    omega

theorem copyBack_prefix (hd : 1 ≤ d) (hdh : d ≤ h.length) : h <+: copyBack d h n := by
  induction n generalizing h with
  | zero => exact List.prefix_refl h
  | succ n ih =>
    obtain ⟨a, -, hcopy⟩ := copyBack_succ (n := n) hd hdh
    rw [hcopy]
    exact (List.prefix_append h [a]).trans (ih (by rw [List.length_append]; omega))

theorem copyBack_repeats (hd : 1 ≤ d) (hdh : d ≤ h.length) :
    Repeats d h.length (copyBack d h n) := by
  induction n generalizing h with
  | zero =>
    intro i hi hlt
    exact absurd hlt (Nat.not_lt.mpr hi)
  | succ n ih =>
    obtain ⟨a, ha, hcopy⟩ := copyBack_succ (n := n) hd hdh
    have hlen : (h ++ [a]).length = h.length + 1 := by simp
    have hle : d ≤ (h ++ [a]).length := by omega
    rw [hcopy]
    intro i hi hlt
    rcases Nat.lt_or_ge h.length i with hnext | hfirst
    · exact ih hle i (by omega) hlt
    · obtain rfl : i = h.length := by omega
      obtain ⟨rest, hrest⟩ := copyBack_prefix (n := n) hd hle
      have hback : (h ++ ([a] ++ rest))[h.length - d]? = some a := by
        rw [List.getElem?_append_left (by omega), ha]
      rw [← hrest, List.append_assoc, hback, List.getElem?_append_right (Nat.le_refl _),
        Nat.sub_self]
      rfl

/-- Two lists that go on from `h` and repeat themselves alike are the same. -/
theorem Repeats.unique {xs ys : List α} (hd : 1 ≤ d) (hdh : d ≤ h.length)
    (hxs : Repeats d h.length (h ++ xs)) (hys : Repeats d h.length (h ++ ys))
    (hlen : xs.length = ys.length) : xs = ys := by
  have hboth : ∀ i : Nat, i < h.length + xs.length → (h ++ xs)[i]? = (h ++ ys)[i]? := by
    intro i
    induction i using Nat.strongRecOn with
    | ind i ih =>
      intro hi
      rcases Nat.lt_or_ge i h.length with hold | hnew
      · rw [List.getElem?_append_left hold, List.getElem?_append_left hold]
      · rw [hxs i hnew (by rw [List.length_append]; omega),
          hys i hnew (by rw [List.length_append]; omega)]
        exact ih (i - d) (by omega) (by omega)
  have hall : h ++ xs = h ++ ys := by
    apply List.ext_getElem?
    intro i
    rcases Nat.lt_or_ge i (h.length + xs.length) with hi | hi
    · exact hboth i hi
    · rw [List.getElem?_eq_none (by rw [List.length_append]; omega),
        List.getElem?_eq_none (by rw [List.length_append]; omega)]
  exact List.append_cancel_left hall

/-- **A copy is fixed** by its length and by what its elements are equal to. -/
theorem copyBack_eq_iff (hd : 1 ≤ d) (hdh : d ≤ h.length) :
    copyBack d h n = h ++ xs ↔ xs.length = n ∧ Repeats d h.length (h ++ xs) := by
  have hrepeats := copyBack_repeats (n := n) hd hdh
  have hlength := copyBack_length (n := n) hd hdh
  constructor
  · intro hcopy
    rw [hcopy] at hrepeats hlength
    rw [List.length_append] at hlength
    exact ⟨by omega, hrepeats⟩
  · rintro ⟨hlen, hxs⟩
    obtain ⟨ys, hys⟩ := copyBack_prefix (n := n) hd hdh
    rw [← hys] at hrepeats hlength ⊢
    rw [List.length_append] at hlength
    rw [hrepeats.unique hd hdh hxs (by omega)]

/-- A copy of no more than its distance is a piece of the history. -/
theorem copyBack_near (hd : 1 ≤ d) (hdh : d ≤ h.length) (hn : n ≤ d) :
    copyBack d h n = h ++ (h.drop (h.length - d)).take n := by
  have hlen : ((h.drop (h.length - d)).take n).length = n := by
    rw [List.length_take, List.length_drop]
    omega
  rw [copyBack_eq_iff hd hdh]
  refine ⟨hlen, fun i hi hlt => ?_⟩
  rw [List.length_append, hlen] at hlt
  rw [List.getElem?_append_right hi, List.getElem?_append_left (by omega),
    List.getElem?_take_of_lt (by omega), List.getElem?_drop]
  congr 1
  omega

/-- What has been written, put once more behind itself: the text goes on repeating itself, when a
whole number of distances has been written. -/
theorem repeats_append {k m : Nat} (hk : 1 ≤ k) (hd : 1 ≤ d) (hdh : d ≤ h.length)
    (hlen : xs.length = k * d) (hm : m ≤ xs.length) (hxs : Repeats d h.length (h ++ xs)) :
    Repeats d h.length (h ++ (xs ++ xs.take m)) := by
  have htake : (xs.take m).length = m := List.length_take_of_le hm
  have hpos : d ≤ xs.length := by
    rw [hlen]
    exact Nat.le_mul_of_pos_left d hk
  intro i hi hlt
  rw [List.length_append, List.length_append, htake] at hlt
  rw [← List.append_assoc]
  rcases Nat.lt_or_ge i (h.length + xs.length) with hold | hnew
  · have hin : i < (h ++ xs).length := by rw [List.length_append]; omega
    have hback : i - d < (h ++ xs).length := Nat.lt_of_le_of_lt (Nat.sub_le i d) hin
    rw [List.getElem?_append_left hin, List.getElem?_append_left hback]
    exact hxs i hi hin
  · -- `xs` has period `d`, so that its last `d` elements are its first
    have hperiod : ∀ j c : Nat, j + c * d < xs.length → xs[j + c * d]? = xs[j]? := by
      intro j c
      induction c with
      | zero => intro _; rw [Nat.zero_mul, Nat.add_zero]
      | succ c ih =>
        intro hj
        rw [Nat.succ_mul] at hj ⊢
        have hstep := hxs (h.length + (j + (c * d + d))) (by omega)
          (by rw [List.length_append]; omega)
        rw [List.getElem?_append_right (by omega), List.getElem?_append_right (by omega)] at hstep
        have hleft : h.length + (j + (c * d + d)) - h.length = j + (c * d + d) := by omega
        have hright : h.length + (j + (c * d + d)) - d - h.length = j + c * d := by omega
        rw [hleft, hright] at hstep
        rw [hstep, ih (by omega)]
    obtain ⟨j, rfl⟩ : ∃ j, i = h.length + xs.length + j := ⟨i - (h.length + xs.length), by omega⟩
    have hnow : ((h ++ xs) ++ xs.take m)[h.length + xs.length + j]? = xs[j]? := by
      rw [List.getElem?_append_right (by rw [List.length_append]; omega), List.length_append,
        Nat.add_sub_cancel_left, List.getElem?_take_of_lt (by omega)]
    rw [hnow]
    rcases Nat.lt_or_ge j d with hnear | hfar
    · rw [List.getElem?_append_left (by rw [List.length_append]; omega),
        List.getElem?_append_right (by omega)]
      obtain ⟨c, rfl⟩ : ∃ c, k = c + 1 := ⟨k - 1, by omega⟩
      rw [Nat.succ_mul] at hlen
      have hindex : h.length + xs.length + j - d - h.length = j + c * d := by omega
      rw [hindex, hperiod j c (by omega)]
    · rw [List.getElem?_append_right (by rw [List.length_append]; omega), List.length_append]
      have hindex : h.length + xs.length + j - d - (h.length + xs.length) = j - d := by omega
      rw [hindex, List.getElem?_take_of_lt (by omega)]
      have hback := hperiod (j - d) 1 (by omega)
      rw [Nat.one_mul, Nat.sub_add_cancel hfar] at hback
      exact hback

theorem Token.expand_length {window : Nat} {t : Token α} (ht : t.Within window)
    (hwindow : window ≤ h.length) : (t.expand h).length = h.length + t.size := by
  cases t with
  | literal a => simp [Token.expand, Token.size]
  | copy distance count => exact copyBack_length ht.1 (Nat.le_trans ht.2 hwindow)
  | raw run => simp [Token.expand, Token.size]

theorem expandAll_cons (t : Token α) (ts : List (Token α)) :
    expandAll h (t :: ts) = expandAll (t.expand h) ts := rfl

theorem expandAll_append (ts us : List (Token α)) :
    expandAll h (ts ++ us) = expandAll (expandAll h ts) us := List.foldl_append

theorem expandAll_length {window : Nat} {ts : List (Token α)} (hts : ∀ t ∈ ts, t.Within window)
    (hwindow : window ≤ h.length) :
    (expandAll h ts).length = h.length + (ts.map Token.size).sum := by
  induction ts generalizing h with
  | nil => simp [expandAll]
  | cons t ts ih =>
    have hlen := Token.expand_length (hts t List.mem_cons_self) hwindow
    rw [expandAll_cons, ih (fun u hu => hts u (List.mem_cons_of_mem t hu)) (by omega), hlen,
      List.map_cons, List.sum_cons]
    omega

theorem expandAll_literals (xs : List α) : expandAll h (xs.map .literal) = h ++ xs := by
  induction xs generalizing h with
  | nil => exact (List.append_nil h).symm
  | cons x xs ih =>
    rw [List.map_cons, expandAll_cons, ih, Token.expand, List.append_assoc, List.singleton_append]

/-- A copy that reaches back into `h` only. -/
theorem copyBack_append_left (x : List α) (hd : 1 ≤ d) (hdh : d ≤ h.length) :
    copyBack d (x ++ h) n = x ++ copyBack d h n := by
  obtain ⟨xs, hxs⟩ := copyBack_prefix (n := n) hd hdh
  obtain ⟨hlen, hrepeats⟩ := (copyBack_eq_iff hd hdh).mp hxs.symm
  have hdxh : d ≤ (x ++ h).length := by rw [List.length_append]; omega
  rw [← hxs, ← List.append_assoc, copyBack_eq_iff hd hdxh]
  refine ⟨hlen, fun i hi hlt => ?_⟩
  rw [List.length_append] at hi
  obtain ⟨j, rfl⟩ : ∃ j, i = x.length + j := ⟨i - x.length, by omega⟩
  have hback : x.length + j - d = x.length + (j - d) := by omega
  rw [List.length_append, List.length_append] at hlt
  rw [List.append_assoc, hback, List.getElem?_append_right (Nat.le_add_right _ _),
    List.getElem?_append_right (Nat.le_add_right _ _), Nat.add_sub_cancel_left,
    Nat.add_sub_cancel_left]
  exact hrepeats j (by omega) (by rw [List.length_append]; omega)

/-- What stands in front of the window plays no part. -/
theorem expandAll_append_left {window : Nat} (x : List α) {ts : List (Token α)}
    (hts : ∀ t ∈ ts, t.Within window) (hwindow : window ≤ h.length) :
    expandAll (x ++ h) ts = x ++ expandAll h ts := by
  induction ts generalizing h with
  | nil => rfl
  | cons t ts ih =>
    have ht := hts t List.mem_cons_self
    have hlen := Token.expand_length ht hwindow
    have hfirst : t.expand (x ++ h) = x ++ t.expand h := by
      cases t with
      | literal a => exact List.append_assoc x h [a]
      | copy distance count => exact copyBack_append_left x ht.1 (Nat.le_trans ht.2 hwindow)
      | raw run => exact List.append_assoc x h run
    rw [expandAll_cons, expandAll_cons, hfirst]
    exact ih (fun u hu => hts u (List.mem_cons_of_mem t hu)) (by omega)

end TiraRdp.Lib.Lz77
