import Mathlib.Data.List.Infix
import TiraRdp.Lib.IntType

/-!
# `Trimmean`

Model of `common/utility/include/Trimmean.h`: a window of the last values and its trimmed mean, for
an element type `T`. `size_t`, the type of `m_List.size()`, is unsigned with `size_t` bits: 32 in
the Win32 build of the project files, 64 elsewhere.

* The sum of the `for` loop is kept in `T`, so each step of it promotes, adds and converts back.
* `none` is an undefined result: a sum or a difference that leaves a signed type. A `push` on an
  empty list, undefined too, does not occur, since a window has at least one element.
* `total` and `Extremes` say what the numbers in a window are; `dividend` and `divisor` are what
  `GetMean` divides.

Results: the window is the last of the initial values and what was pushed (`m_List_pushes`);
`GetMean` is the converted quotient, or undefined where an intermediate result overflows
(`GetMean_of_defined`, `GetMean_of_overflow`); when it is the mean (`meanLaw_iff`).
-/

namespace TiraRdp

open Lib

structure Trimmean (T : IntType) where
  m_List : List T.Val

namespace Trimmean

variable {T : IntType}

/-- `Trimmean(size, val)`. -/
def new (size : Nat) (val : T.Val) : Trimmean T := ⟨List.replicate size val⟩

def Push (t : Trimmean T) (val : T.Val) : Trimmean T := ⟨t.m_List.tail ++ [val]⟩

/-- `sum += val`. -/
def add (sum val : T.Val) : Option T.Val := (T.arith (sum.1 + val.1)).map T.conv

/-- The scan of `std::max_element` and `std::min_element`: `moves` says whether the value it comes
to takes the place of the one it has. -/
def element (moves : T.Val → T.Val → Bool) (best : T.Val) : List T.Val → T.Val
  | [] => best
  | val :: rest => element moves (if moves best val then val else best) rest

/-- `*std::max_element` of `first` and what follows it. -/
def maxElement (first : T.Val) (rest : List T.Val) : T.Val :=
  element (fun largest val => largest.1 < val.1) first rest

/-- `*std::min_element`. -/
def minElement (first : T.Val) (rest : List T.Val) : T.Val :=
  element (fun smallest val => val.1 < smallest.1) first rest

def GetMean (size_t : Nat) (t : Trimmean T) : Option T.Val :=
  match t.m_List with
  | [] => some (T.conv 0)
  | first :: rest => do
    let size := rest.length + 1
    let sum ← (first :: rest).foldlM add (T.conv 0)
    if size ≤ 2 then
      return T.conv (T.quotient size_t sum.1 size)
    let maxVal := maxElement first rest
    let minVal := minElement first rest
    let trimmed ← T.arith (sum.1 - maxVal.1)
    let trimmed ← T.arith (trimmed - minVal.1)
    return T.conv (T.quotient size_t trimmed (size - 2))

/-! ## The window -/

/-- What was pushed, on a window of `n` values. -/
def window (n : Nat) (val : T.Val) (pushes : List T.Val) : List T.Val :=
  (List.replicate n val ++ pushes).drop pushes.length

theorem window_length (n : Nat) (val : T.Val) (pushes : List T.Val) :
    (window n val pushes).length = n := by
  rw [window, List.length_drop, List.length_append, List.length_replicate, Nat.add_sub_cancel]

/-- **The window** holds the last `n` of the initial values and what was pushed. -/
theorem m_List_pushes {n : Nat} (hn : 1 ≤ n) (val : T.Val) (pushes : List T.Val) :
    (pushes.foldl Push (new n val)).m_List = window n val pushes := by
  induction pushes using List.reverseRecOn with
  | nil => rw [window, List.append_nil, List.length_nil, List.drop_zero]; rfl
  | append_singleton pushes x ih =>
    have hlen : pushes.length + 1 ≤ (List.replicate n val ++ pushes).length := by
      rw [List.length_append, List.length_replicate]
      omega
    rw [List.foldl_append, List.foldl_cons, List.foldl_nil, Push, ih, window, window,
      List.length_append, List.length_singleton, ← List.append_assoc,
      List.drop_append_of_le_length hlen, List.tail_drop]

/-! ## Sums and extremes -/

/-- The sum of the numbers in a list. -/
def total (vals : List T.Val) : Int := (vals.map Subtype.val).sum

@[simp] theorem total_nil : total ([] : List T.Val) = 0 := rfl

@[simp] theorem total_cons (x : T.Val) (vals : List T.Val) :
    total (x :: vals) = x.1 + total vals := rfl

/-- The least and the greatest number in a list. -/
structure Extremes (vals : List T.Val) (low high : Int) : Prop where
  low_mem : ∃ x ∈ vals, x.1 = low
  high_mem : ∃ x ∈ vals, x.1 = high
  between : ∀ x ∈ vals, low ≤ x.1 ∧ x.1 ≤ high

/-- The scan finds an element of the list, with the greatest key. -/
theorem element_spec {moves : T.Val → T.Val → Bool} {key : T.Val → Int}
    (hmoves : ∀ x y, moves x y = true ↔ key x < key y) (rest : List T.Val) : ∀ best : T.Val,
    element moves best rest ∈ best :: rest ∧
      ∀ x ∈ best :: rest, key x ≤ key (element moves best rest) := by
  induction rest with
  | nil =>
    intro best
    refine ⟨List.mem_cons_self, ?_⟩
    intro x hx
    obtain rfl := List.mem_singleton.mp hx
    exact Int.le_refl _
  | cons val rest ih =>
    intro best
    rw [element]
    by_cases h : moves best val = true
    · obtain ⟨hmem, hmax⟩ := ih val
      rw [if_pos h]
      refine ⟨List.mem_cons_of_mem _ hmem, ?_⟩
      intro x hx
      rcases List.mem_cons.mp hx with rfl | hx
      · exact Int.le_trans (Int.le_of_lt ((hmoves _ _).mp h)) (hmax val List.mem_cons_self)
      · exact hmax x hx
    · obtain ⟨hmem, hmax⟩ := ih best
      have hle : key val ≤ key best := Int.not_lt.mp fun hlt => h ((hmoves _ _).mpr hlt)
      rw [if_neg h]
      constructor
      · rcases List.mem_cons.mp hmem with heq | hmem
        · rw [heq]
          exact List.mem_cons_self
        · exact List.mem_cons_of_mem _ (List.mem_cons_of_mem _ hmem)
      · intro x hx
        rcases List.mem_cons.mp hx with rfl | hx
        · exact hmax x List.mem_cons_self
        · rcases List.mem_cons.mp hx with rfl | hx
          · exact Int.le_trans hle (hmax best List.mem_cons_self)
          · exact hmax x (List.mem_cons_of_mem _ hx)

variable {first : T.Val} {rest vals : List T.Val} {low high : Int}

theorem maxElement_spec (first : T.Val) (rest : List T.Val) :
    maxElement first rest ∈ first :: rest ∧
    ∀ x ∈ first :: rest, x.1 ≤ (maxElement first rest).1 := by
  have hmoves (x y : T.Val) : decide (x.1 < y.1) = true ↔ x.1 < y.1 := decide_eq_true_iff
  exact element_spec hmoves rest first

theorem minElement_spec (first : T.Val) (rest : List T.Val) :
    minElement first rest ∈ first :: rest ∧
    ∀ x ∈ first :: rest, (minElement first rest).1 ≤ x.1 := by
  have hmoves (x y : T.Val) : decide (y.1 < x.1) = true ↔ -x.1 < -y.1 := by
    rw [decide_eq_true_iff, Int.neg_lt_neg_iff]
  obtain ⟨hmem, hmin⟩ := element_spec hmoves rest first
  exact ⟨hmem, fun x hx => Int.neg_le_neg_iff.mp (hmin x hx)⟩

theorem exists_extremes (hvals : vals ≠ []) : ∃ low high, Extremes vals low high := by
  cases vals with
  | nil => exact absurd rfl hvals
  | cons first rest =>
    obtain ⟨hmin, hlow⟩ := minElement_spec first rest
    obtain ⟨hmax, hhigh⟩ := maxElement_spec first rest
    exact ⟨_, _, ⟨_, hmin, rfl⟩, ⟨_, hmax, rfl⟩, fun x hx => ⟨hlow x hx, hhigh x hx⟩⟩

theorem maxElement_eq (h : Extremes (first :: rest) low high) :
    (maxElement first rest).1 = high := by
  obtain ⟨hmem, hmax⟩ := maxElement_spec first rest
  obtain ⟨x, hx, rfl⟩ := h.high_mem
  exact Int.le_antisymm (h.between _ hmem).2 (hmax x hx)

theorem minElement_eq (h : Extremes (first :: rest) low high) :
    (minElement first rest).1 = low := by
  obtain ⟨hmem, hmin⟩ := minElement_spec first rest
  obtain ⟨x, hx, rfl⟩ := h.low_mem
  exact Int.le_antisymm (hmin x hx) (h.between _ hmem).1

/-- A sum is between multiples of bounds. -/
theorem total_between (h : ∀ x ∈ vals, low ≤ x.1 ∧ x.1 ≤ high) :
    vals.length * low ≤ total vals ∧ total vals ≤ vals.length * high := by
  induction vals with
  | nil => simp
  | cons x vals ih =>
    obtain ⟨hlow, hhigh⟩ := h x List.mem_cons_self
    obtain ⟨ihlow, ihhigh⟩ := ih fun y hy => h y (List.mem_cons_of_mem x hy)
    rw [total_cons, List.length_cons, Int.natCast_succ, Int.add_mul, Int.add_mul]
    omega

/-- So is the sum of the others, for any one element. -/
theorem total_sub_between {x : T.Val} (h : ∀ x ∈ vals, low ≤ x.1 ∧ x.1 ≤ high) (hx : x ∈ vals) :
    (vals.length - 1) * low ≤ total vals - x.1 ∧ total vals - x.1 ≤ (vals.length - 1) * high := by
  induction vals with
  | nil => exact absurd hx List.not_mem_nil
  | cons y vals ih =>
    have htail : ∀ x ∈ vals, low ≤ x.1 ∧ x.1 ≤ high := fun z hz => h z (List.mem_cons_of_mem y hz)
    rw [total_cons, List.length_cons, Int.natCast_succ, Int.add_sub_cancel]
    rcases List.mem_cons.mp hx with rfl | hx
    · have hall := total_between htail
      omega
    · obtain ⟨hlow, hhigh⟩ := h y List.mem_cons_self
      obtain ⟨ihlow, ihhigh⟩ := ih htail hx
      rw [Int.sub_mul] at ihlow ihhigh
      omega

/-- What `GetMean` divides: the sum, from three elements on without a greatest and a least one. -/
def dividend (vals : List T.Val) (low high : Int) : Int :=
  if vals.length ≤ 2 then total vals else total vals - high - low

/-- The number of elements that it is the sum of. -/
def divisor (vals : List T.Val) : Nat := if vals.length ≤ 2 then vals.length else vals.length - 2

theorem divisor_pos (hvals : vals ≠ []) : 0 < divisor vals := by
  have hpos := List.length_pos_of_ne_nil hvals
  unfold divisor
  split <;> omega

/-- The dividend is the sum of so many numbers between the extremes. -/
theorem dividend_between (h : Extremes vals low high) :
    divisor vals * low ≤ dividend vals low high ∧ dividend vals low high ≤ divisor vals * high := by
  unfold divisor dividend
  by_cases hlen : vals.length ≤ 2
  · rw [if_pos hlen, if_pos hlen]
    exact total_between h.between
  · rw [if_neg hlen, if_neg hlen]
    obtain ⟨x, hx, rfl⟩ := h.low_mem
    obtain ⟨y, hy, rfl⟩ := h.high_mem
    have hwithoutLow := (total_sub_between h.between hx).2
    have hwithoutHigh := (total_sub_between h.between hy).1
    have hcast : ((vals.length - 2 : Nat) : Int) = vals.length - 2 := by omega
    rw [hcast, Int.sub_mul, Int.sub_mul]
    rw [Int.sub_mul] at hwithoutLow hwithoutHigh
    omega

/-- The mean is between the extremes. -/
theorem mean_between (h : Extremes vals low high) :
    low ≤ (dividend vals low high).tdiv (divisor vals) ∧
      (dividend vals low high).tdiv (divisor vals) ≤ high := by
  obtain ⟨x, hx, -⟩ := h.low_mem
  obtain ⟨hlow, hhigh⟩ := dividend_between h
  exact IntType.tdiv_between (divisor_pos (List.ne_nil_of_mem hx)) hlow hhigh

/-! ## What `GetMean` computes -/

/-- The intermediate sums and differences are defined: where the type has a sign and is not narrower
than `int`, they are in its range. -/
def Defined (vals : List T.Val) (low high : Int) : Prop :=
  T.signed = true → 32 ≤ T.width → (∀ p ∈ vals.inits, T.Has (total p)) ∧
    (2 < vals.length → T.Has (total vals - high) ∧ T.Has (total vals - high - low))

instance (vals : List T.Val) (low high : Int) : Decidable (Defined vals low high) :=
  inferInstanceAs (Decidable (_ → _ → _))

/-- A type whose sums are always defined: narrower than `int`, or without a sign. -/
def NeverUndefined (T : IntType) : Prop := T.width < 32 ∨ T.signed = false

/-- There a step of the sum only wraps. -/
theorem add_of_neverUndefined (hT : NeverUndefined T) (sum val : T.Val) :
    add sum val = some (T.conv (sum.1 + val.1)) := by
  rcases Nat.lt_or_ge T.width 32 with hnarrow | hwide
  · have hsum := IntType.Has.of_narrow hnarrow sum.2
    have hval := IntType.Has.of_narrow hnarrow val.2
    have hint : T.promoted.Has (sum.1 + val.1) := by
      rw [IntType.promoted_of_narrow hnarrow, IntType.int_has]
      omega
    rw [add, IntType.arith_of_has hint, Option.map_some]
  · have hs : T.signed = false := hT.resolve_left (Nat.not_lt.mpr hwide)
    rw [add, IntType.arith_of_unsigned hs hwide, Option.map_some]
    exact congrArg some (Subtype.ext (T.wrap_wrap _))

theorem sum_of_neverUndefined (hT : NeverUndefined T) (vals : List T.Val) : ∀ sum : T.Val,
    vals.foldlM add sum = some (T.conv (sum.1 + total vals)) := by
  induction vals with
  | nil =>
    intro sum
    have hsum : T.conv sum.1 = sum := Subtype.ext (IntType.wrap_of_has sum.2)
    rw [total_nil, Int.add_zero, hsum]
    rfl
  | cons val vals ih =>
    intro sum
    rw [List.foldlM_cons, add_of_neverUndefined hT, Option.bind_eq_bind, Option.bind_some, ih,
      total_cons, ← Int.add_assoc]
    exact congrArg some (Subtype.ext (T.wrap_wrap_add _ _))

/-- Elsewhere the sum is undefined as soon as one of its steps leaves the type. -/
theorem sum_of_signed (hs : T.signed = true) (hT : 32 ≤ T.width) (vals : List T.Val) :
    ∀ sum : T.Val, vals.foldlM add sum = if ∀ p ∈ vals.inits, T.Has (sum.1 + total p) then
      some (T.conv (sum.1 + total vals)) else none := by
  induction vals with
  | nil =>
    intro sum
    have hsum : T.conv sum.1 = sum := Subtype.ext (IntType.wrap_of_has sum.2)
    have hall : ∀ p ∈ [([] : List T.Val)], T.Has (sum.1 + total p) := by
      intro p hp
      obtain rfl := List.mem_singleton.mp hp
      rw [total_nil, Int.add_zero]
      exact sum.2
    rw [List.inits, if_pos hall, total_nil, Int.add_zero, hsum]
    rfl
  | cons val vals ih =>
    intro sum
    have hinits : (∀ p ∈ (val :: vals).inits, T.Has (sum.1 + total p)) ↔
        ∀ p ∈ vals.inits, T.Has (sum.1 + val.1 + total p) := by
      rw [List.inits_cons, List.forall_mem_cons, List.forall_mem_map, total_nil, Int.add_zero]
      simp only [total_cons, Int.add_assoc, sum.2, true_and]
    rw [List.foldlM_cons]
    by_cases hstep : T.Has (sum.1 + val.1)
    · have hadd : add sum val = some (T.conv (sum.1 + val.1)) := by
        rw [add, IntType.arith_of_has hstep.promoted, Option.map_some]
      have hval : (T.conv (sum.1 + val.1)).1 = sum.1 + val.1 := IntType.conv_of_has hstep
      rw [hadd, Option.bind_eq_bind, Option.bind_some, ih, hval]
      simp only [hinits, total_cons, Int.add_assoc]
    · have hadd : add sum val = none := by
        rw [add, IntType.arith_of_not_has hs hT hstep, Option.map_none]
      have hbad : ¬ ∀ p ∈ vals.inits, T.Has (sum.1 + val.1 + total p) := by
        intro h
        have hnil := h [] ((List.mem_inits _ _).mpr List.nil_prefix)
        rw [total_nil, Int.add_zero] at hnil
        exact hstep hnil
      rw [hadd, if_neg (hinits.not.mpr hbad)]
      rfl

section Means

variable {size_t : Nat}

theorem Extremes.has (h : Extremes vals low high) : T.Has low ∧ T.Has high := by
  obtain ⟨x, -, rfl⟩ := h.low_mem
  obtain ⟨y, -, rfl⟩ := h.high_mem
  exact ⟨x.2, y.2⟩

/-- A sum in range whose steps are defined is the sum of the list. -/
theorem sum_eq (hsum : T.Has (total vals)) (hdef : Defined vals low high) :
    ∃ sum, vals.foldlM add (T.conv 0) = some sum ∧ sum.1 = total vals := by
  have hzero : (T.conv 0).1 = 0 := IntType.conv_of_has T.has_zero
  refine ⟨T.conv ((T.conv 0).1 + total vals), ?_, ?_⟩
  · by_cases hT : NeverUndefined T
    · exact sum_of_neverUndefined hT vals _
    · obtain ⟨hwide, hs⟩ := not_or.mp hT
      rw [Bool.not_eq_false] at hs
      have hinits := (hdef hs (Nat.le_of_not_lt hwide)).1
      rw [sum_of_signed hs (Nat.le_of_not_lt hwide), if_pos]
      intro p hp
      rw [hzero, Int.zero_add]
      exact hinits p hp
  · rw [hzero, Int.zero_add]
    exact IntType.conv_of_has hsum

/-- What is left of the sum without its extremes is in range, and so is the step before. -/
theorem differences (h : Extremes vals low high) (hsum : T.Has (total vals))
    (hdef : Defined vals low high) (hlen : 2 < vals.length) :
    T.promoted.Has (total vals - high) ∧ T.promoted.Has (total vals - high - low) := by
  obtain ⟨hlow, hhigh⟩ := h.has
  rcases Nat.lt_or_ge T.width 32 with hT | hT
  · have hs := IntType.Has.of_narrow hT hsum
    have hl := IntType.Has.of_narrow hT hlow
    have hh := IntType.Has.of_narrow hT hhigh
    rw [IntType.promoted_of_narrow hT, IntType.int_has, IntType.int_has]
    omega
  · rw [IntType.promoted_of_wide hT]
    cases hs : T.signed with
    | true => exact (hdef hs hT).2 hlen
    | false =>
      rw [IntType.has_of_unsigned hs] at hsum hlow hhigh ⊢
      rw [IntType.has_of_unsigned hs]
      -- without a sign, what is left is a sum of numbers that are not negative
      have hrest := (dividend_between h).1
      have hnonneg : 0 ≤ (divisor vals : Int) * low := Int.mul_nonneg (Int.natCast_nonneg _) hlow.1
      rw [dividend, if_neg (Nat.not_le.mpr hlen)] at hrest
      omega

/-- **`GetMean`** where its intermediate results are defined. -/
theorem GetMean_of_defined (h : Extremes vals low high) (hsum : T.Has (total vals))
    (hdef : Defined vals low high) : GetMean size_t ⟨vals⟩ =
      some (T.conv (T.quotient size_t (dividend vals low high) (divisor vals))) := by
  obtain ⟨sum, hfold, htotal⟩ := sum_eq hsum hdef
  cases vals with
  | nil =>
    obtain ⟨x, hx, -⟩ := h.low_mem
    exact absurd hx List.not_mem_nil
  | cons first rest =>
    unfold GetMean dividend divisor
    rw [List.length_cons]
    dsimp only
    rw [hfold, Option.bind_eq_bind, Option.bind_some]
    by_cases hlen : rest.length + 1 ≤ 2
    · simp only [if_pos hlen, htotal, Option.pure_def]
    · have hdiff := differences h hsum hdef (Nat.lt_of_not_le hlen)
      simp only [if_neg hlen, htotal, maxElement_eq h, minElement_eq h, Option.pure_def,
        IntType.arith_of_has hdiff.1, IntType.arith_of_has hdiff.2, Option.bind_eq_bind,
        Option.bind_some]

/-- Where one of them overflows a signed type, the result is undefined. -/
theorem GetMean_of_overflow (h : Extremes vals low high) (hsum : T.Has (total vals))
    (hdef : ¬ Defined vals low high) : GetMean size_t ⟨vals⟩ = none := by
  unfold Defined at hdef
  push Not at hdef
  obtain ⟨hs, hT, hbad⟩ := hdef
  have hzero : (T.conv 0).1 = 0 := IntType.conv_of_has T.has_zero
  have hfold := sum_of_signed hs hT vals (T.conv 0)
  simp only [hzero, Int.zero_add] at hfold
  cases vals with
  | nil =>
    obtain ⟨x, hx, -⟩ := h.low_mem
    exact absurd hx List.not_mem_nil
  | cons first rest =>
    unfold GetMean
    dsimp only
    rw [hfold]
    by_cases hinits : ∀ p ∈ (first :: rest).inits, T.Has (total p)
    · obtain ⟨hlen, hdiff⟩ := hbad hinits
      rw [List.length_cons] at hlen
      rw [if_pos hinits, Option.bind_eq_bind, Option.bind_some]
      simp only [if_neg (Nat.not_le.mpr hlen), IntType.conv_of_has hsum, maxElement_eq h,
        minElement_eq h]
      by_cases hfirst : T.Has (total (first :: rest) - high)
      · rw [IntType.arith_of_has hfirst.promoted, Option.bind_eq_bind, Option.bind_some,
          IntType.arith_of_not_has hs hT (hdiff hfirst)]
        rfl
      · rw [IntType.arith_of_not_has hs hT hfirst]
        rfl
    · rw [if_neg hinits]
      rfl

/-! ## The mean -/

/-- `GetMean` lies between the extremes, and from three elements on it is the truncated mean of the
others. -/
def MeanLaw (size_t : Nat) (vals : List T.Val) (low high : Int) : Prop :=
  ∃ mean, GetMean size_t ⟨vals⟩ = some mean ∧ low ≤ mean.1 ∧ mean.1 ≤ high ∧
    (3 ≤ vals.length → mean.1 = (total vals - high - low).tdiv ((vals.length - 2 : Nat) : Int))

/-- The division gives the mean: the dividend is not negative, or it keeps its sign, or the quotient
that the lost sign makes too large is the mean all the same when it is converted back. -/
def Divides (size_t : Nat) (vals : List T.Val) (low high : Int) : Prop :=
  0 ≤ dividend vals low high ∨ T.DividesSigned size_t ∨
    if vals.length = 2 then
      T.width < T.bits size_t ∨ 2 ^ (T.bits size_t - 1) + dividend vals low high / 2 ≤ high
    else T.modulus ∣ IntType.excess (T.bits size_t) (divisor vals) (dividend vals low high)

instance (vals : List T.Val) (low high : Int) : Decidable (Divides size_t vals low high) :=
  inferInstanceAs (Decidable (_ ∨ _ ∨ _))

theorem dividend_has (h : Extremes vals low high) (hsum : T.Has (total vals))
    (hdef : Defined vals low high) : T.promoted.Has (dividend vals low high) := by
  unfold dividend
  by_cases hlen : vals.length ≤ 2
  · rw [if_pos hlen]
    exact hsum.promoted
  · rw [if_neg hlen]
    exact (differences h hsum hdef (Nat.lt_of_not_le hlen)).2

theorem has_of_between {n : Int} (h : Extremes vals low high) (hn : low ≤ n ∧ n ≤ high) :
    T.Has n := by
  obtain ⟨hlow, hhigh⟩ := h.has
  exact ⟨Int.le_trans hlow.1 hn.1, Int.lt_of_le_of_lt hn.2 hhigh.2⟩

/-- The law, of the result of the division. -/
theorem meanLaw_iff_quotient (h : Extremes vals low high) (hsum : T.Has (total vals))
    (hdef : Defined vals low high) {mean : Int}
    (hmean : T.wrap (T.quotient size_t (dividend vals low high) (divisor vals)) = mean) :
    MeanLaw size_t vals low high ↔ low ≤ mean ∧ mean ≤ high ∧
      (3 ≤ vals.length → mean = (dividend vals low high).tdiv (divisor vals)) := by
  have hvalue :
    (T.conv (T.quotient size_t (dividend vals low high) (divisor vals))).1 = mean := hmean
  unfold MeanLaw
  rw [GetMean_of_defined h hsum hdef]
  have htrim (hlen : 3 ≤ vals.length) : dividend vals low high = total vals - high - low ∧
      divisor vals = vals.length - 2 := by
    unfold dividend divisor
    rw [if_neg (by omega), if_neg (by omega)]
    exact ⟨rfl, rfl⟩
  constructor
  · rintro ⟨m, hm, hlow, hhigh, heq⟩
    obtain rfl := Option.some.inj hm
    rw [hvalue] at hlow hhigh heq
    refine ⟨hlow, hhigh, fun hlen => ?_⟩
    rw [(htrim hlen).1, (htrim hlen).2]
    exact heq hlen
  · rintro ⟨hlow, hhigh, heq⟩
    refine ⟨_, rfl, hvalue ▸ hlow, hvalue ▸ hhigh, fun hlen => ?_⟩
    rw [hvalue, heq hlen, (htrim hlen).1, (htrim hlen).2]

/-- A division that truncates gives the mean. -/
theorem meanLaw_of_tdiv (h : Extremes vals low high) (hsum : T.Has (total vals))
    (hdef : Defined vals low high)
    (hquot : T.quotient size_t (dividend vals low high) (divisor vals) =
      (dividend vals low high).tdiv (divisor vals)) : MeanLaw size_t vals low high := by
  have hmean := mean_between h
  rw [meanLaw_iff_quotient h hsum hdef (by rw [hquot, IntType.wrap_of_has (has_of_between h hmean)])]
  exact ⟨hmean.1, hmean.2, fun _ => rfl⟩

/-- Two elements with a negative sum, divided as unsigned. -/
theorem meanLaw_two (h : Extremes vals low high) (hsum : T.Has (total vals))
    (hdef : Defined vals low high) (hlen : vals.length = 2) (hneg : dividend vals low high < 0)
    (hquot : T.quotient size_t (dividend vals low high) (divisor vals) =
      2 ^ (T.bits size_t - 1) + dividend vals low high / 2) :
    MeanLaw size_t vals low high ↔ T.width < T.bits size_t ∨
      2 ^ (T.bits size_t - 1) + dividend vals low high / 2 ≤ high := by
  have hbetween := dividend_between h
  have hdivisor : divisor vals = 2 := by rw [divisor, hlen]; rfl
  have hdividend : dividend vals low high = total vals := by rw [dividend, hlen]; rfl
  rw [hdivisor] at hbetween
  rcases Nat.lt_or_eq_of_le (T.width_le_bits size_t) with hlt | heq
  · -- the modulus divides what the lost sign has added
    have hwrap : T.wrap (2 ^ (T.bits size_t - 1) + dividend vals low high / 2) =
        dividend vals low high / 2 := by
      conv_rhs =>
        rw [← IntType.wrap_of_has (has_of_between h (n := dividend vals low high / 2) (by omega))]
      rw [IntType.wrap_eq_iff, Int.add_sub_cancel]
      exact T.modulus_dvd (Nat.le_sub_one_of_lt hlt)
    rw [meanLaw_iff_quotient h hsum hdef (by rw [hquot, hwrap])]
    exact ⟨fun _ => Or.inl hlt, fun _ => ⟨by omega, by omega, fun _ => by omega⟩⟩
  · -- the quotient is positive
    have hlo := IntType.lo_of_neg (hdividend ▸ hneg) hsum
    have hrange := hsum.1
    have hmod := T.modulus_eq
    rw [heq] at hlo hmod
    have hwrap : T.wrap (2 ^ (T.bits size_t - 1) + dividend vals low high / 2) =
        2 ^ (T.bits size_t - 1) + dividend vals low high / 2 := by
      apply IntType.wrap_of_has
      unfold IntType.Has
      omega
    rw [meanLaw_iff_quotient h hsum hdef (by rw [hquot, hwrap])]
    constructor
    · rintro ⟨-, hhigh, -⟩
      exact Or.inr hhigh
    · rintro (hlt | hhigh)
      · exact absurd heq (Nat.ne_of_lt hlt)
      · exact ⟨by omega, hhigh, fun _ => by omega⟩

/-- A negative dividend of one element, or of three and more, divided as unsigned. -/
theorem meanLaw_excess (h : Extremes vals low high) (hsum : T.Has (total vals))
    (hdef : Defined vals low high) (hlen : vals.length ≠ 2) (hneg : dividend vals low high < 0)
    (hquot : T.quotient size_t (dividend vals low high) (divisor vals) =
      dividend vals low high % 2 ^ T.bits size_t / divisor vals) :
    MeanLaw size_t vals low high ↔
      T.modulus ∣ IntType.excess (T.bits size_t) (divisor vals) (dividend vals low high) := by
  obtain ⟨x, hx, -⟩ := h.low_mem
  have hpos : 0 < divisor vals := divisor_pos (List.ne_nil_of_mem hx)
  have hmean := mean_between h
  have hrange := IntType.Has.bits (dividend_has h hsum hdef) size_t
  have hiff := IntType.wrap_eq_tdiv_iff hpos hneg hrange.1 (has_of_between h hmean)
  rw [← hquot] at hiff
  rw [meanLaw_iff_quotient h hsum hdef rfl, ← hiff]
  constructor
  · rintro ⟨-, -, heq⟩
    by_cases hthree : 3 ≤ vals.length
    · exact heq hthree
    · -- one element: the excess is a power of two
      have hone : divisor vals = 1 := by
        have hlength := List.length_pos_of_mem hx
        unfold divisor
        split <;> omega
      rw [hiff, hone, IntType.excess, Int.natCast_one, Int.emod_one, Int.emod_one,
        if_pos (Int.le_refl 0), Int.ediv_one]
      exact T.modulus_dvd (T.width_le_bits size_t)
  · intro heq
    exact ⟨heq ▸ hmean.1, heq ▸ hmean.2, fun _ => heq⟩

/-- **Where `GetMean` is the mean.** -/
theorem meanLaw_iff (h : Extremes vals low high) (hsum : T.Has (total vals)) :
    MeanLaw size_t vals low high ↔ Defined vals low high ∧ Divides size_t vals low high := by
  by_cases hdef : Defined vals low high
  · rw [and_iff_right hdef]
    have hrange := IntType.Has.bits (dividend_has h hsum hdef) size_t
    unfold Divides
    by_cases hnonneg : 0 ≤ dividend vals low high
    · have hquot := IntType.quotient_of_nonneg (d := divisor vals) hnonneg hrange.2
      exact ⟨fun _ => Or.inl hnonneg, fun _ => meanLaw_of_tdiv h hsum hdef hquot⟩
    · have hneg := Int.lt_of_not_ge hnonneg
      rw [or_iff_right hnonneg]
      by_cases hsigned : T.DividesSigned size_t
      · exact ⟨fun _ => Or.inl hsigned, fun _ => meanLaw_of_tdiv h hsum hdef (if_pos hsigned)⟩
      · rw [or_iff_right hsigned]
        have hquot : T.quotient size_t (dividend vals low high) (divisor vals) =
            dividend vals low high % 2 ^ T.bits size_t / divisor vals := if_neg hsigned
        by_cases hlen : vals.length = 2
        · rw [if_pos hlen]
          refine meanLaw_two h hsum hdef hlen hneg (hquot.trans ?_)
          have hdivisor : divisor vals = 2 := by rw [divisor, hlen]; rfl
          have hwrap : dividend vals low high % 2 ^ T.bits size_t =
              dividend vals low high + 2 ^ T.bits size_t := by
            rw [← Int.add_emod_right, Int.emod_eq_of_lt (by omega) (by omega)]
          have hbits := T.bits_eq size_t
          rw [hwrap, hdivisor]
          omega
        · rw [if_neg hlen]
          exact meanLaw_excess h hsum hdef hlen hneg hquot
  · refine ⟨?_, fun hboth => absurd hboth.1 hdef⟩
    rintro ⟨mean, hmean, -⟩
    exact nomatch (GetMean_of_overflow h hsum hdef).symm.trans hmean

/-- An element type without a sign has no exceptions. -/
theorem meanLaw_of_unsigned (hs : T.signed = false) (h : Extremes vals low high)
    (hsum : T.Has (total vals)) : MeanLaw size_t vals low high := by
  have hlow := (IntType.has_of_unsigned hs).mp h.has.1
  have hnonneg : 0 ≤ (divisor vals : Int) * low := Int.mul_nonneg (Int.natCast_nonneg _) hlow.1
  refine (meanLaw_iff h hsum).mpr ⟨fun hsigned => ?_, Or.inl ?_⟩
  · exact absurd (hs.symm.trans hsigned) Bool.false_ne_true
  · exact Int.le_trans hnonneg (dividend_between h).1

/-- **The window and the mean**, after any pushes on a window whose sum is in range. -/
theorem GetMean_pushes_iff (size_t : Nat) {n : Nat} (hn : 1 ≤ n) (val : T.Val) (pushes : List T.Val)
    (hsum : T.Has (total (window n val pushes))) :
    ((pushes.foldl Push (new n val)).m_List = window n val pushes ∧
      (pushes.foldl Push (new n val)).m_List.length = n) ∧
    ∃ low high, Extremes (window n val pushes) low high ∧
      (MeanLaw size_t (pushes.foldl Push (new n val)).m_List low high ↔
        Defined (window n val pushes) low high ∧
          Divides size_t (window n val pushes) low high) := by
  have hlist := m_List_pushes hn val pushes
  have hlen := window_length n val pushes
  rw [hlist]
  have hne : window n val pushes ≠ [] := by
    apply List.ne_nil_of_length_pos
    rw [hlen]
    exact hn
  obtain ⟨low, high, hext⟩ := exists_extremes hne
  exact ⟨⟨rfl, hlen⟩, low, high, hext, meanLaw_iff hext hsum⟩

/-- The mean of -2, 4, 6 and 8 is 5, whatever was pushed before. -/
theorem GetMean_pushes_iff_four :
    let pushes : List IntType.int.Val := [-700, -2, 4, 6, 8].map IntType.int.conv
    let t := pushes.foldl Push (new 4 (IntType.int.conv 0))
    GetMean 32 t = some (IntType.int.conv 5) ∧
      (t.m_List = window 4 (IntType.int.conv 0) pushes ∧ t.m_List.length = 4) ∧
      ∃ low high, Extremes (window 4 (IntType.int.conv 0) pushes) low high ∧
        (MeanLaw 32 t.m_List low high ↔ Defined (window 4 (IntType.int.conv 0) pushes) low high ∧
          Divides 32 (window 4 (IntType.int.conv 0) pushes) low high) :=
  ⟨by decide, GetMean_pushes_iff 32 (by decide) _ _ (by decide)⟩

/-- The mean of five elements that are -1 is 1431655764. -/
theorem mean_of_negatives_positive :
    ¬ ∀ (T : IntType) (size_t n : Nat) (val : T.Val) (pushes : List T.Val), 1 ≤ n →
      T.Has (total (window n val pushes)) → ∃ low high, Extremes (window n val pushes) low high ∧
        MeanLaw size_t (pushes.foldl Push (new n val)).m_List low high := by
  intro h
  let pushes : List IntType.int.Val := List.replicate 5 (IntType.int.conv (-1))
  obtain ⟨low, high, hext, mean, hmean, -, hhigh, -⟩ :=
    h IntType.int 32 5 (IntType.int.conv 0) pushes (by decide) (by decide)
  have hvalue : GetMean 32 (pushes.foldl Push (new 5 (IntType.int.conv 0))) =
      some (IntType.int.conv 1431655764) := by decide
  obtain rfl := Option.some.inj (hvalue.symm.trans hmean)
  -- every element of the window is -1
  have hall : ∀ x ∈ window 5 (IntType.int.conv 0) pushes, x.1 = -1 := by decide
  obtain ⟨x, hx, rfl⟩ := hext.high_mem
  rw [hall x hx] at hhigh
  exact absurd hhigh (by decide)

end Means

end Trimmean

end TiraRdp
