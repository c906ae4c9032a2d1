import Mathlib.Data.List.Basic
import Mathlib.Tactic.Common

/-!
# `while` loops

`run cond body n s` is `while (cond) body` from `s`, cut off after `n` iterations: `none` when the
loop has not ended by then, and otherwise how it ended, with a state or with what its body threw.

`run_total` is the rule for total correctness: an invariant that the body keeps without throwing,
and a variant that it decreases, give an end of the loop within `variant` iterations. `run_result`
is the rule for a body that may throw (`run_ends` its end alone), and `run_stuck` says what an
iteration without effect does. `Iterates` relates the first state of a loop to those it comes
through.

`upTo` is a counted `for`, with its invariant rule. `loop` and `doWhile` are `while` and `do …
while` around a body that may itself not end: `none` when this loop or one inside it has not ended
after `n` iterations. `loop_total`, `doWhile_total` and `doWhile_count` are their rules for total
correctness, `loop_never` and `doWhile_never` those for a loop whose condition stays true, and
`loop_iterate` says that a loop that ends comes through every state that the iterations lead to
while the condition holds.
-/

namespace TiraRdp.Lib.Loop

variable {σ ε : Type}

/-- `while (cond) body`, at most `n` iterations. -/
def run (cond : σ → Bool) (body : σ → Except ε σ) : Nat → σ → Option (Except ε σ)
  | 0, s => if cond s then none else some (.ok s)
  | n + 1, s =>
    if cond s then
      match body s with
      | .error e => some (.error e)
      | .ok t => run cond body n t
    else some (.ok s)

variable {cond : σ → Bool} {body : σ → Except ε σ}

theorem run_of_not_cond {s : σ} (h : cond s = false) : ∀ n, run cond body n s = some (.ok s)
  | 0 => by simp [run, h]
  | _ + 1 => by simp [run, h]

/-- **Total correctness.** The invariant `Inv` and the variant `v` end the loop, without a throw,
in a state of the invariant whose condition is false. -/
theorem run_total {Inv : σ → Prop} {v : σ → Nat}
    (hbody : ∀ s, Inv s → cond s = true → ∃ t, body s = .ok t ∧ Inv t ∧ v t < v s) :
    ∀ n s, Inv s → v s ≤ n → ∃ t, run cond body n s = some (.ok t) ∧ Inv t ∧ cond t = false := by
  intro n
  induction n with
  | zero =>
    intro s hs hv
    cases hc : cond s with
    | false => exact ⟨s, run_of_not_cond hc 0, hs, hc⟩
    | true =>
      obtain ⟨t, -, -, hlt⟩ := hbody s hs hc
      omega
  | succ n ih =>
    intro s hs hv
    cases hc : cond s with
    | false => exact ⟨s, run_of_not_cond hc _, hs, hc⟩
    | true =>
      obtain ⟨t, hb, ht, hlt⟩ := hbody s hs hc
      obtain ⟨u, hu, hinv, hcu⟩ := ih t ht (by omega)
      exact ⟨u, by simp [run, hc, hb, hu], hinv, hcu⟩

/-- **How a loop ends** whose body may throw: an invariant of its rounds and a variant that
decreases wherever the body does not throw. -/
theorem run_result {Inv : σ → Prop} {v : σ → Nat}
    (hbody : ∀ s t, Inv s → cond s = true → body s = .ok t → Inv t ∧ v t < v s) :
    ∀ n s, Inv s → v s < n →
      (∃ t, run cond body n s = some (.ok t) ∧ Inv t ∧ cond t = false) ∨
      ∃ e t, run cond body n s = some (.error e) ∧ Inv t ∧ cond t = true ∧ body t = .error e := by
  intro n
  induction n with
  | zero => exact fun s _ hv => absurd hv (Nat.not_lt_zero _)
  | succ n ih =>
    intro s hs hv
    cases hc : cond s with
    | false => exact Or.inl ⟨s, run_of_not_cond hc _, hs, hc⟩
    | true =>
      unfold run
      rw [if_pos hc]
      rcases hb : body s with e | t
      · exact Or.inr ⟨e, s, rfl, hs, hc, hb⟩
      · obtain ⟨ht, hlt⟩ := hbody s t hs hc hb
        exact ih t ht (by omega)

/-- **Termination.** A variant that the body decreases wherever it does not throw ends the loop. -/
theorem run_ends {Inv : σ → Prop} {v : σ → Nat}
    (hbody : ∀ s t, Inv s → cond s = true → body s = .ok t → Inv t ∧ v t < v s) :
    ∀ n s, Inv s → v s < n → ∃ result, run cond body n s = some result := by
  intro n s hs hv
  rcases run_result hbody n s hs hv with ⟨t, hrun, -⟩ | ⟨e, t, hrun, -⟩
  · exact ⟨_, hrun⟩
  · exact ⟨_, hrun⟩

/-- An iteration without effect is repeated for ever. -/
theorem run_stuck {s : σ} (hc : cond s = true) (hb : body s = .ok s) :
    ∀ n, run cond body n s = none := by
  intro n
  induction n with
  | zero => simp [run, hc]
  | succ n ih =>
    unfold run
    rw [if_pos hc, hb]
    exact ih

/-- `t` is a state that the loop from `s` comes through. -/
inductive Iterates (cond : σ → Bool) (body : σ → Except ε σ) (s : σ) : σ → Prop
  | refl : Iterates cond body s s
  | next {t u : σ} (ht : Iterates cond body s t) (hc : cond t = true) (hb : body t = .ok u) :
      Iterates cond body s u

/-- What the body keeps holds of every state that the loop comes through. -/
theorem Iterates.invariant {Inv : σ → Prop}
    (hbody : ∀ s t, Inv s → cond s = true → body s = .ok t → Inv t) {s t : σ} (hs : Inv s)
    (h : Iterates cond body s t) : Inv t := by
  induction h with
  | refl => exact hs
  | next _ hc hb ih => exact hbody _ _ ih hc hb

/-! ## Counted loops -/

/-- `for (i = 0; i < n; i++) body`. -/
def upTo (body : Nat → σ → σ) : Nat → σ → σ
  | 0, s => s
  | n + 1, s => body n (upTo body n s)

theorem upTo_invariant (body : Nat → σ → σ) (Inv : Nat → σ → Prop) {n : Nat} {s : σ} (h0 : Inv 0 s)
    (hbody : ∀ i s, i < n → Inv i s → Inv (i + 1) (body i s)) : Inv n (upTo body n s) := by
  induction n with
  | zero => exact h0
  | succ n ih =>
    have hbefore : Inv n (upTo body n s) := ih fun i s hi => hbody i s (Nat.lt_succ_of_lt hi)
    exact hbody n _ (Nat.lt_succ_self n) hbefore

/-- A counted loop whose body could throw, but does not where the invariant holds. -/
theorem upTo_ok (body : σ → Except ε σ) (Inv : Nat → σ → Prop) {n : Nat} {s : σ} (h0 : Inv 0 s)
    (hbody : ∀ i s, i < n → Inv i s → ∃ t, body s = .ok t ∧ Inv (i + 1) t) :
    ∃ t, upTo (fun _ result => result >>= body) n (.ok s) = .ok t ∧ Inv n t := by
  refine upTo_invariant _ (fun i (result : Except ε σ) => ∃ t, result = .ok t ∧ Inv i t) ⟨s, rfl, h0⟩ ?_
  rintro i result hi ⟨t, rfl, ht⟩
  exact hbody i t hi ht

/-! ## Loops around loops -/

/-- `while (cond) body`, at most `n` iterations; the body answers `none` when it does not end. -/
def loop (cond : σ → Bool) (body : σ → Option σ) : Nat → σ → Option σ
  | 0, s => if cond s then none else some s
  | n + 1, s => if cond s then (body s).bind (loop cond body n) else some s

/-- `do body while (again)`. -/
def doWhile (body : σ → Option σ) (again : σ → Bool) : Nat → σ → Option σ
  | 0, _ => none
  | n + 1, s => (body s).bind fun t => if again t then doWhile body again n t else some t

section Nested

variable {cond : σ → Bool} {body : σ → Option σ}

theorem loop_of_not_cond {s : σ} (h : cond s = false) : ∀ n, loop cond body n s = some s
  | 0 => by simp [loop, h]
  | _ + 1 => by simp [loop, h]

theorem loop_succ {s : σ} (h : cond s = true) (n : Nat) :
    loop cond body (n + 1) s = (body s).bind (loop cond body n) := by
  simp [loop, h]

/-- Total correctness of `loop`, as `run_total`. -/
theorem loop_total (cond : σ → Bool) (body : σ → Option σ) (Inv : σ → Prop) (v : σ → Nat)
    (hbody : ∀ s, Inv s → cond s = true → ∃ t, body s = some t ∧ Inv t ∧ v t < v s) :
    ∀ n s, Inv s → v s ≤ n → ∃ t, loop cond body n s = some t ∧ Inv t ∧ cond t = false := by
  intro n
  induction n with
  | zero =>
    intro s hs hv
    cases hc : cond s with
    | false => exact ⟨s, loop_of_not_cond hc 0, hs, hc⟩
    | true =>
      obtain ⟨t, -, -, hlt⟩ := hbody s hs hc
      omega
  | succ n ih =>
    intro s hs hv
    cases hc : cond s with
    | false => exact ⟨s, loop_of_not_cond hc _, hs, hc⟩
    | true =>
      obtain ⟨t, hb, ht, hlt⟩ := hbody s hs hc
      obtain ⟨u, hu, hinv, hcu⟩ := ih t ht (by omega)
      refine ⟨u, ?_, hinv, hcu⟩
      rw [loop_succ hc, hb]
      exact hu

/-- A loop whose condition stays true never ends. -/
theorem loop_never (Inv : σ → Prop)
    (hbody : ∀ s t, Inv s → body s = some t → Inv t) (hcond : ∀ s, Inv s → cond s = true) :
    ∀ n s, Inv s → loop cond body n s = none := by
  intro n
  induction n with
  | zero =>
    intro s hs
    simp [loop, hcond s hs]
  | succ n ih =>
    intro s hs
    rw [loop_succ (hcond s hs)]
    cases hb : body s with
    | none => rfl
    | some t => exact ih t (hbody s t hs hb)

/-- What the body keeps where the condition holds, the loop keeps, and it ends where that does
not. -/
theorem loop_result (Inv : σ → Prop)
    (hbody : ∀ s t, Inv s → cond s = true → body s = some t → Inv t) :
    ∀ n s t, Inv s → loop cond body n s = some t → Inv t ∧ cond t = false := by
  intro n
  induction n with
  | zero =>
    intro s t hs h
    cases hc : cond s with
    | true => simp [loop, hc] at h
    | false => exact Option.some.inj ((loop_of_not_cond hc 0).symm.trans h) ▸ ⟨hs, hc⟩
  | succ n ih =>
    intro s t hs h
    cases hc : cond s with
    | false => exact Option.some.inj ((loop_of_not_cond hc _).symm.trans h) ▸ ⟨hs, hc⟩
    | true =>
      rw [loop_succ hc] at h
      obtain ⟨u, hu, hrest⟩ := Option.bind_eq_some_iff.mp h
      exact ih u t (hbody s u hs hc hu) hrest

/-- What the body keeps, the loop keeps. -/
theorem loop_invariant (Inv : σ → Prop) (hbody : ∀ s t, Inv s → body s = some t → Inv t) :
    ∀ n s t, Inv s → loop cond body n s = some t → Inv t := fun n s t hs h =>
  (loop_result Inv (fun s t hs _ => hbody s t hs) n s t hs h).1

/-- A loop that ends comes through the states that its first iterations lead to. -/
theorem loop_iterate (body : σ → Option σ) {s : Nat → σ} {k n : Nat} {t : σ}
    (hcond : ∀ i, i < k → cond (s i) = true) (hbody : ∀ i, i < k → body (s i) = some (s (i + 1)))
    (h : loop cond body n (s 0) = some t) : ∃ m, loop cond body m (s k) = some t := by
  induction k with
  | zero => exact ⟨n, h⟩
  | succ k ih =>
    obtain ⟨m, hm⟩ := ih (fun i hi => hcond i (Nat.lt_succ_of_lt hi))
      fun i hi => hbody i (Nat.lt_succ_of_lt hi)
    have hc := hcond k (Nat.lt_succ_self k)
    cases m with
    | zero => simp [loop, hc] at hm
    | succ m =>
      rw [loop_succ hc, hbody k (Nat.lt_succ_self k)] at hm
      exact ⟨m, hm⟩

/-- Total correctness of `doWhile`: a round from `Inv` leads to `Post`, and where the loop goes
round again, back to `Inv` with less of `v`. -/
theorem doWhile_total (body : σ → Option σ) (again : σ → Bool) (Inv Post : σ → Prop) (v : σ → Nat)
    (hbody : ∀ s, Inv s → ∃ t, body s = some t ∧ Post t ∧ (again t = true → Inv t ∧ v t < v s)) :
    ∀ n s, Inv s → v s < n → ∃ t, doWhile body again n s = some t ∧ Post t ∧ again t = false := by
  intro n
  induction n with
  | zero => exact fun s _ hv => absurd hv (Nat.not_lt_zero _)
  | succ n ih =>
    intro s hs hv
    obtain ⟨t, hb, ht, hround⟩ := hbody s hs
    unfold doWhile
    rw [hb, Option.bind_some]
    cases hagain : again t with
    | false => exact ⟨t, rfl, ht, hagain⟩
    | true =>
      obtain ⟨hinv, hdown⟩ := hround hagain
      exact ih t hinv (by omega)

/-- A `do … while` that always goes round again never ends. -/
theorem doWhile_never (body : σ → Option σ) (again : σ → Bool) (Inv : σ → Prop)
    (hbody : ∀ s, Inv s → ∃ t, body s = some t ∧ Inv t ∧ again t = true) :
    ∀ n s, Inv s → doWhile body again n s = none := by
  intro n
  induction n with
  | zero => exact fun _ _ => rfl
  | succ n ih =>
    intro s hs
    obtain ⟨t, hb, ht, hagain⟩ := hbody s hs
    unfold doWhile
    rw [hb, Option.bind_some, if_pos hagain]
    exact ih t ht

/-- What every round leads to, a `do … while` that ends leads to. -/
theorem doWhile_post (body : σ → Option σ) (again : σ → Bool) (Post : σ → Prop)
    (hbody : ∀ s t, body s = some t → Post t) :
    ∀ n s t, doWhile body again n s = some t → Post t := by
  intro n
  induction n with
  | zero => exact fun _ _ h => nomatch h
  | succ n ih =>
    intro s t h
    obtain ⟨u, hu, hrest⟩ := Option.bind_eq_some_iff.mp h
    split_ifs at hrest with hagain
    · exact ih u t hrest
    · exact Option.some.inj hrest ▸ hbody s u hu

/-- A `do … while` that goes round `k` times. -/
theorem doWhile_count (body : σ → Option σ) (again : σ → Bool) (Inv : Nat → σ → Prop) {k : Nat}
    (hbody : ∀ i s, i < k → Inv i s →
      ∃ t, body s = some t ∧ Inv (i + 1) t ∧ again t = decide (i + 1 < k)) :
    ∀ i s n, i < k → k ≤ i + n → Inv i s → ∃ t, doWhile body again n s = some t ∧ Inv k t := by
  intro i s n
  induction n generalizing i s with
  | zero =>
    intro hi hn _
    omega
  | succ n ih =>
    intro hi hn hs
    obtain ⟨t, hb, ht, hagain⟩ := hbody i s hi hs
    unfold doWhile
    rw [hb, Option.bind_some, hagain]
    by_cases hlast : i + 1 < k
    · simp only [hlast, decide_true, if_true]
      exact ih (i + 1) t hlast (by omega) ht
    · have hk : i + 1 = k := by omega
      simp only [hlast, decide_false, Bool.false_eq_true, if_false]
      exact ⟨t, rfl, hk ▸ ht⟩

end Nested

end TiraRdp.Lib.Loop
