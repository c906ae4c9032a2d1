import Mathlib.Data.Finset.Card
import Mathlib.Logic.Relation
import Mathlib.Tactic.Common

/-!
# Mutexes, and who waits for whom

`Held m P` ties a mutex to the phases of the parties that use it: `m` names the one party that is in
a phase under the mutex, or nobody. `waits a b` says that party `a` cannot go on before party `b`
has done something; a deadlock is a cycle of that relation.

`AtLeast n P` counts the parties in a phase without asking how many parties there are.

Results: what taking and releasing a mutex, and a step that does neither, do to `Held`
(`Held.acquire`, `Held.release`, `Held.keep`); what a party that comes, goes or takes the place of
another does to `AtLeast`; there is no deadlock when every party ranks above the one it waits for
(`not_deadlock_of_rank`).
-/

namespace TiraRdp.Lib.Locks

open Relation

variable {π : Type}

section Mutex

variable {m : Option π} {P Q : π → Prop} {p q : π}

/-- The parties under the mutex are those that `m` names. -/
def Held (m : Option π) (P : π → Prop) : Prop := ∀ p, m = some p ↔ P p

theorem Held.holder (h : Held m P) (hp : P p) : m = some p := (h p).mpr hp

theorem Held.unique (h : Held m P) (hp : P p) (hq : P q) : p = q :=
  Option.some.inj ((h.holder hp).symm.trans (h.holder hq))

/-- A step after which the same parties are under the mutex. -/
theorem Held.keep (h : Held m P) (hPQ : ∀ q, Q q ↔ P q) : Held m Q := by
  intro q
  rw [hPQ q]
  exact h q

/-- `p` takes a free mutex. -/
theorem Held.acquire (h : Held none P) (hp : Q p) (hother : ∀ q, q ≠ p → Q q → P q) :
    Held (some p) Q := by
  intro q
  constructor
  · intro hq
    exact Option.some.inj hq ▸ hp
  · intro hq
    by_contra hne
    have hPq : P q := hother q (fun heq => hne (heq ▸ rfl)) hq
    cases h.holder hPq

/-- `p` lets the mutex go. -/
theorem Held.release (h : Held m P) (hp : P p) (hp' : ¬ Q p) (hother : ∀ q, q ≠ p → Q q → P q) :
    Held none Q := by
  intro q
  constructor
  · nofun
  · intro hq
    have hne : q ≠ p := fun heq => hp' (heq ▸ hq)
    exact absurd (h.unique (hother q hne hq) hp) hne

end Mutex

section Count

variable [DecidableEq π] {P Q : π → Prop} {p q : π} {n : Nat}

/-- There are `n` parties in a phase of `P`. -/
def AtLeast (n : Nat) (P : π → Prop) : Prop :=
  ∃ parties : Finset π, (∀ p ∈ parties, P p) ∧ n ≤ parties.card

omit [DecidableEq π] in
theorem AtLeast.zero : AtLeast 0 P := ⟨∅, by simp, Nat.zero_le _⟩

omit [DecidableEq π] in
theorem AtLeast.mono (h : AtLeast n P) (hPQ : ∀ p, P p → Q p) : AtLeast n Q := by
  obtain ⟨parties, hparties, hcard⟩ := h
  exact ⟨parties, fun p hp => hPQ p (hparties p hp), hcard⟩

omit [DecidableEq π] in
theorem AtLeast.exists (h : AtLeast n P) (hn : 0 < n) : ∃ p, P p := by
  obtain ⟨parties, hparties, hcard⟩ := h
  obtain ⟨p, hp⟩ := Finset.card_pos.mp (Nat.lt_of_lt_of_le hn hcard)
  exact ⟨p, hparties p hp⟩

/-- `p` comes in. -/
theorem AtLeast.enter (h : AtLeast n P) (hp : ¬ P p) (hp' : Q p) (hother : ∀ q, q ≠ p → P q → Q q) :
    AtLeast (n + 1) Q := by
  obtain ⟨parties, hparties, hcard⟩ := h
  have hnot : p ∉ parties := fun hmem => hp (hparties p hmem)
  refine ⟨insert p parties, ?_, ?_⟩
  · intro q hq
    rcases Finset.mem_insert.mp hq with rfl | hmem
    · exact hp'
    · exact hother q (fun heq => hnot (heq ▸ hmem)) (hparties q hmem)
  · rw [Finset.card_insert_of_notMem hnot]
    omega

/-- `p` goes. -/
theorem AtLeast.leave (h : AtLeast n P) (hother : ∀ q, q ≠ p → P q → Q q) : AtLeast (n - 1) Q := by
  obtain ⟨parties, hparties, hcard⟩ := h
  refine ⟨parties.erase p, ?_, ?_⟩
  · intro q hq
    obtain ⟨hne, hmem⟩ := Finset.mem_erase.mp hq
    exact hother q hne (hparties q hmem)
  · have hle := Finset.pred_card_le_card_erase (s := parties) (a := p)
    omega

/-- `q` takes the place of `p`. -/
theorem AtLeast.swap (h : AtLeast n P) (hq : ¬ P q) (hq' : Q q)
    (hother : ∀ r, r ≠ p → P r → Q r) : AtLeast n Q := by
  cases n with
  | zero => exact .zero
  | succ n =>
    have hleave : AtLeast n fun r => P r ∧ r ≠ p := h.leave fun r hne hr => ⟨hr, hne⟩
    exact hleave.enter (fun hpq => hq hpq.1) hq' fun r _ hr => hother r hr.2 hr.1

end Count

section Deadlock

variable {waits : π → π → Prop}

/-- Some party waits, through the others, for itself. -/
def Deadlock (waits : π → π → Prop) : Prop := ∃ a, TransGen waits a a

theorem Deadlock.of_two {a b : π} (hab : waits a b) (hba : waits b a) : Deadlock waits :=
  ⟨a, .tail (.single hab) hba⟩

theorem Deadlock.of_three {a b c : π} (hab : waits a b) (hbc : waits b c) (hca : waits c a) :
    Deadlock waits :=
  ⟨a, .tail (.tail (.single hab) hbc) hca⟩

/-- **Ranks exclude deadlock**: along a wait the rank goes down. -/
theorem not_deadlock_of_rank {rank : π → Nat} (h : ∀ a b, waits a b → rank b < rank a) :
    ¬ Deadlock waits := by
  rintro ⟨a, hcycle⟩
  have hdown : TransGen (· > ·) (rank a) (rank a) := hcycle.lift rank h
  rw [transGen_eq_self] at hdown
  exact Nat.lt_irrefl _ hdown

end Deadlock

end TiraRdp.Lib.Locks
