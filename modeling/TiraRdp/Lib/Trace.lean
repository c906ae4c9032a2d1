import Mathlib.Data.List.DropRight
import Mathlib.Tactic.Common

/-!
# The order of events in a trace

A trace is a list of events, the first one first. `before a` is what a trace holds in front of its
first `a`, `after a` what it holds behind its last `a`; both are the whole trace where there is
none. `Follows a b` says that some `b` stands behind some `a`.

The lemmas say what each becomes when the trace grows by one event at its end, for proofs by
`List.reverseRecOn`.
-/

namespace TiraRdp.Lib.Trace

variable {α : Type}

def Follows (a b : α) (l : List α) : Prop := List.Sublist [a, b] l

theorem follows_concat {a b c : α} {l : List α} :
    Follows a b (l ++ [c]) ↔ Follows a b l ∨ a ∈ l ∧ c = b := by
  unfold Follows
  constructor
  · intro h
    obtain ⟨r₁, r₂, heq, h₁, h₂⟩ := List.sublist_append_iff.mp h
    rcases List.append_eq_cons_iff.mp heq.symm with ⟨rfl, rfl⟩ | ⟨t, rfl, ht⟩
    · have hlen := h₂.length_le
      simp at hlen
    · rcases List.append_eq_cons_iff.mp ht.symm with ⟨rfl, rfl⟩ | ⟨u, rfl, hu⟩
      · refine Or.inr ⟨List.singleton_sublist.mp h₁, ?_⟩
        exact (List.mem_singleton.mp (List.singleton_sublist.mp h₂)).symm
      · obtain ⟨rfl, rfl⟩ := List.append_eq_nil_iff.mp hu.symm
        exact Or.inl h₁
  · rintro (h | ⟨ha, rfl⟩)
    · exact h.trans (List.sublist_append_left l [c])
    · exact (List.singleton_sublist.mpr ha).append (List.Sublist.refl [c])

variable [DecidableEq α]

instance (a b : α) (l : List α) : Decidable (Follows a b l) :=
  inferInstanceAs (Decidable (List.Sublist [a, b] l))

def before (a : α) (l : List α) : List α := l.takeWhile (· != a)

def after (a : α) (l : List α) : List α := l.rtakeWhile (· != a)

theorem before_concat_of_mem {a : α} {l : List α} (h : a ∈ l) (b : α) :
    before a (l ++ [b]) = before a l := by
  induction l with
  | nil => exact absurd h List.not_mem_nil
  | cons c cs ih =>
    unfold before
    rw [List.cons_append, List.takeWhile_cons, List.takeWhile_cons]
    by_cases hca : c = a
    · subst hca
      simp
    · have hmem : a ∈ cs := (List.mem_cons.mp h).resolve_left (Ne.symm hca)
      rw [if_pos (by simpa using hca), if_pos (by simpa using hca)]
      exact congrArg (c :: ·) (ih hmem)

theorem before_concat_self {a : α} {l : List α} (h : a ∉ l) : before a (l ++ [a]) = l := by
  induction l with
  | nil => simp [before]
  | cons c cs ih =>
    unfold before
    have hca : c ≠ a := fun hca => h (hca ▸ List.mem_cons_self)
    rw [List.cons_append, List.takeWhile_cons, if_pos (by simpa using hca)]
    exact congrArg (c :: ·) (ih fun hmem => h (List.mem_cons_of_mem c hmem))

theorem after_concat_self (a : α) (l : List α) : after a (l ++ [a]) = [] := by
  simp [after]

theorem after_concat_of_ne {a b : α} (l : List α) (h : b ≠ a) :
    after a (l ++ [b]) = after a l ++ [b] := by
  simp [after, h]

end TiraRdp.Lib.Trace
