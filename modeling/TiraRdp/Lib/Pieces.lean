import TiraRdp.Lib.Delimited

/-!
# Strings cut at a separator

`Pieces sep s ps`: the leftmost occurrences of `sep` in `s`, none of them overlapping the one
before, leave the pieces `ps`. A string without an occurrence is one piece, also the empty string.

Results: every string has pieces (`exists_pieces`), and only these (`Pieces.unique`); joined with
the separator they are the string again (`Pieces.intercalate`).
-/

namespace TiraRdp.Lib.Delimited

variable {α : Type} [DecidableEq α] {sep s : List α} {ps qs : List (List α)}

inductive Pieces (sep : List α) : List α → List (List α) → Prop
  | last {s : List α} (hnone : findSub sep s = none) : Pieces sep s [s]
  | next {s : List α} {ps : List (List α)} {n : Nat} (hfound : findSub sep s = some n)
      (hrest : Pieces sep (s.drop (n + sep.length)) ps) : Pieces sep s (s.take n :: ps)

theorem Pieces.ne_nil (h : Pieces sep s ps) : ps ≠ [] := by
  cases h with
  | last _ => exact List.cons_ne_nil _ _
  | next _ _ => exact List.cons_ne_nil _ _

/-- Behind an occurrence of a separator that is not empty there is less left. -/
theorem length_drop_lt {n : Nat} (hsep : sep ≠ []) (h : findSub sep s = some n) :
    (s.drop (n + sep.length)).length < s.length := by
  have hpos : 0 < sep.length := List.length_pos_of_ne_nil hsep
  have hlen := findSub_add_length_le h
  rw [List.length_drop]
  omega

theorem exists_pieces (hsep : sep ≠ []) (s : List α) : ∃ ps, Pieces sep s ps := by
  induction hlen : s.length using Nat.strong_induction_on generalizing s with
  | _ len ih =>
    cases hfind : findSub sep s with
    | none => exact ⟨_, .last hfind⟩
    | some n =>
      obtain ⟨ps, hps⟩ := ih _ (hlen ▸ length_drop_lt hsep hfind) _ rfl
      exact ⟨_, .next hfind hps⟩

theorem Pieces.unique (h : Pieces sep s ps) (h' : Pieces sep s qs) : ps = qs := by
  induction h generalizing qs with
  | last hnone =>
    cases h' with
    | last _ => rfl
    | next hfound _ => exact nomatch hnone.symm.trans hfound
  | next hfound _ ih =>
    cases h' with
    | last hnone => exact nomatch hnone.symm.trans hfound
    | next hfound' hrest' =>
      obtain rfl := Option.some.inj (hfound.symm.trans hfound')
      rw [ih hrest']

/-- A string is what stands before an occurrence, the pattern, and what stands behind. -/
theorem take_append_drop_of_findSub {n : Nat} (h : findSub sep s = some n) :
    s.take n ++ sep ++ s.drop (n + sep.length) = s := by
  obtain ⟨t, ht⟩ := prefix_drop_of_findSub h
  have hdrop : s.drop (n + sep.length) = t := by
    rw [← List.drop_drop, ← ht, List.drop_left]
  rw [hdrop, List.append_assoc, ht, List.take_append_drop]

/-- **Joined with the separator, the pieces are the string.** -/
theorem Pieces.intercalate (h : Pieces sep s ps) : sep.intercalate ps = s := by
  induction h with
  | last _ => exact List.intercalate_singleton
  | next hfound hrest ih =>
    rw [List.intercalate_cons_of_ne_nil hrest.ne_nil, ih]
    exact take_append_drop_of_findSub hfound

end TiraRdp.Lib.Delimited
