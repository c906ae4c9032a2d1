import TiraRdp.Lib.Pieces
import TiraRdp.Lib.Word

/-!
# `StringHelper::Split` and `SplitWStr`

Model of `common/utility/include/string_utility.h:156-183` and `195-222`. The two functions are one
text over `std::string` and `std::wstring`: `splitLoop` is their loop, at any character type, and
each of them calls it.

* `find` is `src.find(separator, start)`; `none` is `npos`.
* The loop has a fuel: `none` when it has not ended after so many searches that found something.
* `result` is appended to, never cleared.

Results: from any `start` inside the source the loop appends the pieces of what is left of it,
without the empty ones if so asked (`splitLoop_pieces`), so both functions obey `SplitLaw`.
-/

namespace TiraRdp.StringHelper

open Lib Lib.Delimited

variable {charT : Type} [DecidableEq charT]

/-- `src.find(separator, start)`. -/
def find (src separator : List charT) (start : Nat) : Option Nat :=
  (findSub separator (src.drop start)).map (start + ·)

/-- What an iteration appends for the piece from `start` to `stop`. -/
def push (src : List charT) (removeEmpty : Bool) (start stop : Nat) (result : List (List charT)) :
    List (List charT) :=
  if !removeEmpty && stop == start then result ++ [[]]
  else if stop > start then result ++ [(src.drop start).take (stop - start)]
  else result

/-- The `while` loop and what follows it, from `start` and `stop`, the source's `end`. -/
def splitLoop (src separator : List charT) (removeEmpty : Bool) :
    Nat → Nat → Option Nat → List (List charT) → Option (List (List charT))
  | _, start, none, result =>
    some (if start < src.length then result ++ [src.drop start] else result)
  | 0, _, some _, _ => none
  | fuel + 1, start, some stop, result =>
    let result' := push src removeEmpty start stop result
    let start' := stop + separator.length
    if start' ≥ src.length then some (if !removeEmpty then result' ++ [[]] else result')
    else splitLoop src separator removeEmpty fuel start' (find src separator start') result'

/-- `StringHelper::Split`. -/
def Split (fuel : Nat) (src separator : Bytes) (result : List Bytes) (removeEmpty : Bool) :
    Option (List Bytes) :=
  splitLoop src separator removeEmpty fuel 0 (find src separator 0) result

/-- `StringHelper::SplitWStr`. -/
def SplitWStr {wchar_t : Type} [DecidableEq wchar_t] (fuel : Nat) (src separator : List wchar_t)
    (result : List (List wchar_t)) (removeEmpty : Bool) : Option (List (List wchar_t)) :=
  splitLoop src separator removeEmpty fuel 0 (find src separator 0) result

/-- The pieces that `removeEmpty` leaves. -/
def kept {charT : Type} (removeEmpty : Bool) (ps : List (List charT)) : List (List charT) :=
  ps.filter fun p => !(removeEmpty && p.isEmpty)

section Kept

variable {charT : Type} (src : List charT) (removeEmpty : Bool) (p : List charT) (ps : List (List charT))

@[simp] theorem kept_false : kept false ps = ps := by
  simp [kept]

theorem kept_true : kept true ps = ps.filter fun p => !p.isEmpty := rfl

theorem kept_cons : kept removeEmpty (p :: ps) = kept removeEmpty [p] ++ kept removeEmpty ps := by
  rw [kept, kept, kept, ← List.filter_append, List.singleton_append]

theorem kept_empty : kept removeEmpty [([] : List charT)] = if !removeEmpty then [[]] else [] := by
  cases removeEmpty <;> rfl

theorem kept_nonempty (hp : p ≠ []) : kept removeEmpty [p] = [p] := by
  rw [kept, List.filter_singleton, List.isEmpty_eq_false_iff.mpr hp, Bool.and_false, Bool.not_false,
    cond_true]

/-- An iteration appends its piece, unless that is empty and `removeEmpty`. -/
theorem push_piece {start n : Nat} (hn : start + n ≤ src.length) (result : List (List charT)) :
    push src removeEmpty start (start + n) result =
      result ++ kept removeEmpty [(src.drop start).take n] := by
  cases n with
  | zero =>
    rw [List.take_zero, kept_empty]
    cases removeEmpty <;> simp [push]
  | succ n =>
    have hne : (start + (n + 1) == start) = false := by simp
    have hgt : start + (n + 1) > start := by omega
    have hpiece : (src.drop start).take (n + 1) ≠ [] := by
      apply List.ne_nil_of_length_pos
      rw [List.length_take, List.length_drop]
      omega
    rw [push, hne, Bool.and_false, if_neg Bool.false_ne_true, if_pos hgt, Nat.add_sub_cancel_left,
      kept_nonempty _ _ hpiece]

end Kept

variable {src separator : List charT} {ps : List (List charT)}

theorem find_of_findSub {start n : Nat} (h : findSub separator (src.drop start) = some n) :
    find src separator start = some (start + n) := by
  rw [find, h, Option.map_some]

/-- **The loop** from a `start` inside the source appends the pieces of what is left of it. -/
theorem splitLoop_pieces (hsep : separator ≠ []) (removeEmpty : Bool) {rest : List charT}
    (hps : Pieces separator rest ps) :
    ∀ {fuel start : Nat} (result : List (List charT)), rest = src.drop start → start < src.length →
      src.length - start ≤ fuel →
      splitLoop src separator removeEmpty fuel start (find src separator start) result =
        some (result ++ kept removeEmpty ps) := by
  induction hps with
  | last hnone =>
    rintro fuel start result rfl hstart -
    have hfind : find src separator start = none := by rw [find, hnone, Option.map_none]
    have hrest : src.drop start ≠ [] := by
      rw [ne_eq, List.drop_eq_nil_iff]
      omega
    rw [hfind, kept_nonempty _ _ hrest]
    cases fuel <;> simp [splitLoop, hstart]
  | @next rest ps n hfound hpieces ih =>
    rintro fuel start result rfl hstart hfuel
    have hpos : 0 < separator.length := List.length_pos_of_ne_nil hsep
    have hlen := findSub_add_length_le hfound
    have hle := findSub_le hfound
    rw [List.length_drop] at hlen hle
    have hdrop : (src.drop start).drop (n + separator.length) =
        src.drop (start + n + separator.length) := by
      rw [List.drop_drop, Nat.add_assoc]
    cases fuel with
    | zero => omega
    | succ fuel =>
      rw [find_of_findSub hfound]
      unfold splitLoop
      dsimp only
      rw [push_piece _ _ (by omega), kept_cons _ _ ps, ← List.append_assoc]
      by_cases hend : start + n + separator.length ≥ src.length
      · -- the separator ends the source: one more piece, the empty one
        rw [if_pos hend]
        rw [hdrop, List.drop_of_length_le hend] at hpieces
        have hlast : Pieces separator [] [([] : List charT)] := .last (by simp [findSub, hsep])
        obtain rfl := hpieces.unique hlast
        rw [kept_empty]
        cases removeEmpty <;> simp
      · rw [if_neg hend]
        exact ih _ hdrop (by omega) (by omega)

/-- **Splitting** a source that is not empty appends its pieces, or those of them that are not
empty; the empty source has none. -/
theorem split_spec (hsep : separator ≠ []) (hps : Pieces separator src ps) (removeEmpty : Bool)
    (result : List (List charT)) :
    splitLoop src separator removeEmpty src.length 0 (find src separator 0) result =
      some (result ++ if src = [] then [] else kept removeEmpty ps) := by
  by_cases hsrc : src = []
  · subst hsrc
    have hfind : find [] separator 0 = none := by simp [find, findSub, hsep]
    rw [hfind, if_pos rfl]
    simp [splitLoop]
  · rw [if_neg hsrc]
    have hpos : 0 < src.length := List.length_pos_of_ne_nil hsrc
    exact splitLoop_pieces hsep removeEmpty hps result (List.drop_zero).symm hpos (Nat.sub_le _ _)

/-- What a function that splits does, for every source and every separator that is not empty: it
ends; without `removeEmpty` it appends the pieces of a source that is not empty, which joined give
it back; with `removeEmpty` it appends those of the same pieces that are not empty. -/
def SplitLaw (split : Nat → List charT → List charT → List (List charT) → Bool →
    Option (List (List charT))) : Prop :=
  ∀ src separator : List charT, separator ≠ [] → ∃ fuel ps,
    (src ≠ [] → Pieces separator src ps ∧ separator.intercalate ps = src) ∧
      ∀ result, split fuel src separator result false = some (result ++ ps) ∧
        split fuel src separator result true = some (result ++ ps.filter fun p => !p.isEmpty)

theorem splitLaw : SplitLaw fun fuel (src separator : List charT) result removeEmpty =>
    splitLoop src separator removeEmpty fuel 0 (find src separator 0) result := by
  intro src separator hsep
  obtain ⟨ps, hps⟩ := exists_pieces hsep src
  by_cases hsrc : src = []
  · refine ⟨src.length, [], fun h => absurd hsrc h, ?_⟩
    intro result
    dsimp only
    rw [split_spec hsep hps, split_spec hsep hps, if_pos hsrc, if_pos hsrc]
    exact ⟨rfl, rfl⟩
  · refine ⟨src.length, ps, fun _ => ⟨hps, hps.intercalate⟩, ?_⟩
    intro result
    dsimp only
    rw [split_spec hsep hps, split_spec hsep hps, if_neg hsrc, if_neg hsrc, kept_false, kept_true]
    exact ⟨rfl, rfl⟩

/-- **`Split` and `SplitWStr`** split at the leftmost occurrences of the separator. -/
theorem Split_SplitWStr_law (wchar_t : Type) [DecidableEq wchar_t] :
    SplitLaw Split ∧ SplitLaw (@SplitWStr wchar_t _) :=
  ⟨splitLaw, splitLaw⟩

/-- Pieces before the first separator, between two, and behind the last. -/
example : Split 4 (ascii ",a,,b,") (ascii ",") [] false =
    some [[], ascii "a", [], ascii "b", []] := by decide

end TiraRdp.StringHelper
