import TiraRdp.Lib.Delimited

/-!
# Searching a labelled text

A text of fields, each behind a label that ends with `mark` (`label:`). A search for `label ++
[mark]` looks at the text mark by mark: the characters between two marks, a *segment*, can only end
with the label or not. Where a segment does not end with it the search goes on behind the segment's
mark (`findSub_skip`); where it does, the label is found there (`findSub_label`). So a label is
found behind any lines that do not end like it (`findSub_lines`). A value is found up to its
terminator when it does not contain the terminator's first character (`findSub_terminator`).
-/

namespace TiraRdp.Lib.Delimited

variable {α : Type} [DecidableEq α] {mark : α} {label segment rest pat s : List α}

omit [DecidableEq α] in
/-- Up to the first mark, two strings with a common beginning are equal. -/
theorem eq_of_marks (hlabel : mark ∉ label) (hsegment : mark ∉ segment)
    (h : label ++ [mark] <+: segment ++ mark :: rest) : label = segment := by
  induction label generalizing segment with
  | nil =>
    cases segment with
    | nil => rfl
    | cons b segment =>
      obtain rfl : mark = b := (List.cons_prefix_cons.mp h).1
      exact absurd List.mem_cons_self hsegment
  | cons a label ih =>
    cases segment with
    | nil =>
      obtain rfl : a = mark := (List.cons_prefix_cons.mp h).1
      exact absurd List.mem_cons_self hlabel
    | cons b segment =>
      obtain ⟨rfl, htail⟩ := List.cons_prefix_cons.mp h
      rw [ih (List.not_mem_of_not_mem_cons hlabel) (List.not_mem_of_not_mem_cons hsegment) htail]

theorem findSub_of_prefix (h : pat <+: s) : findSub pat s = some 0 := by
  cases s with
  | nil => rw [findSub, if_pos (List.prefix_nil.mp h)]
  | cons a s => rw [findSub, if_pos (List.isPrefixOf_iff_prefix.mpr h)]

theorem findSub_cons {a : α} (h : ¬ pat <+: a :: s) :
    findSub pat (a :: s) = (findSub pat s).map (· + 1) := by
  rw [findSub, if_neg fun hp => h (List.isPrefixOf_iff_prefix.mp hp)]

/-- **A segment that does not end with the label** is passed over. -/
theorem findSub_skip (hlabel : mark ∉ label) (hsegment : mark ∉ segment)
    (hend : ¬ label <:+ segment) :
    findSub (label ++ [mark]) (segment ++ mark :: rest) =
      (findSub (label ++ [mark]) rest).map (· + (segment.length + 1)) := by
  have hfirst : ¬ label ++ [mark] <+: segment ++ mark :: rest := fun h =>
    hend (eq_of_marks hlabel hsegment h ▸ List.suffix_rfl)
  induction segment with
  | nil => exact findSub_cons hfirst
  | cons a segment ih =>
    have hsegment' := List.not_mem_of_not_mem_cons hsegment
    have hend' : ¬ label <:+ segment := fun h => hend (h.trans (List.suffix_cons a segment))
    have hnext : ¬ label ++ [mark] <+: segment ++ mark :: rest := fun h =>
      hend' (eq_of_marks hlabel hsegment' h ▸ List.suffix_rfl)
    rw [List.cons_append] at hfirst ⊢
    rw [findSub_cons hfirst, ih hsegment' hend' hnext, Option.map_map, List.length_cons]
    rfl

/-- **A segment that ends with the label** is where it is found. -/
theorem findSub_label (hlabel : mark ∉ label) (hsegment : mark ∉ segment) :
    findSub (label ++ [mark]) (segment ++ (label ++ mark :: rest)) = some segment.length := by
  induction segment with
  | nil =>
    have hprefix : label ++ [mark] <+: label ++ mark :: rest :=
      (List.prefix_append_right_inj label).mpr (List.prefix_append [mark] rest)
    exact findSub_of_prefix hprefix
  | cons a segment ih =>
    have hfirst : ¬ label ++ [mark] <+: a :: segment ++ (label ++ mark :: rest) := by
      intro h
      rw [← List.append_assoc] at h
      have hmem : mark ∉ a :: segment ++ label := by
        rw [List.mem_append, not_or]
        exact ⟨hsegment, hlabel⟩
      have hlen := congrArg List.length (eq_of_marks hlabel hmem h)
      rw [List.length_append, List.length_cons] at hlen
      omega
    rw [List.cons_append] at hfirst ⊢
    rw [findSub_cons hfirst, ih (List.not_mem_of_not_mem_cons hsegment), Option.map_some,
      List.length_cons]

/-- **A value** ends at its terminator. -/
theorem findSub_terminator {a : α} {value : List α} (hvalue : a ∉ value) :
    findSub (a :: pat) (value ++ (a :: pat ++ rest)) = some value.length := by
  induction value with
  | nil => exact findSub_of_prefix (List.prefix_append _ _)
  | cons b value ih =>
    have hfirst : ¬ a :: pat <+: b :: value ++ (a :: pat ++ rest) := by
      intro h
      obtain rfl : a = b := (List.cons_prefix_cons.mp h).1
      exact hvalue List.mem_cons_self
    rw [List.cons_append] at hfirst ⊢
    rw [findSub_cons hfirst, ih (List.not_mem_of_not_mem_cons hvalue), Option.map_some,
      List.length_cons]

/-! ## Lines -/

/-- A label and a value, with the mark between them and a separator behind them. -/
def line (mark : α) (sep : List α) (field : List α × List α) : List α :=
  field.1 ++ mark :: (field.2 ++ sep)

omit [DecidableEq α] in
/-- A label at the end of a string is told by its last character. -/
theorem not_suffix_of_getLast? (hlabel : label ≠ []) (hs : s ≠ []) (h : label.getLast? ≠ s.getLast?)
    (pre : List α) : ¬ label <:+ pre ++ s := by
  rintro ⟨front, hfront⟩
  have hlast := congrArg List.getLast? hfront
  rw [List.getLast?_append_of_ne_nil _ hlabel, List.getLast?_append_of_ne_nil _ hs] at hlast
  exact h hlast

/-- **A label behind other lines** is found in its place, when no label before it ends like it and
no value before it contains the mark. -/
theorem findSub_lines (sep pre rest : List α) {fields : List (List α × List α)} (hne : label ≠ [])
    (hlabel : mark ∉ label) (hsep : mark ∉ sep) (hpre : mark ∉ pre)
    (hfields : ∀ f ∈ fields, mark ∉ f.1 ∧ mark ∉ f.2 ∧ f.1 ≠ [] ∧ label.getLast? ≠ f.1.getLast?) :
    findSub (label ++ [mark]) (pre ++ (fields.flatMap (line mark sep) ++ (label ++ mark :: rest))) =
      some (pre.length + (fields.flatMap (line mark sep)).length) := by
  induction fields generalizing pre with
  | nil =>
    rw [List.flatMap_nil, List.nil_append, List.length_nil, Nat.add_zero]
    exact findSub_label hlabel hpre
  | cons f fields ih =>
    obtain ⟨hname, hvalue, hnonempty, hlast⟩ := hfields f List.mem_cons_self
    have hsegment : mark ∉ pre ++ f.1 := fun h => (List.mem_append.mp h).elim hpre hname
    have htail : mark ∉ f.2 ++ sep := fun h => (List.mem_append.mp h).elim hvalue hsep
    have htext : pre ++ ((f :: fields).flatMap (line mark sep) ++ (label ++ mark :: rest)) =
        (pre ++ f.1) ++ mark ::
          ((f.2 ++ sep) ++ (fields.flatMap (line mark sep) ++ (label ++ mark :: rest))) := by
      simp only [List.flatMap_cons, line, List.append_assoc, List.cons_append]
    rw [htext, findSub_skip hlabel hsegment (not_suffix_of_getLast? hne hnonempty hlast pre),
      ih _ htail fun g hg => hfields g (List.mem_cons_of_mem f hg), Option.map_some]
    congr 1
    simp only [List.flatMap_cons, line, List.length_append, List.length_cons]
    omega

end TiraRdp.Lib.Delimited
