import Mathlib.Data.List.Basic
import Mathlib.Tactic.Common

/-!
# Messages in fragments

A message comes in fragments. The first one says how long the message is to be, the last one ends
it, and it is a message only if that is how long it is. A fragment that is lost takes its message
with it.

`assemble` is what there is to be made of any sequence of fragments. Results:
* `assemble_append`: what comes first is made first.
* `assemble_run`: fragments from a first one to a last one are one message, if their lengths add up,
  whatever has come before them.
-/

namespace TiraRdp.Lib.Reassembly

structure Fragment (α : Type) where
  first : Bool
  last : Bool
  total : Nat
  data : List α
  lost : Bool

/-- A message under way. -/
structure Message (α : Type) where
  total : Nat
  data : List α
  deriving Repr, DecidableEq

variable {α : Type} {under : Option (Message α)} {f : Fragment α} {fs gs : List (Fragment α)}

/-- The message that the fragment belongs to. -/
def begun (under : Option (Message α)) (f : Fragment α) : Option (Message α) :=
  if f.first then some ⟨f.total, []⟩ else under

def joined (under : Option (Message α)) (f : Fragment α) : Option (Message α) :=
  if f.lost then none else (begun under f).map fun m => { m with data := m.data ++ f.data }

/-- What is under way after the fragment. -/
def after (under : Option (Message α)) (f : Fragment α) : Option (Message α) :=
  if f.last then none else joined under f

/-- The message that the fragment completes. -/
def completed (under : Option (Message α)) (f : Fragment α) : Option (List α) :=
  if f.last then
    (joined under f).bind fun m => if m.data.length = m.total then some m.data else none
  else none

def assemble : Option (Message α) → List (Fragment α) → List (List α)
  | _, [] => []
  | under, f :: fs => (completed under f).toList ++ assemble (after under f) fs

theorem joined_eq_some {m : Message α} : joined under f = some m ↔
    f.lost = false ∧ ∃ m₀, begun under f = some m₀ ∧ m = { m₀ with data := m₀.data ++ f.data } := by
  unfold joined
  cases hlost : f.lost with
  | true => simp
  | false =>
    rw [if_neg (by simp), Option.map_eq_some_iff]
    simp only [true_and, eq_comm]

theorem after_eq_some {m : Message α} : after under f = some m ↔
    f.last = false ∧ joined under f = some m := by
  unfold after
  cases hlast : f.last with
  | false => simp
  | true => simp

theorem completed_eq_some {data : List α} : completed under f = some data ↔
    f.last = true ∧ ∃ m, joined under f = some m ∧ m.data.length = m.total ∧ m.data = data := by
  unfold completed
  cases hlast : f.last with
  | false => simp
  | true =>
    rw [if_pos rfl, Option.bind_eq_some_iff]
    simp only [Option.ite_none_right_eq_some, Option.some.injEq, true_and]

theorem assemble_append (under : Option (Message α)) (fs gs : List (Fragment α)) :
    assemble under (fs ++ gs) = assemble under fs ++ assemble (fs.foldl after under) gs := by
  induction fs generalizing under with
  | nil => rfl
  | cons f fs ih =>
    rw [List.cons_append, assemble, assemble, ih, List.foldl_cons, List.append_assoc]

/-- Fragments up to a last one; none of them is lost, and only the foremost may be a first one. -/
inductive Run : Bool → List (Fragment α) → Prop
  | last (f : Fragment α) (hlast : f.last = true) (hlost : f.lost = false) : Run f.first [f]
  | more (f : Fragment α) (fs : List (Fragment α)) (hlast : f.last = false) (hlost : f.lost = false)
      (hrest : Run false fs) : Run f.first (f :: fs)

/-- What the foremost fragment says. -/
def total (fs : List (Fragment α)) : Nat := (fs.head?.map (·.total)).getD 0

/-- The fragments up to the last one go to the message that is under way. -/
theorem assemble_rest {first : Bool} (h : Run first fs) (under : Option (Message α)) {m : Message α}
    (hm : (if first then some ⟨total fs, []⟩ else under) = some m) :
    assemble under (fs ++ gs) =
      (if (m.data ++ fs.flatMap (·.data)).length = m.total then [m.data ++ fs.flatMap (·.data)] else []) ++
        assemble none gs := by
  induction h generalizing under m with
  | last f hlast hlost =>
    have hjoined : joined under f = some { m with data := m.data ++ f.data } := by
      rw [joined, if_neg (by simp [hlost]), begun]
      exact congrArg (Option.map _) hm
    rw [List.singleton_append, assemble, after, if_pos hlast, completed, if_pos hlast, hjoined,
      Option.bind_some, List.flatMap_singleton]
    split_ifs with htotal
    · rfl
    · rfl
  | more f fs hlast hlost hrest ih =>
    have hjoined : joined under f = some { m with data := m.data ++ f.data } := by
      rw [joined, if_neg (by simp [hlost]), begun]
      exact congrArg (Option.map _) hm
    have hsame :
      (if false = true then some ⟨total fs, []⟩ else some { m with data := m.data ++ f.data }) =
        some { m with data := m.data ++ f.data } := rfl
    rw [List.cons_append, assemble, after, if_neg (by simp [hlast]), completed,
      if_neg (by simp [hlast]),
      hjoined, ih _ hsame, List.flatMap_cons, List.append_assoc m.data]
    rfl

/-- **A run of fragments is a message if its lengths add up.** -/
theorem assemble_run (h : Run true fs) (under : Option (Message α)) (gs : List (Fragment α)) :
    assemble under (fs ++ gs) =
      (if (fs.flatMap (·.data)).length = total fs then [fs.flatMap (·.data)] else []) ++ assemble none gs :=
  assemble_rest h under rfl

end TiraRdp.Lib.Reassembly
