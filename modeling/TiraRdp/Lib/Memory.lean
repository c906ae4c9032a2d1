import Mathlib.Data.List.Basic
import Mathlib.Tactic.Common

/-!
# Memory blocks

A block of memory is a function from offsets to cells: `Mem α`. The size of a block is kept by
whoever owns it, so an access past the end stays visible as an arithmetic fact about offsets.
`read` takes a run of cells out as a list, `write` is `memcpy` into the block.

`readWithin` and `writeWithin` are accesses to a block of a size, and `Halt` is what comes of one that
leaves it.

Results: reading back what was written (`read_write_same`), the frame of a write
(`read_write_of_disjoint`), the splitting of a read at any point (`read_add`), and a write right
behind what is read (`read_write_append`) or written (`write_write_append`).
-/

namespace TiraRdp.Lib

/-- No answer: an access outside of a block, or a loop that has not ended. -/
inductive Halt
  | outside
  | hang
  deriving Repr, DecidableEq

/-- A block of cells, by offset. -/
abbrev Mem (α : Type) := Nat → α

namespace Mem

variable {α : Type}

/-- The `len` cells from `off` on. -/
def read (m : Mem α) (off len : Nat) : List α := (List.range len).map fun i => m (off + i)

/-- `memcpy` of `xs` to offset `off`. -/
def write (m : Mem α) (off : Nat) (xs : List α) : Mem α := fun j =>
  if off ≤ j then (xs[j - off]?).getD (m j) else m j

/-- `read` in a block of `size` cells. -/
def readWithin (m : Mem α) (size off len : Nat) : Except Halt (List α) :=
  if off + len ≤ size then .ok (read m off len) else .error .outside

/-- `write` in a block of `size` cells. -/
def writeWithin (m : Mem α) (size off : Nat) (xs : List α) : Except Halt (Mem α) :=
  if off + xs.length ≤ size then .ok (write m off xs) else .error .outside

@[simp] theorem read_length (m : Mem α) (off len : Nat) : (read m off len).length = len := by
  simp [read]

theorem getElem_read (m : Mem α) (off len i : Nat) (h : i < (read m off len).length) :
    (read m off len)[i] = m (off + i) := by
  simp [read]

theorem read_add (m : Mem α) (off a b : Nat) :
    read m off (a + b) = read m off a ++ read m (off + a) b := by
  unfold read
  rw [List.range_add, List.map_append, List.map_map]
  congr 2
  funext i
  simp [Nat.add_assoc]

theorem readWithin_of_le (m : Mem α) {size off len : Nat} (h : off + len ≤ size) :
    readWithin m size off len = .ok (read m off len) := if_pos h

theorem writeWithin_of_le (m : Mem α) {size off : Nat} {xs : List α} (h : off + xs.length ≤ size) :
    writeWithin m size off xs = .ok (write m off xs) := if_pos h

/-- A cell outside the written range keeps its value. -/
theorem write_of_not_mem (m : Mem α) {off j : Nat} {xs : List α}
    (h : j < off ∨ off + xs.length ≤ j) : write m off xs j = m j := by
  unfold write
  rcases h with h | h
  · rw [if_neg (by omega)]
  · rw [if_pos (by omega), List.getElem?_eq_none (by omega), Option.getD_none]

/-- A cell of the written range holds the element written there. -/
theorem write_at (m : Mem α) (off : Nat) (xs : List α) (i : Nat) (h : i < xs.length) :
    write m off xs (off + i) = xs[i] := by
  unfold write
  rw [if_pos (Nat.le_add_right off i), Nat.add_sub_cancel_left, List.getElem?_eq_getElem h,
    Option.getD_some]

theorem read_write_same (m : Mem α) (off : Nat) (xs : List α) :
    read (write m off xs) off xs.length = xs := by
  apply List.ext_getElem (by simp)
  intro i h1 h2
  rw [getElem_read, write_at _ _ _ _ h2]

theorem read_write_of_disjoint (m : Mem α) {off len off' : Nat} {xs : List α}
    (h : off + len ≤ off' ∨ off' + xs.length ≤ off) :
    read (write m off' xs) off len = read m off len := by
  apply List.ext_getElem (by simp)
  intro i h1 h2
  rw [read_length] at h1
  rw [getElem_read, getElem_read, write_of_not_mem _ (by omega)]

/-- What is appended right behind a range extends what is read from it. -/
theorem read_write_append (m : Mem α) (off len : Nat) (xs : List α) :
    read (write m (off + len) xs) off (len + xs.length) = read m off len ++ xs := by
  rw [read_add, read_write_of_disjoint _ (Or.inl (Nat.le_refl _)), read_write_same]

/-- Two writes one behind the other are one. -/
theorem write_write_append (m : Mem α) (off : Nat) (xs ys : List α) :
    write (write m off xs) (off + xs.length) ys = write m off (xs ++ ys) := by
  funext j
  rcases Nat.lt_or_ge j (off + xs.length) with hj | hj
  · rw [write_of_not_mem _ (Or.inl hj)]
    rcases Nat.lt_or_ge j off with h | h
    · rw [write_of_not_mem _ (Or.inl h), write_of_not_mem _ (Or.inl h)]
    · obtain ⟨i, rfl⟩ := Nat.exists_eq_add_of_le h
      have hi : i < xs.length := by omega
      rw [write_at _ _ _ _ hi, write_at _ _ _ _ (by rw [List.length_append]; omega),
        List.getElem_append_left hi]
  · obtain ⟨i, rfl⟩ := Nat.exists_eq_add_of_le hj
    rcases Nat.lt_or_ge i ys.length with hi | hi
    · have hlen : xs.length + i < (xs ++ ys).length := by rw [List.length_append]; omega
      rw [write_at _ _ _ _ hi, Nat.add_assoc, write_at _ _ _ _ hlen,
        List.getElem_append_right (by omega)]
      simp only [Nat.add_sub_cancel_left]
    · rw [write_of_not_mem _ (Or.inr (by omega)), write_of_not_mem _ (Or.inr (by omega)),
        write_of_not_mem _ (Or.inr (by rw [List.length_append]; omega))]

end Mem

end TiraRdp.Lib
