import Mathlib.Data.BitVec
import Mathlib.Tactic.Common
import TiraRdp.Lib.Register

/-!
# Rasters

A raster is `rows` lines of `row` bytes, each line `stride` bytes behind the one before, at 32-bit
addresses that are counted from its first byte. `place` is where a byte of it is, and `Fits` says
that no two bytes are at the same address.

What a program leaves in a raster is the list of its stores, the oldest first; `lastWrite` is what
is then at an address. `Paints` says which bytes the stores are to and with what values, whatever
their order and however often a byte is stored: a program that goes over a raster is followed by
what it has `Scanned`, and `Paints.lastWrite_eq` says what it leaves.
-/

namespace TiraRdp.Lib.Raster

variable {α : Type} {stride : BitVec 32} {i x row rows n : Nat}

/-- Where byte `x` of line `i` is. -/
def place (stride : BitVec 32) (i x : Nat) : BitVec 32 :=
  BitVec.ofNat 32 i * stride + BitVec.ofNat 32 x

theorem place_zero : place stride 0 0 = 0 := by simp [place]

theorem place_add (n : Nat) : place stride i x + BitVec.ofNat 32 n = place stride i (x + n) := by
  rw [place, place, BitVec.ofNat_add, BitVec.add_assoc]

theorem place_sub (n : Nat) : place stride i (x + n) - BitVec.ofNat 32 n = place stride i x := by
  rw [← place_add, BitVec.add_sub_cancel]

/-- A place that is counted from another one. -/
theorem place_add_place (j y : Nat) :
    place stride i x + place stride j y = place stride (i + j) (x + y) := by
  simp only [place, BitVec.ofNat_add]
  grind

/-- From the end of a line back to its start. -/
theorem place_back : place stride i x + -BitVec.ofNat 32 x = place stride i 0 := by
  unfold place
  grind

theorem place_add_stride : place stride i x + stride = place stride (i + 1) x := by
  simp only [place, BitVec.ofNat_add]
  grind

theorem place_add_two : place stride i x + 2 * stride = place stride (i + 2) x := by
  simp only [place, BitVec.ofNat_add]
  grind

/-- From the end of a line to the start of the next one. -/
theorem place_next : place stride i x + (stride - BitVec.ofNat 32 x) = place stride (i + 1) 0 := by
  simp only [place, BitVec.ofNat_add]
  grind

/-- From the end of a line to the start of the next but one. -/
theorem place_next_two :
    place stride i x + (stride * 2 - BitVec.ofNat 32 x) = place stride (i + 2) 0 := by
  simp only [place, BitVec.ofNat_add]
  grind

/-- A raster of `rows` lines of `row` bytes. -/
structure Fits (stride : BitVec 32) (row rows : Nat) : Prop where
  row_le : row ≤ stride.toNat
  size_lt : (rows - 1) * stride.toNat + row < 2 ^ 32

instance : Decidable (Fits stride row rows) :=
  decidable_of_iff (row ≤ stride.toNat ∧ (rows - 1) * stride.toNat + row < 2 ^ 32)
    ⟨fun ⟨h1, h2⟩ => ⟨h1, h2⟩, fun h => ⟨h.1, h.2⟩⟩

theorem Fits.toNat_place (h : Fits stride row rows) (hi : i < rows) (hx : x ≤ row) :
    (place stride i x).toNat = i * stride.toNat + x := by
  have hle : i * stride.toNat ≤ (rows - 1) * stride.toNat := Nat.mul_le_mul_right _ (by omega)
  have hlt := h.size_lt
  rw [place, BitVec.toNat_add, BitVec.toNat_mul, BitVec.toNat_ofNat, BitVec.toNat_ofNat]
  rw [Nat.add_mod_mod, Nat.mod_mul_mod, Nat.mod_add_mod, Nat.mod_eq_of_lt (by omega)]

/-- An address inside. -/
def Within (stride : BitVec 32) (row rows : Nat) (a : BitVec 32) : Prop :=
  ∃ i < rows, ∃ x < row, a = place stride i x

/-- Two bytes of a raster are at two addresses. -/
theorem Fits.place_inj (h : Fits stride row rows) {j y : Nat} (hi : i < rows) (hx : x < row)
    (hj : j < rows) (hy : y < row) : place stride i x = place stride j y ↔ i = j ∧ x = y := by
  constructor
  · intro heq
    have hnat : i * stride.toNat + x = j * stride.toNat + y := by
      rw [← h.toNat_place hi (Nat.le_of_lt hx), ← h.toNat_place hj (Nat.le_of_lt hy), heq]
    have hle := h.row_le
    have hpos : 0 < stride.toNat := by omega
    have hline : i = j := by
      have hdiv := congrArg (· / stride.toNat) hnat
      simpa [Nat.mul_comm _ stride.toNat, Nat.mul_add_div hpos, Nat.div_eq_of_lt (Nat.lt_of_lt_of_le hx hle),
        Nat.div_eq_of_lt (Nat.lt_of_lt_of_le hy hle)] using hdiv
    subst hline
    exact ⟨rfl, Nat.add_left_cancel hnat⟩
  · rintro ⟨rfl, rfl⟩
    rfl

/-! ## Stores -/

/-- What was stored at an address last. -/
def lastWrite : List (BitVec 32 × α) → BitVec 32 → Option α
  | [], _ => none
  | (p, v) :: log, a => (lastWrite log a).or (if p = a then some v else none)

theorem lastWrite_eq_none_iff {log : List (BitVec 32 × α)} {a : BitVec 32} :
    lastWrite log a = none ↔ ∀ e ∈ log, e.1 ≠ a := by
  induction log with
  | nil => simp [lastWrite]
  | cons e log ih =>
    rw [lastWrite, Option.or_eq_none_iff, ih, List.forall_mem_cons, and_comm]
    simp

theorem mem_of_lastWrite {log : List (BitVec 32 × α)} {a : BitVec 32} {v : α}
    (h : lastWrite log a = some v) : (a, v) ∈ log := by
  induction log with
  | nil => simp [lastWrite] at h
  | cons e log ih =>
    obtain ⟨p, w⟩ := e
    rw [lastWrite, Option.or_eq_some_iff] at h
    rcases h with h | ⟨-, h⟩
    · exact List.mem_cons_of_mem _ (ih h)
    · split_ifs at h with hp
      rw [← hp, ← Option.some.inj h]
      exact List.mem_cons_self

/-- `n` bytes one after the other. -/
def block (p : BitVec 32) (n : Nat) (f : Nat → α) : List (BitVec 32 × α) :=
  (List.range n).map fun t => (p + BitVec.ofNat 32 t, f t)

theorem block_add (p : BitVec 32) (m n : Nat) (f : Nat → α) :
    block p (m + n) f = block p m f ++ block (p + BitVec.ofNat 32 m) n fun t => f (m + t) := by
  unfold block
  rw [List.range_add, List.map_append, List.map_map]
  simp only [Function.comp_def, BitVec.ofNat_add, BitVec.add_assoc]

/-- The stores are those of `value` to the bytes in `done`. -/
def Paints (stride : BitVec 32) (value : Nat → Nat → α) (done : Nat → Nat → Prop)
    (log : List (BitVec 32 × α)) : Prop :=
  ∀ e, e ∈ log ↔ ∃ i x, done i x ∧ e = (place stride i x, value i x)

section Paints

variable {value : Nat → Nat → α} {done more : Nat → Nat → Prop} {log new : List (BitVec 32 × α)}

theorem paints_nil (hnone : ∀ i x, ¬ done i x) : Paints stride value done [] := by
  intro e
  simp [hnone]

theorem Paints.append (h : Paints stride value done log) (hnew : Paints stride value more new) :
    Paints stride value (fun i x => done i x ∨ more i x) (log ++ new) := by
  intro e
  rw [List.mem_append, h, hnew]
  constructor
  · rintro (⟨i, x, hix, rfl⟩ | ⟨i, x, hix, rfl⟩)
    · exact ⟨i, x, Or.inl hix, rfl⟩
    · exact ⟨i, x, Or.inr hix, rfl⟩
  · rintro ⟨i, x, hix | hix, rfl⟩
    · exact Or.inl ⟨i, x, hix, rfl⟩
    · exact Or.inr ⟨i, x, hix, rfl⟩

theorem Paints.congr (h : Paints stride value done log) (hiff : ∀ i x, done i x ↔ more i x) :
    Paints stride value more log := by
  have hdone : done = more := by
    funext i x
    exact propext (hiff i x)
  exact hdone ▸ h

theorem paints_block {f : Nat → α} (hf : ∀ t < n, f t = value i (x + t)) :
    Paints stride value (fun j y => j = i ∧ x ≤ y ∧ y < x + n) (block (place stride i x) n f) := by
  intro e
  rw [block, List.mem_map]
  constructor
  · rintro ⟨t, ht, rfl⟩
    rw [List.mem_range] at ht
    exact ⟨i, x + t, ⟨rfl, by omega, by omega⟩, by rw [place_add, hf t ht]⟩
  · rintro ⟨j, y, ⟨rfl, hxy, hy⟩, rfl⟩
    refine ⟨y - x, List.mem_range.mpr (by omega), ?_⟩
    rw [hf _ (by omega), place_add, Nat.add_sub_cancel' hxy]

/-- **What is left in a raster** whose bytes have all been stored. -/
theorem Paints.lastWrite_eq (hfits : Fits stride row rows)
    (h : Paints stride value (fun i x => i < rows ∧ x < row) log) (hi : i < rows) (hx : x < row) :
    lastWrite log (place stride i x) = some (value i x) := by
  have hmem : (place stride i x, value i x) ∈ log := (h _).mpr ⟨i, x, ⟨hi, hx⟩, rfl⟩
  rcases hlast : lastWrite log (place stride i x) with _ | v
  · exact absurd rfl (lastWrite_eq_none_iff.mp hlast _ hmem)
  · obtain ⟨j, y, ⟨hj, hy⟩, heq⟩ := (h _).mp (mem_of_lastWrite hlast)
    rw [Prod.mk.injEq, hfits.place_inj hi hx hj hy] at heq
    obtain ⟨⟨rfl, rfl⟩, rfl⟩ := heq
    rfl

/-- Nothing is stored anywhere else. -/
theorem Paints.lastWrite_ne_none_iff (h : Paints stride value (fun i x => i < rows ∧ x < row) log)
    (a : BitVec 32) : lastWrite log a ≠ none ↔ Within stride row rows a := by
  rw [Ne, lastWrite_eq_none_iff]
  constructor
  · intro hne
    push Not at hne
    obtain ⟨e, he, rfl⟩ := hne
    obtain ⟨i, x, ⟨hi, hx⟩, rfl⟩ := (h e).mp he
    exact ⟨i, hi, x, hx, rfl⟩
  · rintro ⟨i, hi, x, hx, rfl⟩ hnone
    exact hnone _ ((h _).mpr ⟨i, x, ⟨hi, hx⟩, rfl⟩) rfl

end Paints

/-! ## Line by line -/

/-- The bytes before byte `x` of band `i`, for a program that goes over `lines` lines at a time. -/
def Scanned (lines row i x : Nat) (j y : Nat) : Prop :=
  j < lines * i ∧ y < row ∨ lines * i ≤ j ∧ j < lines * (i + 1) ∧ y < x

variable {lines : Nat}

theorem not_scanned_zero (j y : Nat) : ¬ Scanned lines row 0 0 j y := by
  simp [Scanned]

/-- At the end of a band the next one starts. -/
theorem scanned_next (j y : Nat) :
    Scanned lines row i row j y ↔ Scanned lines row (i + 1) 0 j y := by
  unfold Scanned
  rw [Nat.mul_add_one]
  omega

/-- Behind the last band everything has been scanned. -/
theorem scanned_all (j y : Nat) : Scanned lines row i 0 j y ↔ j < lines * i ∧ y < row := by
  simp [Scanned]

end TiraRdp.Lib.Raster
