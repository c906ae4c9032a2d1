import TiraRdp.Lib.Memory

/-!
# Copying from one block into another

A program that moves cells from a source block into a block is followed by what it has copied:
`Blit` names the cells by an index, with a place in each of the two blocks, and says that the cells
`done` hold what the source has and that no other cell has changed. `Blit.append` puts two copies
behind each other, `blit_write` is a single `memcpy`.

Cells that are laid out line by line, `stride` apart, have different places (`line_inj`).
-/

namespace TiraRdp.Lib

/-- `m'` is `m` with the cells `done` copied from `source`. -/
structure Blit {ι α : Type} (dst src : ι → Nat) (source m m' : Mem α) (done : ι → Prop) : Prop where
  copied : ∀ i, done i → m' (dst i) = source (src i)
  frame : ∀ j, (∀ i, done i → dst i ≠ j) → m' j = m j

section Blit

variable {ι α : Type} {dst src : ι → Nat} {source m m₁ m₂ : Mem α} {done more : ι → Prop}

theorem blit_nil (hnone : ∀ i, ¬ done i) : Blit dst src source m m done where
  copied := fun i hi => absurd hi (hnone i)
  frame := fun _ _ => rfl

/-- One copy behind another; where they meet, both copy the same cell. -/
theorem Blit.append (h : Blit dst src source m m₁ done) (hmore : Blit dst src source m₁ m₂ more)
    (hmeet : ∀ i k, done i → more k → dst k = dst i → src k = src i) :
    Blit dst src source m m₂ (fun i => done i ∨ more i) where
  copied := by
    rintro i (hi | hi)
    · by_cases hover : ∃ k, more k ∧ dst k = dst i
      · obtain ⟨k, hk, heq⟩ := hover
        rw [← heq, hmore.copied k hk, hmeet i k hi hk heq]
      · rw [hmore.frame _ fun k hk heq => hover ⟨k, hk, heq⟩, h.copied i hi]
    · exact hmore.copied i hi
  frame := fun j hj => by
    rw [hmore.frame j fun i hi => hj i (Or.inr hi), h.frame j fun i hi => hj i (Or.inl hi)]

theorem Blit.congr (h : Blit dst src source m m₁ done) (hiff : ∀ i, done i ↔ more i) :
    Blit dst src source m m₁ more := by
  have hdone : done = more := by
    funext i
    exact propext (hiff i)
  exact hdone ▸ h

/-- What `memcpy` leaves in a cell. -/
theorem Mem.write_read_apply (m source : Mem α) (off soff len j : Nat) :
    m.write off (source.read soff len) j =
      if off ≤ j ∧ j < off + len then source (soff + (j - off)) else m j := by
  split_ifs with h
  · have hcell :=
      Mem.write_at m off (source.read soff len) (j - off) (by rw [Mem.read_length]; omega)
    rw [Nat.add_sub_cancel' h.1] at hcell
    rw [hcell, Mem.getElem_read]
  · exact Mem.write_of_not_mem m (by rw [Mem.read_length]; omega)

/-- **A `memcpy`** of a run of the cells. -/
theorem blit_write {off soff len : Nat}
    (hdone : ∀ i, done i → ∃ t < len, dst i = off + t ∧ src i = soff + t)
    (hall : ∀ t < len, ∃ i, done i ∧ dst i = off + t) :
    Blit dst src source m (m.write off (source.read soff len)) done where
  copied := by
    intro i hi
    obtain ⟨t, ht, hdst, hsrc⟩ := hdone i hi
    rw [Mem.write_read_apply, hdst, hsrc, if_pos (by omega), Nat.add_sub_cancel_left]
  frame := by
    intro j hj
    rw [Mem.write_read_apply, if_neg]
    rintro ⟨hle, hlt⟩
    obtain ⟨i, hi, hdst⟩ := hall (j - off) (by omega)
    exact hj i hi (by omega)

end Blit

/-! ## Planes of lines -/

/-- Two places in lines that do not overlap. -/
theorem line_inj {stride y x y' x' : Nat} (hx : x < stride) (hx' : x' < stride)
    (h : y * stride + x = y' * stride + x') : y = y' ∧ x = x' := by
  have hline : y = y' := by
    have hdiv := congrArg (· / stride) h
    simpa [Nat.mul_comm _ stride, Nat.mul_add_div (by omega : 0 < stride), Nat.div_eq_of_lt hx,
      Nat.div_eq_of_lt hx'] using hdiv
  subst hline
  exact ⟨rfl, Nat.add_left_cancel h⟩

/-- What is in the first `n` lines is in front of where line `n` starts. -/
theorem line_add_le {stride y x n : Nat} (hx : x ≤ stride) (hy : y < n) :
    y * stride + x ≤ n * stride := by
  have hle : (y + 1) * stride ≤ n * stride := Nat.mul_le_mul_right stride hy
  rw [Nat.add_mul, Nat.one_mul] at hle
  omega

theorem line_lt_iff {stride y x n : Nat} (hx : x < stride) :
    y * stride + x < n * stride ↔ y < n := by
  constructor
  · intro hlt
    by_contra hge
    have hle : n * stride ≤ y * stride := Nat.mul_le_mul_right stride (Nat.le_of_not_lt hge)
    omega
  · intro hy
    have hle := line_add_le (Nat.succ_le_of_lt hx) hy
    omega

/-- A cell of a picture. -/
structure Cell where
  plane : Nat
  line : Nat
  col : Nat

/-- Planes behind each other, and in each of them lines behind each other. -/
structure Layout where
  plane : Nat
  stride : Nat

def Layout.place (l : Layout) (c : Cell) : Nat := c.plane * l.plane + (c.line * l.stride + c.col)

/-- The cell is in its line, and the line in its plane. -/
def Layout.Has (l : Layout) (c : Cell) : Prop :=
  c.col < l.stride ∧ c.line * l.stride + c.col < l.plane

theorem Layout.place_inj {l : Layout} {c d : Cell} (hc : l.Has c) (hd : l.Has d)
    (h : l.place c = l.place d) : c = d := by
  obtain ⟨hplane, hoff⟩ := line_inj hc.2 hd.2 h
  obtain ⟨hline, hcol⟩ := line_inj hc.1 hd.1 hoff
  cases c
  cases d
  simp_all

/-- Columns `lo` up to `hi` of a line. -/
def Cell.In (p y lo hi : Nat) (c : Cell) : Prop :=
  c.plane = p ∧ c.line = y ∧ lo ≤ c.col ∧ c.col < hi

section Layout

variable {α : Type} {dst src : Layout} {source m m₁ : Mem α} {done : Cell → Prop}

/-- **A `memcpy` of a piece of a line**, behind what has been copied. -/
theorem Blit.line (h : Blit dst.place src.place source m m₁ done) {p y lo hi : Nat}
    (hdone : ∀ c, done c → dst.Has c) (hline : ∀ c, Cell.In p y lo hi c → dst.Has c) :
    Blit dst.place src.place source m
      (m₁.write (dst.place ⟨p, y, lo⟩) (source.read (src.place ⟨p, y, lo⟩) (hi - lo)))
      (fun c => done c ∨ Cell.In p y lo hi c) := by
  refine h.append (blit_write ?_ ?_) ?_
  · rintro ⟨p, y, x⟩ ⟨rfl, rfl, hlo, hhi⟩
    refine ⟨x - lo, by dsimp only at *; omega, ?_, ?_⟩
    · simp only [Layout.place] at *
      omega
    · simp only [Layout.place] at *
      omega
  · intro t ht
    refine ⟨⟨p, y, lo + t⟩, ⟨rfl, rfl, Nat.le_add_right _ _, by dsimp only; omega⟩, ?_⟩
    simp only [Layout.place]
    omega
  · intro c d hc hd heq
    rw [Layout.place_inj (hline d hd) (hdone c hc) heq]

/-- **A `memcpy` of whole lines**, which are as long in the source. -/
theorem Blit.lines (h : Blit dst.place src.place source m m₁ done) {p n : Nat}
    (hstride : src.stride = dst.stride) (hfits : n * dst.stride ≤ dst.plane)
    (hdone : ∀ c, done c → dst.Has c) :
    Blit dst.place src.place source m
      (m₁.write (dst.place ⟨p, 0, 0⟩) (source.read (src.place ⟨p, 0, 0⟩) (n * dst.stride)))
      (fun c => done c ∨ c.plane = p ∧ c.line < n ∧ c.col < dst.stride) := by
  refine h.append (blit_write ?_ ?_) ?_
  · rintro ⟨p, y, x⟩ ⟨rfl, hy, hx⟩
    have hlt := line_add_le (Nat.succ_le_of_lt hx) hy
    refine ⟨y * dst.stride + x, ?_, ?_, ?_⟩
    · dsimp only at *
      omega
    · simp only [Layout.place, Nat.zero_mul, Nat.add_zero]
    · simp only [Layout.place, Nat.zero_mul, Nat.add_zero, hstride]
  · intro t ht
    have hpos : 0 < dst.stride := by
      rcases Nat.eq_zero_or_pos dst.stride with hzero | hpos
      · rw [hzero, Nat.mul_zero] at ht
        omega
      · exact hpos
    refine ⟨⟨p, t / dst.stride, t % dst.stride⟩,
      ⟨rfl, (Nat.div_lt_iff_lt_mul hpos).mpr ht, Nat.mod_lt t hpos⟩, ?_⟩
    have hmod := Nat.div_add_mod' t dst.stride
    simp only [Layout.place, Nat.zero_mul, Nat.add_zero, hmod]
  · rintro c d hc ⟨hp, hy, hx⟩ heq
    have hlt := line_add_le (Nat.succ_le_of_lt hx) hy
    rw [Layout.place_inj ⟨hx, by omega⟩ (hdone c hc) heq]

end Layout

end TiraRdp.Lib
