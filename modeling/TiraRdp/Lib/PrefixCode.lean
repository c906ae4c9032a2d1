import TiraRdp.Lib.Bits

/-!
# Codes told by how they begin

A code for the numbers from `base` on is a fixed beginning, `lead`, and behind it `extra` bits that
count from `base`. A decoder that has the next 32 bits in a word tells a code by masking them
(`MaskRow`); an encoder picks it by the number (`RangeRow`) and sets the beginning by an `or`.

Results: the decoder finds the code that the bits begin with, and its number, wherever no code begins
like another (`find_mask`), and what the encoder writes is that code (`RangeRow.Writes.written_eq`); the
masks of a code are read off its beginning (`Code.maskRow`).
-/

namespace TiraRdp.Lib

structure Code where
  lead : List Bool
  extra : Nat
  base : Nat
  deriving Repr, DecidableEq

namespace Code

def width (c : Code) : Nat := c.lead.length + c.extra

/-- The numbers that have this code. -/
def Covers (c : Code) (v : Nat) : Prop := c.base ≤ v ∧ v < c.base + 2 ^ c.extra

/-- The bits of a number. -/
def spell (c : Code) (v : Nat) : List Bool := c.lead ++ toBits c.extra (v - c.base)

/-- Neither begins like the other. -/
def Apart (c d : Code) : Prop := ¬ c.lead <+: d.lead ∧ ¬ d.lead <+: c.lead

instance (c d : Code) : Decidable (c.Apart d) := inferInstanceAs (Decidable (_ ∧ _))

instance : Std.Symm Apart := ⟨fun _ _ h => ⟨h.2, h.1⟩⟩

theorem spell_length (c : Code) (v : Nat) : (c.spell v).length = c.width := by
  rw [spell, List.length_append, toBits_length, width]

end Code

/-- `(accumulator & mask) == value`, then `((accumulator >> shift) & low) + base`, and `nbits` bits
have been used. -/
structure MaskRow where
  mask : Nat
  value : Nat
  shift : Nat
  low : Nat
  base : Nat
  nbits : Nat
  deriving Repr, DecidableEq

def MaskRow.hit (r : MaskRow) (accumulator : Nat) : Bool := accumulator &&& r.mask == r.value

def MaskRow.number (r : MaskRow) (accumulator : Nat) : Nat :=
  ((accumulator >>> r.shift) &&& r.low) + r.base

/-- `lower ≤ v && v < upper`, then the `nbits` bits of `lead | ((v - base) & low)`. -/
structure RangeRow where
  lower : Nat
  upper : Nat
  lead : Nat
  base : Nat
  low : Nat
  nbits : Nat
  deriving Repr, DecidableEq

def RangeRow.hit (r : RangeRow) (v : Nat) : Bool := decide (r.lower ≤ v ∧ v < r.upper)

def RangeRow.number (r : RangeRow) (v : Nat) : Nat := r.lead ||| ((v - r.base) &&& r.low)

/-! ## Masks -/

/-- The row by which a decoder tells a code. -/
def Code.maskRow (c : Code) : MaskRow where
  mask := (2 ^ c.lead.length - 1) * 2 ^ (32 - c.lead.length)
  value := ofBits c.lead * 2 ^ (32 - c.lead.length)
  shift := 32 - c.width
  low := 2 ^ c.extra - 1
  base := c.base
  nbits := c.width

/-- The upper `n` bits of a word. -/
theorem and_upper (a m k : Nat) : a &&& (2 ^ m - 1) * 2 ^ k = a / 2 ^ k % 2 ^ m * 2 ^ k := by
  apply Nat.eq_of_testBit_eq
  intro i
  rw [Nat.testBit_and, Nat.testBit_mul_two_pow, Nat.testBit_mul_two_pow, Nat.testBit_two_pow_sub_one,
    Nat.testBit_mod_two_pow, Nat.testBit_div_two_pow]
  by_cases hk : k ≤ i
  · rw [Nat.sub_add_cancel hk]
    cases a.testBit i <;> simp
  · simp [hk]

/-- A word shows a code where its upper bits are the beginning. -/
theorem Code.hit_maskRow {c : Code} {bits : List Bool} (hlead : c.lead.length ≤ 32) :
    c.maskRow.hit (peek 32 bits) = true ↔ peek c.lead.length bits = ofBits c.lead := by
  have hsplit : 32 = c.lead.length + (32 - c.lead.length) := by omega
  have hdiv : peek 32 bits / 2 ^ (32 - c.lead.length) = peek c.lead.length bits := by
    conv_lhs => rw [hsplit]
    rw [Nat.add_sub_cancel_left, peek_div]
  unfold MaskRow.hit maskRow
  dsimp only
  rw [and_upper, hdiv, Nat.mod_eq_of_lt (peek_lt _ _), beq_iff_eq,
    Nat.mul_left_inj (Nat.two_pow_pos _).ne']

/-- The number of the code that the bits begin with. -/
theorem Code.number_maskRow {c : Code} {v : Nat} (hwidth : c.width ≤ 32) (hv : c.Covers v)
    (rest : List Bool) : c.maskRow.number (peek 32 (c.spell v ++ rest)) = v := by
  obtain ⟨hbase, hlt⟩ := hv
  have hsplit : 32 = c.width + (32 - c.width) := by omega
  have hextra : v - c.base < 2 ^ c.extra := by omega
  have hdiv : peek 32 (c.spell v ++ rest) / 2 ^ (32 - c.width) = peek c.width (c.spell v ++ rest) := by
    conv_lhs => rw [hsplit]
    rw [Nat.add_sub_cancel_left, peek_div]
  unfold MaskRow.number maskRow
  dsimp only
  rw [Nat.shiftRight_eq_div_pow, hdiv, Nat.and_two_pow_sub_one_eq_mod, width, peek_mod, spell,
    List.append_assoc, List.drop_left, peek_toBits hextra, Nat.sub_add_cancel hbase]

theorem Code.hit_spell {c d : Code} {v : Nat} {rest : List Bool} (hlead : d.lead.length ≤ 32)
    (happart : c.Apart d) : d.maskRow.hit (peek 32 (c.spell v ++ rest)) = false := by
  rw [← Bool.not_eq_true, Code.hit_maskRow hlead]
  intro heq
  -- both begin what is read, with the zeros behind it
  have hread : (c.spell v ++ rest ++ List.replicate d.lead.length false).take d.lead.length = d.lead :=
    ofBits_inj (by simp; omega) heq
  have hd : d.lead <+: c.spell v ++ rest ++ List.replicate d.lead.length false :=
    ⟨_, (congrArg (· ++ _) hread.symm).trans (List.take_append_drop _ _)⟩
  have hc : c.lead <+: c.spell v ++ rest ++ List.replicate d.lead.length false := by
    rw [spell, List.append_assoc, List.append_assoc]
    exact List.prefix_append _ _
  rcases Nat.le_total c.lead.length d.lead.length with hle | hle
  · exact happart.1 (List.prefix_of_prefix_length_le hc hd hle)
  · exact happart.2 (List.prefix_of_prefix_length_le hd hc hle)

/-- **Decoding.** The first row that hits is that of the code which the bits begin with. -/
theorem find_mask {codes : List Code} {c : Code} (hcodes : codes.Pairwise Code.Apart)
    (hwidth : ∀ d ∈ codes, d.width ≤ 32) (hc : c ∈ codes) (v : Nat) (rest : List Bool) :
    (codes.map Code.maskRow).find? (·.hit (peek 32 (c.spell v ++ rest))) = some c.maskRow := by
  induction codes with
  | nil => exact absurd hc List.not_mem_nil
  | cons d codes ih =>
    obtain ⟨happart, hcodes'⟩ := List.pairwise_cons.mp hcodes
    have hlead : d.lead.length ≤ 32 :=
      Nat.le_trans (Nat.le_add_right _ _) (hwidth d List.mem_cons_self)
    rw [List.map_cons]
    rcases List.mem_cons.mp hc with rfl | hmem
    · rw [List.find?_cons_of_pos]
      rw [Code.hit_maskRow hlead, Code.spell, List.append_assoc, peek_of_le (by simp),
        List.take_left]
    · rw [List.find?_cons_of_neg]
      · exact ih hcodes' (fun e he => hwidth e (List.mem_cons_of_mem d he)) hmem
      · rw [Code.hit_spell hlead ⟨(happart c hmem).2, (happart c hmem).1⟩]
        exact Bool.false_ne_true

/-! ## Ranges -/

/-- The row writes the code, for the numbers below `bound` that it is picked for. -/
structure RangeRow.Writes (bound : Nat) (r : RangeRow) (c : Code) : Prop where
  lower_eq : r.lower = c.base
  upper_le : min r.upper bound ≤ c.base + 2 ^ c.extra
  base_le : r.base ≤ c.base
  base_mod : (c.base - r.base) % 2 ^ c.extra = 0
  lead_eq : r.lead = ofBits c.lead * 2 ^ c.extra
  low_eq : r.low = 2 ^ c.extra - 1
  nbits_eq : r.nbits = c.width

instance (bound : Nat) (r : RangeRow) (c : Code) : Decidable (r.Writes bound c) :=
  decidable_of_iff (r.lower = c.base ∧ min r.upper bound ≤ c.base + 2 ^ c.extra ∧ r.base ≤ c.base ∧
      (c.base - r.base) % 2 ^ c.extra = 0 ∧ r.lead = ofBits c.lead * 2 ^ c.extra ∧
      r.low = 2 ^ c.extra - 1 ∧ r.nbits = c.width)
    ⟨fun ⟨h1, h2, h3, h4, h5, h6, h7⟩ => ⟨h1, h2, h3, h4, h5, h6, h7⟩,
      fun ⟨h1, h2, h3, h4, h5, h6, h7⟩ => ⟨h1, h2, h3, h4, h5, h6, h7⟩⟩

variable {bound v : Nat} {r : RangeRow} {c : Code}

theorem RangeRow.Writes.covers (h : r.Writes bound c) (hhit : r.hit v = true) (hv : v < bound) :
    c.Covers v := by
  obtain ⟨hlower, hupper⟩ := of_decide_eq_true hhit
  exact ⟨h.lower_eq ▸ hlower, Nat.lt_of_lt_of_le (lt_min hupper hv) h.upper_le⟩

/-- **Encoding.** The number that is written is that of the bits of the code. -/
theorem RangeRow.Writes.written_eq (h : r.Writes bound c) (hv : c.Covers v) :
    r.number v < 2 ^ r.nbits ∧ toBits r.nbits (r.number v) = c.spell v := by
  obtain ⟨hbase, hlt⟩ := hv
  have hbelow : v - c.base < 2 ^ c.extra := by omega
  obtain ⟨k, hk⟩ : ∃ k, c.base - r.base = 2 ^ c.extra * k := ⟨_, (Nat.mul_div_cancel'
    (Nat.dvd_of_mod_eq_zero h.base_mod)).symm⟩
  have hmod : (v - r.base) % 2 ^ c.extra = v - c.base := by
    have hbase_le := h.base_le
    have hsum : v - r.base = 2 ^ c.extra * k + (v - c.base) := by omega
    rw [hsum, Nat.mul_add_mod, Nat.mod_eq_of_lt hbelow]
  have hnumber : r.number v = ofBits c.lead * 2 ^ c.extra + (v - c.base) := by
    rw [RangeRow.number, h.low_eq, Nat.and_two_pow_sub_one_eq_mod, hmod, h.lead_eq, Nat.mul_comm]
    exact (Nat.two_pow_add_eq_or_of_lt hbelow _).symm
  have hlead := ofBits_lt c.lead
  rw [hnumber, h.nbits_eq, Code.width, Code.spell, toBits_mul_add hbelow, toBits_ofBits]
  refine ⟨?_, rfl⟩
  calc ofBits c.lead * 2 ^ c.extra + (v - c.base)
      < ofBits c.lead * 2 ^ c.extra + 2 ^ c.extra := Nat.add_lt_add_left hbelow _
    _ = (ofBits c.lead + 1) * 2 ^ c.extra := (Nat.succ_mul _ _).symm
    _ ≤ 2 ^ c.lead.length * 2 ^ c.extra := Nat.mul_le_mul_right _ hlead
    _ = 2 ^ (c.lead.length + c.extra) := (Nat.pow_add _ _ _).symm

/-- Rows and codes side by side: the row that is picked writes one of the codes. -/
theorem find_range {rows : List RangeRow} {codes : List Code}
    (hrows : List.Forall₂ (RangeRow.Writes bound) rows codes) (hv : v < bound)
    (hcovered : ∃ r ∈ rows, r.hit v = true) :
    ∃ r, rows.find? (·.hit v) = some r ∧ ∃ c ∈ codes, c.Covers v ∧ r.number v < 2 ^ r.nbits ∧
      toBits r.nbits (r.number v) = c.spell v ∧ r.nbits = c.width := by
  induction hrows with
  | nil =>
    obtain ⟨r, hmem, -⟩ := hcovered
    exact absurd hmem List.not_mem_nil
  | @cons r c rows codes hrow hrows ih =>
    cases hhit : r.hit v with
    | true =>
      have hcovers := hrow.covers hhit hv
      obtain ⟨hlt, hbits⟩ := hrow.written_eq hcovers
      exact ⟨r, List.find?_cons_of_pos hhit, c, List.mem_cons_self, hcovers, hlt, hbits,
        hrow.nbits_eq⟩
    | false =>
      obtain ⟨s, hmem, hs⟩ := hcovered
      rcases List.mem_cons.mp hmem with rfl | hmem
      · exact absurd (hhit.symm.trans hs) Bool.false_ne_true
      · obtain ⟨r', hfind, d, hd, hrest⟩ := ih ⟨s, hmem, hs⟩
        refine ⟨r', ?_, d, List.mem_cons_of_mem c hd, hrest⟩
        rw [List.find?_cons_of_neg (by rw [hhit]; exact Bool.false_ne_true), hfind]

end TiraRdp.Lib
