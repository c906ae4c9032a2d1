import TiraRdp.Rdp.Codec.ZgfxHistory

/-!
# ZGFX: what the bits of a segment decode to

The format that `zgfx_decompress_segment` decodes, as a relation between the tokens of `Lib.Lz77` and
the bits that spell them; the meaning of the tokens is their expansion from the history.

* `SpellsToken`, `Spells`: the bits of a token by the rows of `ZGFX_TOKEN_TABLE` and the code of a
  length (`countBits`). A raw run begins at a byte, so that a token depends on the bit it begins at.
* `Decoding`: the invariant of the decoder between two reads, with the bits that are still to come.

Results: a read takes the bits that come (`zgfx_GetBits_ok`), the search through the table finds the
row whose code comes (`search_finds`), a token adds its expansion to the output and to the history
(`search_ok`), and so do all of them (`tokens_ok`).
-/

namespace TiraRdp.Zgfx

open Lib Mem Lz77

/-! ## The format -/

/-- The code of the length of a copy. -/
def countBits (count : Nat) : List Bool :=
  if count = 3 then [false]
  else true :: (List.replicate (count.log2 - 2) true ++
    false :: toBits count.log2 (count - 2 ^ count.log2))

/-- The bits of a row, and of a value behind them. -/
def ZGFX_TOKEN.spell (t : ZGFX_TOKEN) (v : Nat) : List Bool :=
  toBits t.prefixLength t.prefixCode ++ toBits t.valueBits v

/-- The bits of a token that begins at bit `position`. -/
inductive SpellsToken (window position : Nat) : Token UInt8 → List Bool → Prop
  | literal {t : ZGFX_TOKEN} {v : Nat} (ht : t ∈ ZGFX_TOKEN_TABLE) (htype : t.tokenType = 0)
      (hv : v < 2 ^ t.valueBits) :
      SpellsToken window position (.literal (UInt8.ofNat (t.valueBase + v))) (t.spell v)
  | copy {t : ZGFX_TOKEN} {v count : Nat} (ht : t ∈ ZGFX_TOKEN_TABLE) (htype : t.tokenType ≠ 0)
      (hv : v < 2 ^ t.valueBits) (hpos : 1 ≤ t.valueBase + v) (hwindow : t.valueBase + v ≤ window)
      (hcount : 3 ≤ count) :
      SpellsToken window position (.copy (t.valueBase + v) count) (t.spell v ++ countBits count)
  | raw {t : ZGFX_TOKEN} {v : Nat} {gap : List Bool} {run : Bytes} (ht : t ∈ ZGFX_TOKEN_TABLE)
      (htype : t.tokenType ≠ 0) (hv : v < 2 ^ t.valueBits) (hzero : t.valueBase + v = 0)
      (hrun : run.length < 2 ^ 15) (hgap : gap.length < 8)
      (haligned : (position + (t.spell v ++ toBits 15 run.length ++ gap).length) % 8 = 0) :
      SpellsToken window position (.raw run) (t.spell v ++ toBits 15 run.length ++ gap ++ bitsOf run)

/-- The bits of tokens, from bit `position` on. -/
inductive Spells (window : Nat) : Nat → List (Token UInt8) → List Bool → Prop
  | nil (position : Nat) : Spells window position [] []
  | cons {position : Nat} {token : Token UInt8} {tokens : List (Token UInt8)} {code bits : List Bool}
      (htoken : SpellsToken window position token code)
      (htokens : Spells window (position + code.length) tokens bits) :
      Spells window position (token :: tokens) (code ++ bits)

/-! ## Reading -/

/-- The bits that come: those that are held, and those of the bytes that have not been read. -/
structure Reads (src : Bytes) (z : ZGFX_CONTEXT) (pending : List Bool) : Prop where
  current_le : z.pbInputCurrent ≤ z.pbInputEnd
  end_le : z.pbInputEnd ≤ src.length
  held : z.BitsCurrent < 2 ^ z.cBitsCurrent
  pending_eq : toBits z.cBitsCurrent z.BitsCurrent ++
    bitsOf ((src.take z.pbInputEnd).drop z.pbInputCurrent) = pending

/-- Between two reads, with `bits` still to come and `pad` behind them. -/
structure Decoding (src : Bytes) (pad : List Bool) (position : Nat) (bits : List Bool)
    (history out : Bytes) (z : ZGFX_CONTEXT) : Prop where
  reads : Reads src z (bits ++ pad)
  few : z.cBitsCurrent < 8
  aligned : (position + z.cBitsCurrent) % 8 = 0
  remaining : z.cBitsRemaining = bits.length
  small : bits.length < 2 ^ 32
  keeps : z.Keeps history
  size_eq : z.HistoryBufferSize = 2500000
  output : z.output = out

/-- The context after more input has been taken. -/
def ZGFX_CONTEXT.reading (z : ZGFX_CONTEXT) (current bitsCurrent cBitsCurrent : Nat) : ZGFX_CONTEXT :=
  { z with pbInputCurrent := current, BitsCurrent := bitsCurrent, cBitsCurrent := cBitsCurrent }

/-- A byte moves from the input to the bits that are held. -/
theorem Reads.byte {src : Bytes} {z : ZGFX_CONTEXT} {pending : List Bool} {b : UInt8}
    (h : Reads src z pending) (hlt : z.pbInputCurrent < z.pbInputEnd)
    (hb : src[z.pbInputCurrent]? = some b) (hheld : z.cBitsCurrent < 24) :
    Reads src (z.reading (z.pbInputCurrent + 1) (u32 (z.BitsCurrent * 2 ^ 8) + b.toNat)
      (z.cBitsCurrent + 8)) pending := by
  obtain ⟨-, hend, hbits, hpending⟩ := h
  have hpow : 2 ^ (z.cBitsCurrent + 8) = 2 ^ z.cBitsCurrent * 2 ^ 8 := Nat.pow_add ..
  have hmax : 2 ^ z.cBitsCurrent ≤ 2 ^ 23 := Nat.pow_le_pow_right (by decide) (by omega)
  have hb8 := b.toNat_lt
  have hu32 : u32 (z.BitsCurrent * 2 ^ 8) = z.BitsCurrent * 2 ^ 8 := u32_of_lt (by omega)
  have hdrop : (src.take z.pbInputEnd).drop z.pbInputCurrent =
      b :: (src.take z.pbInputEnd).drop (z.pbInputCurrent + 1) := by
    rw [List.drop_eq_getElem?_toList_append, List.getElem?_take_of_lt hlt, hb]
    rfl
  refine ⟨hlt, hend, ?_, ?_⟩
  · change u32 (z.BitsCurrent * 2 ^ 8) + b.toNat < 2 ^ (z.cBitsCurrent + 8)
    rw [hu32, hpow]
    omega
  · change toBits (z.cBitsCurrent + 8) (u32 (z.BitsCurrent * 2 ^ 8) + b.toNat) ++
      bitsOf ((src.take z.pbInputEnd).drop (z.pbInputCurrent + 1)) = pending
    rw [hu32, toBits_mul_add hb8, List.append_assoc, ← bitsOf_cons, ← hdrop, hpending]

/-- `fetch` takes bytes until there are enough bits. -/
theorem fetch_ok {src : Bytes} {z : ZGFX_CONTEXT} {pending : List Bool} {nbits n : Nat}
    (h : Reads src z pending) (hn : nbits ≤ 24) (hlen : nbits ≤ pending.length)
    (hrounds : nbits ≤ z.cBitsCurrent + 8 * n) (hfew : z.cBitsCurrent < nbits + 8) :
    ∃ current held c, fetch src nbits n z = .ok (z.reading current held c) ∧
      Reads src (z.reading current held c) pending ∧ nbits ≤ c ∧ c < nbits + 8 ∧
      c % 8 = z.cBitsCurrent % 8 := by
  induction n generalizing z with
  | zero => exact ⟨_, _, _, rfl, h, by omega, hfew, rfl⟩
  | succ n ih =>
    unfold fetch
    by_cases hmore : z.cBitsCurrent < nbits
    · have hin : z.pbInputCurrent < z.pbInputEnd := by
        have hcount := congrArg List.length h.pending_eq
        rw [List.length_append, toBits_length, bitsOf_length, List.length_drop,
          List.length_take_of_le h.end_le] at hcount
        omega
      obtain ⟨b, hb⟩ : ∃ b, src[z.pbInputCurrent]? = some b :=
        ⟨_, List.getElem?_eq_getElem (Nat.lt_of_lt_of_le hin h.end_le)⟩
      rw [if_pos hmore, if_pos hin, hb]
      obtain ⟨current, held, c, hfetch, hreads, hc⟩ := ih (h.byte hin hb (by omega))
        (by change nbits ≤ z.cBitsCurrent + 8 + 8 * n; omega)
        (by change z.cBitsCurrent + 8 < nbits + 8; omega)
      refine ⟨current, held, c, hfetch, hreads, hc.1, hc.2.1, ?_⟩
      rw [hc.2.2]
      exact Nat.add_mod_right _ _
    · rw [if_neg hmore]
      exact ⟨_, _, _, rfl, h, by omega, hfew, rfl⟩

/-- **A read** takes the bits that come. -/
theorem zgfx_GetBits_ok {src : Bytes} {pad rest : List Bool} {position n v : Nat}
    {history out : Bytes} {z : ZGFX_CONTEXT}
    (h : Decoding src pad position (toBits n v ++ rest) history out z) (hn : n ≤ 24)
    (hv : v < 2 ^ n) :
    ∃ z', zgfx_GetBits src z n = .ok z' ∧ z'.bits = v ∧
      Decoding src pad (position + n) rest history out z' := by
  have hlen : (toBits n v ++ rest).length = n + rest.length := by
    rw [List.length_append, toBits_length]
  obtain ⟨current, held, c, hfetch, hreads, hle, hlt, hmod⟩ := fetch_ok (n := n) h.reads hn
    (by rw [List.length_append]; omega) (by omega) (Nat.lt_of_lt_of_le h.few (Nat.le_add_left 8 n))
  obtain ⟨extra, rfl⟩ := Nat.exists_eq_add_of_le hle
  -- the bits that are held begin with those that are read
  have hheld : held < 2 ^ (n + extra) := hreads.held
  have hsplit := hreads.pending_eq
  change toBits (n + extra) held ++ bitsOf ((src.take z.pbInputEnd).drop current) =
    toBits n v ++ rest ++ pad at hsplit
  rw [toBits_add, List.append_assoc, List.append_assoc] at hsplit
  obtain ⟨hread, hrest⟩ := List.append_inj hsplit (by simp)
  have hvalue : held / 2 ^ extra = v := by
    have hnumber := congrArg ofBits hread
    rwa [ofBits_toBits_of_lt hv, ofBits_toBits_of_lt] at hnumber
    rw [Nat.div_lt_iff_lt_mul (Nat.two_pow_pos extra), ← Nat.pow_add]
    exact hheld
  have hremaining : subU32 z.cBitsRemaining n = rest.length := by
    have hsmall := h.small
    rw [h.remaining, hlen] at *
    rw [subU32_of_le hsmall (by omega)]
    omega
  unfold zgfx_GetBits
  rw [hfetch]
  refine ⟨_, rfl, ?_, ⟨⟨hreads.current_le, hreads.end_le, ?_, ?_⟩, ?_, ?_, hremaining, ?_, h.keeps,
    h.size_eq, h.output⟩⟩
  · change held / 2 ^ (n + extra - n) = v
    rw [Nat.add_sub_cancel_left, hvalue]
  · change held % 2 ^ (n + extra - n) < 2 ^ (n + extra - n)
    exact Nat.mod_lt _ (Nat.two_pow_pos _)
  · change toBits (n + extra - n) (held % 2 ^ (n + extra - n)) ++
      bitsOf ((src.take z.pbInputEnd).drop current) = rest ++ pad
    rw [Nat.add_sub_cancel_left, toBits_mod, hrest]
  · change n + extra - n < 8
    omega
  · change (position + n + (n + extra - n)) % 8 = 0
    have haligned := h.aligned
    omega
  · have hsmall := h.small
    omega

theorem readPrefix_ok {src : Bytes} {pad rest : List Bool} {position n v : Nat}
    {history out : Bytes} {z : ZGFX_CONTEXT} (inPrefix : Nat)
    (h : Decoding src pad position (toBits n v ++ rest) history out z) :
    ∃ z', readPrefix src n inPrefix z = .ok (inPrefix * 2 ^ n + v % 2 ^ n, z') ∧
      Decoding src pad (position + n) rest history out z' := by
  induction n generalizing z position inPrefix with
  | zero => exact ⟨z, by rw [readPrefix, Nat.pow_zero, Nat.mod_one, Nat.mul_one]; rfl, h⟩
  | succ n ih =>
    have hbit : toBits (n + 1) v = toBits 1 (v.testBit n).toNat ++ toBits n v := by
      cases hb : v.testBit n <;> simp [toBits, hb]
    rw [hbit, List.append_assoc] at h
    obtain ⟨z', hget, hbits, hnext⟩ := zgfx_GetBits_ok h (by decide)
      (Nat.lt_succ_of_le (Bool.toNat_le _))
    obtain ⟨z'', hread, hrest⟩ := ih (inPrefix * 2 + z'.bits) hnext
    refine ⟨z'', ?_, by rw [← Nat.add_assoc, Nat.add_right_comm]; exact hrest⟩
    rw [readPrefix, hget]
    simp only [bind, Except.bind]
    rw [hread, hbits, Nat.mod_pow_succ, Nat.toNat_testBit, Nat.pow_succ']
    grind

/-! ## The search through the table -/

/-- The code of a row is not the beginning of that of a later one, and not longer. -/
def ZGFX_TOKEN.Before (t u : ZGFX_TOKEN) : Prop :=
  t.prefixLength ≤ u.prefixLength ∧
    u.prefixCode / 2 ^ (u.prefixLength - t.prefixLength) ≠ t.prefixCode

instance (t u : ZGFX_TOKEN) : Decidable (t.Before u) := inferInstanceAs (Decidable (_ ∧ _))

theorem table_before : ZGFX_TOKEN_TABLE.Pairwise ZGFX_TOKEN.Before := by decide +kernel

/-- Every row has a code of at least one bit that fits its length, a value of at most 24 bits, and
the values of a literal are bytes. -/
theorem table_fits : ∀ t ∈ ZGFX_TOKEN_TABLE, 1 ≤ t.prefixLength ∧ t.prefixCode < 2 ^ t.prefixLength ∧
    t.valueBits ≤ 24 ∧ (t.tokenType = 0 → t.valueBase + 2 ^ t.valueBits ≤ 256) := by
  decide +kernel

/-- **The search** finds the row whose code comes. -/
theorem search_finds {src : Bytes} {pad rest : List Bool} {rows : List ZGFX_TOKEN} {t : ZGFX_TOKEN}
    {position : Nat} (fuel haveBits : Nat) {history out : Bytes} {z : ZGFX_CONTEXT}
    (hrows : rows.Pairwise ZGFX_TOKEN.Before) (ht : t ∈ rows)
    (hhave : ∀ r ∈ rows, haveBits ≤ r.prefixLength)
    (h : Decoding src pad position (toBits (t.prefixLength - haveBits) t.prefixCode ++ rest)
      history out z) :
    ∃ z', search src fuel rows haveBits (t.prefixCode / 2 ^ (t.prefixLength - haveBits)) z =
        act src fuel t z' ∧
      Decoding src pad (position + (t.prefixLength - haveBits)) rest history out z' := by
  induction rows generalizing position haveBits z with
  | nil => cases ht
  | cons r rows ih =>
    have hr := hhave r List.mem_cons_self
    rw [List.pairwise_cons] at hrows
    unfold search
    rcases List.mem_cons.mp ht with rfl | hlater
    · obtain ⟨z', hread, hnext⟩ :=
        readPrefix_ok (t.prefixCode / 2 ^ (t.prefixLength - haveBits)) h
      rw [hread, Nat.mul_comm, Nat.div_add_mod]
      exact ⟨z', if_pos rfl, hnext⟩
    · obtain ⟨hlonger, hdiffers⟩ := hrows.1 t hlater
      -- the first bits of the code of `t`, and those behind them
      have hsplit : t.prefixLength - haveBits =
          (r.prefixLength - haveBits) + (t.prefixLength - r.prefixLength) := by omega
      rw [hsplit, toBits_add, List.append_assoc] at h
      obtain ⟨z', hread, hnext⟩ :=
        readPrefix_ok (t.prefixCode / 2 ^ (t.prefixLength - haveBits)) h
      have hsofar : t.prefixCode / 2 ^ (t.prefixLength - haveBits) * 2 ^ (r.prefixLength - haveBits) +
          t.prefixCode / 2 ^ (t.prefixLength - r.prefixLength) % 2 ^ (r.prefixLength - haveBits) =
          t.prefixCode / 2 ^ (t.prefixLength - r.prefixLength) := by
        rw [hsplit, Nat.add_comm (r.prefixLength - haveBits), Nat.pow_add, ← Nat.div_div_eq_div_mul,
          Nat.mul_comm, Nat.div_add_mod]
      have hmax : max haveBits r.prefixLength = r.prefixLength := Nat.max_eq_right hr
      obtain ⟨z'', hsearch, hfound⟩ := ih r.prefixLength hrows.2 hlater
        (fun u hu => (hrows.1 u hu).1) hnext
      refine ⟨z'', ?_, ?_⟩
      · rw [hread, hsofar]
        simp only [bind, Except.bind]
        rw [if_neg hdiffers, hmax, hsearch]
      · rw [hsplit, ← Nat.add_assoc]
        exact hfound

/-! ## A token -/

theorem readExtra_ok {src : Bytes} {pad rest : List Bool} {position m : Nat}
    {history out : Bytes} {z : ZGFX_CONTEXT} (fuel count extra : Nat)
    (h : Decoding src pad position (List.replicate m true ++ false :: rest) history out z)
    (hfuel : m < fuel) (hcount : count * 2 ^ m < 2 ^ 32) :
    ∃ z₁ z₂, zgfx_GetBits src z 1 = .ok z₁ ∧
      readExtra src fuel count extra z₁ = .ok (count * 2 ^ m, extra + m, z₂) ∧
      Decoding src pad (position + (m + 1)) rest history out z₂ := by
  induction m generalizing position fuel count extra z with
  | zero =>
    obtain ⟨fuel, rfl⟩ := Nat.exists_eq_add_of_lt hfuel
    obtain ⟨z₁, hget, hbits, hnext⟩ := zgfx_GetBits_ok (n := 1) (v := 0) h (by decide) (by decide)
    refine ⟨z₁, z₁, hget, ?_, hnext⟩
    rw [readExtra, if_neg (by rw [hbits]; decide), Nat.pow_zero, Nat.mul_one]
    rfl
  | succ m ih =>
    obtain ⟨fuel, rfl⟩ : ∃ n, fuel = n + 1 := ⟨fuel - 1, by omega⟩
    rw [List.replicate_succ, List.cons_append] at h
    obtain ⟨z₁, hget, hbits, hnext⟩ := zgfx_GetBits_ok (n := 1) (v := 1) h (by decide) (by decide)
    have hone : 1 ≤ 2 ^ m := Nat.one_le_two_pow
    have hdouble : u32 (count * 2) = count * 2 := by
      refine u32_of_lt (Nat.lt_of_le_of_lt ?_ hcount)
      rw [Nat.pow_succ']
      exact Nat.mul_le_mul_left count (by omega)
    obtain ⟨z₂, z₃, hsecond, hextra, hrest⟩ := ih fuel (count * 2) (extra + 1) hnext (by omega) (by rw [Nat.mul_assoc, ← Nat.pow_succ']; exact hcount)
    refine ⟨z₁, z₃, hget, ?_, by rw [Nat.add_assoc, Nat.add_comm 1] at hrest; exact hrest⟩
    rw [readExtra, if_pos hbits, hsecond]
    simp only [bind, Except.bind]
    rw [hdouble, hextra, Nat.pow_succ', Nat.mul_assoc, Nat.add_assoc, Nat.add_comm 1]

theorem countBits_length {count : Nat} (h : 4 ≤ count) :
    (countBits count).length = 1 + (count.log2 - 2 + 1 + count.log2) := by
  unfold countBits
  rw [if_neg (by omega)]
  simp
  omega

/-- The length of a copy is read from its code. -/
theorem readCount_ok {src : Bytes} {pad rest : List Bool} {position fuel count : Nat}
    {history out : Bytes} {z : ZGFX_CONTEXT}
    (h : Decoding src pad position (countBits count ++ rest) history out z) (hcount : 3 ≤ count)
    (hmax : count < 2 ^ 24) (hfuel : 24 ≤ fuel) :
    ∃ z', readCount src fuel z = .ok (count, z') ∧
      Decoding src pad (position + (countBits count).length) rest history out z' := by
  rcases Nat.eq_or_lt_of_le hcount with rfl | hlong
  · obtain ⟨z₁, hget, hbits, hnext⟩ := zgfx_GetBits_ok (n := 1) (v := 0) h (by decide) (by decide)
    refine ⟨z₁, ?_, hnext⟩
    rw [readCount, hget]
    simp only [bind, Except.bind]
    rw [if_pos hbits]
  · rw [countBits_length hlong]
    unfold countBits at h
    rw [if_neg (by omega)] at h
    -- the code of `2 ^ e`, and the rest of `count` in `e` bits
    have hlow : 2 ≤ count.log2 := (Nat.le_log2 (by omega)).mpr hlong
    have hhigh : count.log2 < 24 := (Nat.log2_lt (by omega)).mpr hmax
    have hbase : 2 ^ count.log2 ≤ count := Nat.log2_self_le (by omega)
    have hover : count < 2 ^ (count.log2 + 1) := Nat.lt_log2_self
    generalize count.log2 = e at h hlow hhigh hbase hover ⊢
    rw [List.cons_append, List.append_assoc, List.cons_append] at h
    obtain ⟨z₁, hget, hbits, hnext⟩ := zgfx_GetBits_ok (n := 1) (v := 1) h (by decide) (by decide)
    have hfour : 4 * 2 ^ (e - 2) = 2 ^ e := by
      obtain ⟨k, rfl⟩ := Nat.exists_eq_add_of_le hlow
      rw [Nat.add_sub_cancel_left, Nat.pow_add]
    have hbig : 2 ^ e < 2 ^ 24 := Nat.pow_lt_pow_right (by decide) hhigh
    obtain ⟨z₂, z₃, hsecond, hextra, hvalue⟩ := readExtra_ok fuel 4 2
      hnext (by omega) (by omega)
    obtain ⟨z₄, hlast, hlastbits, hdone⟩ := zgfx_GetBits_ok hvalue (by omega)
      (by rw [Nat.pow_succ'] at hover; omega)
    refine ⟨z₄, ?_, by rw [Nat.add_assoc, Nat.add_assoc] at hdone; exact hdone⟩
    rw [readCount, hget]
    simp only [bind, Except.bind]
    rw [if_neg (by rw [hbits]; decide), hsecond]
    simp only
    rw [hextra, hfour, Nat.add_sub_of_le hlow]
    simp only
    rw [hlast]
    simp only
    rw [hlastbits, Nat.add_sub_of_le hbase, u32_of_lt (by omega)]

/-- What is done with a token adds `xs` to the output and to the history. -/
theorem Decoding.add {src : Bytes} {pad bits : List Bool} {position : Nat} {history out xs : Bytes}
    {z : ZGFX_CONTEXT} {buffer : Mem UInt8} {index : Nat}
    (h : Decoding src pad position bits history out z)
    (hkeeps : (z.remember buffer index).Keeps (history ++ xs)) :
    Decoding src pad position bits (history ++ xs) (out ++ xs)
      { z.remember buffer index with output := z.output ++ xs } where
  reads := ⟨h.reads.current_le, h.reads.end_le, h.reads.held, h.reads.pending_eq⟩
  few := h.few
  aligned := h.aligned
  remaining := h.remaining
  small := h.small
  keeps := hkeeps
  size_eq := h.size_eq
  output := congrArg (· ++ xs) h.output

theorem emit_ok {z : ZGFX_CONTEXT} {xs : Bytes} (h : z.output.length + xs.length ≤ OutputBufferSize) :
    z.emit xs = .ok { z with output := z.output ++ xs } := if_pos h

variable {src : Bytes} {pad rest : List Bool} {position : Nat} {history out : Bytes}
  {z : ZGFX_CONTEXT}

theorem literal_ok (c : UInt8) (h : Decoding src pad position rest history out z)
    (hfit : out.length + 1 ≤ OutputBufferSize) :
    ∃ z', literal z c = .ok z' ∧
      Decoding src pad position rest (history ++ [c]) (out ++ [c]) z' := by
  have hindex := h.keeps.index_lt
  have hnext : (if z.HistoryIndex + 1 = z.HistoryBufferSize then 0 else z.HistoryIndex + 1) =
      (z.HistoryIndex + 1) % z.HistoryBufferSize := by
    by_cases hend : z.HistoryIndex + 1 = z.HistoryBufferSize
    · rw [if_pos hend, hend, Nat.mod_self]
    · rw [if_neg hend, Nat.mod_eq_of_lt (by omega)]
  have hwrite : ringWrite z.HistoryBuffer z.HistoryBufferSize z.HistoryIndex [c] =
      z.HistoryBuffer.write z.HistoryIndex [c] := if_pos hindex
  have hkeeps := h.keeps.ringWrite [c] (Nat.lt_of_le_of_lt (Nat.zero_le _) hindex)
  rw [hwrite, List.length_singleton, ← hnext] at hkeeps
  refine ⟨_, ?_, h.add hkeeps⟩
  unfold literal
  rw [writeWithin_of_le _ hindex]
  simp only [bind, Except.bind]
  rw [emit_ok (by rw [h.output]; exact hfit)]
  rfl

theorem copyMatch_ok {distance count : Nat} (h : Decoding src pad position rest history out z)
    (hpos : 1 ≤ distance) (hwindow : distance ≤ 2500000)
    (hfit : out.length + count ≤ OutputBufferSize) :
    ∃ z' xs, copyMatch z distance count = .ok z' ∧ copyBack distance history count = history ++ xs ∧
      Decoding src pad position rest (history ++ xs) (out ++ xs) z' := by
  have hsize := h.size_eq
  have hfit' : z.OutputCount + count ≤ OutputBufferSize := by
    rw [ZGFX_CONTEXT.OutputCount, h.output]
    exact hfit
  obtain ⟨xs, hread, hlen, hcopy⟩ := ring_read_ok count h.keeps hpos (by omega) (by omega)
  obtain ⟨buffer, index, hwrite, hkeeps⟩ := ring_write_ok xs h.keeps
  refine ⟨_, xs, ?_, hcopy, h.add hkeeps⟩
  unfold copyMatch
  rw [if_pos hfit', hread]
  simp only [bind, Except.bind]
  rw [hwrite]
  exact emit_ok (by rw [hlen]; exact hfit')

theorem unencoded_ok {gap : List Bool} {run : Bytes}
    (h : Decoding src pad position (toBits 15 run.length ++ gap ++ bitsOf run ++ rest) history out z)
    (hrun : run.length < 2 ^ 15) (hgap : gap.length < 8)
    (haligned : (position + 15 + gap.length) % 8 = 0)
    (hfit : out.length + run.length ≤ OutputBufferSize) :
    ∃ z', unencoded src z = .ok z' ∧
      Decoding src pad (position + 15 + gap.length + 8 * run.length) rest (history ++ run)
        (out ++ run) z' := by
  rw [List.append_assoc, List.append_assoc] at h
  obtain ⟨z₁, hget, hbits, h₁⟩ := zgfx_GetBits_ok h (by decide) hrun
  -- what is held are the bits up to the next byte
  have hheld : z₁.cBitsCurrent = gap.length := by
    have hfew := h₁.few
    have hedge := h₁.aligned
    omega
  have hpending := h₁.reads.pending_eq
  rw [List.append_assoc, List.append_assoc] at hpending
  obtain ⟨-, hbytes⟩ := List.append_inj hpending (by rw [toBits_length, hheld])
  obtain ⟨more, hmore, hrest⟩ := bitsOf_eq_append hbytes
  have hcurrent := h₁.reads.current_le
  have hend := h₁.reads.end_le
  have hcount : z₁.pbInputEnd - z₁.pbInputCurrent = run.length + more.length := by
    have hlen := congrArg List.length hmore
    rwa [List.length_drop, List.length_take_of_le hend, List.length_append] at hlen
  have hsource : sourceBytes src z₁.pbInputCurrent z₁.bits = .ok run := by
    have htake : (src.drop z₁.pbInputCurrent).take run.length = run := by
      have hprefix := congrArg (List.take run.length) hmore
      rwa [List.take_left, List.drop_take, List.take_take, Nat.min_eq_left (by omega)] at hprefix
    unfold sourceBytes
    rw [hbits, if_pos (by omega), htake]
  have hremaining := h₁.remaining
  have hsmall := h₁.small
  rw [List.length_append, List.length_append, bitsOf_length] at hremaining hsmall
  have hleft : subU32 (subU32 z₁.cBitsRemaining z₁.cBitsCurrent) (8 * run.length) =
      rest.length := by
    rw [subU32_of_le (a := z₁.cBitsRemaining) (by omega) (by omega),
      subU32_of_le (by omega) (by omega)]
    omega
  obtain ⟨buffer, index, hwrite, hkeeps⟩ := ring_write_ok (z := { z₁ with
      cBitsRemaining := subU32 z₁.cBitsRemaining z₁.cBitsCurrent
      cBitsCurrent := 0
      BitsCurrent := 0
      output := z₁.output ++ run }) run h₁.keeps
  unfold unencoded
  rw [hget]
  simp only [bind, Except.bind]
  rw [hsource]
  simp only
  rw [emit_ok (by dsimp only; rw [h₁.output]; exact hfit)]
  simp only
  rw [hwrite]
  refine ⟨_, rfl, ⟨⟨?_, hend, Nat.one_pos, ?_⟩, by change 0 < 8; decide, ?_, ?_, by omega, hkeeps,
    h₁.size_eq, ?_⟩⟩
  · change z₁.pbInputCurrent + z₁.bits ≤ z₁.pbInputEnd
    omega
  · change [] ++ bitsOf ((src.take z₁.pbInputEnd).drop (z₁.pbInputCurrent + z₁.bits)) = rest ++ pad
    rw [List.nil_append, hbits, ← List.drop_drop, hmore, List.drop_left, hrest]
  · change (position + 15 + gap.length + 8 * run.length + 0) % 8 = 0
    omega
  · change subU32 (subU32 z₁.cBitsRemaining z₁.cBitsCurrent) (8 * z₁.bits) = rest.length
    rw [hbits, hleft]
  · exact congrArg (· ++ run) h₁.output

/-- **A token** is found in the table and adds its expansion. -/
theorem search_ok {token : Token UInt8} {code : List Bool} {fuel : Nat}
    (htoken : SpellsToken 2500000 position token code)
    (h : Decoding src pad position (code ++ rest) history out z)
    (hfit : out.length + token.size ≤ OutputBufferSize) (hfuel : 24 ≤ fuel) :
    ∃ z' xs, search src fuel ZGFX_TOKEN_TABLE 0 0 z = .ok z' ∧ token.expand history = history ++ xs ∧
      xs.length = token.size ∧
      Decoding src pad (position + code.length) rest (history ++ xs) (out ++ xs) z' := by
  have hrow (t : ZGFX_TOKEN) (ht : t ∈ ZGFX_TOKEN_TABLE) (v : Nat) (hv : v < 2 ^ t.valueBits)
      (more : List Bool) (h : Decoding src pad position (t.spell v ++ more) history out z) :
      ∃ z₁ z₂, search src fuel ZGFX_TOKEN_TABLE 0 0 z = act src fuel t z₁ ∧
        zgfx_GetBits src z₁ t.valueBits = .ok z₂ ∧ z₂.bits = v ∧
        Decoding src pad (position + t.prefixLength + t.valueBits) more history out z₂ := by
    obtain ⟨-, hcode, hbits, -⟩ := table_fits t ht
    rw [ZGFX_TOKEN.spell, List.append_assoc] at h
    obtain ⟨z₁, hsearch, h₁⟩ := search_finds fuel 0 table_before ht
      (fun r _ => Nat.zero_le _) h
    rw [Nat.sub_zero, Nat.div_eq_of_lt hcode] at hsearch
    obtain ⟨z₂, hget, hvalue, h₂⟩ := zgfx_GetBits_ok h₁ hbits hv
    exact ⟨z₁, z₂, hsearch, hget, hvalue, h₂⟩
  cases htoken with
  | @literal t v ht htype hv =>
    obtain ⟨z₁, z₂, hsearch, hget, hvalue, h₂⟩ := hrow t ht v hv rest h
    obtain ⟨z₃, hliteral, h₃⟩ := literal_ok (UInt8.ofNat (t.valueBase + v)) h₂ hfit
    refine ⟨z₃, _, ?_, rfl, rfl, ?_⟩
    · rw [hsearch, act, hget]
      simp only [bind, Except.bind]
      rw [if_pos htype, hvalue, hliteral]
    · rw [ZGFX_TOKEN.spell, List.length_append, toBits_length, toBits_length, ← Nat.add_assoc]
      exact h₃
  | @copy t v count ht htype hv hpos hwindow hcount =>
    rw [List.append_assoc] at h
    obtain ⟨z₁, z₂, hsearch, hget, hvalue, h₂⟩ := hrow t ht v hv _ h
    have hmax : out.length + count ≤ 65536 := hfit
    obtain ⟨z₃, hread, h₃⟩ := readCount_ok h₂ hcount (by omega) hfuel
    obtain ⟨z₄, xs, hmatch, hcopy, h₄⟩ := copyMatch_ok h₃ hpos hwindow hfit
    have hlen := congrArg List.length hcopy
    rw [copyBack_length hpos (Nat.le_trans hwindow (h.size_eq ▸ h.keeps.size_le)),
      List.length_append] at hlen
    refine ⟨z₄, xs, ?_, hcopy, Nat.add_left_cancel hlen.symm, ?_⟩
    · rw [hsearch, act, hget]
      simp only [bind, Except.bind]
      rw [if_neg htype, hvalue, if_pos (by omega), hread]
      exact hmatch
    · rw [List.length_append, ZGFX_TOKEN.spell, List.length_append, toBits_length, toBits_length,
        ← Nat.add_assoc, ← Nat.add_assoc]
      exact h₄
  | @raw t v gap run ht htype hv hzero hrun hgap haligned =>
    have hspell : (t.spell v).length = t.prefixLength + t.valueBits := by
      rw [ZGFX_TOKEN.spell, List.length_append, toBits_length, toBits_length]
    rw [List.length_append, List.length_append, toBits_length, hspell] at haligned
    have hassoc : t.spell v ++ toBits 15 run.length ++ gap ++ bitsOf run ++ rest =
        t.spell v ++ (toBits 15 run.length ++ gap ++ bitsOf run ++ rest) := by
      simp only [List.append_assoc]
    rw [hassoc] at h
    obtain ⟨z₁, z₂, hsearch, hget, hvalue, h₂⟩ := hrow t ht v hv _ h
    obtain ⟨z₃, hraw, h₃⟩ := unencoded_ok h₂ hrun hgap (by omega) hfit
    refine ⟨z₃, run, ?_, rfl, rfl, ?_⟩
    · rw [hsearch, act, hget]
      simp only [bind, Except.bind]
      rw [if_neg htype, hvalue, if_neg (by omega), hraw]
    · have hposition : position + (t.spell v ++ toBits 15 run.length ++ gap ++ bitsOf run).length =
          position + t.prefixLength + t.valueBits + 15 + gap.length + 8 * run.length := by
        rw [List.length_append, List.length_append, List.length_append, toBits_length,
          bitsOf_length, hspell]
        omega
      rw [hposition]
      exact h₃

theorem SpellsToken.pos {window : Nat} {token : Token UInt8} {code : List Bool}
    (h : SpellsToken window position token code) : 0 < code.length := by
  have hrow (t : ZGFX_TOKEN) (ht : t ∈ ZGFX_TOKEN_TABLE) (v : Nat) : 0 < (t.spell v).length := by
    have hlength := (table_fits t ht).1
    rw [ZGFX_TOKEN.spell, List.length_append, toBits_length]
    omega
  cases h with
  | literal ht _ _ => exact hrow _ ht _
  | copy ht _ _ _ _ _ =>
    rw [List.length_append]
    exact Nat.add_pos_left (hrow _ ht _) _
  | raw ht _ _ _ _ _ _ =>
    rw [List.length_append, List.length_append, List.length_append]
    exact Nat.add_pos_left (Nat.add_pos_left (Nat.add_pos_left (hrow _ ht _) _) _) _

/-- **Tokens**, one behind the other. -/
theorem tokens_ok {tokens : List (Token UInt8)} {bits : List Bool} (fuel : Nat) {n : Nat}
    (htokens : Spells 2500000 position tokens bits)
    (h : Decoding src pad position bits history out z)
    (hfit : out.length + (tokens.map Token.size).sum ≤ OutputBufferSize) (hfuel : 24 ≤ fuel)
    (hn : bits.length ≤ n) :
    ∃ z' xs, Loop.run (fun z => decide (z.cBitsRemaining ≠ 0))
        (fun z => search src fuel ZGFX_TOKEN_TABLE 0 0 z) n z = some (.ok z') ∧
      expandAll history tokens = history ++ xs ∧
      Decoding src pad (position + bits.length) [] (history ++ xs) (out ++ xs) z' := by
  induction htokens generalizing z history out n with
  | nil position =>
    refine ⟨z, [], Loop.run_of_not_cond ?_ n, ?_, ?_⟩
    · exact decide_eq_false (by rw [h.remaining]; simp)
    · rw [List.append_nil]
      rfl
    · rw [List.append_nil, List.append_nil]
      exact h
  | @cons position token tokens code bits htoken htokens ih =>
    rw [List.map_cons, List.sum_cons] at hfit
    have hcode := htoken.pos
    rw [List.length_append] at hn
    obtain ⟨n, rfl⟩ : ∃ m, n = m + 1 := ⟨n - 1, by omega⟩
    obtain ⟨z₁, xs, hsearch, hexpand, hlen, h₁⟩ := search_ok htoken h (by omega) hfuel
    obtain ⟨z₂, ys, hrun, hexpandAll, h₂⟩ := ih h₁ (by rw [List.length_append]; omega) (n := n)
      (by omega)
    refine ⟨z₂, xs ++ ys, ?_, ?_, ?_⟩
    · have hmore : z.cBitsRemaining ≠ 0 := by
        rw [h.remaining, List.length_append]
        omega
      rw [Loop.run, if_pos (decide_eq_true hmore), hsearch]
      exact hrun
    · rw [expandAll_cons, hexpand, hexpandAll, List.append_assoc]
    · rw [List.append_assoc, List.append_assoc] at h₂
      rw [List.length_append, ← Nat.add_assoc]
      exact h₂

end TiraRdp.Zgfx
