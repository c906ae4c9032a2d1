import TiraRdp.Rdp.Codec.MppcTokens

/-!
# MPPC: what the encoder writes

* `Limits`: how far a match may be looked for. After a flush the mark stands behind the history, and
  the places that are known are those of this packet.
* `Encoding`: the invariant of the encoder. What it has written spells tokens, which lead from the
  history at the beginning of the packet to the one that it has, and what they added to it is the
  part of the source that has been taken.

Results: the loop that makes a match longer copies (`extend_ok`), and a round gives the packet up or
goes on by a token (`encodeToken_ok`), so that the encoder gives up or has written tokens for the
whole source (`encodeTokens_ok`). No round leaves the history or the source.
-/

namespace TiraRdp.Mppc

open Lib Mem

def Limits (level p : Nat) (mppc : MPPC_CONTEXT) : Prop :=
  (mppc.HistoryPtr + 2 ≤ historySize level ∧ ∀ k, mppc.MatchBuffer k + 2 ≤ historySize level) ∨
    (mppc.HistoryPtr = historySize level + 1 ∧ ∀ k, mppc.MatchBuffer k ≤ p)

structure Encoding (level DstSize start : Nat) (m : Mem UInt8) (src : Bytes) (ts : List Token)
    (bits : List Bool) (c : Compress) : Prop where
  level_eq : c.mppc.CompressionLevel = level
  size_eq : c.mppc.HistoryBufferSize = historySize level
  written : c.bs.Written bits
  capacity_eq : c.bs.capacity = DstSize
  spells : Spells level start ts bits
  applied : applyAll (m, start) ts = (c.mppc.HistoryBuffer, c.HistoryPtr)
  start_le : start ≤ c.HistoryPtr
  taken : read c.mppc.HistoryBuffer start (c.HistoryPtr - start) ++ c.rest = src
  limits : Limits level c.HistoryPtr c.mppc

variable {level DstSize start : Nat} {m : Mem UInt8} {src : Bytes} {ts : List Token}
  {bits : List Bool} {c : Compress}

theorem Encoding.place (h : Encoding level DstSize start m src ts bits c) :
    c.HistoryPtr + c.rest.length = start + src.length := by
  have hlength := congrArg List.length h.taken
  rw [List.length_append, read_length] at hlength
  have hle := h.start_le
  omega

/-! ## The history -/

theorem read_singleton (m : Mem UInt8) (p : Nat) : read m p 1 = [m p] := rfl

/-- The cells before the place where it is put stay. -/
theorem apply_of_lt {p j : Nat} {t : Token} (hj : j < p) : (t.apply (m, p)).1 j = m j := by
  cases t with
  | literal b => exact write_other (by omega)
  | copy source count => exact copyRun_of_not_mem (.inl hj)

theorem read_congr {m m' : Mem UInt8} {off len : Nat} (h : ∀ j, off ≤ j → j < off + len → m j = m' j) :
    read m off len = read m' off len := by
  apply List.ext_getElem (by simp)
  intro i h1 h2
  rw [read_length] at h1
  rw [getElem_read, getElem_read, h (off + i) (by omega) (by omega)]

/-- A token more. -/
theorem Encoding.add {t : Token} {code : List Bool} {c' : Compress}
    (h : Encoding level DstSize start m src ts bits c)
    (ht : SpellsToken level c.HistoryPtr t code)
    (hlevel : c'.mppc.CompressionLevel = level) (hsize : c'.mppc.HistoryBufferSize = historySize level)
    (hwritten : c'.bs.Written (bits ++ code)) (hcapacity : c'.bs.capacity = DstSize)
    (happly : t.apply (c.mppc.HistoryBuffer, c.HistoryPtr) = (c'.mppc.HistoryBuffer, c'.HistoryPtr))
    (hrest : c'.rest = c.rest.drop t.count)
    (hread : read c'.mppc.HistoryBuffer c.HistoryPtr t.count = c.rest.take t.count)
    (hlimits : Limits level c'.HistoryPtr c'.mppc) :
    Encoding level DstSize start m src (ts ++ [t]) (bits ++ code) c' := by
  have hstart := h.start_le
  have hptr : c'.HistoryPtr = c.HistoryPtr + t.count :=
    (congrArg Prod.snd happly).symm.trans (apply_snd _ t)
  have hbuffer : c'.mppc.HistoryBuffer = (t.apply (c.mppc.HistoryBuffer, c.HistoryPtr)).1 :=
    (congrArg Prod.fst happly).symm
  have hspell : Spells level (applyAll (m, start) ts).2 [t] code := by
    rw [h.applied, ← List.append_nil code]
    exact .cons ht (.nil _)
  refine ⟨hlevel, hsize, hwritten, hcapacity, h.spells.append rfl hspell, ?_, by omega, ?_, hlimits⟩
  · rw [applyAll, List.foldl_append]
    change List.foldl Token.apply (applyAll (m, start) ts) [t] = _
    rw [h.applied]
    exact happly
  · have hsplit : c'.HistoryPtr - start = (c.HistoryPtr - start) + t.count := by omega
    have hback : start + (c.HistoryPtr - start) = c.HistoryPtr := by omega
    have hold : read c'.mppc.HistoryBuffer start (c.HistoryPtr - start) =
        read c.mppc.HistoryBuffer start (c.HistoryPtr - start) := by
      refine read_congr fun j _ hj => ?_
      rw [hbuffer, apply_of_lt (by omega)]
    rw [hsplit, read_add, hback, hold, hread, hrest, List.append_assoc, List.take_append_drop, h.taken]

/-- **The loop that makes a match longer** copies from behind the match. -/
theorem extend_ok (m : Mem UInt8) (mark count mp p : Nat) {rest : Bytes} (hrest : rest ≠ [])
    (hroom : p + rest.length + 2 ≤ historySize level)
    (hlimit : (mp ≤ mark + 1 ∧ mark + 2 ≤ historySize level) ∨ mp < p) :
    ∃ n, extend mark rest m p mp count =
        .ok (copyRun n m p mp, p + n, count + n, rest.drop n) ∧
      n < rest.length ∧ mp + n ≤ historySize level ∧ read (copyRun n m p mp) p n = rest.take n := by
  have hspace := (historySize_le level).2
  induction rest generalizing m p mp count with
  | nil => exact absurd rfl hrest
  | cons b rest ih =>
    rw [List.length_cons] at hroom ⊢
    have hmp : mp < historySize level := by
      rcases hlimit with h | h <;> omega
    rw [extend, historyAt_of_lt (by omega)]
    simp only [bind, Except.bind]
    split_ifs with hmore
    · obtain ⟨hb, hne, hmark⟩ := hmore
      obtain ⟨n, hextend, hn, hfits, hread⟩ := ih (m.write p [b]) (count + 1)
        (mp + 1) (p + 1) hne (by omega) (by omega)
      rw [putHistory_of_lt (by omega)]
      refine ⟨n + 1, ?_, by omega, by omega, ?_⟩
      · dsimp only
        rw [hextend, copyRun, ← hb, List.drop_succ_cons, Nat.add_assoc p 1 n, Nat.add_assoc count 1 n,
          Nat.add_comm 1 n]
      · have hfirst : copyRun n (m.write p [b]) (p + 1) (mp + 1) p = b := by
          rw [copyRun_of_not_mem (.inl (Nat.lt_succ_self p)), write_here]
        rw [copyRun, ← hb, Nat.add_comm n 1, read_add, read_singleton, hfirst, hread,
          Nat.add_comm 1 n, List.take_succ_cons]
        rfl
    · exact ⟨0, rfl, by omega, by omega, rfl⟩

theorem byteBefore_ok (mppc : MPPC_CONTEXT) {mp : Nat} (hmp : mp < HistorySpace) :
    ∃ before, byteBefore mppc mp = .ok before ∧
      (mp ≠ 0 → before = mppc.HistoryBuffer (mp - 1)) := by
  cases mp with
  | zero => exact ⟨_, rfl, fun h => absurd rfl h⟩
  | succ i => exact ⟨mppc.HistoryBuffer i, historyAt_of_lt (by omega), fun _ => rfl⟩

/-- Where a match has been found, the three symbols are those of the history; the byte in front of it
decides nothing. -/
theorem isMatch_ok (mppc : MPPC_CONTEXT) (p : Nat) {mp : Nat} (sym1 sym2 sym3 : UInt8)
    (hmp : mp + 1 < HistorySpace) :
    ∃ found, isMatch mppc (p + 1) mp sym1 sym2 sym3 = .ok found ∧
      (found = true → 1 ≤ mp ∧ mppc.HistoryBuffer (mp - 1) = sym1 ∧ mppc.HistoryBuffer mp = sym2 ∧
        mppc.HistoryBuffer (mp + 1) = sym3 ∧ mp + 1 ≤ mppc.HistoryPtr ∧ mp ≠ p ∧ mp ≠ p + 1) := by
  have hno : (false = true) → 1 ≤ mp ∧ mppc.HistoryBuffer (mp - 1) = sym1 ∧
      mppc.HistoryBuffer mp = sym2 ∧ mppc.HistoryBuffer (mp + 1) = sym3 ∧
      mp + 1 ≤ mppc.HistoryPtr ∧ mp ≠ p ∧ mp ≠ p + 1 := fun h => absurd h Bool.false_ne_true
  obtain ⟨before, hbefore, hcell⟩ := byteBefore_ok mppc (Nat.lt_of_succ_lt hmp)
  unfold isMatch
  rw [hbefore]
  simp only [bind, Except.bind]
  split_ifs with h1
  · exact ⟨false, rfl, hno⟩
  rw [historyAt_of_lt (by omega)]
  dsimp only
  split_ifs with h2
  · exact ⟨false, rfl, hno⟩
  rw [historyAt_of_lt hmp]
  refine ⟨_, rfl, fun hall => ?_⟩
  simp only [Bool.and_eq_true, beq_iff_eq, decide_eq_true_eq, Nat.add_sub_cancel] at hall
  obtain ⟨⟨⟨⟨h3, hmark⟩, hzero⟩, hne⟩, hne'⟩ := hall
  refine ⟨by omega, ?_, (not_not.mp h2).symm, h3.symm, hmark, hne, hne'⟩
  rw [← hcell hzero]
  exact (not_not.mp h1).symm

/-! ## The codes -/

theorem offset_ok (level p : Nat) {s : Nat} (hs : s < historySize level) :
    ((historySize level - 1) &&& subU32 (p + 1) (s + 1)) < historySize level ∧
      sourceOf level p ((historySize level - 1) &&& subU32 (p + 1) (s + 1)) = s := by
  unfold sourceOf
  unfold historySize at *
  have h16 (a : Nat) : (65536 - 1) &&& a = a % 65536 :=
    (Nat.and_comm _ _).trans (Nat.and_two_pow_sub_one_eq_mod a 16)
  have h13 (a : Nat) : (8192 - 1) &&& a = a % 8192 :=
    (Nat.and_comm _ _).trans (Nat.and_two_pow_sub_one_eq_mod a 13)
  unfold subU32 u32
  split_ifs at * <;> simp only [h16, h13] <;> omega

/-- A literal, or the packet is given up. -/
theorem literal_written (hwritten : c.bs.Written bits) (hcapacity : c.bs.capacity = DstSize)
    (hspace : 0 < DstSize ∧ DstSize < 2 ^ 32) (sym : UInt8) :
    c.literal DstSize sym = .error (.early ()) ∨
      ∃ bs, ∃ d ∈ literalCodes, c.literal DstSize sym = .ok { c with bs } ∧ d.Covers sym.toNat ∧
        bs.Written (bits ++ d.spell sym.toNat) ∧ bs.capacity = DstSize := by
  have hsym := sym.toNat_lt
  have h1 : RangeRow.Writes 256 ⟨0, 0x80, 0, 0, 0x7F, 8⟩ ⟨[false], 7, 0⟩ := by decide
  have h2 : RangeRow.Writes 256 ⟨0x80, 0x100, 0x100, 0, 0x7F, 9⟩ ⟨[true, false], 7, 128⟩ := by decide
  unfold Compress.literal
  rw [subU32_of_le hspace.2 hspace.1, hwritten.position_eq]
  split_ifs with hfull hlow
  · exact .inl rfl
  · have hcovers : Code.Covers ⟨[false], 7, 0⟩ sym.toNat := ⟨Nat.zero_le _, hlow⟩
    obtain ⟨hlt, hcode⟩ := h1.written_eq hcovers
    have hnumber : RangeRow.number ⟨0, 0x80, 0, 0, 0x7F, 8⟩ sym.toNat = sym.toNat := by
      rw [RangeRow.number, Nat.zero_or, Nat.sub_zero]
      exact (Nat.and_two_pow_sub_one_eq_mod _ 7).trans (Nat.mod_eq_of_lt hlow)
    rw [hnumber] at hlt hcode
    obtain ⟨hnext, hcap⟩ := hwritten.write_bits (n := 8) (by decide) hlt (by omega)
    rw [hcode] at hnext
    exact .inr ⟨_, _, by decide, rfl, hcovers, hnext, hcap.trans hcapacity⟩
  · have hcovers : Code.Covers ⟨[true, false], 7, 128⟩ sym.toNat := ⟨Nat.not_lt.mp hlow, hsym⟩
    obtain ⟨hlt, hcode⟩ := h2.written_eq hcovers
    obtain ⟨hnext, hcap⟩ := hwritten.write_bits (n := 9) (by decide) hlt (by omega)
    rw [hcode] at hnext
    exact .inr ⟨_, _, by decide, rfl, hcovers, hnext, hcap.trans hcapacity⟩

theorem writeRange_ok {rows : List RangeRow} {codes : List Code} {bound width v : Nat}
    {bs : wBitStream} (hrows : List.Forall₂ (RangeRow.Writes bound) rows codes)
    (hwidths : ∀ d ∈ codes, d.width ≤ width) (hwidth : width ≤ 32) (hv : v < bound)
    (hcovered : ∃ r ∈ rows, r.hit v = true) (hwritten : bs.Written bits)
    (hroom : bits.length + width ≤ 8 * bs.capacity) :
    ∃ d ∈ codes, d.Covers v ∧ (writeRange rows v bs).Written (bits ++ d.spell v) ∧
      (writeRange rows v bs).capacity = bs.capacity := by
  obtain ⟨r, hfind, d, hd, hcovers, hlt, hcode, hnbits⟩ := find_range hrows hv hcovered
  have hle := hwidths d hd
  obtain ⟨hnext, hcap⟩ := hwritten.write_bits (n := r.nbits) (by omega) hlt (by omega)
  rw [hcode] at hnext
  unfold writeRange
  rw [hfind]
  exact ⟨d, hd, hcovers, hnext, hcap⟩

theorem copyOffset_covered (level : Nat) {v : Nat} (hv : v < historySize level) :
    ∃ r ∈ copyOffsetRanges level, r.hit v = true := by
  unfold copyOffsetRanges
  unfold historySize at hv
  split_ifs at * <;> simp [RangeRow.hit] <;> omega

theorem length_covered (level : Nat) {v : Nat} (hv : v < historySize level) (h3 : 3 ≤ v) :
    ∃ r ∈ lengthRanges level, r.hit v = true := by
  unfold lengthRanges
  unfold historySize at hv
  split_ifs at * <;> simp [RangeRow.hit] <;> omega

theorem widths (level : Nat) : (∀ d ∈ copyOffsetCodes level, d.width ≤ 19) ∧
    ∀ d ∈ lengthCodes level, d.width ≤ 30 := by
  unfold copyOffsetCodes lengthCodes
  split_ifs <;> decide +kernel

/-! ## A round -/

/-- The context once the first symbol of a round has been put down. -/
def advance (mppc : MPPC_CONTEXT) (HistoryPtr MatchIndex : Nat) (sym1 : UInt8) : MPPC_CONTEXT :=
  { mppc with
    HistoryBuffer := mppc.HistoryBuffer.write HistoryPtr [sym1]
    MatchBuffer :=
      if mppc.MatchBuffer MatchIndex ≠ HistoryPtr then
        Function.update mppc.MatchBuffer MatchIndex ((HistoryPtr + 1) % 2 ^ 16)
      else mppc.MatchBuffer
    HistoryPtr := max mppc.HistoryPtr (HistoryPtr + 1) }

theorem Limits.advance {mppc : MPPC_CONTEXT} {p : Nat} (h : Limits level p mppc)
    (hp : p + 3 ≤ historySize level) (i : Nat) (sym1 : UInt8) :
    Limits level (p + 1) (advance mppc p i sym1) := by
  have hentry : (p + 1) % 2 ^ 16 ≤ p + 1 := Nat.mod_le _ _
  have hupdate (k : Nat) : (Mppc.advance mppc p i sym1).MatchBuffer k = mppc.MatchBuffer k ∨
      (Mppc.advance mppc p i sym1).MatchBuffer k = (p + 1) % 2 ^ 16 := by
    unfold Mppc.advance
    dsimp only
    split_ifs
    · rcases eq_or_ne k i with rfl | hne
      · exact .inr (Function.update_self ..)
      · exact .inl (Function.update_of_ne hne ..)
    · exact .inl rfl
  have hmark : (Mppc.advance mppc p i sym1).HistoryPtr = max mppc.HistoryPtr (p + 1) := rfl
  rcases h with ⟨hold, hall⟩ | ⟨hold, hall⟩
  · refine .inl ⟨by omega, fun k => ?_⟩
    have hk := hall k
    rcases hupdate k with heq | heq <;> omega
  · refine .inr ⟨by omega, fun k => ?_⟩
    have hk := hall k
    rcases hupdate k with heq | heq <;> omega

theorem Limits.mono {mppc mppc' : MPPC_CONTEXT} {p p' : Nat} (h : Limits level p mppc) (hp : p ≤ p')
    (hmark : mppc'.HistoryPtr = mppc.HistoryPtr) (hall : mppc'.MatchBuffer = mppc.MatchBuffer) :
    Limits level p' mppc' := by
  unfold Limits at *
  rw [hmark, hall]
  exact h.imp id fun ⟨hflushed, hplaces⟩ => ⟨hflushed, fun k => Nat.le_trans (hplaces k) hp⟩

/-- Where a match begins: its place in the history, and how far it may be read. -/
theorem Limits.place {mppc : MPPC_CONTEXT} {p : Nat} (h : Limits level p mppc)
    (hp : p + 3 ≤ historySize level) (i : Nat) :
    mppc.MatchBuffer i + 1 < historySize level ∧ (mppc.MatchBuffer i ≠ p →
      mppc.MatchBuffer i + 1 ≤ max mppc.HistoryPtr (p + 1) →
        (mppc.MatchBuffer i + 2 ≤ max mppc.HistoryPtr (p + 1) + 1 ∧
          max mppc.HistoryPtr (p + 1) + 2 ≤ historySize level) ∨ mppc.MatchBuffer i + 2 < p + 3) := by
  rcases h with ⟨hold, hall⟩ | ⟨hold, hall⟩ <;> have hi := hall i <;> omega

/-- The first three bytes of a copy are symbols that have been compared one after the other. -/
theorem copyRun_symbols {p s n : Nat} {sym1 sym2 sym3 : UInt8} (h1 : m s = sym1)
    (h2 : (m.write p [sym1]) (s + 1) = sym2)
    (h3 : ((m.write p [sym1]).write (p + 1) [sym2]) (s + 2) = sym3) :
    copyRun (3 + n) m p s = copyRun n (((m.write p [sym1]).write (p + 1) [sym2]).write (p + 2) [sym3])
      (p + 3) (s + 3) := by
  have h : 3 + n = n + 1 + 1 + 1 := by omega
  rw [h, copyRun, copyRun, copyRun, h1, h2]
  exact congrArg (fun b => copyRun n (((m.write p [sym1]).write (p + 1) [sym2]).write (p + 2) [b])
    (p + 3) (s + 3)) h3

theorem read_symbols {p s n : Nat} {sym1 sym2 sym3 : UInt8} :
    read (copyRun n (((m.write p [sym1]).write (p + 1) [sym2]).write (p + 2) [sym3]) (p + 3) s) p 3 =
      [sym1, sym2, sym3] := by
  have hcell (j : Nat) (hj : j < p + 3) :=
    copyRun_of_not_mem (n := n) (s := s)
      (m := ((m.write p [sym1]).write (p + 1) [sym2]).write (p + 2) [sym3]) (.inl hj)
  have hthree (m : Mem UInt8) : read m p 3 = [m p, m (p + 1), m (p + 2)] := rfl
  have hfirst : (((m.write p [sym1]).write (p + 1) [sym2]).write (p + 2) [sym3]) p = sym1 := by
    rw [write_other (by omega), write_other (by omega), write_here]
  have hsecond : (((m.write p [sym1]).write (p + 1) [sym2]).write (p + 2) [sym3]) (p + 1) = sym2 := by
    rw [write_other (by omega), write_here]
  rw [hthree, hcell _ (by omega), hcell _ (by omega), hcell _ (by omega), hfirst, hsecond, write_here]

section Round

variable (hspace : 0 < DstSize ∧ DstSize < 2 ^ 32)
  (hroom : start + src.length + 2 ≤ historySize level)

include hspace

/-- A copy, once a match has been found. -/
theorem copy_ok (mppc : MPPC_CONTEXT) (bs : wBitStream) {rest : Bytes} {p s : Nat}
    (sym2 sym3 : UInt8) (hlevel : mppc.CompressionLevel = level)
    (hsize : mppc.HistoryBufferSize = historySize level) (hwritten : bs.Written bits)
    (hcapacity : bs.capacity = DstSize) (hrest : rest ≠ [])
    (hp : p + 3 + rest.length + 2 ≤ historySize level)
    (hlimit : (s + 3 ≤ mppc.HistoryPtr + 1 ∧ mppc.HistoryPtr + 2 ≤ historySize level) ∨ s + 3 < p + 3)
    (hs : s + 2 < historySize level) :
    Compress.copy ⟨mppc, bs, p + 1, rest⟩ DstSize (s + 1) sym2 sym3 = .error (.early ()) ∨
      ∃ n code HistoryBuffer bs', HistoryBuffer = copyRun n ((mppc.HistoryBuffer.write (p + 1)
          [sym2]).write (p + 2) [sym3]) (p + 3) (s + 3) ∧
        Compress.copy ⟨mppc, bs, p + 1, rest⟩ DstSize (s + 1) sym2 sym3 =
          .ok ⟨{ mppc with HistoryBuffer }, bs', p + 3 + n, rest.drop n⟩ ∧
        bs'.Written (bits ++ code) ∧ bs'.capacity = DstSize ∧
        SpellsToken level p (.copy s (3 + n)) code ∧ n < rest.length ∧
        read HistoryBuffer (p + 3) n = rest.take n := by
  obtain ⟨-, hhistory⟩ := historySize_le level
  obtain ⟨n, hextend, hn, hfits, hread⟩ := extend_ok
    ((mppc.HistoryBuffer.write (p + 1) [sym2]).write (p + 2) [sym3]) mppc.HistoryPtr 3 (s + 3) (p + 3) hrest hp
    hlimit
  obtain ⟨hoffset, hsource⟩ := offset_ok level p (s := s) (by omega)
  unfold Compress.copy
  dsimp only
  rw [hsize, hlevel, putHistory_of_lt (by omega)]
  simp only [bind, Except.bind]
  rw [putHistory_of_lt (by omega)]
  dsimp only
  rw [hextend]
  dsimp only
  rw [subU32_of_le hspace.2 hspace.1, hwritten.position_eq]
  split_ifs with hfull
  · exact .inl rfl
  · obtain ⟨d, hd, hcovers, hwrites, hcap⟩ := writeRange_ok (copyOffsetRanges_writes level)
      (widths level).1 (by decide) hoffset (copyOffset_covered level hoffset) hwritten (by omega)
    have hwidth := (widths level).1 d hd
    obtain ⟨e, he, hcovered, hwrites', hcap'⟩ := writeRange_ok (lengthRanges_writes level)
      (widths level).2 (by decide) (v := 3 + n) (by omega)
      (length_covered level (by omega) (by omega)) hwrites
      (by rw [hcap, List.length_append, Code.spell_length]; omega)
    rw [List.append_assoc] at hwrites'
    exact .inr ⟨n, _, _, _, rfl, rfl, hwrites', by rw [hcap', hcap, hcapacity],
      .copy hd hcovers he hcovered hsource (by omega) (by omega) (by omega), hn, hread⟩

include hroom

/-- **A round** gives the packet up or goes on by a token. -/
theorem encodeToken_ok (h : Encoding level DstSize start m src ts bits c)
    (hlen : 3 < c.rest.length) :
    encodeToken DstSize c = .error (.early ()) ∨
      ∃ c' t code, encodeToken DstSize c = .ok c' ∧
        Encoding level DstSize start m src (ts ++ [t]) (bits ++ code) c' ∧
        c'.rest.length < c.rest.length := by
  obtain ⟨-, hhistory⟩ := historySize_le level
  have hplace := h.place
  have hlimits := h.limits
  obtain ⟨mppc, bs, p, rest⟩ := c
  dsimp only at hlen hplace hlimits
  match rest, hlen, hplace with
  | sym1 :: sym2 :: sym3 :: rest, hlen, hplace =>
    simp only [List.length_cons] at hlen hplace
    have hp : p + 3 ≤ historySize level := by omega
    have hlimits' := hlimits.advance hp (MPPC_MATCH_INDEX sym1 sym2 sym3) sym1
    obtain ⟨hin, hnear⟩ := hlimits.place hp (MPPC_MATCH_INDEX sym1 sym2 sym3)
    obtain ⟨found, hfound, hsyms⟩ := isMatch_ok
      (advance mppc p (MPPC_MATCH_INDEX sym1 sym2 sym3) sym1) p sym1 sym2 sym3
      (Nat.lt_of_lt_of_le hin hhistory)
    have hround : encodeToken DstSize ⟨mppc, bs, p, sym1 :: sym2 :: sym3 :: rest⟩ =
        if found then
          Compress.copy ⟨advance mppc p (MPPC_MATCH_INDEX sym1 sym2 sym3) sym1, bs, p + 1, rest⟩
            DstSize (mppc.MatchBuffer (MPPC_MATCH_INDEX sym1 sym2 sym3)) sym2 sym3
        else
          Compress.literal ⟨advance mppc p (MPPC_MATCH_INDEX sym1 sym2 sym3) sym1, bs, p + 1,
            sym2 :: sym3 :: rest⟩ DstSize sym1 := by
      unfold encodeToken
      dsimp only
      rw [putHistory_of_lt (by omega)]
      simp only [bind, Except.bind]
      unfold advance at hfound ⊢
      rw [Nat.add_sub_cancel, hfound]
    rw [hround]
    generalize MPPC_MATCH_INDEX sym1 sym2 sym3 = i at hlimits' hin hnear hfound hsyms ⊢
    cases found with
    | false =>
      rw [if_neg Bool.false_ne_true]
      rcases literal_written (c := ⟨advance mppc p i sym1, bs, p + 1, sym2 :: sym3 :: rest⟩) h.written
        h.capacity_eq hspace sym1 with hgiven | ⟨bs', d, hd, hliteral, hcovers, hwrites, hcap⟩
      · exact .inl hgiven
      · have hone : p + 1 ≤ historySize level := by omega
        refine .inr ⟨_, .literal sym1, _, hliteral, h.add (.literal hd hcovers hone) h.level_eq
          h.size_eq hwrites hcap rfl rfl ?_ hlimits', Nat.lt_succ_self _⟩
        change [(mppc.HistoryBuffer.write p [sym1]) p] = [sym1]
        rw [write_here]
    | true =>
      rw [if_pos rfl]
      obtain ⟨hmp, hsym1, hsym2, hsym3, hmark, hne, hne'⟩ := hsyms rfl
      obtain ⟨s, hs⟩ : ∃ s, mppc.MatchBuffer i = s + 1 := ⟨mppc.MatchBuffer i - 1, by omega⟩
      rw [hs] at hin hnear hmark hne hne' hsym1 hsym2 hsym3 ⊢
      rw [Nat.add_sub_cancel] at hsym1
      have hrest : rest ≠ [] := by
        rintro rfl
        simp at hlen
      rcases copy_ok hspace (advance mppc p i sym1) bs (p := p) (s := s) sym2 sym3 h.level_eq
        h.size_eq h.written h.capacity_eq hrest (by omega) (hnear hne hmark) hin with
          hgiven | ⟨n, code, m', bs', hm', hcopy, hwrites, hcap, hspell, hn, hread⟩
      · exact .inl hgiven
      · have hfirst : mppc.HistoryBuffer s = sym1 := by
          rw [← hsym1]
          exact (write_other (by omega)).symm
        have hthird : ((mppc.HistoryBuffer.write p [sym1]).write (p + 1) [sym2]) (s + 2) = sym3 := by
          rw [write_other (by omega)]
          exact hsym3
        have hthree : read m' p 3 = [sym1, sym2, sym3] := by
          rw [hm']
          exact read_symbols
        refine .inr ⟨_, .copy s (3 + n), code, hcopy, h.add hspell h.level_eq h.size_eq hwrites hcap
          ?_ ?_ ?_ (hlimits'.mono ?_ rfl rfl), ?_⟩
        · rw [hm']
          exact Prod.ext (copyRun_symbols hfirst hsym2 hthird) (Nat.add_assoc p 3 n).symm
        · change rest.drop n = (sym1 :: sym2 :: sym3 :: rest).drop (3 + n)
          rw [Nat.add_comm]
          rfl
        · change read m' p (3 + n) = (sym1 :: sym2 :: sym3 :: rest).take (3 + n)
          rw [read_add, hthree, hread, Nat.add_comm 3 n]
          rfl
        · change p + 1 ≤ p + 3 + n
          omega
        · simp only [List.length_cons, List.length_drop]
          omega

/-- The literals at the end. -/
theorem encodeTrailing_ok {rest : Bytes} (h : Encoding level DstSize start m src ts bits c)
    (hrest : c.rest = rest) :
    encodeTrailing DstSize rest c = .error (.early ()) ∨
      ∃ c' ts' bits', encodeTrailing DstSize rest c = .ok c' ∧
        Encoding level DstSize start m src ts' bits' c' ∧ c'.rest = [] := by
  obtain ⟨-, hhistory⟩ := historySize_le level
  induction rest generalizing c ts bits with
  | nil => exact .inr ⟨c, ts, bits, rfl, h, hrest⟩
  | cons sym rest ih =>
    have hplace := h.place
    rw [hrest, List.length_cons] at hplace
    unfold encodeTrailing
    rcases literal_written (c := c) h.written h.capacity_eq hspace sym with
      hgiven | ⟨bs', d, hd, hliteral, hcovers, hwrites, hcap⟩
    · rw [hgiven]
      exact .inl rfl
    · rw [hliteral]
      simp only [bind, Except.bind]
      rw [putHistory_of_lt (by omega)]
      have hone : c.HistoryPtr + 1 ≤ historySize level := by omega
      refine ih (h.add (.literal hd hcovers hone) h.level_eq h.size_eq hwrites hcap rfl ?_ ?_
        (h.limits.mono (Nat.le_succ _) rfl rfl)) rfl
      · rw [hrest]
        rfl
      · rw [hrest]
        change [(c.mppc.HistoryBuffer.write c.HistoryPtr [sym]) c.HistoryPtr] = [sym]
        rw [write_here]

/-- **The encoder** gives the packet up or has written tokens for the whole source. -/
theorem encodeTokens_ok (h : Encoding level DstSize start m src ts bits c) :
    encodeTokens DstSize c = .error (.early ()) ∨
      ∃ c' ts' bits', encodeTokens DstSize c = .ok c' ∧
        Encoding level DstSize start m src ts' bits' c' ∧ c'.rest = [] := by
  have hbody (c c' : Compress) (hinv : ∃ ts bits, Encoding level DstSize start m src ts bits c)
      (hcond : decide (3 < c.rest.length) = true) (hc' : encodeToken DstSize c = .ok c') :
      (∃ ts bits, Encoding level DstSize start m src ts bits c') ∧
        c'.rest.length < c.rest.length := by
    obtain ⟨ts, bits, henc⟩ := hinv
    rcases encodeToken_ok hspace hroom henc (of_decide_eq_true hcond) with
      hgiven | ⟨c'', t, code, hok, henc', hlt⟩
    · rw [hgiven] at hc'
      cases hc'
    · obtain rfl := Except.ok.inj (hok.symm.trans hc')
      exact ⟨⟨_, _, henc'⟩, hlt⟩
  unfold encodeTokens
  rcases Loop.run_result hbody (c.rest.length + 1) c ⟨ts, bits, h⟩ (Nat.lt_succ_self _) with
    ⟨c', hrun, ⟨ts', bits', henc⟩, -⟩ | ⟨e, c', hrun, ⟨ts', bits', henc⟩, hcond, herror⟩
  · rw [hrun]
    exact encodeTrailing_ok hspace hroom henc rfl
  · rcases encodeToken_ok hspace hroom henc (of_decide_eq_true hcond) with
      hgiven | ⟨c'', t, code, hok, -, -⟩
    · rw [hrun, Except.error.inj (herror.symm.trans hgiven)]
      exact .inl rfl
    · rw [hok] at herror
      cases herror

end Round

end TiraRdp.Mppc
