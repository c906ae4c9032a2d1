import Mathlib.Data.List.Forall2
import Mathlib.Data.List.Pairwise
import TiraRdp.Rdp.Codec.Mppc

/-!
# MPPC: what a packet spells

* `Token`: a literal, or a copy of what stands at a place of the history; `applyAll` is what tokens
  do to a history.
* `SpellsToken`, `Spells`: the bits of tokens, by the codes that the branches of the source stand for
  (`copyOffsetRows_eq` and its likes).

Results: a copy only changes what it writes (`copyRun_of_not_mem`) and only needs the part of the
history that it reads (`applyAll_congr`); the decoder applies the token that its bits spell
(`decodeToken_ok`), and then all of them (`decodeTokens_ok`).
-/

namespace TiraRdp.Mppc

open Lib Mem

/-! ## Tokens -/

inductive Token
  | literal (b : UInt8)
  | copy (source count : Nat)
  deriving Repr, DecidableEq

/-- `n` bytes from `s` on, put to `p` on one after the other. -/
def copyRun : Nat → Mem UInt8 → Nat → Nat → Mem UInt8
  | 0, m, _, _ => m
  | n + 1, m, p, s => copyRun n (m.write p [m s]) (p + 1) (s + 1)

/-- What a token adds at `p`, and where it leads. -/
def Token.apply (h : Mem UInt8 × Nat) : Token → Mem UInt8 × Nat
  | literal b => (h.1.write h.2 [b], h.2 + 1)
  | copy source count => (copyRun count h.1 h.2 source, h.2 + count)

def applyAll (h : Mem UInt8 × Nat) (ts : List Token) : Mem UInt8 × Nat := ts.foldl Token.apply h

/-- How many bytes a token adds. -/
def Token.count : Token → Nat
  | literal _ => 1
  | copy _ count => count

theorem apply_snd (h : Mem UInt8 × Nat) (t : Token) : (t.apply h).2 = h.2 + t.count := by
  cases t <;> rfl

/-- Cells that are not written stay. -/
theorem copyRun_of_not_mem {n p s j : Nat} {m : Mem UInt8} (h : j < p ∨ p + n ≤ j) :
    copyRun n m p s j = m j := by
  induction n generalizing m p s with
  | zero => rfl
  | succ n ih =>
    rw [copyRun, ih (by omega), write_of_not_mem _ (by rw [List.length_singleton]; omega)]

/-- The first cell that is written. -/
theorem write_here (m : Mem UInt8) (p : Nat) (b : UInt8) : m.write p [b] p = b :=
  write_at m p [b] 0 Nat.zero_lt_one

theorem write_other {m : Mem UInt8} {p j : Nat} {b : UInt8} (h : j ≠ p) : m.write p [b] j = m j :=
  write_of_not_mem _ (by rw [List.length_singleton]; omega)

/-- Two histories that agree below `size`. -/
def Agree (size : Nat) (m m' : Mem UInt8) : Prop := ∀ i < size, m i = m' i

variable {size : Nat} {m m' : Mem UInt8}

theorem Agree.write {p : Nat} {b b' : UInt8} (h : Agree size m m') (hb : b = b') :
    Agree size (m.write p [b]) (m'.write p [b']) := by
  intro i hi
  rcases eq_or_ne i p with rfl | hne
  · rw [write_here, write_here, hb]
  · rw [write_other hne, write_other hne, h i hi]

theorem Agree.copyRun {n p s : Nat} (h : Agree size m m') (hs : s + n ≤ size) :
    Agree size (copyRun n m p s) (copyRun n m' p s) := by
  induction n generalizing m m' p s with
  | zero => exact h
  | succ n ih => exact ih (h.write (h s (by omega))) (by omega)

/-! ## Codes -/

/-- `HistoryBufferSize`, by the level. -/
def historySize (level : Nat) : Nat := if level ≠ 0 then 65536 else 8192

def literalCodes : List Code := [⟨[false], 7, 0⟩, ⟨[true, false], 7, 128⟩]

def copyOffsetCodes (level : Nat) : List Code :=
  if level ≠ 0 then
    [⟨[true, true, true, true, true], 6, 0⟩, ⟨[true, true, true, true, false], 8, 64⟩,
      ⟨[true, true, true, false], 11, 320⟩, ⟨[true, true, false], 16, 2368⟩]
  else
    [⟨[true, true, true, true], 6, 0⟩, ⟨[true, true, true, false], 8, 64⟩,
      ⟨[true, true, false], 13, 320⟩]

def lengthCodes (level : Nat) : List Code :=
  ⟨[false], 0, 3⟩ :: (List.range (if level ≠ 0 then 14 else 11)).map fun k =>
    ⟨List.replicate (k + 1) true ++ [false], k + 2, 2 ^ (k + 2)⟩

theorem copyOffsetRows_eq (level : Nat) :
    copyOffsetRows level = (copyOffsetCodes level).map Code.maskRow := by
  unfold copyOffsetRows copyOffsetCodes
  split_ifs <;> decide

theorem lengthRows_eq (level : Nat) : lengthRows level = (lengthCodes level).map Code.maskRow := by
  unfold lengthRows lengthCodes
  split_ifs <;> decide +kernel

theorem copyOffsetRanges_writes (level : Nat) : List.Forall₂ (RangeRow.Writes (historySize level))
    (copyOffsetRanges level) (copyOffsetCodes level) := by
  unfold copyOffsetRanges copyOffsetCodes historySize
  split_ifs <;> decide

theorem lengthRanges_writes (level : Nat) : List.Forall₂ (RangeRow.Writes (historySize level))
    (lengthRanges level) (lengthCodes level) := by
  unfold lengthRanges lengthCodes historySize
  split_ifs <;> decide +kernel

/-- No token begins like another, and every code is shorter than a word. -/
theorem codes_apart (level : Nat) : (literalCodes ++ copyOffsetCodes level).Pairwise Code.Apart ∧
    ∀ c ∈ literalCodes ++ copyOffsetCodes level, 8 ≤ c.width ∧ c.width < 32 := by
  unfold copyOffsetCodes
  split_ifs <;> decide

theorem lengthCodes_apart (level : Nat) : (lengthCodes level).Pairwise Code.Apart ∧
    ∀ c ∈ lengthCodes level, c.width < 32 := by
  unfold lengthCodes
  split_ifs <;> decide +kernel

/-- The bits of a token at place `p`. -/
inductive SpellsToken (level p : Nat) : Token → List Bool → Prop
  | literal {c : Code} {b : UInt8} (hc : c ∈ literalCodes) (hcovers : c.Covers b.toNat)
      (hroom : p + 1 ≤ historySize level) : SpellsToken level p (.literal b) (c.spell b.toNat)
  | copy {c d : Code} {offset source count : Nat} (hc : c ∈ copyOffsetCodes level)
      (hcovers : c.Covers offset) (hd : d ∈ lengthCodes level) (hcovered : d.Covers count)
      (hoffset : sourceOf level p offset = source) (hcount : 3 ≤ count)
      (hsource : source + count ≤ historySize level) (hroom : p + count ≤ historySize level) :
      SpellsToken level p (.copy source count) (c.spell offset ++ d.spell count)

/-- The bits of tokens, from place `p` on. -/
inductive Spells (level : Nat) : Nat → List Token → List Bool → Prop
  | nil (p : Nat) : Spells level p [] []
  | cons {p : Nat} {t : Token} {ts : List Token} {code bits : List Bool}
      (ht : SpellsToken level p t code) (hts : Spells level (p + t.count) ts bits) :
      Spells level p (t :: ts) (code ++ bits)

theorem Spells.append {level p : Nat} {ts us : List Token} {bits bits' : List Bool}
    {h : Mem UInt8 × Nat} (hp : h.2 = p) (hts : Spells level p ts bits)
    (hus : Spells level (applyAll h ts).2 us bits') : Spells level p (ts ++ us) (bits ++ bits') := by
  induction hts generalizing h with
  | nil p => exact hp ▸ hus
  | @cons p t ts code bits ht hts ih =>
    rw [List.cons_append, List.append_assoc]
    exact .cons ht (ih ((apply_snd h t).trans (by rw [hp])) hus)

theorem SpellsToken.room {level p : Nat} {t : Token} {code : List Bool}
    (h : SpellsToken level p t code) : 1 ≤ t.count ∧ p + t.count ≤ historySize level := by
  cases h with
  | literal _ _ hroom => exact ⟨Nat.le_refl 1, hroom⟩
  | copy _ _ _ _ _ hcount _ hroom => exact ⟨Nat.le_trans (by decide) hcount, hroom⟩

theorem SpellsToken.agree {level p : Nat} {t : Token} {code : List Bool}
    (h : SpellsToken level p t code) (hm : Agree (historySize level) m m') :
    Agree (historySize level) (t.apply (m, p)).1 (t.apply (m', p)).1 := by
  cases h with
  | literal _ _ _ => exact hm.write rfl
  | copy _ _ _ _ _ _ hsource _ => exact hm.copyRun hsource

/-- Tokens lead to histories that agree from histories that do. -/
theorem applyAll_congr {level p : Nat} {ts : List Token} {bits : List Bool}
    (h : Spells level p ts bits) (hm : Agree (historySize level) m m') :
    Agree (historySize level) (applyAll (m, p) ts).1 (applyAll (m', p) ts).1 ∧
      (applyAll (m, p) ts).2 = (applyAll (m', p) ts).2 := by
  induction h generalizing m m' with
  | nil => exact ⟨hm, rfl⟩
  | @cons p t ts code bits ht hts ih =>
    have hstep (m : Mem UInt8) : t.apply (m, p) = ((t.apply (m, p)).1, p + t.count) :=
      Prod.ext rfl (apply_snd (m, p) t)
    have happly (m : Mem UInt8) :
        applyAll (m, p) (t :: ts) = applyAll ((t.apply (m, p)).1, p + t.count) ts := by
      rw [← hstep]
      rfl
    rw [happly, happly]
    exact ih (ht.agree hm)

/-! ## Decoding -/

/-- The decoder of a packet, before the bits at `pos`. -/
structure Decoding (packet : List Bool) (pos : Nat) (h : Mem UInt8 × Nat) (d : Decompress) : Prop where
  reading : d.bs.Reading packet pos
  history : (d.HistoryBuffer, d.HistoryPtr) = h

theorem historySize_le (level : Nat) : 8192 ≤ historySize level ∧ historySize level ≤ HistorySpace := by
  unfold historySize HistorySpace
  split_ifs <;> decide

theorem historyAt_of_lt {ε : Type} {i : Nat} (hi : i < HistorySpace) :
    historyAt (ε := ε) m i = .ok (m i) := if_pos hi

theorem putHistory_of_lt {ε : Type} {i : Nat} {b : UInt8} (hi : i < HistorySpace) :
    putHistory (ε := ε) m i b = .ok (m.write i [b]) := if_pos hi

theorem copyMatch_eq {n p s : Nat} (hp : p + n ≤ HistorySpace) (hs : s + n ≤ HistorySpace) :
    copyMatch n m p s = .ok (copyRun n m p s) := by
  induction n generalizing m p s with
  | zero => rfl
  | succ n ih =>
    rw [copyMatch, historyAt_of_lt (by omega)]
    simp only [bind, Except.bind]
    rw [putHistory_of_lt (by omega)]
    exact ih (by omega) (by omega)

theorem copyMatch_outside {n p s : Nat} (hp : p + n ≤ HistorySpace) (hs : ¬ s + n ≤ HistorySpace)
    (hin : s ≤ HistorySpace) : copyMatch n m p s = .error (.halt .outside) := by
  induction n generalizing m p s with
  | zero => exact absurd hin hs
  | succ n ih =>
    rw [copyMatch]
    rcases Nat.lt_or_ge s HistorySpace with hlt | hge
    · rw [historyAt_of_lt hlt]
      simp only [bind, Except.bind]
      rw [putHistory_of_lt (by omega)]
      exact ih (by omega) (by omega) hlt
    · rw [historyAt, if_neg (Nat.not_lt.mpr hge)]
      rfl

theorem first_literal_row : Code.maskRow ⟨[false], 7, 0⟩ = ⟨0x80000000, 0, 24, 0x7F, 0, 8⟩ := by decide

theorem second_literal_row :
    Code.maskRow ⟨[true, false], 7, 128⟩ = ⟨0xC0000000, 0x80000000, 23, 0x7F, 0x80, 9⟩ := by decide

/-- The codes of other tokens do not hit. -/
theorem other_hit {level v : Nat} {c d : Code} (hc : c ∈ literalCodes ++ copyOffsetCodes level)
    (hd : d ∈ literalCodes ++ copyOffsetCodes level) (hne : c ≠ d) (rest : List Bool) :
    d.maskRow.hit (peek 32 (c.spell v ++ rest)) = false := by
  obtain ⟨hapart, hwidth⟩ := codes_apart level
  have hlead : d.lead.length ≤ d.width := Nat.le_add_right _ _
  have hlt := (hwidth d hd).2
  exact Code.hit_spell (by omega) (hapart.forall hc hd hne)

theorem copyOffset_ne {level : Nat} {c : Code} (hc : c ∈ copyOffsetCodes level) :
    c ≠ ⟨[false], 7, 0⟩ ∧ c ≠ ⟨[true, false], 7, 128⟩ := by
  have hall : ∀ c ∈ copyOffsetCodes level, c ≠ ⟨[false], 7, 0⟩ ∧ c ≠ ⟨[true, false], 7, 128⟩ := by
    unfold copyOffsetCodes
    split_ifs <;> decide
  exact hall c hc

/-- A code is shifted out. -/
theorem shift_spell {packet rest : List Bool} {pos : Nat} {bs : wBitStream} {c : Code} {v : Nat}
    (h : bs.Reading packet pos) (hrest : packet.drop pos = c.spell v ++ rest) (hwidth : c.width < 32) :
    (bs.Shift c.width).Reading packet (pos + c.width) ∧ packet.drop (pos + c.width) = rest := by
  refine ⟨h.shift hwidth, ?_⟩
  rw [← List.drop_drop, hrest, List.drop_left' (Code.spell_length c v)]

theorem literal_ok {packet : List Bool} {pos n v : Nat} {h : Mem UInt8 × Nat} {d : Decompress}
    {b : UInt8} (hd : Decoding packet pos h d) (hn : n < 32) (hv : v = b.toNat)
    (hroom : h.2 < HistorySpace) :
    ∃ d', d.literal v n = .ok d' ∧ Decoding packet (pos + n) ((Token.literal b).apply h) d' := by
  obtain ⟨hreading, rfl⟩ := hd
  refine ⟨⟨d.bs.Shift n, d.HistoryBuffer.write d.HistoryPtr [b], d.HistoryPtr + 1⟩, ?_,
    hreading.shift hn, rfl⟩
  rw [Decompress.literal, hv, UInt8.ofNat_toNat, putHistory_of_lt hroom]
  rfl

/-- **A token** is decoded from the bits that spell it. -/
theorem decodeToken_ok {level pos p : Nat} {packet code rest : List Bool} {m : Mem UInt8}
    {t : Token} {d : Decompress} (hd : Decoding packet pos (m, p) d)
    (hcode : packet.drop pos = code ++ rest) (ht : SpellsToken level p t code) :
    ∃ d', decodeToken level (historySize level) d = .ok d' ∧
      Decoding packet (pos + code.length) (t.apply (m, p)) d' := by
  obtain ⟨h8192, hspace⟩ := historySize_le level
  obtain ⟨hone, hfits⟩ := ht.room
  have hptr : d.HistoryPtr = p := congrArg Prod.snd hd.history
  have hbuffer : d.HistoryBuffer = m := congrArg Prod.fst hd.history
  have hnot : ¬ d.HistoryPtr > historySize level - 1 := by omega
  have hfirst : (⟨[false], 7, 0⟩ : Code) ∈ literalCodes ++ copyOffsetCodes level :=
    List.mem_append_left _ (by decide)
  have hsecond : (⟨[true, false], 7, 128⟩ : Code) ∈ literalCodes ++ copyOffsetCodes level :=
    List.mem_append_left _ (by decide)
  unfold decodeToken
  dsimp only
  rw [if_neg hnot, hd.reading.accumulator_eq, hcode]
  cases ht with
  | @literal c b hc hcovers _ =>
    have hmem : c ∈ literalCodes ++ copyOffsetCodes level := List.mem_append_left _ hc
    have hwidth := (codes_apart level).2 c hmem
    have hlead : c.lead.length ≤ 32 := Nat.le_trans (Nat.le_add_right _ _) (Nat.le_of_lt hwidth.2)
    have hnumber := Code.number_maskRow (Nat.le_of_lt hwidth.2) hcovers rest
    have hhit : c.maskRow.hit (peek 32 (c.spell b.toNat ++ rest)) = true := by
      rw [Code.hit_maskRow hlead, Code.spell, List.append_assoc, peek_of_le (by simp), List.take_left]
    rw [Code.spell_length]
    rcases List.mem_cons.mp hc with rfl | hc
    · rw [first_literal_row] at hhit hnumber
      rw [if_pos (beq_iff_eq.mp hhit)]
      refine literal_ok hd (by decide) ?_ (by dsimp only; omega)
      rw [Nat.shiftRight_and_distrib]
      exact hnumber
    · obtain rfl := List.mem_singleton.mp hc
      have hother := other_hit (v := b.toNat) hmem hfirst (by decide) rest
      rw [first_literal_row] at hother
      rw [second_literal_row] at hhit hnumber
      rw [if_neg (beq_eq_false_iff_ne.mp hother), if_pos (beq_iff_eq.mp hhit)]
      refine literal_ok hd (by decide) ?_ (by dsimp only; omega)
      rw [Nat.shiftRight_and_distrib]
      exact hnumber
  | @copy c e offset source count hc hcovers he hcovered hoffset hcount hsource _ =>
    have hmem : c ∈ literalCodes ++ copyOffsetCodes level := List.mem_append_right _ hc
    have hwidth := ((codes_apart level).2 c hmem).2
    obtain ⟨hlengths, hwidths⟩ := lengthCodes_apart level
    have hnot_first := other_hit (v := offset) hmem hfirst (copyOffset_ne hc).1 (e.spell count ++ rest)
    have hnot_second := other_hit (v := offset) hmem hsecond (copyOffset_ne hc).2
      (e.spell count ++ rest)
    rw [first_literal_row] at hnot_first
    rw [second_literal_row] at hnot_second
    have hrest : packet.drop pos = c.spell offset ++ (e.spell count ++ rest) := by
      rw [hcode, List.append_assoc]
    obtain ⟨hreading, hdrop⟩ := shift_spell hd.reading hrest hwidth
    obtain ⟨hreading', -⟩ := shift_spell hreading hdrop (hwidths e he)
    have hfind : (copyOffsetRows level).find? (·.hit (peek 32 (c.spell offset ++
        (e.spell count ++ rest)))) = some c.maskRow := by
      rw [copyOffsetRows_eq]
      exact find_mask (List.pairwise_append.mp (codes_apart level).1).2.1 (fun d hd =>
        Nat.le_of_lt ((codes_apart level).2 d (List.mem_append_right _ hd)).2) hc offset _
    have hfind' : (lengthRows level).find? (·.hit (d.bs.Shift c.width).accumulator) =
        some e.maskRow := by
      rw [hreading.accumulator_eq, hdrop, lengthRows_eq]
      exact find_mask hlengths (fun d hd => Nat.le_of_lt (hwidths d hd)) he count rest
    have hcount' : e.maskRow.number (d.bs.Shift c.width).accumulator = count := by
      rw [hreading.accumulator_eq, hdrop]
      exact Code.number_maskRow (Nat.le_of_lt (hwidths e he)) hcovered rest
    have hoffset' : c.maskRow.number (peek 32 (c.spell offset ++ (e.spell count ++ rest))) = offset :=
      Code.number_maskRow (Nat.le_of_lt hwidth) hcovers _
    have hover : ¬ d.HistoryPtr + count - 1 > historySize level - 1 := by
      change p + count ≤ _ at hfits
      omega
    change p + count ≤ _ at hfits
    rw [List.append_assoc, if_neg (beq_eq_false_iff_ne.mp hnot_first),
      if_neg (beq_eq_false_iff_ne.mp hnot_second), hfind]
    dsimp only
    have hnbits (c : Code) : c.maskRow.nbits = c.width := rfl
    rw [hnbits, hfind']
    dsimp only
    rw [hcount', hoffset', hnbits, if_neg hover, hptr, hbuffer, hoffset,
      copyMatch_eq (by omega) (by omega)]
    refine ⟨_, rfl, ?_, rfl⟩
    rw [List.length_append, Code.spell_length, Code.spell_length, ← Nat.add_assoc]
    exact hreading'

/-- **The loop** decodes the tokens, and ends where fewer bits than those of a token are left. -/
theorem decodeTokens_ok {level p pos n : Nat} {packet bits pad : List Bool} {m : Mem UInt8}
    {ts : List Token} {d : Decompress} (hts : Spells level p ts bits)
    (hd : Decoding packet pos (m, p) d) (hbits : packet.drop pos = bits ++ pad) (hpad : pad.length < 8)
    (hpos : pos ≤ packet.length) (hsmall : packet.length < 2 ^ 31) (hn : ts.length ≤ n) :
    ∃ d', Loop.run Decompress.more (decodeToken level (historySize level)) n d = some (.ok d') ∧
      (d'.HistoryBuffer, d'.HistoryPtr) = applyAll (m, p) ts := by
  have hleft (d : Decompress) (pos : Nat) {h : Mem UInt8 × Nat} (hd : Decoding packet pos h d)
      (hpos : pos ≤ packet.length) : d.more = decide (8 ≤ (packet.drop pos).length) := by
    have hlength : d.bs.length = packet.length := by
      have hcount := congrArg List.length hd.reading.bits_eq
      rw [bitsOf_length, wBitStream.bytes, read_length] at hcount
      rw [wBitStream.length, ← hcount, Nat.mul_comm]
    unfold Decompress.more
    have hdiff : i32 ((packet.length : Int) - pos) = packet.length - pos :=
      i32_of_lt (by omega) (by omega)
    rw [hlength, hd.reading.position_eq, hdiff, List.length_drop]
    exact decide_eq_decide.mpr (by omega)
  induction hts generalizing pos m n d with
  | nil p =>
    have hdone : d.more = false := by
      rw [hleft d pos hd hpos, hbits, List.nil_append]
      exact decide_eq_false (Nat.not_le.mpr hpad)
    exact ⟨d, Loop.run_of_not_cond hdone n, hd.history⟩
  | @cons p t ts code bits ht hts ih =>
    obtain ⟨n, rfl⟩ : ∃ k, n = k + 1 := ⟨n - 1, by rw [List.length_cons] at hn; omega⟩
    rw [List.append_assoc] at hbits
    obtain ⟨d', hdecode, hd'⟩ := decodeToken_ok hd hbits ht
    have hlength := congrArg List.length hbits
    rw [List.length_drop, List.length_append] at hlength
    have hwide : 8 ≤ code.length := by
      cases ht with
      | literal hc _ _ =>
        rw [Code.spell_length]
        exact ((codes_apart level).2 _ (List.mem_append_left _ hc)).1
      | copy hc _ _ _ _ _ _ _ =>
        rw [List.length_append, Code.spell_length]
        exact Nat.le_trans ((codes_apart level).2 _ (List.mem_append_right _ hc)).1
          (Nat.le_add_right _ _)
    have hmore : d.more = true := by
      rw [hleft d pos hd hpos, hbits, List.length_append]
      exact decide_eq_true (by omega)
    have hstep : t.apply (m, p) = ((t.apply (m, p)).1, p + t.count) :=
      Prod.ext rfl (apply_snd (m, p) t)
    have hnext : packet.drop (pos + code.length) = bits ++ pad := by
      rw [← List.drop_drop, hbits, List.drop_left]
    rw [hstep] at hd'
    obtain ⟨d'', hrun, happly⟩ := ih hd' hnext (by omega) (Nat.le_of_succ_le_succ hn)
    refine ⟨d'', ?_, ?_⟩
    · unfold Loop.run
      rw [if_pos hmore, hdecode]
      exact hrun
    · rw [happly, ← hstep]
      rfl

end TiraRdp.Mppc
