import TiraRdp.Rdp.Codec.ZgfxHistory

/-!
# ZGFX: every input comes to an end

`zgfx_decompress` counts down `cBitsRemaining`, which a malformed segment steps over, so that its
loops go on past the end of the input, where zeros are read. They end all the same: a code that
begins with a zero is a literal, for which `OutputBuffer` has to have room, and one that does not
has used up a one.

* `ones`: how many ones there are among the bits still to come.
* `Goes`: what a piece of the decoder does to the ones and to the output.

Result: whatever the bytes of a message and the context, `zgfx_decompress` answers or leaves a buffer
(`decompress_ends`).
-/

namespace TiraRdp.Zgfx

open Lib Mem Lz77

/-! ## Counting ones -/

/-- The ones of a word. -/
def wordOnes (w : Nat) : Nat := (toBits 32 w).count true

/-- The ones that are held, and those of the bytes that have not been read. -/
def ones (src : Bytes) (z : ZGFX_CONTEXT) : Nat :=
  wordOnes z.BitsCurrent + (bitsOf ((src.take z.pbInputEnd).drop z.pbInputCurrent)).count true

/-- A string of bits without a one spells zero. -/
theorem ofBits_eq_zero {bits : List Bool} (h : bits.count true = 0) : ofBits bits = 0 := by
  have hfalse : bits = List.replicate bits.length false := by
    rw [List.eq_replicate_iff]
    refine ⟨rfl, fun b hb => ?_⟩
    have hne : b ≠ true := fun htrue => List.count_eq_zero.mp h (htrue ▸ hb)
    exact Bool.eq_false_iff.mpr hne
  rw [hfalse, ← toBits_zero, ofBits_toBits, Nat.zero_mod]

/-- Taking the upper bits of a word away leaves the ones below, and takes one when it takes a number. -/
theorem wordOnes_mod {w : Nat} (c : Nat) (hw : w < 2 ^ 32) :
    wordOnes (w % 2 ^ c) ≤ wordOnes w ∧ (w / 2 ^ c ≠ 0 → wordOnes (w % 2 ^ c) < wordOnes w) := by
  rcases Nat.lt_or_ge 32 c with hbig | hc
  · have hlt : w < 2 ^ c := Nat.lt_trans hw (Nat.pow_lt_pow_right (by decide) hbig)
    rw [Nat.mod_eq_of_lt hlt, Nat.div_eq_of_lt hlt]
    exact ⟨Nat.le_refl _, fun h => absurd rfl h⟩
  · obtain ⟨m, hm⟩ := Nat.exists_eq_add_of_le' hc
    have hmod : wordOnes (w % 2 ^ c) = (toBits c w).count true := by
      rw [wordOnes, hm, toBits_add, Nat.div_eq_of_lt (Nat.mod_lt _ (Nat.two_pow_pos c)), toBits_zero,
        toBits_mod, List.count_append, List.count_replicate]
      simp
    have hall : wordOnes w = (toBits m (w / 2 ^ c)).count true + (toBits c w).count true := by
      rw [wordOnes, hm, toBits_add, List.count_append]
    rw [hmod, hall]
    refine ⟨Nat.le_add_left _ _, fun hne => ?_⟩
    have hdiv : w / 2 ^ c < 2 ^ m := by
      rw [Nat.div_lt_iff_lt_mul (Nat.two_pow_pos c), ← Nat.pow_add, ← hm]
      exact hw
    have hpos : (toBits m (w / 2 ^ c)).count true ≠ 0 := by
      intro hzero
      exact hne ((ofBits_toBits_of_lt hdiv).symm.trans (ofBits_eq_zero hzero))
    omega

/-- A byte that is shifted in. -/
theorem wordOnes_shift (w : Nat) {b : Nat} (hb : b < 2 ^ 8) :
    wordOnes (u32 (w * 2 ^ 8) + b) ≤ wordOnes w + (toBits 8 b).count true := by
  have hu32 : u32 (w * 2 ^ 8) = w % 2 ^ 24 * 2 ^ 8 := by
    unfold u32
    omega
  have hshifted : toBits 32 (w % 2 ^ 24 * 2 ^ 8 + b) = toBits 24 w ++ toBits 8 b := by
    rw [← toBits_mod 24 w]
    exact toBits_mul_add (m := 24) hb
  have hword : toBits 32 w = toBits 8 (w / 2 ^ 24) ++ toBits 24 w := toBits_add 8 24 w
  rw [wordOnes, wordOnes, hu32, hshifted, hword, List.count_append, List.count_append]
  omega

/-! ## What a piece of the decoder does -/

/-- From `z` to `t`: the output does not shrink, and no ones come in. -/
structure Goes (src : Bytes) (z t : ZGFX_CONTEXT) : Prop where
  output : z.OutputCount ≤ t.OutputCount
  ones : ones src t ≤ ones src z
  held : t.BitsCurrent < 2 ^ 32

variable {src : Bytes} {z t u : ZGFX_CONTEXT}

theorem Goes.refl (h : z.BitsCurrent < 2 ^ 32) : Goes src z z := ⟨Nat.le_refl _, Nat.le_refl _, h⟩

theorem Goes.trans (h : Goes src z t) (h' : Goes src t u) : Goes src z u :=
  ⟨Nat.le_trans h.output h'.output, Nat.le_trans h'.ones h.ones, h'.held⟩

/-- Dropping more of the input does not bring in ones. -/
theorem count_drop_le (p q : Nat) (bytes : Bytes) :
    (bitsOf (bytes.drop (p + q))).count true ≤ (bitsOf (bytes.drop p)).count true := by
  rw [← List.drop_drop]
  generalize bytes.drop p = rest
  conv_rhs => rw [← List.take_append_drop q rest, bitsOf_append, List.count_append]
  exact Nat.le_add_left _ _

theorem fetch_goes {nbits n : Nat} (h : z.BitsCurrent < 2 ^ 32)
    (hfetch : fetch src nbits n z = .ok t) : Goes src z t := by
  induction n generalizing z with
  | zero =>
    obtain rfl := Except.ok.inj hfetch
    exact .refl h
  | succ n ih =>
    have hsmall (b : Nat) (hb : b < 2 ^ 8) : u32 (z.BitsCurrent * 2 ^ 8) + b < 2 ^ 32 := by
      unfold u32
      omega
    unfold fetch at hfetch
    split_ifs at hfetch with hmore hin
    · split at hfetch
      · simp at hfetch
      · rename_i b hb
        have hshift := wordOnes_shift z.BitsCurrent b.toNat_lt
        have hdrop : (src.take z.pbInputEnd).drop z.pbInputCurrent =
            b :: (src.take z.pbInputEnd).drop (z.pbInputCurrent + 1) := by
          rw [List.drop_eq_getElem?_toList_append, List.getElem?_take_of_lt hin, hb]
          rfl
        have hstep : Goes src z { z with
            BitsCurrent := u32 (z.BitsCurrent * 2 ^ 8) + b.toNat
            cBitsCurrent := z.cBitsCurrent + 8
            pbInputCurrent := z.pbInputCurrent + 1 } := by
          refine ⟨Nat.le_refl _, ?_, hsmall _ b.toNat_lt⟩
          unfold ones
          rw [hdrop, bitsOf_cons, List.count_append]
          dsimp only
          omega
        exact hstep.trans (ih hstep.held hfetch)
    · have hshift := wordOnes_shift z.BitsCurrent (b := 0) (by decide)
      rw [toBits_zero] at hshift
      have hstep : Goes src z { z with
          BitsCurrent := u32 (z.BitsCurrent * 2 ^ 8), cBitsCurrent := z.cBitsCurrent + 8 } :=
        ⟨Nat.le_refl _, Nat.add_le_add_right hshift _, hsmall 0 (by decide)⟩
      exact hstep.trans (ih hstep.held hfetch)
    · obtain rfl := Except.ok.inj hfetch
      exact .refl h

theorem fetch_ne_hang (nbits n : Nat) (z : ZGFX_CONTEXT) : fetch src nbits n z ≠ .error .hang := by
  induction n generalizing z with
  | zero => exact nofun
  | succ n ih =>
    unfold fetch
    split_ifs
    · split
      · exact nofun
      · exact ih _
    · exact ih _
    · exact nofun

/-- A read uses up a one where it reads anything but zero. -/
theorem GetBits_goes {n : Nat} (h : z.BitsCurrent < 2 ^ 32)
    (hget : zgfx_GetBits src z n = .ok t) :
    Goes src z t ∧ (t.bits ≠ 0 → ones src t < ones src z) := by
  unfold zgfx_GetBits at hget
  rcases hfetch : fetch src n n z with e | f
  · rw [hfetch] at hget
    exact nomatch hget
  rw [hfetch] at hget
  obtain rfl := Except.ok.inj hget
  have hgoes := fetch_goes h hfetch
  obtain ⟨hle, hlt⟩ := wordOnes_mod (f.cBitsCurrent - n) hgoes.held
  refine ⟨hgoes.trans ⟨Nat.le_refl _, Nat.add_le_add_right hle _, ?_⟩, fun hne => ?_⟩
  · exact Nat.lt_of_le_of_lt (Nat.mod_le _ _) hgoes.held
  · exact Nat.lt_of_lt_of_le (Nat.add_lt_add_right (hlt hne) _) hgoes.ones

theorem GetBits_ne_hang (n : Nat) (z : ZGFX_CONTEXT) : zgfx_GetBits src z n ≠ .error .hang := by
  unfold zgfx_GetBits
  rcases hfetch : fetch src n n z with e | f
  · intro heq
    exact fetch_ne_hang n n z (hfetch.trans heq)
  · exact nofun

/-- A piece of the decoder does not go round for ever, and the context that it answers with, among
other things, is one that it goes to. -/
def Works {α : Type} (src : Bytes) (z : ZGFX_CONTEXT) (context : α → ZGFX_CONTEXT)
    (result : Except Halt α) : Prop :=
  result ≠ .error .hang ∧ ∀ a, result = .ok a → Goes src z (context a)

section Works

variable {α β : Type} {context : α → ZGFX_CONTEXT} {context' : β → ZGFX_CONTEXT}

theorem Works.ok {a : α} (h : Goes src z (context a)) : Works src z context (.ok a) :=
  ⟨nofun, fun _ ht => Except.ok.inj ht ▸ h⟩

theorem Works.outside : Works src z context (.error .outside) := ⟨nofun, nofun⟩

theorem Works.bind {x : Except Halt α} {f : α → Except Halt β} (hx : Works src z context x)
    (hf : ∀ a, x = .ok a → Goes src z (context a) → Works src (context a) context' (f a)) :
    Works src z context' (x >>= f) := by
  rcases x with e | a
  · exact ⟨fun heq => hx.1 (congrArg _ (Except.error.inj heq)), nofun⟩
  · have hgoes := hx.2 a rfl
    obtain ⟨hhang, hok⟩ := hf a rfl hgoes
    exact ⟨hhang, fun b hb => hgoes.trans (hok b hb)⟩

/-- A step that does not answer with a context. -/
theorem Works.bindData {x : Except Halt α} {f : α → Except Halt β} (hx : x ≠ .error .hang)
    (hf : ∀ a, Works src z context' (f a)) : Works src z context' (x >>= f) := by
  rcases x with e | a
  · exact ⟨fun heq => hx (congrArg _ (Except.error.inj heq)), nofun⟩
  · exact hf a

/-- A piece that begins behind a step. -/
theorem Works.after {result : Except Halt α} (h : Goes src z t) (hresult : Works src t context result) :
    Works src z context result :=
  ⟨hresult.1, fun a ha => h.trans (hresult.2 a ha)⟩

end Works

theorem GetBits_works (n : Nat) (h : z.BitsCurrent < 2 ^ 32) :
    Works src z id (zgfx_GetBits src z n) :=
  ⟨GetBits_ne_hang n z, fun _ ht => (GetBits_goes h ht).1⟩

theorem sourceBytes_ne_hang (off len : Nat) : sourceBytes src off len ≠ .error .hang := by
  unfold sourceBytes
  split_ifs <;> exact nofun

/-! ## The history -/

theorem ring_write_works (xs : Bytes) (h : z.BitsCurrent < 2 ^ 32) :
    Works src z id (zgfx_history_buffer_ring_write z xs) := by
  have hsame (buffer : Mem UInt8) (index : Nat) :
      Works src z id (.ok (z.remember buffer index)) :=
    .ok ⟨Nat.le_refl _, Nat.le_refl _, h⟩
  unfold zgfx_history_buffer_ring_write writeWithin
  dsimp only
  split_ifs
  all_goals first
    | exact hsame _ _
    | exact Works.outside

theorem ring_write_ne_hang (xs : Bytes) : zgfx_history_buffer_ring_write z xs ≠ .error .hang := by
  have hanswer (t : ZGFX_CONTEXT) : (.ok t : Except Halt ZGFX_CONTEXT) ≠ .error .hang := nofun
  have houtside : (.error .outside : Except Halt ZGFX_CONTEXT) ≠ .error .hang := nofun
  unfold zgfx_history_buffer_ring_write writeWithin
  dsimp only
  split_ifs
  all_goals first
    | exact hanswer _
    | exact houtside

theorem emit_ne_hang (xs : Bytes) : z.emit xs ≠ .error .hang := by
  unfold ZGFX_CONTEXT.emit
  split_ifs <;> exact nofun

theorem emit_works (xs : Bytes) (h : z.BitsCurrent < 2 ^ 32) : Works src z id (z.emit xs) := by
  unfold ZGFX_CONTEXT.emit
  split_ifs
  · refine .ok ⟨?_, Nat.le_refl _, h⟩
    unfold ZGFX_CONTEXT.OutputCount
    rw [id_eq, List.length_append]
    exact Nat.le_add_right _ _
  · exact .outside

theorem emit_adds {xs : Bytes} (h : z.emit xs = .ok t) :
    t.OutputCount = z.OutputCount + xs.length ∧ t.OutputCount ≤ OutputBufferSize := by
  unfold ZGFX_CONTEXT.emit at h
  split_ifs at h with hroom
  obtain rfl := Except.ok.inj h
  have hcount : (z.output ++ xs).length = z.output.length + xs.length := List.length_append
  exact ⟨hcount, Nat.le_trans (Nat.le_of_eq hcount) hroom⟩

theorem ringCopy_ne_hang (offset bytes : Nat) : ringCopy z offset bytes ≠ .error .hang := by
  unfold ringCopy readWithin
  dsimp only
  split_ifs <;> exact nofun

/-- The doubling ends, since something has been written. -/
theorem ring_read_ne_hang {offset count : Nat} (hoffset : offset ≠ 0) :
    zgfx_history_buffer_ring_read z offset count ≠ .error .hang := by
  unfold zgfx_history_buffer_ring_read
  split_ifs with hnil
  · exact nofun
  dsimp only
  rcases hcopy : ringCopy z offset (min count offset) with e | written
  · intro heq
    exact ringCopy_ne_hang offset _ (hcopy.trans heq)
  simp only [bind, Except.bind]
  split_ifs with hdone
  · exact nofun
  obtain ⟨d, hloop, -⟩ := Loop.doWhile_total
    (fun d => some (Doubling.round d)) (fun d => decide (0 < d.bytesLeft))
    (fun d => 1 ≤ d.valid ∧ 1 ≤ d.bytesLeft) (fun _ => True) Doubling.bytesLeft
    (fun d hd => ⟨d.round, rfl, trivial, fun hagain => by
      have hmore : 0 < d.bytesLeft - min d.valid d.bytesLeft := of_decide_eq_true hagain
      exact ⟨⟨Nat.le_trans hd.1 (Nat.le_mul_of_pos_right _ (by decide)), hmore⟩,
        Nat.sub_lt hd.2 (by omega)⟩⟩)
    count ⟨written, min count offset, count - min count offset⟩
    ⟨by dsimp only; omega, by dsimp only; omega⟩ (by dsimp only; omega)
  rw [hloop]
  exact nofun

/-! ## A token -/

theorem readPrefix_works (n inPrefix : Nat) (h : z.BitsCurrent < 2 ^ 32) :
    Works src z Prod.snd (readPrefix src n inPrefix z) := by
  induction n generalizing z inPrefix with
  | zero => exact .ok (.refl h)
  | succ n ih => exact (GetBits_works 1 h).bind fun t _ ht => ih _ ht.held

/-- Each round of the loop for the length of a copy uses up a one. -/
theorem readExtra_works {fuel count extra : Nat} (h : z.BitsCurrent < 2 ^ 32) (hpos : 0 < fuel)
    (hfuel : z.bits = 1 → ones src z + 1 < fuel) :
    Works src z (fun read => read.2.2) (readExtra src fuel count extra z) := by
  induction fuel generalizing z count extra with
  | zero => exact absurd hpos (Nat.not_lt_zero _)
  | succ fuel ih =>
    unfold readExtra
    split_ifs with hone
    · have hleft := hfuel hone
      refine (GetBits_works 1 h).bind fun t hget ht => ih ht.held (by omega) fun hagain => ?_
      have hused := (GetBits_goes h hget).2 (by rw [show t.bits = 1 from hagain]; decide)
      dsimp only [id]
      omega
    · exact .ok (.refl h)

theorem readCount_works {fuel : Nat} (h : z.BitsCurrent < 2 ^ 32) (hfuel : ones src z + 1 < fuel) :
    Works src z Prod.snd (readCount src fuel z) := by
  unfold readCount
  refine (GetBits_works 1 h).bind fun t _ ht => ?_
  split_ifs
  · exact .ok (.refl ht.held)
  refine (GetBits_works 1 ht.held).bind fun u _ hu => ?_
  have hones := (ht.trans hu).ones
  refine (readExtra_works hu.held (by omega) fun _ => by omega).bind fun read _ hread => ?_
  refine (GetBits_works read.2.1 hread.held).bind fun v _ hv => ?_
  exact .ok (.refl hv.held)

theorem literal_works (c : UInt8) (h : z.BitsCurrent < 2 ^ 32) :
    Works src z id (literal z c) := by
  unfold literal writeWithin
  split_ifs
  · have hsame : Goes src z (z.remember (z.HistoryBuffer.write z.HistoryIndex [c])
        (if z.HistoryIndex + 1 = z.HistoryBufferSize then 0 else z.HistoryIndex + 1)) :=
      ⟨Nat.le_refl _, Nat.le_refl _, h⟩
    exact Works.after hsame (emit_works [c] hsame.held)
  · exact .outside

/-- A literal has to find room in the output. -/
theorem literal_adds {c : UInt8} (h : literal z c = .ok t) :
    z.OutputCount < t.OutputCount ∧ t.OutputCount ≤ OutputBufferSize := by
  unfold literal writeWithin at h
  split_ifs at h
  · obtain ⟨hcount, hroom⟩ := emit_adds h
    exact ⟨hcount ▸ Nat.lt_succ_self _, hroom⟩
  · exact nomatch h

theorem copyMatch_works {distance count : Nat} (h : z.BitsCurrent < 2 ^ 32)
    (hdistance : distance ≠ 0) : Works src z id (copyMatch z distance count) := by
  unfold copyMatch
  split_ifs
  · refine Works.bindData (ring_read_ne_hang hdistance) fun xs => ?_
    exact (ring_write_works xs h).bind fun t _ ht => emit_works xs ht.held
  · exact .outside

theorem unencoded_works (h : z.BitsCurrent < 2 ^ 32) : Works src z id (unencoded src z) := by
  unfold unencoded
  refine (GetBits_works 15 h).bind fun t _ ht => ?_
  refine Works.bindData (sourceBytes_ne_hang _ _) fun bytes => ?_
  -- the bits that are held are dropped
  have hdrop : Goes src t { t with
      cBitsRemaining := subU32 t.cBitsRemaining t.cBitsCurrent
      cBitsCurrent := 0
      BitsCurrent := 0 } := by
    refine ⟨Nat.le_refl _, Nat.add_le_add_right ?_ _, Nat.two_pow_pos 32⟩
    rw [wordOnes, toBits_zero, List.count_replicate]
    exact Nat.zero_le _
  refine Works.bind (Works.after hdrop (emit_works bytes hdrop.held)) fun u _ hu => ?_
  refine (ring_write_works bytes hu.held).bind fun v _ hv => .ok ?_
  exact ⟨Nat.le_refl _, Nat.add_le_add_left (count_drop_le _ _ _) _, hv.held⟩

theorem act_works {fuel : Nat} (r : ZGFX_TOKEN) (h : z.BitsCurrent < 2 ^ 32)
    (hfuel : ones src z + 1 < fuel) : Works src z id (act src fuel r z) := by
  unfold act
  refine (GetBits_works r.valueBits h).bind fun t _ ht => ?_
  have hones := ht.ones
  split_ifs with htype
  · exact literal_works _ ht.held
  dsimp only
  split_ifs with hdistance
  · refine (readCount_works ht.held (Nat.lt_of_le_of_lt (Nat.succ_le_succ hones) hfuel)).bind ?_
    exact fun read _ hread => copyMatch_works hread.held hdistance
  · exact unencoded_works ht.held

theorem search_works {fuel : Nat} (rows : List ZGFX_TOKEN) (haveBits inPrefix : Nat)
    (h : z.BitsCurrent < 2 ^ 32) (hfuel : ones src z + 1 < fuel) :
    Works src z id (search src fuel rows haveBits inPrefix z) := by
  induction rows generalizing haveBits inPrefix z with
  | nil => exact .ok (.refl h)
  | cons r rows ih =>
    unfold search
    refine (readPrefix_works _ inPrefix h).bind fun read _ hread => ?_
    have hones := Nat.lt_of_le_of_lt (Nat.succ_le_succ hread.ones) hfuel
    dsimp only
    split_ifs
    · exact act_works r hread.held hones
    · exact ih _ _ hread.held hones

/-- **A round** either finds room for a literal or uses up a one. -/
theorem search_progress {fuel : Nat} (h : z.BitsCurrent < 2 ^ 32) (hfuel : ones src z + 1 < fuel)
    (hsearch : search src fuel ZGFX_TOKEN_TABLE 0 0 z = .ok t) :
    (z.OutputCount < t.OutputCount ∧ t.OutputCount ≤ OutputBufferSize) ∨
      ones src t < ones src z := by
  have hfirst : search src fuel ZGFX_TOKEN_TABLE 0 0 z = readPrefix src 1 0 z >>= fun read =>
      if read.1 = 0 then act src fuel ⟨1, 0, 8, 0, 0⟩ read.2
      else search src fuel ZGFX_TOKEN_TABLE.tail 1 read.1 read.2 := rfl
  rw [hfirst, readPrefix] at hsearch
  rcases hget : zgfx_GetBits src z 1 with e | u
  · rw [hget] at hsearch
    exact nomatch hsearch
  obtain ⟨hu, hused⟩ := GetBits_goes h hget
  have hones := hu.ones
  rw [hget] at hsearch
  simp only [bind, Except.bind, readPrefix] at hsearch
  split_ifs at hsearch with hzero
  · left
    unfold act at hsearch
    rcases hvalue : zgfx_GetBits src u 8 with e | v
    · rw [hvalue] at hsearch
      exact nomatch hsearch
    · rw [hvalue] at hsearch
      obtain ⟨hv, -⟩ := GetBits_goes hu.held hvalue
      obtain ⟨hmore, hroom⟩ := literal_adds hsearch
      exact ⟨Nat.lt_of_le_of_lt (Nat.le_trans hu.output hv.output) hmore, hroom⟩
  · right
    have hlt := hused (by omega)
    exact Nat.lt_of_le_of_lt ((search_works _ _ _ hu.held (by omega)).2 t hsearch).ones hlt

/-! ## The loops -/

/-- What is left for the rounds: room for literals, and ones. -/
def roundsLeft (src : Bytes) (z : ZGFX_CONTEXT) : Nat := OutputBufferSize - z.OutputCount + ones src z

theorem decodeTokens_works {fuel : Nat} (h : z.BitsCurrent < 2 ^ 32)
    (hfuel : roundsLeft src z + 1 < fuel) : Works src z id (decodeTokens src fuel z) := by
  have hones {s : ZGFX_CONTEXT} (hs : Goes src z s) : ones src s + 1 < fuel := by
    have hle := hs.ones
    unfold roundsLeft at hfuel
    omega
  have hround {s : ZGFX_CONTEXT} (hs : Goes src z s) :
      Works src s id (search src fuel ZGFX_TOKEN_TABLE 0 0 s) :=
    search_works ZGFX_TOKEN_TABLE 0 0 hs.held (hones hs)
  unfold decodeTokens
  rcases @Loop.run_result ZGFX_CONTEXT Halt (fun s => decide (s.cBitsRemaining ≠ 0))
      (fun s => search src fuel ZGFX_TOKEN_TABLE 0 0 s) (Goes src z) (roundsLeft src)
      (fun s t hs _ hbody => by
        have hgoes := (hround hs).2 t hbody
        have hout : s.OutputCount ≤ t.OutputCount := hgoes.output
        have hless : ones src t ≤ ones src s := hgoes.ones
        refine ⟨hs.trans hgoes, ?_⟩
        unfold roundsLeft
        rcases search_progress hs.held (hones hs) hbody with ⟨hmore, hroom⟩ | hused <;> omega)
      fuel z (.refl h) (by omega) with ⟨t, hrun, ht, -⟩ | ⟨e, t, hrun, ht, -, hbody⟩
  · rw [hrun]
    exact .ok ht
  · rw [hrun]
    exact ⟨fun heq => (hround ht).1 (hbody.trans heq), nofun⟩

theorem ones_le (h : z.BitsCurrent = 0) : ones src z ≤ 8 * src.length := by
  have hzero : wordOnes 0 = 0 := by decide
  have hcount : (bitsOf ((src.take z.pbInputEnd).drop z.pbInputCurrent)).count true ≤
      (bitsOf ((src.take z.pbInputEnd).drop z.pbInputCurrent)).length := List.count_le_length
  rw [bitsOf_length, List.length_drop, List.length_take] at hcount
  unfold ones
  rw [h, hzero]
  omega

theorem bind_ne_hang {α β : Type} {x : Except Halt α} {f : α → Except Halt β}
    (hx : x ≠ .error .hang) (hf : ∀ a, f a ≠ .error .hang) : x >>= f ≠ .error .hang := by
  rcases x with e | a
  · exact fun heq => hx (congrArg _ (Except.error.inj heq))
  · exact hf a

theorem segment_ne_hang {fuel : Nat} (z : ZGFX_CONTEXT) (pbSegment cbSegment : Nat)
    (hfuel : OutputBufferSize + 8 * src.length + 1 < fuel) :
    zgfx_decompress_segment fuel z src pbSegment cbSegment ≠ .error .hang := by
  have hclear (z : ZGFX_CONTEXT) (hout : z.output = []) (hheld : z.BitsCurrent = 0) :
      decodeTokens src fuel z ≠ .error .hang := by
    have hones : ones src z ≤ 8 * src.length := ones_le hheld
    refine (decodeTokens_works (by rw [hheld]; decide) ?_).1
    unfold roundsLeft ZGFX_CONTEXT.OutputCount
    rw [hout, List.length_nil]
    omega
  unfold zgfx_decompress_segment
  split_ifs
  · exact nofun
  split
  · exact nofun
  dsimp only
  split_ifs
  · refine bind_ne_hang (sourceBytes_ne_hang _ _) fun bytes => ?_
    refine bind_ne_hang (ring_write_ne_hang _) fun t => ?_
    exact bind_ne_hang (emit_ne_hang _) fun _ => nofun
  · split
    · exact nofun
    · exact bind_ne_hang (hclear _ rfl rfl) fun _ => nofun

theorem segments_ne_hang {fuel : Nat} (uncompressedSize n segmentOffset : Nat) (dst : Bytes)
    (z : ZGFX_CONTEXT) (hfuel : OutputBufferSize + 8 * src.length + 1 < fuel) :
    segments fuel src uncompressedSize n segmentOffset dst z ≠ .error .hang := by
  induction n generalizing segmentOffset dst z with
  | zero => exact nofun
  | succ n ih =>
    unfold segments
    refine bind_ne_hang (sourceBytes_ne_hang _ _) fun size => ?_
    refine bind_ne_hang (segment_ne_hang z _ _ hfuel) fun answer => ?_
    dsimp only
    split_ifs
    · exact ih _ _ _
    · exact nofun

/-- **Every message comes to an end**, whatever its bytes and the context: that many rounds are
enough for each loop. -/
theorem decompress_ends (z : ZGFX_CONTEXT) (src : Bytes) :
    ∃ fuel, ∀ n, fuel ≤ n → zgfx_decompress n z src ≠ .error .hang := by
  refine ⟨OutputBufferSize + 8 * src.length + 2, fun fuel hfuel => ?_⟩
  unfold zgfx_decompress
  split
  · exact nofun
  · split_ifs
    · exact bind_ne_hang (segment_ne_hang z _ _ hfuel) fun _ => nofun
    · refine bind_ne_hang (sourceBytes_ne_hang _ _) fun segmentCount => ?_
      refine bind_ne_hang (sourceBytes_ne_hang _ _) fun uncompressedSize => ?_
      exact bind_ne_hang (segments_ne_hang _ _ _ _ z hfuel) fun _ => nofun
    · exact nofun

end TiraRdp.Zgfx
