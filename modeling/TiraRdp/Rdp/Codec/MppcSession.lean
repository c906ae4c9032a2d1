import TiraRdp.Rdp.Codec.MppcEncode

/-!
# MPPC: a session

What a receiver makes of the packets that a sender has compressed. `Paired` ties the two contexts
between packets: their histories agree, and either the sender has given up a packet and starts anew,
which the flags of the next one say, or both stand at the same place.

Results: `mppc_decompress` gives back what `mppc_compress` was given, and the contexts are paired
again (`compress_ok`); so does a whole session of `bulk_compress` and `bulk_decompress` from its
beginning (`session_lossless`), whatever the packets before have left in `OutputBuffer`. At level 8K
this needs packets that fit in the history, which `bulk_compress` does not look at.
-/

namespace TiraRdp.Mppc

open Lib Mem

structure Paired (level : Nat) (s r : MPPC_CONTEXT) : Prop where
  agree : Agree (historySize level) s.HistoryBuffer r.HistoryBuffer
  place : (s.HistoryOffset = historySize level + 1 ∧ s.HistoryPtr = historySize level + 1 ∧
      (∀ k, s.MatchBuffer k = 0) ∧ ∀ i, s.HistoryBuffer i = 0) ∨
    (s.HistoryPtr = s.HistoryOffset ∧ r.HistoryPtr = s.HistoryOffset ∧
      s.HistoryOffset + 2 ≤ historySize level ∧ ∀ k, s.MatchBuffer k + 2 ≤ historySize level)

/-- A context at the level. -/
def AtLevel (level : Nat) (mppc : MPPC_CONTEXT) : Prop :=
  mppc.CompressionLevel = level ∧ mppc.HistoryBufferSize = historySize level

variable {level start room : Nat} {s r : MPPC_CONTEXT} {src : Bytes}

/-- The flags of a compressed packet, as they are read. -/
theorem flags_ok (front flushed : Bool) (hlevel : level ≤ 1) :
    let flags := PACKET_COMPRESSED ||| level ||| (if front then PACKET_AT_FRONT else 0) |||
      (if flushed then PACKET_FLUSHED else 0)
    flags &&& PACKET_COMPRESSED ≠ 0 ∧ (flags &&& PACKET_AT_FRONT ≠ 0 ↔ front = true) ∧
      (flags &&& PACKET_FLUSHED ≠ 0 ↔ flushed = true) ∧ flags &&& BULK_COMPRESSION_FLAGS_MASK ≠ 0 ∧
      flags &&& BULK_COMPRESSION_TYPE_MASK = level := by
  obtain rfl | rfl : level = 0 ∨ level = 1 := by omega
  all_goals cases front <;> cases flushed <;> decide

/-- The flags of a packet that has been given up. -/
theorem flushed_ok (hlevel : level ≤ 1) :
    (PACKET_FLUSHED ||| level) &&& PACKET_COMPRESSED = 0 ∧
      (PACKET_FLUSHED ||| level) &&& PACKET_FLUSHED ≠ 0 ∧
      (PACKET_FLUSHED ||| level) &&& BULK_COMPRESSION_FLAGS_MASK ≠ 0 ∧
      (PACKET_FLUSHED ||| level) &&& BULK_COMPRESSION_TYPE_MASK = level := by
  obtain rfl | rfl : level = 0 ∨ level = 1 := by omega
  all_goals decide

theorem Spells.length_le {p : Nat} {ts : List Token} {bits : List Bool} (h : Spells level p ts bits)
    (hp : p ≤ historySize level) : p + ts.length ≤ historySize level := by
  induction h with
  | nil => exact hp
  | cons ht _ ih =>
    obtain ⟨hone, hroom⟩ := ht.room
    have hrest := ih hroom
    rw [List.length_cons]
    omega

/-- Where the tokens lead. -/
theorem Spells.place_le {p : Nat} {ts : List Token} {bits : List Bool} {m : Mem UInt8}
    (h : Spells level p ts bits) (hp : p ≤ historySize level) :
    (applyAll (m, p) ts).2 ≤ historySize level := by
  induction h generalizing m with
  | nil => exact hp
  | @cons p t ts code bits ht _ ih =>
    have hstep : t.apply (m, p) = ((t.apply (m, p)).1, p + t.count) := Prod.ext rfl (apply_snd (m, p) t)
    change (applyAll (t.apply (m, p)) ts).2 ≤ _
    rw [hstep]
    exact ih ht.room.2

theorem takeFlags_level (hr : AtLevel level r) (flags : Nat) : AtLevel level (takeFlags r flags) := by
  unfold takeFlags
  split_ifs <;> exact hr

/-- What the flags of a packet that is compressed anew make of the receiver. -/
theorem takeFlags_front {flags : Nat} (hfront : flags &&& PACKET_AT_FRONT ≠ 0) :
    (takeFlags r flags).HistoryPtr = 0 := by
  unfold takeFlags
  rw [if_pos hfront]
  split_ifs <;> rfl

theorem takeFlags_flushed {flags : Nat} (hr : AtLevel level r) (hflushed : flags &&& PACKET_FLUSHED ≠ 0)
    {m : Mem UInt8} (hm : ∀ i, m i = 0) :
    Agree (historySize level) m (takeFlags r flags).HistoryBuffer := by
  intro i hi
  rw [← hr.2] at hi
  have hcell (m' : Mem UInt8) : m'.write 0 (List.replicate r.HistoryBufferSize 0) i = 0 := by
    have hat := write_at m' 0 (List.replicate r.HistoryBufferSize 0) i (by simpa using hi)
    rwa [Nat.zero_add, List.getElem_replicate] at hat
  unfold takeFlags
  rw [hm i, if_pos hflushed]
  split_ifs
  · exact (hcell _).symm
  · exact (hcell _).symm

/-- **Decoding a packet** that has been encoded. -/
theorem decompress_ok {DstSize : Nat} {m : Mem UInt8} {ts : List Token} {bits : List Bool} {c : Compress}
    {flags : Nat} (h : Encoding level DstSize start m src ts bits c) (hrest : c.rest = [])
    (hstart : start ≤ historySize level) (hsmall : DstSize ≤ 65536) (hr : AtLevel level r)
    (hagree : Agree (historySize level) m (takeFlags r flags).HistoryBuffer)
    (hptr : (takeFlags r flags).HistoryPtr = start)
    (hcompressed : flags &&& PACKET_COMPRESSED ≠ 0) :
    ∃ r', mppc_decompress r (c.bs.Flush.bytes ((c.bs.position + 7) / 8)) flags = .ok (1, src, r') ∧
      Agree (historySize level) c.mppc.HistoryBuffer r'.HistoryBuffer ∧
      r'.HistoryPtr = c.HistoryPtr := by
  obtain ⟨pad, hpad, hbits⟩ := h.written.flush
  rw [← h.written.position_eq] at hbits
  have hlength := h.written.length_le
  rw [h.capacity_eq, ← h.written.position_eq] at hlength
  generalize hpacket : c.bs.Flush.bytes ((c.bs.position + 7) / 8) = packet at hbits ⊢
  have hsize : packet.length = (c.bs.position + 7) / 8 := by
    rw [← hpacket, wBitStream.bytes, read_length]
  obtain ⟨hlevel, hhistory⟩ := takeFlags_level hr flags
  have hreading := wBitStream.reading_fetch wBitStream.new (Mem.write (fun _ => 0) 0 packet)
    packet.length
  rw [read_write_same, hbits] at hreading
  obtain ⟨d, hrun, happly⟩ := decodeTokens_ok (n := historySize level + 1)
    (d := ⟨(wBitStream.new.Attach (Mem.write (fun _ => 0) 0 packet) packet.length).Fetch,
      (takeFlags r flags).HistoryBuffer, start⟩) h.spells ⟨hreading, rfl⟩ rfl
    (by rwa [List.length_replicate]) (Nat.zero_le _)
    (by rw [← hbits, bitsOf_length]; omega)
    (by have hle := h.spells.length_le hstart; omega)
  obtain ⟨hcongr, hplace⟩ := applyAll_congr h.spells hagree
  rw [h.applied] at hcongr hplace
  rw [← happly] at hcongr hplace
  have hend := h.place
  rw [hrest, List.length_nil, Nat.add_zero] at hend
  have hle := h.spells.length_le hstart
  have hread : read d.HistoryBuffer start (d.HistoryPtr - start) = src := by
    have htaken := h.taken
    rw [hrest, List.append_nil] at htaken
    have hsame : d.HistoryPtr = c.HistoryPtr := hplace.symm
    rw [hsame, ← htaken]
    have hfits : c.HistoryPtr ≤ historySize level := by
      have hptr' : (applyAll (m, start) ts).2 = c.HistoryPtr := congrArg Prod.snd h.applied
      rw [← hptr']
      exact h.spells.place_le hstart
    exact read_congr fun j _ hj => (hcongr j (by have := h.start_le; omega)).symm
  refine ⟨{ takeFlags r flags with HistoryBuffer := d.HistoryBuffer, HistoryPtr := d.HistoryPtr }, ?_,
    hcongr, hplace.symm⟩
  unfold mppc_decompress
  dsimp only
  rw [if_neg hcompressed, hlevel, hhistory, hptr, hrun]
  dsimp only
  rw [hread]

theorem historySize_eq (hlevel : level ≤ 1) : historySize level = 8192 ∨ historySize level = 65536 := by
  obtain rfl | rfl : level = 0 ∨ level = 1 := by omega
  · exact .inl rfl
  · exact .inr rfl

/-- A packet that has been given up: both sides start anew. -/
theorem given_up (src : Bytes) {flags : Nat} (hs : AtLevel level s) (hr : AtLevel level r)
    (hraw : flags &&& PACKET_COMPRESSED = 0) (hflushed : flags &&& PACKET_FLUSHED ≠ 0) :
    ∃ r', mppc_decompress r src flags = .ok (1, src, r') ∧
      Paired level (mppc_context_reset s true) r' := by
  have hfresh : (mppc_context_reset s true).HistoryOffset = s.HistoryBufferSize + 1 := rfl
  have hmark : (mppc_context_reset s true).HistoryPtr = s.HistoryBufferSize + 1 := rfl
  refine ⟨takeFlags r flags, ?_, takeFlags_flushed hr hflushed fun _ => rfl, .inl ⟨?_, ?_,
    fun _ => rfl, fun _ => rfl⟩⟩
  · unfold mppc_decompress
    dsimp only
    rw [if_pos hraw]
  · rw [hfresh, hs.2]
  · rw [hmark, hs.2]

/-- **A packet.** What has been compressed is decompressed, and the contexts are paired again. -/
theorem compress_ok (pDstData : Mem UInt8) (hlevel : level ≤ 1) (hpaired : Paired level s r) (hs : AtLevel level s)
    (hr : AtLevel level r) (hsrc : 0 < src.length) (hfits : src.length + 2 ≤ historySize level)
    (hroom : 0 < room) :
    ∃ packed, mppc_compress s src pDstData room = .ok packed ∧ packed.status = 1 ∧
      packed.flags &&& BULK_COMPRESSION_FLAGS_MASK ≠ 0 ∧
      packed.flags &&& BULK_COMPRESSION_TYPE_MASK = level ∧ ∃ r',
      mppc_decompress r packed.bytes packed.flags = .ok (1, src, r') ∧ Paired level packed.mppc r' := by
  obtain ⟨hagree, hplace⟩ := hpaired
  have hsizes := historySize_eq hlevel
  have hsmall : (if room > src.length then src.length else room) ≤ 65536 := by split_ifs <;> omega
  have hspace : 0 < (if room > src.length then src.length else room) ∧
      (if room > src.length then src.length else room) < 2 ^ 32 := by split_ifs <;> omega
  unfold mppc_compress
  dsimp only
  rw [hs.1, hs.2]
  generalize (if room > src.length then src.length else room) = DstSize at hsmall hspace ⊢
  have hoffset : s.HistoryOffset ≤ historySize level + 1 := by
    rcases hplace with h | h <;> omega
  generalize hfront : (!decide (u32 (s.HistoryOffset + src.length) < subU32 (historySize level) 3 ∧
    s.HistoryOffset ≠ 0)) = front
  generalize hflushed : (front && s.HistoryOffset == historySize level + 1) = flushed
  generalize hstart : (if front then 0 else s.HistoryOffset) = start
  rw [u32_of_lt (by omega), subU32_of_le (by omega) (by omega)] at hfront
  have hbound : start + src.length + 2 ≤ historySize level := by
    cases front with
    | true =>
      rw [← hstart, if_pos rfl]
      omega
    | false =>
      have hstay := (show s.HistoryOffset + src.length < historySize level - 3 ∧ s.HistoryOffset ≠ 0 by simpa using hfront)
      rw [← hstart, if_neg Bool.false_ne_true]
      omega
  have hlimits : Limits level start s := by
    rcases hplace with ⟨-, hmark, hnone, -⟩ | ⟨hmark, -, hin, hall⟩
    · exact .inr ⟨hmark, fun k => by rw [hnone k]; exact Nat.zero_le _⟩
    · exact .inl ⟨by omega, hall⟩
  have hencoding : Encoding level DstSize start s.HistoryBuffer src [] []
      ⟨s, wBitStream.new.Attach pDstData DstSize, start, src⟩ :=
    ⟨hs.1, hs.2, wBitStream.written_attach _ _ _, rfl, .nil _, rfl, Nat.le_refl _,
      by rw [Nat.sub_self]; rfl, hlimits⟩
  rcases encodeTokens_ok hspace hbound hencoding with hgiven | ⟨c, ts, bits, hdone, henc, hrest⟩
  · -- the packet is given up, and the receiver starts anew as well
    obtain ⟨hraw, hflush, hmask, htype⟩ := flushed_ok hlevel
    obtain ⟨r', hdecompress, hpaired'⟩ := given_up src hs hr hraw hflush
    rw [hgiven]
    exact ⟨⟨1, PACKET_FLUSHED ||| level, src, mppc_context_reset s true⟩, rfl, rfl, hmask, htype, r',
      hdecompress, hpaired'⟩
  · -- the packet has been compressed
    rw [hdone]
    dsimp only
    obtain ⟨hcompressed, hat, hflush, hmask, htype⟩ := flags_ok front flushed hlevel
    refine ⟨_, rfl, rfl, hmask, htype, ?_⟩
    dsimp only
    generalize PACKET_COMPRESSED ||| level ||| (if front then PACKET_AT_FRONT else 0) |||
      (if flushed then PACKET_FLUSHED else 0) = flags at hcompressed hat hflush hmask htype ⊢
    have hreceiver : Agree (historySize level) s.HistoryBuffer (takeFlags r flags).HistoryBuffer ∧
        (takeFlags r flags).HistoryPtr = start := by
      cases front with
      | false =>
        obtain rfl : flushed = false := by rw [← hflushed, Bool.false_and]
        have hno : takeFlags r flags = r := by
          unfold takeFlags
          dsimp only
          rw [if_neg (fun h => Bool.false_ne_true (hat.mp h)),
            if_neg (fun h => Bool.false_ne_true (hflush.mp h))]
        have hstay := (show s.HistoryOffset + src.length < historySize level - 3 ∧ s.HistoryOffset ≠ 0 by simpa using hfront)
        rw [if_neg Bool.false_ne_true] at hstart
        rcases hplace with ⟨hfresh, -⟩ | ⟨-, hptr, -⟩
        · omega
        · rw [hno]
          exact ⟨hagree, hptr.trans hstart⟩
      | true =>
        rw [if_pos rfl] at hstart
        rw [Bool.true_and] at hflushed
        refine ⟨?_, (takeFlags_front (hat.mpr rfl)).trans hstart⟩
        rcases hplace with ⟨hfresh, -, -, hzero⟩ | ⟨-, -, hin, -⟩
        · exact takeFlags_flushed hr (hflush.mpr (by rw [← hflushed, hfresh, beq_self_eq_true])) hzero
        · have hold : s.HistoryOffset ≠ historySize level + 1 := by omega
          have hno : (takeFlags r flags).HistoryBuffer = r.HistoryBuffer := by
            unfold takeFlags
            dsimp only
            rw [if_neg (fun h => hold (beq_iff_eq.mp (hflushed.trans (hflush.mp h))))]
            split_ifs <;> rfl
          rw [hno]
          exact hagree
    obtain ⟨r', hdecompress, hagree', hptr'⟩ := decompress_ok henc hrest (by omega) hsmall hr
      hreceiver.1 hreceiver.2 hcompressed
    have hend := henc.place
    rw [hrest, List.length_nil] at hend
    refine ⟨r', hdecompress, hagree', .inr ⟨rfl, hptr', by dsimp only; omega, fun k => ?_⟩⟩
    rcases henc.limits with ⟨-, hall⟩ | ⟨-, hall⟩
    · exact hall k
    · have hk := hall k
      dsimp only
      omega

/-! ## A session -/

theorem set_level (hlevel : level ≤ 1) (mppc : MPPC_CONTEXT) :
    AtLevel level (mppc_set_compression_level mppc level) ∧
      (mppc_set_compression_level mppc level).HistoryBuffer = mppc.HistoryBuffer := by
  obtain rfl | rfl : level = 0 ∨ level = 1 := by omega
  · exact ⟨⟨rfl, rfl⟩, rfl⟩
  · exact ⟨⟨rfl, rfl⟩, rfl⟩

theorem Paired.set_level (hlevel : level ≤ 1) (h : Paired level s r) :
    Paired level (mppc_set_compression_level s level) (mppc_set_compression_level r level) := by
  obtain rfl | rfl : level = 0 ∨ level = 1 := by omega
  · exact ⟨h.agree, h.place⟩
  · exact ⟨h.agree, h.place⟩

/-- The packets that are sent, each with what is in `OutputBuffer` by then: the statuses and the
packets that are received. -/
def session (s r : rdpBulk) : List (Bytes × Mem UInt8) → Except Halt (List (Int × Bytes))
  | [] => .ok []
  | (src, OutputBuffer) :: packets => do
    let (_, flags, bytes, s) ← bulk_compress s src OutputBuffer
    let (status, bytes, r) ← bulk_decompress r bytes flags
    let received ← session s r packets
    .ok ((status, bytes) :: received)

/-- Packets that are not compressed, and those that fit in the history. -/
def Fits (level : Nat) (src : Bytes) : Prop :=
  src.length ≤ 50 ∨ 16384 ≤ src.length ∨ src.length + 2 ≤ historySize level

theorem session_ok {s r : rdpBulk} (hlevel : level ≤ 1) (hs : s.CompressionLevel = level)
    (hpaired : Paired level s.mppcSend r.mppcRecv) {packets : List (Bytes × Mem UInt8)}
    (hfits : ∀ p ∈ packets, Fits level p.1) :
    ∃ received, session s r packets = .ok received ∧
      received.map Prod.snd = packets.map Prod.fst ∧ ∀ p ∈ received, 0 ≤ p.1 := by
  induction packets generalizing s r with
  | nil => exact ⟨[], rfl, rfl, fun _ h => absurd h List.not_mem_nil⟩
  | cons p packets ih =>
    obtain ⟨src, OutputBuffer⟩ := p
    have hrest : ∀ p ∈ packets, Fits level p.1 := fun p hp => hfits p (List.mem_cons_of_mem _ hp)
    unfold session
    by_cases hplain : src.length ≤ 50 ∨ 16384 ≤ src.length
    · obtain ⟨received, hsession, hall, hstatus⟩ := ih hs hpaired hrest
      refine ⟨(0, src) :: received, ?_, by rw [List.map_cons, hall]; rfl,
        List.forall_mem_cons.mpr ⟨Int.le_refl 0, hstatus⟩⟩
      unfold bulk_compress
      rw [if_pos hplain]
      simp only [bind, Except.bind]
      have hraw : bulk_decompress r src 0 = .ok (0, src, r) := rfl
      rw [hraw]
      dsimp only
      rw [hsession]
    · have hsize : src.length + 2 ≤ historySize level := by
        rcases hfits _ List.mem_cons_self with h | h | h
        · exact absurd (.inl h) hplain
        · exact absurd (.inr h) hplain
        · exact h
      obtain ⟨packed, hcompress, -, hmask, htype, r', hdecompress, hpaired'⟩ :=
        compress_ok OutputBuffer hlevel (hpaired.set_level hlevel) (set_level hlevel _).1
          (set_level hlevel _).1 (by omega) hsize (show 0 < 65536 by decide)
      obtain ⟨received, hsession, hall, hstatus⟩ :=
        ih (s := { s with mppcSend := packed.mppc }) (r := { r with mppcRecv := r' }) hs hpaired' hrest
      refine ⟨(1, src) :: received, ?_, by rw [List.map_cons, hall]; rfl,
        List.forall_mem_cons.mpr ⟨Int.one_nonneg, hstatus⟩⟩
      have htypes : packed.flags &&& BULK_COMPRESSION_TYPE_MASK = PACKET_COMPR_TYPE_8K ∨
          packed.flags &&& BULK_COMPRESSION_TYPE_MASK = PACKET_COMPR_TYPE_64K := by
        rw [htype]
        unfold PACKET_COMPR_TYPE_8K PACKET_COMPR_TYPE_64K
        omega
      rw [← hs] at hcompress
      unfold bulk_compress
      rw [if_neg hplain, hcompress]
      simp only [bind, Except.bind]
      unfold bulk_decompress
      dsimp only
      rw [if_pos hmask, if_pos htypes, htype, hdecompress]
      simp only [bind, Except.bind]
      rw [hsession]

/-- **A session** from its beginning: at level 64K every packet is received as it was sent, and at
level 8K every packet that fits in the history, with no access outside of a buffer. -/
theorem session_lossless {packets : List (Bytes × Mem UInt8)} (hlevel : level ≤ 1)
    (hfits : level = 0 → ∀ p ∈ packets, Fits 0 p.1) :
    ∃ received, session (bulk_new level) (bulk_new level) packets = .ok received ∧
      received.map Prod.snd = packets.map Prod.fst ∧ ∀ p ∈ received, 0 ≤ p.1 := by
  refine session_ok hlevel rfl ⟨fun _ _ => rfl, .inr ⟨rfl, rfl, ?_, fun _ => ?_⟩⟩ fun p hp => ?_
  · exact Nat.le_trans (show 0 + 2 ≤ 8192 by decide) (historySize_le level).1
  · exact Nat.le_trans (show 0 + 2 ≤ 8192 by decide) (historySize_le level).1
  · obtain rfl | rfl : level = 0 ∨ level = 1 := by omega
    · exact hfits rfl p hp
    · unfold Fits
      change _ ∨ _ ∨ p.1.length + 2 ≤ 65536
      omega

theorem session_lossless_sixty :
    ∃ received, session (bulk_new 0) (bulk_new 0)
        [(List.replicate 60 7, fun _ => 0), (List.replicate 70 7, fun _ => 1)] = .ok received ∧
      received.map Prod.snd = [List.replicate 60 7, List.replicate 70 7] ∧
      ∀ p ∈ received, 0 ≤ p.1 :=
  session_lossless (by decide) fun _ p hp => by
    rcases List.mem_pair.mp hp with rfl | rfl
    · exact .inr (.inr (by rw [List.length_replicate]; decide))
    · exact .inr (.inr (by rw [List.length_replicate]; decide))

/-! ## Any packet -/

theorem lengthRows_bounds (level : Nat) : ∀ row ∈ lengthRows level,
    3 ≤ row.base ∧ row.low + row.base < historySize level := by
  unfold lengthRows historySize
  split_ifs <;> decide +kernel

theorem MaskRow.number_bounds (row : MaskRow) (accumulator : Nat) :
    row.base ≤ row.number accumulator ∧ row.number accumulator ≤ row.low + row.base :=
  ⟨Nat.le_add_left _ _, Nat.add_le_add_right Nat.and_le_right _⟩

theorem sourceOf_le (level p offset : Nat) : sourceOf level p offset ≤ HistorySpace := by
  unfold sourceOf HistorySpace
  split_ifs <;> omega

theorem literal_cases (d : Decompress) (v n : Nat) :
    (d.HistoryPtr < HistorySpace ∧ ∃ d', d.literal v n = .ok d' ∧ d'.HistoryPtr = d.HistoryPtr + 1) ∨
      (HistorySpace ≤ d.HistoryPtr ∧ d.literal v n = .error (.halt .outside)) := by
  unfold Decompress.literal putHistory
  by_cases hin : d.HistoryPtr < HistorySpace
  · rw [if_pos hin]
    exact .inl ⟨hin, _, rfl, rfl⟩
  · rw [if_neg hin]
    exact .inr ⟨Nat.not_lt.mp hin, rfl⟩

/-- **What a round does**, whatever the bits are: a status is returned, the history is left, or
`HistoryPtr` moves on. At level 8K the history is not left. -/
theorem decodeToken_cases (level : Nat) (d : Decompress) :
    (∃ e, decodeToken level (historySize level) d = .error (.early e)) ∨
      (level ≠ 0 ∧ decodeToken level (historySize level) d = .error (.halt .outside)) ∨
      ∃ d', decodeToken level (historySize level) d = .ok d' ∧ d.HistoryPtr < historySize level ∧
        d.HistoryPtr < d'.HistoryPtr := by
  obtain ⟨h8192, hspace⟩ := historySize_le level
  unfold decodeToken
  dsimp only
  by_cases hover : d.HistoryPtr > historySize level - 1
  · rw [if_pos hover]
    exact .inl ⟨_, rfl⟩
  rw [if_neg hover]
  by_cases h1 : d.bs.accumulator &&& 0x80000000 = 0
  · rw [if_pos h1]
    rcases literal_cases d ((d.bs.accumulator &&& 0x7F000000) >>> 24) 8 with
      ⟨-, d', hliteral, hptr⟩ | ⟨hout, -⟩
    · exact .inr (.inr ⟨d', hliteral, by omega, by omega⟩)
    · omega
  rw [if_neg h1]
  by_cases h2 : d.bs.accumulator &&& 0xC0000000 = 0x80000000
  · rw [if_pos h2]
    rcases literal_cases d (((d.bs.accumulator &&& 0x3F800000) >>> 23) + 0x80) 9 with
      ⟨-, d', hliteral, hptr⟩ | ⟨hout, -⟩
    · exact .inr (.inr ⟨d', hliteral, by omega, by omega⟩)
    · omega
  rw [if_neg h2]
  cases (copyOffsetRows level).find? (·.hit d.bs.accumulator) with
  | none => exact .inl ⟨_, rfl⟩
  | some row =>
    dsimp only
    cases hfind : (lengthRows level).find? (·.hit (d.bs.Shift row.nbits).accumulator) with
    | none => exact .inl ⟨_, rfl⟩
    | some row' =>
      dsimp only
      obtain ⟨hbase, hlow⟩ := lengthRows_bounds level row' (List.mem_of_find?_eq_some hfind)
      obtain ⟨hleast, hmost⟩ := MaskRow.number_bounds row' (d.bs.Shift row.nbits).accumulator
      split_ifs with hlong
      · exact .inl ⟨_, rfl⟩
      · generalize row'.number _ = count at hleast hmost hlong ⊢
        generalize row.number _ = offset
        by_cases hsource : sourceOf level d.HistoryPtr offset + count ≤ HistorySpace
        · rw [copyMatch_eq (by omega) hsource]
          refine .inr (.inr ⟨_, rfl, by omega, ?_⟩)
          dsimp only
          omega
        · have hlevel : level ≠ 0 := by
            rintro rfl
            have hin : sourceOf 0 d.HistoryPtr offset < 8192 := by
              unfold sourceOf
              rw [if_neg (not_not.mpr rfl)]
              omega
            have hsize : historySize 0 = 8192 := rfl
            rw [hsize] at hlow
            unfold HistorySpace at hsource
            omega
          refine .inr (.inl ⟨hlevel, ?_⟩)
          rw [copyMatch_outside (by omega) hsource (sourceOf_le level d.HistoryPtr offset)]
          rfl

/-- **Any bytes at all** are decompressed to an end: a status comes of them, or, at level 64K only, a
copy is read from behind the history. -/
theorem mppc_decompress_ends (hr : AtLevel level r) (src : Bytes) (flags : Nat) :
    (∃ result, mppc_decompress r src flags = .ok result) ∨
      (level ≠ 0 ∧ mppc_decompress r src flags = .error .outside) := by
  unfold mppc_decompress
  dsimp only
  split_ifs with hraw
  · exact .inl ⟨_, rfl⟩
  obtain ⟨hlevel, hsize⟩ := takeFlags_level hr flags
  have hpos := (historySize_le level).1
  rw [hlevel, hsize]
  have hbody (d d' : Decompress) (_ : True) (_ : d.more = true)
      (hok : decodeToken level (historySize level) d = .ok d') :
      True ∧ historySize level - d'.HistoryPtr < historySize level - d.HistoryPtr := by
    rcases decodeToken_cases level d with ⟨e, herror⟩ | ⟨-, herror⟩ | ⟨d'', hok', hin, hmoves⟩
    · rw [herror] at hok
      cases hok
    · rw [herror] at hok
      cases hok
    · obtain rfl := Except.ok.inj (hok'.symm.trans hok)
      exact ⟨trivial, by omega⟩
  rcases Loop.run_result (v := fun d : Decompress => historySize level - d.HistoryPtr) hbody (historySize level + 1)
    ⟨(wBitStream.new.Attach (Mem.write (fun _ => 0) 0 src) src.length).Fetch,
      (takeFlags r flags).HistoryBuffer, (takeFlags r flags).HistoryPtr⟩ trivial (by omega) with
    ⟨d, hrun, -⟩ | ⟨e, d, hrun, -, -, herror⟩
  · rw [hrun]
    exact .inl ⟨_, rfl⟩
  · rw [hrun]
    rcases decodeToken_cases level d with ⟨e', hearly⟩ | ⟨hlevel', hhalt⟩ | ⟨d', hok, -⟩
    · rw [Except.error.inj (herror.symm.trans hearly)]
      exact .inl ⟨_, rfl⟩
    · rw [Except.error.inj (herror.symm.trans hhalt)]
      exact .inr ⟨hlevel', rfl⟩
    · rw [hok] at herror
      cases herror

theorem mppc_decompress_ends_new :
    (∃ result, mppc_decompress (mppc_set_compression_level (mppc_context_new 1) 0) [0xFF, 0xFF, 0xFF]
        PACKET_COMPRESSED = .ok result) ∨ ((0 : Nat) ≠ 0 ∧ mppc_decompress
          (mppc_set_compression_level (mppc_context_new 1) 0) [0xFF, 0xFF, 0xFF] PACKET_COMPRESSED =
            .error .outside) :=
  mppc_decompress_ends (set_level (by decide) _).1 _ _

end TiraRdp.Mppc
