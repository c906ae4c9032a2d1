import TiraRdp.Rdp.Codec.ZgfxDecode

/-!
# ZGFX: sessions

The segments and messages that `zgfx_decompress` takes, and what a decoder makes of one message after
the other, its ring being all that is kept between them.

* `SpellsSegment`, `SpellsMessage`: what is around the bits, in one segment or in several.
* `literalBits`, `nearBits`: the bits of some tokens.
* `expandEach`: what each of several messages adds to the history.
* `decompressAll`: the calls of `zgfx_decompress` for the messages of a session.

Results: a segment that is spelled well is decoded to the expansion of its tokens
(`segment_ok`), so is a message (`message_ok`), and so is every message of a session
(`session_expands`), from a context that has just been made on: nothing is read or written outside of
a buffer, and every loop ends.
-/

namespace TiraRdp.Zgfx

open Lib Mem Lz77

/-! ## The format -/

/-- A segment: bytes as they are, or bits, the last byte of which says how many at their end are
none of them. What it decodes to fits in `OutputBuffer`. -/
inductive SpellsSegment : List (Token UInt8) → Bytes → Prop
  | plain {flags : UInt8} {bytes : Bytes} (hflags : flags.toNat &&& PACKET_COMPRESSED = 0)
      (hsize : bytes.length ≤ OutputBufferSize) : SpellsSegment [.raw bytes] (flags :: bytes)
  | packed {flags : UInt8} {tokens : List (Token UInt8)} {bits pad : List Bool} {body : Bytes}
      (hflags : flags.toNat &&& PACKET_COMPRESSED ≠ 0) (htokens : Spells 2500000 0 tokens bits)
      (hbody : bitsOf body = bits ++ pad) (hpad : pad.length < 256)
      (hsize : (tokens.map Token.size).sum ≤ OutputBufferSize) :
      SpellsSegment tokens (flags :: (body ++ [UInt8.ofNat pad.length]))

/-- A segment of a multipart message. -/
structure Part where
  tokens : List (Token UInt8)
  segment : Bytes

def Part.bytes (p : Part) : Bytes := le32 p.segment.length ++ p.segment

def Part.size (p : Part) : Nat := (p.tokens.map Token.size).sum

inductive SpellsMessage : List (Token UInt8) → Bytes → Prop
  | single {tokens : List (Token UInt8)} {segment : Bytes} (h : SpellsSegment tokens segment) :
      SpellsMessage tokens (UInt8.ofNat ZGFX_SEGMENTED_SINGLE :: segment)
  | multipart {parts : List Part} (h : ∀ p ∈ parts, SpellsSegment p.tokens p.segment)
      (hcount : parts.length < 2 ^ 16) :
      SpellsMessage (parts.flatMap Part.tokens) (UInt8.ofNat ZGFX_SEGMENTED_MULTIPART ::
        (le16 parts.length ++ le32 (parts.map Part.size).sum ++ parts.flatMap Part.bytes))

/-- The bits of literals, by the row that has them all. -/
def literalBits (bytes : Bytes) : List Bool :=
  bytes.flatMap fun b => ZGFX_TOKEN.spell ⟨1, 0, 8, 0, 0⟩ b.toNat

theorem Spells.literals {window position : Nat} {tokens : List (Token UInt8)} {bits : List Bool}
    (bytes : Bytes) (h : Spells window (position + (literalBits bytes).length) tokens bits) :
    Spells window position (bytes.map .literal ++ tokens) (literalBits bytes ++ bits) := by
  induction bytes generalizing position with
  | nil => exact h
  | cons b bytes ih =>
    have hbyte : UInt8.ofNat (0 + b.toNat) = b := by rw [Nat.zero_add, UInt8.ofNat_toNat]
    have htoken : SpellsToken window position (.literal (UInt8.ofNat (0 + b.toNat)))
        (ZGFX_TOKEN.spell ⟨1, 0, 8, 0, 0⟩ b.toNat) :=
      .literal (t := ⟨1, 0, 8, 0, 0⟩) (by decide) rfl b.toNat_lt
    rw [hbyte] at htoken
    unfold literalBits at h ⊢
    rw [List.flatMap_cons, List.length_append, ← Nat.add_assoc] at h
    rw [List.map_cons, List.cons_append, List.flatMap_cons, List.append_assoc]
    exact .cons htoken (ih h)

/-- The bits of a copy from fewer than 32 bytes back. -/
def nearBits (distance count : Nat) : List Bool :=
  ZGFX_TOKEN.spell ⟨5, 17, 5, 1, 0⟩ distance ++ countBits count

theorem Spells.near {window position distance count : Nat} {tokens : List (Token UInt8)}
    {bits : List Bool} (hpos : 1 ≤ distance) (hnear : distance < 32) (hwindow : distance ≤ window)
    (hcount : 3 ≤ count)
    (h : Spells window (position + (nearBits distance count).length) tokens bits) :
    Spells window position (.copy distance count :: tokens) (nearBits distance count ++ bits) := by
  have htoken : SpellsToken window position (.copy (0 + distance) count)
      (nearBits distance count) := by
    rw [← Nat.zero_add distance] at hpos hwindow
    exact .copy (t := ⟨5, 17, 5, 1, 0⟩) (by decide) (by decide) hnear hpos hwindow hcount
  rw [Nat.zero_add] at htoken
  exact .cons htoken h

/-- What the tokens of each message add to the history before it. -/
def expandEach (history : Bytes) : List (List (Token UInt8)) → List Bytes
  | [] => []
  | tokens :: more =>
    let text := (expandAll history tokens).drop history.length
    text :: expandEach (history ++ text) more

theorem expandEach_length (history : Bytes) (texts : List (List (Token UInt8))) :
    (expandEach history texts).length = texts.length := by
  induction texts generalizing history with
  | nil => rfl
  | cons tokens texts ih => rw [expandEach, List.length_cons, List.length_cons, ih]

/-! ## A segment -/

theorem SpellsSegment.size_le {tokens : List (Token UInt8)} {segment : Bytes}
    (h : SpellsSegment tokens segment) : (tokens.map Token.size).sum ≤ OutputBufferSize := by
  cases h with
  | plain _ hsize => exact hsize
  | packed _ _ _ _ hsize => exact hsize

theorem Spells.within {window position : Nat} {tokens : List (Token UInt8)} {bits : List Bool}
    (h : Spells window position tokens bits) : ∀ t ∈ tokens, t.Within window := by
  induction h with
  | nil => exact fun _ ht => nomatch ht
  | cons htoken _ ih =>
    intro t ht
    rcases List.mem_cons.mp ht with rfl | hmore
    · cases htoken with
      | literal => trivial
      | copy _ _ _ hpos hwindow _ => exact ⟨hpos, hwindow⟩
      | raw => trivial
    · exact ih t hmore

theorem SpellsSegment.within {tokens : List (Token UInt8)} {segment : Bytes}
    (h : SpellsSegment tokens segment) : ∀ t ∈ tokens, t.Within 2500000 := by
  cases h with
  | plain =>
    intro t ht
    rw [List.mem_singleton] at ht
    subst ht
    trivial
  | packed _ htokens => exact htokens.within

/-- The decoder between two segments. -/
structure Idle (history : Bytes) (z : ZGFX_CONTEXT) : Prop where
  keeps : z.Keeps history
  size_eq : z.HistoryBufferSize = 2500000

theorem sourceBytes_ok (before xs after : Bytes) :
    sourceBytes (before ++ (xs ++ after)) before.length xs.length = .ok xs := by
  unfold sourceBytes
  rw [if_pos (by simp), List.drop_left, List.take_left]

/-- What stands right behind `before`. -/
theorem getElem?_behind (before after : Bytes) (b : UInt8) :
    (before ++ b :: after)[before.length]? = some b := by
  rw [List.getElem?_append_right (Nat.le_refl _), Nat.sub_self, List.getElem?_cons_zero]

section Segment

variable {z : ZGFX_CONTEXT} {history : Bytes} (before after : Bytes) {flags : UInt8} (fuel : Nat)

theorem plain_ok {bytes : Bytes} (hflags : flags.toNat &&& PACKET_COMPRESSED = 0)
    (hsize : bytes.length ≤ OutputBufferSize) (h : Idle history z) :
    ∃ z', zgfx_decompress_segment fuel z (before ++ flags :: (bytes ++ after)) before.length
        (bytes.length + 1) = .ok (1, z') ∧ z'.output = bytes ∧ Idle (history ++ bytes) z' := by
  have hsource : sourceBytes (before ++ flags :: (bytes ++ after)) (before.length + 1)
      (bytes.length + 1 - 1) = .ok bytes := by
    have hbehind := sourceBytes_ok (before ++ [flags]) bytes after
    rwa [List.append_assoc, List.length_append] at hbehind
  obtain ⟨buffer, index, hwrite, hkeeps⟩ :=
    ring_write_ok (z := { z with output := [] }) bytes h.keeps
  have hroom : (ZGFX_CONTEXT.remember { z with output := [] } buffer index).output.length +
      bytes.length ≤ OutputBufferSize := (Nat.zero_add bytes.length).symm ▸ hsize
  refine ⟨{ ZGFX_CONTEXT.remember z buffer index with output := bytes }, ?_, rfl, hkeeps, h.size_eq⟩
  · unfold zgfx_decompress_segment
    rw [if_neg (Nat.not_lt.mpr (Nat.le_add_left 1 _)), getElem?_behind]
    simp only
    rw [if_pos hflags, hsource]
    simp only [bind, Except.bind]
    rw [hwrite]
    simp only
    rw [emit_ok hroom]
    rfl

theorem packed_ok {tokens : List (Token UInt8)} {bits pad : List Bool} {body : Bytes}
    (hflags : flags.toNat &&& PACKET_COMPRESSED ≠ 0) (htokens : Spells 2500000 0 tokens bits)
    (hbody : bitsOf body = bits ++ pad) (hpad : pad.length < 256)
    (hsize : (tokens.map Token.size).sum ≤ OutputBufferSize) (h : Idle history z)
    (hsmall : 8 * body.length < 2 ^ 32) (hfuel : 8 * body.length + 24 ≤ fuel) :
    ∃ z' xs, zgfx_decompress_segment fuel z
        (before ++ flags :: (body ++ UInt8.ofNat pad.length :: after)) before.length
        (body.length + 2) = .ok (1, z') ∧ z'.output = xs ∧
      expandAll history tokens = history ++ xs ∧ Idle (history ++ xs) z' := by
  have hlen : bits.length + pad.length = 8 * body.length := by
    rw [← List.length_append, ← hbody, bitsOf_length]
  have hend : before.length + 1 + (body.length + 2 - 1) - 1 = before.length + 1 + body.length := by
    omega
  have hsource : before ++ flags :: (body ++ UInt8.ofNat pad.length :: after) =
      (before ++ [flags]) ++ (body ++ UInt8.ofNat pad.length :: after) := by
    rw [List.append_assoc, List.singleton_append]
  have hlast : (before ++ flags :: (body ++ UInt8.ofNat pad.length :: after))[
      before.length + 1 + body.length]? = some (UInt8.ofNat pad.length) := by
    have hbehind := getElem?_behind ((before ++ [flags]) ++ body) after (UInt8.ofNat pad.length)
    rwa [List.append_assoc _ body, ← hsource, List.length_append, List.length_append] at hbehind
  have hinput : ((before ++ flags :: (body ++ UInt8.ofNat pad.length :: after)).take
      (before.length + 1 + body.length)).drop (before.length + 1) = body := by
    rw [hsource, List.drop_take, List.drop_left' (by simp)]
    exact List.take_left' (by omega)
  have hremaining : subU32 (u32 (8 * subU32 (body.length + 2 - 1) 1))
      (UInt8.ofNat pad.length).toNat = bits.length := by
    have hbyte : (UInt8.ofNat pad.length).toNat = pad.length := by
      rw [UInt8.toNat_ofNat']
      omega
    rw [hbyte, subU32_of_le (a := body.length + 2 - 1) (by omega) (by omega),
      u32_of_lt (by omega), subU32_of_le (by omega) (by omega)]
    omega
  have hstart : Decoding (before ++ flags :: (body ++ UInt8.ofNat pad.length :: after)) pad 0 bits
      history [] { z with
        output := []
        pbInputCurrent := before.length + 1
        pbInputEnd := before.length + 1 + body.length
        cBitsRemaining := bits.length
        cBitsCurrent := 0
        BitsCurrent := 0 } := by
    refine ⟨⟨Nat.le_add_right _ _, ?_, Nat.one_pos, ?_⟩, Nat.zero_lt_succ 7, rfl, rfl, by omega, h.keeps,
      h.size_eq, rfl⟩
    · simp only [List.length_append, List.length_cons]
      omega
    · change [] ++ bitsOf _ = _
      rw [hinput, List.nil_append, hbody]
  obtain ⟨z', xs, hrun, hexpand, hdone⟩ := tokens_ok fuel (n := fuel) htokens hstart
    ((Nat.zero_add _).symm ▸ hsize) (by omega) (by omega)
  refine ⟨z', xs, ?_, hdone.output, hexpand, hdone.keeps, hdone.size_eq⟩
  unfold zgfx_decompress_segment
  rw [if_neg (by omega), getElem?_behind]
  simp only
  rw [if_neg hflags, hend, hlast]
  simp only
  rw [hremaining, decodeTokens, hrun]
  rfl

/-- **A segment** is decoded to the expansion of its tokens. -/
theorem segment_ok {segment : Bytes} {tokens : List (Token UInt8)}
    (hsegment : SpellsSegment tokens segment) (h : Idle history z)
    (hsmall : 8 * segment.length < 2 ^ 32) (hfuel : 8 * segment.length + 24 ≤ fuel) :
    ∃ z' xs, zgfx_decompress_segment fuel z (before ++ (segment ++ after)) before.length
        segment.length = .ok (1, z') ∧ z'.output = xs ∧ expandAll history tokens = history ++ xs ∧
      xs.length = (tokens.map Token.size).sum ∧ Idle (history ++ xs) z' := by
  have hsizes {xs : Bytes} (hexpand : expandAll history tokens = history ++ xs) :
      xs.length = (tokens.map Token.size).sum := by
    have hlength := congrArg List.length hexpand
    rw [expandAll_length hsegment.within (h.size_eq ▸ h.keeps.size_le), List.length_append]
      at hlength
    exact Nat.add_left_cancel hlength.symm
  cases hsegment with
  | @plain flags bytes hflags hsize =>
    obtain ⟨z', hsegment, hout, hidle⟩ := plain_ok before after fuel hflags hsize h
    exact ⟨z', bytes, hsegment, hout, rfl, hsizes rfl, hidle⟩
  | @packed flags tokens bits pad body hflags htokens hbody hpad hsize =>
    have hlen : (flags :: (body ++ [UInt8.ofNat pad.length])).length = body.length + 2 := by simp
    rw [hlen] at hsmall hfuel ⊢
    obtain ⟨z', xs, hsegment, hout, hexpand, hidle⟩ := packed_ok before after fuel
      hflags htokens hbody hpad hsize h (by omega) (by omega)
    rw [List.cons_append, List.append_assoc, List.singleton_append]
    exact ⟨z', xs, hsegment, hout, hexpand, hsizes hexpand, hidle⟩

end Segment

/-! ## A message -/

/-- The segments of a message, one behind the other. -/
theorem segments_ok {z : ZGFX_CONTEXT} {history : Bytes} (before dst : Bytes) {parts : List Part}
    {fuel total : Nat} (hparts : ∀ p ∈ parts, SpellsSegment p.tokens p.segment)
    (h : Idle history z) (hsmall : 8 * (before ++ parts.flatMap Part.bytes).length < 2 ^ 32)
    (hfuel : 8 * (before ++ parts.flatMap Part.bytes).length + 24 ≤ fuel)
    (htotal : dst.length + (parts.map Part.size).sum ≤ total) :
    ∃ z' xs, segments fuel (before ++ parts.flatMap Part.bytes) total parts.length before.length dst z =
        .ok (dst ++ xs, z') ∧ expandAll history (parts.flatMap Part.tokens) = history ++ xs ∧
      xs.length = (parts.map Part.size).sum ∧ Idle (history ++ xs) z' := by
  induction parts generalizing z history before dst with
  | nil =>
    refine ⟨z, [], ?_, (List.append_nil history).symm, rfl, ?_⟩
    · rw [List.append_nil]
      rfl
    · rw [List.append_nil]
      exact h
  | cons p parts ih =>
    have hp := hparts p List.mem_cons_self
    have hbytes : before ++ (p :: parts).flatMap Part.bytes =
        before ++ (le32 p.segment.length ++ (p.segment ++ parts.flatMap Part.bytes)) := by
      rw [List.flatMap_cons, Part.bytes, List.append_assoc]
    have hbehind : before ++ (p :: parts).flatMap Part.bytes =
        (before ++ le32 p.segment.length) ++ (p.segment ++ parts.flatMap Part.bytes) := by
      rw [hbytes, List.append_assoc]
    have hnext : before ++ (p :: parts).flatMap Part.bytes =
        (before ++ p.bytes) ++ parts.flatMap Part.bytes := by
      rw [List.flatMap_cons, List.append_assoc]
    have hlength : p.segment.length ≤ (before ++ (p :: parts).flatMap Part.bytes).length := by
      rw [hbehind, List.length_append, @List.length_append _ p.segment]
      omega
    have hsegmentLength : ofLe (le32 p.segment.length) = p.segment.length := ofLe_le32 (by omega)
    have hsizeBytes := sourceBytes_ok before (le32 p.segment.length)
      (p.segment ++ parts.flatMap Part.bytes)
    rw [← hbytes, le32_length] at hsizeBytes
    obtain ⟨z₁, xs, hsegment, hout, hexpand, hlen, h₁⟩ := segment_ok
      (before ++ le32 p.segment.length) (parts.flatMap Part.bytes) fuel hp h
      (by omega) (by omega)
    rw [← hbehind, List.length_append, le32_length] at hsegment
    have hroom : dst.length + z₁.OutputCount ≤ total := by
      rw [List.map_cons, List.sum_cons, Part.size] at htotal
      rw [ZGFX_CONTEXT.OutputCount, hout, hlen]
      omega
    obtain ⟨z₂, ys, hrest, hexpandAll, hrestLen, h₂⟩ := ih (before ++ p.bytes)
      (dst ++ xs) (fun q hq => hparts q (List.mem_cons_of_mem p hq)) h₁ (hnext ▸ hsmall)
      (hnext ▸ hfuel) (by
        rw [List.map_cons, List.sum_cons, Part.size, ← hlen] at htotal
        rw [List.length_append]
        omega)
    have hoffset : (before ++ p.bytes).length = before.length + 4 + p.segment.length := by
      rw [List.length_append, Part.bytes, List.length_append, le32_length, Nat.add_assoc]
    rw [hoffset, ← hnext] at hrest
    refine ⟨z₂, xs ++ ys, ?_, ?_, ?_, ?_⟩
    · rw [List.length_cons, segments, hsizeBytes]
      simp only [bind, Except.bind]
      rw [hsegmentLength, hsegment]
      simp only
      rw [if_pos hroom, hout, hrest, List.append_assoc]
    · rw [List.flatMap_cons, expandAll_append, hexpand, hexpandAll, List.append_assoc]
    · rw [List.length_append, hlen, hrestLen, List.map_cons, List.sum_cons, Part.size]
    · rw [← List.append_assoc]
      exact h₂

/-- **A message** is decoded to the expansion of its tokens. -/
theorem message_ok {z : ZGFX_CONTEXT} {history message : Bytes} {tokens : List (Token UInt8)}
    {fuel : Nat} (hmessage : SpellsMessage tokens message) (h : Idle history z)
    (htext : (tokens.map Token.size).sum < 2 ^ 32) (hsmall : 8 * message.length < 2 ^ 32)
    (hfuel : 8 * message.length + 24 ≤ fuel) :
    ∃ z' xs, zgfx_decompress fuel z message = .ok (1, some (xs, xs.length), z') ∧
      expandAll history tokens = history ++ xs ∧ Idle (history ++ xs) z' := by
  cases hmessage with
  | @single tokens segment hsegment =>
    rw [List.length_cons] at hsmall hfuel
    obtain ⟨z', xs, hrun, rfl, hexpand, -, hidle⟩ := segment_ok
      [UInt8.ofNat ZGFX_SEGMENTED_SINGLE] [] fuel hsegment h (by omega) (by omega)
    rw [List.append_nil, List.singleton_append, List.length_singleton] at hrun
    refine ⟨z', z'.output, ?_, hexpand, hidle⟩
    unfold zgfx_decompress
    simp only
    rw [if_pos (by decide), List.length_cons, Nat.add_sub_cancel, hrun]
    rfl
  | @multipart parts hparts hcount =>
    have hsizes : ((parts.flatMap Part.tokens).map Token.size).sum = (parts.map Part.size).sum := by
      clear * -
      induction parts with
      | nil => rfl
      | cons p parts ih =>
        rw [List.flatMap_cons, List.map_append, List.sum_append, ih]
        rfl
    rw [hsizes] at htext
    have hsplit : UInt8.ofNat ZGFX_SEGMENTED_MULTIPART ::
        (le16 parts.length ++ le32 (parts.map Part.size).sum ++ parts.flatMap Part.bytes) =
        (UInt8.ofNat ZGFX_SEGMENTED_MULTIPART ::
          (le16 parts.length ++ le32 (parts.map Part.size).sum)) ++ parts.flatMap Part.bytes := rfl
    rw [hsplit] at hsmall hfuel ⊢
    obtain ⟨z', xs, hrun, hexpand, hlen, hidle⟩ := segments_ok _ [] hparts h hsmall hfuel
      (Nat.le_of_eq (Nat.zero_add _))
    refine ⟨z', xs, ?_, hexpand, hidle⟩
    rw [List.nil_append] at hrun
    have hcountBytes : ofLe (le16 parts.length) = parts.length := by
      simp only [ofLe, le16, List.foldr_cons, List.foldr_nil, UInt8.toNat_ofNat']
      omega
    have hcountSource : sourceBytes (UInt8.ofNat ZGFX_SEGMENTED_MULTIPART ::
        (le16 parts.length ++ le32 (parts.map Part.size).sum ++ parts.flatMap Part.bytes)) 1 2 =
        .ok (le16 parts.length) := by
      rw [List.append_assoc]
      exact sourceBytes_ok [UInt8.ofNat ZGFX_SEGMENTED_MULTIPART] (le16 parts.length) _
    have htotalSource : sourceBytes (UInt8.ofNat ZGFX_SEGMENTED_MULTIPART ::
        (le16 parts.length ++ le32 (parts.map Part.size).sum ++ parts.flatMap Part.bytes)) 3 4 =
        .ok (le32 (parts.map Part.size).sum) := by
      rw [List.append_assoc]
      exact sourceBytes_ok (UInt8.ofNat ZGFX_SEGMENTED_MULTIPART :: le16 parts.length) _ _
    have hseven : (UInt8.ofNat ZGFX_SEGMENTED_MULTIPART ::
        (le16 parts.length ++ le32 (parts.map Part.size).sum)).length = 7 := rfl
    rw [hseven, ← hsplit] at hrun
    rw [← hsplit]
    unfold zgfx_decompress
    simp only
    rw [if_neg (by decide), if_pos (by decide), hcountSource]
    simp only [bind, Except.bind]
    rw [htotalSource]
    simp only
    rw [hcountBytes, ofLe_le32 htext, hlen]
    rw [hrun]

/-! ## A session -/

/-- A message and the tokens it spells. -/
structure Message where
  tokens : List (Token UInt8)
  bytes : Bytes
  spells : SpellsMessage tokens bytes
  text_lt : (tokens.map Token.size).sum < 2 ^ 32
  length_lt : 8 * bytes.length < 2 ^ 32

/-- The messages of a session, one after the other: what is at `*ppDstData` after each. -/
def decompressAll (fuel : Nat) : ZGFX_CONTEXT → List Bytes → Except Halt (List (Option (Bytes × Nat)) × ZGFX_CONTEXT)
  | z, [] => .ok ([], z)
  | z, message :: more => do
    let (_, dst, z) ← zgfx_decompress fuel z message
    let (dsts, z) ← decompressAll fuel z more
    .ok (dst :: dsts, z)

/-- What is enough for the decompressor, for every message. -/
def Enough (messages : List Message) (fuel : Nat) : Prop :=
  ∀ m ∈ messages, 8 * m.bytes.length + 24 ≤ fuel

theorem enough_exists (messages : List Message) : ∃ fuel, Enough messages fuel := by
  induction messages with
  | nil => exact ⟨0, fun _ hm => nomatch hm⟩
  | cons m messages ih =>
    obtain ⟨fuel, hfuel⟩ := ih
    refine ⟨fuel + (8 * m.bytes.length + 24), fun n hn => ?_⟩
    rcases List.mem_cons.mp hn with rfl | hmore
    · exact Nat.le_add_left _ _
    · exact Nat.le_add_right_of_le (hfuel n hmore)

theorem session_ok {z : ZGFX_CONTEXT} {history : Bytes} {messages : List Message} (fuel : Nat)
    (h : Idle history z) (hfuel : Enough messages fuel) :
    ∃ z', decompressAll fuel z (messages.map Message.bytes) =
        .ok ((expandEach history (messages.map Message.tokens)).map fun text =>
          some (text, text.length), z') ∧
      Idle (history ++ (expandEach history (messages.map Message.tokens)).flatten) z' := by
  induction messages generalizing z history with
  | nil => exact ⟨z, rfl, by rw [List.map_nil, expandEach, List.flatten_nil, List.append_nil]; exact h⟩
  | cons m messages ih =>
    obtain ⟨z₁, xs, hrun, hexpand, h₁⟩ := message_ok m.spells h m.text_lt m.length_lt
      (hfuel m List.mem_cons_self)
    obtain ⟨z₂, hrest, h₂⟩ := ih h₁ fun n hn => hfuel n (List.mem_cons_of_mem m hn)
    have htext : (expandAll history m.tokens).drop history.length = xs := by
      rw [hexpand, List.drop_left]
    refine ⟨z₂, ?_, ?_⟩
    · rw [List.map_cons, List.map_cons, decompressAll, hrun]
      simp only [bind, Except.bind]
      rw [hrest, expandEach, htext]
      rfl
    · rw [List.map_cons, expandEach, htext]
      simp only [List.flatten_cons, ← List.append_assoc]
      exact h₂

/-- **A session** from a new context on: every message is decoded to what its tokens mean, without an
access outside of a buffer, and the loops end. -/
theorem session_expands (messages : List Message) :
    ∃ fuel z, decompressAll fuel zgfx_context_new (messages.map Message.bytes) =
      .ok ((expandEach (List.replicate 2500000 0) (messages.map Message.tokens)).map fun text =>
        some (text, text.length), z) := by
  obtain ⟨fuel, hfuel⟩ := enough_exists messages
  obtain ⟨z, hrun, -⟩ := session_ok fuel ⟨zgfx_context_new_keeps, rfl⟩ hfuel
  exact ⟨fuel, z, hrun⟩

end TiraRdp.Zgfx
