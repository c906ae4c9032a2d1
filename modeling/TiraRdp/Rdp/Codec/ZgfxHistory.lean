import TiraRdp.Rdp.Codec.Zgfx

/-!
# ZGFX: the history

`HistoryBuffer` is a ring, and what it is a ring of is a history: all the bytes that have ever been
decoded, behind the zeros that `calloc` has left there.

* `Holds`: the ring is the last `HistoryBufferSize` bytes of a history.

Results: writing adds to the history, whatever the number of bytes (`ring_write_ok`), and reading
back is the copy of `Lib.Lz77` (`ring_read_ok`): in one or two pieces as far as the ring holds the
bytes, and then by doubling what has been written.
-/

namespace TiraRdp.Zgfx

open Lib Mem Lz77

/-- The ring holds the end of the history. -/
structure Holds (buffer : Mem UInt8) (size index : Nat) (history : Bytes) : Prop where
  index_lt : index < size
  size_le : size ≤ history.length
  last : ringRead buffer size index size = history.drop (history.length - size)

theorem Holds.ringWrite {buffer : Mem UInt8} {size index : Nat} {history : Bytes} (xs : Bytes)
    (h : Holds buffer size index history) (hfit : xs.length ≤ size) :
    Holds (ringWrite buffer size index xs) size ((index + xs.length) % size) (history ++ xs) where
  index_lt := Nat.mod_lt _ (Nat.zero_lt_of_lt h.index_lt)
  size_le := by
    have hle := h.size_le
    rw [List.length_append]
    omega
  last := ringRead_ringWrite_last h.index_lt hfit h.size_le h.last

/-- A ring of which nothing is kept holds what is written all round it. -/
theorem Holds.of_full (buffer : Mem UInt8) (history : Bytes) {size index : Nat} {xs : Bytes}
    (hindex : index < size) (hfull : xs.length = size) :
    Holds (Mem.ringWrite buffer size index xs) size index (history ++ xs) where
  index_lt := hindex
  size_le := by
    rw [List.length_append]
    omega
  last := by
    have hsame := ringRead_ringWrite_same (m := buffer) hindex (Nat.le_of_eq hfull)
    rw [hfull] at hsame
    rw [hsame, List.length_append, hfull, Nat.add_sub_cancel, List.drop_left]

namespace ZGFX_CONTEXT

/-- `Holds` for the ring of a context. -/
def Keeps (z : ZGFX_CONTEXT) (history : Bytes) : Prop :=
  Holds z.HistoryBuffer z.HistoryBufferSize z.HistoryIndex history

/-- The context with another ring. -/
def remember (z : ZGFX_CONTEXT) (buffer : Mem UInt8) (index : Nat) : ZGFX_CONTEXT :=
  { z with HistoryBuffer := buffer, HistoryIndex := index }

end ZGFX_CONTEXT

/-- A context that has just been made keeps the zeros in its buffer. -/
theorem zgfx_context_new_keeps :
    zgfx_context_new.Keeps (List.replicate zgfx_context_new.HistoryBufferSize 0) where
  index_lt := by decide
  size_le := by rw [List.length_replicate]
  last := by
    rw [List.length_replicate, Nat.sub_self, List.drop_zero]
    apply List.ext_getElem (by rw [ringRead_length, List.length_replicate])
    intro i _ _
    rw [getElem_ringRead, List.getElem_replicate]
    rfl

/-- The two copies of a write that fits are `ringWrite`. -/
private theorem write_fits {z : ZGFX_CONTEXT} {xs : Bytes} {index : Nat}
    (hindex : index < z.HistoryBufferSize) (hfit : xs.length ≤ z.HistoryBufferSize) :
    (if index + xs.length ≤ z.HistoryBufferSize then do
      let buffer ← z.HistoryBuffer.writeWithin z.HistoryBufferSize index xs
      let next := index + xs.length
      .ok { z with
        HistoryBuffer := buffer, HistoryIndex := if next = z.HistoryBufferSize then 0 else next }
    else do
      let front := z.HistoryBufferSize - index
      let buffer ← z.HistoryBuffer.writeWithin z.HistoryBufferSize index (xs.take front)
      let buffer ← buffer.writeWithin z.HistoryBufferSize 0 (xs.drop front)
      .ok { z with HistoryBuffer := buffer, HistoryIndex := xs.length - front } : Except Halt _) =
    .ok (z.remember (ringWrite z.HistoryBuffer z.HistoryBufferSize index xs)
      ((index + xs.length) % z.HistoryBufferSize)) := by
  by_cases h : index + xs.length ≤ z.HistoryBufferSize
  · have hnext : (if index + xs.length = z.HistoryBufferSize then 0 else index + xs.length) =
        (index + xs.length) % z.HistoryBufferSize := by
      by_cases hend : index + xs.length = z.HistoryBufferSize
      · rw [if_pos hend, hend, Nat.mod_self]
      · rw [if_neg hend, Nat.mod_eq_of_lt (by omega)]
    rw [if_pos h, writeWithin_of_le _ h]
    unfold ringWrite
    rw [if_pos h, ← hnext]
    rfl
  · have hfront : index + (xs.take (z.HistoryBufferSize - index)).length ≤ z.HistoryBufferSize := by
      rw [List.length_take]
      omega
    have hrest : 0 + (xs.drop (z.HistoryBufferSize - index)).length ≤ z.HistoryBufferSize := by
      rw [List.length_drop]
      omega
    have hnext : xs.length - (z.HistoryBufferSize - index) =
        (index + xs.length) % z.HistoryBufferSize := by
      have hturn : index + xs.length =
          xs.length - (z.HistoryBufferSize - index) + z.HistoryBufferSize := by omega
      rw [hturn, Nat.add_mod_right, Nat.mod_eq_of_lt (by omega)]
    rw [if_neg h]
    dsimp only
    rw [writeWithin_of_le _ hfront]
    unfold ringWrite
    rw [if_neg h, ← hnext]
    simp only [bind, Except.bind]
    rw [writeWithin_of_le _ hrest]
    rfl

/-- **Writing** adds to the history, also more than the ring has room for. -/
theorem ring_write_ok {z : ZGFX_CONTEXT} {history : Bytes} (xs : Bytes) (h : z.Keeps history) :
    ∃ buffer index, zgfx_history_buffer_ring_write z xs = .ok (z.remember buffer index) ∧
      (z.remember buffer index).Keeps (history ++ xs) := by
  have hsize : 0 < z.HistoryBufferSize := Nat.zero_lt_of_lt h.index_lt
  unfold zgfx_history_buffer_ring_write
  by_cases hnil : xs.length = 0
  · obtain rfl : xs = [] := List.length_eq_zero_iff.mp hnil
    exact ⟨z.HistoryBuffer, z.HistoryIndex, if_pos hnil, by rw [List.append_nil]; exact h⟩
  rw [if_neg hnil]
  dsimp only
  have hdrop : (xs.drop (xs.length - z.HistoryBufferSize)).length =
      xs.length - (xs.length - z.HistoryBufferSize) := List.length_drop
  by_cases hlong : xs.length > z.HistoryBufferSize
  · -- only the last `HistoryBufferSize` bytes are written, all round the ring
    rw [if_pos hlong]
    have hindex := Nat.mod_lt (z.HistoryIndex + (xs.length - z.HistoryBufferSize)) hsize
    have hfull : (xs.drop (xs.length - z.HistoryBufferSize)).length = z.HistoryBufferSize := by omega
    refine ⟨_, _, write_fits hindex (by omega), ?_⟩
    have hkeeps := Holds.of_full z.HistoryBuffer
      (history ++ xs.take (xs.length - z.HistoryBufferSize)) hindex hfull
    rw [List.append_assoc, List.take_append_drop] at hkeeps
    rw [hfull, Nat.add_mod_right, Nat.mod_eq_of_lt hindex]
    exact hkeeps
  · have hall : xs.length - z.HistoryBufferSize = 0 := by omega
    rw [if_neg hlong, hall, List.drop_zero]
    exact ⟨_, _, write_fits h.index_lt (by omega), h.ringWrite xs (by omega)⟩

/-- What the ring itself gives: the bytes from `offset` back on. -/
theorem ringCopy_ok {z : ZGFX_CONTEXT} {history : Bytes} {offset bytes : Nat} (h : z.Keeps history)
    (hoffset : offset ≤ z.HistoryBufferSize) (hbytes : bytes ≤ offset)
    (hsmall : 2 * z.HistoryBufferSize < 2 ^ 32) :
    ringCopy z offset bytes = .ok ((history.drop (history.length - offset)).take bytes) := by
  have hindex : subU32 (z.HistoryIndex + z.HistoryBufferSize) offset =
      z.HistoryIndex + (z.HistoryBufferSize - offset) := by
    have hlt := h.index_lt
    rw [subU32_of_le (by omega) (by omega)]
    omega
  have hlt := Nat.mod_lt (z.HistoryIndex + (z.HistoryBufferSize - offset))
    (Nat.zero_lt_of_lt h.index_lt)
  unfold ringCopy
  rw [hindex, ← ringRead_back hoffset hbytes h.size_le h.last]
  generalize (z.HistoryIndex + (z.HistoryBufferSize - offset)) % z.HistoryBufferSize = index at hlt
  dsimp only
  by_cases hone : index + bytes ≤ z.HistoryBufferSize
  · rw [if_pos hone, readWithin_of_le _ hone, ringRead_of_le hone]
  · rw [if_neg hone, readWithin_of_le _ (by omega), readWithin_of_le _ (by omega),
      ringRead_split hlt (by omega) (by omega)]
    rfl

/-- Between two rounds: what has been written is a whole number of distances. -/
structure Doubling.Fills (history : Bytes) (offset count : Nat) (d : Doubling) : Prop where
  sum : d.written.length + d.bytesLeft = count
  valid : d.valid = d.written.length
  whole : ∃ k, 1 ≤ k ∧ d.written.length = k * offset
  repeats : Repeats offset history.length (history ++ d.written)

/-- A round goes on with the copy, and where it is not the last, doubles what is there. -/
theorem Doubling.Fills.round {history : Bytes} {offset count : Nat} {d : Doubling}
    (hpos : 1 ≤ offset) (hhistory : offset ≤ history.length) (h : d.Fills history offset count) :
    d.round.written.length + d.round.bytesLeft = count ∧
      Repeats offset history.length (history ++ d.round.written) ∧
      (0 < d.round.bytesLeft →
        d.round.Fills history offset count ∧ d.round.bytesLeft < d.bytesLeft) := by
  obtain ⟨hsum, hvalid, ⟨k, hk, hwritten⟩, hd⟩ := h
  have hpositive : 1 ≤ d.written.length := by
    rw [hwritten]
    exact Nat.mul_pos hk hpos
  have htake : (d.written.take (min d.valid d.bytesLeft)).length = min d.valid d.bytesLeft := by
    rw [List.length_take]
    omega
  have hnext := repeats_append hk hpos hhistory hwritten (m := min d.valid d.bytesLeft) (by omega) hd
  unfold Doubling.round
  dsimp only
  have hsum' : (d.written ++ d.written.take (min d.valid d.bytesLeft)).length +
      (d.bytesLeft - min d.valid d.bytesLeft) = count := by
    rw [List.length_append, htake]
    omega
  refine ⟨hsum', hnext, fun hmore => ⟨⟨hsum', ?_, ⟨2 * k, by omega, ?_⟩, hnext⟩, by omega⟩⟩
  · change d.valid * 2 = (d.written ++ d.written.take (min d.valid d.bytesLeft)).length
    rw [List.length_append, htake]
    omega
  · change (d.written ++ d.written.take (min d.valid d.bytesLeft)).length = _
    rw [List.length_append, htake, Nat.mul_assoc, ← hwritten]
    omega

/-- **Reading back** is the copy of the format, also where it runs into what it is writing. -/
theorem ring_read_ok {z : ZGFX_CONTEXT} {history : Bytes} {offset : Nat} (count : Nat)
    (h : z.Keeps history) (hpos : 1 ≤ offset) (hoffset : offset ≤ z.HistoryBufferSize)
    (hsmall : 2 * z.HistoryBufferSize < 2 ^ 32) :
    ∃ xs, zgfx_history_buffer_ring_read z offset count = .ok xs ∧ xs.length = count ∧
      copyBack offset history count = history ++ xs := by
  have hhistory : offset ≤ history.length := Nat.le_trans hoffset h.size_le
  unfold zgfx_history_buffer_ring_read
  by_cases hnil : count = 0
  · subst hnil
    exact ⟨[], if_pos rfl, rfl, (List.append_nil history).symm⟩
  rw [if_neg hnil]
  dsimp only
  rw [ringCopy_ok h hoffset (Nat.min_le_right _ _) hsmall]
  simp only [bind, Except.bind]
  have hlen : ((history.drop (history.length - offset)).take (min count offset)).length =
      min count offset := by
    rw [List.length_take, List.length_drop]
    omega
  by_cases hnear : count - min count offset = 0
  · have hmin : min count offset = count := by omega
    rw [hmin] at hlen
    rw [if_pos hnear, hmin]
    exact ⟨_, rfl, hlen, copyBack_near hpos hhistory (by omega)⟩
  · -- the ring gives `offset` bytes, and the rounds of the loop the rest
    have hmin : min count offset = offset := by omega
    rw [hmin] at hlen hnear ⊢
    rw [if_neg hnear]
    have hfirst := copyBack_near (h := history) (n := offset) hpos hhistory (Nat.le_refl _)
    rw [copyBack_eq_iff hpos hhistory] at hfirst
    generalize (history.drop (history.length - offset)).take offset = first at hlen hfirst
    obtain ⟨d, hloop, ⟨hleft, hrepeats⟩, hagain⟩ := Loop.doWhile_total
      (fun d => some (Doubling.round d)) (fun d => decide (0 < d.bytesLeft))
      (Doubling.Fills history offset count)
      (fun d => d.written.length + d.bytesLeft = count ∧
        Repeats offset history.length (history ++ d.written))
      Doubling.bytesLeft
      (fun d hd => by
        obtain ⟨hsum, hnext, hmore⟩ := hd.round hpos hhistory
        exact ⟨d.round, rfl, ⟨hsum, hnext⟩, fun hagain => hmore (of_decide_eq_true hagain)⟩)
      count ⟨first, offset, count - offset⟩
      ⟨by dsimp only; omega, hlen.symm, ⟨1, Nat.le_refl 1, by dsimp only; omega⟩, hfirst.2⟩
      (by dsimp only; omega)
    have hdone : d.bytesLeft = 0 := by
      have hnot := of_decide_eq_false hagain
      omega
    rw [hloop]
    refine ⟨d.written, rfl, by omega, ?_⟩
    rw [copyBack_eq_iff hpos hhistory]
    exact ⟨by omega, hrepeats⟩

end TiraRdp.Zgfx
