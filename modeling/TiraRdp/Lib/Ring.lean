import TiraRdp.Lib.Memory

/-!
# Rings

A ring is a block of `size` cells read round: `ringRead` takes the `len` elements from `start` on,
`ringWrite` puts a string at `e` in one copy or, when it would run past the block, in two.

Results: a ring read is one copy or two (`ringRead_of_le`, `ringRead_split`) and splits at any
point (`ringRead_add`); writing right behind what a ring holds extends it
(`ringRead_ringWrite_append`), as long as it fits, and writing into a full one takes the place of
the oldest elements (`ringRead_ringWrite_full`).
-/

namespace TiraRdp.Lib.Mem

variable {α : Type}

/-- The `len` elements from `start` on, going round at the end of the block. -/
def ringRead (m : Mem α) (size start len : Nat) : List α :=
  (List.range len).map fun i => m ((start + i) % size)

/-- `xs` from cell `e` on, the part that does not fit continued from cell `0`. -/
def ringWrite (m : Mem α) (size e : Nat) (xs : List α) : Mem α :=
  if e + xs.length ≤ size then write m e xs
  else write (write m e (xs.take (size - e))) 0 (xs.drop (size - e))

variable {m : Mem α} {size start e : Nat}

@[simp] theorem ringRead_length (m : Mem α) (size start len : Nat) :
    (ringRead m size start len).length = len := by
  simp [ringRead]

theorem getElem_ringRead (m : Mem α) (size start len i : Nat)
    (h : i < (ringRead m size start len).length) :
    (ringRead m size start len)[i] = m ((start + i) % size) := by
  simp [ringRead]

theorem ringRead_add (m : Mem α) (size start a b : Nat) :
    ringRead m size start (a + b) =
      ringRead m size start a ++ ringRead m size ((start + a) % size) b := by
  unfold ringRead
  rw [List.range_add, List.map_append, List.map_map]
  congr 2
  funext i
  simp [Nat.add_assoc]

/-- A read that does not reach the end of the block is one copy. -/
theorem ringRead_of_le {len : Nat} (h : start + len ≤ size) :
    ringRead m size start len = read m start len := by
  apply List.ext_getElem (by simp)
  intro i h1 h2
  rw [ringRead_length] at h1
  rw [getElem_ringRead, getElem_read, Nat.mod_eq_of_lt (by omega)]

/-- A read past the end of the block is two copies, the second from its start. -/
theorem ringRead_split {len : Nat} (hs : start < size) (h : size < start + len)
    (hlen : len ≤ size) :
    ringRead m size start len =
      read m start (size - start) ++ read m 0 (len - (size - start)) := by
  obtain ⟨left, rfl⟩ : ∃ left, len = (size - start) + left := ⟨len - (size - start), by omega⟩
  have hwrap : (start + (size - start)) % size = 0 := by
    rw [Nat.add_sub_of_le (Nat.le_of_lt hs), Nat.mod_self]
  rw [ringRead_add, hwrap, ringRead_of_le (by omega), ringRead_of_le (by omega),
    Nat.add_sub_cancel_left]

/-- A ring read looks at nothing but the cells it goes through. -/
theorem ringRead_congr {m' : Mem α} {len : Nat}
    (h : ∀ i < len, m' ((start + i) % size) = m ((start + i) % size)) :
    ringRead m' size start len = ringRead m size start len := by
  apply List.ext_getElem (by simp)
  intro i h1 h2
  rw [ringRead_length] at h1
  rw [getElem_ringRead, getElem_ringRead, h i h1]

/-- Reading round what was written round. -/
theorem ringRead_ringWrite_same {xs : List α} (he : e < size) (hfit : xs.length ≤ size) :
    ringRead (ringWrite m size e xs) size e xs.length = xs := by
  unfold ringWrite
  by_cases h : e + xs.length ≤ size
  · rw [if_pos h, ringRead_of_le h, read_write_same]
  · have htake : (xs.take (size - e)).length = size - e := List.length_take_of_le (by omega)
    have hdrop : (xs.drop (size - e)).length = xs.length - (size - e) := List.length_drop
    have hright :
      read (write (write m e (xs.take (size - e))) 0 (xs.drop (size - e))) e (size - e) =
        xs.take (size - e) := by
      have hsame := read_write_same m e (xs.take (size - e))
      rw [htake] at hsame
      rw [read_write_of_disjoint _ (Or.inr (by omega)), hsame]
    rw [if_neg h, ringRead_split he (by omega) hfit, hright, ← hdrop, read_write_same,
      List.take_append_drop]

/-- A cell of the block that the write does not go through keeps its value. -/
theorem ringWrite_of_forall_ne {xs : List α} {j : Nat} (he : e < size) (hj : j < size)
    (hne : ∀ k < xs.length, (e + k) % size ≠ j) : ringWrite m size e xs j = m j := by
  unfold ringWrite
  by_cases h : e + xs.length ≤ size
  · rw [if_pos h]
    by_cases hje : e ≤ j ∧ j < e + xs.length
    · exact absurd (by rw [Nat.add_sub_of_le hje.1, Nat.mod_eq_of_lt hj])
        (hne (j - e) (by omega))
    · exact write_of_not_mem m (by omega)
  · have htake : (xs.take (size - e)).length = size - e := List.length_take_of_le (by omega)
    have hdrop : (xs.drop (size - e)).length = xs.length - (size - e) := List.length_drop
    have hright : j < e := by
      by_contra hcon
      exact hne (j - e) (by omega) (by rw [Nat.add_sub_of_le (by omega), Nat.mod_eq_of_lt hj])
    have hleft : xs.length - (size - e) ≤ j := by
      by_contra hcon
      refine hne (size - e + j) (by omega) ?_
      rw [← Nat.add_assoc, Nat.add_sub_of_le (Nat.le_of_lt he), Nat.add_mod_left,
        Nat.mod_eq_of_lt hj]
    rw [if_neg h, write_of_not_mem _ (by omega), write_of_not_mem _ (by omega)]

/-- Two places of a ring less than a turn apart are different cells. -/
theorem ring_index_ne {i k : Nat} (h : i < k) (hk : k < size) :
    (start + i) % size ≠ (start + k) % size := by
  intro heq
  have hdvd : size ∣ (start + k) - (start + i) :=
    Nat.dvd_of_mod_eq_zero (Nat.sub_mod_eq_zero_of_mod_eq heq.symm)
  have hle := Nat.le_of_dvd (by omega) hdvd
  omega

/-- **Writing right behind the elements a ring holds** appends to them, as long as it fits. -/
theorem ringRead_ringWrite_append {len : Nat} {xs : List α} (hsize : 0 < size)
    (he : e = (start + len) % size) (hfit : len + xs.length ≤ size) :
    ringRead (ringWrite m size e xs) size start (len + xs.length) =
      ringRead m size start len ++ xs := by
  have helt : e < size := he ▸ Nat.mod_lt _ hsize
  have hold : ringRead (ringWrite m size e xs) size start len = ringRead m size start len := by
    refine ringRead_congr fun i hi => ?_
    refine ringWrite_of_forall_ne helt (Nat.mod_lt _ hsize) fun k hk => ?_
    rw [he, Nat.mod_add_mod, Nat.add_assoc]
    exact (ring_index_ne (by omega) (by omega)).symm
  rw [ringRead_add, hold, ← he, ringRead_ringWrite_same helt (by omega)]

/-- **Writing into a full ring**: the new elements take the place of as many of the oldest. -/
theorem ringRead_ringWrite_full {xs : List α} (he : e < size) (hfit : xs.length ≤ size) :
    ringRead (ringWrite m size e xs) size ((e + xs.length) % size) size =
      (ringRead m size e size ++ xs).drop xs.length := by
  obtain ⟨rest, hrest⟩ := Nat.exists_eq_add_of_le hfit
  have hsize : 0 < size := Nat.zero_lt_of_lt he
  have hkept : ringRead (ringWrite m size e xs) size ((e + xs.length) % size) rest =
      ringRead m size ((e + xs.length) % size) rest := by
    refine ringRead_congr fun i hi => ?_
    refine ringWrite_of_forall_ne he (Nat.mod_lt _ hsize) fun k hk => ?_
    rw [Nat.mod_add_mod, Nat.add_assoc]
    exact ring_index_ne (by omega) (by omega)
  have hturn : ((e + xs.length) % size + rest) % size = e := by
    rw [Nat.mod_add_mod, Nat.add_assoc, ← hrest, Nat.add_mod_right, Nat.mod_eq_of_lt he]
  have hnew : ringRead (ringWrite m size e xs) size ((e + xs.length) % size) size =
      ringRead m size ((e + xs.length) % size) rest ++ xs := by
    conv_lhs => arg 4; rw [hrest, Nat.add_comm]
    rw [ringRead_add, hkept, hturn, ringRead_ringWrite_same he hfit]
  have hold : ringRead m size e size =
      ringRead m size e xs.length ++ ringRead m size ((e + xs.length) % size) rest := by
    conv_lhs => arg 4; rw [hrest]
    exact ringRead_add m size e _ _
  rw [hnew, hold, List.append_assoc, List.drop_left' (ringRead_length _ _ _ _)]

/-! ## The end of a text -/

section Last

variable {text : List α}

/-- A full ring that holds the end of a text holds the end of the text that goes on. -/
theorem ringRead_ringWrite_last {xs : List α} (he : e < size) (hfit : xs.length ≤ size)
    (htext : size ≤ text.length)
    (hlast : ringRead m size e size = text.drop (text.length - size)) :
    ringRead (ringWrite m size e xs) size ((e + xs.length) % size) size =
      (text ++ xs).drop ((text ++ xs).length - size) := by
  have hback : (text ++ xs).length - size = text.length - size + xs.length := by
    rw [List.length_append]
    omega
  rw [ringRead_ringWrite_full he hfit, hlast, hback, ← List.drop_drop,
    List.drop_append_of_le_length (Nat.sub_le _ _)]

/-- What stands `back` places before the end of the text. -/
theorem ringRead_back {back len : Nat} (hback : back ≤ size) (hlen : len ≤ back)
    (htext : size ≤ text.length)
    (hlast : ringRead m size e size = text.drop (text.length - size)) :
    ringRead m size ((e + (size - back)) % size) len =
      (text.drop (text.length - back)).take len := by
  have hsplit : ringRead m size e size = ringRead m size e (size - back) ++
      (ringRead m size ((e + (size - back)) % size) len ++
        ringRead m size (((e + (size - back)) % size + len) % size) (back - len)) := by
    rw [← ringRead_add, ← ringRead_add, Nat.add_sub_of_le hlen, Nat.sub_add_cancel hback]
  have hdrop : text.drop (text.length - back) = (text.drop (text.length - size)).drop (size - back) := by
    rw [List.drop_drop]
    congr 1
    omega
  rw [hdrop, ← hlast, hsplit, List.drop_left' (ringRead_length _ _ _ _),
    List.take_left' (ringRead_length _ _ _ _)]

end Last

end TiraRdp.Lib.Mem
