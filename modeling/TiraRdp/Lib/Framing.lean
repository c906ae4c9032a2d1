import Mathlib.Data.List.Basic
import Mathlib.Data.List.Flatten
import Mathlib.Tactic.Common

/-!
# Length-prefixed framing

A payload travels as a fixed-size header that announces its length, followed by the payload
itself. `Codec` is such a header, over any alphabet; `wire` is the byte string of a list of
payloads, and `Incomplete t` says that `t` holds no complete frame.

Every string is in at most one way frames followed by an incomplete tail (`splits_unique`), so a
reader that keeps `Splits` of what it has consumed (`Splits.more`, `Splits.emit`) has no choice
about what it delivers, however the string reached it.
-/

namespace TiraRdp.Lib.Framing

variable {β : Type}

/-- A fixed-size header announcing a length below `bound`. -/
structure Codec (β : Type) where
  size : Nat
  bound : Nat
  enc : Nat → List β
  dec : List β → Nat
  enc_length : ∀ n, (enc n).length = size
  dec_enc : ∀ n, n < bound → dec (enc n) = n
  enc_dec : ∀ h, h.length = size → enc (dec h) = h
  dec_lt : ∀ h, h.length = size → dec h < bound

variable (C : Codec β)

/-- The header of `p`, then `p`. -/
def frame (p : List β) : List β := C.enc p.length ++ p

/-- The frames of a list of payloads, one behind the other. -/
def wire : List (List β) → List β
  | [] => []
  | p :: ps => frame C p ++ wire ps

/-- No complete frame at the front: the header is short, or the payload it announces is. -/
def Incomplete (t : List β) : Prop :=
  C.size ≤ t.length → t.length < C.size + C.dec (t.take C.size)

/-- `s` is the frames of `ps` and an incomplete tail `t`. -/
structure Splits (s : List β) (ps : List (List β)) (t : List β) : Prop where
  eq : s = wire C ps ++ t
  bound : ∀ p ∈ ps, p.length < C.bound
  tail : Incomplete C t

variable {C}

@[simp] theorem frame_length (p : List β) : (frame C p).length = C.size + p.length := by
  simp [frame, C.enc_length]

theorem wire_append (ps qs : List (List β)) : wire C (ps ++ qs) = wire C ps ++ wire C qs := by
  induction ps with
  | nil => rfl
  | cons p ps ih => simp only [List.cons_append, wire, ih, List.append_assoc]

/-- The first `C.size` symbols behind a frame boundary announce the next payload. -/
theorem dec_take_frame {p : List β} (hp : p.length < C.bound) (s : List β) :
    C.dec ((frame C p ++ s).take C.size) = p.length := by
  unfold frame
  rw [List.append_assoc, List.take_left' (C.enc_length _), C.dec_enc _ hp]

theorem not_incomplete_frame {p : List β} (hp : p.length < C.bound) (s : List β) :
    ¬ Incomplete C (frame C p ++ s) := by
  intro h
  unfold Incomplete at h
  rw [dec_take_frame hp, List.length_append, frame_length] at h
  have := h (by omega)
  omega

/-- A proper prefix of one frame is incomplete. -/
theorem incomplete_of_prefix {p t : List β} (hp : p.length < C.bound) (h : t <+: frame C p)
    (hne : t ≠ frame C p) : Incomplete C t := by
  obtain ⟨u, hu⟩ := h
  have hlen : t.length + u.length = C.size + p.length := by
    rw [← List.length_append, hu, frame_length]
  have hpos : u ≠ [] := fun h0 => hne (by rw [← hu, h0, List.append_nil])
  have := List.length_pos_of_ne_nil hpos
  intro hsz
  have htake : t.take C.size = (frame C p).take C.size := by
    rw [← hu, List.take_append_of_le_length hsz]
  have hdec := dec_take_frame hp []
  rw [List.append_nil] at hdec
  rw [htake, hdec]
  omega

/-- A frame at the front of a string is the only one. -/
theorem frame_inj {p q s s' : List β} (hp : p.length < C.bound) (hq : q.length < C.bound)
    (h : frame C p ++ s = frame C q ++ s') : p = q ∧ s = s' := by
  have hlen : p.length = q.length := by
    rw [← dec_take_frame hp s, h, dec_take_frame hq]
  obtain ⟨hframe, hrest⟩ := List.append_inj h (by simp [hlen])
  obtain ⟨-, hpq⟩ := List.append_inj hframe (by simp [C.enc_length])
  exact ⟨hpq, hrest⟩

/-- The frame at the front of some frames is the first of them. -/
theorem wire_eq_frame_append {p s : List β} {qs : List (List β)} (hsz : 0 < C.size)
    (hp : p.length < C.bound) (hqs : ∀ q ∈ qs, q.length < C.bound) (h : frame C p ++ s = wire C qs) :
    ∃ rest, qs = p :: rest ∧ s = wire C rest := by
  cases qs with
  | nil =>
    have hlen := congrArg List.length h
    simp only [wire, List.length_append, frame_length, List.length_nil] at hlen
    omega
  | cons q qs =>
    obtain ⟨rfl, rfl⟩ := frame_inj hp (hqs q List.mem_cons_self) h
    exact ⟨qs, rfl, rfl⟩

/-- **Frames and an incomplete tail are read off a string in at most one way.** -/
theorem splits_unique {s t u : List β} : ∀ {ps qs : List (List β)},
    Splits C s ps t → Splits C s qs u → ps = qs ∧ t = u
  | [], [], h, k => ⟨rfl, by simpa using h.eq.symm.trans k.eq⟩
  | [], q :: qs, h, k => by
    have ht : t = frame C q ++ (wire C qs ++ u) := by
      simpa [wire] using h.eq.symm.trans k.eq
    exact absurd (ht ▸ h.tail) (not_incomplete_frame (k.bound q List.mem_cons_self) _)
  | p :: ps, [], h, k => by
    have hu : u = frame C p ++ (wire C ps ++ t) := by
      simpa [wire] using k.eq.symm.trans h.eq
    exact absurd (hu ▸ k.tail) (not_incomplete_frame (h.bound p List.mem_cons_self) _)
  | p :: ps, q :: qs, h, k => by
    have hp := h.bound p List.mem_cons_self
    have hq := k.bound q List.mem_cons_self
    have he : frame C p ++ (wire C ps ++ t) = frame C q ++ (wire C qs ++ u) := by
      simpa [wire] using h.eq.symm.trans k.eq
    obtain ⟨rfl, hrest⟩ := frame_inj hp hq he
    obtain ⟨rfl, rfl⟩ := splits_unique (s := wire C ps ++ t)
      ⟨rfl, fun x hx => h.bound x (List.mem_cons_of_mem _ hx), h.tail⟩
      ⟨hrest, fun x hx => k.bound x (List.mem_cons_of_mem _ hx), k.tail⟩
    exact ⟨rfl, rfl⟩

/-- What was read off the front of the frames of `qs` are the first of them. -/
theorem prefix_of_wire {s t u : List β} (hsz : 0 < C.size) : ∀ {ps qs : List (List β)},
    Splits C s ps t → s ++ u = wire C qs → (∀ q ∈ qs, q.length < C.bound) → ps <+: qs
  | [], _, _, _, _ => List.nil_prefix
  | p :: ps, [], h, heq, _ => by
    have hnil : s = [] := (List.append_eq_nil_iff.mp heq).1
    have hlen := congrArg List.length (hnil.symm.trans h.eq)
    simp only [wire, List.length_nil, List.length_append, frame_length] at hlen
    omega
  | p :: ps, q :: qs, h, heq, hq => by
    have he : frame C p ++ (wire C ps ++ t ++ u) = frame C q ++ wire C qs := by
      rw [h.eq, wire, wire, List.append_assoc, List.append_assoc] at heq
      rw [← heq, List.append_assoc]
    obtain ⟨rfl, hrest⟩ := frame_inj (h.bound p List.mem_cons_self) (hq q List.mem_cons_self) he
    have hsplits : Splits C (wire C ps ++ t) ps t :=
      ⟨rfl, fun x hx => h.bound x (List.mem_cons_of_mem _ hx), h.tail⟩
    have hbound (x : List β) (hx : x ∈ qs) := hq x (List.mem_cons_of_mem _ hx)
    exact List.cons_prefix_cons.mpr ⟨rfl, prefix_of_wire hsz hsplits hrest hbound⟩

theorem Splits.nil (h : 0 < C.size) : Splits C [] [] [] :=
  ⟨rfl, fun _ hp => absurd hp List.not_mem_nil, fun h' => by simp at h'; omega⟩

/-- More input that completes nothing goes to the tail. -/
theorem Splits.more {s t d : List β} {ps : List (List β)} (h : Splits C s ps t)
    (hd : Incomplete C (t ++ d)) : Splits C (s ++ d) ps (t ++ d) :=
  ⟨by rw [h.eq, List.append_assoc], h.bound, hd⟩

/-- More input that completes the frame of `p` emits `p` and leaves nothing over. -/
theorem Splits.emit {s t d p : List β} {ps : List (List β)} (h : Splits C s ps t)
    (hsz : 0 < C.size) (hp : p.length < C.bound) (hd : t ++ d = frame C p) :
    Splits C (s ++ d) (ps ++ [p]) [] := by
  refine ⟨?_, ?_, (Splits.nil hsz).tail⟩
  · rw [h.eq, List.append_assoc, hd, wire_append]
    simp [wire]
  · intro x hx
    rcases List.mem_append.mp hx with hx | hx
    · exact h.bound x hx
    · rw [List.mem_singleton.mp hx]
      exact hp

end TiraRdp.Lib.Framing
