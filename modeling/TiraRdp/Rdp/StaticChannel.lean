import Mathlib.Data.Nat.Bitwise
import TiraRdp.Lib.Loop
import TiraRdp.Lib.Lts
import TiraRdp.Lib.Reassembly
import TiraRdp.Rdp.Stream

/-!
# Static channels: the chunks of a message

`tirardpdr_virtual_channel_event_data_received`
(`Rdp/src/channels/tiradr/client/tiradr_main.c:1109-1165`) and
`tirardpsnd_virtual_channel_event_data_received`
(`Rdp/src/channels/tirasnd/client/tirasnd_main.c:686-738`), which are the same statement by
statement, over the growing stream of `Rdp/src/winpr/libwinpr/utils/stream.c:30-71`. What is to come
of the chunks is `Lib.Reassembly.assemble` of them.

Nobody looks whether there is a stream, nor whether the message has become too long: a stream that
is full grows, and a message is taken as complete when it fills the stream as it is then. A message
that is refused stays where it is.

Results:
* `ensureRemaining_cases`: what becomes of the stream that a chunk is to be written to.
* `reassembled_iff`: from the first chunk to the last nothing is posted but the messages, all of
  them, and whatever else ends a message is refused, exactly as long as no chunk meets one of three
  conditions (`Sound`).
* `posted_of_run`: a message is posted then, whatever comes before it and after it.
-/

namespace TiraRdp.StaticChannel

open Lib Lts Reassembly

/-! ## The stream that grows -/

def ERROR_INTERNAL_ERROR : Nat := 0x54F

def CHANNEL_FLAG_FIRST : Nat := 0x01
def CHANNEL_FLAG_LAST : Nat := 0x02
def CHANNEL_FLAG_SUSPEND : Nat := 0x20
def CHANNEL_FLAG_RESUME : Nat := 0x40

/-- A stream that is written to: its position is how much has been written. A stream that memory is
found for has at most half of the address space and a chunk at most 65535 bytes, so that no sum and
no product here leaves a `size_t`. -/
structure DataIn where
  capacity : Nat
  data : Bytes
  deriving Repr, DecidableEq

def DataIn.position (s : DataIn) : Nat := s.data.length

/-- No answer: an access violation, or a loop that does not end. -/
inductive Halt
  | fault
  | hang
  deriving Repr, DecidableEq

/-- What the allocations answer, and the queue. -/
structure Heap where
  stream_new : Bool
  realloc : Bool
  post : Bool
  deriving Repr, DecidableEq

/-- `Stream_New(NULL, size)`. -/
def Stream_New (heap : Heap) (size : Nat) : Option DataIn :=
  if heap.stream_new then some ⟨size, []⟩ else none

/-- `do new_capacity *= 2 while (new_capacity < size)`, which has ended after `size` rounds or does
not end. -/
def newCapacity (capacity size : Nat) : Option Nat :=
  Loop.doWhile (fun new_capacity => some (new_capacity * 2)) (fun new_capacity => new_capacity < size)
    size capacity

/-- `none` when it answers `FALSE`. -/
def Stream_EnsureCapacity (heap : Heap) (s : DataIn) (size : Nat) : Except Halt (Option DataIn) :=
  if s.capacity < size then
    match newCapacity s.capacity size with
    | none => .error .hang
    | some new_capacity =>
      if heap.realloc then .ok (some { s with capacity := new_capacity }) else .ok none
  else .ok (some s)

def Stream_EnsureRemainingCapacity (heap : Heap) (s : DataIn) (size : Nat) :
    Except Halt (Option DataIn) :=
  if s.position + size > s.capacity then Stream_EnsureCapacity heap s (s.capacity + size)
  else .ok (some s)

/-- `memcpy`, which must not leave the buffer. -/
def Stream_Write (s : DataIn) (data : Bytes) : Except Halt DataIn :=
  if s.position + data.length ≤ s.capacity then .ok { s with data := s.data ++ data } else .error .fault

/-! ## Receiving a chunk -/

/-- A chunk comes in a packet that has its length in 16 bits. -/
structure Chunk where
  data : Bytes
  totalLength : Nat
  dataFlags : Nat
  short : data.length ≤ 0xFFFF

/-- `dataFlags & flag`. -/
def Chunk.has (c : Chunk) (flag : Nat) : Bool := c.dataFlags &&& flag ≠ 0

def Chunk.suspended (c : Chunk) : Bool := c.has CHANNEL_FLAG_SUSPEND || c.has CHANNEL_FLAG_RESUME

structure Receiver where
  data_in : Option DataIn
  queue : List Bytes
  deriving Repr, DecidableEq

/-- Once the chunk is in the stream: `if (dataFlags & CHANNEL_FLAG_LAST)`, and the answer. -/
def answer (heap : Heap) (r : Receiver) (c : Chunk) (s : DataIn) : Nat × Receiver :=
  if c.has CHANNEL_FLAG_LAST then
    if s.capacity ≠ s.position then (ERROR_INTERNAL_ERROR, { r with data_in := some s })
    else if heap.post then (CHANNEL_RC_OK, ⟨none, r.queue ++ [s.data]⟩)
    else (ERROR_INTERNAL_ERROR, { r with data_in := none })
  else (CHANNEL_RC_OK, { r with data_in := some s })

/-- From the check of the remaining capacity on. -/
def receive (heap : Heap) (r : Receiver) (c : Chunk) : Except Halt (Nat × Receiver) :=
  match r.data_in with
  | none => .error .fault
  | some s => do
    match ← Stream_EnsureRemainingCapacity heap s c.data.length with
    | none => .ok (CHANNEL_RC_NO_MEMORY, r)
    | some s =>
      let s ← Stream_Write s c.data
      .ok (answer heap r c s)

def virtual_channel_event_data_received (heap : Heap) (r : Receiver) (c : Chunk) :
    Except Halt (Nat × Receiver) :=
  if c.has CHANNEL_FLAG_SUSPEND || c.has CHANNEL_FLAG_RESUME then .ok (CHANNEL_RC_OK, r)
  else if c.has CHANNEL_FLAG_FIRST then
    match Stream_New heap c.totalLength with
    | none => .ok (CHANNEL_RC_NO_MEMORY, { r with data_in := none })
    | some s => receive heap { r with data_in := some s } c
  else receive heap r c

/-- With the queue of the device channel. -/
def tirardpdr_virtual_channel_event_data_received := virtual_channel_event_data_received

/-- With the queue of the sound channel. -/
def tirardpsnd_virtual_channel_event_data_received := virtual_channel_event_data_received

inductive Plugin
  | tiradr
  | tirasnd
  deriving Repr, DecidableEq

def Plugin.received : Plugin → Heap → Receiver → Chunk → Except Halt (Nat × Receiver)
  | .tiradr => tirardpdr_virtual_channel_event_data_received
  | .tirasnd => tirardpsnd_virtual_channel_event_data_received

/-! ## The channel, and what it is to do -/

/-- A chunk that is not suspended is a fragment. It is lost when there is no memory for its message,
or the queue does not take it. -/
def fragment (heap : Heap) (c : Chunk) : Fragment UInt8 where
  first := c.has CHANNEL_FLAG_FIRST
  last := c.has CHANNEL_FLAG_LAST
  total := c.totalLength
  data := c.data
  lost := c.has CHANNEL_FLAG_FIRST && !heap.stream_new || c.has CHANNEL_FLAG_LAST && !heap.post

/-- The receiver, and what is to come of the chunks so far: the message under way, and those
that are due. `passed` says that an end that completes no message has been answered with
`CHANNEL_RC_OK`. -/
structure Channel where
  receiver : Receiver
  halted : Bool
  under : Option (Message UInt8)
  due : List Bytes
  passed : Bool
  deriving DecidableEq

def Channel.initial : Channel := ⟨⟨none, []⟩, false, none, [], false⟩

/-- What becomes of what is to come of the chunks. -/
def Channel.take (s : Channel) (heap : Heap) (c : Chunk) : Channel :=
  if c.suspended then s
  else
    { s with
      under := after s.under (fragment heap c)
      due := s.due ++ (completed s.under (fragment heap c)).toList }

/-- A chunk ends something that is not a message. -/
def Channel.endsNothing (s : Channel) (heap : Heap) (c : Chunk) : Bool :=
  !c.suspended && c.has CHANNEL_FLAG_LAST && (completed s.under (fragment heap c)).isNone

/-- What has been answered. -/
def Channel.answered (s : Channel) (heap : Heap) (c : Chunk) :
    Except Halt (Nat × Receiver) → Channel
  | .error _ => { s.take heap c with halted := true }
  | .ok (status, r) =>
    { s.take heap c with
      receiver := r
      passed := s.passed || s.endsNothing heap c && status == CHANNEL_RC_OK }

/-- A chunk, and what the heap answers while it is received. -/
structure Arrival where
  heap : Heap
  chunk : Chunk

/-- A plugin that has halted receives nothing more. -/
def step (plugin : Plugin) (s : Channel) (a : Arrival) : Option Channel :=
  if s.halted then some s
  else some (s.answered a.heap a.chunk (plugin.received a.heap s.receiver a.chunk))

/-- What has been posted are the messages, and whatever else has ended was refused. -/
structure Channel.Correct (s : Channel) : Prop where
  running : s.halted = false
  posted : s.receiver.queue = s.due
  refused : s.passed = false

/-! ## When it does -/

/-- The stream that the chunk goes to. -/
def Receiver.begun (heap : Heap) (r : Receiver) (c : Chunk) : Option DataIn :=
  if c.has CHANNEL_FLAG_FIRST then Stream_New heap c.totalLength else r.data_in

/-- `n` more bytes fill the stream to its end, as it is or as it has grown to then. -/
def DataIn.Fills (heap : Heap) (s : DataIn) (n : Nat) : Prop :=
  s.position + n = s.capacity ∨
    heap.realloc = true ∧ 0 < n ∧ s.position = s.capacity ∧ ∃ k, s.capacity + n = s.capacity * 2 ^ k

/-- A chunk that is not suspended finds a stream, it does not have to make room in one for nothing,
and if it ends a message and fills the stream, that message is one. -/
def Sound (s : Channel) (a : Arrival) : Prop :=
  a.chunk.suspended = false →
    (a.chunk.has CHANNEL_FLAG_FIRST = false → s.receiver.data_in ≠ none) ∧
      ∀ b, s.receiver.begun a.heap a.chunk = some b →
        (b.capacity = 0 → a.chunk.data.length = 0) ∧
          (a.chunk.has CHANNEL_FLAG_LAST = true → a.heap.post = true →
            b.Fills a.heap a.chunk.data.length →
              (completed s.under (fragment a.heap a.chunk)).isSome)

section Stream

variable {heap : Heap} {s : DataIn} {n : Nat}

/-- The capacity is doubled until it is large enough, and no longer. -/
theorem newCapacity_eq {capacity size : Nat} (hpos : 0 < capacity) (hlt : capacity < size) :
    ∃ k, newCapacity capacity size = some (capacity * 2 ^ (k + 1)) ∧ size ≤ capacity * 2 ^ (k + 1) ∧
      capacity * 2 ^ k < size := by
  have hround : ∀ t, (∃ k, t = capacity * 2 ^ k ∧ t < size) →
      ∃ u, some (t * 2) = some u ∧ (∃ k, u = capacity * 2 ^ (k + 1) ∧ capacity * 2 ^ k < size) ∧
        (decide (u < size) = true → (∃ k, u = capacity * 2 ^ k ∧ u < size) ∧ size - u < size - t) := by
    rintro t ⟨k, rfl, ht⟩
    have hdouble : capacity * 2 ^ k * 2 =
      capacity * 2 ^ (k + 1) := by rw [Nat.pow_succ, Nat.mul_assoc]
    have hpositive : 0 < capacity * 2 ^ k := Nat.mul_pos hpos (Nat.two_pow_pos k)
    refine ⟨_, rfl, ⟨k, hdouble, ht⟩, fun hagain => ?_⟩
    have hbelow := of_decide_eq_true hagain
    exact ⟨⟨k + 1, hdouble, hbelow⟩, by omega⟩
  obtain ⟨t, ht, ⟨k, rfl, hbelow⟩, hdone⟩ :=
    Loop.doWhile_total _ _ _ _ (fun t => size - t) hround size
    capacity ⟨0, by simp, hlt⟩ (by omega)
  exact ⟨k, ht, Nat.not_lt.mp (of_decide_eq_false hdone), hbelow⟩

/-- **A stream without capacity grows for ever.** -/
theorem newCapacity_zero (size : Nat) (hpos : 0 < size) (n : Nat) :
    Loop.doWhile (fun new_capacity => some (new_capacity * 2))
      (fun new_capacity => decide (new_capacity < size)) n 0 = none := by
  refine Loop.doWhile_never _ _ (· = 0) ?_ n 0 rfl
  rintro t rfl
  exact ⟨0, rfl, rfl, decide_eq_true hpos⟩

/-- **What becomes of the stream**: it has room, there is no memory, or it has grown. -/
theorem ensureRemaining_cases (heap : Heap) (hfits : s.position ≤ s.capacity)
    (hzero : s.capacity = 0 → n = 0) :
    s.position + n ≤ s.capacity ∧ Stream_EnsureRemainingCapacity heap s n = .ok (some s) ∨
      s.capacity < s.position + n ∧ heap.realloc = false ∧
        Stream_EnsureRemainingCapacity heap s n = .ok none ∨
      s.capacity < s.position + n ∧ heap.realloc = true ∧
        ∃ k, s.capacity + n ≤ s.capacity * 2 ^ (k + 1) ∧ s.capacity * 2 ^ k < s.capacity + n ∧
          Stream_EnsureRemainingCapacity heap s n =
            .ok (some { s with capacity := s.capacity * 2 ^ (k + 1) }) := by
  unfold Stream_EnsureRemainingCapacity
  by_cases hroom : s.position + n ≤ s.capacity
  · rw [if_neg (by omega)]
    exact .inl ⟨hroom, rfl⟩
  · obtain ⟨k, hcapacity, hlarge, hsmall⟩ :=
      newCapacity_eq (show 0 < s.capacity by omega) (show s.capacity < s.capacity + n by omega)
    rw [if_pos (by omega), Stream_EnsureCapacity, if_pos (by omega), hcapacity]
    dsimp only
    cases hrealloc : heap.realloc with
    | false => exact .inr (.inl ⟨by omega, rfl, rfl⟩)
    | true => exact .inr (.inr ⟨by omega, rfl, k, hlarge, hsmall, rfl⟩)

/-- A stream that has grown is full when it was full before and the chunk is as long as what it has
grown by. -/
theorem fills_grown {k : Nat} (hfits : s.position ≤ s.capacity)
    (hroom : s.capacity < s.position + n)
    (hrealloc : heap.realloc = true) (hlarge : s.capacity + n ≤ s.capacity * 2 ^ (k + 1))
    (hsmall : s.capacity * 2 ^ k < s.capacity + n) :
    s.position + n = s.capacity * 2 ^ (k + 1) ↔ s.Fills heap n := by
  constructor
  · intro hfull
    exact .inr ⟨hrealloc, by omega, by omega, k + 1, by omega⟩
  · rintro (hfull | ⟨-, -, hposition, j, hj⟩)
    · omega
    · rw [hj] at hlarge hsmall
      have hpos : 0 < s.capacity := Nat.pos_of_ne_zero fun hzero => by simp [hzero] at hsmall
      have hle := Nat.le_of_mul_le_mul_left hlarge hpos
      have hlt := Nat.lt_of_mul_lt_mul_left hsmall
      have hjk : j = k + 1 := by
        have hupper := (Nat.pow_le_pow_iff_right (by decide)).mp hle
        have hlower := (Nat.pow_lt_pow_iff_right (by decide)).mp hlt
        omega
      rw [← hjk, ← hj, hposition]

/-- What is left when there is no room, and no capacity to double. -/
theorem ensureRemaining_hang (heap : Heap) (hzero : s.capacity = 0) (hpos : 0 < n) :
    Stream_EnsureRemainingCapacity heap s n = .error .hang := by
  have hnever := newCapacity_zero (s.capacity + n) (by omega) (s.capacity + n)
  unfold Stream_EnsureRemainingCapacity Stream_EnsureCapacity newCapacity
  rw [if_pos (by omega), if_pos (by omega)]
  rw [hzero] at hnever ⊢
  rw [hnever]

end Stream

section Receive

variable {heap : Heap} {r : Receiver} {b : DataIn} {c : Chunk}

/-- **What a chunk that finds a stream does**: there is no memory for it, or it is in a stream that
it fills or does not fill. -/
theorem receive_cases (heap : Heap) (hb : r.data_in = some b) (hfits : b.position ≤ b.capacity)
    (hzero : b.capacity = 0 → c.data.length = 0) :
    b.capacity < b.position + c.data.length ∧ heap.realloc = false ∧
        receive heap r c = .ok (CHANNEL_RC_NO_MEMORY, r) ∨
      ∃ s : DataIn, s.data = b.data ++ c.data ∧ s.position ≤ s.capacity ∧
        (b.position + c.data.length ≤ b.capacity → s.capacity = b.capacity) ∧
        (s.position = s.capacity ↔ b.Fills heap c.data.length) ∧
        receive heap r c = .ok (answer heap r c s) := by
  have hwrite (s : DataIn) (hroom : s.position + c.data.length ≤ s.capacity) :
      Stream_Write s c.data = .ok { s with data := s.data ++ c.data } := if_pos hroom
  have hposition (capacity : Nat) :
      (DataIn.mk capacity (b.data ++ c.data)).position = b.position + c.data.length :=
        List.length_append
  unfold receive
  rw [hb]
  dsimp only [bind, Except.bind]
  rcases ensureRemaining_cases heap hfits hzero with
    ⟨hroom, hensured⟩ | ⟨hroom, hrealloc, hensured⟩ | ⟨hroom, hrealloc, k, hlarge, hsmall, hensured⟩
  · refine .inr ⟨⟨b.capacity, b.data ++ c.data⟩, rfl, ?_, fun _ => rfl, ?_, ?_⟩
    · rw [hposition]
      exact hroom
    · rw [hposition]
      refine ⟨.inl, ?_⟩
      rintro (hfull | ⟨-, hpos, hfull, -⟩)
      · exact hfull
      · dsimp only
        omega
    · rw [hensured]
      dsimp only
      rw [hwrite b hroom]
  · refine .inl ⟨hroom, hrealloc, ?_⟩
    rw [hensured]
  · refine .inr ⟨⟨b.capacity * 2 ^ (k + 1), b.data ++ c.data⟩, rfl, ?_, fun hle => ?_, ?_, ?_⟩
    · rw [hposition]
      dsimp only
      omega
    · omega
    · rw [hposition]
      exact fills_grown hfits hroom hrealloc hlarge hsmall
    · rw [hensured]
      dsimp only
      rw [hwrite _ (show b.position + c.data.length ≤ b.capacity * 2 ^ (k + 1) by omega)]

/-- The chunk goes to its stream, if there is one. -/
theorem received_eq (hc : c.suspended = false) : virtual_channel_event_data_received heap r c =
    match r.begun heap c with
    | some b => receive heap { r with data_in := some b } c
    | none =>
      if c.has CHANNEL_FLAG_FIRST then .ok (CHANNEL_RC_NO_MEMORY, { r with data_in := none })
      else .error .fault := by
  unfold virtual_channel_event_data_received Receiver.begun
  rw [if_neg (by simpa [Chunk.suspended] using hc)]
  by_cases hfirst : c.has CHANNEL_FLAG_FIRST = true
  · rw [if_pos hfirst, if_pos hfirst]
    cases Stream_New heap c.totalLength with
    | none => rw [if_pos hfirst]
    | some b => rfl
  · rw [if_neg hfirst, if_neg hfirst]
    obtain ⟨data_in, queue⟩ := r
    cases data_in with
    | none => exact (if_neg hfirst).symm
    | some b => rfl

end Receive

/-! ## Run by run -/

/-- While a message has not become too long, the stream is what has come of it. -/
structure Channel.Inv (s : Channel) : Prop where
  correct : s.Correct
  fits : ∀ b, s.receiver.data_in = some b → b.position ≤ b.capacity
  aligned : ∀ m, s.under = some m → ∃ b, s.receiver.data_in = some b ∧
    (m.data.length ≤ m.total → b.capacity = m.total ∧ b.data = m.data)

section Runs

variable {plugin : Plugin} {s t : Channel} {heap : Heap} {c : Chunk} {b : DataIn}

theorem Channel.Inv.initial : Channel.initial.Inv where
  correct := ⟨rfl, rfl, rfl⟩
  fits := nofun
  aligned := nofun

/-- The stream of a chunk, and the message that it goes on with. -/
theorem Channel.Inv.begun (h : s.Inv) (hb : s.receiver.begun heap c = some b) :
    b.position ≤ b.capacity ∧ ∀ m, joined s.under (fragment heap c) = some m →
      m.data.length ≤ m.total →
      b.capacity = m.total ∧ m.data = b.data ++ c.data ∧
        b.position + c.data.length ≤ b.capacity := by
  unfold Receiver.begun Stream_New at hb
  by_cases hfirst : c.has CHANNEL_FLAG_FIRST = true
  · rw [if_pos hfirst, Option.ite_none_right_eq_some] at hb
    obtain ⟨-, hb⟩ := hb
    obtain rfl := Option.some.inj hb
    refine ⟨Nat.zero_le _, fun m hm hle => ?_⟩
    obtain ⟨-, m₀, hm₀, rfl⟩ := joined_eq_some.mp hm
    rw [Reassembly.begun, if_pos (show (fragment heap c).first = true from hfirst)] at hm₀
    obtain rfl := Option.some.inj hm₀
    refine ⟨rfl, rfl, ?_⟩
    simpa [DataIn.position, fragment] using hle
  · rw [if_neg hfirst] at hb
    refine ⟨h.fits b hb, fun m hm hle => ?_⟩
    obtain ⟨-, m₀, hm₀, rfl⟩ := joined_eq_some.mp hm
    rw [Reassembly.begun, if_neg (show ¬ (fragment heap c).first = true from hfirst)] at hm₀
    obtain ⟨b', hb', haligned⟩ := h.aligned m₀ hm₀
    obtain rfl : b = b' := Option.some.inj (hb.symm.trans hb')
    have hlength : m₀.data.length + c.data.length ≤ m₀.total := by
      simpa [fragment] using hle
    obtain ⟨hcapacity, hdata⟩ := haligned (by omega)
    refine ⟨hcapacity, ?_, ?_⟩
    · rw [hdata]
      rfl
    · rw [DataIn.position, hdata, hcapacity]
      exact hlength

theorem step_eq {a : Arrival} (hrunning : s.halted = false) : step plugin s a =
    some (s.answered a.heap a.chunk
      (virtual_channel_event_data_received a.heap s.receiver a.chunk)) := by
  unfold step
  rw [if_neg (by simp [hrunning])]
  cases plugin with
  | tiradr => rfl
  | tirasnd => rfl

/-- A chunk that is not suspended, as a fragment. -/
theorem Channel.take_eq (s : Channel) (heap : Heap) (hc : c.suspended = false) : s.take heap c =
    { s with
      under := after s.under (fragment heap c)
      due := s.due ++ (completed s.under (fragment heap c)).toList } :=
  if_neg (by simp [hc])

/-- A chunk for which there is no memory loses its message. -/
theorem joined_of_lost (h : (fragment heap c).lost = true) (under : Option (Message UInt8)) :
    joined under (fragment heap c) = none :=
  if_pos h

/-- What is left is the message under way, if there is one, and it does not end with this chunk. -/
theorem Channel.Inv.refused (h : s.Inv) (hc : c.suspended = false) {status : Nat} {r : Receiver}
    (hstatus : status ≠ CHANNEL_RC_OK) (hqueue : r.queue = s.receiver.queue)
    (hfits : ∀ b, r.data_in = some b → b.position ≤ b.capacity)
    (hcompleted : completed s.under (fragment heap c) = none)
    (haligned : ∀ m, after s.under (fragment heap c) = some m → ∃ b, r.data_in = some b ∧
      (m.data.length ≤ m.total → b.capacity = m.total ∧ b.data = m.data)) :
    (s.answered heap c (.ok (status, r))).Inv := by
  obtain ⟨⟨hrunning, hposted, hrefused⟩, -, -⟩ := h
  unfold answered
  rw [take_eq s heap hc, hcompleted]
  refine ⟨⟨hrunning, ?_, ?_⟩, hfits, haligned⟩
  · simpa [hqueue] using hposted
  · simp [hrefused, hstatus]

/-- A chunk that is in its stream. -/
theorem Channel.Inv.answer (h : s.Inv) (hc : c.suspended = false) {r : Receiver}
    (hqueue : r.queue = s.receiver.queue) (hfits : b.position ≤ b.capacity)
    (haligned : ∀ m, joined s.under (fragment heap c) = some m → m.data.length ≤ m.total →
      b.capacity = m.total ∧ b.data = m.data)
    (hfull : c.has CHANNEL_FLAG_LAST = true → heap.post = true → b.position = b.capacity →
      (completed s.under (fragment heap c)).isSome) :
    (s.answered heap c (.ok (StaticChannel.answer heap r c b))).Inv := by
  have hafter (hlast : c.has CHANNEL_FLAG_LAST = true) (m : Message UInt8)
      (hm : after s.under (fragment heap c) = some m) {P : Prop} : P :=
    absurd (after_eq_some.mp hm).1 (by simp [fragment, hlast])
  unfold StaticChannel.answer
  by_cases hlast : c.has CHANNEL_FLAG_LAST = true
  · rw [if_pos hlast]
    by_cases hcapacity : b.capacity = b.position
    · rw [if_neg (not_not.mpr hcapacity)]
      by_cases hpost : heap.post = true
      · rw [if_pos hpost]
        obtain ⟨d, hd⟩ := Option.isSome_iff_exists.mp (hfull hlast hpost hcapacity.symm)
        obtain ⟨-, m, hm, htotal, rfl⟩ := completed_eq_some.mp hd
        obtain ⟨-, hdata⟩ := haligned m hm (Nat.le_of_eq htotal)
        obtain ⟨⟨hrunning, hposted, hrefused⟩, -, -⟩ := h
        have hends : s.endsNothing heap c = false := by simp [endsNothing, hd]
        unfold answered
        rw [take_eq s heap hc, hd, hends]
        refine ⟨⟨hrunning, ?_, by simpa using hrefused⟩, nofun, fun m hm => hafter hlast m hm⟩
        rw [hqueue, hposted, hdata]
        rfl
      · rw [if_neg hpost]
        have hlost : (fragment heap c).lost = true := by simp [fragment, hlast, hpost]
        refine h.refused hc (by decide) hqueue nofun ?_ fun m hm => hafter hlast m hm
        rw [completed, joined_of_lost hlost, Option.bind_none, ite_self]
    · rw [if_pos hcapacity]
      refine h.refused hc (by decide) hqueue (fun b' hb' => Option.some.inj hb' ▸ hfits) ?_
        fun m hm => hafter hlast m hm
      refine Option.eq_none_iff_forall_ne_some.mpr fun d hd => hcapacity ?_
      obtain ⟨-, m, hm, htotal, -⟩ := completed_eq_some.mp hd
      obtain ⟨hm', hdata⟩ := haligned m hm (Nat.le_of_eq htotal)
      rw [hm', DataIn.position, hdata, htotal]
  · rw [if_neg hlast]
    have hfragment : (fragment heap c).last = false := by simpa [fragment] using hlast
    have hcompleted : completed s.under (fragment heap c) = none := if_neg (by simp [hfragment])
    have hends : s.endsNothing heap c = false := by simp [endsNothing, hlast]
    obtain ⟨⟨hrunning, hposted, hrefused⟩, -, -⟩ := h
    unfold answered
    rw [take_eq s heap hc, hcompleted, hends]
    refine ⟨⟨hrunning, by simpa [hqueue] using hposted, by simpa using hrefused⟩,
      fun b' hb' => Option.some.inj hb' ▸ hfits, fun m hm => ⟨b, rfl, fun hle => ?_⟩⟩
    exact haligned m (after_eq_some.mp hm).2 hle

/-- **A chunk that is sound keeps the invariant.** -/
theorem Channel.Inv.step {a : Arrival} (h : s.Inv) (hsound : Sound s a)
    (hstep : step plugin s a = some t) : t.Inv := by
  obtain ⟨heap, c⟩ := a
  rw [step_eq h.correct.running, Option.some.injEq] at hstep
  subst hstep
  by_cases hsuspended : c.suspended = true
  · have hreceived : virtual_channel_event_data_received heap s.receiver c =
        .ok (CHANNEL_RC_OK, s.receiver) := if_pos hsuspended
    have hends : s.endsNothing heap c = false := by simp [Channel.endsNothing, hsuspended]
    rw [hreceived, Channel.answered, Channel.take, if_pos hsuspended, hends, Bool.false_and,
      Bool.or_false]
    exact h
  · have hc : c.suspended = false := by simpa using hsuspended
    obtain ⟨hpresent, hstream⟩ := hsound hc
    dsimp only at hpresent hstream ⊢
    rw [received_eq hc]
    cases hb : s.receiver.begun heap c with
    | none =>
      have hfirst : c.has CHANNEL_FLAG_FIRST = true := by
        by_contra hfirst
        rw [Receiver.begun, if_neg hfirst] at hb
        exact hpresent (by simpa using hfirst) hb
      have hnew : heap.stream_new = false := by
        rw [Receiver.begun, if_pos hfirst, Stream_New] at hb
        simpa using hb
      have hlost : (fragment heap c).lost = true := by simp [fragment, hfirst, hnew]
      dsimp only
      rw [if_pos hfirst]
      refine h.refused hc (by decide) rfl nofun ?_ ?_
      · rw [completed, joined_of_lost hlost, Option.bind_none, ite_self]
      · intro m hm
        rw [after_eq_some, joined_of_lost hlost] at hm
        cases hm.2
    | some b =>
      obtain ⟨hzero, hfull⟩ := hstream b hb
      obtain ⟨hfits, hjoined⟩ := h.begun hb
      dsimp only
      rcases receive_cases heap (r := { s.receiver with data_in := some b }) rfl hfits hzero with
        ⟨hroom, -, hreceive⟩ | ⟨b', hdata, hfits', hsame, hfills, hreceive⟩
      · rw [hreceive]
        -- a message that has become too long
        have hlong (m : Message UInt8) (hm : joined s.under (fragment heap c) = some m) :
            ¬ m.data.length ≤ m.total := by
          intro hle
          obtain ⟨-, -, hroom'⟩ := hjoined m hm hle
          omega
        refine h.refused hc (by decide) rfl (fun b' hb' => Option.some.inj hb' ▸ hfits) ?_ ?_
        · refine Option.eq_none_iff_forall_ne_some.mpr fun d hd => ?_
          obtain ⟨-, m, hm, htotal, -⟩ := completed_eq_some.mp hd
          exact hlong m hm (Nat.le_of_eq htotal)
        · intro m hm
          exact ⟨b, rfl, fun hle => absurd hle (hlong m (after_eq_some.mp hm).2)⟩
      · rw [hreceive]
        have haligned (m : Message UInt8) (hm : joined s.under (fragment heap c) = some m)
            (hle : m.data.length ≤ m.total) : b'.capacity = m.total ∧ b'.data = m.data := by
          obtain ⟨hcapacity, hmdata, hroom⟩ := hjoined m hm hle
          exact ⟨(hsame hroom).trans hcapacity, hdata.trans hmdata.symm⟩
        exact h.answer hc rfl hfits' haligned fun hlast hpost hposition =>
          hfull hlast hpost (hfills.mp hposition)

/-- **A chunk that is not sound is not received well.** -/
theorem not_correct_of_not_sound {a : Arrival} (h : s.Inv) (hsound : ¬ Sound s a)
    (hstep : step plugin s a = some t) : ¬ t.Correct := by
  obtain ⟨heap, c⟩ := a
  rw [step_eq h.correct.running, Option.some.injEq] at hstep
  subst hstep
  unfold Sound at hsound
  push Not at hsound
  obtain ⟨hc, hsound⟩ := hsound
  dsimp only at hc hsound ⊢
  rw [received_eq hc]
  by_cases hpresent : c.has CHANNEL_FLAG_FIRST = false ∧ s.receiver.data_in = none
  · obtain ⟨hfirst, hnone⟩ := hpresent
    have hbegun : s.receiver.begun heap c = none := by
      rw [Receiver.begun, if_neg (by simp [hfirst]), hnone]
    rw [hbegun]
    dsimp only
    rw [if_neg (by simp [hfirst])]
    exact fun hcorrect => absurd hcorrect.running (by simp [Channel.answered])
  · obtain ⟨b, hb, hsound⟩ := hsound fun hfirst hnone => hpresent ⟨hfirst, hnone⟩
    rw [hb]
    dsimp only
    by_cases hzero : b.capacity = 0 → c.data.length = 0
    · obtain ⟨hlast, hpost, hfills, hcompleted⟩ := hsound hzero
      obtain ⟨hfits, -⟩ := h.begun hb
      rcases receive_cases heap (r := { s.receiver with data_in := some b }) rfl hfits hzero with
        ⟨hroom, hrealloc, -⟩ | ⟨b', -, -, -, hposition, hreceive⟩
      · rcases hfills with hfull | ⟨hgrown, -⟩
        · omega
        · rw [hrealloc] at hgrown
          cases hgrown
      · have hfull : ¬ b'.capacity ≠ b'.position := not_not.mpr (hposition.mpr hfills).symm
        have hnone : completed s.under (fragment heap c) = none := by simpa using hcompleted
        have hends : s.endsNothing heap c = true := by simp [Channel.endsNothing, hc, hlast, hnone]
        rw [hreceive, answer, if_pos hlast, if_neg hfull, if_pos hpost]
        exact fun hcorrect => absurd hcorrect.refused (by simp [Channel.answered, hends])
    · push Not at hzero
      have hhang := ensureRemaining_hang heap hzero.1 (Nat.pos_of_ne_zero hzero.2)
      have hreceive : receive heap { s.receiver with data_in := some b } c = .error .hang := by
        unfold receive
        dsimp only
        rw [hhang]
        rfl
      rw [hreceive]
      exact fun hcorrect => absurd hcorrect.running (by simp [Channel.answered])

theorem step_enabled (plugin : Plugin) (s : Channel) (a : Arrival) :
    ∃ t, step plugin s a = some t := by
  unfold step
  split_ifs
  · exact ⟨_, rfl⟩
  · exact ⟨_, rfl⟩

/-- **When the chunks are put together.** -/
theorem reassembled_iff (plugin : Plugin) (arrivals : List Arrival) :
    Along (step plugin) Channel.Correct Channel.initial arrivals ↔
      Meets (step plugin) Sound Channel.initial arrivals := by
  obtain ⟨u, hu⟩ := run_of_enabled (step_enabled plugin) Channel.initial arrivals
  exact (meets_iff_along (I := Channel.Inv) (p := fun _ => True) (fun _ h => h.correct)
    (fun _ _ _ h _ hsound hstep => h.step hsound hstep)
    (fun _ _ _ h _ hsound hstep => not_correct_of_not_sound h hsound hstep)
    Channel.Inv.initial (fun _ _ => trivial) hu).symm

/-- A chunk that everything is there for. -/
def Arrival.plain (dataFlags totalLength : Nat) (data : Bytes) (h : data.length ≤ 0xFFFF) :
    Arrival :=
  ⟨⟨true, true, true⟩, ⟨data, totalLength, dataFlags, h⟩⟩

/-- A chunk without a first one before it. -/
def unbegun : List Arrival := [.plain CHANNEL_FLAG_LAST 2 [1, 2] (by decide)]

/-- Eight bytes for a message of four. -/
def overlong : List Arrival :=
  [.plain CHANNEL_FLAG_FIRST 4 [1, 2, 3, 4] (by decide), .plain CHANNEL_FLAG_LAST 4 [5, 6, 7, 8] (by decide)]

/-- A message that is too short, and a chunk without a first one after it. -/
def tooShort : List Arrival :=
  [.plain CHANNEL_FLAG_FIRST 4 [1, 2] (by decide), .plain CHANNEL_FLAG_LAST 4 [3] (by decide),
    .plain CHANNEL_FLAG_LAST 4 [4] (by decide)]

/-- A byte for a message of none. -/
def unannounced : List Arrival := [.plain CHANNEL_FLAG_FIRST 0 [1] (by decide)]

/-- Either channel uses a stream that is not there, posts what is too long, posts what is left of a
message that it has refused, and may go on for ever. -/
theorem chunks_received_wrong :
    (¬ Along (step .tiradr) Channel.Correct Channel.initial unbegun ∧
      ¬ Along (step .tiradr) Channel.Correct Channel.initial overlong ∧
      ¬ Along (step .tiradr) Channel.Correct Channel.initial tooShort ∧
      ¬ Along (step .tiradr) Channel.Correct Channel.initial unannounced) ∧
    ¬ Along (step .tirasnd) Channel.Correct Channel.initial unbegun ∧
      ¬ Along (step .tirasnd) Channel.Correct Channel.initial overlong ∧
      ¬ Along (step .tirasnd) Channel.Correct Channel.initial tooShort ∧
      ¬ Along (step .tirasnd) Channel.Correct Channel.initial unannounced := by
  have hwrong (plugin : Plugin) (arrivals : List Arrival)
      (h : (run (step plugin) Channel.initial arrivals).any (fun t => t.halted || t.passed) = true) :
      ¬ Along (step plugin) Channel.Correct Channel.initial arrivals := by
    intro halong
    obtain ⟨t, ht, hwrong⟩ := (Option.any_eq_true _ _).mp h
    obtain ⟨hrunning, -, hrefused⟩ := halong.last ht
    rw [hrunning, hrefused] at hwrong
    cases hwrong
  exact ⟨⟨hwrong _ _ rfl, hwrong _ _ rfl, hwrong _ _ rfl, hwrong _ _ rfl⟩,
    hwrong _ _ rfl, hwrong _ _ rfl, hwrong _ _ rfl, hwrong _ _ rfl⟩

/-- The fragments that have arrived. -/
def fragments (arrivals : List Arrival) : List (Fragment UInt8) :=
  (arrivals.filter fun a => !a.chunk.suspended).map fun a => fragment a.heap a.chunk

theorem take_fields (plugin : Plugin) {a : Arrival} (hrunning : s.halted = false)
    (hstep : step plugin s a = some t) :
    t.under = (s.take a.heap a.chunk).under ∧ t.due = (s.take a.heap a.chunk).due := by
  rw [step_eq hrunning, Option.some.injEq] at hstep
  subst hstep
  unfold Channel.answered
  split
  · exact ⟨rfl, rfl⟩
  · exact ⟨rfl, rfl⟩

/-- What is due is what there is to be made of the fragments. -/
theorem due_eq {arrivals : List Arrival} {s u : Channel} (hs : s.Inv)
    (hsound : Meets (step plugin) Sound s arrivals) (h : run (step plugin) s arrivals = some u) :
    u.due = s.due ++ assemble s.under (fragments arrivals) := by
  induction arrivals generalizing s with
  | nil =>
    obtain rfl := Option.some.inj h
    exact (List.append_nil _).symm
  | cons a arrivals ih =>
    obtain ⟨t, ht, hrun⟩ := run_cons.mp h
    obtain ⟨hunder, hdue⟩ := take_fields plugin hs.correct.running ht
    have hnext : t.Inv := hs.step hsound.1 ht
    rw [ih hnext (hsound.2 t ht) hrun, hunder, hdue]
    by_cases hsuspended : a.chunk.suspended = true
    · have hskip : fragments (a :: arrivals) = fragments arrivals := by simp [fragments, hsuspended]
      rw [hskip, Channel.take, if_pos hsuspended]
    · have hc : a.chunk.suspended = false := by simpa using hsuspended
      have hcons : fragments (a :: arrivals) = fragment a.heap a.chunk :: fragments arrivals := by
        simp [fragments, hc]
      rw [hcons, assemble, s.take_eq a.heap hc, List.append_assoc]

/-- **A message is posted**, whatever comes before it and after it. -/
theorem posted_of_run {before message after : List Arrival} {u : Channel}
    (hsound : Meets (step plugin) Sound Channel.initial (before ++ message ++ after))
    (hrun : Run true (fragments message))
    (h : run (step plugin) Channel.initial (before ++ message ++ after) = some u) :
    u.receiver.queue = assemble none (fragments before) ++
      ((if ((fragments message).flatMap (·.data)).length = total (fragments message) then
        [(fragments message).flatMap (·.data)] else []) ++ assemble none (fragments after)) := by
  have hinv : u.Inv :=
    run_invariant (fun _ _ _ hs hok ht => hs.step hok ht) Channel.Inv.initial hsound h
  have hfragments : fragments (before ++ message ++ after) =
      fragments before ++ (fragments message ++ fragments after) := by
    simp [fragments]
  rw [hinv.correct.posted, due_eq Channel.Inv.initial hsound h, hfragments, assemble_append,
    assemble_run hrun]
  rfl

end Runs

end TiraRdp.StaticChannel
