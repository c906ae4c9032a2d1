import TiraRdp.Lib.Loop
import TiraRdp.Lib.Lts
import TiraRdp.Utility.DataBuffer

/-!
# `TcpChannel::Send`

Model of `TcpChannel::Send` and `Flush` (`projector/TcpChannel.cpp:27-59`), over the `DataBuffer` of
`m_InternalWritingBuffer`, and of any sequence of calls.

* What `m_Writer` does in each `Flush` is arbitrary: both calls return, `WaitTillSourceIdeal`
  throws, or `WriteBytes` does. A block is given to `WriteBytes` when that is called, whether it
  throws or not.
* `Send` is `none` when its loop has not ended after `fuel` rounds.
* `sent` records of each call what was left in the buffer before it, its data, the blocks it gave
  and whether it threw.

Results: a call ends, and what it gives, what stays in the buffer and what it has not come to are
what was left and the data in order (`Send_spec`); which calls transmit their own data only
(`sends_own_iff`).
-/

namespace TiraRdp

open Lib

namespace TcpChannel

def WRITING_BUF_SIZE : Nat := 1316

/-- What the calls of one `Flush` do. -/
inductive FlushOutcome where
  | returns
  | waitThrows
  | writeThrows
  deriving Repr, DecidableEq

/-- How a call ends that does not return. -/
inductive Thrown where
  | fault (f : Fault)
  | writer
  deriving Repr, DecidableEq

/-- A `Send` in its loop: the buffer, what `pData` and `dataLen` name, the blocks given, and how
many `Flush`es there were. -/
structure Sending where
  m_InternalWritingBuffer : DataBuffer
  pData : Bytes
  blocks : List Bytes
  flushes : Nat

/-- `Flush`. -/
def Flush (outcome : Nat → FlushOutcome) (s : Sending) : Except (Thrown × Sending) Sending :=
  let b := s.m_InternalWritingBuffer
  if b.GetDataLength > 0 then
    let flushed := { s with flushes := s.flushes + 1 }
    let written := { flushed with blocks := s.blocks ++ [b.data] }
    match outcome s.flushes with
    | .waitThrows => .error (.writer, flushed)
    | .writeThrows => .error (.writer, written)
    | .returns => .ok { written with m_InternalWritingBuffer := b.Clear }
  else .ok s

/-- The body of the loop of `Send`. -/
def sendBlock (outcome : Nat → FlushOutcome) (s : Sending) : Except (Thrown × Sending) Sending :=
  let b := s.m_InternalWritingBuffer
  let canWrite := min s.pData.length b.GetSpaceLeave
  match b.AppendFrom s.pData canWrite with
  | .error f => .error (.fault f, s)
  | .ok b => Flush outcome { s with m_InternalWritingBuffer := b, pData := s.pData.drop canWrite }

/-- `Send`. -/
def Send (fuel : Nat) (outcome : Nat → FlushOutcome) (b : DataBuffer) (pData : Bytes) :
    Option (Except (Thrown × Sending) Sending) :=
  Loop.run (fun s => decide (s.pData.length > 0)) (sendBlock outcome) fuel ⟨b, pData, [], 0⟩

/-! ## One call -/

/-- The buffer of a channel: `TcpChannel::TcpChannel` makes it, and no call changes its size. -/
structure Ready (b : DataBuffer) : Prop where
  size : b.m_BufferSize = WRITING_BUF_SIZE
  length_le : b.m_DataLength ≤ WRITING_BUF_SIZE

variable {outcome : Nat → FlushOutcome} {b : DataBuffer} {s t : Sending}

/-- How a round ends behind `blocks`: the block `b` is given and the loop goes on, or a call of the
writer throws, and the block stays in the buffer. -/
inductive Rounds (outcome : Nat → FlushOutcome) (flushes : Nat) (blocks : List Bytes)
    (b : DataBuffer)
    (rest : Bytes) : Except (Thrown × Sending) Sending → Prop
  | returns (h : outcome flushes = .returns) :
    Rounds outcome flushes blocks b rest (.ok ⟨b.Clear, rest, blocks ++ [b.data], flushes + 1⟩)
  | waitThrows (h : outcome flushes = .waitThrows) :
    Rounds outcome flushes blocks b rest (.error (.writer, ⟨b, rest, blocks, flushes + 1⟩))
  | writeThrows (h : outcome flushes = .writeThrows) :
    Rounds outcome flushes blocks b rest
      (.error (.writer, ⟨b, rest, blocks ++ [b.data], flushes + 1⟩))

theorem Flush_rounds (outcome : Nat → FlushOutcome) (s : Sending)
    (h : 0 < s.m_InternalWritingBuffer.m_DataLength) :
    Rounds outcome s.flushes s.blocks s.m_InternalWritingBuffer s.pData (Flush outcome s) := by
  unfold Flush DataBuffer.GetDataLength
  rw [if_pos h]
  cases hout : outcome s.flushes with
  | returns => exact .returns hout
  | waitThrows => exact .waitThrows hout
  | writeThrows => exact .writeThrows hout

/-- **A round** fills the buffer and flushes it; no byte of the buffer or the data is lost by
that. -/
theorem sendBlock_spec (outcome : Nat → FlushOutcome) (h : Ready s.m_InternalWritingBuffer)
    (hdata : s.pData ≠ []) :
    ∃ b rest, Ready b ∧ 0 < b.m_DataLength ∧
      b.data ++ rest = s.m_InternalWritingBuffer.data ++ s.pData ∧
      Rounds outcome s.flushes s.blocks b rest (sendBlock outcome s) := by
  have hlen := h.length_le
  have hpos := List.length_pos_of_ne_nil hdata
  have hsize : s.m_InternalWritingBuffer.m_BufferSize < 2 ^ 32 := by
    rw [h.size]
    decide
  have hspace := DataBuffer.GetSpaceLeave_of_le hsize (h.size ▸ h.length_le)
  rw [h.size] at hspace
  set n := min s.pData.length s.m_InternalWritingBuffer.GetSpaceLeave with hn
  have hfit :
      s.m_InternalWritingBuffer.m_DataLength + n ≤ s.m_InternalWritingBuffer.m_BufferSize := by
    rw [h.size]
    omega
  obtain ⟨b, hb, hbdata, hblen, hbsize, -⟩ :=
    DataBuffer.AppendFrom_spec hsize (Nat.min_le_left _ _ : n ≤ s.pData.length) hfit
  -- with a full buffer nothing is appended, and what was left is flushed
  have hflushed : 0 < b.m_DataLength := by
    have hroom : 0 < WRITING_BUF_SIZE := by decide
    omega
  have heq : sendBlock outcome s =
      Flush outcome { s with m_InternalWritingBuffer := b, pData := s.pData.drop n } := by
    unfold sendBlock
    dsimp only
    rw [← hn, hb]
  refine ⟨b, s.pData.drop n, ⟨hbsize.trans h.size, by omega⟩, hflushed, ?_, ?_⟩
  · rw [hbdata, List.append_assoc, List.take_append_drop]
  · rw [heq]
    exact Flush_rounds outcome ⟨b, s.pData.drop n, s.blocks, s.flushes⟩ hflushed

/-- What holds whenever the loop begins a round: the bytes given, those in the buffer and those to
come are `left` and `data`, and only the first round finds anything in the buffer. -/
structure Round (outcome : Nat → FlushOutcome) (left data : Bytes) (s : Sending) : Prop where
  ready : Ready s.m_InternalWritingBuffer
  conserved : s.blocks.flatten ++ s.m_InternalWritingBuffer.data ++ s.pData = left ++ data
  block_le : ∀ block ∈ s.blocks, block.length ≤ WRITING_BUF_SIZE
  count : s.blocks.length = s.flushes
  first : s.flushes = 0 → s.pData = data
  later : s.flushes ≠ 0 → s.m_InternalWritingBuffer.data = [] ∧ outcome 0 = .returns ∧ data ≠ []

/-- What a call leaves. -/
structure Sends (outcome : Nat → FlushOutcome) (left data : Bytes) (s : Sending) : Prop where
  ready : Ready s.m_InternalWritingBuffer
  block_le : ∀ block ∈ s.blocks, block.length ≤ WRITING_BUF_SIZE
  given : s.blocks.flatten <+: left ++ data
  none_iff : s.blocks = [] ↔ data = [] ∨ outcome 0 = .waitThrows

variable {left data : Bytes}

theorem block_le_append (h : ∀ block ∈ s.blocks, block.length ≤ WRITING_BUF_SIZE) (hb : Ready b) :
    ∀ block ∈ s.blocks ++ [b.data], block.length ≤ WRITING_BUF_SIZE := by
  intro block hmem
  rcases List.mem_append.mp hmem with hold | hnew
  · exact h block hold
  · rw [List.mem_singleton.mp hnew, DataBuffer.data_length]
    exact hb.length_le

/-- What is left to flush and to copy. -/
def Sending.toSend (s : Sending) : Nat := s.pData.length + s.m_InternalWritingBuffer.m_DataLength

theorem Round.data_ne (h : Round outcome left data s) (hdata : s.pData ≠ []) : data ≠ [] := by
  by_cases hfirst : s.flushes = 0
  · rw [← h.first hfirst]
    exact hdata
  · exact (h.later hfirst).2.2

theorem Round.next (h : Round outcome left data s) (hdata : s.pData ≠ [])
    (hround : sendBlock outcome s = .ok t) : Round outcome left data t ∧ t.toSend < s.toSend := by
  obtain ⟨b, rest, hb, hflushed, hmoved, hends⟩ := sendBlock_spec outcome h.ready hdata
  rw [hround] at hends
  cases hends with
  | returns hout =>
    refine ⟨⟨⟨hb.size, Nat.zero_le _⟩, ?_, block_le_append h.block_le hb, ?_, ?_, ?_⟩, ?_⟩
    · have hconserved := h.conserved
      rw [List.append_assoc, ← hmoved] at hconserved
      simpa using hconserved
    · rw [List.length_append, List.length_singleton, h.count]
    · exact fun hzero => absurd hzero (Nat.succ_ne_zero _)
    · intro _
      refine ⟨rfl, ?_, h.data_ne hdata⟩
      by_cases hfirst : s.flushes = 0
      · rw [← hfirst]
        exact hout
      · exact (h.later hfirst).2.1
    · have hlen := congrArg List.length hmoved
      rw [List.length_append, List.length_append, DataBuffer.data_length,
        DataBuffer.data_length] at hlen
      unfold Sending.toSend
      simp only [DataBuffer.Clear]
      omega

/-- The first `WaitTillSourceIdeal` throws in the first round only. -/
theorem Round.not_later (h : Round outcome left data s) (hwait : outcome 0 = .waitThrows) :
    s.flushes = 0 := by
  by_contra hlater
  exact FlushOutcome.noConfusion (hwait.symm.trans (h.later hlater).2.1)

theorem Round.threw {e : Thrown × Sending} (h : Round outcome left data s) (hdata : s.pData ≠ [])
    (hround : sendBlock outcome s = .error e) :
    ∃ t, e = (.writer, t) ∧ Sends outcome left data t := by
  obtain ⟨b, rest, hb, hflushed, hmoved, hends⟩ := sendBlock_spec outcome h.ready hdata
  have hconserved := h.conserved
  have hcount := h.count
  rw [List.append_assoc, ← hmoved] at hconserved
  rw [hround] at hends
  cases hends with
  | waitThrows hout =>
    refine ⟨_, rfl, hb, h.block_le, ⟨_, hconserved⟩, ?_⟩
    constructor
    · intro hnone
      rw [hnone, List.length_nil] at hcount
      exact Or.inr (hcount ▸ hout)
    · intro hfirst
      have hwait := hfirst.resolve_left (h.data_ne hdata)
      rw [h.not_later hwait] at hcount
      exact List.eq_nil_of_length_eq_zero hcount
  | writeThrows hout =>
    refine ⟨_, rfl, hb, block_le_append h.block_le hb, ⟨rest, ?_⟩, ?_⟩
    · simpa using hconserved
    · refine iff_of_false (List.append_ne_nil_of_right_ne_nil _ (List.cons_ne_nil _ _)) ?_
      intro hfirst
      have hwait := hfirst.resolve_left (h.data_ne hdata)
      rw [h.not_later hwait, hwait] at hout
      exact FlushOutcome.noConfusion hout

theorem Round.returned (h : Round outcome left data s) (hdata : s.pData = []) :
    Sends outcome left data s ∧ (data ≠ [] → s.blocks.flatten = left ++ data) := by
  have hconserved := h.conserved
  have hcount := h.count
  rw [hdata, List.append_nil] at hconserved
  by_cases hfirst : s.flushes = 0
  · have hempty : data = [] := (h.first hfirst).symm.trans hdata
    rw [hfirst] at hcount
    have hnone := List.eq_nil_of_length_eq_zero hcount
    exact ⟨⟨h.ready, h.block_le, ⟨_, hconserved⟩, iff_of_true hnone (Or.inl hempty)⟩,
      fun hne => absurd hempty hne⟩
  · obtain ⟨hflushed, hreturns, hne⟩ := h.later hfirst
    have hsome : s.blocks ≠ [] := by
      rintro heq
      rw [heq, List.length_nil] at hcount
      exact hfirst hcount.symm
    have hnot : ¬ (data = [] ∨ outcome 0 = .waitThrows) := by
      rw [hreturns]
      exact fun h => h.elim hne FlushOutcome.noConfusion
    refine ⟨⟨h.ready, h.block_le, ⟨_, hconserved⟩, iff_of_false hsome hnot⟩, fun _ => ?_⟩
    rw [← hconserved, hflushed, List.append_nil]

/-- The loop of a `Send` ends: no data is left, or a round has thrown. -/
theorem Send_ends (hb : Ready b) (outcome : Nat → FlushOutcome) (data : Bytes) {fuel : Nat}
    (hfuel : data.length + b.m_DataLength < fuel) :
    (∃ t, Send fuel outcome b data = some (.ok t) ∧ Round outcome b.data data t ∧ t.pData = []) ∨
      ∃ e s, Send fuel outcome b data = some (.error e) ∧ Round outcome b.data data s ∧
        s.pData ≠ [] ∧ sendBlock outcome s = .error e := by
  have hstart : Round outcome b.data data ⟨b, data, [], 0⟩ :=
    ⟨hb, rfl, fun _ hmem => absurd hmem List.not_mem_nil, rfl, fun _ => rfl, fun h => absurd rfl h⟩
  have hrounds (s t : Sending) (h : Round outcome b.data data s)
      (hcond : decide (s.pData.length > 0) = true) (hround : sendBlock outcome s = .ok t) :
      Round outcome b.data data t ∧ t.toSend < s.toSend :=
    h.next (List.ne_nil_of_length_pos (of_decide_eq_true hcond)) hround
  rcases Loop.run_result hrounds fuel _ hstart hfuel with
    ⟨t, hrun, ht, hend⟩ | ⟨e, s, hrun, hs, hcond, hthrew⟩
  · have hsent : t.pData = [] :=
      List.eq_nil_of_length_eq_zero (Nat.eq_zero_of_not_pos (of_decide_eq_false hend))
    exact .inl ⟨t, hrun, ht, hsent⟩
  · have hleft : s.pData ≠ [] := List.ne_nil_of_length_pos (of_decide_eq_true hcond)
    exact .inr ⟨e, s, hrun, hs, hleft, hthrew⟩

/-- **`Send`** ends. Where it returns, all that was left and all its data are given. -/
theorem Send_spec (hb : Ready b) (outcome : Nat → FlushOutcome) (data : Bytes) {fuel : Nat}
    (hfuel : data.length + b.m_DataLength < fuel) :
    ∃ result t, Send fuel outcome b data = some result ∧
      Sends outcome b.data data t ∧ (result = .error (.writer, t) ∨
        result = .ok t ∧ (data ≠ [] → t.blocks.flatten = b.data ++ data)) := by
  rcases Send_ends hb outcome data hfuel with
    ⟨t, hrun, ht, hsent⟩ | ⟨e, s, hrun, hs, hleft, hthrew⟩
  · obtain ⟨hsends, hall⟩ := ht.returned hsent
    exact ⟨_, t, hrun, hsends, Or.inr ⟨rfl, hall⟩⟩
  · obtain ⟨t, rfl, hsends⟩ := hs.threw hleft hthrew
    exact ⟨_, t, hrun, hsends, Or.inl rfl⟩

/-- **A `Send` whose `Flush`es all return** gives its data and leaves nothing in the buffer. -/
theorem Send_returns (hb : Ready b) (hempty : b.data = []) (hout : ∀ i, outcome i = .returns)
    {data : Bytes} (hdata : data ≠ []) {fuel : Nat} (hfuel : data.length + b.m_DataLength < fuel) :
    ∃ t, Send fuel outcome b data = some (.ok t) ∧ Ready t.m_InternalWritingBuffer ∧
      t.m_InternalWritingBuffer.data = [] ∧ t.blocks.flatten = data := by
  rcases Send_ends hb outcome data hfuel with
    ⟨t, hrun, ht, hsent⟩ | ⟨e, s, hrun, hs, hleft, hthrew⟩
  · have hlater : t.flushes ≠ 0 := fun hfirst => hdata ((ht.first hfirst).symm.trans hsent)
    have hall := (ht.returned hsent).2 hdata
    rw [hempty, List.nil_append] at hall
    exact ⟨t, hrun, ht.ready, (ht.later hlater).1, hall⟩
  · -- a round that throws has a call of the writer that does
    obtain ⟨b', rest, -, -, -, hends⟩ := sendBlock_spec outcome hs.ready hleft
    rw [hthrew] at hends
    cases hends with
    | waitThrows hwait => exact FlushOutcome.noConfusion ((hout _).symm.trans hwait)
    | writeThrows hwrite => exact FlushOutcome.noConfusion ((hout _).symm.trans hwrite)

end TcpChannel

/-! ## Any sequence of calls -/

/-- What happened in a call of `Send`. -/
structure Sent where
  left : Bytes
  data : Bytes
  blocks : List Bytes
  thrown : Option TcpChannel.Thrown
  deriving DecidableEq

structure TcpChannel where
  m_InternalWritingBuffer : DataBuffer
  sent : List Sent

namespace TcpChannel

/-- A call of `Send`, and what its `Flush`es do. -/
structure Call where
  data : Bytes
  outcome : Nat → FlushOutcome

/-- `TcpChannel::TcpChannel`. -/
def new (fresh : Nat → Mem UInt8) : TcpChannel :=
  ⟨⟨fresh WRITING_BUF_SIZE, WRITING_BUF_SIZE, true, 0⟩, []⟩

theorem new_eq (fresh : Nat → Mem UInt8) :
    DataBuffer.new.SetBufferSizeLowerBound fresh WRITING_BUF_SIZE =
    .ok (new fresh).m_InternalWritingBuffer := rfl

def ended : Except (Thrown × Sending) Sending → Option Thrown × Sending
  | .ok t => (none, t)
  | .error (e, t) => (some e, t)

/-- One call; `none` when its loop has not ended after more rounds than there are bytes. -/
def step (c : TcpChannel) (call : Call) : Option TcpChannel :=
  (Send (call.data.length + WRITING_BUF_SIZE + 1) call.outcome c.m_InternalWritingBuffer
    call.data).map
    fun result =>
      let (thrown, t) := ended result
      ⟨t.m_InternalWritingBuffer,
        c.sent ++ [⟨c.m_InternalWritingBuffer.data, call.data, t.blocks, thrown⟩]⟩

/-- The call gave its own data in order, all of it if it returned, in blocks that are not too large.
Where something was left, that stands in front of the first block, so there must be none. -/
structure SentOwn (e : Sent) : Prop where
  block_le : ∀ block ∈ e.blocks, block.length ≤ WRITING_BUF_SIZE
  given : e.blocks.flatten <+: e.data
  all : e.thrown = none → e.blocks.flatten = e.data
  left : e.left ≠ [] → e.blocks = []

/-- When a call does. -/
def Clean (c : TcpChannel) (call : Call) : Prop :=
  c.m_InternalWritingBuffer.data = [] ∨ call.data = [] ∨ call.outcome 0 = .waitThrows

instance (c : TcpChannel) : DecidablePred c.Clean := fun _ =>
  inferInstanceAs (Decidable (_ ∨ _ ∨ _))

/-- Every call gave its own data. -/
def AllOwn (c : TcpChannel) : Prop := ∀ e ∈ c.sent, SentOwn e

/-- The invariant. -/
structure Kept (c : TcpChannel) : Prop where
  ready : Ready c.m_InternalWritingBuffer
  allOwn : c.AllOwn

variable {c c' : TcpChannel} {call : Call}

/-- **A call** ends; what it gave is its own data exactly when it is clean. -/
theorem step_spec (h : Ready c.m_InternalWritingBuffer) (call : Call) :
    ∃ c' e, c.step call = some c' ∧ Ready c'.m_InternalWritingBuffer ∧ c'.sent = c.sent ++ [e] ∧
      e.data = call.data ∧ (SentOwn e ↔ c.Clean call) := by
  have hfuel : call.data.length + c.m_InternalWritingBuffer.m_DataLength <
      call.data.length + WRITING_BUF_SIZE + 1 :=
    Nat.lt_succ_of_le (Nat.add_le_add_left h.length_le _)
  obtain ⟨result, t, hrun, ht, hresult⟩ := Send_spec h call.outcome call.data hfuel
  have hended : ∃ thrown, ended result = (thrown, t) ∧
      (thrown = none → call.data ≠ [] →
        t.blocks.flatten = c.m_InternalWritingBuffer.data ++ call.data) := by
    rcases hresult with rfl | ⟨rfl, hall⟩
    · exact ⟨some .writer, rfl, fun h => nomatch h⟩
    · exact ⟨none, rfl, fun _ => hall⟩
  obtain ⟨thrown, hended, hall⟩ := hended
  refine ⟨_, _, by rw [step, hrun, Option.map_some, hended], ht.ready, rfl, rfl, ?_⟩
  constructor
  · intro hown
    by_cases hleft : c.m_InternalWritingBuffer.data = []
    · exact Or.inl hleft
    · exact Or.inr (ht.none_iff.mp (hown.left hleft))
  · rintro (hleft | hnone)
    · -- nothing was left, so what is given is of the data
      have hgiven := ht.given
      rw [hleft, List.nil_append] at hall hgiven
      refine ⟨ht.block_le, hgiven, fun hreturned => ?_, fun hne => absurd hleft hne⟩
      by_cases hdata : call.data = []
      · rw [hdata, List.prefix_nil] at hgiven
        exact hgiven.trans hdata.symm
      · exact hall hreturned hdata
    · have hblocks := ht.none_iff.mpr hnone
      refine ⟨ht.block_le, ?_, fun hreturned => ?_, fun _ => hblocks⟩
      · dsimp only
        rw [hblocks]
        exact List.nil_prefix
      · dsimp only
        by_cases hdata : call.data = []
        · rw [hblocks, hdata]
          rfl
        · have hgiven := hall hreturned hdata
          rw [hblocks, List.flatten_nil] at hgiven
          exact absurd (List.append_eq_nil_iff.mp hgiven.symm).2 hdata

theorem Kept.step (h : c.Kept) (hclean : c.Clean call) (hstep : c.step call = some c') :
    c'.Kept := by
  obtain ⟨c'', e, hstep', hready, hsent, -, hown⟩ := step_spec h.ready call
  obtain rfl := Option.some.inj (hstep'.symm.trans hstep)
  refine ⟨hready, fun e' he' => ?_⟩
  rw [hsent, List.mem_append, List.mem_singleton] at he'
  rcases he' with hold | rfl
  · exact h.allOwn e' hold
  · exact hown.mpr hclean

theorem Kept.not_allOwn (h : c.Kept) (hclean : ¬ c.Clean call) (hstep : c.step call = some c') :
    ¬ c'.AllOwn := by
  obtain ⟨c'', e, hstep', -, hsent, -, hown⟩ := step_spec h.ready call
  obtain rfl := Option.some.inj (hstep'.symm.trans hstep)
  intro hall
  refine hclean (hown.mp (hall e ?_))
  rw [hsent]
  exact List.mem_append_right _ (List.mem_singleton_self e)

theorem kept_new (fresh : Nat → Mem UInt8) : (new fresh).Kept :=
  ⟨⟨rfl, Nat.zero_le _⟩, fun _ he => absurd he List.not_mem_nil⟩

/-- **Every sequence of calls** ends, and transmits its own data only exactly when every call is
clean. -/
theorem sends_own_iff (fresh : Nat → Mem UInt8) (calls : List Call) :
    ∃ c, Lts.run step (new fresh) calls = some c ∧
      (Lts.Along step AllOwn (new fresh) calls ↔ Lts.Meets step Clean (new fresh) calls) := by
  have henabled (c : TcpChannel) (call : Call) (h : Ready c.m_InternalWritingBuffer) :
      ∃ c', c.step call = some c' ∧ Ready c'.m_InternalWritingBuffer := by
    obtain ⟨c', -, hstep, hready, -⟩ := step_spec h call
    exact ⟨c', hstep, hready⟩
  obtain ⟨c, hrun⟩ := Lts.run_of_kept henabled calls (kept_new fresh).ready
  refine ⟨c, hrun, ?_⟩
  symm
  refine Lts.meets_iff_along (I := Kept) (p := fun _ => True) (fun _ => Kept.allOwn) ?_ ?_
    (kept_new fresh)
    (fun _ _ => trivial) hrun
  · exact fun _ _ _ hkept _ hclean hstep => hkept.step hclean hstep
  · exact fun _ _ _ hkept _ hclean hstep => hkept.not_allOwn hclean hstep

/-! ## Calls whose flushes return -/

/-- A call on a connection that takes all it is given. -/
def Call.returning (data : Bytes) : Call := ⟨data, fun _ => .returns⟩

/-- What the writer has been given. -/
def stream (c : TcpChannel) : Bytes := c.sent.flatMap fun e => e.blocks.flatten

/-- **The stream of such calls** is their data, one behind the other. -/
theorem run_returning {records : List Bytes} (hne : ∀ r ∈ records, r ≠ []) :
    ∀ {c : TcpChannel}, Ready c.m_InternalWritingBuffer → c.m_InternalWritingBuffer.data = [] →
      ∃ c', Lts.run step c (records.map Call.returning) = some c' ∧
        c'.stream = c.stream ++ records.flatten := by
  induction records with
  | nil => exact fun {c} _ _ => ⟨c, rfl, (List.append_nil _).symm⟩
  | cons r records ih =>
    intro c hready hempty
    have hfuel : (Call.returning r).data.length + c.m_InternalWritingBuffer.m_DataLength <
        (Call.returning r).data.length + WRITING_BUF_SIZE + 1 :=
      Nat.lt_succ_of_le (Nat.add_le_add_left hready.length_le _)
    have hreturns : ∀ i, (Call.returning r).outcome i = .returns := fun _ => rfl
    have hdata : (Call.returning r).data ≠ [] := hne r List.mem_cons_self
    obtain ⟨t, hrun, hready', hempty', hgiven⟩ := Send_returns hready hempty hreturns hdata hfuel
    have hstep : c.step (.returning r) = some ⟨t.m_InternalWritingBuffer,
        c.sent ++ [⟨c.m_InternalWritingBuffer.data, r, t.blocks, none⟩]⟩ := by
      show (Send _ _ _ _).map _ = _
      rw [hrun]
      rfl
    obtain ⟨c', hrest, hstream⟩ := ih (fun q hq => hne q (List.mem_cons_of_mem r hq))
      (c := ⟨t.m_InternalWritingBuffer,
        c.sent ++ [⟨c.m_InternalWritingBuffer.data, r, t.blocks, none⟩]⟩)
      hready' hempty'
    refine ⟨c', Lts.run_cons.mpr ⟨_, hstep, hrest⟩, ?_⟩
    rw [hstream, List.flatten_cons, ← List.append_assoc]
    congr 1
    rw [stream, List.flatMap_append, List.flatMap_singleton, hgiven]
    rfl

/-- The byte of a call that threw stands in front of the next call's. -/
theorem left_over_sent : ¬ ∀ (fresh : Nat → Mem UInt8) (calls : List Call),
    Lts.Along step AllOwn (new fresh) calls := by
  intro h
  let calls : List Call := [⟨[1], fun _ => .waitThrows⟩, ⟨[2], fun _ => .returns⟩]
  obtain ⟨c, hrun, hsent⟩ : ∃ c, Lts.run step (new fun _ _ => 0) calls = some c ∧
      (⟨[1], [2], [[1, 2]], none⟩ : Sent) ∈ c.sent := Lts.run_of_any (by decide +kernel)
  have hgiven := ((h _ calls).last hrun _ hsent).given
  exact absurd hgiven (by decide)

end TcpChannel

end TiraRdp
