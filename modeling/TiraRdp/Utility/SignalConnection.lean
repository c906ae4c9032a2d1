import Mathlib.Data.List.Nodup
import Mathlib.Data.List.TakeWhile
import Mathlib.Logic.Function.Basic
import TiraRdp.Lib.Lts

/-!
# Signals and slots

Model of `SignalConnection`, `Scoped_connection`, `SlotManager` and `Signal`
(`common/utility/include/SignalConnection.h:11-184`), for one signal whose slots are of any type
`α`.

* A node of the multimap has an address, which an iterator holds. The address of a new node is any
  that no node of the map has, so one that was erased may come back.
* A `ConnectionBase` is known by its number. `m_fnDisconnect` says whether the function is set.
* `ForEach` is not one step: `call` takes the next slot of the copy, and what that slot does are the
  actions up to the next one of its invocation, `invoke` among them. An invocation inside another
  stands in front of it in `running`.
* `invalid` is set by what is undefined: the erasure of an iterator that names no node, and the use
  of a manager that is gone.

`Meaning` says what the operations are for: which slots are connected, and what each invocation is
to call.

Results: the code does that (`signal_laws`).
-/

namespace TiraRdp

open Lib

/-- An element of `TSlotStorage`, with its address. -/
structure SlotNode (α : Type) where
  iter : Nat
  key : Int
  slot : α
  conn : Nat

structure ConnectionBase where
  m_fnDisconnect : Bool
  m_iter : Nat

/-- A `ForEach` that is running: the slots it has called, and those of its copy that are left. -/
structure Invocation (α : Type) where
  called : List α
  slots : List α

/-- A signal, everything that is connected to it, and what it has called. -/
structure Signal (α : Type) where
  m_storage : List (SlotNode α)
  conns : List ConnectionBase
  /-- The `m_conn` of each `Scoped_connection`. -/
  m_conn : Nat → Option Nat
  alive : Bool
  invalid : Bool
  running : List (Invocation α)
  finished : List (List α)

namespace Signal

variable {α : Type}

/-- `Signal()`. -/
def new : Signal α := ⟨[], [], fun _ => none, true, false, [], []⟩

/-- `m_fnDisconnect = nullptr`. -/
def clear (conn : ConnectionBase) : ConnectionBase := { conn with m_fnDisconnect := false }

/-- `SlotManager::disconnect`, through the function of a connection. -/
def erase (s : Signal α) (iter : Nat) : Signal α :=
  if s.alive && s.m_storage.any (fun n => n.iter == iter) then
    { s with m_storage := s.m_storage.filter fun n => n.iter != iter }
  else { s with invalid := true }

/-- `SignalConnection::connected`. -/
def connected (s : Signal α) (c : Nat) : Bool := s.conns[c]?.any ConnectionBase.m_fnDisconnect

/-- `SignalConnection::disconnect`. -/
def disconnect (s : Signal α) (c : Nat) : Signal α :=
  match s.conns[c]? with
  | none => s
  | some conn =>
    if conn.m_fnDisconnect then ({ s with conns := s.conns.modify c clear } : Signal α).erase conn.m_iter else s

/-- `SlotManager::insert`; a multimap puts an element behind those of its key. -/
def insert (s : Signal α) (key : Int) (slot : α) (iter : Nat) : Signal α :=
  let before := s.m_storage.takeWhile fun n => decide (n.key ≤ key)
  let behind := s.m_storage.dropWhile fun n => decide (n.key ≤ key)
  { s with
    m_storage := before ++ ⟨iter, key, slot, s.conns.length⟩ :: behind
    conns := s.conns ++ [⟨true, iter⟩] }

/-- `SignalBase::connect`. -/
def connect (s : Signal α) (callback : α) (iter : Nat) : Signal α := s.insert (-1) callback iter

/-- `Scoped_connection::Disconnect`. -/
def Disconnect (s : Signal α) (i : Nat) : Signal α :=
  match s.m_conn i with
  | none => s
  | some c => s.disconnect c

/-- `~SlotManager`. -/
def destroy (s : Signal α) : Signal α :=
  { s with
    conns := s.m_storage.foldl (fun conns n => conns.modify n.conn clear) s.conns
    m_storage := []
    alive := false }

inductive Action (α : Type) where
  | connect (slot : α) (iter : Nat)
  | disconnect (c : Nat)
  /-- `Scoped_connection::operator=`, or the constructor. -/
  | assign (i c : Nat)
  /-- `~Scoped_connection`, or `Disconnect`. -/
  | release (i : Nat)
  /-- `operator()` up to the copy of `ForEach`. -/
  | invoke
  | call
  | returns
  | destroy

/-- One action. A program does not use a signal that is gone but through connections. -/
def step (s : Signal α) : Action α → Option (Signal α)
  | .connect slot iter =>
    if s.alive && !s.m_storage.any (fun n => n.iter == iter) then some (s.connect slot iter) else none
  | .disconnect c => some (s.disconnect c)
  | .assign i c => some { s.Disconnect i with m_conn := Function.update s.m_conn i (some c) }
  | .release i => some (s.Disconnect i)
  | .invoke =>
    if s.alive then some { s with running := ⟨[], s.m_storage.map SlotNode.slot⟩ :: s.running } else none
  | .call =>
    match s.running with
    | ⟨called, slot :: slots⟩ :: outer =>
      some { s with running := ⟨called ++ [slot], slots⟩ :: outer }
    | _ => none
  | .returns =>
    match s.running with
    | ⟨called, []⟩ :: outer => some { s with running := outer, finished := s.finished ++ [called] }
    | _ => none
  | .destroy => if s.alive then some s.destroy else none

end Signal

/-! ## What the operations are for -/

/-- The slots that are connected, with the numbers of their connections and in their order, what
each running invocation is to call, the innermost first, and what those that have ended were to
call. -/
structure Meaning (α : Type) where
  connected : List (Nat × α)
  made : Nat
  m_conn : Nat → Option Nat
  running : List (List α)
  finished : List (List α)

namespace Meaning

variable {α : Type}

def new : Meaning α := ⟨[], 0, fun _ => none, [], []⟩

/-- Exactly the slot of this connection goes. -/
def disconnect (m : Meaning α) (c : Nat) : Meaning α :=
  { m with connected := m.connected.filter fun slot => slot.1 != c }

def release (m : Meaning α) (i : Nat) : Meaning α :=
  match m.m_conn i with
  | none => m
  | some c => m.disconnect c

def step (m : Meaning α) : Signal.Action α → Meaning α
  | .connect slot _ => { m with connected := m.connected ++ [(m.made, slot)], made := m.made + 1 }
  | .disconnect c => m.disconnect c
  | .assign i c => { m.release i with m_conn := Function.update m.m_conn i (some c) }
  | .release i => m.release i
  | .invoke => { m with running := m.connected.map Prod.snd :: m.running }
  | .call => m
  | .returns => { m with running := m.running.tail, finished := m.finished ++ m.running.take 1 }
  | .destroy => { m with connected := [] }

end Meaning

namespace Signal

variable {α : Type}

/-! ## The connections and the nodes -/

/-- The invariant of the connections: a node and its connection name each other, a connection whose
function is set has a node, and no two nodes are at one address. -/
structure Linked (s : Signal α) : Prop where
  valid : s.invalid = false
  key : ∀ n ∈ s.m_storage, n.key = -1
  iters : (s.m_storage.map SlotNode.iter).Nodup
  linked : ∀ n ∈ s.m_storage, s.conns[n.conn]? = some ⟨true, n.iter⟩
  armed : ∀ c conn, s.conns[c]? = some conn → conn.m_fnDisconnect = true →
    ∃ n ∈ s.m_storage, n.conn = c
  gone : s.alive = false → s.m_storage = []

variable {s : Signal α}

theorem linked_new : Linked (new : Signal α) :=
  ⟨rfl, fun _ h => absurd h List.not_mem_nil, List.nodup_nil, fun _ h => absurd h List.not_mem_nil,
    (fun _ _ h => nomatch h), fun _ => rfl⟩

theorem clear_of_not {conn : ConnectionBase} (h : ¬ conn.m_fnDisconnect = true) :
    clear conn = conn := by
  unfold clear
  rw [← Bool.eq_false_iff.mpr h]

/-- Two nodes at one address are one. -/
theorem Linked.eq_of_iter (h : s.Linked) {n n' : SlotNode α} (hn : n ∈ s.m_storage)
    (hn' : n' ∈ s.m_storage)
    (hiter : n.iter = n'.iter) : n = n' := List.inj_on_of_nodup_map h.iters hn hn' hiter

/-- The iterator of a node stands for its connection. -/
theorem Linked.filter_iter (h : s.Linked) {n : SlotNode α} (hn : n ∈ s.m_storage) :
    (s.m_storage.filter fun n' => n'.iter != n.iter) =
      s.m_storage.filter fun n' => n'.conn != n.conn := by
  refine List.filter_congr fun n' hn' => ?_
  rw [Bool.eq_iff_iff, bne_iff_ne, bne_iff_ne, not_iff_not]
  constructor
  · intro hiter
    rw [h.eq_of_iter hn' hn hiter]
  · intro hc
    have hlinked := h.linked n' hn'
    rw [hc, h.linked n hn] at hlinked
    exact (ConnectionBase.mk.inj (Option.some.inj hlinked)).2.symm

/-- A connection that is not connected has no node. -/
theorem Linked.filter_conn (h : s.Linked) {c : Nat} (hc : s.connected c = false) :
    (s.m_storage.filter fun n => n.conn != c) = s.m_storage := by
  refine List.filter_eq_self.mpr fun n hn => bne_iff_ne.mpr ?_
  rintro rfl
  unfold connected at hc
  rw [h.linked n hn] at hc
  exact Bool.false_ne_true hc.symm

theorem modify_clear {c : Nat} (hc : s.connected c = false) : s.conns.modify c clear = s.conns := by
  unfold connected at hc
  refine List.ext_getElem? fun i => ?_
  by_cases hi : c = i
  · subst hi
    rw [List.getElem?_modify_eq]
    cases hconn : s.conns[c]? with
    | none => rfl
    | some conn =>
      rw [hconn] at hc
      exact congrArg some (clear_of_not (Bool.eq_false_iff.mp hc))
  · rw [List.getElem?_modify_ne clear _ hi]

/-- An iterator of a node is there to be erased. -/
theorem Linked.erase_eq (h : s.Linked) {n : SlotNode α} (hn : n ∈ s.m_storage)
    (conns : List ConnectionBase) :
    ({ s with conns := conns } : Signal α).erase n.iter =
      { s with m_storage := s.m_storage.filter fun n' => n'.conn != n.conn, conns := conns } := by
  have halive : s.alive = true := by
    by_contra hgone
    rw [h.gone (Bool.eq_false_iff.mpr hgone)] at hn
    exact absurd hn List.not_mem_nil
  have hthere : (s.m_storage.any fun n' => n'.iter == n.iter) = true :=
    List.any_eq_true.mpr ⟨n, hn, beq_self_eq_true n.iter⟩
  unfold erase
  dsimp only
  rw [halive, hthere, Bool.and_true, if_pos rfl, h.filter_iter hn, ← halive]

/-- **`disconnect`** takes its own node out and clears its function, if it is still connected;
otherwise there is neither. -/
theorem disconnect_eq (h : s.Linked) (c : Nat) : s.disconnect c = { s with
    m_storage := s.m_storage.filter fun n => n.conn != c
    conns := s.conns.modify c clear } := by
  cases hc : s.connected c with
  | false =>
    rw [h.filter_conn hc, modify_clear hc]
    unfold connected at hc
    unfold disconnect
    cases hconn : s.conns[c]? with
    | none => rfl
    | some conn =>
      rw [hconn] at hc
      exact if_neg (Bool.eq_false_iff.mp hc)
  | true =>
    unfold connected at hc
    unfold disconnect
    cases hconn : s.conns[c]? with
    | none =>
      rw [hconn] at hc
      exact absurd hc Bool.false_ne_true
    | some conn =>
      rw [hconn] at hc
      obtain ⟨n, hn, rfl⟩ := h.armed c conn hconn hc
      obtain rfl := Option.some.inj (hconn.symm.trans (h.linked n hn))
      exact (if_pos hc).trans (h.erase_eq hn _)

/-- The storage is the connected slots, in order: what a program can see of it. -/
def slots (s : Signal α) : List (Nat × α) := s.m_storage.map fun n => (n.conn, n.slot)

theorem slots_disconnect (h : s.Linked) (c : Nat) :
    (s.disconnect c).slots = s.slots.filter fun slot => slot.1 != c := by
  rw [disconnect_eq h, slots, slots, List.filter_map]
  rfl

theorem Linked.disconnect (h : s.Linked) (c : Nat) : (s.disconnect c).Linked := by
  have hsub : (s.m_storage.filter fun n => n.conn != c).Sublist s.m_storage := List.filter_sublist
  rw [disconnect_eq h]
  refine ⟨h.valid, fun n hn => h.key n (hsub.subset hn), (hsub.map SlotNode.iter).nodup h.iters, ?_,
    ?_, ?_⟩
  · intro n hn
    obtain ⟨hmem, hne⟩ := List.mem_filter.mp hn
    rw [List.getElem?_modify_ne clear _ (Ne.symm (bne_iff_ne.mp hne))]
    exact h.linked n hmem
  · intro c' conn hconn harmed
    by_cases hc : c = c'
    · -- its own function is cleared
      rw [← hc, List.getElem?_modify_eq] at hconn
      obtain ⟨conn', -, rfl⟩ := Option.map_eq_some_iff.mp hconn
      exact absurd harmed Bool.false_ne_true
    · rw [List.getElem?_modify_ne clear _ hc] at hconn
      obtain ⟨n, hn, heq⟩ := h.armed c' conn hconn harmed
      exact ⟨n, List.mem_filter.mpr ⟨hn, bne_iff_ne.mpr fun hn' => hc (hn'.symm.trans heq)⟩, heq⟩
  · intro hgone
    rw [h.gone hgone]
    rfl

/-- A slot with the key of all others goes behind them. -/
theorem connect_eq (h : s.Linked) (slot : α) (iter : Nat) : s.connect slot iter = { s with
    m_storage := s.m_storage ++ [⟨iter, -1, slot, s.conns.length⟩]
    conns := s.conns ++ [⟨true, iter⟩] } := by
  have hall : ∀ n ∈ s.m_storage, decide (n.key ≤ -1) = true := fun n hn =>
    decide_eq_true (Int.le_of_eq (h.key n hn))
  unfold connect insert
  dsimp only
  rw [List.takeWhile_eq_self_iff.mpr hall, List.dropWhile_eq_nil_iff.mpr hall]

theorem Linked.connect (h : s.Linked) (halive : s.alive = true) (slot : α) {iter : Nat}
    (hfresh : iter ∉ s.m_storage.map SlotNode.iter) : (s.connect slot iter).Linked := by
  have hconn (n : SlotNode α) (hn : n ∈ s.m_storage) : n.conn < s.conns.length :=
    (List.getElem?_eq_some_iff.mp (h.linked n hn)).1
  rw [connect_eq h]
  refine ⟨h.valid, ?_, ?_, ?_, ?_, fun hgone => absurd (halive.symm.trans hgone) Bool.false_ne_true.symm⟩
  · intro n hn
    rcases List.mem_append.mp hn with hold | hnew
    · exact h.key n hold
    · rw [List.mem_singleton.mp hnew]
  · rw [List.map_append, List.map_singleton]
    exact List.nodup_append_comm.mpr (List.nodup_cons.mpr ⟨hfresh, h.iters⟩)
  · intro n hn
    rcases List.mem_append.mp hn with hold | hnew
    · rw [List.getElem?_append_left (hconn n hold)]
      exact h.linked n hold
    · rw [List.mem_singleton.mp hnew, List.getElem?_concat_length]
  · intro c conn hc harmed
    by_cases hlt : c < s.conns.length
    · rw [List.getElem?_append_left hlt] at hc
      obtain ⟨n, hn, heq⟩ := h.armed c conn hc harmed
      exact ⟨n, List.mem_append_left _ hn, heq⟩
    · have hle : c < s.conns.length + 1 := by
        have hlen := (List.getElem?_eq_some_iff.mp hc).1
        rwa [List.length_append, List.length_singleton] at hlen
      have heq : s.conns.length = c := Nat.le_antisymm (Nat.not_lt.mp hlt) (Nat.le_of_lt_succ hle)
      exact ⟨_, List.mem_append_right _ (List.mem_singleton_self _), heq⟩

/-- `~SlotManager` clears the function of every connection that has a node. -/
theorem getElem?_clearAll {nodes : List (SlotNode α)} : ∀ {conns : List ConnectionBase} {c : Nat}
    {conn : ConnectionBase},
    (nodes.foldl (fun conns n => conns.modify n.conn clear) conns)[c]? = some conn →
      ∃ conn', conns[c]? = some conn' ∧ (conn.m_fnDisconnect = true →
        conn'.m_fnDisconnect = true ∧ ∀ n ∈ nodes, n.conn ≠ c) := by
  induction nodes with
  | nil => exact fun h => ⟨_, h, fun harmed => ⟨harmed, fun _ hn => absurd hn List.not_mem_nil⟩⟩
  | cons n nodes ih =>
    intro conns c conn h
    obtain ⟨conn', hconn, harmed⟩ := ih h
    by_cases hc : n.conn = c
    · rw [← hc, List.getElem?_modify_eq] at hconn
      obtain ⟨conn'', hconn', rfl⟩ := Option.map_eq_some_iff.mp hconn
      exact ⟨conn'', hc ▸ hconn', fun h => absurd (harmed h).1 Bool.false_ne_true⟩
    · rw [List.getElem?_modify_ne clear _ hc] at hconn
      exact ⟨conn', hconn, fun h => ⟨(harmed h).1, List.forall_mem_cons.mpr ⟨hc, (harmed h).2⟩⟩⟩

theorem length_clearAll (nodes : List (SlotNode α)) (conns : List ConnectionBase) :
    (nodes.foldl (fun conns n => conns.modify n.conn clear) conns).length = conns.length := by
  induction nodes generalizing conns with
  | nil => rfl
  | cons n nodes ih => rw [List.foldl_cons, ih, List.length_modify]

theorem Linked.destroy (h : s.Linked) : s.destroy.Linked := by
  refine ⟨h.valid, fun _ hn => absurd hn List.not_mem_nil, List.nodup_nil,
    fun _ hn => absurd hn List.not_mem_nil, ?_, fun _ => rfl⟩
  intro c conn hconn harmed
  obtain ⟨conn', hconn', hkept⟩ := getElem?_clearAll hconn
  obtain ⟨harmed', hnode⟩ := hkept harmed
  -- the connection had a node, and was cleared with it
  obtain ⟨n, hn, heq⟩ := h.armed c conn' hconn' harmed'
  exact absurd heq (hnode n hn)

/-- Where the signal is gone no connection has its function. -/
theorem disconnect_of_gone (h : s.Linked) (hgone : s.alive = false) (c : Nat) :
    s.disconnect c = s := by
  unfold Signal.disconnect
  cases hconn : s.conns[c]? with
  | none => rfl
  | some conn =>
    dsimp only
    rw [if_neg fun harmed => ?_]
    obtain ⟨n, hn, -⟩ := h.armed c conn hconn harmed
    rw [h.gone hgone] at hn
    exact absurd hn List.not_mem_nil

theorem disconnect_disconnect (h : s.Linked) (c : Nat) :
    (s.disconnect c).disconnect c = s.disconnect c := by
  have hcleared : ∀ conn, (s.conns.modify c clear)[c]? = some conn →
      ¬ conn.m_fnDisconnect = true := by
    intro conn hconn
    rw [List.getElem?_modify_eq] at hconn
    obtain ⟨conn', -, rfl⟩ := Option.map_eq_some_iff.mp hconn
    exact Bool.false_ne_true
  rw [disconnect_eq h]
  conv_lhs => unfold Signal.disconnect
  dsimp only
  cases hconn : (s.conns.modify c clear)[c]? with
  | none => rfl
  | some conn =>
    dsimp only
    rw [if_neg (hcleared conn hconn)]

theorem connected_iff (h : s.Linked) (c : Nat) :
    s.connected c = true ↔ c ∈ s.slots.map Prod.fst := by
  rw [connected, Option.any_eq_true, slots, List.map_map, List.mem_map]
  constructor
  · rintro ⟨conn, hconn, harmed⟩
    obtain ⟨n, hn, heq⟩ := h.armed c conn hconn harmed
    exact ⟨n, hn, heq⟩
  · rintro ⟨n, hn, rfl⟩
    exact ⟨⟨true, n.iter⟩, h.linked n hn, rfl⟩

/-! ## The code and its meaning -/

/-- The code is in a state that its operations mean. -/
structure Means (s : Signal α) (m : Meaning α) : Prop where
  linked : s.Linked
  slots : s.slots = m.connected
  made : s.conns.length = m.made
  m_conn : s.m_conn = m.m_conn
  running : (s.running.map fun invocation => invocation.called ++ invocation.slots) = m.running
  finished : s.finished = m.finished

variable {m : Meaning α} {t : Signal α} {a : Action α}

theorem Means.disconnect (h : s.Means m) (c : Nat) : (s.disconnect c).Means (m.disconnect c) := by
  have heq := disconnect_eq h.linked c
  refine ⟨h.linked.disconnect c, ?_, ?_, ?_, ?_, ?_⟩
  · rw [slots_disconnect h.linked, h.slots]
    rfl
  · rw [heq]
    exact (List.length_modify clear s.conns c).trans h.made
  · rw [heq]
    exact h.m_conn
  · rw [heq]
    exact h.running
  · rw [heq]
    exact h.finished

theorem Means.release (h : s.Means m) (i : Nat) : (s.Disconnect i).Means (m.release i) := by
  unfold Signal.Disconnect Meaning.release
  rw [h.m_conn]
  cases m.m_conn i with
  | none => exact h
  | some c => exact h.disconnect c

theorem Means.connect (h : s.Means m) (halive : s.alive = true) (slot : α) {iter : Nat}
    (hfresh : iter ∉ s.m_storage.map SlotNode.iter) :
    (s.connect slot iter).Means (m.step (.connect slot iter)) := by
  have heq := connect_eq h.linked slot iter
  refine ⟨h.linked.connect halive slot hfresh, ?_, ?_, ?_, ?_, ?_⟩
  · have hslots := h.slots
    rw [Signal.slots] at hslots
    rw [heq, Signal.slots, List.map_append, List.map_singleton]
    rw [hslots, h.made]
    rfl
  · rw [heq]
    exact (List.length_append.trans (congrArg (· + 1) h.made))
  · rw [heq]
    exact h.m_conn
  · rw [heq]
    exact h.running
  · rw [heq]
    exact h.finished

/-- The connections do not depend on what runs. -/
theorem Linked.same (h : s.Linked) (m_conn : Nat → Option Nat) (running : List (Invocation α))
    (finished : List (List α)) :
    Linked { s with m_conn := m_conn, running := running, finished := finished } :=
  ⟨h.valid, h.key, h.iters, h.linked, h.armed, h.gone⟩

/-- **One action.** -/
theorem Means.step (h : s.Means m) (hstep : s.step a = some t) : t.Means (m.step a) := by
  have hrunning := h.running
  cases a with
  | connect slot iter =>
    obtain ⟨hcond, hstep⟩ := Option.ite_none_right_eq_some.mp hstep
    obtain rfl := Option.some.inj hstep
    obtain ⟨halive, hfresh⟩ := Bool.and_eq_true_iff.mp hcond
    refine h.connect halive slot fun hmem => ?_
    obtain ⟨n, hn, heq⟩ := List.mem_map.mp hmem
    have hthere : (s.m_storage.any fun n => n.iter == iter) = true :=
      List.any_eq_true.mpr ⟨n, hn, beq_iff_eq.mpr heq⟩
    rw [hthere] at hfresh
    exact Bool.false_ne_true hfresh
  | disconnect c =>
    obtain rfl := Option.some.inj hstep
    exact h.disconnect c
  | assign i c =>
    obtain rfl := Option.some.inj hstep
    have hreleased := h.release i
    exact ⟨hreleased.linked.same _ _ _, hreleased.slots, hreleased.made,
      congrArg (Function.update · i (some c)) h.m_conn, hreleased.running, hreleased.finished⟩
  | release i =>
    obtain rfl := Option.some.inj hstep
    exact h.release i
  | invoke =>
    obtain ⟨-, hstep⟩ := Option.ite_none_right_eq_some.mp hstep
    obtain rfl := Option.some.inj hstep
    refine ⟨h.linked.same _ _ _, h.slots, h.made, h.m_conn, ?_, h.finished⟩
    have hcopy : s.m_storage.map SlotNode.slot = m.connected.map Prod.snd := by
      rw [← h.slots, Signal.slots, List.map_map]
      rfl
    rw [List.map_cons, hrunning, List.nil_append, hcopy]
    rfl
  | call =>
    rcases hinner : s.running with _ | ⟨⟨called, _ | ⟨slot, left⟩⟩, outer⟩
    · simp only [Signal.step, hinner, reduceCtorEq] at hstep
    · simp only [Signal.step, hinner, reduceCtorEq] at hstep
    · simp only [Signal.step, hinner] at hstep
      obtain rfl := Option.some.inj hstep
      refine ⟨h.linked.same _ _ _, h.slots, h.made, h.m_conn, ?_, h.finished⟩
      rw [hinner, List.map_cons] at hrunning
      rw [List.map_cons, List.append_assoc]
      exact hrunning
  | returns =>
    rcases hinner : s.running with _ | ⟨⟨called, _ | ⟨slot, left⟩⟩, outer⟩
    · simp only [Signal.step, hinner, reduceCtorEq] at hstep
    · simp only [Signal.step, hinner] at hstep
      obtain rfl := Option.some.inj hstep
      rw [hinner, List.map_cons, List.append_nil] at hrunning
      refine ⟨h.linked.same _ _ _, h.slots, h.made, h.m_conn, ?_, ?_⟩
      · rw [Meaning.step, ← hrunning]
        rfl
      · rw [Meaning.step, ← hrunning, ← h.finished]
        rfl
    · simp only [Signal.step, hinner, reduceCtorEq] at hstep
  | destroy =>
    obtain ⟨-, hstep⟩ := Option.ite_none_right_eq_some.mp hstep
    obtain rfl := Option.some.inj hstep
    exact ⟨h.linked.destroy, rfl, (length_clearAll s.m_storage s.conns).trans h.made, h.m_conn,
      hrunning, h.finished⟩

/-- The laws of a signal whose operations mean `m`. -/
structure Laws (s : Signal α) (m : Meaning α) : Prop where
  /-- No iterator is used that names no node, and no manager that is gone. -/
  valid : s.invalid = false
  connected : s.slots = m.connected
  connected_iff : ∀ c, s.connected c = true ↔ c ∈ m.connected.map Prod.fst
  /-- A running invocation has called the first of the slots it is to call, and the others are
  left. -/
  running : (s.running.map fun invocation => invocation.called ++ invocation.slots) = m.running
  /-- One that has ended called all of them, once each and in order. -/
  finished : s.finished = m.finished
  /-- A disconnection takes its own slot out and no other, -/
  own : ∀ c, (s.disconnect c).slots = s.slots.filter fun slot => slot.1 != c
  /-- a second one nothing more, -/
  idempotent : ∀ c, (s.disconnect c).disconnect c = s.disconnect c
  /-- and nothing happens when the signal is gone. -/
  gone : s.alive = false → ∀ c, s.disconnect c = s

theorem Means.laws (h : s.Means m) : s.Laws m where
  valid := h.linked.valid
  connected := h.slots
  connected_iff c := by rw [Signal.connected_iff h.linked, h.slots]
  running := h.running
  finished := h.finished
  own := slots_disconnect h.linked
  idempotent := disconnect_disconnect h.linked
  gone := disconnect_of_gone h.linked

/-- An action of the program, and what it means. -/
def stepBoth (both : Signal α × Meaning α) (a : Action α) : Option (Signal α × Meaning α) :=
  (both.1.step a).map fun s => (s, both.2.step a)

theorem means_new : (new : Signal α).Means .new := ⟨linked_new, rfl, rfl, rfl, rfl, rfl⟩

/-- **The laws hold** after any actions, in whatever order and nested in whatever way. -/
theorem signal_laws (actions : List (Action α)) :
    Lts.Along stepBoth (fun both => Laws both.1 both.2) ((new : Signal α), (.new : Meaning α)) actions := by
  refine Lts.along_of_invariant (I := fun both : Signal α × Meaning α => both.1.Means both.2)
    (p := fun _ => True) (fun _ h => h.laws) ?_ means_new fun _ _ => trivial
  rintro both a both' hmeans - hstep
  obtain ⟨t, ht, rfl⟩ := Option.map_eq_some_iff.mp hstep
  exact hmeans.step ht

/-- A slot that is disconnected by the one before it is still called, and not the next time. -/
example : (Lts.run step (new : Signal Nat) [.connect 7 0, .connect 8 1, .invoke, .call, .disconnect 1, .call,
    .returns, .invoke, .call, .returns]).map Signal.finished = some [[7, 8], [7]] := by decide

end Signal

end TiraRdp
