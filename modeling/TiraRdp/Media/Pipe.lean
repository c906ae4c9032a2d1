import Mathlib.Logic.Function.Basic
import TiraRdp.Lib.Lts

/-!
# `Pipe`: the bounded queue between two components

Model of `common/media/Pipe.cpp`. The queue, the flag and the bound (`Pipe`), and the system of any
number of threads (`τ`) in `Push`, `Pop` and `Cancel` of one pipe (`PipeThreads`). A call is two
steps: the thread comes to the wait, and behind the wait it goes on, both under `_mutex`. The wait
may end whenever its predicate is true, notified or not. `Cancel` is one step.

The predicates are true of a cancelled pipe whatever it holds, and the code behind the waits does
not look again. `front` of an empty queue is undefined; the model stops there (`undefined`). Ghost
fields: what was pushed, and what was popped, in order.

Results: the pipe is safe in every state of a run iff no thread that goes on in a cancelled pipe
finds the queue full in `Push`, or empty in `Pop` (`safe_iff_room`); without `Cancel` it is safe
(`safe_of_not_cancelled`).
-/

namespace TiraRdp

open Lib.Lts

structure Pipe (α : Type) where
  _queue : List α
  _cancelled : Bool
  _size : Nat

namespace Pipe

variable {α : Type}

def new (size : Nat) : Pipe α := ⟨[], false, size⟩

/-- The predicate of the wait in `Push`. -/
def mayPush (p : Pipe α) : Bool := p._cancelled || decide (p._queue.length < p._size)

/-- The predicate of the wait in `Pop`. -/
def mayPop (p : Pipe α) : Bool := p._cancelled || !p._queue.isEmpty

/-- `Push`, behind its wait. -/
def push (p : Pipe α) (stream : α) : Pipe α := { p with _queue := p._queue ++ [stream] }

/-- `Pop`, behind its wait; `none` when the queue has no front. -/
def pop (p : Pipe α) : Option (α × Pipe α) :=
  match p._queue with
  | [] => none
  | stream :: queue => some (stream, { p with _queue := queue })

def Cancel (p : Pipe α) : Pipe α := { p with _cancelled := true }

theorem pop_eq {p p' : Pipe α} {stream : α} (h : p.pop = some (stream, p')) :
    p._queue = stream :: p'._queue ∧ p'._cancelled = p._cancelled ∧ p'._size = p._size := by
  unfold pop at h
  cases hq : p._queue with
  | nil => simp [hq] at h
  | cons x queue =>
    simp only [hq, Option.some.injEq, Prod.mk.injEq] at h
    obtain ⟨rfl, rfl⟩ := h
    exact ⟨rfl, rfl, rfl⟩

theorem pop_eq_none {p : Pipe α} : p.pop = none ↔ p._queue = [] := by
  unfold pop
  cases p._queue with
  | nil => simp
  | cons x queue => simp

end Pipe

/-- Where a thread is. -/
inductive PipePc (α : Type) where
  | outside
  /-- in the wait of `Push` -/
  | pushing (stream : α)
  /-- in the wait of `Pop` -/
  | popping
  deriving DecidableEq

structure PipeThreads (τ α : Type) where
  pipe : Pipe α
  pc : τ → PipePc α
  /-- `front` of an empty queue was read -/
  undefined : Bool
  pushed : List α
  popped : List α

namespace PipeThreads

variable {τ α : Type} [DecidableEq τ]

/-- A new pipe, and no thread in a call. -/
def initial (size : Nat) : PipeThreads τ α := ⟨Pipe.new size, fun _ => .outside, false, [], []⟩

inductive Action (τ α : Type) where
  | push (t : τ) (stream : α)
  | pop (t : τ)
  | cancel
  /-- the wait of `t` ends -/
  | proceed (t : τ)

/-- What a thread does behind its wait. -/
def proceed (s : PipeThreads τ α) (t : τ) : Option (PipeThreads τ α) :=
  match s.pc t with
  | .outside => none
  | .pushing stream =>
    if s.pipe.mayPush then
      some { s with
        pipe := s.pipe.push stream
        pc := Function.update s.pc t .outside
        pushed := s.pushed ++ [stream] }
    else none
  | .popping =>
    if s.pipe.mayPop then
      match s.pipe.pop with
      | none => some { s with undefined := true }
      | some (stream, pipe) =>
        some { s with
          pipe := pipe
          pc := Function.update s.pc t .outside
          popped := s.popped ++ [stream] }
    else none

def step (s : PipeThreads τ α) (a : Action τ α) : Option (PipeThreads τ α) :=
  if s.undefined then none
  else
    match a with
    | .push t stream =>
      match s.pc t with
      | .outside => some { s with pc := Function.update s.pc t (.pushing stream) }
      | _ => none
    | .pop t =>
      match s.pc t with
      | .outside => some { s with pc := Function.update s.pc t .popping }
      | _ => none
    | .cancel => some { s with pipe := s.pipe.Cancel }
    | .proceed t => s.proceed t

/-- What a step can be. -/
inductive Moves (s : PipeThreads τ α) : Action τ α → PipeThreads τ α → Prop
  | push (t : τ) (stream : α) :
    Moves s (.push t stream) { s with pc := Function.update s.pc t (.pushing stream) }
  | pop (t : τ) : Moves s (.pop t) { s with pc := Function.update s.pc t .popping }
  | cancel : Moves s .cancel { s with pipe := s.pipe.Cancel }
  | pushes (t : τ) (stream : α) (hpc : s.pc t = .pushing stream) (hmay : s.pipe.mayPush = true) :
    Moves s (.proceed t) { s with
      pipe := s.pipe.push stream
      pc := Function.update s.pc t .outside
      pushed := s.pushed ++ [stream] }
  | pops (t : τ) (stream : α) (pipe : Pipe α) (hpc : s.pc t = .popping)
      (hpop : s.pipe.pop = some (stream, pipe)) :
    Moves s (.proceed t) { s with
      pipe := pipe
      pc := Function.update s.pc t .outside
      popped := s.popped ++ [stream] }
  | noFront (t : τ) (hpc : s.pc t = .popping) (hmay : s.pipe.mayPop = true)
      (hpop : s.pipe.pop = none) :
    Moves s (.proceed t) { s with undefined := true }

theorem step_moves {s s' : PipeThreads τ α} {a : Action τ α} (hs : step s a = some s') :
    Moves s a s' := by
  unfold step at hs
  rw [Option.ite_none_left_eq_some] at hs
  obtain ⟨-, hs⟩ := hs
  cases a with
  | push t stream =>
    cases hpc : s.pc t with
    | outside =>
      simp only [hpc, Option.some.injEq] at hs
      exact hs ▸ .push t stream
    | _ => simp [hpc] at hs
  | pop t =>
    cases hpc : s.pc t with
    | outside =>
      simp only [hpc, Option.some.injEq] at hs
      exact hs ▸ .pop t
    | _ => simp [hpc] at hs
  | cancel => exact Option.some.inj hs ▸ .cancel
  | proceed t =>
    unfold PipeThreads.proceed at hs
    cases hpc : s.pc t with
    | outside => simp [hpc] at hs
    | pushing stream =>
      simp only [hpc, Option.ite_none_right_eq_some, Option.some.injEq] at hs
      exact hs.2 ▸ .pushes t stream hpc hs.1
    | popping =>
      simp only [hpc, Option.ite_none_right_eq_some] at hs
      obtain ⟨hmay, hs⟩ := hs
      cases hpop : s.pipe.pop with
      | none =>
        simp only [hpop, Option.some.injEq] at hs
        exact hs ▸ .noFront t hpc hmay hpop
      | some r =>
        obtain ⟨stream, pipe⟩ := r
        simp only [hpop, Option.some.injEq] at hs
        exact hs ▸ .pops t stream pipe hpc hpop

/-- Items leave in the order they came, each once; the bound is kept; no front of nothing was
read. -/
structure Safe (s : PipeThreads τ α) : Prop where
  fifo : s.popped ++ s.pipe._queue = s.pushed
  bounded : s.pipe._queue.length ≤ s.pipe._size
  defined : s.undefined = false

/-- Room for what a thread in `Push` brings; an item for one in `Pop`. -/
def Room (p : Pipe α) : PipePc α → Prop
  | .outside => True
  | .pushing _ => p._queue.length < p._size
  | .popping => p._queue ≠ []

/-- A thread that goes on in a cancelled pipe finds room in `Push`, and an item in `Pop`. -/
def FindsRoom (s : PipeThreads τ α) : Action τ α → Prop
  | .proceed t => s.pipe._cancelled = true → Room s.pipe (s.pc t)
  | _ => True

instance [DecidableEq α] (p : Pipe α) : DecidablePred (Room p)
  | .outside => .isTrue trivial
  | .pushing _ => inferInstanceAs (Decidable (_ < _))
  | .popping => inferInstanceAs (Decidable (_ ≠ []))

instance [DecidableEq α] (s : PipeThreads τ α) : DecidablePred s.FindsRoom
  | .proceed t => inferInstanceAs (Decidable (_ → Room s.pipe (s.pc t)))
  | .push _ _ | .pop _ | .cancel => .isTrue trivial

variable {s s' : PipeThreads τ α} {t : τ} {a : Action τ α}

omit [DecidableEq τ] in
theorem Safe.initial (size : Nat) : Safe (initial size : PipeThreads τ α) :=
  ⟨rfl, Nat.zero_le _, rfl⟩

omit [DecidableEq τ] in
/-- Behind the wait of `Push` there is room, unless the pipe was cancelled. -/
theorem room_of_mayPush {stream : α} (hpc : s.pc t = .pushing stream)
    (hroom : s.FindsRoom (.proceed t)) (hmay : s.pipe.mayPush = true) :
    s.pipe._queue.length < s.pipe._size := by
  unfold Pipe.mayPush at hmay
  cases hc : s.pipe._cancelled with
  | true =>
    have hroom := hroom hc
    rwa [hpc] at hroom
  | false => simpa [hc] using hmay

omit [DecidableEq τ] in
/-- Behind the wait of `Pop` there is an item, unless the pipe was cancelled. -/
theorem item_of_mayPop (hpc : s.pc t = .popping) (hroom : s.FindsRoom (.proceed t))
    (hmay : s.pipe.mayPop = true) : s.pipe._queue ≠ [] := by
  unfold Pipe.mayPop at hmay
  cases hc : s.pipe._cancelled with
  | true =>
    have hroom := hroom hc
    rwa [hpc] at hroom
  | false => simpa [hc] using hmay

theorem Safe.step (h : Safe s) (hroom : s.FindsRoom a) (hs : step s a = some s') : Safe s' := by
  obtain ⟨hfifo, hbounded, hdefined⟩ := h
  cases step_moves hs with
  | push => exact ⟨hfifo, hbounded, hdefined⟩
  | pop => exact ⟨hfifo, hbounded, hdefined⟩
  | cancel => exact ⟨hfifo, hbounded, hdefined⟩
  | pushes t stream hpc hmay =>
    refine ⟨?_, ?_, hdefined⟩
    · rw [← hfifo, Pipe.push, List.append_assoc]
    · rw [Pipe.push, List.length_append, List.length_singleton]
      exact room_of_mayPush hpc hroom hmay
  | pops t stream pipe hpc hpop =>
    obtain ⟨hqueue, -, hsize⟩ := Pipe.pop_eq hpop
    rw [hqueue] at hfifo hbounded
    refine ⟨?_, ?_, hdefined⟩
    · rw [← hfifo, List.append_assoc, List.singleton_append]
    · rw [hsize]
      exact Nat.le_of_succ_le hbounded
  | noFront t hpc hmay hpop =>
    exact absurd (Pipe.pop_eq_none.mp hpop) (item_of_mayPop hpc hroom hmay)

/-- A thread that goes on without room breaks the bound, or reads the front of nothing. -/
theorem not_safe_of_no_room (hroom : ¬ s.FindsRoom a) (hs : s.step a = some s') : ¬ Safe s' := by
  intro hsafe
  cases step_moves hs with
  | pushes t stream hpc =>
    refine hroom fun _ => ?_
    have hbounded := hsafe.bounded
    rw [Pipe.push, List.length_append, List.length_singleton] at hbounded
    rw [hpc]
    exact hbounded
  | pops t stream pipe hpc hpop =>
    refine hroom fun _ => ?_
    rw [hpc, Room, (Pipe.pop_eq hpop).1]
    exact List.cons_ne_nil _ _
  | noFront => cases hsafe.defined
  | _ => exact hroom trivial

/-- **The pipe is safe** in every state of a run exactly when no thread goes on after `Cancel` into
a full queue, or to the front of an empty one. -/
theorem safe_iff_room (size : Nat) (as : List (Action τ α)) (s : PipeThreads τ α)
    (hrun : run step (initial size) as = some s) :
    Meets step FindsRoom (initial size) as ↔ Along step Safe (initial size) as :=
  meets_iff_along (I := Safe) (p := fun _ => True) (fun _ h => h)
    (fun _ _ _ h _ hroom hs => h.step hroom hs)
    (fun _ _ _ _ _ hroom hs => not_safe_of_no_room hroom hs) (Safe.initial size)
    (fun _ _ => trivial) hrun

omit [DecidableEq τ] in
theorem not_cancelled_initial (size : Nat) :
    (initial size : PipeThreads τ α).pipe._cancelled = false :=
  rfl

/-- Only `Cancel` cancels. -/
theorem not_cancelled_step (h : s.pipe._cancelled = false) (ha : a ≠ .cancel)
    (hs : step s a = some s') : s'.pipe._cancelled = false := by
  cases step_moves hs with
  | cancel => exact absurd rfl ha
  | pops t stream pipe hpc hpop => rw [(Pipe.pop_eq hpop).2.1, h]
  | _ => exact h

/-- Without `Cancel` the pipe is safe. -/
theorem safe_of_not_cancelled (size : Nat) (as : List (Action τ α)) (hno : ∀ a ∈ as, a ≠ .cancel) :
    Along step Safe (initial size) as := by
  refine along_of_invariant (I := fun s => Safe s ∧ s.pipe._cancelled = false)
    (fun _ h => h.1) ?_ ⟨Safe.initial size, not_cancelled_initial size⟩ hno
  rintro s a s' ⟨hsafe, hnc⟩ ha hs
  refine ⟨hsafe.step ?_ hs, not_cancelled_step hnc ha hs⟩
  cases a with
  | proceed t => exact fun hc => absurd (hnc.symm.trans hc) Bool.false_ne_true
  | _ => trivial

/-- Two items in the order they came, and `Cancel` while nobody waits. -/
def cancelledAfterUse : List (Action Bool Nat) :=
  [.push false 1, .proceed false, .pop true, .proceed true, .push false 2, .proceed false, .cancel,
    .pop true, .proceed true]

theorem safe_iff_room_used :
    (run step (initial 1) cancelledAfterUse).isSome = true ∧
      Along step Safe (initial 1) cancelledAfterUse := by
  have hsome : (run step (initial 1) cancelledAfterUse).isSome = true := by decide
  obtain ⟨s, hs⟩ := Option.isSome_iff_exists.mp hsome
  exact ⟨hsome, (safe_iff_room 1 cancelledAfterUse s hs).mp (by decide)⟩

/-- Released by `Cancel`, a waiting `Push` puts a second item into a pipe of one, and a waiting
`Pop` reads the front of an empty queue. -/
theorem cancelled_pipe_unsafe :
    ¬ ∀ (size : Nat), 1 ≤ size →
      ∀ as : List (Action Bool Nat), Along step Safe (initial size) as := by
  intro h
  have hpop := h 1 (Nat.le_refl 1) [.pop true, .cancel, .proceed true]
  have hsafe : Safe ({
      pipe := (Pipe.new 1).Cancel
      pc := Function.update (fun _ => .outside) true .popping
      undefined := true
      pushed := []
      popped := [] } : PipeThreads Bool Nat) := hpop.2 _ rfl |>.2 _ rfl |>.2 _ rfl
  cases hsafe.defined

end PipeThreads

end TiraRdp
