import Mathlib.Logic.Function.Basic
import TiraRdp.Lib.Locks
import TiraRdp.Lib.Lts

/-!
# `WaitingQueue`

`Deque`, `Enque` and `CancelWaiting` of `common/utility/include/WaitingQueue.h:18-53` as a system of
any number of threads (`π`) over elements of any type (`α`). Taking `m_Mutex`, the evaluation of the
predicate of the wait, what is done under the mutex, a notification, and the end of a scope are a
step each. `m_CV` is who waits on it, and `notify_one` wakes up any one of them; a thread may also
wake up by itself. A thread that has been woken up has to take the mutex again before it evaluates
its predicate.

Ghost fields: what has been pushed; what each call of `Deque` has come to, in the order in which
they have ended; whether the front of an empty queue was taken.

Results:
* `waiting_queue_laws`: in every state, what was returned, what is about to be, and what is in the
  queue are together what was pushed, in its order; once `m_IsUnblock` is set, every `Deque` throws
  and none takes an element; while a thread waits, every element has a thread on the way to it, or a
  notification.
* `Invariant.can_throw`: nothing keeps a `Deque` of a cancelled queue from its exception.
-/

namespace TiraRdp

open Lib Lib.Lts Lib.Locks

inductive QueueCall (α : Type) where
  | Deque
  | Enque (obj : α)
  | CancelWaiting
  deriving Repr, DecidableEq

/-- How a call of `Deque` ends. -/
inductive DequeResult (α : Type) where
  | returned (obj : α)
  | thrown
  deriving Repr, DecidableEq

/-- Where a thread is in a call. -/
inductive QueuePc (α : Type) where
  | outside
  /-- at `m_Mutex` -/
  | enter (call : QueueCall α)
  /-- `Deque` under `m_Mutex`, about to evaluate the predicate of its wait -/
  | test
  /-- `Deque` in `m_CV` -/
  | waiting
  /-- `Deque`, woken up, at `m_Mutex` -/
  | woken
  /-- `Deque` under `m_Mutex`, behind its wait -/
  | take
  /-- `Enque` under `m_Mutex` -/
  | push (obj : α)
  | notify_one
  /-- `CancelWaiting` under `m_Mutex` -/
  | cancel
  | notify_all
  /-- under `m_Mutex`, at the end of the scope; with what a `Deque` has come to -/
  | leave (result : Option (DequeResult α))
  deriving Repr, DecidableEq

variable {π α : Type}

def QueueCall.first : QueueCall α → QueuePc α
  | .Deque => .test
  | .Enque obj => .push obj
  | .CancelWaiting => .cancel

namespace QueuePc

def underMutex : QueuePc α → Bool
  | .outside => false
  | .enter _ => false
  | .waiting => false
  | .woken => false
  | _ => true

/-- On the way to an element, or about to send somebody there. -/
def awake : QueuePc α → Bool
  | .test => true
  | .woken => true
  | .take => true
  | .notify_one => true
  | _ => false

/-- In a call of `Deque` that has not got an element. -/
def inDeque : QueuePc α → Bool
  | .enter .Deque => true
  | .test => true
  | .waiting => true
  | .woken => true
  | .take => true
  | .leave (some .thrown) => true
  | _ => false

/-- The element that a call of `Deque` is about to return. -/
def carried : QueuePc α → List α
  | .leave (some (.returned obj)) => [obj]
  | _ => []

end QueuePc

structure WaitingQueue (π α : Type) where
  m_InternalQueue : List α
  m_Mutex : Option π
  m_CV : List π
  m_IsUnblock : Bool
  pc : π → QueuePc α
  pushed : List α
  results : List (π × DequeResult α)
  invalid : Bool

namespace WaitingQueue

def new : WaitingQueue π α where
  m_InternalQueue := []
  m_Mutex := none
  m_CV := []
  m_IsUnblock := false
  pc _ := .outside
  pushed := []
  results := []
  invalid := false

inductive Action (π α : Type) where
  | call (p : π) (call : QueueCall α)
  /-- the next step of a thread in a call -/
  | thread (p : π)
  /-- `notify_one` of thread `p` wakes up thread `q` -/
  | notify (p q : π)
  /-- thread `q` wakes up by itself -/
  | wake (q : π)
  deriving Repr, DecidableEq

variable [DecidableEq π]

/-- Thread `p` goes on at `pc`. -/
def goto (s : WaitingQueue π α) (p : π) (pc : QueuePc α) : WaitingQueue π α :=
  { s with pc := Function.update s.pc p pc }

/-- Thread `q` is woken up. -/
def wakeUp (s : WaitingQueue π α) (q : π) : WaitingQueue π α :=
  { s.goto q .woken with m_CV := s.m_CV.erase q }

/-- Everybody is woken up. -/
def wakeUpAll (s : WaitingQueue π α) : WaitingQueue π α :=
  { s with pc := fun q => if q ∈ s.m_CV then .woken else s.pc q, m_CV := [] }

/-- The next step of a thread in a call; `none` while it waits. -/
def threadStep (s : WaitingQueue π α) (p : π) : Option (WaitingQueue π α) :=
  match s.pc p with
  | .outside => none
  | .enter call =>
    match s.m_Mutex with
    | some _ => none
    | none => some { s.goto p call.first with m_Mutex := some p }
  | .test =>
    if s.m_IsUnblock || !s.m_InternalQueue.isEmpty then some (s.goto p .take)
    else some { s.goto p .waiting with m_Mutex := none, m_CV := s.m_CV ++ [p] }
  | .waiting => none
  | .woken =>
    match s.m_Mutex with
    | some _ => none
    | none => some { s.goto p .test with m_Mutex := some p }
  | .take =>
    if s.m_IsUnblock then some (s.goto p (.leave (some .thrown)))
    else
      match s.m_InternalQueue with
      | [] => some { s.goto p (.leave none) with invalid := true }
      | ret :: rest =>
        some { s.goto p (.leave (some (.returned ret))) with m_InternalQueue := rest }
  | .push obj =>
    some { s.goto p .notify_one with
      m_InternalQueue := s.m_InternalQueue ++ [obj]
      pushed := s.pushed ++ [obj] }
  | .notify_one =>
    -- whom it wakes up is chosen by the action
    if s.m_CV = [] then some (s.goto p (.leave none)) else none
  | .cancel => some { s.goto p .notify_all with m_IsUnblock := true }
  | .notify_all => some (s.wakeUpAll.goto p (.leave none))
  | .leave result =>
    some { s.goto p .outside with
      m_Mutex := none
      results := s.results ++ (result.map fun r => (p, r)).toList }

def step (s : WaitingQueue π α) : Action π α → Option (WaitingQueue π α)
  | .call p call =>
    match s.pc p with
    | .outside => some (s.goto p (.enter call))
    | _ => none
  | .thread p => s.threadStep p
  | .notify p q =>
    match s.pc p with
    | .notify_one => if q ∈ s.m_CV then some ((s.wakeUp q).goto p (.leave none)) else none
    | _ => none
  | .wake q => if q ∈ s.m_CV then some (s.wakeUp q) else none

/-! ## What a step can be -/

inductive Moves (s : WaitingQueue π α) : Action π α → WaitingQueue π α → Prop
  | call (p : π) (call : QueueCall α) (hpc : s.pc p = .outside) :
    Moves s (.call p call) (s.goto p (.enter call))
  | enters (p : π) (call : QueueCall α) (hpc : s.pc p = .enter call) (hfree : s.m_Mutex = none) :
    Moves s (.thread p) { s.goto p call.first with m_Mutex := some p }
  | goesOn (p : π) (hpc : s.pc p = .test) (hready : s.m_IsUnblock = true ∨ s.m_InternalQueue ≠ []) :
    Moves s (.thread p) (s.goto p .take)
  | waits (p : π) (hpc : s.pc p = .test) (hflag : s.m_IsUnblock = false)
      (hempty : s.m_InternalQueue = []) :
    Moves s (.thread p) { s.goto p .waiting with m_Mutex := none, m_CV := s.m_CV ++ [p] }
  | relocks (p : π) (hpc : s.pc p = .woken) (hfree : s.m_Mutex = none) :
    Moves s (.thread p) { s.goto p .test with m_Mutex := some p }
  | throws (p : π) (hpc : s.pc p = .take) (hflag : s.m_IsUnblock = true) :
    Moves s (.thread p) (s.goto p (.leave (some .thrown)))
  | takesNothing (p : π) (hpc : s.pc p = .take) (hflag : s.m_IsUnblock = false)
      (hempty : s.m_InternalQueue = []) :
    Moves s (.thread p) { s.goto p (.leave none) with invalid := true }
  | takes (p : π) (ret : α) (rest : List α) (hpc : s.pc p = .take) (hflag : s.m_IsUnblock = false)
      (hqueue : s.m_InternalQueue = ret :: rest) :
    Moves s (.thread p) { s.goto p (.leave (some (.returned ret))) with m_InternalQueue := rest }
  | pushes (p : π) (obj : α) (hpc : s.pc p = .push obj) :
    Moves s (.thread p) { s.goto p .notify_one with
      m_InternalQueue := s.m_InternalQueue ++ [obj]
      pushed := s.pushed ++ [obj] }
  | notifiesNobody (p : π) (hpc : s.pc p = .notify_one) (hnone : s.m_CV = []) :
    Moves s (.thread p) (s.goto p (.leave none))
  | notifies (p q : π) (hpc : s.pc p = .notify_one) (hq : q ∈ s.m_CV) :
    Moves s (.notify p q) ((s.wakeUp q).goto p (.leave none))
  | cancels (p : π) (hpc : s.pc p = .cancel) :
    Moves s (.thread p) { s.goto p .notify_all with m_IsUnblock := true }
  | notifiesAll (p : π) (hpc : s.pc p = .notify_all) :
    Moves s (.thread p) (s.wakeUpAll.goto p (.leave none))
  | leaves (p : π) (result : Option (DequeResult α)) (hpc : s.pc p = .leave result) :
    Moves s (.thread p) { s.goto p .outside with
      m_Mutex := none
      results := s.results ++ (result.map fun r => (p, r)).toList }
  | wakes (q : π) (hq : q ∈ s.m_CV) : Moves s (.wake q) (s.wakeUp q)

theorem threadStep_moves {s s' : WaitingQueue π α} {p : π} (hs : s.threadStep p = some s') :
    Moves s (.thread p) s' := by
  unfold threadStep at hs
  cases hpc : s.pc p with
  | outside => simp [hpc] at hs
  | enter call =>
    cases hm : s.m_Mutex with
    | some q => simp [hpc, hm] at hs
    | none =>
      simp only [hpc, hm, Option.some.injEq] at hs
      exact hs ▸ .enters p call hpc hm
  | test =>
    simp only [hpc] at hs
    split at hs
    · next hready =>
      have hready : s.m_IsUnblock = true ∨ s.m_InternalQueue ≠ [] := by simpa using hready
      exact Option.some.inj hs ▸ .goesOn p hpc hready
    · next hnot =>
      obtain ⟨hflag, hempty⟩ : s.m_IsUnblock = false ∧ s.m_InternalQueue = [] := by simpa using hnot
      exact Option.some.inj hs ▸ .waits p hpc hflag hempty
  | waiting => simp [hpc] at hs
  | woken =>
    cases hm : s.m_Mutex with
    | some q => simp [hpc, hm] at hs
    | none =>
      simp only [hpc, hm, Option.some.injEq] at hs
      exact hs ▸ .relocks p hpc hm
  | take =>
    cases hflag : s.m_IsUnblock with
    | true =>
      simp only [hpc, hflag, if_true, Option.some.injEq] at hs
      exact hs ▸ .throws p hpc hflag
    | false =>
      cases hqueue : s.m_InternalQueue with
      | nil =>
        simp only [hpc, hflag, hqueue, Bool.false_eq_true, if_false, Option.some.injEq] at hs
        exact hs ▸ .takesNothing p hpc hflag hqueue
      | cons ret rest =>
        simp only [hpc, hflag, hqueue, Bool.false_eq_true, if_false, Option.some.injEq] at hs
        exact hs ▸ .takes p ret rest hpc hflag hqueue
  | push obj =>
    simp only [hpc, Option.some.injEq] at hs
    exact hs ▸ .pushes p obj hpc
  | notify_one =>
    simp only [hpc, Option.ite_none_right_eq_some, Option.some.injEq] at hs
    obtain ⟨hnone, rfl⟩ := hs
    exact .notifiesNobody p hpc hnone
  | cancel =>
    simp only [hpc, Option.some.injEq] at hs
    exact hs ▸ .cancels p hpc
  | notify_all =>
    simp only [hpc, Option.some.injEq] at hs
    exact hs ▸ .notifiesAll p hpc
  | leave result =>
    simp only [hpc, Option.some.injEq] at hs
    exact hs ▸ .leaves p result hpc

theorem step_moves {s s' : WaitingQueue π α} {a : Action π α} (hs : step s a = some s') :
    Moves s a s' := by
  cases a with
  | call p call =>
    rw [step] at hs
    split at hs
    · next hpc => exact Option.some.inj hs ▸ .call p call hpc
    · cases hs
  | thread p => exact threadStep_moves hs
  | notify p q =>
    rw [step] at hs
    split at hs
    · next hpc =>
      obtain ⟨hq, rfl⟩ := by simpa only [Option.ite_none_right_eq_some, Option.some.injEq] using hs
      exact .notifies p q hpc hq
    · cases hs
  | wake q =>
    obtain ⟨hq, rfl⟩ :=
      by simpa only [step, Option.ite_none_right_eq_some, Option.some.injEq] using hs
    exact .wakes q hq

/-! ## Phases across a step -/

section Phases

variable {pcs : π → QueuePc α} {p q : π} {pc : QueuePc α}

/-- What a step of `p` does not change of its own phase, it does not change of any. -/
theorem update_keep {β : Type} {f : QueuePc α → β} (hsame : f pc = f (pcs p)) (q : π) :
    f (Function.update pcs p pc q) = f (pcs q) := by
  by_cases hq : q = p
  · rw [hq, Function.update_self, hsame]
  · rw [Function.update_of_ne hq]

/-- A phase that `p` does not come to. -/
theorem update_eq_of_ne {pc' : QueuePc α} (h : Function.update pcs p pc q = pc') (hne : pc ≠ pc') :
    q ≠ p ∧ pcs q = pc' := by
  have hq : q ≠ p := by
    rintro rfl
    rw [Function.update_self] at h
    exact hne h
  rw [Function.update_of_ne hq] at h
  exact ⟨hq, h⟩

theorem awake_mono (h : (pcs p).awake = true → pc.awake = true) (q : π)
    (hq : (pcs q).awake = true) :
    (Function.update pcs p pc q).awake = true := by
  by_cases heq : q = p
  · rw [heq] at hq
    rw [heq, Function.update_self]
    exact h hq
  · rwa [Function.update_of_ne heq]

theorem awake_other (hq : q ≠ p) (h : (pcs q).awake = true) :
    (Function.update pcs p pc q).awake = true := by
  rwa [Function.update_of_ne hq]

variable {m : Option π}

theorem held_keep (h : Held m fun q => (pcs q).underMutex = true)
    (hsame : pc.underMutex = (pcs p).underMutex) :
    Held m fun q => (Function.update pcs p pc q).underMutex = true :=
  h.keep fun q => by rw [update_keep hsame]

theorem held_acquire (h : Held m fun q => (pcs q).underMutex = true) (hfree : m = none)
    (hunder : pc.underMutex = true) :
    Held (some p) fun q => (Function.update pcs p pc q).underMutex = true := by
  rw [hfree] at h
  refine h.acquire ?_ fun q hq => ?_
  · rwa [Function.update_self]
  · rw [Function.update_of_ne hq]
    exact id

theorem held_release (h : Held m fun q => (pcs q).underMutex = true)
    (hunder : (pcs p).underMutex = true) (hfree : pc.underMutex = false) :
    Held none fun q => (Function.update pcs p pc q).underMutex = true := by
  refine h.release (p := p) hunder ?_ fun q hq => ?_
  · rw [Function.update_self, hfree]
    exact Bool.false_ne_true
  · rw [Function.update_of_ne hq]
    exact id

end Phases

section WakeUps

variable {s : WaitingQueue π α} {p q : π}

theorem wakeUp_pc_self : (s.wakeUp q).pc q = .woken := Function.update_self ..

theorem wakeUp_pc_of_ne (h : p ≠ q) : (s.wakeUp q).pc p = s.pc p := Function.update_of_ne h ..

theorem wakeUpAll_pc_of_mem (h : p ∈ s.m_CV) : s.wakeUpAll.pc p = .woken := if_pos h

theorem wakeUpAll_pc_of_notMem (h : p ∉ s.m_CV) : s.wakeUpAll.pc p = s.pc p := if_neg h

end WakeUps

/-! ## The invariant -/

/-- The elements that calls of `Deque` have returned. -/
def returned (s : WaitingQueue π α) : List α :=
  s.results.filterMap fun result =>
    match result.2 with
    | .returned obj => some obj
    | .thrown => none

/-- The element that a call is about to return. -/
def inHand (s : WaitingQueue π α) : List α :=
  match s.m_Mutex with
  | none => []
  | some p => (s.pc p).carried

structure Invariant (s : WaitingQueue π α) : Prop where
  /-- `m_Mutex` is held by the thread it names. -/
  mutex : Held s.m_Mutex fun p => (s.pc p).underMutex = true
  /-- Who waits is in `m_CV`, once. -/
  waiters : ∀ p, p ∈ s.m_CV ↔ s.pc p = .waiting
  nodup : s.m_CV.Nodup
  /-- Behind its wait a thread finds what it waited for. -/
  ready : ∀ p, s.pc p = .take → s.m_IsUnblock = true ∨ s.m_InternalQueue ≠ []
  valid : s.invalid = false
  /-- No element is lost, none comes twice, and all come in their order. -/
  fifo : s.returned ++ s.inHand ++ s.m_InternalQueue = s.pushed
  /-- Once cancelled, nobody is about to return an element. -/
  empty_handed : s.m_IsUnblock = true → ∀ p, (s.pc p).carried = []
  /-- While somebody waits, each element has somebody on the way to it. -/
  wakeups : s.m_IsUnblock = false → s.m_CV ≠ [] →
    AtLeast s.m_InternalQueue.length fun p => (s.pc p).awake = true
  /-- Once cancelled, nobody waits behind the `notify_all`. -/
  cancelled : s.m_IsUnblock = true → s.m_CV ≠ [] → ∃ p, s.pc p = .notify_all

omit [DecidableEq π] in
theorem Invariant.new : Invariant (new : WaitingQueue π α) where
  mutex p := by simp [WaitingQueue.new, QueuePc.underMutex]
  waiters p := by simp [WaitingQueue.new]
  nodup := List.nodup_nil
  ready p hp := by cases hp
  valid := rfl
  fifo := rfl
  empty_handed h := by cases h
  wakeups _ hne := absurd rfl hne
  cancelled h := by cases h

variable {s s' : WaitingQueue π α} {a : Action π α}

omit [DecidableEq π] in
/-- Who is at another place does not wait. -/
theorem Invariant.not_waiting (h : Invariant s) {p : π} {pc : QueuePc α} (hpc : s.pc p = pc)
    (hne : pc ≠ .waiting) : p ∉ s.m_CV := by
  rw [h.waiters, hpc]
  exact hne

omit [DecidableEq π] in
theorem Invariant.ne_waiter (h : Invariant s) {p q : π} {pc : QueuePc α} (hpc : s.pc p = pc)
    (hne : pc ≠ .waiting) (hq : q ∈ s.m_CV) : p ≠ q := by
  rintro rfl
  exact h.not_waiting hpc hne hq

omit [DecidableEq π] in
/-- Nobody is under a free mutex. -/
theorem Invariant.not_under (h : Invariant s) {p : π} {pc : QueuePc α} (hfree : s.m_Mutex = none)
    (hpc : s.pc p = pc) (hunder : pc.underMutex = true) : False := by
  have hholder := h.mutex.holder (show (s.pc p).underMutex = true by rw [hpc, hunder])
  rw [hfree] at hholder
  cases hholder

theorem Invariant.mutex_step (h : Invariant s) (hs : Moves s a s') :
    Held s'.m_Mutex fun p => (s'.pc p).underMutex = true := by
  have hm := h.mutex
  cases hs with
  | call p call hpc => exact held_keep hm (by rw [hpc]; rfl)
  | enters p call hpc hfree => exact held_acquire hm hfree (by cases call <;> rfl)
  | goesOn p hpc hready => exact held_keep hm (by rw [hpc]; rfl)
  | waits p hpc hflag hempty => exact held_release hm (by rw [hpc]; rfl) rfl
  | relocks p hpc hfree => exact held_acquire hm hfree rfl
  | throws p hpc hflag => exact held_keep hm (by rw [hpc]; rfl)
  | takesNothing p hpc hflag hempty => exact held_keep hm (by rw [hpc]; rfl)
  | takes p ret rest hpc hflag hqueue => exact held_keep hm (by rw [hpc]; rfl)
  | pushes p obj hpc => exact held_keep hm (by rw [hpc]; rfl)
  | notifiesNobody p hpc hnone => exact held_keep hm (by rw [hpc]; rfl)
  | notifies p q hpc hq =>
    refine held_keep (held_keep hm (by rw [(h.waiters q).mp hq]; rfl)) ?_
    rw [wakeUp_pc_of_ne (h.ne_waiter hpc nofun hq), hpc]
    rfl
  | cancels p hpc => exact held_keep hm (by rw [hpc]; rfl)
  | notifiesAll p hpc =>
    refine held_keep (hm.keep fun q => ?_) ?_
    · by_cases hq : q ∈ s.m_CV
      · rw [wakeUpAll_pc_of_mem hq, (h.waiters q).mp hq]
        rfl
      · rw [wakeUpAll_pc_of_notMem hq]
    · rw [wakeUpAll_pc_of_notMem (h.not_waiting hpc nofun), hpc]
      rfl
  | leaves p result hpc => exact held_release hm (by rw [hpc]; rfl) rfl
  | wakes q hq => exact held_keep hm (by rw [(h.waiters q).mp hq]; rfl)

theorem waiters_keep {m_CV : List π} {pcs : π → QueuePc α} {p : π} {pc : QueuePc α}
    (h : ∀ q, q ∈ m_CV ↔ pcs q = .waiting) (hp : p ∉ m_CV) (hne : pc ≠ .waiting) (q : π) :
    q ∈ m_CV ↔ Function.update pcs p pc q = .waiting := by
  by_cases hq : q = p
  · rw [hq, Function.update_self]
    exact ⟨fun hmem => absurd hmem hp, fun heq => absurd heq hne⟩
  · rw [Function.update_of_ne hq]
    exact h q

theorem Invariant.waiters_wakeUp (h : Invariant s) (q p : π) :
    p ∈ (s.wakeUp q).m_CV ↔ (s.wakeUp q).pc p = .waiting := by
  by_cases hp : p = q
  · rw [hp, wakeUp_pc_self]
    exact ⟨fun hmem => absurd rfl (h.nodup.mem_erase_iff.mp hmem).1, nofun⟩
  · rw [wakeUp_pc_of_ne hp, ← h.waiters]
    exact List.mem_erase_of_ne hp

theorem Invariant.waiters_step (h : Invariant s) (hs : Moves s a s') :
    ∀ p, p ∈ s'.m_CV ↔ s'.pc p = .waiting := by
  have hw := h.waiters
  cases hs with
  | call p call hpc => exact waiters_keep hw (h.not_waiting hpc nofun) nofun
  | enters p call hpc hfree =>
    exact waiters_keep hw (h.not_waiting hpc nofun) (by cases call <;> nofun)
  | goesOn p hpc hready => exact waiters_keep hw (h.not_waiting hpc nofun) nofun
  | waits p hpc hflag hempty =>
    intro q
    by_cases hq : q = p
    · simp [goto, hq]
    · simp [goto, hq, hw]
  | relocks p hpc hfree => exact waiters_keep hw (h.not_waiting hpc nofun) nofun
  | throws p hpc hflag => exact waiters_keep hw (h.not_waiting hpc nofun) nofun
  | takesNothing p hpc hflag hempty => exact waiters_keep hw (h.not_waiting hpc nofun) nofun
  | takes p ret rest hpc hflag hqueue => exact waiters_keep hw (h.not_waiting hpc nofun) nofun
  | pushes p obj hpc => exact waiters_keep hw (h.not_waiting hpc nofun) nofun
  | notifiesNobody p hpc hnone => exact waiters_keep hw (h.not_waiting hpc nofun) nofun
  | notifies p q hpc hq =>
    refine waiters_keep (h.waiters_wakeUp q) (fun hmem => ?_) nofun
    exact h.not_waiting hpc nofun (List.mem_of_mem_erase hmem)
  | cancels p hpc => exact waiters_keep hw (h.not_waiting hpc nofun) nofun
  | notifiesAll p hpc =>
    refine waiters_keep (fun q => ?_) List.not_mem_nil nofun
    by_cases hq : q ∈ s.m_CV
    · rw [wakeUpAll_pc_of_mem hq]
      exact ⟨nofun, nofun⟩
    · rw [wakeUpAll_pc_of_notMem hq, ← hw]
      exact ⟨nofun, fun hmem => absurd hmem hq⟩
  | leaves p result hpc => exact waiters_keep hw (h.not_waiting hpc nofun) nofun
  | wakes q hq => exact h.waiters_wakeUp q

theorem Invariant.nodup_step (h : Invariant s) (hs : Moves s a s') : s'.m_CV.Nodup := by
  cases hs with
  | waits p hpc hflag hempty =>
    have hnodup := h.nodup.concat (h.not_waiting hpc nofun)
    rwa [List.concat_eq_append] at hnodup
  | notifies p q hpc hq => exact h.nodup.erase q
  | notifiesAll p hpc => exact List.nodup_nil
  | wakes q hq => exact h.nodup.erase q
  | _ => exact h.nodup

omit [DecidableEq π] in
/-- Two threads are not under the mutex. -/
theorem Invariant.holder_unique (h : Invariant s) {p q : π} {pc pc' : QueuePc α} (hp : s.pc p = pc)
    (hq : s.pc q = pc') (hpc : pc.underMutex = true) (hpc' : pc'.underMutex = true) : p = q :=
  h.mutex.unique (show (s.pc p).underMutex = true by rw [hp, hpc])
    (show (s.pc q).underMutex = true by rw [hq, hpc'])

theorem Invariant.ready_step (h : Invariant s) (hs : Moves s a s') (q : π) (hq : s'.pc q = .take) :
    s'.m_IsUnblock = true ∨ s'.m_InternalQueue ≠ [] := by
  cases hs with
  | enters p call hpc hfree => exact h.ready q (update_eq_of_ne hq (by cases call <;> nofun)).2
  | goesOn p hpc hready => exact hready
  | takes p ret rest hpc hflag hqueue =>
    obtain ⟨hne, hq⟩ := update_eq_of_ne hq nofun
    exact absurd (h.holder_unique hq hpc rfl rfl) hne
  | pushes p obj hpc => exact .inr (List.append_ne_nil_of_right_ne_nil _ nofun)
  | notifies p r hpc hr =>
    obtain ⟨-, hq⟩ := update_eq_of_ne hq nofun
    exact h.ready q (update_eq_of_ne hq nofun).2
  | cancels p hpc => exact .inl rfl
  | notifiesAll p hpc =>
    obtain ⟨-, hq⟩ := update_eq_of_ne hq nofun
    by_cases hmem : q ∈ s.m_CV
    · rw [wakeUpAll_pc_of_mem hmem] at hq
      cases hq
    · rw [wakeUpAll_pc_of_notMem hmem] at hq
      exact h.ready q hq
  | _ => exact h.ready q (update_eq_of_ne hq nofun).2

/-- Nobody takes from an empty queue. -/
theorem Invariant.valid_step (h : Invariant s) (hs : Moves s a s') : s'.invalid = false := by
  cases hs with
  | takesNothing p hpc hflag hempty =>
    rcases h.ready p hpc with htrue | hne
    · rw [hflag] at htrue
      cases htrue
    · exact absurd hempty hne
  | _ => exact h.valid

omit [DecidableEq π] in
/-- Who has an element in hand is under the mutex. -/
theorem Invariant.carried_eq_nil (h : Invariant s) {p q : π} {pc : QueuePc α} (hpc : s.pc p = pc)
    (hunder : pc.underMutex = true) (hq : q ≠ p) : (s.pc q).carried = [] := by
  cases hpc' : s.pc q with
  | leave result => exact absurd (h.holder_unique hpc' hpc rfl hunder) hq
  | _ => rfl

theorem empty_handed_keep {pcs : π → QueuePc α} {p : π} {pc : QueuePc α}
    (h : ∀ q, (pcs q).carried = []) (hpc : pc.carried = []) (q : π) :
    (Function.update pcs p pc q).carried = [] := by
  rw [update_keep (hpc.trans (h p).symm)]
  exact h q

theorem Invariant.empty_handed_step (h : Invariant s) (hs : Moves s a s')
    (hflag' : s'.m_IsUnblock = true) : ∀ q, (s'.pc q).carried = [] := by
  have hempty := h.empty_handed
  cases hs with
  | enters p call hpc hfree => exact empty_handed_keep (hempty hflag') (by cases call <;> rfl)
  | takes p ret rest hpc hflag hqueue =>
    rw [show s.m_IsUnblock = true from hflag'] at hflag
    cases hflag
  | notifies p q hpc hq =>
    exact empty_handed_keep (empty_handed_keep (hempty hflag') rfl) rfl
  | cancels p hpc =>
    intro q
    change (Function.update s.pc p .notify_all q).carried = []
    by_cases hq : q = p
    · rw [hq, Function.update_self]
      rfl
    · rw [Function.update_of_ne hq]
      exact h.carried_eq_nil hpc rfl hq
  | notifiesAll p hpc =>
    refine empty_handed_keep (fun q => ?_) rfl
    by_cases hmem : q ∈ s.m_CV
    · rw [wakeUpAll_pc_of_mem hmem]
      rfl
    · rw [wakeUpAll_pc_of_notMem hmem]
      exact hempty hflag' q
  | _ => exact empty_handed_keep (hempty hflag') rfl

/-! ### First in, first out -/

section InHand

variable {p : π} {pc : QueuePc α}

omit [DecidableEq π] in
theorem inHand_of_free (h : s.m_Mutex = none) : s.inHand = [] := by
  rw [inHand, h]

omit [DecidableEq π] in
theorem inHand_of_holder (h : s.m_Mutex = some p) (hpc : s.pc p = pc) : s.inHand = pc.carried := by
  rw [inHand, h]
  exact congrArg QueuePc.carried hpc

omit [DecidableEq π] in
theorem Invariant.inHand_of_under (h : Invariant s) (hpc : s.pc p = pc)
    (hunder : pc.underMutex = true) :
    s.inHand = pc.carried := by
  refine inHand_of_holder (h.mutex.holder ?_) hpc
  rw [hpc, hunder]

theorem inHand_keep (hpc : s'.pc = Function.update s.pc p pc) (hmutex : s'.m_Mutex = s.m_Mutex)
    (hsame : pc.carried = (s.pc p).carried) : s'.inHand = s.inHand := by
  unfold inHand
  rw [hmutex, hpc]
  cases s.m_Mutex with
  | none => rfl
  | some q => exact update_keep hsame q

omit [DecidableEq π] in
/-- A step after which the same elements are in hand and in the queue. -/
theorem Invariant.fifo_keep (h : Invariant s) (hinHand : s'.inHand = s.inHand)
    (hresults : s'.results = s.results) (hqueue : s'.m_InternalQueue = s.m_InternalQueue)
    (hpushed : s'.pushed = s.pushed) :
    s'.returned ++ s'.inHand ++ s'.m_InternalQueue = s'.pushed := by
  have hreturned : s'.returned = s.returned := by rw [returned, hresults, returned]
  rw [hreturned, hinHand, hqueue, hpushed]
  exact h.fifo

end InHand

theorem Invariant.wakeUpAll_inHand (h : Invariant s) : s.wakeUpAll.inHand = s.inHand := by
  unfold inHand
  cases hm : s.m_Mutex with
  | none => rw [show s.wakeUpAll.m_Mutex = none from hm]
  | some p =>
    have hunder : (s.pc p).underMutex = true := (h.mutex p).mp hm
    have hnot : p ∉ s.m_CV := by
      rw [h.waiters]
      intro hpc
      rw [hpc] at hunder
      cases hunder
    rw [show s.wakeUpAll.m_Mutex = some p from hm]
    exact congrArg QueuePc.carried (wakeUpAll_pc_of_notMem hnot)

theorem Invariant.fifo_step (h : Invariant s) (hs : Moves s a s') :
    s'.returned ++ s'.inHand ++ s'.m_InternalQueue = s'.pushed := by
  have hfifo := h.fifo
  cases hs with
  | call p call hpc => exact h.fifo_keep (inHand_keep rfl rfl (by rw [hpc]; rfl)) rfl rfl rfl
  | enters p call hpc hfree =>
    refine h.fifo_keep ?_ rfl rfl rfl
    rw [inHand_of_free hfree, inHand_of_holder rfl (Function.update_self ..)]
    cases call <;> rfl
  | goesOn p hpc hready => exact h.fifo_keep (inHand_keep rfl rfl (by rw [hpc]; rfl)) rfl rfl rfl
  | waits p hpc hflag hempty =>
    refine h.fifo_keep ?_ rfl rfl rfl
    rw [inHand_of_free rfl, h.inHand_of_under hpc rfl]
    rfl
  | relocks p hpc hfree =>
    refine h.fifo_keep ?_ rfl rfl rfl
    rw [inHand_of_free hfree, inHand_of_holder rfl (Function.update_self ..)]
    rfl
  | throws p hpc hflag => exact h.fifo_keep (inHand_keep rfl rfl (by rw [hpc]; rfl)) rfl rfl rfl
  | takesNothing p hpc hflag hempty =>
    exact h.fifo_keep (inHand_keep rfl rfl (by rw [hpc]; rfl)) rfl rfl rfl
  | takes p ret rest hpc hflag hqueue =>
    have hholder : s.m_Mutex = some p := h.mutex.holder (by rw [hpc]; rfl)
    have hhand : inHand { s.goto p (.leave (some (.returned ret))) with m_InternalQueue := rest } =
        (QueuePc.leave (some (.returned ret))).carried :=
      inHand_of_holder hholder (Function.update_self ..)
    rw [h.inHand_of_under hpc rfl, hqueue] at hfifo
    change s.returned ++ [] ++ ret :: rest = s.pushed at hfifo
    rw [hhand]
    change s.returned ++ [ret] ++ rest = s.pushed
    rwa [List.append_nil, List.append_cons] at hfifo
  | pushes p obj hpc =>
    have hhand : inHand { s.goto p .notify_one with
        m_InternalQueue := s.m_InternalQueue ++ [obj], pushed := s.pushed ++ [obj] } = s.inHand :=
      inHand_keep rfl rfl (by rw [hpc]; rfl)
    rw [hhand]
    change s.returned ++ s.inHand ++ (s.m_InternalQueue ++ [obj]) = s.pushed ++ [obj]
    rw [← List.append_assoc, hfifo]
  | notifiesNobody p hpc hnone =>
    exact h.fifo_keep (inHand_keep rfl rfl (by rw [hpc]; rfl)) rfl rfl rfl
  | notifies p q hpc hq =>
    have hwakeUp : (s.wakeUp q).inHand = s.inHand :=
      inHand_keep rfl rfl (by rw [(h.waiters q).mp hq]; rfl)
    have hgoto : ((s.wakeUp q).goto p (.leave none)).inHand = (s.wakeUp q).inHand := by
      refine inHand_keep rfl rfl ?_
      rw [wakeUp_pc_of_ne (h.ne_waiter hpc nofun hq), hpc]
      rfl
    exact h.fifo_keep (hgoto.trans hwakeUp) rfl rfl rfl
  | cancels p hpc => exact h.fifo_keep (inHand_keep rfl rfl (by rw [hpc]; rfl)) rfl rfl rfl
  | notifiesAll p hpc =>
    have hgoto : (s.wakeUpAll.goto p (.leave none)).inHand = s.wakeUpAll.inHand := by
      refine inHand_keep rfl rfl ?_
      rw [wakeUpAll_pc_of_notMem (h.not_waiting hpc nofun), hpc]
      rfl
    exact h.fifo_keep (hgoto.trans h.wakeUpAll_inHand) rfl rfl rfl
  | leaves p result hpc =>
    have hreturned : returned { s.goto p .outside with
        m_Mutex := none
        results := s.results ++ (result.map fun r => (p, r)).toList } =
          s.returned ++ (QueuePc.leave result).carried := by
      rw [returned, List.filterMap_append]
      match result with
      | none => rfl
      | some (.returned obj) => rfl
      | some .thrown => rfl
    rw [h.inHand_of_under hpc rfl] at hfifo
    rw [hreturned, inHand_of_free rfl, List.append_nil]
    exact hfifo
  | wakes q hq =>
    exact h.fifo_keep (inHand_keep rfl rfl (by rw [(h.waiters q).mp hq]; rfl)) rfl rfl rfl

/-! ### Wake-ups -/

theorem Invariant.wakeups_step (h : Invariant s) (hs : Moves s a s')
    (hflag' : s'.m_IsUnblock = false)
    (hne' : s'.m_CV ≠ []) : AtLeast s'.m_InternalQueue.length fun p => (s'.pc p).awake = true := by
  have hwakeups := h.wakeups
  cases hs with
  | call p call hpc => exact (hwakeups hflag' hne').mono (awake_mono (by rw [hpc]; nofun))
  | enters p call hpc hfree => exact (hwakeups hflag' hne').mono (awake_mono (by rw [hpc]; nofun))
  | goesOn p hpc hready => exact (hwakeups hflag' hne').mono (awake_mono fun _ => rfl)
  | waits p hpc hflag hempty =>
    -- who goes to wait has seen an empty queue
    change AtLeast s.m_InternalQueue.length _
    rw [hempty]
    exact .zero
  | relocks p hpc hfree => exact (hwakeups hflag' hne').mono (awake_mono fun _ => rfl)
  | throws p hpc hflag =>
    rw [show s.m_IsUnblock = false from hflag'] at hflag
    cases hflag
  | takesNothing p hpc hflag hempty =>
    change AtLeast s.m_InternalQueue.length _
    rw [hempty]
    exact .zero
  | takes p ret rest hpc hflag hqueue =>
    have henough := hwakeups hflag' hne'
    rw [hqueue] at henough
    exact henough.leave fun q => awake_other
  | pushes p obj hpc =>
    -- the notification is still to come
    change AtLeast (s.m_InternalQueue ++ [obj]).length _
    rw [List.length_append, List.length_singleton]
    refine (hwakeups hflag' hne').enter (p := p) (by rw [hpc]; nofun) ?_ fun q => awake_other
    change (Function.update s.pc p .notify_one p).awake = true
    rw [Function.update_self]
    rfl
  | notifiesNobody p hpc hnone => exact absurd hnone hne'
  | notifies p q hpc hq =>
    -- the thread that was waiting goes in the place of the one that has notified it
    have hne := h.ne_waiter hpc nofun hq
    have henough := hwakeups hflag' (List.ne_nil_of_mem hq)
    refine henough.swap (p := p) (q := q) (by rw [(h.waiters q).mp hq]; nofun) ?_
      fun r hr hawake => ?_
    · exact awake_other hne.symm (by rw [wakeUp_pc_self]; rfl)
    · exact awake_other hr (awake_mono (fun _ => rfl) r hawake)
  | cancels p hpc => cases hflag'
  | notifiesAll p hpc => exact absurd rfl hne'
  | leaves p result hpc => exact (hwakeups hflag' hne').mono (awake_mono (by rw [hpc]; nofun))
  | wakes q hq =>
    exact (hwakeups hflag' (List.ne_nil_of_mem hq)).mono (awake_mono fun _ => rfl)

theorem notify_all_keep {pcs : π → QueuePc α} {p : π} {pc pc' : QueuePc α}
    (h : ∃ q, pcs q = .notify_all) (hp : pcs p = pc') (hne : pc' ≠ .notify_all) :
    ∃ q, Function.update pcs p pc q = .notify_all := by
  obtain ⟨q, hq⟩ := h
  have hqp : q ≠ p := by
    rintro rfl
    exact hne (hp.symm.trans hq)
  exact ⟨q, by rwa [Function.update_of_ne hqp]⟩

theorem Invariant.cancelled_step (h : Invariant s) (hs : Moves s a s')
    (hflag' : s'.m_IsUnblock = true) (hne' : s'.m_CV ≠ []) : ∃ p, s'.pc p = .notify_all := by
  have hcancelled := h.cancelled
  cases hs with
  | call p call hpc => exact notify_all_keep (hcancelled hflag' hne') hpc nofun
  | enters p call hpc hfree => exact notify_all_keep (hcancelled hflag' hne') hpc nofun
  | goesOn p hpc hready => exact notify_all_keep (hcancelled hflag' hne') hpc nofun
  | waits p hpc hflag hempty =>
    rw [show s.m_IsUnblock = true from hflag'] at hflag
    cases hflag
  | relocks p hpc hfree => exact notify_all_keep (hcancelled hflag' hne') hpc nofun
  | throws p hpc hflag => exact notify_all_keep (hcancelled hflag' hne') hpc nofun
  | takesNothing p hpc hflag hempty => exact notify_all_keep (hcancelled hflag' hne') hpc nofun
  | takes p ret rest hpc hflag hqueue => exact notify_all_keep (hcancelled hflag' hne') hpc nofun
  | pushes p obj hpc => exact notify_all_keep (hcancelled hflag' hne') hpc nofun
  | notifiesNobody p hpc hnone => exact absurd hnone hne'
  | notifies p q hpc hq =>
    have hwakeUp : ∃ r, (s.wakeUp q).pc r = .notify_all :=
      notify_all_keep (hcancelled hflag' (List.ne_nil_of_mem hq)) ((h.waiters q).mp hq) nofun
    exact notify_all_keep hwakeUp ((wakeUp_pc_of_ne (h.ne_waiter hpc nofun hq)).trans hpc) nofun
  | cancels p hpc => exact ⟨p, Function.update_self ..⟩
  | notifiesAll p hpc => exact absurd rfl hne'
  | leaves p result hpc => exact notify_all_keep (hcancelled hflag' hne') hpc nofun
  | wakes q hq =>
    exact notify_all_keep (hcancelled hflag' (List.ne_nil_of_mem hq)) ((h.waiters q).mp hq) nofun

/-- **Every step keeps the invariant.** -/
theorem Invariant.step (h : Invariant s) (hs : step s a = some s') : Invariant s' := by
  have hmoves := step_moves hs
  exact {
    mutex := h.mutex_step hmoves
    waiters := h.waiters_step hmoves
    nodup := h.nodup_step hmoves
    ready := h.ready_step hmoves
    valid := h.valid_step hmoves
    fifo := h.fifo_step hmoves
    empty_handed := h.empty_handed_step hmoves
    wakeups := h.wakeups_step hmoves
    cancelled := h.cancelled_step hmoves }

/-! ## Behind a cancel -/

/-- What a run from a cancelled queue comes to: it stays cancelled, no call of `Deque` has returned
an element, and the queue has what it had and what was pushed since. -/
def CancelledSince (s t : WaitingQueue π α) : Prop :=
  t.m_IsUnblock = true ∧
    (∃ results, t.results = s.results ++ results ∧ ∀ result ∈ results, result.2 = .thrown) ∧
    ∃ objs, t.pushed = s.pushed ++ objs ∧ t.m_InternalQueue = s.m_InternalQueue ++ objs

omit [DecidableEq π] in
theorem CancelledSince.refl (h : s.m_IsUnblock = true) : CancelledSince s s :=
  ⟨h, ⟨[], (List.append_nil _).symm, nofun⟩, [], (List.append_nil _).symm, (List.append_nil _).symm⟩

theorem CancelledSince.step {t t' : WaitingQueue π α} (hsince : CancelledSince s t)
    (h : Invariant t)
    (ht : Moves t a t') : CancelledSince s t' := by
  obtain ⟨hflag', ⟨results, hresults, hthrown⟩, objs, hpushed, hqueue⟩ := hsince
  cases ht with
  | takesNothing p hpc hflag hempty =>
    rw [hflag'] at hflag
    cases hflag
  | takes p ret rest hpc hflag hqueue =>
    rw [hflag'] at hflag
    cases hflag
  | pushes p obj hpc =>
    refine ⟨hflag', ⟨results, hresults, hthrown⟩, objs ++ [obj], ?_, ?_⟩
    · rw [← List.append_assoc, ← hpushed]
    · rw [← List.append_assoc, ← hqueue]
  | cancels p hpc => exact ⟨rfl, ⟨results, hresults, hthrown⟩, objs, hpushed, hqueue⟩
  | leaves p result hpc =>
    have hempty := h.empty_handed hflag' p
    rw [hpc] at hempty
    refine ⟨hflag', ⟨results ++ (result.map fun r => (p, r)).toList, ?_, ?_⟩, objs, hpushed, hqueue⟩
    · rw [← List.append_assoc, ← hresults]
    · intro r hr
      rcases List.mem_append.mp hr with hmem | hmem
      · exact hthrown r hmem
      · match result with
        | none => cases hmem
        | some (.returned obj) => cases hempty
        | some .thrown => rw [List.mem_singleton.mp hmem]
  | _ => exact ⟨hflag', ⟨results, hresults, hthrown⟩, objs, hpushed, hqueue⟩

/-- **A cancelled queue gives nothing away.** -/
theorem Invariant.cancelledSince (h : Invariant s) (hflag : s.m_IsUnblock = true)
    {as : List (Action π α)}
    {t : WaitingQueue π α} (hrun : run WaitingQueue.step s as = some t) : CancelledSince s t := by
  have hkept : Invariant t ∧ CancelledSince s t :=
    run_invariant_all (I := fun t => Invariant t ∧ CancelledSince s t)
      (fun t a t' ⟨hinv, hsince⟩ ht => ⟨hinv.step ht, hsince.step hinv (step_moves ht)⟩)
      ⟨h, .refl hflag⟩ hrun
  exact hkept.2

/-! ### Every `Deque` throws -/

/-- The steps that a call of `Deque` still has to make in a cancelled queue. -/
def stepsLeft : QueuePc α → Nat
  | .waiting => 5
  | .enter _ => 4
  | .woken => 4
  | .test => 3
  | .take => 2
  | .leave _ => 1
  | _ => 0

def Action.isStepOf (p : π) : Action π α → Bool
  | .thread q => q == p
  | _ => false

/-- `p` stays in its call of `Deque`, and has one step less to make if this was one of its steps. -/
def Nears (p : π) (a : Action π α) (pc pc' : QueuePc α) : Prop :=
  pc'.inDeque = true ∧ stepsLeft pc' + (if a.isStepOf p then 1 else 0) ≤ stepsLeft pc

theorem nears_of_eq {p : π} {pc pc' : QueuePc α} (hp : pc.inDeque = true) (hsame : pc' = pc)
    (hnot : a.isStepOf p = false) : Nears p a pc pc' := by
  rw [Nears, hsame, hnot, if_neg Bool.false_ne_true]
  exact ⟨hp, Nat.le_refl _⟩

/-- A step of thread `q`. -/
theorem nears_thread {pcs : π → QueuePc α} {p q : π} {pc pc' : QueuePc α}
    (hp : (pcs p).inDeque = true)
    (hq : pcs q = pc)
    (hnear : pc.inDeque = true → pc'.inDeque = true ∧ stepsLeft pc' + 1 ≤ stepsLeft pc) :
    Nears p (.thread q : Action π α) (pcs p) (Function.update pcs q pc' p) := by
  by_cases heq : q = p
  · rw [heq] at hq
    rw [hq] at hp
    rw [Nears, heq, Function.update_self, hq, Action.isStepOf, beq_self_eq_true, if_pos rfl]
    exact hnear hp
  · exact nears_of_eq hp (Function.update_of_ne (Ne.symm heq) ..) (beq_false_of_ne heq)

/-- Somebody is woken up. -/
theorem nears_wakeUp {p q : π} (hp : (s.pc p).inDeque = true) (hq : s.pc q = .waiting)
    (hnot : a.isStepOf p = false) : Nears p a (s.pc p) ((s.wakeUp q).pc p) := by
  by_cases heq : p = q
  · rw [heq, wakeUp_pc_self, hq, Nears, ← heq, hnot]
    exact ⟨rfl, Nat.le_succ 4⟩
  · exact nears_of_eq hp (wakeUp_pc_of_ne heq) hnot

/-- **A step in a cancelled queue** takes each call of `Deque` nearer to its exception, or ends it
with one. -/
theorem Invariant.deque_step (h : Invariant s) (hflag' : s.m_IsUnblock = true) {p : π}
    (hp : (s.pc p).inDeque = true) (hs : Moves s a s') :
    s'.results = s.results ++ [(p, .thrown)] ∨ Nears p a (s.pc p) (s'.pc p) := by
  have hne {q : π} {pc : QueuePc α} (hpc : s.pc q = pc) (hnot : pc.inDeque = false) : p ≠ q := by
    rintro rfl
    rw [hpc, hnot] at hp
    cases hp
  cases hs with
  | call q call hpc =>
    exact .inr (nears_of_eq hp (Function.update_of_ne (hne hpc rfl) ..) rfl)
  | enters q call hpc hfree =>
    refine .inr (nears_thread hp hpc fun hcall => ?_)
    cases call with
    | Deque => exact ⟨rfl, Nat.le_refl _⟩
    | Enque obj => cases hcall
    | CancelWaiting => cases hcall
  | goesOn q hpc hready => exact .inr (nears_thread hp hpc fun _ => ⟨rfl, Nat.le_refl _⟩)
  | waits q hpc hflag hempty =>
    rw [hflag'] at hflag
    cases hflag
  | relocks q hpc hfree => exact .inr (nears_thread hp hpc fun _ => ⟨rfl, Nat.le_refl _⟩)
  | throws q hpc hflag => exact .inr (nears_thread hp hpc fun _ => ⟨rfl, Nat.le_refl _⟩)
  | takesNothing q hpc hflag hempty =>
    rw [hflag'] at hflag
    cases hflag
  | takes q ret rest hpc hflag hqueue =>
    rw [hflag'] at hflag
    cases hflag
  | pushes q obj hpc => exact .inr (nears_thread hp hpc nofun)
  | notifiesNobody q hpc hnone => exact .inr (nears_thread hp hpc nofun)
  | notifies q r hpc hr =>
    have hpq := hne hpc rfl
    have hwakeUp := nears_wakeUp (a := .notify q r) hp ((h.waiters r).mp hr) rfl
    have hsame : ((s.wakeUp r).goto q (.leave none)).pc p = (s.wakeUp r).pc p :=
      Function.update_of_ne hpq ..
    rw [hsame]
    exact .inr hwakeUp
  | cancels q hpc => exact .inr (nears_thread hp hpc nofun)
  | notifiesAll q hpc =>
    have hpq := hne hpc rfl
    have hnot : (Action.thread q : Action π α).isStepOf p = false := beq_false_of_ne hpq.symm
    have hsame : (s.wakeUpAll.goto q (.leave none)).pc p = s.wakeUpAll.pc p :=
      Function.update_of_ne hpq ..
    rw [hsame]
    by_cases hmem : p ∈ s.m_CV
    · rw [wakeUpAll_pc_of_mem hmem, (h.waiters p).mp hmem, Nears, hnot]
      exact .inr ⟨rfl, Nat.le_succ 4⟩
    · exact .inr (nears_of_eq hp (wakeUpAll_pc_of_notMem hmem) hnot)
  | leaves q result hpc =>
    by_cases heq : q = p
    · subst heq
      rw [hpc] at hp
      match result with
      | none => cases hp
      | some (.returned obj) => cases hp
      | some .thrown => exact .inl rfl
    · exact .inr (nears_of_eq hp (Function.update_of_ne (Ne.symm heq) ..) (beq_false_of_ne heq))
  | wakes q hq => exact .inr (nears_wakeUp hp ((h.waiters q).mp hq) rfl)

/-- `p` has thrown since. -/
def ThrownSince (s t : WaitingQueue π α) (p : π) : Prop :=
  ∃ results, t.results = s.results ++ results ∧ (p, .thrown) ∈ results

/-- **A call of `Deque` in a cancelled queue** has thrown, or is still in the call, and has then
made no more steps than it had to make. -/
theorem Invariant.deque_run {p : π} {as : List (Action π α)} {t : WaitingQueue π α} :
    ∀ {s : WaitingQueue π α}, Invariant s → s.m_IsUnblock = true → (s.pc p).inDeque = true →
      run WaitingQueue.step s as = some t →
        ThrownSince s t p ∨
          (t.pc p).inDeque = true ∧
            stepsLeft (t.pc p) + as.countP (Action.isStepOf p) ≤ stepsLeft (s.pc p) := by
  induction as with
  | nil =>
    intro s h hflag hp hrun
    obtain rfl := Option.some.inj hrun
    exact .inr ⟨hp, Nat.le_refl _⟩
  | cons a as ih =>
    intro s h hflag hp hrun
    obtain ⟨u, hu, hrest⟩ := run_cons.mp hrun
    have hsince := (CancelledSince.refl hflag).step h (step_moves hu)
    rcases h.deque_step hflag hp (step_moves hu) with hthrown | ⟨hp', hle⟩
    · obtain ⟨-, ⟨results, hresults, -⟩, -⟩ := (h.step hu).cancelledSince hsince.1 hrest
      refine .inl ⟨(p, .thrown) :: results, ?_, List.mem_cons_self⟩
      rw [hresults, hthrown, List.append_assoc, List.singleton_append]
    · rcases ih (h.step hu) hsince.1 hp' hrest with ⟨results, hresults, hmem⟩ | ⟨hstill, hcount⟩
      · obtain ⟨-, ⟨first, hfirst, -⟩, -⟩ := hsince
        refine .inl ⟨first ++ results, ?_, List.mem_append_right first hmem⟩
        rw [hresults, hfirst, List.append_assoc]
      · refine .inr ⟨hstill, ?_⟩
        rw [List.countP_cons]
        omega

/-- The steps of a thread until it lets the mutex go. -/
def phaseLeft : QueuePc α → Nat
  | .test => 3
  | .push _ => 3
  | .cancel => 3
  | .take => 2
  | .notify_one => 2
  | .notify_all => 2
  | .leave _ => 1
  | _ => 0

/-- The steps until the mutex is free. -/
def holderLeft (s : WaitingQueue π α) : Nat :=
  match s.m_Mutex with
  | none => 0
  | some q => phaseLeft (s.pc q)

omit [DecidableEq π] in
theorem holderLeft_of_holder {q : π} {pc : QueuePc α} (hq : s.m_Mutex = some q)
    (hpc : s.pc q = pc) :
    s.holderLeft = phaseLeft pc := by
  rw [holderLeft, hq]
  exact congrArg phaseLeft hpc

/-- **Who has the mutex of a cancelled queue can go on**, and comes nearer to letting it go. -/
theorem Invariant.holder_step (h : Invariant s) (hflag : s.m_IsUnblock = true) {q : π}
    (hq : s.m_Mutex = some q) :
    ∃ a s', WaitingQueue.step s a = some s' ∧ s'.holderLeft < s.holderLeft := by
  have hunder : (s.pc q).underMutex = true := (h.mutex q).mp hq
  have hnext {s' : WaitingQueue π α} {pc pc' : QueuePc α} (hpc : s.pc q = pc)
      (hmutex : s'.m_Mutex = some q) (hpc' : s'.pc q = pc')
      (hlt : phaseLeft pc = phaseLeft pc' + 1) : s'.holderLeft < s.holderLeft := by
    rw [holderLeft_of_holder hq hpc, holderLeft_of_holder hmutex hpc']
    omega
  cases hpc : s.pc q with
  | test =>
    refine ⟨.thread q, s.goto q .take, ?_, hnext hpc hq (Function.update_self ..) rfl⟩
    simp [WaitingQueue.step, threadStep, hpc, hflag]
  | take =>
    refine ⟨.thread q, s.goto q (.leave (some .thrown)), ?_,
      hnext hpc hq (Function.update_self ..) rfl⟩
    simp [WaitingQueue.step, threadStep, hpc, hflag]
  | push obj =>
    refine ⟨.thread q, _, by simp only [WaitingQueue.step, threadStep, hpc]; rfl, ?_⟩
    exact hnext hpc hq (Function.update_self ..) rfl
  | notify_one =>
    by_cases hnone : s.m_CV = []
    · refine ⟨.thread q, s.goto q (.leave none), ?_, hnext hpc hq (Function.update_self ..) rfl⟩
      simp [WaitingQueue.step, threadStep, hpc, hnone]
    · obtain ⟨r, hr⟩ := List.exists_mem_of_ne_nil _ hnone
      refine ⟨.notify q r, (s.wakeUp r).goto q (.leave none), ?_,
        hnext hpc hq (Function.update_self ..) rfl⟩
      simp [WaitingQueue.step, hpc, hr]
  | cancel =>
    refine ⟨.thread q, _, by simp only [WaitingQueue.step, threadStep, hpc]; rfl, ?_⟩
    exact hnext hpc hq (Function.update_self ..) rfl
  | notify_all =>
    refine ⟨.thread q, _, by simp only [WaitingQueue.step, threadStep, hpc]; rfl, ?_⟩
    exact hnext hpc hq (Function.update_self ..) rfl
  | leave result =>
    refine ⟨.thread q, _, by simp only [WaitingQueue.step, threadStep, hpc]; rfl, ?_⟩
    rw [holderLeft_of_holder hq hpc]
    exact Nat.one_pos
  | _ => rw [hpc] at hunder; cases hunder

/-- Where the mutex is free, a call of `Deque` takes it. -/
theorem Invariant.free_step (h : Invariant s) (hflag : s.m_IsUnblock = true) {p : π}
    (hp : (s.pc p).inDeque = true) (hfree : s.m_Mutex = none) :
    ∃ s', WaitingQueue.step s (.thread p) = some s' := by
  cases hpc : s.pc p with
  | enter call => exact ⟨_, by simp only [WaitingQueue.step, threadStep, hpc, hfree]; rfl⟩
  | woken => exact ⟨_, by simp only [WaitingQueue.step, threadStep, hpc, hfree]; rfl⟩
  | waiting =>
    -- the `notify_all` is made under the mutex
    obtain ⟨q, hq⟩ := h.cancelled hflag (List.ne_nil_of_mem ((h.waiters p).mpr hpc))
    exact (h.not_under hfree hq rfl).elim
  | outside => rw [hpc] at hp; cases hp
  | _ => exact (h.not_under hfree hpc rfl).elim

omit [DecidableEq π] in
theorem holderLeft_le (s : WaitingQueue π α) : s.holderLeft ≤ 3 := by
  unfold holderLeft
  cases s.m_Mutex with
  | none => exact Nat.zero_le 3
  | some q => dsimp only; cases s.pc q <;> simp [phaseLeft]

/-- Somebody can take a call of `Deque` nearer to its exception. -/
theorem Invariant.progress (h : Invariant s) (hflag : s.m_IsUnblock = true) {p : π}
    (hp : (s.pc p).inDeque = true) :
    ∃ a s', WaitingQueue.step s a = some s' ∧
      (s'.results = s.results ++ [(p, .thrown)] ∨
        (s'.pc p).inDeque = true ∧
          4 * stepsLeft (s'.pc p) + s'.holderLeft < 4 * stepsLeft (s.pc p) + s.holderLeft) := by
  cases hm : s.m_Mutex with
  | some q =>
    obtain ⟨a, s', hs, hlt⟩ := h.holder_step hflag hm
    refine ⟨a, s', hs, ?_⟩
    rcases h.deque_step hflag hp (step_moves hs) with hthrown | ⟨hp', hle⟩
    · exact .inl hthrown
    · exact .inr ⟨hp', by omega⟩
  | none =>
    obtain ⟨s', hs⟩ := h.free_step hflag hp hm
    refine ⟨.thread p, s', hs, ?_⟩
    rcases h.deque_step hflag hp (step_moves hs) with hthrown | ⟨hp', hle⟩
    · exact .inl hthrown
    · have hholder := s'.holderLeft_le
      rw [Action.isStepOf, beq_self_eq_true, if_pos rfl] at hle
      exact .inr ⟨hp', by omega⟩

/-- **A call of `Deque` in a cancelled queue can go on to its exception.** -/
theorem Invariant.can_throw {p : π} {n : Nat} :
    ∀ {s : WaitingQueue π α}, 4 * stepsLeft (s.pc p) + s.holderLeft = n → Invariant s →
      s.m_IsUnblock = true → (s.pc p).inDeque = true →
        ∃ as t, run WaitingQueue.step s as = some t ∧ ThrownSince s t p := by
  induction n using Nat.strong_induction_on with
  | h n ih =>
    intro s hn h hflag hp
    obtain ⟨a, s', hs, hthrown | ⟨hp', hlt⟩⟩ := h.progress hflag hp
    · exact ⟨[a], s', run_singleton.trans hs, [(p, .thrown)], hthrown, List.mem_singleton_self _⟩
    · have hsince := (CancelledSince.refl hflag).step h (step_moves hs)
      obtain ⟨as, t, hrun, results, hresults, hmem⟩ :=
        ih _ (hn ▸ hlt) rfl (h.step hs) hsince.1 hp'
      obtain ⟨-, ⟨first, hfirst, -⟩, -⟩ := hsince
      refine ⟨a :: as, t, run_cons.mpr ⟨s', hs, hrun⟩, first ++ results, ?_,
        List.mem_append_right first hmem⟩
      rw [hresults, hfirst, List.append_assoc]

/-! ## The laws -/

/-- A wake-up that is still to come, or that has come and has not been followed yet. -/
def WakeupPending (s : WaitingQueue π α) : Prop :=
  ∃ q, s.pc q = .notify_one ∨ s.pc q = .notify_all ∨ s.pc q = .woken ∨ s.pc q = .test ∨
    s.pc q = .take

structure Laws (s : WaitingQueue π α) : Prop where
  /-- What `Deque` has returned, what it is about to return, and what is in the queue are what was
  pushed, each element once and in its order. -/
  fifo : s.returned ++ s.inHand ++ s.m_InternalQueue = s.pushed
  /-- Nothing was taken from an empty queue. -/
  valid : s.invalid = false
  /-- In a cancelled queue no `Deque` returns an element, or takes one. -/
  cancelled : s.m_IsUnblock = true → ∀ as t, run step s as = some t → CancelledSince s t
  /-- There every `Deque` throws within five steps of its own, and whatever is done, it can. -/
  throws : s.m_IsUnblock = true → ∀ p, (s.pc p).inDeque = true → ∀ as t, run step s as = some t →
    ThrownSince s t p ∨
      ((t.pc p).inDeque = true ∧ as.countP (Action.isStepOf p) < 5 ∧
        ∃ bs u, run step t bs = some u ∧ ThrownSince t u p)
  /-- Nobody waits in front of an element without a wake-up. -/
  wakeup : ∀ p, s.pc p = .waiting → s.m_InternalQueue ≠ [] → s.WakeupPending
  /-- While somebody waits, each element has a thread of its own on the way to it, or a
  notification. -/
  wakeups : s.m_IsUnblock = false → s.m_CV ≠ [] →
    AtLeast s.m_InternalQueue.length fun p => (s.pc p).awake = true
  /-- While nobody has the mutex, a wake-up is a thread that has been woken up. -/
  wakeup_free : ∀ p, s.pc p = .waiting → s.m_InternalQueue ≠ [] → s.m_Mutex = none →
    ∃ q, s.pc q = .woken

omit [DecidableEq π] in
theorem Invariant.wakeup (h : Invariant s) {p : π} (hp : s.pc p = .waiting)
    (hne : s.m_InternalQueue ≠ []) : s.WakeupPending := by
  have hwaits : s.m_CV ≠ [] := List.ne_nil_of_mem ((h.waiters p).mpr hp)
  cases hflag : s.m_IsUnblock with
  | true =>
    obtain ⟨q, hq⟩ := h.cancelled hflag hwaits
    exact ⟨q, .inr (.inl hq)⟩
  | false =>
    obtain ⟨q, hawake⟩ := (h.wakeups hflag hwaits).exists (List.length_pos_iff.mpr hne)
    refine ⟨q, ?_⟩
    cases hq : s.pc q with
    | notify_one => exact .inl rfl
    | woken => exact .inr (.inr (.inl rfl))
    | test => exact .inr (.inr (.inr (.inl rfl)))
    | take => exact .inr (.inr (.inr (.inr rfl)))
    | _ => rw [hq] at hawake; cases hawake

omit [DecidableEq π] in
theorem Invariant.woken_of_free (h : Invariant s) (hpending : s.WakeupPending)
    (hfree : s.m_Mutex = none) :
    ∃ q, s.pc q = .woken := by
  obtain ⟨q, hq | hq | hq | hq | hq⟩ := hpending
  · exact (h.not_under hfree hq rfl).elim
  · exact (h.not_under hfree hq rfl).elim
  · exact ⟨q, hq⟩
  · exact (h.not_under hfree hq rfl).elim
  · exact (h.not_under hfree hq rfl).elim

omit [DecidableEq π] in
theorem stepsLeft_pos {pc : QueuePc α} (h : pc.inDeque = true) :
    0 < stepsLeft pc ∧ stepsLeft pc ≤ 5 := by
  cases pc with
  | outside => cases h
  | push obj => cases h
  | notify_one => cases h
  | cancel => cases h
  | notify_all => cases h
  | _ => simp [stepsLeft]

theorem Invariant.laws (h : Invariant s) : Laws s where
  fifo := h.fifo
  valid := h.valid
  cancelled hflag as t hrun := h.cancelledSince hflag hrun
  throws hflag p hp as t hrun := by
    rcases h.deque_run hflag hp hrun with hthrown | ⟨hstill, hcount⟩
    · exact .inl hthrown
    · have hinv : Invariant t := run_invariant_all (fun s a t hs ht => hs.step ht) h hrun
      have hflag' := (h.cancelledSince hflag hrun).1
      have hleft := stepsLeft_pos hstill
      have hall := stepsLeft_pos hp
      exact .inr ⟨hstill, by omega, hinv.can_throw rfl hflag' hstill⟩
  wakeup p hp hne := h.wakeup hp hne
  wakeups := h.wakeups
  wakeup_free p hp hne hfree := h.woken_of_free (h.wakeup hp hne) hfree

/-- **The laws of the queue**, in every state of every run, for any number of threads. -/
theorem waiting_queue_laws (as : List (Action π α)) : Along step Laws (new : WaitingQueue π α) as :=
  along_of_invariant (p := fun _ => True) (fun _ h => h.laws) (fun _ _ _ h _ hs => h.step hs)
    Invariant.new fun _ _ => trivial

end WaitingQueue

end TiraRdp
