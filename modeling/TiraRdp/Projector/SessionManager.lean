import TiraRdp.Lib.Locks
import TiraRdp.Lib.Lts

/-!
# The sessions of the projector

`SessionManager` (`projector/SessionManager.cpp:6-24`) and the loop of `main`
(`projector/main.cpp:19-33`) that fills it: `main` makes a session, starts it and adds it;
`ConnectedEvent` calls `SetActive`, and `DisconnectedEvent` starts a thread that calls `Remove` and
is left to itself. A session may raise either as soon as it has been started and as often as it
likes: its worker raises `DisconnectedEvent`, and so does its watch dog
(`common/rtsp/RtspSession.cpp:35-45`, `:60-64`), also while `~Session` stops them. Every call of
`SetActive` has a thread of its own here.

* A session is its address, which is free again when nobody holds the session any more.
* The thread that is left to itself reads the parameter of the event's lambda, by reference. Once
  the lambda has returned, what it finds there is anything (`Action.thread`).
* The body of an operation is one step, between those that take `_mutex` and let it go. A thread
  that comes to `Remove` with `_mutex` in its own hands stays there.
* `_activeSession` has no initializer: what it is at first is a parameter.

Result: `sessions_safe`, for every run from a null `_activeSession` in which four things do not
happen (`Sound`). Each of them by itself leads to a state that is not safe (`sessions_not_safe`).
-/

namespace TiraRdp

open Lib Lib.Lts Lib.Locks

/-- The address of a session. -/
abbrev Address := Nat

structure SessionManager where
  _sessions : List Address
  _activeSession : Option Address
  deriving Repr, DecidableEq

namespace SessionManager

/-- `Add`, under the mutex. -/
def Add (m : SessionManager) (session : Address) : SessionManager :=
  { m with _sessions := m._sessions ++ [session] }

/-- `Remove`, under the mutex. -/
def Remove (m : SessionManager) (session : Address) : SessionManager where
  _activeSession := if m._activeSession = some session then none else m._activeSession
  _sessions := m._sessions.filter fun s => s ≠ session

end SessionManager

namespace AcceptLoop

/-- Where `main` is. -/
inductive MainPc where
  | accepting
  | created (session : Address)
  /-- at the mutex in `Add` -/
  | started (session : Address)
  | adding (session : Address)
  /-- behind `Add`, with its own pointer to the session -/
  | added (session : Address)
  deriving Repr, DecidableEq

/-- Where another thread is. -/
inductive ThreadPc where
  /-- left to itself, with a reference to `s`, whose lambda may not have returned yet -/
  | detached (s : Address) (frame : Bool)
  /-- at the mutex in `Remove` -/
  | remove (session : Address)
  | removing (session : Address)
  /-- in the destructors, behind `remove_if` -/
  | removed (session : Address)
  /-- at the mutex in `SetActive` -/
  | setActive (session : Address)
  | setting (session : Address)
  /-- at the mutex in `Remove`, called by `SetActive` -/
  | replacing (session : Address)
  | ended
  deriving Repr, DecidableEq

inductive Holder where
  | main
  | thread (i : Nat)
  deriving Repr, DecidableEq

end AcceptLoop

open AcceptLoop in
structure AcceptLoop where
  manager : SessionManager
  _mutex : Option Holder
  main : MainPc
  threads : List ThreadPc
  /-- of which sessions a disconnect has been notified -/
  notified : List Address
  deriving Repr, DecidableEq

namespace AcceptLoop

inductive Action where
  /-- `WaitForConnection` returns, and the session is made -/
  | accepts (session : Address)
  | main
  | connected (session : Address)
  | disconnected (session : Address)
  /-- the lambda of `DisconnectedEvent` returns -/
  | returns (i : Nat)
  /-- the next step of a thread; `found` is what is where its `s` has been -/
  | thread (i : Nat) (found : Address)
  deriving Repr, DecidableEq

/-- The session that `main` has a pointer to. -/
def MainPc.session : MainPc → Option Address
  | .accepting => none
  | .created session | .started session | .adding session | .added session => some session

/-- The session that `main` is going to add. -/
def MainPc.adds : MainPc → Option Address
  | .created session | .started session | .adding session => some session
  | .accepting | .added _ => none

/-- The thread is going to remove the session. -/
def ThreadPc.removes (session : Address) : ThreadPc → Bool
  | .detached s _ | .remove s | .removing s => s = session
  | _ => false

def initial (_activeSession : Option Address) : AcceptLoop where
  manager := ⟨[], _activeSession⟩
  _mutex := none
  main := .accepting
  threads := []
  notified := []

/-- Somebody holds the session, or is destroying it. -/
def alive (s : AcceptLoop) (session : Address) : Bool :=
  s.manager._sessions.contains session || s.main.session == some session ||
    s.threads.contains (.removed session)

/-- The session has been started, and has not been destroyed. -/
def running (s : AcceptLoop) (session : Address) : Bool :=
  s.alive session && s.main != .created session

def mainStep (s : AcceptLoop) : Option AcceptLoop :=
  match s.main with
  | .accepting => none
  | .created session => some { s with main := .started session }
  | .started session =>
    if s._mutex = none then some { s with _mutex := some .main, main := .adding session } else none
  | .adding session =>
    some { s with manager := s.manager.Add session, _mutex := none, main := .added session }
  | .added _ => some { s with main := .accepting }

/-- Thread `i` is at `pc` now. -/
def moved (s : AcceptLoop) (i : Nat) (pc : ThreadPc) : AcceptLoop :=
  { s with threads := s.threads.set i pc }

/-- Thread `i` takes the mutex. -/
def locks (s : AcceptLoop) (i : Nat) (pc : ThreadPc) : Option AcceptLoop :=
  if s._mutex = none then some { s.moved i pc with _mutex := some (.thread i) } else none

def threadStep (s : AcceptLoop) (i : Nat) (found : Address) : ThreadPc → Option AcceptLoop
  | .detached session frame => some (s.moved i (.remove (if frame then session else found)))
  | .remove session => s.locks i (.removing session)
  | .removing session =>
    some { s.moved i (.removed session) with manager := s.manager.Remove session }
  | .removed _ => some { s.moved i .ended with _mutex := none }
  | .setActive session => s.locks i (.setting session)
  | .setting session =>
    match s.manager._activeSession with
    | some active => some (s.moved i (.replacing active))
    | none =>
      some { s.moved i .ended with
        manager := { s.manager with _activeSession := some session }, _mutex := none }
  | .replacing _ => none
  | .ended => none

def step (s : AcceptLoop) : Action → Option AcceptLoop
  | .accepts session =>
    if s.main = .accepting ∧ s.alive session = false then
      some { s with main := .created session, notified := s.notified.filter fun p => p ≠ session }
    else none
  | .main => s.mainStep
  | .connected session =>
    if s.running session then some { s with threads := s.threads ++ [.setActive session] } else none
  | .disconnected session =>
    if s.running session then
      some { s with threads := s.threads ++ [.detached session true], notified := session :: s.notified }
    else none
  | .returns i =>
    match s.threads[i]? with
    | some (.detached session true) => some (s.moved i (.detached session false))
    | _ => none
  | .thread i found => s.threads[i]?.bind (s.threadStep i found)

/-! ## What is to hold -/

/-- The next thing that the holder does is to take the mutex. -/
def atMutex (s : AcceptLoop) : Holder → Bool
  | .main => match s.main with
    | .started _ => true
    | _ => false
  | .thread i => match s.threads[i]? with
    | some (.remove _) | some (.setActive _) | some (.replacing _) => true
    | _ => false

/-- No step is pending. -/
def Quiet (s : AcceptLoop) : Prop := s.main = .accepting ∧ ∀ pc ∈ s.threads, pc = .ended

instance : DecidablePred Quiet := fun _ => inferInstanceAs (Decidable (_ ∧ _))

/-- The active session is one of the sessions, nobody takes a mutex that is in its hands, and when
nothing is pending no session is there whose disconnect has been notified. -/
structure Safe (s : AcceptLoop) : Prop where
  active : ∀ session ∈ s.manager._activeSession, session ∈ s.manager._sessions
  relock : ∀ holder ∈ s._mutex, s.atMutex holder = false
  gone : s.Quiet → ∀ session ∈ s.manager._sessions, session ∉ s.notified

instance : DecidablePred Safe := fun s =>
  decidable_of_iff ((∀ session ∈ s.manager._activeSession, session ∈ s.manager._sessions) ∧
      (∀ holder ∈ s._mutex, s.atMutex holder = false) ∧
      (s.Quiet → ∀ session ∈ s.manager._sessions, session ∉ s.notified))
    ⟨fun ⟨h1, h2, h3⟩ => ⟨h1, h2, h3⟩, fun ⟨h1, h2, h3⟩ => ⟨h1, h2, h3⟩⟩

/-- A thread other than `i` is going to remove the session. -/
def otherRemoves (s : AcceptLoop) (i : Nat) (session : Address) : Bool :=
  (List.range s.threads.length).any fun j => j ≠ i && (s.threads[j]?.any (ThreadPc.removes session))

/-- The thread that is left to itself finds its session; a session that is notified is not removed
for the last time before `main` has added it; and a session is made active when there is none, and
it is one of the sessions. -/
def SoundThread (s : AcceptLoop) (i : Nat) (found : Address) : ThreadPc → Prop
  | .detached session frame => frame = true ∨ found = session
  | .removing session =>
    s.main.adds = some session → session ∈ s.notified → s.otherRemoves i session = true
  | .setting session => s.manager._activeSession = none ∧ session ∈ s.manager._sessions
  | _ => True

def Sound (s : AcceptLoop) : Action → Prop
  | .thread i found => ∀ pc ∈ s.threads[i]?, s.SoundThread i found pc
  | _ => True

instance (s : AcceptLoop) (i : Nat) (found : Address) : DecidablePred (s.SoundThread i found)
  | .detached _ _ => inferInstanceAs (Decidable (_ ∨ _))
  | .removing _ => inferInstanceAs (Decidable (_ → _ → _))
  | .setting _ => inferInstanceAs (Decidable (_ ∧ _))
  | .remove _ | .removed _ | .setActive _ | .replacing _ | .ended => .isTrue trivial

instance (s : AcceptLoop) : DecidablePred s.Sound
  | .thread _ _ => inferInstanceAs (Decidable (∀ _ ∈ _, _))
  | .accepts _ | .main | .connected _ | .disconnected _ | .returns _ => .isTrue trivial

/-! ## Runs -/

def MainPc.holds : MainPc → Bool
  | .adding _ => true
  | _ => false

def ThreadPc.holds : ThreadPc → Bool
  | .removing _ | .removed _ | .setting _ | .replacing _ => true
  | _ => false

def ThreadPc.replaces : ThreadPc → Bool
  | .replacing _ => true
  | _ => false

/-- The mutex is in the hands of the holder. -/
def holds (s : AcceptLoop) : Holder → Bool
  | .main => s.main.holds
  | .thread i => s.threads[i]?.any ThreadPc.holds

structure Inv (s : AcceptLoop) : Prop where
  held : Held s._mutex fun holder => s.holds holder = true
  active : ∀ session ∈ s.manager._activeSession, session ∈ s.manager._sessions
  /-- nobody is in a `Remove` that `SetActive` has called -/
  alone : ∀ i : Nat, s.threads[i]?.any ThreadPc.replaces = false
  /-- a session whose disconnect has been notified is still going to be removed -/
  pending : ∀ session ∈ s.notified,
    session ∈ s.manager._sessions ∨ s.main.adds = some session →
      ∃ i : Nat, s.threads[i]?.any (ThreadPc.removes session) = true

section Runs

variable {s t : AcceptLoop} {i j : Nat} {old pc : ThreadPc} {session : Address}

theorem Inv.initial : (initial none).Inv where
  held := by
    intro holder
    cases holder with
    | main => simp [AcceptLoop.initial, holds, MainPc.holds]
    | thread i => simp [AcceptLoop.initial, holds]
  active := nofun
  alone := by simp [AcceptLoop.initial]
  pending := nofun

theorem any_moved (h : s.threads[i]? = some old) (f : ThreadPc → Bool) :
    (s.moved i pc).threads[j]?.any f = if j = i then f pc else s.threads[j]?.any f := by
  have hi : i < s.threads.length := (List.getElem?_eq_some_iff.mp h).1
  unfold moved
  by_cases hj : j = i
  · subst hj
    rw [List.getElem?_set_self hi, if_pos rfl]
    rfl
  · rw [List.getElem?_set_ne (Ne.symm hj), if_neg hj]

theorem any_append {f : ThreadPc → Bool} (hf : f pc = false) (threads : List ThreadPc) :
    (threads ++ [pc])[j]?.any f = threads[j]?.any f := by
  rw [List.getElem?_append]
  split_ifs with hj
  · rfl
  · rw [List.getElem?_eq_none (Nat.not_lt.mp hj), List.getElem?_singleton]
    split_ifs
    · exact hf
    · rfl

/-- **What the invariant promises.** -/
theorem Inv.safe (h : s.Inv) : s.Safe where
  active := h.active
  relock := by
    intro holder hholder
    have hholds : s.holds holder = true := (h.held holder).mp hholder
    cases holder with
    | main =>
      unfold holds at hholds
      unfold atMutex
      dsimp only at hholds ⊢
      cases hmain : s.main with
      | started _ =>
        rw [hmain] at hholds
        cases hholds
      | _ => rfl
    | thread i =>
      have halone := h.alone i
      unfold holds at hholds
      unfold atMutex
      dsimp only at hholds ⊢
      cases hi : s.threads[i]? with
      | none => rfl
      | some pc =>
        rw [hi, Option.any_some] at hholds halone
        cases pc with
        | replacing _ => cases halone
        | removing _ | removed _ | setting _ => rfl
        | _ => cases hholds
  gone := by
    rintro ⟨-, hended⟩ session hsession hnotified
    obtain ⟨i, hi⟩ := h.pending session hnotified (.inl hsession)
    obtain ⟨pc, hpc, hremoves⟩ := (Option.any_eq_true _ _).mp hi
    rw [hended pc (List.mem_of_getElem? hpc)] at hremoves
    cases hremoves

theorem any_of_getElem (h : s.threads[i]? = some old) (f : ThreadPc → Bool) :
    s.threads[i]?.any f = f old := by
  rw [h]
  rfl

/-- A thread that goes on, and still removes what it was going to remove. -/
theorem removes_moved (h : s.threads[i]? = some old)
    (hremoves : old.removes session = true → pc.removes session = true)
    (hpending : ∃ j : Nat, s.threads[j]?.any (ThreadPc.removes session) = true) :
    ∃ j : Nat, (s.moved i pc).threads[j]?.any (ThreadPc.removes session) = true := by
  obtain ⟨j, hj⟩ := hpending
  refine ⟨j, ?_⟩
  rw [any_moved h]
  split_ifs with hij
  · rw [hij, any_of_getElem h] at hj
    exact hremoves hj
  · exact hj

theorem alone_moved (hs : s.Inv) (h : s.threads[i]? = some old) (hreplaces : pc.replaces = false)
    (j : Nat) : (s.moved i pc).threads[j]?.any ThreadPc.replaces = false := by
  rw [any_moved h]
  split_ifs
  · exact hreplaces
  · exact hs.alone j

/-- Who else has the mutex does not change. -/
theorem holds_moved_of_ne (h : s.threads[i]? = some old) {holder : Holder}
    (hne : holder ≠ .thread i) :
    (s.moved i pc).holds holder = s.holds holder := by
  cases holder with
  | main => rfl
  | thread j =>
    have hj : j ≠ i := fun hj => hne (hj ▸ rfl)
    unfold holds
    dsimp only
    rw [any_moved h, if_neg hj]

theorem holds_moved_self (h : s.threads[i]? = some old) :
    (s.moved i pc).holds (.thread i) = pc.holds := by
  unfold holds
  dsimp only
  rw [any_moved h, if_pos rfl]

theorem holds_self (h : s.threads[i]? = some old) : s.holds (.thread i) = old.holds :=
  any_of_getElem h _

theorem held_moved (hs : s.Inv) (h : s.threads[i]? = some old) (hholds : pc.holds = old.holds) :
    Held s._mutex fun holder => (s.moved i pc).holds holder = true := by
  refine hs.held.keep fun holder => ?_
  by_cases hne : holder = .thread i
  · rw [hne, holds_moved_self h, holds_self h, hholds]
  · rw [holds_moved_of_ne h hne]

/-- A thread that neither takes the mutex nor lets it go. -/
theorem Inv.moves (hs : s.Inv) (h : s.threads[i]? = some old) (hholds : pc.holds = old.holds)
    (hreplaces : pc.replaces = false)
    (hremoves : ∀ session, old.removes session = true → pc.removes session = true) :
    (s.moved i pc).Inv where
  held := held_moved hs h hholds
  active := hs.active
  alone := alone_moved hs h hreplaces
  pending := fun session hnotified hthere =>
    removes_moved h (hremoves session) (hs.pending session hnotified hthere)

/-- A thread that takes the mutex. -/
theorem Inv.locks (hs : s.Inv) (h : s.threads[i]? = some old) (hholds : pc.holds = true)
    (hreplaces : pc.replaces = false)
    (hremoves : ∀ session, old.removes session = true → pc.removes session = true)
    (ht : s.locks i pc = some t) : t.Inv := by
  obtain ⟨hfree, ht⟩ := Option.ite_none_right_eq_some.mp ht
  obtain rfl := Option.some.inj ht
  have hheld := hs.held
  rw [hfree] at hheld
  refine ⟨hheld.acquire ?_ ?_, hs.active, alone_moved hs h hreplaces, fun session hnotified hthere =>
    removes_moved h (hremoves session) (hs.pending session hnotified hthere)⟩
  · exact (holds_moved_self h).trans hholds
  · intro holder hne hholds
    exact (holds_moved_of_ne h hne).symm.trans hholds

/-- A thread that lets the mutex go, and removes nothing more. -/
theorem held_released (hs : s.Inv) (h : s.threads[i]? = some old) (hold : old.holds = true)
    (hpc : pc.holds = false) : Held none fun holder => (s.moved i pc).holds holder = true := by
  refine hs.held.release (p := .thread i) ?_ ?_ fun holder hne hholds => ?_
  · exact (holds_self h).trans hold
  · rw [holds_moved_self h, hpc]
    decide
  · exact (holds_moved_of_ne h hne).symm.trans hholds

/-- `main` goes on. -/
theorem Inv.mainStep (hs : s.Inv) (ht : s.mainStep = some t) : t.Inv := by
  obtain ⟨hheld, hactive, halone, hpending⟩ := hs
  unfold AcceptLoop.mainStep at ht
  cases hmain : s.main with
  | accepting =>
    rw [hmain] at ht
    cases ht
  | created session =>
    rw [hmain] at ht
    obtain rfl := Option.some.inj ht
    refine ⟨hheld.keep fun holder => ?_, hactive, halone, ?_⟩
    · cases holder with
      | main => simp [holds, hmain, MainPc.holds]
      | thread _ => rfl
    · rw [hmain] at hpending
      exact hpending
  | started session =>
    rw [hmain] at ht
    obtain ⟨hfree, ht⟩ := Option.ite_none_right_eq_some.mp ht
    obtain rfl := Option.some.inj ht
    rw [hfree] at hheld
    refine ⟨hheld.acquire rfl fun holder hne hholds => ?_, hactive, halone, ?_⟩
    · cases holder with
      | main => exact absurd rfl hne
      | thread _ => exact hholds
    · rw [hmain] at hpending
      exact hpending
  | adding session =>
    rw [hmain] at ht
    obtain rfl := Option.some.inj ht
    rw [hmain] at hpending
    refine ⟨hheld.release (p := .main) ?_ (by simp [holds, MainPc.holds]) fun holder hne hholds => ?_,
      fun active hactive' => ?_, halone, fun notified hnotified hthere =>
        hpending notified hnotified ?_⟩
    · simp [holds, hmain, MainPc.holds]
    · cases holder with
      | main => exact absurd rfl hne
      | thread _ => exact hholds
    · exact List.mem_append_left _ (hactive active hactive')
    · rcases hthere with hmem | hadds
      · rcases List.mem_append.mp hmem with hmem | hnew
        · exact .inl hmem
        · exact .inr (List.mem_singleton.mp hnew ▸ rfl)
      · cases hadds
  | added session =>
    rw [hmain] at ht
    obtain rfl := Option.some.inj ht
    refine ⟨hheld.keep fun holder => ?_, hactive, halone, fun notified hnotified hthere =>
      hpending notified hnotified (hthere.imp_right fun hadds => ?_)⟩
    · cases holder with
      | main => simp [holds, hmain, MainPc.holds]
      | thread _ => rfl
    · cases hadds

theorem otherRemoves_iff : s.otherRemoves i session = true ↔
    ∃ j : Nat, j ≠ i ∧ s.threads[j]?.any (ThreadPc.removes session) = true := by
  unfold otherRemoves
  rw [List.any_eq_true]
  constructor
  · rintro ⟨j, -, hj⟩
    rw [Bool.and_eq_true, decide_eq_true_eq] at hj
    exact ⟨j, hj⟩
  · rintro ⟨j, hne, hj⟩
    obtain ⟨pc, hpc, -⟩ := (Option.any_eq_true _ _).mp hj
    refine ⟨j, List.mem_range.mpr (List.getElem?_eq_some_iff.mp hpc).1, ?_⟩
    rw [Bool.and_eq_true, decide_eq_true_eq]
    exact ⟨hne, hj⟩

/-- `Remove`, in a thread. -/
theorem Inv.removing (hs : s.Inv) (h : s.threads[i]? = some (.removing session))
    (hsound : s.SoundThread i 0 (.removing session)) :
    ({ s.moved i (.removed session) with manager := s.manager.Remove session } : AcceptLoop).Inv where
  held := held_moved hs h rfl
  active := by
    intro active hactive
    unfold SessionManager.Remove at hactive ⊢
    dsimp only at hactive ⊢
    split_ifs at hactive with hsame
    · cases hactive
    · have hne : active ≠ session := fun heq => hsame (heq ▸ hactive)
      exact List.mem_filter.mpr ⟨hs.active active hactive, decide_eq_true hne⟩
  alone := alone_moved hs h rfl
  pending := by
    intro notified hnotified hthere
    by_cases heq : notified = session
    · subst heq
      -- it is not one of the sessions any more, so that `main` is going to add it
      have hadds : s.main.adds = some notified := by
        refine hthere.resolve_left fun hmem => ?_
        simpa using (List.mem_filter.mp hmem).2
      obtain ⟨j, hne, hj⟩ := otherRemoves_iff.mp (hsound hadds hnotified)
      refine ⟨j, ?_⟩
      dsimp only
      rw [any_moved h, if_neg hne]
      exact hj
    · refine removes_moved h (fun hremoves => ?_)
        (hs.pending notified hnotified (hthere.imp_left fun hmem => (List.mem_filter.mp hmem).1))
      exact absurd (of_decide_eq_true hremoves) (Ne.symm heq)

/-- **A sound step of a thread keeps the invariant.** -/
theorem Inv.threadStep (hs : s.Inv) {found : Address} (h : s.threads[i]? = some old)
    (hsound : s.SoundThread i found old) (ht : s.threadStep i found old = some t) : t.Inv := by
  cases old with
  | detached session frame =>
    obtain rfl := Option.some.inj ht
    have hsession : (if frame then session else found) = session := by
      rcases hsound with hframe | hfound
      · rw [if_pos hframe]
      · rw [hfound, ite_self]
    rw [hsession]
    exact hs.moves h rfl rfl fun _ hremoves => hremoves
  | remove session =>
    have hlocks : s.locks i (.removing session) = some t := ht
    refine hs.locks h rfl rfl ?_ hlocks
    exact fun _ hremoves => hremoves
  | removing session =>
    obtain rfl := Option.some.inj ht
    exact hs.removing h hsound
  | removed session =>
    obtain rfl := Option.some.inj ht
    exact ⟨held_released hs h rfl rfl, hs.active, alone_moved hs h rfl, fun notified hnotified hthere =>
      removes_moved h (fun hremoves => absurd hremoves Bool.false_ne_true)
        (hs.pending notified hnotified hthere)⟩
  | setActive session =>
    have hlocks : s.locks i (.setting session) = some t := ht
    exact hs.locks h rfl rfl (fun _ hremoves => absurd hremoves Bool.false_ne_true) hlocks
  | setting session =>
    obtain ⟨hnull, hmem⟩ := hsound
    unfold AcceptLoop.threadStep at ht
    dsimp only at ht
    rw [hnull] at ht
    obtain rfl := Option.some.inj ht
    refine ⟨held_released hs h rfl rfl, fun active hactive => ?_, alone_moved hs h rfl,
      fun notified hnotified hthere =>
        removes_moved h (fun hremoves => absurd hremoves Bool.false_ne_true)
        (hs.pending notified hnotified hthere)⟩
    exact Option.some.inj hactive ▸ hmem
  | replacing session => cases ht
  | ended => cases ht

/-- A thread that is new, and has nothing to do with the mutex yet. -/
theorem held_append (hs : s.Inv) (hpc : pc.holds = false) :
    Held s._mutex fun holder =>
      ({ s with threads := s.threads ++ [pc] } : AcceptLoop).holds holder = true := by
  refine hs.held.keep fun holder => ?_
  cases holder with
  | main => rfl
  | thread j =>
    unfold holds
    dsimp only
    rw [any_append hpc]

theorem removes_append (pc : ThreadPc)
    (h : ∃ j : Nat, s.threads[j]?.any (ThreadPc.removes session) = true) :
    ∃ j : Nat, (s.threads ++ [pc])[j]?.any (ThreadPc.removes session) = true := by
  obtain ⟨j, hj⟩ := h
  obtain ⟨old, hold, -⟩ := (Option.any_eq_true _ _).mp hj
  refine ⟨j, ?_⟩
  rw [List.getElem?_append_left (List.getElem?_eq_some_iff.mp hold).1]
  exact hj

/-- **A sound step keeps the invariant.** -/
theorem Inv.step {a : Action} (hs : s.Inv) (hsound : s.Sound a) (ht : s.step a = some t) :
    t.Inv := by
  cases a with
  | accepts session =>
    obtain ⟨⟨hmain, -⟩, ht⟩ := Option.ite_none_right_eq_some.mp ht
    obtain rfl := Option.some.inj ht
    refine ⟨hs.held.keep fun holder => ?_, hs.active, hs.alone, fun notified hnotified hthere => ?_⟩
    · cases holder with
      | main => simp [holds, hmain, MainPc.holds]
      | thread _ => rfl
    · obtain ⟨hbefore, hother⟩ := List.mem_filter.mp hnotified
      refine hs.pending notified hbefore (.inl (hthere.resolve_right fun hadds => ?_))
      exact of_decide_eq_true hother (Option.some.inj hadds).symm
  | main => exact hs.mainStep ht
  | connected session =>
    obtain ⟨-, ht⟩ := Option.ite_none_right_eq_some.mp ht
    obtain rfl := Option.some.inj ht
    refine ⟨held_append hs rfl, hs.active, fun j => ?_, fun notified hnotified hthere =>
      removes_append _ (hs.pending notified hnotified hthere)⟩
    exact (any_append rfl _).trans (hs.alone j)
  | disconnected session =>
    obtain ⟨-, ht⟩ := Option.ite_none_right_eq_some.mp ht
    obtain rfl := Option.some.inj ht
    refine ⟨held_append hs rfl, hs.active, fun j => ?_, fun notified hnotified hthere => ?_⟩
    · exact (any_append rfl _).trans (hs.alone j)
    · rcases List.mem_cons.mp hnotified with rfl | hbefore
      · refine ⟨s.threads.length, ?_⟩
        dsimp only
        rw [List.getElem?_concat_length]
        exact decide_eq_true rfl
      · exact removes_append _ (hs.pending notified hbefore hthere)
  | returns i =>
    unfold AcceptLoop.step at ht
    dsimp only at ht
    split at ht
    · next session hi =>
      obtain rfl := Option.some.inj ht
      exact hs.moves hi rfl rfl fun _ hremoves => hremoves
    · cases ht
  | thread i found =>
    obtain ⟨pc, hpc, ht⟩ := Option.bind_eq_some_iff.mp ht
    exact hs.threadStep hpc (hsound pc hpc) ht

/-- **The sessions are safe**, from a null `_activeSession` and as long as every step is sound. -/
theorem sessions_safe (_activeSession : Option Address) (hnull : _activeSession = none)
    (actions : List Action) (hsound : Meets step Sound (initial _activeSession) actions) :
    Along step Safe (initial _activeSession) actions := by
  subst hnull
  exact along_of_meets (fun _ hs => hs.safe) (fun _ _ _ hs hok ht => hs.step hok ht) Inv.initial hsound

/-- A session that is accepted and added. -/
def arrives (session : Address) : List Action := [.accepts session, .main, .main, .main, .main]

/-- A session that becomes active, and is removed. -/
theorem sessions_safe_one : Along step Safe (initial none)
    (arrives 1 ++ [.connected 1, .thread 0 0, .thread 0 0, .disconnected 1, .thread 1 0, .returns 1,
      .thread 1 0, .thread 1 0, .thread 1 0]) :=
  sessions_safe none rfl _ (by decide +kernel)

/-- What memory has at first in `_activeSession`; a second session that connects, which has its
thread take the mutex twice; a session that connects before it is added; one whose disconnect
overtakes `Add`, and one whose thread finds something else where its session has been. -/
theorem sessions_not_safe : ¬ Along step Safe (initial (some 7)) [] ∧
    ¬ Along step Safe (initial none) (arrives 1 ++ [.connected 1, .thread 0 0, .thread 0 0] ++ arrives 2 ++
      [.connected 2, .thread 1 0, .thread 1 0]) ∧
    ¬ Along step Safe (initial none) [.accepts 1, .main, .connected 1, .thread 0 0, .thread 0 0] ∧
    ¬ Along step Safe (initial none) [.accepts 1, .main, .disconnected 1, .thread 0 0, .thread 0 0,
      .thread 0 0, .thread 0 0, .main, .main, .main] ∧
    ¬ Along step Safe (initial none) (arrives 1 ++ [.disconnected 1, .returns 0, .thread 0 7, .thread 0 0,
      .thread 0 0, .thread 0 0]) := by
  have hnot_safe (s : AcceptLoop) (actions : List Action)
      (h : (run step s actions).any (fun t => ¬ t.Safe) = true) : ¬ Along step Safe s actions := by
    intro halong
    obtain ⟨t, ht, hnot⟩ := run_of_any h
    exact hnot (halong.last ht)
  exact ⟨hnot_safe _ _ (by decide +kernel), hnot_safe _ _ (by decide +kernel), hnot_safe _ _ (by decide +kernel),
    hnot_safe _ _ (by decide +kernel), hnot_safe _ _ (by decide +kernel)⟩

end Runs

end AcceptLoop

end TiraRdp
