import TiraRdp.Utility.AsyncBaseThreads

/-!
# What `StopAsyncBase` leaves

The life cycle of the worker over the system of `AsyncBaseThreads`. `m_status` is written by the
operations under `m_operationMutex`, and by the handler of the thread function without it
(`AsyncBase.cpp:94-98`), so the handler may write after a stop has written. `Quiet` is a stopped
object that nobody is about to change; a stop without a concurrent start is past its first block
only in a quiet object, as long as the handler writes over no stop (`NoLateError`).

Results: such a stop, about to return, leaves a stopped object without a worker, and the next start
makes one (`stop_leaves_stopped`); a stop that cancels the worker's blocking call may return in
`Status_Error` (`cancelled_stop_in_error`).
-/

namespace TiraRdp

open Lib Lib.Lts Lib.Locks

namespace AsyncBaseThreads

variable {τ : Type} [DecidableEq τ] {s s' : AsyncBaseThreads τ} {t : τ} {pc : CallPc}

/-- The worker's handler does not write its error over a stop. -/
def NoLateError (s : AsyncBaseThreads τ) : Action τ → Prop
  | .worker => s.m_workingThread = some .caught → s.m_status ≠ .Status_Stopped
  | _ => True

instance (s : AsyncBaseThreads τ) : DecidablePred s.NoLateError
  | .worker => inferInstanceAs (Decidable (_ → ¬ _))
  | .call _ _ | .thread _ | .canLoop | .wake | .returns | .throws _ => .isTrue trivial

/-- A stopped object: no start is on its way, and nobody is about to write the status. -/
structure Quiet (s : AsyncBaseThreads τ) : Prop where
  status : s.m_status = .Status_Stopped
  noStart : ∀ u, (s.pc u).inStart = false
  noWrite : ∀ u, (s.pc u).writing = false

/-- A step of `t` to `pc`, where every other thread was in a phase of a kind. -/
theorem phases_moved {P : CallPc → Prop} (hpc : s'.pc = Function.update s.pc t pc) (hself : P pc)
    (h : ∀ u, u ≠ t → P (s.pc u)) (u : τ) : P (s'.pc u) := by
  by_cases heq : u = t
  · subst heq
    rwa [pc_self hpc]
  · rw [pc_of_ne hpc heq]
    exact h u heq

theorem acts_stopped {op : Operation} (h : op.acts .Status_Stopped = true) : op = .Start := by
  cases op with
  | Start => rfl
  | _ => simp [Operation.acts] at h

theorem skips_stop {m_status : Ti_Worker_Status} (h : Operation.Stop.acts m_status = false) :
    m_status = .Status_Stopped := by
  cases m_status with
  | Status_Stopped => rfl
  | _ => simp [Operation.acts] at h

theorem inStart_test (op : Operation) : (CallPc.test op).inStart = (CallPc.enter op).inStart := by
  cases op <;> rfl

theorem inStart_write (op : Operation) (seen : Ti_Worker_Status) :
    (CallPc.write op seen).inStart = (CallPc.enter op).inStart := by
  cases op <;> rfl

theorem inStart_next (op : Operation) : op.next.inStart = false := by
  cases op <;> rfl

theorem writing_next (op : Operation) : op.next.writing = false := by
  cases op <;> rfl

theorem pc_thread_of_ne (hmove : ThreadMoves s t s') {u : τ} (hu : u ≠ t) : s'.pc u = s.pc u := by
  cases hmove with
  | terminates => rfl
  | _ => exact pc_of_ne (s := s) (t := t) rfl hu

theorem phases_thread {P : CallPc → Prop} (hmove : ThreadMoves s t s') (hself : P (s'.pc t))
    (h : ∀ u, u ≠ t → P (s.pc u)) (u : τ) : P (s'.pc u) := by
  by_cases heq : u = t
  · exact heq ▸ hself
  · rw [pc_thread_of_ne hmove heq]
    exact h u heq

/-- No step but the call begins a start. -/
theorem noStart_self (h : (s.pc t).inStart = false) (hmove : ThreadMoves s t s') :
    (s'.pc t).inStart = false := by
  cases hmove with
  | enter op hpc => simpa only [goto_pc_self, inStart_test, hpc] using h
  | acts op hpc => simpa only [goto_pc_self, inStart_write, inStart_test, hpc] using h
  | skips op => simp only [release_pc_self, inStart_next]
  | starts hpc => simp [hpc, CallPc.inStart] at h
  | writes op => simp only [release_pc_self, inStart_next]
  | launch hpc => simp [hpc, CallPc.inStart] at h
  | terminates => exact h
  | create hpc => simp [hpc, CallPc.inStart] at h
  | _ => simp [CallPc.inStart]

/-- A thread in no start writes nothing to a stopped object. -/
theorem stopped_self (hstatus : s.m_status = .Status_Stopped) (hstart : (s.pc t).inStart = false)
    (hwrite : (s.pc t).writing = false) (hmove : ThreadMoves s t s') :
    s'.m_status = .Status_Stopped ∧ (s'.pc t).writing = false := by
  cases hmove with
  | enter => exact ⟨hstatus, by simp [CallPc.writing]⟩
  | acts op hpc hacts =>
    -- on a stopped object only a start acts
    rw [hstatus] at hacts
    rw [hpc, acts_stopped hacts] at hstart
    cases hstart
  | skips op => exact ⟨hstatus, by rw [release_pc_self, writing_next]⟩
  | starts hpc => simp [hpc, CallPc.writing] at hwrite
  | writes op seen hpc => simp [hpc, CallPc.writing] at hwrite
  | terminates => exact ⟨hstatus, hwrite⟩
  | create hpc => simp [hpc, CallPc.inStart] at hstart
  | _ => exact ⟨hstatus, by simp [CallPc.writing]⟩

theorem noStart_thread (h : ∀ u, (s.pc u).inStart = false) (hmove : ThreadMoves s t s') (u : τ) :
    (s'.pc u).inStart = false :=
  phases_thread (P := fun pc => pc.inStart = false) hmove (noStart_self (h t) hmove) (fun v _ => h v) u

theorem Quiet.thread (h : Quiet s) (hmove : ThreadMoves s t s') : Quiet s' := by
  obtain ⟨hstatus, hnoStart, hnoWrite⟩ := h
  obtain ⟨hstatus', hwrite⟩ := stopped_self hstatus (hnoStart t) (hnoWrite t) hmove
  refine ⟨hstatus', noStart_thread hnoStart hmove, ?_⟩
  exact phases_thread (P := fun pc => pc.writing = false) hmove hwrite fun u _ => hnoWrite u

theorem inStart_enter {op : Operation} (hop : op ≠ .Start) : (CallPc.enter op).inStart = false := by
  cases op with
  | Start => exact absurd rfl hop
  | _ => rfl

theorem noStart_call {op : Operation} (hop : op ≠ .Start) (h : ∀ u, (s.pc u).inStart = false)
    (u : τ) : ((s.callStep t op).pc u).inStart = false :=
  phases_moved (P := fun pc => pc.inStart = false) (callStep_pc s t op) (inStart_enter hop)
    (fun v _ => h v) u

/-- A stopped object stays stopped while no start is called and the handler writes no error. -/
theorem Quiet.step {a : Action τ} (h : Quiet s) (hcall : ∀ t, a ≠ .call t .Start)
    (hlate : s.NoLateError a) (hs : step s a = some s') : Quiet s' := by
  cases step_moves hs with
  | call t op hpc =>
    obtain ⟨hstatus, hnoStart, hnoWrite⟩ := h
    have hop : op ≠ .Start := fun heq => hcall t (heq ▸ rfl)
    refine ⟨by rwa [callStep_m_status], noStart_call hop hnoStart, ?_⟩
    exact phases_moved (P := fun pc => pc.writing = false) (callStep_pc s t op) rfl
      fun u _ => hnoWrite u
  | thread t hmove => exact h.thread hmove
  | roams => exact ⟨h.status, h.noStart, h.noWrite⟩
  | locks => exact ⟨h.status, h.noStart, h.noWrite⟩
  | unlocks => exact ⟨h.status, h.noStart, h.noWrite⟩
  | fails hw => exact absurd h.status (hlate hw)
  | terminates => exact ⟨h.status, h.noStart, h.noWrite⟩

/-- The life cycle, as the ghost fields see it. -/
structure Life (s : AsyncBaseThreads τ) : Prop where
  locked : Locked s
  starting : ∀ u, (s.pc u).inStart = true → u ∈ s.starting
  alone : ∀ t, s.alone t = true → ∀ u, (s.pc u).inStart = false
  stopped : ∀ t, s.alone t = true → (s.pc t).stopping = true → Quiet s
  reaped : ∀ t, s.alone t = true → s.pc t = .leave → s.m_workingThread = none

omit [DecidableEq τ] in
theorem Life.initial : Life (initial : AsyncBaseThreads τ) where
  locked := Locked.initial
  starting _ h := by cases h
  alone _ h := by cases h
  stopped _ h := by cases h
  reaped _ h := by cases h

theorem callStep_alone_of_ne {op : Operation} (hop : op ≠ .Start) {u : τ} (hu : u ≠ t) :
    (s.callStep t op).alone u = s.alone u := by
  cases op with
  | Start => exact absurd rfl hop
  | Stop => exact Function.update_of_ne hu _ _
  | Pause => rfl
  | Resume => rfl

theorem callStep_alone_self {op : Operation} (hop : op ≠ .Start)
    (h : (s.callStep t op).alone t = true) : s.alone t = true ∨ s.starting = [] := by
  cases op with
  | Start => exact absurd rfl hop
  | Stop =>
    have hself : (s.callStep t .Stop).alone t = s.starting.isEmpty := Function.update_self ..
    rw [hself] at h
    exact .inr (List.isEmpty_iff.mp h)
  | Pause => exact .inl h
  | Resume => exact .inl h

theorem callStep_starting {op : Operation} (hop : op ≠ .Start) :
    (s.callStep t op).starting = s.starting := by
  cases op with
  | Start => exact absurd rfl hop
  | _ => rfl

theorem Life.call_start (h : Life s) (hlocked : Locked (s.callStep t .Start)) :
    Life (s.callStep t .Start) := by
  refine ⟨hlocked, fun u hu => ?_, nofun, nofun, nofun⟩
  by_cases heq : u = t
  · exact heq ▸ List.mem_cons_self
  · rw [pc_of_ne (callStep_pc s t _) heq] at hu
    exact List.mem_cons_of_mem t (h.starting u hu)

theorem Life.call {op : Operation} (hop : op ≠ .Start) (h : Life s)
    (hquiet : Quiet s → Quiet (s.callStep t op)) (hlocked : Locked (s.callStep t op)) :
    Life (s.callStep t op) := by
  have hmoved := callStep_pc s t op
  obtain ⟨-, hstarting, halone, hstopped, hreaped⟩ := h
  refine ⟨hlocked, fun u hu => ?_, fun v hv => ?_, fun v hv hpc => ?_, fun v hv hpc => ?_⟩
  · rw [callStep_starting hop]
    by_cases heq : u = t
    · subst heq
      rw [pc_self hmoved, inStart_enter hop] at hu
      cases hu
    · rw [pc_of_ne hmoved heq] at hu
      exact hstarting u hu
  · have hall : ∀ u, (s.pc u).inStart = false := by
      have hnobody (hnil : s.starting = []) (u : τ) : (s.pc u).inStart = false := by
        cases hin : (s.pc u).inStart with
        | false => rfl
        | true => simpa [hnil] using hstarting u hin
      by_cases heq : v = t
      · subst heq
        exact (callStep_alone_self hop hv).elim (halone v) hnobody
      · rw [callStep_alone_of_ne hop heq] at hv
        exact halone v hv
    exact noStart_call hop hall
  · have heq : v ≠ t := by
      rintro rfl
      rw [pc_self hmoved] at hpc
      cases hpc
    rw [callStep_alone_of_ne hop heq] at hv
    rw [pc_of_ne hmoved heq] at hpc
    exact hquiet (hstopped v hv hpc)
  · have heq : v ≠ t := by
      rintro rfl
      rw [pc_self hmoved] at hpc
      cases hpc
    rw [callStep_alone_of_ne hop heq] at hv
    rw [pc_of_ne hmoved heq] at hpc
    rw [callStep_m_workingThread]
    exact hreaped v hv hpc

theorem alone_thread (hmove : ThreadMoves s t s') : s'.alone = s.alone := by
  cases hmove <;> rfl

theorem worker_thread (hmove : ThreadMoves s t s') (hstart : (s.pc t).inStart = false)
    (hnone : s.m_workingThread = none) : s'.m_workingThread = none := by
  cases hmove with
  | create hpc => simp [hpc, CallPc.inStart] at hstart
  | joined => rfl
  | _ => exact hnone

theorem mem_release (op : Operation) {u : τ} (hu : u ≠ t) (h : u ∈ s.starting) :
    u ∈ (s.release t op).starting := by
  by_cases hop : op = .Start
  · rw [release, if_pos hop, List.mem_filter]
    exact ⟨h, by simpa using hu⟩
  · rwa [release, if_neg hop]

theorem starting_thread (h : ∀ u, (s.pc u).inStart = true → u ∈ s.starting)
    (hmove : ThreadMoves s t s') (u : τ) (hu : (s'.pc u).inStart = true) : u ∈ s'.starting := by
  by_cases heq : u = t
  · subst heq
    have hself := h u
    cases hmove with
    | enter op hpc =>
      simp only [goto_pc_self, inStart_test, ← hpc] at hu
      exact hself hu
    | acts op hpc =>
      rw [goto_pc_self, inStart_write, ← inStart_test, ← hpc] at hu
      exact hself hu
    | skips op => simp [inStart_next] at hu
    | starts hpc => exact hself (by rw [hpc]; rfl)
    | writes op => simp [inStart_next] at hu
    | launch hpc => exact hself (by rw [hpc]; rfl)
    | terminates hpc => exact hself hu
    | create => simp [inStart_next] at hu
    | _ => simp [CallPc.inStart] at hu
  · have hmem : u ∈ s.starting := h u (by rwa [pc_thread_of_ne hmove heq] at hu)
    cases hmove with
    | skips op => exact mem_release op heq hmem
    | writes op => exact mem_release op heq hmem
    | create => exact mem_release .Start heq hmem
    | _ => exact hmem

/-- A stop comes behind its first block with the object stopped. -/
theorem stops_thread (hmove : ThreadMoves s t s') (hbefore : (s.pc t).stopping = false)
    (hafter : (s'.pc t).stopping = true) :
    s'.m_status = .Status_Stopped ∧ (s.pc t).underOperation = true ∧ s'.pc t = .reap := by
  cases hmove with
  | skips op hpc hacts =>
    cases op with
    | Stop => exact ⟨skips_stop hacts, by rw [hpc]; rfl, release_pc_self s t .Stop⟩
    | _ => simp [Operation.next, CallPc.stopping] at hafter
  | writes op seen hpc =>
    cases op with
    | Stop => exact ⟨rfl, by rw [hpc]; rfl, release_pc_self s t .Stop⟩
    | _ => simp [Operation.next, CallPc.stopping] at hafter
  | create => simp [Operation.next, CallPc.stopping] at hafter
  | terminates hpc => simp [hpc, CallPc.stopping] at hafter
  | reap hpc => simp [hpc, CallPc.stopping] at hbefore
  | absent hpc => simp [hpc, CallPc.stopping] at hbefore
  | joined hpc => simp [hpc, CallPc.stopping] at hbefore
  | _ => simp [CallPc.stopping] at hafter

theorem underOperation_of_writing (h : pc.writing = true) : pc.underOperation = true := by
  cases pc with
  | write op seen => rfl
  | _ => simp [CallPc.writing] at h

theorem Quiet.of_stop (h : Life s) (hmove : ThreadMoves s t s') (halone : s.alone t = true)
    (hbefore : (s.pc t).stopping = false) (hafter : (s'.pc t).stopping = true) : Quiet s' := by
  obtain ⟨hstatus, hunder, hpc⟩ := stops_thread hmove hbefore hafter
  refine ⟨hstatus, noStart_thread (h.alone t halone) hmove, ?_⟩
  refine phases_thread (P := fun pc => pc.writing = false) hmove (by rw [hpc]; rfl) fun u hu => ?_
  cases hwrite : (s.pc u).writing with
  | false => rfl
  | true =>
    -- two threads under `m_operationMutex`
    have hboth : Party.thread u = Party.thread t :=
      h.locked.operation.unique (underOperation_of_writing hwrite) hunder
    exact absurd (Party.thread.inj hboth) hu

theorem Life.thread (h : Life s) (hmove : ThreadMoves s t s') : Life s' := by
  refine ⟨h.locked.thread hmove, starting_thread h.starting hmove, ?_, ?_, ?_⟩
  · intro v hv
    rw [alone_thread hmove] at hv
    exact noStart_thread (h.alone v hv) hmove
  · intro v hv hpc
    rw [alone_thread hmove] at hv
    cases hbefore : (s.pc v).stopping with
    | true => exact (h.stopped v hv hbefore).thread hmove
    | false =>
      by_cases heq : v = t
      · subst heq
        exact Quiet.of_stop h hmove hv hbefore hpc
      · rw [pc_thread_of_ne hmove heq, hbefore] at hpc
        cases hpc
  · intro v hv hpc
    rw [alone_thread hmove] at hv
    by_cases heq : v = t
    · subst heq
      cases hmove with
      | absent _ hw => exact hw
      | joined => rfl
      | skips op =>
        cases op <;> simp [Operation.next] at hpc
      | writes op =>
        cases op <;> simp [Operation.next] at hpc
      | terminates hpc' => simp [hpc'] at hpc
      | create => simp [Operation.next] at hpc
      | _ => simp at hpc
    · rw [pc_thread_of_ne hmove heq] at hpc
      exact worker_thread hmove (h.alone v hv t) (h.reaped v hv hpc)

omit [DecidableEq τ] in
/-- A step of the worker. -/
theorem Life.worker (h : Life s) (hlocked : Locked s') (hpc : s'.pc = s.pc)
    (hstarting : s'.starting = s.starting) (halone : s'.alone = s.alone)
    (hstatus : s.m_status = .Status_Stopped → s'.m_status = .Status_Stopped)
    (hworker : s.m_workingThread = none → s'.m_workingThread = none) : Life s' := by
  refine ⟨hlocked, ?_, ?_, ?_, ?_⟩
  · rw [hpc, hstarting]
    exact h.starting
  · rw [hpc, halone]
    exact h.alone
  · intro t ht hstopping
    rw [halone] at ht
    rw [hpc] at hstopping
    obtain ⟨hs, hnoStart, hnoWrite⟩ := h.stopped t ht hstopping
    exact ⟨hstatus hs, hpc ▸ hnoStart, hpc ▸ hnoWrite⟩
  · intro t ht hleave
    rw [halone] at ht
    rw [hpc] at hleave
    exact hworker (h.reaped t ht hleave)

theorem Life.step {a : Action τ} (h : Life s) (hlate : s.NoLateError a) (hs : step s a = some s') :
    Life s' := by
  have hlocked := h.locked.step hs
  cases step_moves hs with
  | call t op =>
    by_cases hop : op = .Start
    · subst hop
      exact h.call_start hlocked
    · refine h.call hop (fun hq => hq.step (fun u heq => hop ?_) hlate hs) hlocked
      exact (Action.call.inj heq).2
  | thread t hmove => exact h.thread hmove
  | roams _ w w' hw => exact h.worker hlocked rfl rfl rfl id (fun hnone => by simp [hw] at hnone)
  | locks hw => exact h.worker hlocked rfl rfl rfl id (fun hnone => by simp [hw] at hnone)
  | unlocks w hw => exact h.worker hlocked rfl rfl rfl id (fun hnone => by simp [hw] at hnone)
  | fails hw =>
    refine h.worker hlocked rfl rfl rfl (fun hstopped => ?_) (fun hnone => by simp [hw] at hnone)
    exact absurd hstopped (hlate hw)
  | terminates => exact h.worker hlocked rfl rfl rfl id id

/-! ## The start behind a stop -/

/-- The next start of a thread makes a worker: nobody else calls a start before it has returned,
and it does not return, nor end the process, without a running worker. -/
def NextStartLaunches (s : AsyncBaseThreads τ) : Prop :=
  ∀ (u : τ) (as bs : List (Action τ)) (s' s'' : AsyncBaseThreads τ),
    (∀ v, Action.call v .Start ∉ as ++ bs) → run step s (as ++ .call u .Start :: bs) = some s' →
    (s'.pc u).inStart = true → step s' (.thread u) = some s'' →
      s''.terminated = false ∧ ((s''.pc u).inStart = true ∨ s''.m_workingThread = some .running)

/-- A stopped object without a worker. -/
structure Stopped (s : AsyncBaseThreads τ) : Prop where
  quiet : Quiet s
  gone : s.m_workingThread = none

theorem Stopped.step {a : Action τ} (h : Stopped s) (hcall : ∀ t, a ≠ .call t .Start)
    (hs : step s a = some s') : Stopped s' := by
  obtain ⟨hquiet, hgone⟩ := h
  have hlate : s.NoLateError a := by
    cases a with
    | worker => simp [NoLateError, hgone]
    | _ => trivial
  refine ⟨hquiet.step hcall hlate hs, ?_⟩
  cases step_moves hs with
  | call => rwa [callStep_m_workingThread]
  | thread t hmove => exact worker_thread hmove (hquiet.noStart t) hgone
  | roams _ w w' hw => simp [hgone] at hw
  | locks hw => simp [hgone] at hw
  | unlocks w hw => simp [hgone] at hw
  | fails hw => simp [hgone] at hw
  | terminates => exact hgone

/-- The one start of thread `u`, not yet past the making of its worker. -/
structure Starts (u : τ) (s : AsyncBaseThreads τ) : Prop where
  gone : s.m_workingThread = none
  others : ∀ v, v ≠ u → (s.pc v).inStart = false
  phase : (s.pc u).fresh = true ∨ s.pc u = .launch ∨ s.pc u = .create
  unwritten : (s.pc u).fresh = true →
    s.m_status = .Status_Stopped ∧ ∀ v, v ≠ u → (s.pc v).writing = false

theorem fresh_enter {op : Operation} (h : (CallPc.enter op).fresh = true) : op = .Start := by
  cases op with
  | Start => rfl
  | _ => cases h

theorem fresh_write {op : Operation} {seen : Ti_Worker_Status}
    (h : (CallPc.write op seen).fresh = true) : op = .Start ∧ seen = .Status_Stopped := by
  cases op with
  | Start =>
    cases seen with
    | Status_Stopped => exact ⟨rfl, rfl⟩
    | _ => cases h
  | _ => cases h

theorem inStart_of_fresh (h : pc.fresh = true) : pc.inStart = true := by
  cases pc with
  | enter op => rw [fresh_enter h]; rfl
  | test op =>
    cases op with
    | Start => rfl
    | _ => cases h
  | write op seen => rw [(fresh_write h).1]; rfl
  | _ => cases h

/-- A step of the start's own thread. -/
theorem Starts.self {u : τ} (h : Starts u s) (hmove : ThreadMoves s u s') :
    s'.terminated = s.terminated ∧
      (Starts u s' ∨ (∀ v, (s'.pc v).inStart = false) ∧ s'.m_workingThread = some .running) := by
  obtain ⟨hgone, hothers, hphase, hunwritten⟩ := h
  have hothers' (v : τ) (hv : v ≠ u) : (s'.pc v).inStart = false := by
    rw [pc_thread_of_ne hmove hv]
    exact hothers v hv
  have hwrites (hfresh : (s.pc u).fresh = true) (v : τ) (hv : v ≠ u) :
      (s'.pc v).writing = false := by
    rw [pc_thread_of_ne hmove hv]
    exact (hunwritten hfresh).2 v hv
  cases hmove with
  | enter op hpc =>
    have hfresh : (s.pc u).fresh = true := by simpa [hpc] using hphase
    obtain rfl : op = .Start := fresh_enter (hpc ▸ hfresh)
    refine ⟨rfl, .inl ⟨hgone, hothers', .inl ?_, fun _ => ⟨(hunwritten hfresh).1, hwrites hfresh⟩⟩⟩
    rw [goto_pc_self]
    rfl
  | acts op hpc =>
    have hfresh : (s.pc u).fresh = true := by simpa [hpc] using hphase
    have hstatus := (hunwritten hfresh).1
    obtain rfl : op = .Start := by
      rw [hpc] at hfresh
      cases op with
      | Start => rfl
      | _ => cases hfresh
    refine ⟨rfl, .inl ⟨hgone, hothers', .inl ?_, fun _ => ⟨hstatus, hwrites hfresh⟩⟩⟩
    rw [goto_pc_self, hstatus]
    rfl
  | skips op hpc hacts =>
    have hfresh : (s.pc u).fresh = true := by simpa [hpc] using hphase
    rw [(hunwritten hfresh).1] at hacts
    rw [hpc] at hfresh
    cases op with
    | Start => cases hacts
    | _ => cases hfresh
  | starts hpc =>
    have hlaunch : (s.goto u .launch).pc u = .launch := goto_pc_self s u .launch
    refine ⟨rfl, .inl ⟨hgone, hothers', .inr (.inl hlaunch), fun hfresh => ?_⟩⟩
    rw [hlaunch] at hfresh
    cases hfresh
  | writes op seen hpc hstart =>
    have hfresh : (s.pc u).fresh = true := by simpa [hpc] using hphase
    exact absurd (fresh_write (hpc ▸ hfresh)) hstart
  | launch hpc =>
    have hcreate : (s.goto u .create).pc u = .create := goto_pc_self s u .create
    refine ⟨rfl, .inl ⟨hgone, hothers', .inr (.inr hcreate), fun hfresh => ?_⟩⟩
    rw [hcreate] at hfresh
    cases hfresh
  | terminates hpc hw => exact absurd hgone hw
  | create hpc =>
    refine ⟨rfl, .inr ⟨fun v => ?_, rfl⟩⟩
    by_cases hv : v = u
    · subst hv
      rw [release_pc_self, inStart_next]
    · exact hothers' v hv
  | reap hpc => simp [hpc, CallPc.fresh] at hphase
  | absent hpc => simp [hpc, CallPc.fresh] at hphase
  | joined hpc => simp [hpc, CallPc.fresh] at hphase
  | leave hpc => simp [hpc, CallPc.fresh] at hphase

/-- A step of another thread. -/
theorem Starts.other {u : τ} (h : Starts u s) (hu : t ≠ u) (hmove : ThreadMoves s t s') :
    Starts u s' := by
  obtain ⟨hgone, hothers, hphase, hunwritten⟩ := h
  have hpc : s'.pc u = s.pc u := pc_thread_of_ne hmove hu.symm
  refine ⟨worker_thread hmove (hothers t hu) hgone, fun v hv => ?_, by rwa [hpc], fun hfresh => ?_⟩
  · by_cases heq : v = t
    · subst heq
      exact noStart_self (hothers v hv) hmove
    · rw [pc_thread_of_ne hmove heq]
      exact hothers v hv
  · rw [hpc] at hfresh
    obtain ⟨hstatus, hwrite⟩ := hunwritten hfresh
    obtain ⟨hstatus', hwrite'⟩ := stopped_self hstatus (hothers t hu) (hwrite t hu) hmove
    refine ⟨hstatus', fun v hv => ?_⟩
    by_cases heq : v = t
    · exact heq ▸ hwrite'
    · rw [pc_thread_of_ne hmove heq]
      exact hwrite v hv

/-- **A start of a stopped object without a worker** goes on to make one, or has made it. -/
theorem Starts.step {u : τ} {a : Action τ} (h : Starts u s ∨ ∀ v, (s.pc v).inStart = false)
    (hcall : ∀ t, a ≠ .call t .Start) (hs : step s a = some s') :
    Starts u s' ∨ ∀ v, (s'.pc v).inStart = false := by
  rcases h with h | h
  · obtain ⟨hgone, hothers, hphase, hunwritten⟩ := id h
    cases step_moves hs with
    | call t op hpc =>
      have hu : u ≠ t := by
        rintro rfl
        simp [hpc, CallPc.fresh] at hphase
      have hop : op ≠ .Start := fun heq => hcall t (heq ▸ rfl)
      have hkept := pc_of_ne (callStep_pc s t op) hu
      refine .inl ⟨by rwa [callStep_m_workingThread], fun v hv => ?_, by rwa [hkept], ?_⟩
      · by_cases heq : v = t
        · rw [heq, pc_self (callStep_pc s t op), inStart_enter hop]
        · rw [pc_of_ne (callStep_pc s t op) heq]
          exact hothers v hv
      · rw [hkept, callStep_m_status]
        intro hfresh
        refine ⟨(hunwritten hfresh).1, fun v hv => ?_⟩
        by_cases heq : v = t
        · rw [heq, pc_self (callStep_pc s t op)]
          rfl
        · rw [pc_of_ne (callStep_pc s t op) heq]
          exact (hunwritten hfresh).2 v hv
    | thread t hmove =>
      by_cases hu : t = u
      · subst hu
        exact (h.self hmove).2.imp_right And.left
      · exact .inl (h.other hu hmove)
    | roams _ w w' hw => simp [hgone] at hw
    | locks hw => simp [hgone] at hw
    | unlocks w hw => simp [hgone] at hw
    | fails hw => simp [hgone] at hw
    | terminates _ hw => exact absurd hgone hw
  · refine .inr ?_
    cases step_moves hs with
    | call t op => exact noStart_call (fun heq => hcall t (heq ▸ rfl)) h
    | thread t hmove => exact noStart_thread h hmove
    | _ => exact h

theorem Stopped.starts {u : τ} (h : Stopped s) (hs : s.step (.call u .Start) = some s') :
    Starts u s' := by
  obtain ⟨⟨hstatus, hnoStart, hnoWrite⟩, hgone⟩ := h
  have hmoved := callStep_pc s u .Start
  cases step_moves hs with
  | call =>
    refine ⟨hgone, fun v hv => ?_, .inl ?_, fun _ => ⟨hstatus, fun v hv => ?_⟩⟩
    · rw [pc_of_ne hmoved hv]
      exact hnoStart v
    · rw [pc_self hmoved]
      rfl
    · rw [pc_of_ne hmoved hv]
      exact hnoWrite v
  | roams _ w w' hw => simp [hgone] at hw
  | terminates _ hw => exact absurd hgone hw

theorem not_terminated_of_step {a : Action τ} (hs : step s a = some s') : s.terminated = false := by
  unfold step at hs
  rw [Option.ite_none_left_eq_some] at hs
  simpa using hs.1

theorem Stopped.nextStartLaunches (h : Stopped s) : NextStartLaunches s := by
  intro u as bs s' s'' hcalls hrun hin hs
  obtain ⟨s₁, has, hrest⟩ := run_append.mp hrun
  obtain ⟨s₂, hcall, hbs⟩ := run_cons.mp hrest
  have has' : Stopped s₁ := by
    refine run_invariant (C := fun _ a => ∀ t, a ≠ .call t .Start)
      (fun s a s' h hok hs => h.step hok hs) h ?_ has
    exact meets_of_forall (fun _ _ ha => ha) fun a ha t heq =>
      hcalls t (List.mem_append_left bs (heq ▸ ha))
  have hstarts : Starts u s' ∨ ∀ v, (s'.pc v).inStart = false := by
    refine run_invariant (C := fun _ a => ∀ t, a ≠ .call t .Start)
      (fun s a s' h hok hs => Starts.step h hok hs) (.inl (has'.starts hcall)) ?_ hbs
    exact meets_of_forall (fun _ _ ha => ha) fun a ha t heq =>
      hcalls t (List.mem_append_right as (heq ▸ ha))
  rcases hstarts with hstarts | hnone
  · have hmove : ThreadMoves s' u s'' := by
      cases step_moves hs with
      | thread _ hmove => exact hmove
      | roams _ w w' hw => simp [hstarts.gone] at hw
      | terminates _ hw => exact absurd hstarts.gone hw
    obtain ⟨hterminated, hnext⟩ := hstarts.self hmove
    refine ⟨hterminated.trans (not_terminated_of_step hs), ?_⟩
    rcases hnext with hnext | ⟨-, hrunning⟩
    · left
      rcases hnext.phase with hfresh | hpc | hpc
      · exact inStart_of_fresh hfresh
      · rw [hpc]
        rfl
      · rw [hpc]
        rfl
    · exact .inr hrunning
  · rw [hnone u] at hin
    cases hin

/-- **A stop without a concurrent start**, about to return, leaves a stopped object without a
worker, and the start behind it makes one: in every run in which the worker's handler writes its
error over no stop. -/
theorem stop_leaves_stopped (as : List (Action τ)) (s : AsyncBaseThreads τ)
    (hrun : run step initial as = some s) (hlate : Meets step NoLateError initial as) (t : τ)
    (hreturns : s.pc t = .leave) (halone : s.alone t = true) :
    s.m_status = .Status_Stopped ∧ s.m_workingThread = none ∧ NextStartLaunches s := by
  have hinv := run_invariant (fun s a s' h hok hs => h.step hok hs) Life.initial hlate hrun
  have hquiet : Quiet s := hinv.stopped t halone (by rw [hreturns]; rfl)
  have hgone := hinv.reaped t halone hreturns
  exact ⟨hquiet.status, hgone, Stopped.nextStartLaunches ⟨hquiet, hgone⟩⟩

theorem stop_leaves_stopped_started :
    ∃ s, run step initial startedAndStopped = some s ∧
      s.m_status = .Status_Stopped ∧ s.m_workingThread = none ∧ NextStartLaunches s := by
  have hend : (run step initial startedAndStopped).any (fun s =>
      s.pc true = .leave ∧ s.alone true = true) = true := by decide
  obtain ⟨s, hs, hreturns, halone⟩ := run_of_any hend
  exact ⟨s, hs, stop_leaves_stopped startedAndStopped s hs (by decide) true hreturns halone⟩

/-- A stop has written its status; the call of the worker that it cancelled throws, and the handler
writes `Status_Error`; the stop joins. -/
def cancelledByStop : List (Action Bool) :=
  .call false .Start :: .replicate 5 (.thread false) ++ .call true .Stop ::
    .replicate 3 (.thread true) ++ [.throws (.exceptionWithString "Socket: Reading is canceled!"),
      .worker, .thread true, .thread true]

/-- The stop returns in `Status_Error`, and a start behind it makes no worker. -/
theorem cancelled_stop_in_error :
    ¬ ∀ (as : List (Action Bool)) (s : AsyncBaseThreads Bool), run step initial as = some s →
      ∀ t, s.pc t = .leave → s.alone t = true →
        s.m_status = .Status_Stopped ∧ s.m_workingThread = none ∧ NextStartLaunches s := by
  intro h
  have hend : (run step initial cancelledByStop).any (fun s =>
      s.pc true = .leave ∧ s.alone true = true ∧ s.m_status = .Status_Error) = true := by decide
  obtain ⟨s, hs, hreturns, halone, herror⟩ := run_of_any hend
  obtain ⟨hstopped, -⟩ := h cancelledByStop s hs true hreturns halone
  rw [herror] at hstopped
  cases hstopped

end AsyncBaseThreads

end TiraRdp
