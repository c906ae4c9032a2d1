import TiraRdp.Utility.WaitingBufferThreads

/-!
# Cancelling a writer and a reader

What a cancel of `WaitingBuffer.h` makes of the data of the call it ends. A writer tests its flag in
the loop condition, where it leaves the loop and returns as if it were done, and again under the
mutex, where it throws (`:57-66`). A reader throws under the mutex, whatever it has already taken
out (`:95-101`). The flags are reset at the end of a call only, so a cancel that found no call ends
the next one.

Result: throughout a run a write that returns has stored all its bytes, a read that throws has
removed none, and the ring holds the bytes stored and not removed in order, exactly when no write
finds its flag in the loop condition with bytes left, no read finds its flag with bytes taken, and
no index sum wraps (`nothing_lost_iff`).
-/

namespace TiraRdp

open Lib Lib.Lts

/-- The call of `ReadAtless` in progress. -/
def ReadAtlessPc.call : ReadAtlessPc → Option ReadCall
  | .test r => some r
  | .lock r => some r
  | .waiting r => some r
  | .notifyWrite r => some r
  | .notifyWait r => some r
  | .leave r _ => some r
  | .idle => none

@[simp] theorem ReadAtlessPc.call_notified (pc : ReadAtlessPc) : pc.notified.call = pc.call := by
  cases pc <;> rfl

theorem WriterPc.notified_ne_leave {pc : WriterPc} {rest : Bytes} {thrown : Bool}
    (h : pc.notified = .leave rest thrown) : pc = .leave rest thrown := by
  cases pc with
  | waiting buffer => cases h
  | _ => exact h

theorem WriterPc.notified_eq_idle {pc : WriterPc} (h : pc = .idle) : pc.notified = .idle := by
  rw [h]
  rfl

theorem ReadAtlessPc.notified_ne_leave {pc : ReadAtlessPc} {r : ReadCall} {thrown : Bool}
    (h : pc.notified = .leave r thrown) : pc = .leave r thrown := by
  cases pc with
  | waiting r => cases h
  | _ => exact h

/-- The writer's next step does not find the flag in the loop condition with bytes left, and no sum
of its critical section wraps. -/
def WriterPc.Safe (w : WaitingBuffer) : WriterPc → Prop
  | .test buffer => buffer ≠ [] → w.m_IsCancelWrite = false
  | .lock buffer => w.m_IsCancelWrite = false → w.m_End + w.writeLen buffer.length < 2 ^ 32
  | _ => True

/-- The reader's next step does not find the flag with bytes taken, and no sum of its critical
section wraps. -/
def ReadAtlessPc.Safe (w : WaitingBuffer) : ReadAtlessPc → Prop
  | .lock r =>
    if w.m_IsCancelRead then r.buffer = [] else w.m_Start + w.readLen r.len < 2 ^ 32
  | _ => True

instance (w : WaitingBuffer) : DecidablePred (WriterPc.Safe w)
  | .test _ => inferInstanceAs (Decidable (_ → _))
  | .lock _ => inferInstanceAs (Decidable (_ → _))
  | .idle | .waiting _ | .notify _ | .leave _ _ => .isTrue trivial

instance (w : WaitingBuffer) : DecidablePred (ReadAtlessPc.Safe w)
  | .lock _ => inferInstanceAs (Decidable (ite _ _ _))
  | .idle | .test _ | .waiting _ | .notifyWrite _ | .notifyWait _ | .leave _ _ => .isTrue trivial

namespace WaitingBufferThreads

/-- A write that returns has stored everything, a read that throws has removed nothing, and what was
stored is what was removed and what the ring holds. -/
structure NothingLost (s : WaitingBufferThreads) : Prop where
  finished : ∀ rest, s.writer = .leave rest false → s.stored = s.expected
  untaken : ∀ r, s.reader = .leave r true → s.removed = s.before
  stream : s.removed ++ s.m_Buffer.content = s.stored
  indexed : s.m_Buffer.Indexed
  inBlock : s.m_Buffer.stray = false

/-- The steps that lose nothing. -/
def LosesNothing (s : WaitingBufferThreads) : Action → Prop
  | .writer => s.writer.Safe s.m_Buffer
  | .reader => s.reader.Safe s.m_Buffer
  | _ => True

instance (s : WaitingBufferThreads) : DecidablePred s.LosesNothing
  | .writer => inferInstanceAs (Decidable (WriterPc.Safe _ _))
  | .reader => inferInstanceAs (Decidable (ReadAtlessPc.Safe _ _))
  | .WriteTillFinish _ | .wakeWriter | .ReadAtless _ _ | .wakeReader | .CancelRead | .CancelWrite =>
    .isTrue trivial

/-- **The invariant**: the stream, and the accounts of the two calls. -/
structure Kept (s : WaitingBufferThreads) : Prop where
  ring : s.m_Buffer.InOrder
  stream : s.removed ++ s.m_Buffer.content = s.stored
  writing : s.writer ≠ .idle → s.stored ++ s.writer.rest = s.expected
  finished : ∀ rest, s.writer = .leave rest false → rest = []
  reading : ∀ r, s.reader.call = some r → s.removed = s.before ++ r.buffer
  untaken : ∀ r, s.reader = .leave r true → r.buffer = []

variable {s s' : WaitingBufferThreads} {a : Action}

theorem losesNothing_writer {pc : WriterPc} (hpc : s.writer = pc) :
    s.LosesNothing .writer ↔ pc.Safe s.m_Buffer := by
  rw [← hpc]
  exact Iff.rfl

theorem losesNothing_reader {pc : ReadAtlessPc} (hpc : s.reader = pc) :
    s.LosesNothing .reader ↔ pc.Safe s.m_Buffer := by
  rw [← hpc]
  exact Iff.rfl

theorem Kept.nothingLost (h : s.Kept) : s.NothingLost where
  finished := by
    intro rest hpc
    have hwriting := h.writing (by rw [hpc]; nofun)
    rw [hpc, h.finished rest hpc] at hwriting
    rw [← hwriting]
    exact (List.append_nil _).symm
  untaken := by
    intro r hpc
    rw [h.reading r (by rw [hpc]; rfl), h.untaken r hpc, List.append_nil]
  stream := h.stream
  indexed := h.ring.indexed
  inBlock := h.ring.inBlock

theorem new_kept (fresh : Mem UInt8) {size : Nat} (h0 : 0 < size) (hsize : size < 2 ^ 32) :
    (new fresh size).Kept where
  ring := WaitingBuffer.new_inOrder h0 hsize
  stream := rfl
  writing := fun hne => absurd rfl hne
  finished := nofun
  reading := nofun
  untaken := nofun

/-- The flags belong to no account. -/
theorem Kept.setFlags (h : s.Kept) (cancelRead cancelWrite : Bool) :
    Kept { s with m_Buffer := { s.m_Buffer with
      m_IsCancelRead := cancelRead, m_IsCancelWrite := cancelWrite } } :=
  { h with ring := h.ring.setFlags _ _ _ }

/-- The writer goes on in the same call. -/
theorem Kept.setWriter (h : s.Kept) {pc : WriterPc} (hidle : pc ≠ .idle → s.writer ≠ .idle)
    (hrest : pc.rest = s.writer.rest) (hfinished : ∀ rest, pc = .leave rest false → rest = []) :
    Kept { s with writer := pc } := by
  refine { h with writing := fun hne => ?_, finished := hfinished }
  show s.stored ++ pc.rest = s.expected
  rw [hrest]
  exact h.writing (hidle hne)

/-- The reader goes on in the same call. -/
theorem Kept.setReader (h : s.Kept) {pc : ReadAtlessPc} (hcall : pc.call = s.reader.call)
    (huntaken : ∀ r, pc = .leave r true → r.buffer = []) : Kept { s with reader := pc } :=
  { h with reading := fun r hr => h.reading r (hcall ▸ hr), untaken := huntaken }

theorem Kept.notifyWriter (h : s.Kept) : Kept { s with writer := s.writer.notified } := by
  refine h.setWriter ?_ s.writer.rest_notified ?_
  · intro hne hidle
    exact hne (WriterPc.notified_eq_idle hidle)
  · intro rest hrest
    exact h.finished rest (WriterPc.notified_ne_leave hrest)

theorem Kept.notifyReader (h : s.Kept) : Kept { s with reader := s.reader.notified } := by
  refine h.setReader s.reader.call_notified ?_
  intro r hr
  exact h.untaken r (ReadAtlessPc.notified_ne_leave hr)

/-- A write of the critical section moves bytes from the call to the ring. -/
theorem Kept.stores (h : s.Kept) {buffer : Bytes} (hpc : s.writer = .lock buffer)
    (hsum : s.m_Buffer.m_End + s.m_Buffer.writeLen buffer.length < 2 ^ 32) :
    Kept { s with
      m_Buffer := (s.m_Buffer.WriteInternal buffer buffer.length).2
      stored := s.stored ++ buffer.take (s.m_Buffer.writeLen buffer.length)
      writer := .notify (buffer.drop (s.m_Buffer.writeLen buffer.length)) } := by
  obtain ⟨w, hwi, hring, -, hcontent⟩ := WaitingBuffer.WriteInternal_spec h.ring hsum
  have hrest := h.writing (by rw [hpc]; nofun)
  rw [hpc] at hrest
  rw [hwi]
  generalize s.m_Buffer.writeLen buffer.length = n at hcontent
  refine { h with ring := hring, stream := ?_, writing := fun _ => ?_, finished := nofun }
  · show s.removed ++ w.content = s.stored ++ buffer.take n
    rw [hcontent, ← List.append_assoc, h.stream]
  · show s.stored ++ buffer.take n ++ buffer.drop n = s.expected
    rw [List.append_assoc, List.take_append_drop]
    exact hrest

/-- A read of the critical section moves bytes from the ring to the call. -/
theorem Kept.takes (h : s.Kept) {r : ReadCall} (hpc : s.reader = .lock r) {readCount len : Nat}
    (hsum : s.m_Buffer.m_Start + s.m_Buffer.readLen r.len < 2 ^ 32) :
    Kept { s with
      m_Buffer := (s.m_Buffer.ReadInternal r.len).2.2
      removed := s.removed ++ (s.m_Buffer.ReadInternal r.len).1
      reader := .notifyWrite ⟨r.buffer ++ (s.m_Buffer.ReadInternal r.len).1, readCount, len⟩ } := by
  obtain ⟨out, w, hri, hring, -, -, hcontent⟩ := WaitingBuffer.ReadInternal_spec h.ring hsum
  have hreading := h.reading r (by rw [hpc]; rfl)
  rw [hri]
  refine { h with ring := hring, stream := ?_, reading := ?_, untaken := nofun }
  · show s.removed ++ out ++ w.content = s.stored
    rw [List.append_assoc, ← hcontent]
    exact h.stream
  · intro r' hr'
    obtain rfl := Option.some.inj hr'
    show s.removed ++ out = s.before ++ (r.buffer ++ out)
    rw [hreading, List.append_assoc]

/-- **One step** that loses nothing keeps the accounts. -/
theorem Kept.step (h : s.Kept) (hok : s.LosesNothing a) (hs : step s a = some s') : s'.Kept := by
  cases step_moves hs with
  | WriteTillFinish buffer hpc => exact { h with writing := fun _ => rfl, finished := nofun }
  | writesOn _ hpc | writeThrows _ hpc | writerWaits _ hpc _ =>
    exact h.setWriter (by rw [hpc]; nofun) (by rw [hpc]; rfl) nofun
  | writeEnds buffer hpc hend =>
    have hsafe := (losesNothing_writer hpc).mp hok
    refine h.setWriter (by rw [hpc]; nofun) (by rw [hpc]; rfl) ?_
    rintro rest ⟨⟩
    -- with bytes left the loop ends on the flag, which is not set
    by_contra hne
    have hset := hend hne
    rw [hsafe hne] at hset
    cases hset
  | stores buffer hpc hflag hroom =>
    have hsafe := (losesNothing_writer hpc).mp hok
    exact h.stores hpc (hsafe hflag)
  | notifiesReader buffer hpc =>
    exact h.notifyReader.setWriter (by rw [hpc]; nofun) (by rw [hpc]; rfl) nofun
  | writerLeaves buffer thrown hpc =>
    exact { h.setFlags s.m_Buffer.m_IsCancelRead false with
      writing := fun hne => absurd rfl hne
      finished := nofun }
  | wakeWriter => exact h.notifyWriter
  | ReadAtless len atless hpc =>
    refine { h with reading := ?_, untaken := nofun }
    intro r hr
    obtain rfl := Option.some.inj hr
    exact (List.append_nil _).symm
  | readsOn _ hpc | readEnds _ hpc | readerWaits _ hpc _ | notifiesWait _ hpc =>
    exact h.setReader (by rw [hpc]; rfl) nofun
  | readThrows r hpc hflag =>
    have hsafe := (losesNothing_reader hpc).mp hok
    rw [ReadAtlessPc.Safe, if_pos hflag] at hsafe
    refine h.setReader (by rw [hpc]; rfl) ?_
    rintro _ ⟨⟩
    exact hsafe
  | takes r hpc hflag hdata =>
    have hsafe := (losesNothing_reader hpc).mp hok
    rw [ReadAtlessPc.Safe, if_neg (Bool.eq_false_iff.mp hflag)] at hsafe
    exact h.takes hpc hsafe
  | notifiesWriter r hpc => exact h.notifyWriter.setReader (by rw [hpc]; rfl) nofun
  | readerLeaves r thrown hpc =>
    exact { h.setFlags false s.m_Buffer.m_IsCancelWrite with reading := nofun, untaken := nofun }
  | wakeReader => exact h.notifyReader
  | CancelRead => exact h.notifyReader.setFlags true s.m_Buffer.m_IsCancelWrite
  | CancelWrite => exact h.notifyWriter.setFlags s.m_Buffer.m_IsCancelRead true

/-- A step that is not one of these loses something. -/
theorem Kept.not_nothingLost (h : s.Kept) (hlost : ¬ s.LosesNothing a)
    (hs : WaitingBufferThreads.step s a = some s') : ¬ s'.NothingLost := by
  intro hbad
  cases step_moves hs with
  | writesOn buffer hpc hne hflag => exact hlost ((losesNothing_writer hpc).mpr fun _ => hflag)
  | writeEnds buffer hpc hend =>
    rw [losesNothing_writer hpc] at hlost
    have hne : buffer ≠ [] := fun hnil => hlost fun hne => absurd hnil hne
    have hwriting := h.writing (by rw [hpc]; nofun)
    have hall : s.stored = s.expected := hbad.finished buffer rfl
    rw [hpc, hall] at hwriting
    exact hne (List.append_right_eq_self.mp hwriting)
  | writeThrows buffer hpc hflag =>
    refine hlost ((losesNothing_writer hpc).mpr fun hclear => ?_)
    rw [hflag] at hclear
    cases hclear
  | stores buffer hpc hflag hroom =>
    rw [losesNothing_writer hpc] at hlost
    have hsum : 2 ^ 32 ≤ s.m_Buffer.m_End + s.m_Buffer.writeLen buffer.length :=
      Nat.not_lt.mp fun hlt => hlost fun _ => hlt
    exact WaitingBuffer.WriteInternal_wraps h.ring hsum hbad.indexed
  | writerWaits buffer hpc hflag hfull =>
    refine hlost ((losesNothing_writer hpc).mpr fun _ => ?_)
    have hnone : s.m_Buffer.writeLen buffer.length = 0 := by
      unfold WaitingBuffer.writeLen
      rw [Nat.eq_zero_of_not_pos hfull, Nat.zero_min]
    rw [hnone]
    exact Nat.lt_trans h.ring.indexed.end_lt h.ring.size_lt
  | notifiesReader _ hpc | writerLeaves _ _ hpc =>
    exact hlost ((losesNothing_writer hpc).mpr trivial)
  | readThrows r hpc hflag =>
    rw [losesNothing_reader hpc, ReadAtlessPc.Safe, if_pos hflag] at hlost
    have hreading := h.reading r (by rw [hpc]; rfl)
    have hsame : s.removed = s.before := hbad.untaken r rfl
    rw [hsame] at hreading
    exact hlost (List.append_right_eq_self.mp hreading.symm)
  | takes r hpc hflag hdata =>
    rw [losesNothing_reader hpc, ReadAtlessPc.Safe, if_neg (Bool.eq_false_iff.mp hflag),
      Nat.not_lt] at hlost
    exact WaitingBuffer.ReadInternal_wraps h.ring hlost hbad.indexed
  | readerWaits r hpc hflag hnone =>
    refine hlost ((losesNothing_reader hpc).mpr ?_)
    rw [ReadAtlessPc.Safe, if_neg (Bool.eq_false_iff.mp hflag)]
    have hnothing : s.m_Buffer.readLen r.len = 0 := by
      unfold WaitingBuffer.readLen
      rw [Nat.eq_zero_of_not_pos hnone, Nat.zero_min]
    rw [hnothing]
    exact Nat.lt_trans h.ring.indexed.start_lt h.ring.size_lt
  | readsOn _ hpc | readEnds _ hpc | notifiesWriter _ hpc | notifiesWait _ hpc
  | readerLeaves _ _ hpc => exact hlost ((losesNothing_reader hpc).mpr trivial)
  | _ => exact hlost trivial

/-- **A cancel loses nothing silently**, in any state of a run, exactly when each step of the run is
one of those that lose nothing: for every ring and every order of the steps of the calls and the
cancels. -/
theorem nothing_lost_iff (fresh : Mem UInt8) {size : Nat} (h0 : 0 < size) (hsize : size < 2 ^ 32)
    (as : List Action) (s : WaitingBufferThreads) (hrun : run step (new fresh size) as = some s) :
    Meets step LosesNothing (new fresh size) as ↔ Along step NothingLost (new fresh size) as :=
  meets_iff_along (p := fun _ => True) (fun _ h => h.nothingLost)
    (fun _ _ _ h _ hok hs => h.step hok hs) (fun _ _ _ h _ hlost hs => h.not_nothingLost hlost hs)
    (new_kept fresh h0 hsize) (fun _ _ => trivial) hrun

/-- A write cancelled in its wait finds the flag in the loop condition, and returns. -/
example :
    (run step (new (fun _ => 0) 1)
      [.WriteTillFinish [1, 2], .writer, .writer, .writer, .writer, .writer, .CancelWrite,
        .writer]).any (fun s => s.writer = .leave [2] false ∧ s.stored ≠ s.expected) = true := by
  decide

/-- A read of two bytes is cancelled behind the first. -/
example :
    (run step (new (fun _ => 0) 1)
      [.WriteTillFinish [1], .writer, .writer, .ReadAtless 2 2, .reader, .reader, .reader, .reader,
        .reader, .CancelRead, .reader]).any
      (fun s => s.reader = .leave ⟨[1], 1, 1⟩ true ∧ s.removed ≠ s.before) = true := by
  decide

/-- A write cancelled between the loop condition and the mutex, and a read before it takes anything:
both throw, and nothing is lost. -/
def cancelledUnderMutex : List Action :=
  [.WriteTillFinish [1, 2], .writer, .writer, .writer, .writer, .CancelWrite, .writer, .writer,
    .CancelRead, .ReadAtless 4 1, .reader, .reader, .reader]

theorem nothing_lost_under_mutex :
    (run step (new (fun _ => 0) 1) cancelledUnderMutex).isSome = true ∧
      Along step NothingLost (new (fun _ => 0) 1) cancelledUnderMutex := by
  have hsome : (run step (new (fun _ => 0) 1) cancelledUnderMutex).isSome = true := by decide
  obtain ⟨s, hs⟩ := Option.isSome_iff_exists.mp hsome
  refine ⟨hsome, ?_⟩
  exact (nothing_lost_iff (fun _ => 0) (by decide) (by decide) cancelledUnderMutex s hs).mp (by decide)

/-- A cancel that found no call makes the next write return with nothing stored. -/
theorem stale_cancel_loses :
    ¬ ∀ (fresh : Mem UInt8) (size : Nat), 0 < size → size < 2 ^ 32 →
      ∀ (as : List Action) (s : WaitingBufferThreads), run step (new fresh size) as = some s →
        (∀ rest, s.writer = .leave rest false → s.stored = s.expected) ∧
          ∀ r, s.reader = .leave r true → s.removed = s.before := by
  intro h
  have hend : (run step (new (fun _ => 0) 4) [.CancelWrite, .WriteTillFinish [1], .writer]).any
      (fun s => s.writer = .leave [1] false ∧ s.stored ≠ s.expected) = true := by decide
  obtain ⟨s, hs, hleft, hlost⟩ := run_of_any hend
  exact hlost ((h (fun _ => 0) 4 (by decide) (by decide) _ s hs).1 [1] hleft)

end WaitingBufferThreads

end TiraRdp
