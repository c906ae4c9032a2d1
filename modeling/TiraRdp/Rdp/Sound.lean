import TiraRdp.Lib.Lts
import TiraRdp.Rdp.Stream

/-!
# The sound channel on both sides

The redirector hands every PDU of the channel on and then takes it itself, for the sake of the
training PDUs, which it confirms: `tirardpsnd_recv_pdu`
(`Rdp/src/channels/tirasnd/client/tirasnd_main.c:336-372`) in the loop of
`tirardpsnd_virtual_channel_client_thread`, which ends at the first error. The projector runs the
full copy, `rdpsnd_recv_pdu` (`rdpsnd_main.c:723-777`), on what it is handed. There a WaveInfo PDU
sets `expectingWave`, and the PDU behind it is a Wave PDU, whose header is padding. The stripped
copy reads the flag as well, but with `rdpsnd_recv_wave_info_pdu` it lost the place that sets it.

`Sound` is both over one sequence of PDUs. Ghost fields: the number of the next PDU; those that were
confirmed, with the confirmation; those that the projector takes for training PDUs.

Not modelled: the formats, the audio device, and what is logged; the environment of a PDU says what
the handlers of the projector answer behind their checks.

Result: what the redirector confirms is what the projector takes for training, in every state of a
run, iff no Wave PDU looks like a whole training PDU, and every training PDU is whole and its
confirmation can be sent (`agree_iff_plain`).
-/

namespace TiraRdp

open Lib Lib.Lts

def SNDC_CLOSE : Nat := 1
def SNDC_WAVE : Nat := 2
def SNDC_SETVOLUME : Nat := 3
def SNDC_TRAINING : Nat := 6
def SNDC_FORMATS : Nat := 7

/-- What a PDU meets on either side. -/
structure SoundEnv where
  malloc : Bool
  /-- what `pVirtualChannelWrite` answers the redirector -/
  Write : Nat
  /-- what a handler of the projector answers behind its checks -/
  handler : Nat

/-- The branch of `recv_pdu` that a PDU takes. -/
inductive SoundPdu where
  | wave
  | short
  | header (msgType : Nat)
  deriving Repr, DecidableEq

/-- The first lines of `recv_pdu`, which both copies have. -/
def classify (expectingWave : Bool) (s : wStream) : SoundPdu :=
  if expectingWave then .wave
  else if s.GetRemainingLength < 4 then .short
  else .header (s.Read 1).1

/-! ## The redirector -/

/-- `rdpsnd_send_training_confirm_pdu`: its error, and the PDU that was sent. -/
def sendTrainingConfirmPdu (env : SoundEnv) (wTimeStamp wPackSize : Nat) : Nat × Option Bytes :=
  if env.malloc then
    if env.Write = CHANNEL_RC_OK then
      (CHANNEL_RC_OK, some ([UInt8.ofNat SNDC_TRAINING, 0] ++ le16 4 ++ le16 wTimeStamp ++ le16 wPackSize))
    else (env.Write, none)
  else (CHANNEL_RC_NO_MEMORY, none)

/-- `tirardpsnd_recv_training_pdu`. -/
def recvTrainingPdu (env : SoundEnv) (s : wStream) : Nat × Option Bytes :=
  if s.GetRemainingLength < 4 then (ERROR_BAD_LENGTH, none)
  else
    let (wTimeStamp, s) := s.Read 2
    let (wPackSize, _) := s.Read 2
    sendTrainingConfirmPdu env wTimeStamp wPackSize

structure TirasndPlugin where
  expectingWave : Bool
  deriving Repr, DecidableEq

def tirardpsndRecvPdu (env : SoundEnv) (plugin : TirasndPlugin) (s : wStream) :
    Nat × Option Bytes :=
  match classify plugin.expectingWave s with
  | .wave => (CHANNEL_RC_OK, none)
  | .short => (ERROR_BAD_LENGTH, none)
  | .header msgType =>
    if msgType = SNDC_TRAINING then recvTrainingPdu env (s.Seek 4) else (CHANNEL_RC_OK, none)

/-! ## The projector -/

structure RdpsndPlugin where
  expectingWave : Bool
  wTimeStamp : Nat
  cBlockNo : Nat
  waveData : Bytes
  /-- what was given to the device -/
  played : List Bytes
  deriving Repr, DecidableEq

/-- The first four bytes of the samples came with the WaveInfo PDU. -/
def rdpsndRecvWavePdu (env : SoundEnv) (plugin : RdpsndPlugin) (s : wStream) : Nat × RdpsndPlugin :=
  let plugin := { plugin with expectingWave := false }
  if env.malloc then
    (env.handler, { plugin with played := plugin.played ++ [plugin.waveData ++ s.buffer.drop 4] })
  else (CHANNEL_RC_NO_MEMORY, plugin)

/-- The flag is set before the length is looked at. -/
def rdpsndRecvWaveInfoPdu (env : SoundEnv) (plugin : RdpsndPlugin) (s : wStream) :
    Nat × RdpsndPlugin :=
  let plugin := { plugin with expectingWave := true }
  if s.GetRemainingLength < 12 then (ERROR_BAD_LENGTH, plugin)
  else
    (env.handler, { plugin with
      wTimeStamp := (s.Read 2).1
      cBlockNo := ((s.Seek 4).Read 1).1
      waveData := (s.Seek 8).Pointer 4 })

def rdpsndRecvServerAudioFormatsPdu (env : SoundEnv) (plugin : RdpsndPlugin) (s : wStream) :
    Nat × RdpsndPlugin :=
  if s.GetRemainingLength < 30 then (ERROR_BAD_LENGTH, plugin)
  else (env.handler, { plugin with cBlockNo := ((s.Seek 16).Read 1).1 })

def rdpsndRecvVolumePdu (env : SoundEnv) (s : wStream) : Nat :=
  if s.GetRemainingLength < 4 then ERROR_BAD_LENGTH else env.handler

def rdpsndRecvPdu (env : SoundEnv) (plugin : RdpsndPlugin) (s : wStream) : Nat × RdpsndPlugin :=
  match classify plugin.expectingWave s with
  | .wave => rdpsndRecvWavePdu env plugin s
  | .short => (ERROR_BAD_LENGTH, plugin)
  | .header msgType =>
    if msgType = SNDC_FORMATS then rdpsndRecvServerAudioFormatsPdu env plugin (s.Seek 4)
    else if msgType = SNDC_TRAINING then ((recvTrainingPdu env (s.Seek 4)).1, plugin)
    else if msgType = SNDC_WAVE then rdpsndRecvWaveInfoPdu env plugin (s.Seek 4)
    else if msgType = SNDC_CLOSE then (CHANNEL_RC_OK, plugin)
    else if msgType = SNDC_SETVOLUME then (rdpsndRecvVolumePdu env (s.Seek 4), plugin)
    else (CHANNEL_RC_OK, plugin)

/-! ## Both -/

structure Sound where
  tirasnd : TirasndPlugin
  rdpsnd : RdpsndPlugin
  /-- the thread of the redirector has not ended -/
  running : Bool
  next : Nat
  confirmed : List (Nat × Bytes)
  trainings : List Nat

/-- A PDU that the server sends. -/
structure SoundMessage where
  pdu : Bytes
  env : SoundEnv

/-- Nothing fails around it. -/
def SoundMessage.fine (pdu : Bytes) : SoundMessage := ⟨pdu, ⟨true, CHANNEL_RC_OK, CHANNEL_RC_OK⟩⟩

namespace Sound

def initial : Sound where
  tirasnd := ⟨false⟩
  rdpsnd := ⟨false, 0, 0, [], []⟩
  running := true
  next := 0
  confirmed := []
  trainings := []

/-- An iteration of the loop: the PDU is handed on, and taken. -/
def step (s : Sound) (m : SoundMessage) : Option Sound :=
  if s.running then
    let taken := tirardpsndRecvPdu m.env s.tirasnd (.ofBuffer m.pdu)
    some { s with
      rdpsnd := (rdpsndRecvPdu m.env s.rdpsnd (.ofBuffer m.pdu)).2
      running := decide (taken.1 = CHANNEL_RC_OK)
      next := s.next + 1
      confirmed := s.confirmed ++ (taken.2.map fun confirmation => (s.next, confirmation)).toList
      trainings := s.trainings ++
        if classify s.rdpsnd.expectingWave (.ofBuffer m.pdu) = .header SNDC_TRAINING then [s.next]
        else [] }
  else none

/-- The PDUs confirmed are those that the projector takes for training PDUs. -/
def Agree (s : Sound) : Prop := s.confirmed.map Prod.fst = s.trainings

/-- It begins like a training PDU. -/
def LooksTraining (pdu : Bytes) : Prop := 4 ≤ pdu.length ∧ ofLe (pdu.take 1) = SNDC_TRAINING

/-- It looks like a whole training PDU, and a confirmation of it can be sent. -/
def Confirmable (m : SoundMessage) : Prop :=
  (8 ≤ m.pdu.length ∧ ofLe (m.pdu.take 1) = SNDC_TRAINING) ∧
    m.env.malloc = true ∧ m.env.Write = CHANNEL_RC_OK

/-- What a Wave PDU may not look like, and a training PDU must. -/
def Plain (s : Sound) (m : SoundMessage) : Prop :=
  if s.rdpsnd.expectingWave then ¬ Confirmable m else LooksTraining m.pdu → Confirmable m

theorem remaining_ofBuffer {pdu : Bytes} (h : pdu.length < 2 ^ 32) :
    (wStream.ofBuffer pdu).GetRemainingLength = pdu.length :=
  subU32_of_le h (Nat.zero_le _)

theorem remaining_body {pdu : Bytes} (h : pdu.length < 2 ^ 32) (hlen : 4 ≤ pdu.length) :
    ((wStream.ofBuffer pdu).Seek 4).GetRemainingLength = pdu.length - 4 :=
  subU32_of_le h hlen

/-- What the projector takes for a training PDU. -/
theorem classify_training {e : Bool} {pdu : Bytes} (h : pdu.length < 2 ^ 32) :
    classify e (.ofBuffer pdu) = .header SNDC_TRAINING ↔ e = false ∧ LooksTraining pdu := by
  unfold classify LooksTraining
  rw [remaining_ofBuffer h]
  have hread : ((wStream.ofBuffer pdu).Read 1).1 = ofLe (pdu.take 1) := rfl
  rw [hread]
  cases e with
  | true => simp
  | false =>
    by_cases hlen : pdu.length < 4
    · simp [hlen, Nat.not_le.mpr hlen]
    · simp [hlen, Nat.not_lt.mp hlen]

theorem sendTrainingConfirmPdu_isSome (env : SoundEnv) (wTimeStamp wPackSize : Nat) :
    (sendTrainingConfirmPdu env wTimeStamp wPackSize).2.isSome = true ↔
      env.malloc = true ∧ env.Write = CHANNEL_RC_OK := by
  unfold sendTrainingConfirmPdu
  split_ifs with hmalloc hwrite <;> simp [*]

theorem recvTrainingPdu_isSome (env : SoundEnv) (s : wStream) :
    (recvTrainingPdu env s).2.isSome = true ↔
      4 ≤ s.GetRemainingLength ∧ env.malloc = true ∧ env.Write = CHANNEL_RC_OK := by
  rw [recvTrainingPdu]
  by_cases hlen : s.GetRemainingLength < 4
  · rw [if_pos hlen]
    simp [Nat.not_le.mpr hlen]
  · rw [if_neg hlen]
    dsimp only
    rw [sendTrainingConfirmPdu_isSome]
    simp [Nat.not_lt.mp hlen]

/-- Only a PDU that is taken for a training PDU is confirmed. -/
theorem tirardpsndRecvPdu_isSome (env : SoundEnv) (plugin : TirasndPlugin) (s : wStream) :
    (tirardpsndRecvPdu env plugin s).2.isSome = true ↔
      classify plugin.expectingWave s = .header SNDC_TRAINING ∧
        (recvTrainingPdu env (s.Seek 4)).2.isSome = true := by
  rw [tirardpsndRecvPdu]
  generalize recvTrainingPdu env (s.Seek 4) = training
  generalize classify plugin.expectingWave s = pdu
  cases pdu with
  | wave => simp
  | short => simp
  | header msgType =>
    by_cases htraining : msgType = SNDC_TRAINING <;> simp [htraining]

/-- **What the redirector confirms**, whatever went before. -/
theorem confirms_iff {m : SoundMessage} (h : m.pdu.length < 2 ^ 32) {plugin : TirasndPlugin}
    (hplugin : plugin.expectingWave = false) :
    (tirardpsndRecvPdu m.env plugin (.ofBuffer m.pdu)).2.isSome = true ↔ Confirmable m := by
  rw [tirardpsndRecvPdu_isSome, classify_training h, recvTrainingPdu_isSome]
  unfold Confirmable LooksTraining
  constructor
  · rintro ⟨⟨-, hlen, hlooks⟩, hbody, hsent⟩
    rw [remaining_body h hlen] at hbody
    exact ⟨⟨by omega, hlooks⟩, hsent⟩
  · rintro ⟨⟨hlen, hlooks⟩, hsent⟩
    refine ⟨⟨hplugin, by omega, hlooks⟩, ?_, hsent⟩
    rw [remaining_body h (by omega)]
    omega

variable {s s' : Sound} {m : SoundMessage}

/-- What a step does to the flag of the redirector, and to the books. -/
theorem step_books (hs : s.step m = some s') :
    s'.tirasnd = s.tirasnd ∧
      s'.confirmed = s.confirmed ++
        ((tirardpsndRecvPdu m.env s.tirasnd (.ofBuffer m.pdu)).2.map
          fun confirmation => (s.next, confirmation)).toList ∧
      s'.trainings = s.trainings ++
        if classify s.rdpsnd.expectingWave (.ofBuffer m.pdu) = .header SNDC_TRAINING then [s.next]
        else [] := by
  rw [step] at hs
  obtain ⟨-, hs⟩ := Option.ite_none_right_eq_some.mp hs
  obtain rfl := Option.some.inj hs
  exact ⟨rfl, rfl, rfl⟩

theorem Confirmable.looksTraining (h : Confirmable m) : LooksTraining m.pdu :=
  ⟨Nat.le_trans (by decide) h.1.1, h.1.2⟩

theorem plain_iff :
    Plain s m ↔ (Confirmable m ↔ s.rdpsnd.expectingWave = false ∧ LooksTraining m.pdu) := by
  unfold Plain
  cases s.rdpsnd.expectingWave with
  | true => simp
  | false =>
    constructor
    · exact fun h =>
        ⟨fun hconfirmable => ⟨rfl, hconfirmable.looksTraining⟩, fun hlooks => h hlooks.2⟩
    · exact fun h hlooks => h.mpr ⟨rfl, hlooks⟩

/-- One more PDU is booked alike on both sides exactly if both take it alike. -/
theorem booked_alike {confirmed : List (Nat × Bytes)} {trainings : List Nat} {next : Nat}
    {confirmation : Option Bytes} {p : Prop} [Decidable p]
    (h : confirmed.map Prod.fst = trainings) :
    (confirmed ++ (confirmation.map fun c => (next, c)).toList).map Prod.fst =
        trainings ++ (if p then [next] else []) ↔
      (confirmation.isSome = true ↔ p) := by
  rw [List.map_append, h, List.append_right_inj]
  cases confirmation with
  | none => simp
  | some c => simp

/-- **One PDU** leaves both sides in agreement exactly if it is plain. -/
theorem agree_step_iff (hflag : s.tirasnd.expectingWave = false) (hagree : Agree s)
    (hlen : m.pdu.length < 2 ^ 32) (hs : s.step m = some s') : Agree s' ↔ Plain s m := by
  obtain ⟨-, hconfirmed, htrainings⟩ := step_books hs
  rw [Agree, hconfirmed, htrainings, booked_alike hagree, confirms_iff hlen hflag,
    classify_training hlen, plain_iff]

/-- **The PDUs confirmed are the training PDUs** in every state of a run exactly when each PDU of
the run is plain: a Wave PDU does not look like a whole training PDU, and a training PDU is whole
and its confirmation can be sent. -/
theorem agree_iff_plain (ms : List SoundMessage)
    (hlen : ∀ m ∈ ms, m.pdu.length < 2 ^ 32) (s : Sound)
    (hrun : run step initial ms = some s) :
    Meets step Plain initial ms ↔ Along step Agree initial ms := by
  refine meets_iff_along (I := fun u => u.tirasnd.expectingWave = false ∧ Agree u) ?_ ?_ ?_
    ⟨rfl, rfl⟩ hlen hrun
  · exact fun u h => h.2
  · rintro u m v ⟨hflag, hagree⟩ hm hplain hv
    refine ⟨?_, (agree_step_iff hflag hagree hm hv).mpr hplain⟩
    rw [(step_books hv).1, hflag]
  · rintro u m v ⟨hflag, hagree⟩ hm hplain hv
    rwa [agree_step_iff hflag hagree hm hv]

instance (m : SoundMessage) : Decidable (Confirmable m) :=
  inferInstanceAs (Decidable ((8 ≤ m.pdu.length ∧ ofLe (m.pdu.take 1) = SNDC_TRAINING) ∧
    m.env.malloc = true ∧ m.env.Write = CHANNEL_RC_OK))

instance (pdu : Bytes) : Decidable (LooksTraining pdu) :=
  inferInstanceAs (Decidable (4 ≤ pdu.length ∧ ofLe (pdu.take 1) = SNDC_TRAINING))

instance (s : Sound) (m : SoundMessage) : Decidable (Plain s m) :=
  inferInstanceAs (Decidable
    (if s.rdpsnd.expectingWave then ¬ Confirmable m else LooksTraining m.pdu → Confirmable m))

/-- A WaveInfo PDU, with the first four bytes of the samples at its end. -/
def waveInfo : Bytes := [2, 0, 24, 0, 7, 0, 0, 0, 1, 0, 0, 0, 11, 12, 13, 14]

/-- Samples between two training PDUs. -/
def twoTrainings : List SoundMessage :=
  [.fine [6, 0, 4, 0, 1, 0, 2, 0], .fine waveInfo, .fine [0, 0, 0, 0, 15, 16, 17, 18],
    .fine [6, 0, 4, 0, 3, 0, 4, 0]]

theorem agree_iff_plain_trainings :
    (run step initial twoTrainings).isSome = true ∧ Along step Agree initial twoTrainings := by
  have hsome : (run step initial twoTrainings).isSome = true := by decide +kernel
  obtain ⟨s, hs⟩ := Option.isSome_iff_exists.mp hsome
  exact ⟨hsome, (agree_iff_plain twoTrainings (by decide) s hs).mp (by decide +kernel)⟩

/-- The padding of a Wave PDU begins with the number of a training PDU. -/
theorem wave_confirmed :
    ¬ ∀ (ms : List SoundMessage), (∀ m ∈ ms, m.pdu.length < 2 ^ 32) → ∀ s : Sound,
      run step initial ms = some s → Agree s := by
  intro h
  have hend : (run step initial [.fine waveInfo, .fine [6, 0, 0, 0, 15, 16, 17, 18]]).any
      (fun s => s.confirmed.map Prod.fst = [1] ∧ s.trainings = []) = true := by
    decide +kernel
  obtain ⟨s, hs, hconfirmed, htrainings⟩ := run_of_any hend
  have hagree := h _ (by decide) s hs
  rw [Agree, hconfirmed, htrainings] at hagree
  exact absurd hagree (by decide)

end Sound

end TiraRdp
