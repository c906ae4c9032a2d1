import TiraRdp.Lib.Loop
import TiraRdp.Lib.Word

/-!
# `WritableSource` and `ReadableSource`

Model of `Write` (`common/utility/include/WritableSource.h:17-87`) and `Read`
(`common/utility/include/ReadableSource.h:16-76`) for POD values, strings and vectors of POD values,
in the branches of the Win32 build of the project files: `wchar_t` has two bytes, objects fewer than
`2 ^ 31`.

* A value is what it has in memory, little-endian. A POD type is the list of the pieces that are
  written and read one after the other: one of `sizeof(_Ty)` bytes, two of four for `TI_Resolution`,
  which both classes specialise.
* The wire is a list of bytes, and `recv pos bufLen` is how many `ReadBytes` gives when asked for
  `bufLen` at `pos`. A transport that splits the wire in any other way is another `recv`, since a
  position is asked for once only.
* `none` is a `Read` that throws, or that waits for bytes that do not come.

Results: where every string is answered at once, what is read is what was written (`Read_spec`); a
string that is not leaves `Read` behind the end of its bytes (`Read_consumes`); so that is when a
sequence comes through (`reads_back_iff`).
-/

namespace TiraRdp

open Lib

/-- A POD type. -/
structure PodType where
  pieces : List Nat
  size_pos : 0 < pieces.sum
  size_lt : pieces.sum < 2 ^ 31

namespace PodType

/-- `sizeof`. -/
def size (t : PodType) : Nat := t.pieces.sum

/-- `unsigned int`. -/
def uint32 : PodType := ⟨[4], by decide, by decide⟩

def TI_Resolution : PodType := ⟨[4, 4], by decide, by decide⟩

end PodType

/-- A character type, by its `sizeof`. -/
structure CharT where
  size : Nat
  size_pos : 0 < size

namespace CharT

def char : CharT := ⟨1, by decide⟩

def wchar_t : CharT := ⟨2, by decide⟩

end CharT

namespace Source

/-- A value of one of the types that `Write` and `Read` are for. -/
inductive Value where
  | pod (t : PodType) (bytes : Bytes)
  | string (c : CharT) (bytes : Bytes)
  | vector (t : PodType) (elements : List Bytes)

/-- The types. -/
inductive Ty where
  | pod (t : PodType)
  | string (c : CharT)
  | vector (t : PodType)

namespace Value

def type : Value → Ty
  | pod t _ => .pod t
  | string c _ => .string c
  | vector t _ => .vector t

/-- The value is an object of its type. -/
def Fits : Value → Prop
  | pod t bytes => bytes.length = t.size
  | string c bytes => c.size ∣ bytes.length ∧ bytes.length < 2 ^ 31
  | vector t elements => (∀ e ∈ elements, e.length = t.size) ∧ elements.length * t.size < 2 ^ 31

end Value

/-! ## Writing -/

/-- `WriteBytes`, which the wire gets. -/
def WriteBytes (wire buffer : Bytes) : Bytes := wire ++ buffer

/-- `Write` of a POD value, piece by piece. -/
def WritePod : List Nat → Bytes → Bytes → Bytes
  | [], _, wire => wire
  | n :: pieces, val, wire => WritePod pieces (val.drop n) (WriteBytes wire (val.take n))

/-- `Write` of an `unsigned int`. -/
def WriteUInt32 (length : Nat) (wire : Bytes) : Bytes :=
  WritePod PodType.uint32.pieces (le32 length) wire

/-- `Write`. -/
def Write : Value → Bytes → Bytes
  | .pod t val, wire => WritePod t.pieces val wire
  | .string c str, wire =>
    let length := u32 (str.length / c.size)
    let wire := WriteUInt32 length wire
    if length > 0 then WriteBytes wire (str.take (c.size * length)) else wire
  | .vector t vtr, wire =>
    vtr.foldl (fun wire ty => WritePod t.pieces ty wire) (WriteUInt32 (u32 vtr.length) wire)

/-- A sequence of `Write`s. -/
def WriteAll (vs : List Value) (wire : Bytes) : Bytes := vs.foldl (fun wire v => Write v wire) wire

/-! ## Reading -/

/-- What a `ReadableSource` reads from. -/
structure Transport where
  wire : Bytes
  recv : Nat → Nat → Nat

/-- Every answer is at least a byte and at most what was asked for, of what is on the wire. -/
def Transport.Answers (src : Transport) : Prop :=
  ∀ pos bufLen, 0 < bufLen → pos < src.wire.length →
    1 ≤ src.recv pos bufLen ∧ src.recv pos bufLen ≤ bufLen ∧
      pos + src.recv pos bufLen ≤ src.wire.length

/-- `ReadBytes`; it waits at the end of the wire. -/
def ReadBytes (src : Transport) (pos bufLen : Nat) : Option Bytes :=
  if pos < src.wire.length then some ((src.wire.drop pos).take (src.recv pos bufLen)) else none

/-- The loop of `Read` for a POD value: what has been read, what is to come, and the position. -/
structure Reading where
  readTo : Bytes
  count : Nat
  pos : Nat

def readSome (src : Transport) (s : Reading) : Option Reading :=
  match ReadBytes src s.pos s.count with
  | none => none
  | some bytes =>
    if bytes.length ≠ 0 then some ⟨s.readTo ++ bytes, s.count - bytes.length, s.pos + bytes.length⟩ else none

/-- `Read` of a piece. -/
def ReadPiece (src : Transport) (n pos : Nat) : Option Reading :=
  Loop.loop (fun s => decide (s.count > 0)) (readSome src) n ⟨[], n, pos⟩

/-- `Read` of a POD value, piece by piece, and the position behind it. -/
def ReadPod (src : Transport) : List Nat → Nat → Option (Bytes × Nat)
  | [], pos => some ([], pos)
  | n :: pieces, pos => do
    let s ← ReadPiece src n pos
    let (val, pos) ← ReadPod src pieces s.pos
    some (s.readTo ++ val, pos)

def ReadUInt32 (src : Transport) (pos : Nat) : Option (Nat × Nat) :=
  (ReadPod src PodType.uint32.pieces pos).map fun (val, pos) => (ofLe val, pos)

/-- The elements of a vector. -/
def ReadElements (src : Transport) (t : PodType) : Nat → Nat → Option (List Bytes × Nat)
  | 0, pos => some ([], pos)
  | length + 1, pos => do
    let (e, pos) ← ReadPod src t.pieces pos
    let (es, pos) ← ReadElements src t length pos
    some (e :: es, pos)

/-- `Read`, with the position behind what it took. `resize` throws for what is too long, and fills a
string with NULs. -/
def Read (src : Transport) : Ty → Nat → Option (Value × Nat)
  | .pod t, pos => (ReadPod src t.pieces pos).map fun (val, pos) => (.pod t val, pos)
  | .string c, pos => do
    let (length, pos) ← ReadUInt32 src pos
    let len := c.size * length
    if len ≥ 2 ^ 31 then none
    else if length > 0 then
      let bytes ← ReadBytes src pos len
      some (.string c (bytes ++ List.replicate (len - bytes.length) 0), pos + bytes.length)
    else some (.string c [], pos)
  | .vector t, pos => do
    let (length, pos) ← ReadUInt32 src pos
    if length * t.size ≥ 2 ^ 31 then none
    else
      let (vtr, pos) ← ReadElements src t length pos
      some (.vector t vtr, pos)

/-- A sequence of `Read`s. -/
def ReadAll (src : Transport) : List Ty → Nat → Option (List Value × Nat)
  | [], pos => some ([], pos)
  | ty :: tys, pos => do
    let (v, pos) ← Read src ty pos
    let (vs, pos) ← ReadAll src tys pos
    some (v :: vs, pos)

/-! ## What is written -/

/-- What a value is on the wire. -/
def Value.bytes : Value → Bytes
  | pod _ val => val
  | string c str => le32 (str.length / c.size) ++ str
  | vector _ vtr => le32 vtr.length ++ vtr.flatten

variable {v : Value} {wire : Bytes}

theorem WritePod_eq {pieces : List Nat} : ∀ {val : Bytes} (wire : Bytes), val.length = pieces.sum →
    WritePod pieces val wire = wire ++ val := by
  induction pieces with
  | nil =>
    intro val wire h
    rw [List.eq_nil_of_length_eq_zero h, List.append_nil]
    rfl
  | cons n pieces ih =>
    intro val wire h
    rw [List.sum_cons] at h
    have hrest : (val.drop n).length = pieces.sum := by
      rw [List.length_drop]
      omega
    rw [WritePod, ih _ hrest, WriteBytes, List.append_assoc, List.take_append_drop]

theorem WriteUInt32_eq (n : Nat) (wire : Bytes) : WriteUInt32 n wire = wire ++ le32 n :=
  WritePod_eq wire rfl

/-- The length of a string fits into its prefix, and gives its bytes back. -/
theorem string_length {c : CharT} {str : Bytes} (h : (Value.string c str).Fits) :
    str.length / c.size < 2 ^ 32 ∧ c.size * (str.length / c.size) = str.length := by
  obtain ⟨hwhole, hlt⟩ := h
  have hle := Nat.div_le_self str.length c.size
  exact ⟨by omega, Nat.mul_div_cancel' hwhole⟩

theorem vector_length {t : PodType} {vtr : List Bytes} (h : (Value.vector t vtr).Fits) :
    vtr.length < 2 ^ 32 := by
  have hle : vtr.length ≤ vtr.length * t.size := Nat.le_mul_of_pos_right _ t.size_pos
  have hlt := h.2
  omega

/-- **`Write`** appends the bytes of the value. -/
theorem Write_eq (h : v.Fits) (wire : Bytes) : Write v wire = wire ++ v.bytes := by
  cases v with
  | pod t val => exact WritePod_eq wire h
  | string c str =>
    obtain ⟨hlt, hmul⟩ := string_length h
    unfold Write Value.bytes
    simp only [u32_of_lt hlt, WriteUInt32_eq, hmul, List.take_length]
    split_ifs with hlen
    · rw [WriteBytes, List.append_assoc]
    · have hempty : str = [] := by
        rw [Nat.eq_zero_of_not_pos hlen, Nat.mul_zero] at hmul
        exact List.eq_nil_of_length_eq_zero hmul.symm
      rw [hempty, List.append_nil]
  | vector t vtr =>
    have helements (es : List Bytes) (hes : ∀ e ∈ es, e.length = t.size) (wire : Bytes) :
        es.foldl (fun wire ty => WritePod t.pieces ty wire) wire = wire ++ es.flatten := by
      induction es generalizing wire with
      | nil => exact (List.append_nil wire).symm
      | cons e es ih =>
        have hrest := ih fun e' he' => hes e' (List.mem_cons_of_mem e he')
        rw [List.foldl_cons, WritePod_eq wire (hes e List.mem_cons_self), hrest, List.flatten_cons,
          List.append_assoc]
    unfold Write Value.bytes
    simp only [u32_of_lt (vector_length h), WriteUInt32_eq]
    rw [helements vtr h.1, List.append_assoc]

theorem WriteAll_eq {vs : List Value} : ∀ (wire : Bytes), (∀ v ∈ vs, v.Fits) →
    WriteAll vs wire = wire ++ vs.flatMap Value.bytes := by
  induction vs with
  | nil => exact fun wire _ => (List.append_nil wire).symm
  | cons v vs ih =>
    intro wire h
    rw [WriteAll, List.foldl_cons, Write_eq (h v List.mem_cons_self), List.flatMap_cons,
      ← List.append_assoc]
    exact ih _ fun v' hv' => h v' (List.mem_cons_of_mem v hv')

/-! ## What is read -/

variable {src : Transport} {pos n : Nat} {bs cs : Bytes}

/-- At `pos` the wire goes on with `bs`. -/
def Transport.Shows (src : Transport) (pos : Nat) (bs : Bytes) : Prop := bs <+: src.wire.drop pos

theorem shows_left (h : src.Shows pos (bs ++ cs)) : src.Shows pos bs :=
  (List.prefix_append bs cs).trans h

theorem shows_right (h : src.Shows pos (bs ++ cs)) : src.Shows (pos + bs.length) cs := by
  obtain ⟨rest, hrest⟩ := h
  refine ⟨rest, ?_⟩
  rw [← List.drop_drop, ← hrest, List.append_assoc, List.drop_left]

theorem ReadBytes_spec (ha : src.Answers) (h : src.Shows pos bs) (hbs : 0 < bs.length) :
    1 ≤ src.recv pos bs.length ∧ src.recv pos bs.length ≤ bs.length ∧
      ReadBytes src pos bs.length = some (bs.take (src.recv pos bs.length)) := by
  have hlen := h.length_le
  rw [List.length_drop] at hlen
  have hpos : pos < src.wire.length := by omega
  obtain ⟨hone, hle, -⟩ := ha pos bs.length hbs hpos
  refine ⟨hone, hle, ?_⟩
  obtain ⟨rest, hrest⟩ := h
  rw [ReadBytes, if_pos hpos, ← hrest, List.take_append_of_le_length hle]

/-- **The loop** of a POD value reads it whole, however it is split. -/
theorem ReadPiece_spec (ha : src.Answers) (h : src.Shows pos bs) :
    ReadPiece src bs.length pos = some ⟨bs, 0, pos + bs.length⟩ := by
  let Inv (s : Reading) : Prop := ∃ k, k ≤ bs.length ∧ s = ⟨bs.take k, bs.length - k, pos + k⟩
  have hbody (s : Reading) (hs : Inv s) (hc : decide (s.count > 0) = true) :
      ∃ t, readSome src s = some t ∧ Inv t ∧ t.count < s.count := by
    obtain ⟨k, hk, rfl⟩ := hs
    have hmore : 0 < bs.length - k := of_decide_eq_true hc
    have hshows : src.Shows (pos + k) (bs.drop k) := by
      have hsplit : bs = bs.take k ++ bs.drop k := (List.take_append_drop k bs).symm
      rw [hsplit] at h
      have hright := shows_right h
      rwa [List.length_take_of_le hk] at hright
    have hlen : (bs.drop k).length = bs.length - k := List.length_drop
    obtain ⟨hone, hle, hread⟩ := ReadBytes_spec ha hshows (hlen ▸ hmore)
    rw [hlen] at hone hle hread
    set r := src.recv (pos + k) (bs.length - k) with hr
    have htake : ((bs.drop k).take r).length = r := List.length_take_of_le (hlen.symm ▸ hle)
    refine ⟨⟨bs.take (k + r), bs.length - (k + r), pos + (k + r)⟩, ?_, ⟨k + r, by omega, rfl⟩, ?_⟩
    · unfold readSome
      simp only [hread]
      rw [htake, if_pos (by omega), List.take_add, Nat.sub_sub, Nat.add_assoc]
    · dsimp only
      omega
  obtain ⟨t, hrun, ⟨k, hk, rfl⟩, hend⟩ := Loop.loop_total _ _ Inv Reading.count hbody bs.length
    ⟨[], bs.length, pos⟩ ⟨0, Nat.zero_le _, rfl⟩ (Nat.le_refl _)
  have hall : k = bs.length := by
    have hnone := of_decide_eq_false hend
    dsimp only at hnone
    omega
  rw [hall, List.take_length, Nat.sub_self] at hrun
  exact hrun

theorem ReadPod_spec (ha : src.Answers) {pieces : List Nat} : ∀ {pos : Nat} {val : Bytes},
    val.length = pieces.sum → src.Shows pos val →
      ReadPod src pieces pos = some (val, pos + val.length) := by
  induction pieces with
  | nil =>
    intro pos val hlen _
    rw [List.eq_nil_of_length_eq_zero hlen]
    rfl
  | cons n pieces ih =>
    intro pos val hlen h
    rw [List.sum_cons] at hlen
    have hpiece : (val.take n).length = n := List.length_take_of_le (by omega)
    have hrest : (val.drop n).length = pieces.sum := by
      rw [List.length_drop]
      omega
    rw [← List.take_append_drop n val] at h
    have hfirst := ReadPiece_spec ha (shows_left h)
    have hothers := ih hrest (shows_right h)
    rw [hpiece] at hfirst hothers
    simp only [ReadPod, hfirst, hothers, Option.bind_eq_bind, Option.bind_some]
    rw [List.take_append_drop, hrest, hlen, Nat.add_assoc]

theorem ReadUInt32_spec (ha : src.Answers) (hn : n < 2 ^ 32) (h : src.Shows pos (le32 n)) :
    ReadUInt32 src pos = some (n, pos + 4) := by
  rw [ReadUInt32, ReadPod_spec ha rfl h, Option.map_some]
  dsimp only
  rw [ofLe_le32 hn, le32_length]

theorem ReadElements_spec (ha : src.Answers) (t : PodType) {vtr : List Bytes} : ∀ {pos : Nat},
    (∀ e ∈ vtr, e.length = t.size) → src.Shows pos vtr.flatten →
    ReadElements src t vtr.length pos = some (vtr, pos + vtr.flatten.length) := by
  induction vtr with
  | nil => exact fun _ _ => rfl
  | cons e es ih =>
    intro pos hlen h
    rw [List.flatten_cons] at h
    have hfirst := ReadPod_spec ha (hlen e List.mem_cons_self) (shows_left h)
    have hothers := ih (fun e' he' => hlen e' (List.mem_cons_of_mem e he')) (shows_right h)
    simp only [List.length_cons, ReadElements, hfirst, hothers, Option.bind_eq_bind,
      Option.bind_some]
    rw [List.flatten_cons, List.length_append, Nat.add_assoc]

/-- The one `ReadBytes` for a string that is not empty gives all of it. -/
def Transport.FullAt (src : Transport) (pos : Nat) : Value → Prop
  | .string _ str => str ≠ [] → src.recv (pos + 4) str.length = str.length
  | _ => True

/-- **`Read`** of a value that is on the wire, with a full answer for a string. -/
theorem Read_spec (ha : src.Answers) (hfits : v.Fits) (h : src.Shows pos v.bytes)
    (hfull : src.FullAt pos v) :
    Read src v.type pos = some (v, pos + v.bytes.length) := by
  cases v with
  | pod t val =>
    unfold Read Value.type Value.bytes
    simp only [ReadPod_spec ha hfits h, Option.map_some]
  | string c str =>
    obtain ⟨hlt, hmul⟩ := string_length hfits
    have hlength := ReadUInt32_spec ha hlt (shows_left h)
    have hshows : src.Shows (pos + 4) str := shows_right h
    unfold Read Value.type
    simp only [hlength, Option.bind_eq_bind, Option.bind_some, hmul,
      if_neg (Nat.not_le.mpr hfits.2)]
    split_ifs with hlen
    · have hpos : 0 < str.length := Nat.lt_of_lt_of_le hlen (Nat.div_le_self _ _)
      obtain ⟨-, -, hread⟩ := ReadBytes_spec ha hshows hpos
      rw [hfull (List.ne_nil_of_length_pos hpos), List.take_length] at hread
      rw [hread, Option.bind_some, Nat.sub_self, List.replicate_zero, List.append_nil, Value.bytes,
        List.length_append, le32_length, Nat.add_assoc]
    · rw [Nat.eq_zero_of_not_pos hlen, Nat.mul_zero] at hmul
      rw [List.eq_nil_of_length_eq_zero hmul.symm]
      rfl
  | vector t vtr =>
    have hlength := ReadUInt32_spec ha (vector_length hfits) (shows_left h)
    have helements := ReadElements_spec ha t hfits.1 (shows_right h)
    rw [le32_length] at helements
    unfold Read Value.type
    simp only [hlength, Option.bind_eq_bind, Option.bind_some, if_neg (Nat.not_le.mpr hfits.2),
      helements]
    rw [Value.bytes, List.length_append, le32_length, Nat.add_assoc]

/-! ## What a `Read` takes from the wire -/

variable {pos' : Nat}

theorem ReadBytes_consumes (ha : src.Answers) (hn : 0 < n) (h : ReadBytes src pos n = some bs) :
    bs.length = src.recv pos n ∧ bs.length ≤ n := by
  obtain ⟨hpos, hbytes⟩ := Option.ite_none_right_eq_some.mp h
  obtain ⟨-, hle, hinside⟩ := ha pos n hn hpos
  have hlen : bs.length = src.recv pos n := by
    rw [← Option.some.inj hbytes, List.length_take, List.length_drop]
    omega
  exact ⟨hlen, hlen ▸ hle⟩

theorem ReadPiece_consumes (ha : src.Answers) {s : Reading} (h : ReadPiece src n pos = some s) :
    s.readTo.length = n ∧ s.pos = pos + n := by
  let Inv (s : Reading) : Prop := s.readTo.length + s.count = n ∧ s.pos + s.count = pos + n
  have hbody (s t : Reading) (hs : Inv s) (hc : decide (s.count > 0) = true)
      (ht : readSome src s = some t) : Inv t := by
    unfold readSome at ht
    split at ht
    · exact nomatch ht
    · rename_i bytes hbytes
      obtain ⟨-, ht⟩ := Option.ite_none_right_eq_some.mp ht
      obtain ⟨-, hle⟩ := ReadBytes_consumes ha (of_decide_eq_true hc) hbytes
      obtain rfl := Option.some.inj ht
      obtain ⟨hread, hleft⟩ := hs
      constructor
      · dsimp only
        rw [List.length_append]
        omega
      · dsimp only
        omega
  have hstart : Inv ⟨[], n, pos⟩ := ⟨Nat.zero_add n, rfl⟩
  obtain ⟨⟨hread, hleft⟩, hend⟩ := Loop.loop_result Inv hbody n _ s hstart h
  have hnone := of_decide_eq_false hend
  constructor
  · omega
  · omega

theorem ReadPod_consumes (ha : src.Answers) {pieces : List Nat} : ∀ {pos pos' : Nat} {val : Bytes},
    ReadPod src pieces pos = some (val, pos') → val.length = pieces.sum ∧
      pos' = pos + val.length := by
  induction pieces with
  | nil =>
    intro pos pos' val h
    obtain ⟨rfl, rfl⟩ := Prod.mk.inj (Option.some.inj h)
    exact ⟨rfl, rfl⟩
  | cons n pieces ih =>
    intro pos pos' val h
    obtain ⟨s, hs, h⟩ := Option.bind_eq_some_iff.mp h
    obtain ⟨⟨rest, pos''⟩, hrest, h⟩ := Option.bind_eq_some_iff.mp h
    obtain ⟨rfl, rfl⟩ := Prod.mk.inj (Option.some.inj h)
    obtain ⟨hlen, hpos⟩ := ReadPiece_consumes ha hs
    obtain ⟨hrestlen, hrestpos⟩ := ih hrest
    rw [List.length_append, List.sum_cons, hlen, hrestlen]
    exact ⟨rfl, by omega⟩

theorem ReadUInt32_consumes (ha : src.Answers) (h : ReadUInt32 src pos = some (n, pos')) :
    pos' = pos + 4 := by
  obtain ⟨⟨val, pos''⟩, hread, heq⟩ := Option.map_eq_some_iff.mp h
  obtain ⟨hlen, hpos⟩ := ReadPod_consumes ha hread
  obtain ⟨-, rfl⟩ := Prod.mk.inj heq
  rw [hpos, hlen]
  rfl

theorem ReadElements_consumes (ha : src.Answers) (t : PodType) {length : Nat} :
    ∀ {pos pos' : Nat} {vtr : List Bytes}, ReadElements src t length pos = some (vtr, pos') →
      vtr.length = length ∧ (∀ e ∈ vtr, e.length = t.size) ∧ pos' = pos + vtr.flatten.length := by
  induction length with
  | zero =>
    intro pos pos' vtr h
    obtain ⟨rfl, rfl⟩ := Prod.mk.inj (Option.some.inj h)
    exact ⟨rfl, fun _ he => absurd he List.not_mem_nil, rfl⟩
  | succ length ih =>
    intro pos pos' vtr h
    obtain ⟨⟨e, pos₁⟩, he, h⟩ := Option.bind_eq_some_iff.mp h
    obtain ⟨⟨es, pos₂⟩, hes, h⟩ := Option.bind_eq_some_iff.mp h
    obtain ⟨rfl, rfl⟩ := Prod.mk.inj (Option.some.inj h)
    obtain ⟨hsize, hpos⟩ := ReadPod_consumes ha he
    obtain ⟨hlen, hsizes, hpos'⟩ := ih hes
    refine ⟨congrArg (· + 1) hlen, List.forall_mem_cons.mpr ⟨hsize, hsizes⟩, ?_⟩
    rw [List.flatten_cons, List.length_append]
    omega

/-- **A `Read`** returns an object of its type, and takes its bytes, or fewer where a string is not
given in full. -/
theorem Read_consumes (ha : src.Answers) {ty : Ty} (h : Read src ty pos = some (v, pos')) :
    v.type = ty ∧ v.Fits ∧ pos' ≤ pos + v.bytes.length ∧
      (pos' = pos + v.bytes.length → src.FullAt pos v) := by
  cases ty with
  | pod t =>
    obtain ⟨⟨val, pos''⟩, hread, heq⟩ := Option.map_eq_some_iff.mp h
    obtain ⟨rfl, rfl⟩ := Prod.mk.inj heq
    obtain ⟨hlen, hpos⟩ := ReadPod_consumes ha hread
    exact ⟨rfl, hlen, Nat.le_of_eq hpos, fun _ => trivial⟩
  | string c =>
    obtain ⟨⟨length, pos₁⟩, hlength, h⟩ := Option.bind_eq_some_iff.mp h
    obtain rfl := ReadUInt32_consumes ha hlength
    dsimp only at h
    split_ifs at h with hlong hsome
    · obtain ⟨bytes, hbytes, h⟩ := Option.bind_eq_some_iff.mp h
      obtain ⟨rfl, rfl⟩ := Prod.mk.inj (Option.some.inj h)
      have hlenpos : 0 < c.size * length := Nat.mul_pos c.size_pos hsome
      obtain ⟨hgiven, hle⟩ := ReadBytes_consumes ha hlenpos hbytes
      -- the string has the length that was read, whatever was given
      have hlen : (bytes ++ List.replicate (c.size * length - bytes.length) (0 : UInt8)).length =
          c.size * length := by
        rw [List.length_append, List.length_replicate, Nat.add_sub_cancel' hle]
      refine ⟨rfl, ?_, ?_, fun hall _ => ?_⟩
      · rw [Value.Fits, hlen]
        exact ⟨Nat.dvd_mul_right _ _, Nat.not_le.mp hlong⟩
      · rw [Value.bytes, List.length_append, le32_length, hlen]
        omega
      · rw [Value.bytes, List.length_append, le32_length, hlen] at hall
        rw [hlen, ← hgiven]
        omega
    · obtain ⟨rfl, rfl⟩ := Prod.mk.inj (Option.some.inj h)
      exact ⟨rfl, ⟨Nat.dvd_zero _, by decide⟩, Nat.le_refl _, fun _ hne => absurd rfl hne⟩
  | vector t =>
    obtain ⟨⟨length, pos₁⟩, hlength, h⟩ := Option.bind_eq_some_iff.mp h
    obtain rfl := ReadUInt32_consumes ha hlength
    dsimp only at h
    split_ifs at h with hlong
    obtain ⟨⟨vtr, pos₂⟩, hvtr, h⟩ := Option.bind_eq_some_iff.mp h
    obtain ⟨rfl, rfl⟩ := Prod.mk.inj (Option.some.inj h)
    obtain ⟨hlen, hsizes, hpos⟩ := ReadElements_consumes ha t hvtr
    refine ⟨rfl, ⟨hsizes, ?_⟩, ?_, fun _ => trivial⟩
    · rw [hlen]
      exact Nat.not_le.mp hlong
    · rw [Value.bytes, List.length_append, le32_length, hpos]
      dsimp only
      omega

/-! ## Sequences -/

/-- Every string of the sequence from `pos` on is given in full. -/
def Transport.FullFrom (src : Transport) : Nat → List Value → Prop
  | _, [] => True
  | pos, v :: vs => src.FullAt pos v ∧ src.FullFrom (pos + v.bytes.length) vs

theorem ReadAll_spec (ha : src.Answers) {vs : List Value} : ∀ {pos : Nat}, (∀ v ∈ vs, v.Fits) →
    src.Shows pos (vs.flatMap Value.bytes) → src.FullFrom pos vs →
    ReadAll src (vs.map Value.type) pos = some (vs, pos + (vs.flatMap Value.bytes).length) := by
  induction vs with
  | nil => exact fun _ _ _ => rfl
  | cons v vs ih =>
    intro pos hfits h hfull
    rw [List.flatMap_cons] at h
    have hfirst := Read_spec ha (hfits v List.mem_cons_self) (shows_left h) hfull.1
    have hothers := ih (fun v' hv' => hfits v' (List.mem_cons_of_mem v hv')) (shows_right h) hfull.2
    simp only [List.map_cons, ReadAll, hfirst, hothers, Option.bind_eq_bind, Option.bind_some]
    rw [List.flatMap_cons, List.length_append, Nat.add_assoc]

theorem ReadAll_consumes (ha : src.Answers) {tys : List Ty} : ∀ {pos pos' : Nat} {vs : List Value},
    ReadAll src tys pos = some (vs, pos') → pos' ≤ pos + (vs.flatMap Value.bytes).length ∧
      (pos' = pos + (vs.flatMap Value.bytes).length → src.FullFrom pos vs) := by
  induction tys with
  | nil =>
    intro pos pos' vs h
    obtain ⟨rfl, rfl⟩ := Prod.mk.inj (Option.some.inj h)
    exact ⟨Nat.le_refl _, fun _ => trivial⟩
  | cons ty tys ih =>
    intro pos pos' vs h
    obtain ⟨⟨v, pos₁⟩, hv, h⟩ := Option.bind_eq_some_iff.mp h
    obtain ⟨⟨vs', pos₂⟩, hvs, h⟩ := Option.bind_eq_some_iff.mp h
    obtain ⟨rfl, rfl⟩ := Prod.mk.inj (Option.some.inj h)
    obtain ⟨-, -, hle, hfull⟩ := Read_consumes ha hv
    obtain ⟨hles, hfulls⟩ := ih hvs
    rw [List.flatMap_cons, List.length_append]
    refine ⟨by omega, fun hall => ?_⟩
    -- neither the first value nor the others take fewer than their bytes
    have hfirst : pos₁ = pos + v.bytes.length := by omega
    have hothers : pos₂ = pos₁ + (vs'.flatMap Value.bytes).length := by omega
    exact ⟨hfull hfirst, hfirst ▸ hfulls hothers⟩

/-- A value with its type. -/
structure Datum where
  value : Value
  fits : value.Fits

/-- **A sequence comes through** exactly when every string in it that is not empty is given in
full. -/
theorem reads_back_iff (vs : List Datum) (before rest : Bytes) (recv : Nat → Nat → Nat)
    (ha : Transport.Answers ⟨WriteAll (vs.map Datum.value) before ++ rest, recv⟩) :
    let src : Transport := ⟨WriteAll (vs.map Datum.value) before ++ rest, recv⟩
    ReadAll src (vs.map fun v => v.value.type) before.length =
        some (vs.map Datum.value, (WriteAll (vs.map Datum.value) before).length) ↔
      src.FullFrom before.length (vs.map Datum.value) := by
  intro src
  have hfits : ∀ v ∈ vs.map Datum.value, v.Fits := by
    intro v hv
    obtain ⟨datum, -, rfl⟩ := List.mem_map.mp hv
    exact datum.fits
  have htypes : (vs.map fun v => v.value.type) = (vs.map Datum.value).map Value.type := by
    rw [List.map_map]
    rfl
  have hwire := WriteAll_eq before hfits
  rw [htypes, hwire, List.length_append]
  constructor
  · intro h
    exact (ReadAll_consumes ha h).2 rfl
  · refine ReadAll_spec ha hfits ⟨rest, ?_⟩
    show _ = (WriteAll (vs.map Datum.value) before ++ rest).drop before.length
    rw [hwire, List.append_assoc, List.drop_left]

/-- A transport that gives one byte at a time, but at `whole` all that is asked for. -/
def trickle (wire : Bytes) (whole pos bufLen : Nat) : Nat :=
  min (wire.length - pos) (if pos = whole then bufLen else 1)

theorem answers_trickle (wire : Bytes) (whole : Nat) :
    Transport.Answers ⟨wire, trickle wire whole⟩ := by
  intro pos bufLen hbuf hpos
  unfold trickle
  dsimp only at hpos ⊢
  split_ifs
  · omega
  · omega

/-- A number, a string and a vector. -/
def mixed : List Datum :=
  [⟨.pod .uint32 [1, 2, 3, 4], rfl⟩, ⟨.string .wchar_t [104, 0, 105, 0], ⟨by decide, by decide⟩⟩,
    ⟨.vector .uint32 [[5, 0, 0, 0], [6, 0, 0, 0]], ⟨by decide, by decide⟩⟩]

theorem reads_back_iff_mixed :
    let wire := WriteAll (mixed.map Datum.value) [] ++ []
    ReadAll ⟨wire, trickle wire 8⟩ (mixed.map fun v => v.value.type) 0 =
      some (mixed.map Datum.value, 24) :=
  (reads_back_iff mixed [] [] _ (answers_trickle _ 8)).mpr ⟨trivial, fun _ => rfl, trivial, trivial⟩

/-- Of "hi" only the first letter is read when that comes alone. -/
theorem short_string_lost : ¬ ∀ (vs : List Datum) (before rest : Bytes) (recv : Nat → Nat → Nat),
    let src : Transport := ⟨WriteAll (vs.map Datum.value) before ++ rest, recv⟩
    src.Answers → ReadAll src (vs.map fun v => v.value.type) before.length =
      some (vs.map Datum.value, (WriteAll (vs.map Datum.value) before).length) := by
  intro h
  let hi : Datum := ⟨.string .char (ascii "hi"), ⟨by decide, by decide⟩⟩
  let wire : Bytes := [2, 0, 0, 0, 104, 105]
  have hshort : (ReadAll ⟨wire, trickle wire 100⟩ [.string .char] 0).map Prod.snd = some 5 := by
    decide +kernel
  have hwire : WriteAll ([hi].map Datum.value) [] = wire := by decide
  have hread := h [hi] [] []
  rw [hwire, List.append_nil] at hread
  have hall := congrArg (Option.map Prod.snd) (hread (trickle wire 100) (answers_trickle wire 100))
  exact absurd (Option.some.inj (hshort.symm.trans hall)) (by decide)

end Source

end TiraRdp
