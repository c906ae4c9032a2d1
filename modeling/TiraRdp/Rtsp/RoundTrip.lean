import TiraRdp.Lib.Labels
import TiraRdp.Rtsp.Decimal

/-!
# RTSP messages there and back

`IMsg(m.ToString())` against `m`, for the three types of message, with a command that has no colon
and a command and data without line ends. `ToString` writes four lines and an empty one
(`ToString_eq`); each label is found at its own line, because the labels end with different letters
and no value before them has a colon (`findSub_lines` of the library), and each value ends at the
first line end behind it.

What can go wrong is arithmetic: `DeriveString` keeps positions and lengths in an `int`. Type and
number are short (`parse_type`, `parse_cseq`); the command and the data need not be. A value that
begins where an `int` can say comes back as long as an `int` can say how long it is
(`DeriveString_iff`): an end that wraps is made up for by a difference that does.
-/

namespace TiraRdp

open Lib Lib.Delimited

/-- The colon. -/
def colon : UInt8 := 58

/-- The lines of a list of labels and values. -/
def lines (fields : List (Bytes × Bytes)) : Bytes := fields.flatMap (line colon RTSP_MSG_SEPARATOR)

/-! ## One field -/

variable {token str value rest : Bytes} {n : Nat}

/-- A value that begins where an `int` can say. -/
theorem DeriveString_eq (hfound : findSub (token ++ [colon]) str = some n)
    (hstr : str.drop (n + (token.length + 1)) = value ++ (RTSP_MSG_SEPARATOR ++ rest))
    (hvalue : 13 ∉ value) (hstart : n + (token.length + 1) < 2 ^ 31) :
    DeriveString token str [colon] RTSP_MSG_SEPARATOR =
      if i32 ((n + (token.length + 1) + value.length : Nat) : Int) = -1 then []
      else substr str (n + (token.length + 1))
        (i32 value.length) := by
  have hn : i32 (n : Int) = n := i32_of_lt (by omega) (by omega)
  have hpos : i32 ((n : Int) + (token ++ [colon]).length) =
      ((n + (token.length + 1) : Nat) : Int) := by
    rw [List.length_append, List.length_singleton, i32_of_lt (by omega) (by omega)]
    omega
  have hend : findFrom RTSP_MSG_SEPARATOR str (n + (token.length + 1)) =
      some (n + (token.length + 1) + value.length) := by
    have hterm : findSub RTSP_MSG_SEPARATOR (value ++ (RTSP_MSG_SEPARATOR ++ rest)) =
        some value.length :=
      findSub_terminator hvalue
    rw [findFrom, hstr, hterm, Option.map_some, Nat.add_comm]
  have hcount : i32 (i32 ((n + (token.length + 1) + value.length : Nat) : Int) -
      (n + (token.length + 1) : Nat)) = i32 value.length := by
    have hdiff : ((n + (token.length + 1) + value.length : Nat) : Int) -
        (n + (token.length + 1) : Nat) = value.length := by omega
    rw [i32, i32, Int.bmod_sub_bmod, hdiff, i32]
  have hfirst : (n : Int) ≠ -1 := by omega
  have hnonneg : ¬ ((n + (token.length + 1) : Nat) : Int) < 0 := by omega
  unfold DeriveString
  simp only [hfound, intOfPos, hn, if_neg hfirst, hpos, if_neg hnonneg, Int.toNat_natCast, hend,
    hcount]

/-- It is the field iff an `int` can also say how long it is. -/
theorem DeriveString_iff (hfound : findSub (token ++ [colon]) str = some n)
    (hstr : str.drop (n + (token.length + 1)) = value ++ (RTSP_MSG_SEPARATOR ++ rest))
    (hvalue : 13 ∉ value) (hstart : n + (token.length + 1) < 2 ^ 31) :
    DeriveString token str [colon] RTSP_MSG_SEPARATOR = value ↔ value.length < 2 ^ 31 := by
  rw [DeriveString_eq hfound hstr hvalue hstart]
  generalize n + (token.length + 1) = start at hstr hstart ⊢
  constructor
  · intro h
    by_contra hlong
    have hpos : 0 < value.length := by omega
    have hwrap : i32 (value.length : Int) + 2 ^ 32 ≤ value.length :=
      i32_add_le (Nat.le_of_not_lt hlong)
    split_ifs at h with hnone
    · rw [← h] at hpos
      exact absurd hpos (Nat.lt_irrefl 0)
    · have hlen := congrArg List.length h
      unfold substr at hlen
      rw [hstr] at hlen
      split_ifs at hlen with hneg
      · rw [List.length_append, List.length_append] at hlen
        have hsep : RTSP_MSG_SEPARATOR.length = 2 := rfl
        omega
      · rw [List.length_take] at hlen
        omega
  · intro hlen
    have hsome : i32 ((start + value.length : Nat) : Int) ≠ -1 := by
      rcases Nat.lt_or_ge (start + value.length) (2 ^ 31) with hlt | hge
      · rw [i32_of_lt (by omega) (by omega)]
        omega
      · -- the end wraps, but not to `npos`
        rw [i32_of_ge (by omega) (by omega)]
        omega
    have hcount : i32 (value.length : Int) = value.length := i32_of_lt (by omega) (by omega)
    rw [if_neg hsome, hcount, substr, if_neg (by omega), hstr, Int.toNat_natCast]
    exact List.take_left' rfl

/-- A label just below `2 ^ 31`, or a little above: the position behind it is negative. -/
theorem DeriveString_eq_nil (hfound : findSub (token ++ [colon]) str = some n)
    (hlow : 2 ^ 31 ≤ n + (token.length + 1)) (hhigh : n + (token.length + 1) < 2 ^ 31 + 2 ^ 30) :
    DeriveString token str [colon] RTSP_MSG_SEPARATOR = [] := by
  have htarget : (token ++ [colon]).length = token.length + 1 := by
    rw [List.length_append, List.length_singleton]
  have hpos : i32 (i32 (n : Int) + (token.length + 1 : Nat)) < 0 := by
    have hsum : i32 (i32 (n : Int) + (token.length + 1 : Nat)) =
        i32 ((n + (token.length + 1) : Nat) : Int) := by
      unfold i32
      rw [Int.bmod_add_bmod]
      rfl
    rw [hsum, i32_of_ge (by omega) (by omega)]
    omega
  unfold DeriveString
  simp only [hfound, intOfPos, htarget, if_pos hpos]
  split_ifs <;> rfl

/-- Lines in which a search for a label's mark finds nothing. -/
def PassedOver (label : Bytes) (fields : List (Bytes × Bytes)) : Prop :=
  ∀ f ∈ fields, colon ∉ f.1 ∧ colon ∉ f.2 ∧ f.1 ≠ [] ∧ label.getLast? ≠ f.1.getLast?

theorem PassedOver.nil (label : Bytes) : PassedOver label [] :=
  fun _ hf => absurd hf List.not_mem_nil

theorem PassedOver.cons {label head value : Bytes} {fields : List (Bytes × Bytes)}
    (hhead : colon ∉ head ∧ head ≠ [] ∧ label.getLast? ≠ head.getLast?) (hvalue : colon ∉ value)
    (h : PassedOver label fields) : PassedOver label ((head, value) :: fields) := by
  intro f hf
  rcases List.mem_cons.mp hf with rfl | hf
  · exact ⟨hhead.1, hvalue, hhead.2⟩
  · exact h f hf

section Field

variable (before after : List (Bytes × Bytes)) (label value : Bytes)

theorem lines_split :
    lines (before ++ (label, value) :: after) ++ RTSP_MSG_SEPARATOR =
      lines before ++ (label ++ colon :: (value ++ (RTSP_MSG_SEPARATOR ++
        (lines after ++ RTSP_MSG_SEPARATOR)))) := by
  simp only [lines, line, List.flatMap_append, List.flatMap_cons, List.append_assoc,
    List.cons_append]

theorem find_field (hne : label ≠ []) (hlabel : colon ∉ label) (hbefore : PassedOver label before) :
    findSub (label ++ [colon])
      (lines (before ++ (label, value) :: after) ++ RTSP_MSG_SEPARATOR) =
        some (lines before).length := by
  have hfind := findSub_lines RTSP_MSG_SEPARATOR []
    (value ++ (RTSP_MSG_SEPARATOR ++ (lines after ++ RTSP_MSG_SEPARATOR)))
    hne hlabel (by decide) List.not_mem_nil hbefore
  rw [List.nil_append, List.length_nil, Nat.zero_add] at hfind
  rw [lines_split]
  exact hfind

theorem drop_field :
    (lines (before ++ (label, value) :: after) ++ RTSP_MSG_SEPARATOR).drop
      ((lines before).length + (label.length + 1)) =
      value ++ (RTSP_MSG_SEPARATOR ++ (lines after ++ RTSP_MSG_SEPARATOR)) := by
  have hmark (tail : Bytes) : label ++ colon :: tail = (label ++ [colon]) ++ tail := by
    rw [List.append_assoc, List.singleton_append]
  rw [lines_split, ← List.drop_drop, List.drop_left, hmark]
  exact List.drop_left' List.length_append

/-- **A field** whose value begins where an `int` can say is parsed iff one can say its length. -/
theorem DeriveString_field_iff (hne : label ≠ []) (hlabel : colon ∉ label)
    (hbefore : PassedOver label before) (hvalue : 13 ∉ value)
    (hstart : (lines before).length + (label.length + 1) < 2 ^ 31) :
    DeriveString label (lines (before ++ (label, value) :: after) ++ RTSP_MSG_SEPARATOR) [colon]
        RTSP_MSG_SEPARATOR = value ↔ value.length < 2 ^ 31 :=
  DeriveString_iff (find_field before after label value hne hlabel hbefore)
    (drop_field before after label value) hvalue hstart

end Field

/-! ## Whole messages -/

namespace IMsg

def fields (m : IMsg) : List (Bytes × Bytes) :=
  [(RTSP_HEAD_TYPE, m._type), (RTSP_HEAD_CSEQ, decimal m._cseq), (RTSP_HEAD_CMD, m._cmd),
    (RTSP_HEAD_DATA, m._data)]

theorem ToString_eq (m : IMsg) : m.ToString = lines m.fields ++ RTSP_MSG_SEPARATOR := by
  have hcolon : ascii ":" = [colon] := rfl
  have hend : RTSP_MSG_END = RTSP_MSG_SEPARATOR ++ RTSP_MSG_SEPARATOR := rfl
  simp only [ToString, lines, fields, line, hcolon, hend, List.flatMap_cons, List.flatMap_nil,
    List.append_assoc, List.append_nil, List.cons_append, List.nil_append]

/-- The messages of the protocol: a type of three, an `int`, and texts that keep to their lines. -/
structure Sendable (m : IMsg) : Prop where
  type : m._type = RTSP_TYPE_REQ ∨ m._type = RTSP_TYPE_RESP ++ RTSP_RESPONSE_OK ∨
    m._type = RTSP_TYPE_RESP ++ RTSP_RESPONSE_FAIL
  cseq : -2 ^ 31 ≤ m._cseq ∧ m._cseq < 2 ^ 31
  cmd : ∀ b ∈ m._cmd, b ≠ colon ∧ b ≠ 13 ∧ b ≠ 10
  data : ∀ b ∈ m._data, b ≠ 13 ∧ b ≠ 10

/-- The offset of the command in the text, and that of the data. -/
def cmdStart (m : IMsg) : Nat :=
  (lines [(RTSP_HEAD_TYPE, m._type), (RTSP_HEAD_CSEQ, decimal m._cseq)]).length + 4

def dataStart (m : IMsg) : Nat := m.cmdStart + m._cmd.length + 7

section Sendable

variable {m : IMsg}

theorem decimal_plain (n : Int) : colon ∉ decimal n ∧ 13 ∉ decimal n := by
  constructor
  all_goals
    intro hmem
    rcases mem_decimal hmem with hdigit | hminus
    · exact absurd hdigit (by decide)
    · exact absurd hminus (by decide)

/-- The first two lines but their values have 14 bytes, the command's label 4. -/
theorem cmdStart_eq (m : IMsg) : m.cmdStart = m._type.length + (decimal m._cseq).length + 18 := by
  have htype : RTSP_HEAD_TYPE.length = 4 := rfl
  have hcseq : RTSP_HEAD_CSEQ.length = 4 := rfl
  have hsep : RTSP_MSG_SEPARATOR.length = 2 := rfl
  simp only [cmdStart, lines, line, List.flatMap_cons, List.flatMap_nil, List.length_append,
    List.length_cons, List.length_nil, htype, hcseq, hsep]
  omega

theorem dataStart_eq (m : IMsg) :
    (lines [(RTSP_HEAD_TYPE, m._type), (RTSP_HEAD_CSEQ, decimal m._cseq),
    (RTSP_HEAD_CMD, m._cmd)]).length + (RTSP_HEAD_DATA.length + 1) = m.dataStart := by
  have hcmd : RTSP_HEAD_CMD.length = 3 := rfl
  have hdata : RTSP_HEAD_DATA.length = 4 := rfl
  have hsep : RTSP_MSG_SEPARATOR.length = 2 := rfl
  simp only [dataStart, cmdStart, lines, line, List.flatMap_cons, List.flatMap_nil,
    List.length_append, List.length_cons, List.length_nil, hcmd, hdata, hsep]
  omega

variable (h : m.Sendable)

include h

theorem Sendable.type_plain : colon ∉ m._type ∧ 13 ∉ m._type ∧ m._type.length ≤ 13 := by
  rcases h.type with ht | ht | ht <;> rw [ht] <;> decide

theorem Sendable.cmd_plain : colon ∉ m._cmd ∧ 13 ∉ m._cmd :=
  ⟨fun hmem => (h.cmd _ hmem).1 rfl, fun hmem => (h.cmd _ hmem).2.1 rfl⟩

theorem Sendable.data_plain : 13 ∉ m._data := fun hmem => (h.data _ hmem).1 rfl

theorem Sendable.cmdStart_le : m.cmdStart ≤ 42 := by
  have htype := h.type_plain.2.2
  have hcseq := decimal_length_le h.cseq.1 h.cseq.2
  have hlen := m.cmdStart_eq
  omega

/-- The type is always parsed. -/
theorem parse_type (garbage : Int) : (parse garbage m.ToString)._type = m._type := by
  obtain ⟨-, hvalue, hlen⟩ := h.type_plain
  have hstart : (lines []).length + (RTSP_HEAD_TYPE.length + 1) = 5 := rfl
  rw [ToString_eq]
  exact (DeriveString_field_iff [] _ RTSP_HEAD_TYPE _ (by decide) (by decide) (.nil _) hvalue (by omega)).mpr
    (by omega)

/-- So is the number. -/
theorem parse_cseq (garbage : Int) : (parse garbage m.ToString)._cseq = m._cseq := by
  obtain ⟨hcolon, -, hlen⟩ := h.type_plain
  have hpass : PassedOver RTSP_HEAD_CSEQ [(RTSP_HEAD_TYPE, m._type)] :=
    .cons (by decide) hcolon (.nil _)
  have hdecimal := decimal_length_le h.cseq.1 h.cseq.2
  have hstart : (lines [(RTSP_HEAD_TYPE, m._type)]).length + (RTSP_HEAD_CSEQ.length + 1) =
      m._type.length + 12 := by
    have htype : RTSP_HEAD_TYPE.length = 4 := rfl
    have hcseq : RTSP_HEAD_CSEQ.length = 4 := rfl
    have hsep : RTSP_MSG_SEPARATOR.length = 2 := rfl
    simp only [lines, line, List.flatMap_cons, List.flatMap_nil, List.append_nil,
      List.length_append, List.length_cons, htype, hcseq, hsep]
    omega
  have hfield : DeriveString RTSP_HEAD_CSEQ m.ToString [colon] RTSP_MSG_SEPARATOR =
      decimal m._cseq := by
    rw [ToString_eq]
    exact (DeriveString_field_iff [(RTSP_HEAD_TYPE, m._type)] _ RTSP_HEAD_CSEQ _ (by decide) (by decide) hpass
      (decimal_plain _).2 (by omega)).mpr (by omega)
  exact (congrArg (extractInt garbage) hfield).trans (extractInt_decimal h.cseq.1 h.cseq.2 garbage)

/-- The command is, unless it is longer than an `int` can say. -/
theorem parse_cmd_iff (garbage : Int) :
    (parse garbage m.ToString)._cmd = m._cmd ↔ m._cmd.length < 2 ^ 31 := by
  have hle := h.cmdStart_le
  have hpass : PassedOver RTSP_HEAD_CMD
      [(RTSP_HEAD_TYPE, m._type), (RTSP_HEAD_CSEQ, decimal m._cseq)] :=
    .cons (by decide) h.type_plain.1 (.cons (by decide) (decimal_plain _).1 (.nil _))
  rw [ToString_eq]
  exact DeriveString_field_iff [(RTSP_HEAD_TYPE, m._type), (RTSP_HEAD_CSEQ, decimal m._cseq)] _
    RTSP_HEAD_CMD _ (by decide) (by decide) hpass h.cmd_plain.2 (Nat.lt_of_le_of_lt hle (by decide))

/-- Behind a command that is parsed, so is the data, unless it begins where an `int` cannot say or
is longer than one can say; that there is none can always be said. -/
theorem parse_data_iff (garbage : Int) (hcmd : m._cmd.length < 2 ^ 31) :
    (parse garbage m.ToString)._data = m._data ↔
      m._data = [] ∨ m.dataStart < 2 ^ 31 ∧ m._data.length < 2 ^ 31 := by
  have hle := h.cmdStart_le
  have hpass :
    PassedOver RTSP_HEAD_DATA [(RTSP_HEAD_TYPE, m._type), (RTSP_HEAD_CSEQ, decimal m._cseq),
      (RTSP_HEAD_CMD, m._cmd)] :=
    .cons (by decide) h.type_plain.1
      (.cons (by decide) (decimal_plain _).1 (.cons (by decide) h.cmd_plain.1 (.nil _)))
  have hstart := m.dataStart_eq
  rw [ToString_eq]
  rcases Nat.lt_or_ge m.dataStart (2 ^ 31) with hlt | hge
  · have hiff :=
      DeriveString_field_iff _ [] RTSP_HEAD_DATA _ (by decide) (by decide) hpass h.data_plain
      (hstart ▸ hlt)
    refine hiff.trans ⟨fun hlen => Or.inr ⟨hlt, hlen⟩, ?_⟩
    rintro (hnil | ⟨-, hlen⟩)
    · rw [hnil]
      decide
    · exact hlen
  · have hfar : m.dataStart < 2 ^ 31 + 2 ^ 30 := by
      unfold dataStart
      omega
    have hfound := find_field _ [] RTSP_HEAD_DATA m._data (by decide) (by decide) hpass
    have hnil := DeriveString_eq_nil hfound (hstart ▸ hge) (hstart ▸ hfar)
    have hvalue : (parse garbage (lines m.fields ++ RTSP_MSG_SEPARATOR))._data = [] := hnil
    rw [hvalue]
    refine ⟨fun hdata => Or.inl hdata.symm, ?_⟩
    rintro (hdata | ⟨hlt, -⟩)
    · exact hdata.symm
    · exact absurd hlt (Nat.not_lt.mpr hge)

/-- **There and back.** -/
theorem parse_ToString_iff (garbage : Int) : parse garbage m.ToString = m ↔
    m._cmd.length < 2 ^ 31 ∧
      (m._data = [] ∨ m.dataStart < 2 ^ 31 ∧ m._data.length < 2 ^ 31) := by
  have hfields : parse garbage m.ToString = m ↔
      (parse garbage m.ToString)._cmd = m._cmd ∧ (parse garbage m.ToString)._data = m._data := by
    refine ⟨fun heq => ⟨congrArg _cmd heq, congrArg _data heq⟩, ?_⟩
    rintro ⟨hcmd, hdata⟩
    have htype := parse_type h garbage
    have hcseq := parse_cseq h garbage
    cases hparsed : parse garbage m.ToString
    cases m
    simp only [hparsed] at hcmd hdata htype hcseq
    rw [hcmd, hdata, htype, hcseq]
  rw [hfields, parse_cmd_iff h]
  exact and_congr_right fun hcmd => parse_data_iff h garbage hcmd

end Sendable

/-- **The round trip of a message** gives the message back iff an `int` can say how long its command
is and, if it has data, where the data begins and how long it is; the result of a response is always
given back. -/
theorem round_trip_iff (m : IMsg) (h : m.Sendable) (garbage : Int) :
    (parse garbage m.ToString = m ↔ m._cmd.length < 2 ^ 31 ∧
      (m._data = [] ∨ m.dataStart < 2 ^ 31 ∧ m._data.length < 2 ^ 31)) ∧
    ∀ cseq result data, m = ResponseMsg cseq result data →
      GetResult (parse garbage m.ToString) = result := by
  refine ⟨parse_ToString_iff h garbage, ?_⟩
  rintro cseq result data rfl
  have htype : GetResult (parse garbage (ResponseMsg cseq result data).ToString) =
      GetResult (ResponseMsg cseq result data) :=
    congrArg (· == RTSP_TYPE_RESP ++ RTSP_RESPONSE_OK) (parse_type h garbage)
  exact htype.trans (GetResult_ResponseMsg cseq result data)

/-- A response whose data has the labels and their colons in it. -/
theorem round_trip_iff_labels :
    let m := ResponseMsg (-7) false (ascii "Type:CSeq:1 Cmd:Data:")
    (parse 0 m.ToString = m ↔ m._cmd.length < 2 ^ 31 ∧
      (m._data = [] ∨ m.dataStart < 2 ^ 31 ∧ m._data.length < 2 ^ 31)) ∧
    ∀ cseq result data, m = ResponseMsg cseq result data →
      GetResult (parse 0 m.ToString) = result :=
  round_trip_iff (ResponseMsg (-7) false (ascii "Type:CSeq:1 Cmd:Data:"))
    ⟨by decide, by decide, by decide +kernel, by decide +kernel⟩ 0

/-- A request with a command of `2 ^ 31` letters does not come back. -/
theorem long_command_lost :
    ¬ ∀ (m : IMsg) (garbage : Int), m.Sendable → parse garbage m.ToString = m := by
  intro h
  let m : IMsg := ⟨RTSP_TYPE_REQ, List.replicate (2 ^ 31) 97, [], 0⟩
  have hcmd : ∀ b ∈ m._cmd, b ≠ colon ∧ b ≠ 13 ∧ b ≠ 10 := by
    intro b hb
    obtain rfl := List.eq_of_mem_replicate hb
    decide
  have hsend : m.Sendable := ⟨Or.inl rfl, by decide, hcmd, fun _ hb => absurd hb List.not_mem_nil⟩
  have hend := ((parse_ToString_iff hsend 0).mp (h m 0 hsend)).1
  have hlen : m._cmd.length = 2 ^ 31 := List.length_replicate
  omega

end IMsg

end TiraRdp
