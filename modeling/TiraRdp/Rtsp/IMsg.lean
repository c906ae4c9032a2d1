import TiraRdp.Lib.Delimited
import TiraRdp.Lib.Word

/-!
# RTSP messages

Model of `common/rtsp/IMsg.cpp`, `RequestMsg.cpp` and `ResponseMsg.cpp`. A message is its four
fields; `RequestMsg` and `ResponseMsg` add none. Strings are byte strings. A position that
`std::string::find` returns is kept in an `int` (`intOfPos`), so `npos` is `-1` and a position from
`2 ^ 31` on is not itself. The difference of two of them is an `int` too, and wraps.

`operator>>` leaves its target alone when the stream has nothing but white space, and the parsing
constructor does not initialise `_cseq`: what it holds then is a parameter of `parse`.
-/

namespace TiraRdp

open Lib Lib.Delimited

def RTSP_HEAD_DATA : Bytes := ascii "Data"
def RTSP_HEAD_TYPE : Bytes := ascii "Type"
def RTSP_HEAD_CSEQ : Bytes := ascii "CSeq"
def RTSP_HEAD_CMD : Bytes := ascii "Cmd"

def RTSP_TYPE_REQ : Bytes := ascii "Req"
def RTSP_TYPE_RESP : Bytes := ascii "Resp"
def RTSP_TYPE_HEART_BEAT : Bytes := ascii "HEARTBEAT"

def RTSP_RESPONSE_OK : Bytes := ascii " 200 OK"
def RTSP_RESPONSE_FAIL : Bytes := ascii " 100 FAIL"

def RTSP_MSG_SEPARATOR : Bytes := [13, 10]
def RTSP_MSG_END : Bytes := [13, 10, 13, 10]
def RTSP_MSG_MAX_SIZE : Nat := 256

/-- What an `int` keeps of the result of `find`. -/
def intOfPos : Option Nat → Int
  | none => -1
  | some n => i32 n

/-- `str.find(pat, pos)`. -/
def findFrom (pat str : Bytes) (pos : Nat) : Option Nat :=
  (findSub pat (str.drop pos)).map (· + pos)

/-- `str.substr(pos, count)`; a negative `count` is a huge `size_t`. -/
def substr (str : Bytes) (pos : Nat) (count : Int) : Bytes :=
  if count < 0 then str.drop pos else (str.drop pos).take count.toNat

/-- `DeriveString` (`IMsg.cpp:5-18`): what stands between `token` with `opening` behind it and the
next `closing`. -/
def DeriveString (token str opening closing : Bytes) : Bytes :=
  let target := token ++ opening
  let found := intOfPos (findSub target str)
  if found = -1 then []
  else
    let startPos := i32 (found + target.length)
    -- a negative `startPos` is a position behind any string's end
    let endPos := if startPos < 0 then -1 else intOfPos (findFrom closing str startPos.toNat)
    if endPos = -1 then [] else substr str startPos.toNat (i32 (endPos - startPos))

def isSpace (c : UInt8) : Bool := c == 32 || (9 ≤ c && c ≤ 13)

def isDigit (c : UInt8) : Bool := 48 ≤ c && c ≤ 57

/-- The number a string of digits begins with. -/
def digitsValue (str : Bytes) : Nat :=
  (str.takeWhile isDigit).foldl (fun n c => 10 * n + (c.toNat - 48)) 0

/-- `is >> value` on an `int` that holds `value`. -/
def extractInt (value : Int) (str : Bytes) : Int :=
  match str.dropWhile isSpace with
  | [] => value
  | c :: rest =>
    if c = 45 then max (-(digitsValue rest : Int)) (-2 ^ 31)
    else if c = 43 then min (digitsValue rest : Int) (2 ^ 31 - 1)
    else min (digitsValue (c :: rest) : Int) (2 ^ 31 - 1)

/-- `os << n`. -/
def decimal (n : Int) : Bytes := ascii (toString n)

structure IMsg where
  _type : Bytes
  _cmd : Bytes
  _data : Bytes
  _cseq : Int
  deriving Repr, DecidableEq

namespace IMsg

/-- `IMsg(str)`; `garbage` is what the uninitialised `_cseq` holds. -/
def parse (garbage : Int) (str : Bytes) : IMsg where
  _data := DeriveString RTSP_HEAD_DATA str (ascii ":") RTSP_MSG_SEPARATOR
  _type := DeriveString RTSP_HEAD_TYPE str (ascii ":") RTSP_MSG_SEPARATOR
  _cmd := DeriveString RTSP_HEAD_CMD str (ascii ":") RTSP_MSG_SEPARATOR
  _cseq := extractInt garbage (DeriveString RTSP_HEAD_CSEQ str (ascii ":") RTSP_MSG_SEPARATOR)

def ToString (m : IMsg) : Bytes :=
  RTSP_HEAD_TYPE ++ ascii ":" ++ m._type ++ RTSP_MSG_SEPARATOR ++
    (RTSP_HEAD_CSEQ ++ ascii ":" ++ decimal m._cseq ++ RTSP_MSG_SEPARATOR) ++
    (RTSP_HEAD_CMD ++ ascii ":" ++ m._cmd ++ RTSP_MSG_SEPARATOR) ++
    (RTSP_HEAD_DATA ++ ascii ":" ++ m._data ++ RTSP_MSG_END)

end IMsg

/-- `RequestMsg(request)`. -/
def RequestMsg (request : Bytes) : IMsg := ⟨RTSP_TYPE_REQ, request, [], -1⟩

/-- `ResponseMsg(cseq, result, data)`. -/
def ResponseMsg (cseq : Int) (result : Bool) (data : Bytes) : IMsg :=
  ⟨RTSP_TYPE_RESP ++ (if result then RTSP_RESPONSE_OK else RTSP_RESPONSE_FAIL), [], data, cseq⟩

/-- `ResponseMsg::GetResult`. -/
def GetResult (response : IMsg) : Bool := response._type == RTSP_TYPE_RESP ++ RTSP_RESPONSE_OK

theorem GetResult_ResponseMsg (cseq : Int) (result : Bool) (data : Bytes) :
    GetResult (ResponseMsg cseq result data) = result := by
  cases result with
  | true => exact beq_self_eq_true (RTSP_TYPE_RESP ++ RTSP_RESPONSE_OK)
  | false =>
    show (RTSP_TYPE_RESP ++ RTSP_RESPONSE_FAIL == RTSP_TYPE_RESP ++ RTSP_RESPONSE_OK) = false
    decide

/-- A response goes out and comes back as it was. -/
example : IMsg.parse 99 (ResponseMsg (-12) true (ascii "Cmd:x")).ToString =
    ResponseMsg (-12) true (ascii "Cmd:x") := by decide

end TiraRdp
