import TiraRdp.Lib.Simd

/-!
# An MMX unit

Eight registers of four lanes of sixteen bits, and the instructions of a straight-line program on
them. `pinsrw` reads a word beside the pointer of the program; `word` is what is at an offset from
it. `room` is a ghost: it stays true as long as no sum of lanes has had a carry, and no difference
of lanes, as signed numbers, has left the range of a lane.

`runMmx_append` and `runMmx_gather` take a program apart, the second for the four insertions that
fill a register with words eight bytes apart; with them and the definitions of `Instr.step`,
`Mmx.get` and `Mmx.set`, what a program leaves in its registers is computed.
-/

namespace TiraRdp.Lib.Simd

inductive Reg
  | mm0 | mm1 | mm2 | mm3 | mm4 | mm5 | mm6 | mm7
  deriving Repr, DecidableEq

structure Mmx where
  mm0 : Lanes 4 16
  mm1 : Lanes 4 16
  mm2 : Lanes 4 16
  mm3 : Lanes 4 16
  mm4 : Lanes 4 16
  mm5 : Lanes 4 16
  mm6 : Lanes 4 16
  mm7 : Lanes 4 16
  /-- ghost -/
  room : Bool

namespace Mmx

def get (s : Mmx) : Reg → Lanes 4 16
  | .mm0 => s.mm0
  | .mm1 => s.mm1
  | .mm2 => s.mm2
  | .mm3 => s.mm3
  | .mm4 => s.mm4
  | .mm5 => s.mm5
  | .mm6 => s.mm6
  | .mm7 => s.mm7

def set (s : Mmx) (d : Reg) (v : Lanes 4 16) : Mmx :=
  match d with
  | .mm0 => { s with mm0 := v }
  | .mm1 => { s with mm1 := v }
  | .mm2 => { s with mm2 := v }
  | .mm3 => { s with mm3 := v }
  | .mm4 => { s with mm4 := v }
  | .mm5 => { s with mm5 := v }
  | .mm6 => { s with mm6 := v }
  | .mm7 => { s with mm7 := v }

theorem get_set (s : Mmx) (d : Reg) (v : Lanes 4 16) : (s.set d v).get d = v := by
  cases d <;> rfl

theorem set_set (s : Mmx) (d : Reg) (u v : Lanes 4 16) : (s.set d u).set d v = s.set d v := by
  cases d <;> rfl

/-- Room is left as long as `ok` holds of every lane. -/
def check (s : Mmx) (ok : Fin 4 → Bool) : Mmx :=
  { s with room := s.room && decide (∀ k, ok k = true) }

end Mmx

/-- An instruction; the first register is the one that is written. -/
inductive Instr
  | movq (d r : Reg)
  | movqConst (d : Reg) (c : BitVec 64)
  | pinsrw (d : Reg) (offset : Nat) (k : Fin 4)
  | psllw (d : Reg) (n : Nat)
  | psrlw (d : Reg) (n : Nat)
  | pand (d r : Reg)
  | por (d r : Reg)
  | paddw (d r : Reg)
  | psubw (d r : Reg)
  | pmulhuw (d r : Reg)
  | paddb (d r : Reg)
  deriving Repr, DecidableEq

def lanesOf (c : BitVec 64) : Lanes 4 16 := fun k => c.extractLsb' (16 * k) 16

/-- The upper half of an unsigned product. -/
def mulhu (a b : BitVec 16) : BitVec 16 := BitVec.ofNat 16 (a.toNat * b.toNat / 2 ^ 16)

/-- The sum of the upper bytes and that of the lower ones. -/
def addBytes (a b : BitVec 16) : BitVec 16 :=
  (a.extractLsb' 8 8 + b.extractLsb' 8 8) ++ (a.extractLsb' 0 8 + b.extractLsb' 0 8)

def Instr.step (word : Nat → BitVec 16) (s : Mmx) : Instr → Mmx
  | movq d r => s.set d (s.get r)
  | movqConst d c => s.set d (lanesOf c)
  | pinsrw d offset k => s.set d fun j => if j = k then word offset else s.get d j
  | psllw d n => s.set d fun k => s.get d k <<< n
  | psrlw d n => s.set d fun k => s.get d k >>> n
  | pand d r => s.set d fun k => s.get d k &&& s.get r k
  | por d r => s.set d fun k => s.get d k ||| s.get r k
  | paddw d r =>
    (s.check fun k => !(s.get d k).uaddOverflow (s.get r k)).set d fun k => s.get d k + s.get r k
  | psubw d r =>
    (s.check fun k => !(s.get d k).ssubOverflow (s.get r k)).set d fun k => s.get d k - s.get r k
  | pmulhuw d r => s.set d fun k => mulhu (s.get d k) (s.get r k)
  | paddb d r => s.set d fun k => addBytes (s.get d k) (s.get r k)

def runMmx (word : Nat → BitVec 16) (program : List Instr) (s : Mmx) : Mmx :=
  program.foldl (fun s i => i.step word s) s

section Programs

variable {word : Nat → BitVec 16} {s : Mmx} {d : Reg}

theorem runMmx_append (p q : List Instr) :
    runMmx word (p ++ q) s = runMmx word q (runMmx word p s) :=
  List.foldl_append

theorem runMmx_cons (i : Instr) (p : List Instr) :
    runMmx word (i :: p) s = runMmx word p (i.step word s) := rfl

theorem runMmx_nil : runMmx word [] s = s := rfl

/-- Four words, eight bytes apart. -/
def gather (d : Reg) (offset : Nat) : List Instr :=
  [.pinsrw d offset 0, .pinsrw d (offset + 8) 1, .pinsrw d (offset + 16) 2, .pinsrw d (offset + 24) 3]

theorem runMmx_gather (offset : Nat) :
    runMmx word (gather d offset) s = s.set d fun k => word (offset + 8 * k) := by
  unfold gather
  simp only [runMmx_cons, runMmx_nil, Instr.step, Mmx.get_set, Mmx.set_set]
  congr 1
  funext k
  match k with
  | 0 => rfl
  | 1 => rfl
  | 2 => rfl
  | 3 => rfl

end Programs

end TiraRdp.Lib.Simd
