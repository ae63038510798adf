import Mathlib.Data.BitVec

namespace OpStack.Cannon

abbrev Word := BitVec 64

structure CpuScalars where
  pc : Word
  nextPC : Word
  lo : Word
  hi : Word

inductive Panic where
  | divideByZero

def signExtend (dat : Word) (idx : Nat) : Word :=
  let isSigned := (dat >>> (idx - 1)) &&& 1 ≠ 0
  let signed : Word := ((1 <<< (64 - idx)) - 1) <<< idx
  let mask : Word := (1 <<< idx) - 1
  if isSigned then dat &&& mask ||| signed else dat &&& mask

def abs64 (x : Word) : Word := if x.slt 0#64 then -x else x

/-- `bits.Mul64`. -/
def mul64 (x y : Word) : Word × Word :=
  let product := x.setWidth 128 * y.setWidth 128
  (product.extractLsb' 64 64,product.extractLsb' 0 64)

def dmult (a b : Word) : Word × Word :=
  let negative := a.slt 0#64 != b.slt 0#64
  let (hi,lo) := mul64 (abs64 a) (abs64 b)
  if negative then
    let hi := ~~~hi
    let lo := ~~~lo
    (if lo = 0xFFFFFFFFFFFFFFFF#64 then hi + 1#64 else hi,lo + 1#64)
  else (hi,lo)

/-- HI and LO after the instruction, and its value for a register. -/
def hiLo (cpu : CpuScalars) (funct : Nat) (rs rt : Word) : Except Panic (Word × Word × Word) :=
  let halves (acc : Word) :=
    .ok (signExtend (acc >>> 32) 32,signExtend ((acc.setWidth 32).setWidth 64) 32,0)
  let rs32 := rs.setWidth 32
  let rt32 := rt.setWidth 32
  match funct with
  | 0x10 => .ok (cpu.hi,cpu.lo,cpu.hi)
  | 0x11 => .ok (rs,cpu.lo,0)
  | 0x12 => .ok (cpu.hi,cpu.lo,cpu.lo)
  | 0x13 => .ok (cpu.hi,rs,0)
  -- mult
  | 0x18 => halves (rs32.signExtend 64 * rt32.signExtend 64)
  | 0x19 => halves (rs32.setWidth 64 * rt32.setWidth 64)
  -- div
  | 0x1a =>
    if rt32 = 0 then .error .divideByZero
    else .ok (signExtend ((rs32.srem rt32).signExtend 64) 32,
      signExtend ((rs32.sdiv rt32).signExtend 64) 32,0)
  | 0x1b =>
    if rt32 = 0 then .error .divideByZero
    else .ok (signExtend ((rs32 % rt32).setWidth 64) 32,signExtend ((rs32 / rt32).setWidth 64) 32,0)
  | 0x14 => .ok (cpu.hi,cpu.lo,rt <<< (rs &&& 0x3F))
  | 0x16 => .ok (cpu.hi,cpu.lo,rt >>> (rs &&& 0x3F))
  | 0x17 => .ok (cpu.hi,cpu.lo,rt.sshiftRight' (rs &&& 0x3F))
  -- dmult
  | 0x1c => let (hi,lo) := dmult rs rt; .ok (hi,lo,0)
  | 0x1d => let (hi,lo) := mul64 rs rt; .ok (hi,lo,0)
  -- ddiv
  | 0x1e => if rt = 0 then .error .divideByZero else .ok (rs.srem rt,rs.sdiv rt,0)
  | 0x1f => if rt = 0 then .error .divideByZero else .ok (rs % rt,rs / rt,0)
  | _ => .ok (cpu.hi,cpu.lo,0)

/-- The number of the register is a field of five bits. -/
def handleHiLo (cpu : CpuScalars) (registers : Vector Word 32) (funct : Nat) (rs rt : Word)
    (storeReg : Fin 32) : Except Panic (CpuScalars × Vector Word 32) := do
  let (hi,lo,val) ← hiLo cpu funct rs rt
  let registers := if storeReg ≠ 0 then registers.set storeReg val else registers
  .ok (⟨cpu.nextPC,cpu.nextPC + 4,lo,hi⟩,registers)

end OpStack.Cannon
