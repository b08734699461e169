import FrailCPU.Decode.Facts

/-!
# The instructions on HI and LO

The instructions that write or read HI and LO, by their encoding in the architecture,
and the control bits that the decoder gives each of them (`decoder_hilo`). The row of
`SP_MADDU` lacks the bit `mul`, so its record asks for the sum of the operands and not for
their product. `MSUBU` is not in the table of the decoder and is none of them.
-/

namespace FrailCPU

open Instr

/-- What an instruction has to do with HI and LO. -/
inductive HiloInstr
  | mult | multu | div | divu | madd | maddu | msub | mthi | mtlo | mfhi | mflo | other
  deriving DecidableEq, Repr

namespace HiloInstr

/-- The accumulating instructions. -/
def accumulates : HiloInstr → Bool
  | .madd | .maddu | .msub => true
  | _ => false

/-- The instructions that write both halves, whatever they held. -/
def overwrites : HiloInstr → Bool
  | .mult | .multu | .div | .divu => true
  | _ => false

def writesHi (k : HiloInstr) : Bool := k.overwrites || k.accumulates || k == .mthi

def writesLo (k : HiloInstr) : Bool := k.overwrites || k.accumulates || k == .mtlo

def writes (k : HiloInstr) : Bool := k.writesHi || k.writesLo

def signed : HiloInstr → Bool
  | .mult | .div | .madd | .msub => true
  | _ => false

/-- The instructions that the decoder sends to the multiplier. -/
def multiplies : HiloInstr → Bool
  | .mult | .multu | .madd | .msub => true
  | _ => false

def divides : HiloInstr → Bool
  | .div | .divu => true
  | _ => false

def hiloOp : HiloInstr → HiloOp
  | .madd | .maddu => .add
  | .msub => .sub
  | _ => .noHiloOp

end HiloInstr

/-- The function field of the opcode `SPECIAL`. -/
def hiloSpecial (func : BitVec 6) : HiloInstr :=
  match func with
  | 0b011000#6 => .mult
  | 0b011001#6 => .multu
  | 0b011010#6 => .div
  | 0b011011#6 => .divu
  | 0b010000#6 => .mfhi
  | 0b010010#6 => .mflo
  | 0b010001#6 => .mthi
  | 0b010011#6 => .mtlo
  | _ => .other

/-- The function field of the opcode `SPECIAL2`. -/
def hiloSpecial2 (func : BitVec 6) : HiloInstr :=
  match func with
  | 0b000000#6 => .madd
  | 0b000001#6 => .maddu
  | 0b000100#6 => .msub
  | _ => .other

/-- The instruction of a word. -/
def hiloInstr (instr : Word) : HiloInstr :=
  match op instr with
  | 0b000000#6 => hiloSpecial (func instr)
  | 0b011100#6 => hiloSpecial2 (func instr)
  | _ => .other

/-- The control record has the bits of `k`. The last two fields are about every
instruction: an access uses no unit, and an addition or subtraction that may overflow
is never a shift. -/
structure Control.Hilo (c : Control) (k : HiloInstr) : Prop where
  hiwrite : c.hiwrite = k.writesHi
  lowrite : c.lowrite = k.writesLo
  hitoreg : c.hitoreg = (k == .mfhi)
  lotoreg : c.lotoreg = (k == .mflo)
  sc : k = .mfhi ∨ k = .mflo → c.sc = false
  hiloOp : c.hiloOp = k.hiloOp
  srca : c.srca = (k == .mthi || k == .mtlo)
  mul : k ≠ .other → c.mul = k.multiplies
  div : k ≠ .other → c.div = k.divides
  signedMulDiv : k ≠ .other → c.signedMulDiv = k.signed
  sum : k = .maddu → c.alufunc = .addu ∧ c.alusrc = .regb ∧ c.shamtValid = false
  access : c.accesses = true → c.mul = false ∧ c.div = false
  checked : c.alufunc = .add ∨ c.alufunc = .sub →
    c.shamtValid = false ∧ (c.alufunc = .sub → c.alusrc = .regb)

theorem Control.hilo_zero : ({} : Control).Hilo .other := by
  constructor <;> simp [HiloInstr.writesHi, HiloInstr.writesLo, HiloInstr.overwrites,
    HiloInstr.accumulates, HiloInstr.hiloOp, Control.accesses]

section Tables

variable (instr : Word) {d : Decoded}

theorem decodeRegimm_hilo : (decodeRegimm instr d).ctl.Hilo .other := by
  unfold decodeRegimm
  split <;> constructor <;> simp [Decoded.reserved, HiloInstr.writesHi, HiloInstr.writesLo,
    HiloInstr.overwrites, HiloInstr.accumulates, HiloInstr.hiloOp, Control.accesses]

theorem decodeCache_hilo : (decodeCache instr d).ctl.Hilo .other := by
  unfold decodeCache
  split <;> constructor <;> simp [HiloInstr.writesHi, HiloInstr.writesLo,
    HiloInstr.overwrites, HiloInstr.accumulates, HiloInstr.hiloOp, Control.accesses]

theorem decodeCop0_hilo : (decodeCop0 instr d).ctl.Hilo .other := by
  unfold decodeCop0
  split
  · unfold decodeCop0Func
    split <;> constructor <;> simp [Decoded.reserved, HiloInstr.writesHi,
      HiloInstr.writesLo, HiloInstr.overwrites, HiloInstr.accumulates, HiloInstr.hiloOp, Control.accesses]
  all_goals
    constructor <;> simp [Decoded.reserved, HiloInstr.writesHi, HiloInstr.writesLo,
      HiloInstr.overwrites, HiloInstr.accumulates, HiloInstr.hiloOp, Control.accesses]

theorem decodeCop1_hilo : (decodeCop1 instr d).ctl.Hilo .other := by
  unfold decodeCop1
  split <;> constructor <;> simp [Decoded.reserved, Decoded.copUnusable,
    HiloInstr.writesHi, HiloInstr.writesLo, HiloInstr.overwrites, HiloInstr.accumulates,
    HiloInstr.hiloOp, Control.accesses]

variable (h : d.ctl = {})

include h

theorem decodeSpecial_hilo : (decodeSpecial instr d).ctl.Hilo (hiloSpecial (func instr)) := by
  unfold decodeSpecial hiloSpecial
  split <;> rename_i hf <;> simp only [hf] <;> constructor <;>
    simp [h, Decoded.reserved, Decoded.threeReg, Decoded.twoReg, Decoded.shiftReg,
      HiloInstr.writesHi, HiloInstr.writesLo, HiloInstr.overwrites, HiloInstr.accumulates,
      HiloInstr.hiloOp, HiloInstr.multiplies, HiloInstr.divides, HiloInstr.signed, Control.accesses]

theorem decodeSpecial2_hilo :
    (decodeSpecial2 instr d).ctl.Hilo (hiloSpecial2 (func instr)) := by
  unfold decodeSpecial2 hiloSpecial2
  split <;> rename_i hf <;> simp only [hf] <;> constructor <;>
    simp [h, Decoded.threeReg, Decoded.twoReg, HiloInstr.writesHi, HiloInstr.writesLo,
      HiloInstr.overwrites, HiloInstr.accumulates, HiloInstr.hiloOp, HiloInstr.multiplies,
      HiloInstr.divides, HiloInstr.signed, Control.accesses]

theorem decodeOp_hilo : (decodeOp instr d).ctl.Hilo (hiloInstr instr) := by
  unfold decodeOp hiloInstr
  split <;> rename_i hop <;> simp only [hop]
  case h_12 => exact decodeRegimm_hilo instr
  case h_31 => exact decodeCache_hilo instr
  case h_32 => exact decodeCop0_hilo instr
  case h_33 => exact decodeSpecial_hilo instr h
  case h_34 => exact decodeCop1_hilo instr
  case h_37 => exact decodeSpecial2_hilo instr h
  all_goals
    constructor <;> simp [h, Decoded.reserved, Decoded.twoReg, Decoded.immReg,
      Decoded.mergeReg, Decoded.copUnusable, HiloInstr.writesHi, HiloInstr.writesLo,
      HiloInstr.overwrites, HiloInstr.accumulates, HiloInstr.hiloOp, Control.accesses]

end Tables

/-- The control record of a word that is fetched has the bits of its instruction. -/
theorem decoder_hilo (instr : Word) (cp0CtlOld : Cp0Control) :
    (decoder instr true cp0CtlOld).ctl.Hilo (hiloInstr instr) := by
  have h := decodeOp_hilo instr (d := presetDecoded instr cp0CtlOld) rfl
  exact ⟨h.hiwrite, h.lowrite, h.hitoreg, h.lotoreg, h.sc, h.hiloOp, h.srca, h.mul, h.div,
    h.signedMulDiv, h.sum, h.access, h.checked⟩

end FrailCPU
