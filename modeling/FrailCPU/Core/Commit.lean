import FrailCPU.Memory.Memory
import FrailCPU.Cp0.Cp0

/-!
# What the last stage commits

The part of `MyCore.sv` around the registers of W: the register file, HI and LO, and
the choice of the slot whose exception record goes to `cp0`. A write of slot 0 is the
younger one and wins over a write of slot 1.
-/

namespace FrailCPU

abbrev RegFile := CregAddr → Word

/-- `regs_nxt` of `regfile.sv`. -/
def regfileNxt (regs : RegFile) (w : Pair WritebackData) : RegFile := fun r =>
  if r == 0#5 then 0#32
  else if r == w.slot0.wa && w.slot0.valid then w.slot0.wd
  else if r == w.slot1.wa && w.slot1.valid then w.slot1.wd
  else regs r

/-- `{hi, lo}`. -/
structure HiLo where
  hi : Word := 0#32
  lo : Word := 0#32
  deriving DecidableEq, Repr

/-- `hilo_res`: the accumulated product. -/
def hiloRes (h : HiLo) (d : MemoryData) : BitVec 64 :=
  match d.ctl.hiloOp with
  | .add => (h.hi ++ h.lo) + d.aluOutExt
  | .sub => (h.hi ++ h.lo) - d.aluOutExt
  | .noHiloOp => d.aluOutExt

/-- `hi_data` and `lo_data` of one slot; a move takes the register, unless the control
record asks for an accumulation. -/
def hiDataOf (h : HiLo) (d : MemoryData) : Word :=
  if d.ctl.srca && d.ctl.hiloOp == .noHiloOp then d.regData
  else (hiloRes h d).extractLsb' 32 32

def loDataOf (h : HiLo) (d : MemoryData) : Word :=
  if d.ctl.srca && d.ctl.hiloOp == .noHiloOp then d.regData
  else (hiloRes h d).extractLsb' 0 32

/-- A clock edge of `hilo.sv`, with the writes of both slots. -/
def hiloNxt (h : HiLo) (w : Pair MemoryData) : HiLo where
  hi := if w.slot0.ctl.hiwrite then hiDataOf h w.slot0
    else if w.slot1.ctl.hiwrite then hiDataOf h w.slot1 else h.hi
  lo := if w.slot0.ctl.lowrite then loDataOf h w.slot0
    else if w.slot1.ctl.lowrite then loDataOf h w.slot1 else h.lo

/-- `valid_n`. -/
def validN (w : Pair MemoryData) : Bool := w.slot1.cp0Ctl.ctype.leaves

/-- `dataM3[valid_n]`, the slot whose record `cp0` looks at. -/
def excSlot (w : Pair MemoryData) : MemoryData := if validN w then w.slot1 else w.slot0

/-- `is_eret`. -/
def isEret (w : Pair MemoryData) : Bool :=
  w.slot1.cp0Ctl.ctype == .eret || w.slot0.cp0Ctl.ctype == .eret

/-- The interrupt lines and the position that was saved for them. -/
structure IrqInput where
  extInt : BitVec 6 := 0#6
  interValid : Bool := false
  intPc : Word := 0#32
  intSlot : Bool := false

/-- The inputs of the `cp0` instance. -/
def cp0Input (w : Pair MemoryData) (resp : MmuResp) (irq : IrqInput) : Cp0Input :=
  { wa := w.slot1.cp0ra
    wd := w.slot1.regData
    valid := w.slot1.ctl.cp0write
    isEret := isEret w
    vaddr := (excSlot w).aluOutExt.extractLsb' 0 32
    pc := (excSlot w).pc
    etype := (excSlot w).cp0Ctl.etype
    ctype := (excSlot w).cp0Ctl.ctype
    isSlot := (excSlot w).isSlot
    iTlbExc := (excSlot w).iTlbExc
    dTlbExc := (excSlot w).dTlbExc
    dWrite := (excSlot w).ctl.memwrite
    tlbType := w.slot1.ctl.tlbType
    mmuResp := resp
    extInt := irq.extInt
    interValid := irq.interValid
    intPc := irq.intPc
    intSlot := irq.intSlot }

/-- The group in W writes an entry of the TLB. -/
def writesTlb (w : Pair MemoryData) : Bool :=
  w.slot1.ctl.tlbType == .tlbwi || w.slot1.ctl.tlbType == .tlbwr

end FrailCPU
