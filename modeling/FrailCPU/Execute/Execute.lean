import FrailCPU.Execute.Alu
import FrailCPU.Decode.Facts

/-!
# The execute stage

`execute.sv` for one group, once its operands are settled: `rd` holds the values of the
two read ports of each slot, and `MulDivResult` what the multiplier and the divider
deliver for the operands of the slot that uses them. The control record of slot 0
depends on what is found about slot 1, and not the other way round.
-/

namespace FrailCPU

/-- The operands of one slot: `rd1[i]` and `rd2[i]`. -/
structure Operands where
  rd1 : Word := 0#32
  rd2 : Word := 0#32
  deriving DecidableEq, Repr

/-- `multc` and `divc`. -/
structure MulDivResult where
  multc : BitVec 64 := 0#64
  divc : BitVec 64 := 0#64

section Slot

variable (d : IssueData) (rd : Operands)

/-- `extend_b[i]`. -/
def extendB : Word :=
  if d.ctl.zeroext then d.imm.setWidth 32 else d.imm.signExtend 32

/-- The two inputs of the arithmetic unit of a slot. -/
def aluA : Word :=
  if d.ctl.shamtValid then (d.rawInstr.extractLsb' 6 5).setWidth 32 else rd.rd1

def aluB : Word :=
  match d.ctl.alusrc with
  | .regb => rd.rd2
  | .imm => extendB d

/-- `aluout` of slot 1 and `aluout2` of slot 0. -/
def aluOut : Word := alu (aluA d rd) (aluB d rd) d.ctl.alufunc

/-- `exception_of[i]`. -/
def exceptionOf : Bool := aluOverflow (aluA d rd) (aluB d rd) d.ctl.alufunc

/-- `trap[i]`. -/
def trapOf : Bool := d.ctl.tne && rd.rd1 == rd.rd2

/-- The address of an aligned access of this size has these bits clear. -/
def sizeMisaligned (msize : MSize) (addr : Word) : Bool :=
  (msize == .size2 && addr.getLsbD 0) ||
    (msize == .size4 && (addr.getLsbD 1 || addr.getLsbD 0))

/-- `load_misalign[i]`. -/
def loadMisalign : Bool :=
  d.ctl.memtype == .noMisalign && d.ctl.memtoreg && sizeMisaligned d.ctl.msize (aluOut d rd)

/-- `store_misalign[i]`. -/
def storeMisalign : Bool :=
  d.ctl.memtype == .noMisalign && d.ctl.memwrite && sizeMisaligned d.ctl.msize (aluOut d rd)

/-- A conditional move whose condition fails takes its write back. -/
def moveFails : Bool :=
  (d.ctl.op == .movz && rd.rd2 != 0#32) || (d.ctl.op == .movn && rd.rd2 == 0#32)

/-- `reg_data` of a slot. -/
def regDataOf : Word := if d.ctl.srca then rd.rd1 else rd.rd2

end Slot

section Redirect

variable (d : IssueData) (rd : Operands)

def slotPc : Word := d.pc + 4#32

/-- `target_offset`: the source extends the sign over 15 bits and keeps the bits below
it, so the shifted immediate has 32 bits. -/
def targetOffset : Word :=
  (BitVec.fill 15 (d.rawInstr.getLsbD 15) ++ d.rawInstr.extractLsb' 0 15 ++ 0#2 : BitVec 32)

/-- The destination of a jump within its region. -/
def jumpTarget : Word :=
  ((slotPc d).extractLsb' 28 4 ++ d.rawInstr.extractLsb' 0 26 ++ 0#2 : BitVec 32)

/-- `branch_condition` of slot 1. -/
def branchConditionOf : Bool :=
  branchCondition d.ctl.branchType rd.rd1 rd.rd2 d.ctl.branch

/-- `target`: where the fetch goes on when `branch_taken` is raised. -/
def targetOf : Word :=
  if d.ctl.branch && branchConditionOf d rd && !d.preB then slotPc d + targetOffset d
  else if d.ctl.branch && !branchConditionOf d rd && d.preB then d.pc + 8#32
  else if d.ctl.jr then rd.rd1
  else if d.ctl.jump then jumpTarget d
  else if d.ctl.cacheI || d.ctl.cacheD || d.ctl.tlb then d.pc + 4#32
  else 0#32

/-- `dest_pc`: the destination reported to the predictor. -/
def destPcOf : Word :=
  if d.ctl.branch then slotPc d + targetOffset d
  else if d.ctl.jr then rd.rd1
  else if d.ctl.jump then jumpTarget d
  else 0#32

/-- `branch_taken`. A jump compares the predicted address with its own; a branch
compares only the direction. -/
def branchTakenOf : Bool :=
  (d.ctl.jump && !(d.preB && d.prePc == targetOf d rd)) ||
    (d.ctl.branch && branchConditionOf d rd && !d.preB) ||
    (d.ctl.branch && !branchConditionOf d rd && d.preB) || d.ctl.tlb || d.ctl.cacheD

end Redirect

section Group

variable (dataI : Pair IssueData) (rd : Pair Operands) (u : MulDivResult)

/-- `valid_i`: the slot whose operands the multiplier and the divider take. -/
def mulDivSlot1 : Bool := dataI.slot1.ctl.mul || dataI.slot1.ctl.div

def multia : Word := if mulDivSlot1 dataI then rd.slot1.rd1 else rd.slot0.rd1

def multib : Word := if mulDivSlot1 dataI then rd.slot1.rd2 else rd.slot0.rd2

def signedMulDivOf : Bool :=
  if mulDivSlot1 dataI then dataI.slot1.ctl.signedMulDiv else dataI.slot0.ctl.signedMulDiv

/-- `nega` and `negb`: the operand is negative and is fed with the other sign. -/
def nega : Bool := signedMulDivOf dataI && (multia dataI rd).msb

def negb : Bool := signedMulDivOf dataI && (multib dataI rd).msb

/-- `{hi_data, lo_data}`. -/
def hiloData : BitVec 64 :=
  let flip := nega dataI rd != negb dataI rd
  if dataI.slot1.ctl.mul || dataI.slot0.ctl.mul then (if flip then -u.multc else u.multc)
  else if dataI.slot1.ctl.div || dataI.slot0.ctl.div then
    let lo := u.divc.extractLsb' 0 32
    let hi := u.divc.extractLsb' 32 32
    (if nega dataI rd then -hi else hi) ++ (if flip then -lo else lo)
  else 0#64

def aluOutExt1 : BitVec 64 :=
  if dataI.slot1.ctl.isLink then (dataI.slot1.pc + 8#32).setWidth 64
  else if dataI.slot1.ctl.mul || dataI.slot1.ctl.div then hiloData dataI rd u
  else (aluOut dataI.slot1 rd.slot1).setWidth 64

def aluOutExt0 : BitVec 64 :=
  if dataI.slot0.ctl.div || dataI.slot0.ctl.mul then hiloData dataI rd u
  else (aluOut dataI.slot0 rd.slot0).setWidth 64

/-- The control record of slot 1 in E. -/
def executeCtl1 : Control :=
  let d := dataI.slot1
  let r := rd.slot1
  { d.ctl with
    memtoreg := d.ctl.memtoreg && !loadMisalign d r
    memwrite := d.ctl.memwrite && !(!loadMisalign d r && storeMisalign d r)
    regwrite := d.ctl.regwrite && !moveFails d r }

/-- The control record of slot 0 in E: a misaligned access in slot 1 takes both kinds
of access back, an overflow or an earlier exception only the store. -/
def executeCtl0 : Control :=
  let d := dataI.slot0
  let r := rd.slot0
  let misalign1 := loadMisalign dataI.slot1 rd.slot1 || storeMisalign dataI.slot1 rd.slot1
  let fault1 := dataI.slot1.cp0Ctl.ctype == .exception || exceptionOf dataI.slot1 rd.slot1
  { d.ctl with
    memtoreg := d.ctl.memtoreg && !misalign1 && !loadMisalign d r
    memwrite := d.ctl.memwrite && !misalign1 && !(!loadMisalign d r && storeMisalign d r) &&
      !fault1
    regwrite := d.ctl.regwrite && !moveFails d r }

/-- The causes that E finds for an instruction, one flag for each. -/
structure Found where
  overflow : Bool
  adesD : Bool
  adelD : Bool
  trap : Bool

def Found.any (f : Found) : Bool := f.overflow || f.adesD || f.adelD || f.trap

def found1 : Found where
  overflow := exceptionOf dataI.slot1 rd.slot1
  adesD := storeMisalign dataI.slot1 rd.slot1
  adelD := loadMisalign dataI.slot1 rd.slot1
  trap := trapOf dataI.slot1 rd.slot1

/-- Each cause of slot 0 is looked for only when slot 1 has none of the same kind. -/
def found0 : Found where
  overflow := !exceptionOf dataI.slot1 rd.slot1 && exceptionOf dataI.slot0 rd.slot0
  adesD := !storeMisalign dataI.slot1 rd.slot1 && storeMisalign dataI.slot0 rd.slot0
  adelD := !loadMisalign dataI.slot1 rd.slot1 && loadMisalign dataI.slot0 rd.slot0
  trap := !trapOf dataI.slot1 rd.slot1 && trapOf dataI.slot0 rd.slot0

/-- The exception record after the causes found in E. -/
def Cp0Control.addFound (c : Cp0Control) (f : Found) : Cp0Control :=
  { c with
    ctype := if f.any then .exception else c.ctype
    etype := { c.etype with
      overflow := c.etype.overflow || f.overflow
      adesD := c.etype.adesD || f.adesD
      adelD := c.etype.adelD || f.adelD
      trap := c.etype.trap || f.trap } }

/-- `execute.sv`. -/
def execute : Pair ExecuteData where
  slot1 :=
    let d := dataI.slot1
    let r := rd.slot1
    { valid := d.valid
      pc := d.pc
      ctl := executeCtl1 dataI rd
      rdst := d.rdst
      cp0ra := d.cp0ra
      aluOutExt := aluOutExt1 dataI rd u
      regData := regDataOf d r
      target := targetOf d r
      branchTaken := branchTakenOf d r
      isJrRa := d.isJrRa
      destPc := destPcOf d r
      cacheCtl := d.cacheCtl
      cp0Ctl := d.cp0Ctl.addFound (found1 dataI rd)
      iTlbExc := d.iTlbExc }
  slot0 :=
    let d := dataI.slot0
    let r := rd.slot0
    { valid := !exceptionOf dataI.slot1 rd.slot1 && d.valid
      pc := d.pc
      ctl := executeCtl0 dataI rd
      rdst := d.rdst
      cp0ra := d.cp0ra
      aluOutExt := aluOutExt0 dataI rd u
      regData := regDataOf d r
      isSlot := d.isSlot
      cacheCtl := d.cacheCtl
      cp0Ctl := d.cp0Ctl.addFound (found0 dataI rd)
      iTlbExc := d.iTlbExc }

end Group

end FrailCPU
