import FrailCPU.Memory.Data
import FrailCPU.Mmu.Mmu
import FrailCPU.Decode.Facts

/-!
# The memory stages

`memory.sv` forms the data-bus requests of M1 and merges the outcomes of their
translation into the records; `memory3.sv` picks the loaded words up; `writeback.sv`
says what each slot writes to the register file.
-/

namespace FrailCPU

/-- `dreq[i]` of `memory.sv`. -/
def memoryReq (dataE : ExecuteData) : DBusReq :=
  let w := writedata (dataE.aluOutExt.extractLsb' 0 2) dataE.regData dataE.ctl.msize
    dataE.ctl.memtype
  let storing := !dataE.ctl.memtoreg && dataE.ctl.memwrite
  { valid := dataE.ctl.memtoreg || dataE.ctl.memwrite || dataE.ctl.cacheD
    addr := dataE.aluOutExt.extractLsb' 0 32
    size := dataE.ctl.msize
    strobe := if storing then w.2 else 0#4
    data := if storing then w.1 else 0#32 }

/-- The request pair in the order of the ports of `mmu`: `{dreq[0], dreq[1]}`. -/
def vDreq (dataE : Pair ExecuteData) : Pair DBusReq := (dataE.map memoryReq).swap

/-- The type of a record once the outcome `e` is charged to it. -/
def Cp0Type.charge (t : Cp0Type) (e : TlbExc) : Cp0Type := if e.any then .exception else t

/-- The exception record of a slot, after the outcome charged to it. -/
def chargeDTlbExc (dataE : ExecuteData) (e : TlbExc) : ExecuteData :=
  { dataE with
    cp0Ctl := { dataE.cp0Ctl with ctype := dataE.cp0Ctl.ctype.charge e }
    dTlbExc := e }

/-- The writes of slot 0 that an exception in the group takes back. -/
def Control.squashWrites (c : Control) : Control :=
  { c with regwrite := false, memtoreg := false, lowrite := false, hiwrite := false,
           cp0write := false }

def Cp0Type.leaves (t : Cp0Type) : Bool := t == .exception || t == .eret

/-- `dataE2`, the pair that enters M2. -/
def memory (dataE : Pair ExecuteData) (dTlbExc : Pair TlbExc) : Pair ExecuteData :=
  let squash := dataE.slot1.cp0Ctl.ctype.leaves || dTlbExc.slot1.any || dTlbExc.slot0.any
  { slot1 := chargeDTlbExc dataE.slot1 dTlbExc.slot1
    slot0 :=
      { chargeDTlbExc dataE.slot0 dTlbExc.slot0 with
        ctl := if squash then dataE.slot0.ctl.squashWrites else dataE.slot0.ctl } }

/-- `excpM`. -/
def excpM (dataE : Pair ExecuteData) (dTlbExc : Pair TlbExc) : Bool :=
  dataE.slot0.cp0Ctl.ctype.leaves || dataE.slot1.cp0Ctl.ctype.leaves ||
    dTlbExc.slot1.any || dTlbExc.slot0.any

/-- The outcomes as they come back from `mmu`, index for index. -/
def memoryExc (m : MmuState) (dataE : Pair ExecuteData) : Pair TlbExc :=
  (vDreq dataE).map m.dTlbExc

/-- One slot of `memory3.sv`. -/
def memory3Slot (dataE : ExecuteData) (respData : Word) : MemoryData :=
  { valid := dataE.valid
    pc := dataE.pc
    aluOutExt := dataE.aluOutExt
    ctl := dataE.ctl
    rdst := dataE.rdst
    cp0ra := dataE.cp0ra
    isSlot := dataE.isSlot
    cp0Ctl := dataE.cp0Ctl
    regData := dataE.regData
    rd := readdata respData (dataE.aluOutExt.extractLsb' 0 2) dataE.ctl.msize
      (!dataE.ctl.memsext) dataE.ctl.memtype dataE.regData
    iTlbExc := dataE.iTlbExc
    dTlbExc := dataE.dTlbExc }

/-- `memory3.sv`. -/
def memory3 (dataE : Pair ExecuteData) (respData : Pair Word) : Pair MemoryData :=
  dataE.zipWith memory3Slot respData

/-- The special registers as `writeback` sees them. -/
structure SpecialRead where
  hiRd : Word := 0#32
  loRd : Word := 0#32
  cp0Rd : Word := 0#32

/-- `dataW[i].wd`; a later assignment of the block wins over an earlier one. -/
def writebackData (dataM : MemoryData) (s : SpecialRead) : Word :=
  if dataM.ctl.sc then 1#32
  else if dataM.ctl.hitoreg then s.hiRd
  else if dataM.ctl.lotoreg then s.loRd
  else if dataM.ctl.cp0toreg then s.cp0Rd
  else if dataM.ctl.memtoreg then dataM.rd
  else if dataM.ctl.regwrite then dataM.aluOutExt.extractLsb' 0 32
  else 0#32

/-- One slot of `writeback.sv`. -/
def writeback (dataM : MemoryData) (s : SpecialRead) : WritebackData where
  valid := if dataM.cp0Ctl.ctype.leaves then false else dataM.ctl.regwrite && dataM.valid
  wa := dataM.rdst
  wd := writebackData dataM s
  pc := dataM.pc

section Lemmas

theorem Cp0Type.leaves_iff {t : Cp0Type} :
    t.leaves = true ↔ t = .exception ∨ t = .eret := by
  simp [Cp0Type.leaves]

/-- An instruction that leaves through `cp0` writes no general register. -/
theorem writeback_valid_of_leaves {dataM : MemoryData} {s : SpecialRead}
    (h : dataM.cp0Ctl.ctype.leaves = true) : (writeback dataM s).valid = false := by
  simp [writeback, h]

theorem writeback_valid_of_regwrite {dataM : MemoryData} {s : SpecialRead}
    (h : dataM.ctl.regwrite = false) : (writeback dataM s).valid = false := by
  simp [writeback, h]

theorem memoryReq_valid (dataE : ExecuteData) :
    (memoryReq dataE).valid = dataE.ctl.accesses := rfl

theorem memoryReq_strobe_of_load {dataE : ExecuteData} (h : dataE.ctl.memwrite = false) :
    (memoryReq dataE).strobe = 0#4 := by
  simp [memoryReq, h]

/-- The control record of slot 0 leaves M1 as it is, or without its writes. -/
theorem memory_slot0_ctl (dataE : Pair ExecuteData) (exc : Pair TlbExc) :
    (memory dataE exc).slot0.ctl = dataE.slot0.ctl ∨
      (memory dataE exc).slot0.ctl = dataE.slot0.ctl.squashWrites := by
  simp only [memory]
  split
  · exact Or.inr rfl
  · exact Or.inl rfl

@[simp] theorem memoryExc_slot1 (m : MmuState) (dataE : Pair ExecuteData) :
    (memoryExc m dataE).slot1 = m.dTlbExc (memoryReq dataE.slot0) := rfl

@[simp] theorem memoryExc_slot0 (m : MmuState) (dataE : Pair ExecuteData) :
    (memoryExc m dataE).slot0 = m.dTlbExc (memoryReq dataE.slot1) := rfl

end Lemmas

end FrailCPU
