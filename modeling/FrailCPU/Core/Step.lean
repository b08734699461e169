import FrailCPU.Core.Commit
import FrailCPU.Bypass.Network

/-!
# A clock edge of the core behind the queue

`MyCore.sv` from the issue queue to the register files. The register behind a stage has
the name of the records in it: `dataI` stands in E, `dataE` in M1, `dataM1` in M2,
`dataM2` in M3 and `dataM3` in W. The candidates of the queue, the waits, the results of
the multiplier and the divider, the loaded words and the interrupt lines are inputs.
-/

namespace FrailCPU

/-- `TLBP` and `TLBR`: `mmu_out`. -/
def mmuResp (regs : Cp0Regs) (tlbRam : Tlb) : MmuResp :=
  let p := tlbSearch tlbRam regs.entryHi (regs.entryHi.extractLsb' 0 8)
  let e := tlbRam (regs.index.extractLsb' 0 4)
  { index := (bit (!p.found) ++ 0#27 ++ p.index : BitVec 32)
    entryHi := (e.vpn2 ++ 0#5 ++ e.asid : BitVec 32)
    entryLo0 := (0#6 ++ e.pfn0 ++ e.c0 ++ bit e.d0 ++ bit e.v0 ++ bit e.g : BitVec 32)
    entryLo1 := (0#6 ++ e.pfn1 ++ e.c1 ++ bit e.d1 ++ bit e.v1 ++ bit e.g : BitVec 32) }

/-- `w_entry`. -/
def wEntry (regs : Cp0Regs) : TlbEntry where
  vpn2 := regs.entryHi.extractLsb' 13 19
  asid := regs.entryHi.extractLsb' 0 8
  g := regs.entryLo0.getLsbD 0 && regs.entryLo1.getLsbD 0
  pfn0 := regs.entryLo0.extractLsb' 6 20
  c0 := regs.entryLo0.extractLsb' 3 3
  d0 := regs.entryLo0.getLsbD 2
  v0 := regs.entryLo0.getLsbD 1
  pfn1 := regs.entryLo1.extractLsb' 6 20
  c1 := regs.entryLo1.extractLsb' 3 3
  d1 := regs.entryLo1.getLsbD 2
  v1 := regs.entryLo1.getLsbD 1

/-- A clock edge of `tlb.sv`. -/
def tlbNxt (tlbRam : Tlb) (regs : Cp0Regs) (w : Pair MemoryData) : Tlb :=
  if writesTlb w then
    Function.update tlbRam
      (if w.slot1.ctl.tlbType == .tlbwi then regs.index.extractLsb' 0 4
        else regs.random.extractLsb' 0 4) (wEntry regs)
  else tlbRam

/-- The outputs of `hazard.sv` for the registers from E on. -/
structure HazardOut where
  stallE : Bool := false
  stallM : Bool := false
  stallM2 : Bool := false
  flushE : Bool := false
  flushM : Bool := false
  flushM2 : Bool := false
  flushM3 : Bool := false
  flushW : Bool := false

/-- `hazard.sv`, with the inputs in the order of their priority. -/
def hazard (excpW dWait waitM excpM branchM eWait : Bool) : HazardOut :=
  if excpW then
    { flushE := true, flushM := true, flushM2 := true, flushM3 := true, flushW := true }
  else if dWait || waitM then
    { stallE := true, stallM := true, stallM2 := true, flushM3 := true }
  else if excpM then { flushE := true, flushM := true }
  else if branchM then { flushE := true, flushM := true }
  else if eWait then { stallE := true, flushM := true }
  else {}

/-- `pipereg2.sv`. -/
def pipereg2 {T : Type} (zero : T) (stall flush : Bool) (nxt out : T) : T :=
  if flush then zero else if stall then out else nxt

def BypassInput.ofExecute (d : ExecuteData) : BypassInput where
  data := d.aluOutExt.extractLsb' 0 32
  rdst := d.rdst
  memtoreg := d.ctl.memtoreg
  lotoreg := d.ctl.lotoreg
  hitoreg := d.ctl.hitoreg
  cp0toreg := d.ctl.cp0toreg
  regwrite := d.ctl.regwrite

def BypassInput.ofMemory (d : MemoryData) (w : WritebackData) : BypassInput where
  data := w.wd
  rdst := d.rdst
  memtoreg := d.ctl.memtoreg
  lotoreg := d.ctl.lotoreg
  hitoreg := d.ctl.hitoreg
  cp0toreg := d.ctl.cp0toreg
  regwrite := d.ctl.regwrite

def BypassExecute.ofIssue (d : IssueData) : BypassExecute where
  regwrite := d.ctl.regwrite
  rdst := d.rdst
  memtoreg := d.ctl.memtoreg
  lotoreg := d.ctl.lotoreg
  hitoreg := d.ctl.hitoreg
  cp0toreg := d.ctl.cp0toreg

/-- A record at the head of the queue: it comes from the decoder. -/
abbrev Candidate := { c : DecodeData // c.WellDecoded }

structure CoreState where
  dataI : Pair IssueData := ⟨{}, {}⟩
  saved1 : Pair SavedOperand := ⟨{}, {}⟩
  saved2 : Pair SavedOperand := ⟨{}, {}⟩
  dataE : Pair ExecuteData := ⟨{}, {}⟩
  dataM1 : Pair ExecuteData := ⟨{}, {}⟩
  dataM2 : Pair ExecuteData := ⟨{}, {}⟩
  dataM3 : Pair MemoryData := ⟨{}, {}⟩
  regs : RegFile := fun _ => 0#32
  hilo : HiLo := {}
  cp0 : Cp0State := {}
  tlbRam : Tlb := fun _ => {}
  intPcSave : Word := 0#32
  intPcSaved : Bool := false
  intSlot : Bool := false

structure CoreInput where
  candidates : Pair Candidate := ⟨⟨{}, wellDecoded_zero⟩, ⟨{}, wellDecoded_zero⟩⟩
  iWait : Bool := false
  dWait : Bool := false
  eWait : Bool := false
  u : MulDivResult := {}
  respData : Pair Word := ⟨0#32, 0#32⟩
  extInt : BitVec 6 := 0#6

/-- Nothing at the head of the queue, and nothing waits. -/
def CoreInput.idle : CoreInput := {}

/-- The word `w` at `pc`, alone at the head of the queue. -/
def CoreInput.single (w pc : Word) : CoreInput :=
  { candidates :=
      ⟨⟨decodeSlot { valid := true, rawInstr := w, pc } false 0#32, decodeSlot_wellDecoded _ _ _⟩,
        ⟨{}, wellDecoded_zero⟩⟩ }

namespace CoreState

variable (s : CoreState) (i : CoreInput)

def mmu : MmuState where
  tlbRam := s.tlbRam
  asid := s.cp0.regs.entryHi.extractLsb' 0 8
  configK0 := s.cp0.regs.config0.extractLsb' 0 3

/-- `d_tlb_exc`. -/
def dTlbExc : Pair TlbExc := memoryExc s.mmu s.dataE

/-- `hi_rd`, `lo_rd` and `cp0_rd`. -/
def specialRead : SpecialRead where
  hiRd := s.hilo.hi
  loRd := s.hilo.lo
  cp0Rd := s.cp0.regs.read
    (if s.dataM3.slot1.ctl.cp0toreg then s.dataM3.slot1 else s.dataM3.slot0).cp0ra

def dataW : Pair WritebackData := s.dataM3.map fun d => writeback d s.specialRead

/-- `inter_valid`. -/
def interValid : Bool := !i.iWait && s.intPcSaved

/-- What `cp0` reads in this cycle. -/
def cp0In : Cp0Input :=
  cp0Input s.dataM3 (mmuResp s.cp0.regs s.tlbRam)
    { extInt := i.extInt, interValid := s.interValid i, intPc := s.intPcSave,
      intSlot := s.intSlot }

/-- `is_int`. -/
def isInt : Bool := s.cp0.isInt (s.cp0In i)

/-- `is_eret || is_INTEXC`. -/
def excpW : Bool := isEret s.dataM3 || s.cp0.isIntExc (s.cp0In i)

/-- `excpM`. -/
def excpM1 : Bool := excpM s.dataE s.dTlbExc

def branchM : Bool := s.dataE.slot1.branchTaken || s.dataE.slot1.ctl.cacheI

def waitM : Bool := s.dataE.slot1.ctl.waitSignal

def hazardOut : HazardOut :=
  hazard (s.excpW i) i.dWait s.waitM s.excpM1 s.branchM i.eWait

/-- `dataE_in`, `dataM1_in`, `dataM2_in` and `dataM3_in`. -/
def producers : Producers where
  dataE := s.dataE.map BypassInput.ofExecute
  dataM1 := s.dataM1.map BypassInput.ofExecute
  dataM2 := s.dataM2.map BypassInput.ofExecute
  dataM3 := s.dataM3.zipWith BypassInput.ofMemory s.dataW

/-- `bypassI` with the instructions in E. -/
def issueBypass (r : CregAddr) : BypassOutput :=
  bypassI (s.dataI.map BypassExecute.ofIssue) s.producers r

/-- `bypass_outra1[i]` and `bypass_outra2[i]` of a candidate. -/
def portBypass (c : DecodeData) : PortBypass where
  ra1 := s.issueBypass c.ra1
  ra2 := s.issueBypass c.ra2

/-- `dataI_nxt`. -/
def dataINxt : Pair IssueData :=
  let c1 := i.candidates.slot1.val
  let c2 := i.candidates.slot0.val
  issueGroup c1 c2 ⟨s.portBypass c1, s.portBypass c2⟩ ⟨s.regs c1.ra1, s.regs c2.ra1⟩
    ⟨s.regs c1.ra2, s.regs c2.ra2⟩

/-- `bypass_outra1E` and `bypass_outra2E`. -/
def bypassRa1E : Pair BypassOutput := s.dataI.map fun d => bypassE s.producers d.ra1

def bypassRa2E : Pair BypassOutput := s.dataI.map fun d => bypassE s.producers d.ra2

/-- The operands of the group in E, as they are in this cycle. -/
def operands : Pair Operands where
  slot1 :=
    { rd1 := s.saved1.slot1.select s.bypassRa1E.slot1 s.dataI.slot1.rd1
      rd2 := s.saved2.slot1.select s.bypassRa2E.slot1 s.dataI.slot1.rd2 }
  slot0 :=
    { rd1 := s.saved1.slot0.select s.bypassRa1E.slot0 s.dataI.slot0.rd1
      rd2 := s.saved2.slot0.select s.bypassRa2E.slot0 s.dataI.slot0.rd2 }

/-- `dataE_nxt`. -/
def dataENxt : Pair ExecuteData := execute s.dataI s.operands i.u

/-- `dataM1_nxt`. -/
def dataM1Nxt : Pair ExecuteData := memory s.dataE s.dTlbExc

/-- A clock edge of the core. -/
def step : CoreState :=
  let h := s.hazardOut i
  let e := i.eWait || i.dWait
  { dataI := pipereg2 ⟨{}, {}⟩ h.stallE h.flushE (s.dataINxt i) s.dataI
    saved1 := s.saved1.zipWith (fun sv b => sv.step e b) s.bypassRa1E
    saved2 := s.saved2.zipWith (fun sv b => sv.step e b) s.bypassRa2E
    dataE := pipereg2 ⟨{}, {}⟩ h.stallM h.flushM (s.dataENxt i) s.dataE
    dataM1 := pipereg2 ⟨{}, {}⟩ h.stallM2 h.flushM2 s.dataM1Nxt s.dataM1
    dataM2 := pipereg2 ⟨{}, {}⟩ false h.flushM3 s.dataM1 s.dataM2
    dataM3 := pipereg2 ⟨{}, {}⟩ false h.flushW (memory3 s.dataM2 i.respData) s.dataM3
    regs := regfileNxt s.regs s.dataW
    hilo := hiloNxt s.hilo s.dataM3
    cp0 := s.cp0.step (s.cp0In i)
    tlbRam := tlbNxt s.tlbRam s.cp0.regs s.dataM3
    intPcSave :=
      if s.dataM3.slot0.valid && s.isInt i then s.dataM3.slot0.pc
      else if !s.dataM3.slot0.valid && s.dataM3.slot1.valid && s.isInt i then
        s.dataM3.slot1.pc
      else if !s.isInt i then 0#32 else s.intPcSave
    intPcSaved :=
      if s.dataM3.slot0.valid && s.isInt i then true
      else if !s.dataM3.slot0.valid && s.dataM3.slot1.valid && s.isInt i then true
      else if !s.isInt i then false else s.intPcSaved
    intSlot :=
      if s.dataM3.slot0.valid && s.isInt i then s.dataM3.slot0.isSlot
      else if !s.dataM3.slot0.valid && s.dataM3.slot1.valid && s.isInt i then false
      else if !s.isInt i then false else s.intSlot }

end CoreState

end FrailCPU
