import FrailCPU.Core.Queue
import FrailCPU.Fetch.FrontEnd

/-!
# A clock edge of the whole core

`MyCore.sv` from the program counter to the register files: the fetch stages, the register
`dataD` behind the decoder, the issue queue and the core behind it, with `hazard.sv`
between them. The answers of the caches, the waits of E with the results of the two units,
the predictor and the interrupt lines are inputs.
-/

namespace FrailCPU

/-- A queue whose records come from the decoder. -/
abbrev DecodedQueue := { q : IssueQueue // q.WellFormed }

/-- `dataD` is what the decoder was fed with when the register was written. -/
structure Cpu where
  front : FrontEnd := {}
  dataD : Pair FetchData := ⟨{}, {}⟩
  queue : DecodedQueue := ⟨{}, IssueQueue.wellFormed_reset⟩
  core : CoreState := {}

/-- What the core reads in a cycle. `addrOk` and `instrData` belong to the instruction
cache. -/
structure CpuInput where
  addrOk : Bool := true
  instrData : Pair Word := ⟨0#32, 0#32⟩
  prediction : Prediction := {}
  dWait : Bool := false
  eWait : Bool := false
  u : MulDivResult := {}
  respData : Pair Word := ⟨0#32, 0#32⟩
  extInt : BitVec 6 := 0#6

namespace Cpu

variable (s : Cpu) (i : CpuInput)

/-- `icache_inst` in M2. -/
def m1IcacheInst : ICacheInst := s.core.dataM1.slot1.cacheCtl.icacheInst

/-- `v_ireq`. The fields of the environment that it does not read are left out. -/
def ireqs : Pair IBusReq := vIreq s.front.dataP { m1IcacheInst := s.m1IcacheInst }

/-- `i_wait`. -/
def iWait : Bool := (s.core.mmu.ireq s.ireqs.slot0).valid && !i.addrOk

def candidates : Pair Candidate where
  slot1 := ⟨s.queue.val.candidate1, s.queue.property.candidate1⟩
  slot0 := ⟨s.queue.val.candidate2, s.queue.property.candidate2⟩

def coreInput : CoreInput where
  candidates := s.candidates
  iWait := s.iWait i
  dWait := i.dWait
  eWait := i.eWait
  u := i.u
  respData := i.respData
  extInt := i.extInt

def hazardIn : HazardIn where
  excpW := s.core.excpW (s.coreInput i)
  dWait := i.dWait
  waitM := s.core.waitM
  excpM := s.core.excpM1
  branchM := s.core.branchM
  eWait := i.eWait
  overflowI := s.queue.val.overflow
  iWait := s.iWait i

/-- The outputs of `hazard.sv` for the stages in front of E. -/
def hazardFront : HazardFront := (s.hazardIn i).front s.front.fihazrd

def redirects : Redirects where
  isEret := isEret s.core.dataM3
  isIntExc := s.core.cp0.isIntExc (s.core.cp0In (s.coreInput i))
  epc := s.core.cp0.regs.epc
  entrance := s.core.cp0.entrance (s.core.cp0In (s.coreInput i))
  icache := s.core.dataE.slot1.ctl.cacheI
  icacheAddr := s.core.dataE.slot1.aluOutExt.extractLsb' 0 32
  icacheInst := s.core.dataE.slot1.cacheCtl.icacheInst
  branchTaken := s.core.dataE.slot1.branchTaken
  pcBranch := s.core.dataE.slot1.target
  pcM := s.core.dataE.slot1.pc
  m1IcacheInst := s.m1IcacheInst

def fetchInput : FetchInput where
  redirects := s.redirects i
  prediction := i.prediction
  hazard := s.hazardFront i
  iTlbExc := s.ireqs.map s.core.mmu.iTlbExc
  iWait := s.iWait i
  respData := i.instrData

/-- What the queue reads: the bypass network for its candidates. -/
def issueInput : IssueInput where
  dataF2 := s.dataD
  bypass := ⟨s.core.portBypass s.queue.val.candidate1, s.core.portBypass s.queue.val.candidate2⟩
  flushQue := (s.hazardFront i).flushQue
  stallI := (s.hazardFront i).stallI
  stallIDe := (s.hazardFront i).stallIDe

/-- A clock edge. -/
def step : Cpu where
  front := s.front.step (s.fetchInput i)
  dataD := pipereg2 ⟨{}, {}⟩ (s.hazardFront i).stallI (s.hazardFront i).flushI s.front.dataF2 s.dataD
  queue := ⟨s.queue.val.step (s.issueInput i), s.queue.property.step (s.issueInput i)⟩
  core := s.core.step (s.coreInput i)

/-- The later stages see the same hazards. -/
theorem hazardIn_back : (s.hazardIn i).back = s.core.hazardOut (s.coreInput i) := rfl

end Cpu

end FrailCPU
