import FrailCPU.Core.Hazard
import FrailCPU.Fetch.Record

/-!
# The fetch stages

The registers of `MyCore.sv` from the program counter to the decoder: `dataP`, the two
save registers of a target that could not be taken at once, the record of the fetch that
has been accepted, the words saved in a stall, and the record that goes to the decoder.
What the later stages and the predictor say is an input.
-/

namespace FrailCPU

/-- `forward_pc_type_t`. -/
inductive ForwardPcType
  | noForward | pci | pcm | pcw
  deriving DecidableEq, Repr, Inhabited

/-- The value of the enumeration. -/
def ForwardPcType.rank : ForwardPcType → ℕ
  | .noForward => 0
  | .pci => 1
  | .pcm => 2
  | .pcw => 3

/-- What W and M1 ask of the fetch, and the operation for the instruction cache in M2. -/
structure Redirects where
  isEret : Bool := false
  isIntExc : Bool := false
  epc : Word := 0#32
  entrance : Word := 0#32
  icache : Bool := false
  icacheAddr : Word := 0#32
  icacheInst : ICacheInst := .unknown
  branchTaken : Bool := false
  pcBranch : Word := 0#32
  pcM : Word := 0#32
  m1IcacheInst : ICacheInst := .unknown

/-- The outputs of `bpu` for the group at the program counter. -/
structure Prediction where
  taken : Bool := false
  hitBit : Bool := false
  prePc : Word := 0#32

/-- `forward_pc_type` and `pc_selected`. -/
def pcselect (r : Redirects) (pcSucc : Word) (zeroPrej predTaken : Bool) (prePc : Word) :
    ForwardPcType × Word :=
  if r.isEret then (.pcw, r.epc)
  else if r.isIntExc then (.pcw, r.entrance)
  else if r.icache then (.pcm, r.icacheAddr)
  else if r.branchTaken then (.pcm, r.pcBranch)
  else if zeroPrej then (.noForward, pcSucc - 4#32)
  else if predTaken then (.noForward, prePc)
  else (.noForward, pcSucc)

/-- The registers of the fetch stages. `rawInstrSave` is `raw_instrf2_save`, if
`rawinstr_saved`. -/
structure FrontEnd where
  dataP : PcSelectData := {}
  pcSave : Word := 0#32
  pcSaved : Bool := false
  icacheSaved : Bool := false
  icacheInstSave : ICacheInst := .unknown
  forwardPctypeSave : ForwardPcType := .noForward
  icachePcnxtSave : Word := 0#32
  icachePcnxtSaved : Bool := false
  fihazrd : Bool := false
  dataF1 : Fetch1Data := {}
  rawInstrSave : Option (Pair Word) := none
  dataF2 : Pair FetchData := ⟨{}, {}⟩

/-- What the fetch stages read in a cycle. -/
structure FetchInput where
  redirects : Redirects := {}
  prediction : Prediction := {}
  hazard : HazardFront := {}
  iTlbExc : Pair TlbExc := ⟨{}, {}⟩
  iWait : Bool := false
  respData : Pair Word := ⟨0#32, 0#32⟩

namespace FrontEnd

variable (f : FrontEnd) (i : FetchInput)

def env : FetchEnv where
  m1IcacheInst := i.redirects.m1IcacheInst
  iWait := i.iWait
  icacheSaved := f.icacheSaved
  predTaken := i.prediction.taken
  hitBit := i.prediction.hitBit
  prePc := i.prediction.prePc

/-- `forward_pc_type` and `pc_selected` in this cycle. -/
def selected : ForwardPcType × Word :=
  pcselect i.redirects (f.dataP.pc + 8#32) (f.env i).zeroPrej
    (i.prediction.taken && !(f.env i).zeroPrej) i.prediction.prePc

/-- `dataP_nxt`. -/
def dataPNxt : PcSelectData :=
  if f.pcSaved && (f.selected i).1.rank < f.forwardPctypeSave.rank then
    { pc := f.pcSave, cacheI := f.icacheSaved, icacheInst := f.icacheInstSave }
  else if f.icachePcnxtSaved && !f.pcSaved then
    { pc := f.icachePcnxtSave, cacheI := i.redirects.icache }
  else { pc := (f.selected i).2, cacheI := i.redirects.icache }

/-- A redirect that cannot be taken because the fetch is stalled. -/
def saves : Bool := i.hazard.stallF && (f.selected i).1 != .noForward

/-- A clock edge. -/
def step : FrontEnd where
  dataP := if i.hazard.stallF then f.dataP else f.dataPNxt i
  pcSave :=
    if f.saves i then (f.selected i).2 else if i.hazard.stallF then f.pcSave else 0#32
  pcSaved := if f.saves i then true else if i.hazard.stallF then f.pcSaved else false
  icacheSaved :=
    if f.saves i then f.icacheSaved || i.redirects.icache
    else if i.hazard.stallF then f.icacheSaved else false
  icacheInstSave :=
    if f.saves i then
      if i.redirects.icache then i.redirects.icacheInst else f.icacheInstSave
    else if i.hazard.stallF then f.icacheInstSave else .unknown
  forwardPctypeSave :=
    if f.saves i then (f.selected i).1
    else if i.hazard.stallF then f.forwardPctypeSave else .noForward
  icachePcnxtSave :=
    if i.redirects.icache then i.redirects.pcM + 4#32
    else if !i.hazard.stallF && !f.icacheSaved then 0#32 else f.icachePcnxtSave
  icachePcnxtSaved :=
    if i.redirects.icache then true
    else if !i.hazard.stallF && !f.icacheSaved then false else f.icachePcnxtSaved
  fihazrd := i.hazard.fihazrdNxt
  dataF1 :=
    pipereg2 {} i.hazard.stallF2 i.hazard.flushF2 (dataF1Nxt f.dataP i.iTlbExc (f.env i)) f.dataF1
  rawInstrSave :=
    if i.hazard.stallF2 && f.rawInstrSave.isNone then some i.respData
    else if !i.hazard.stallF2 then none else f.rawInstrSave
  dataF2 :=
    pipereg2 ⟨{}, {}⟩ i.hazard.stallD i.hazard.flushD
      (dataF2Nxt f.dataF1 (instrWords i.respData f.rawInstrSave)) f.dataF2

end FrontEnd

end FrailCPU
