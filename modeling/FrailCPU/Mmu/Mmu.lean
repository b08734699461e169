import FrailCPU.Mmu.Tlb

/-!
# Address translation

`mmu.sv`: two instruction ports and two data ports, translated independently of each
other. A port's request is forwarded with its address translated, and with its valid
bit cleared when the TLB refuses it; the refusal is reported in the outcome of the
same port. Strobe and data of a refused request are forwarded as they are.
-/

namespace FrailCPU

/-- `ibus_req_t`. -/
structure IBusReq where
  valid : Bool := false
  addr : Word := 0#32
  deriving DecidableEq, Repr

/-- The state the translation reads: the TLB array, the address space of `EntryHi`
and the cacheability of `kseg0`. -/
structure MmuState where
  tlbRam : Tlb
  asid : BitVec 8
  configK0 : BitVec 3

/-- `is_mapped`. -/
def isMapped (vaddr : Word) : Bool :=
  vaddr.extractLsb' 30 2 == 0b11#2 || !vaddr.getLsbD 31

/-- `unmapped_translator`. -/
def unmappedTranslator (vaddr : Word) : Word := 0#3 ++ vaddr.extractLsb' 0 29

/-- `unmapped_is_uncached`. -/
def unmappedIsUncached (configK0 : BitVec 3) (vaddr : Word) : Bool :=
  vaddr.extractLsb' 29 3 == 0b101#3 ||
    (vaddr.extractLsb' 29 3 == 0b100#3 && configK0 != 3#3)

namespace MmuState

variable (m : MmuState)

def search (vaddr : Word) : TlbSearch := tlbSearch m.tlbRam vaddr m.asid

/-- `i_paddr[i]` and `d_paddr[i]`. -/
def paddr (vaddr : Word) : Word :=
  if isMapped vaddr then (m.search vaddr).paddr else unmappedTranslator vaddr

/-- `i_tlb_exc[i]`. -/
def iTlbExc (r : IBusReq) : TlbExc where
  refill := r.valid && isMapped r.addr && !(m.search r.addr).found
  invalid := r.valid && isMapped r.addr && (m.search r.addr).found && !(m.search r.addr).v
  modified := false

/-- `d_tlb_exc[i]`. -/
def dTlbExc (r : DBusReq) : TlbExc where
  refill := r.valid && isMapped r.addr && !(m.search r.addr).found
  invalid := r.valid && isMapped r.addr && (m.search r.addr).found && !(m.search r.addr).v
  modified := r.valid && isMapped r.addr && (m.search r.addr).found && (m.search r.addr).v &&
    !(m.search r.addr).d && r.strobe != 0#4

/-- `ireq[i]`. -/
def ireq (r : IBusReq) : IBusReq where
  valid := r.valid && !(m.iTlbExc r).any
  addr := m.paddr r.addr

/-- `dreq[i]`. -/
def dreq (r : DBusReq) : DBusReq :=
  { r with valid := r.valid && !(m.dTlbExc r).any, addr := m.paddr r.addr }

/-- `d_uncache[i]`. -/
def dUncache (r : DBusReq) : Bool :=
  unmappedIsUncached m.configK0 r.addr ||
    (isMapped r.addr && (m.search r.addr).c != 3#3)

/-- A port that makes no request has no outcome. -/
theorem iTlbExc_of_invalid {r : IBusReq} (h : r.valid = false) : m.iTlbExc r = {} := by
  simp [iTlbExc, h]

theorem dTlbExc_of_invalid {r : DBusReq} (h : r.valid = false) : m.dTlbExc r = {} := by
  simp [dTlbExc, h]

/-- A refused request is forwarded without its valid bit, and nothing else of it is
cleared. -/
theorem dreq_of_refused {r : DBusReq} (h : (m.dTlbExc r).any = true) :
    m.dreq r = { r with valid := false, addr := m.paddr r.addr } := by
  simp [dreq, h]

end MmuState

end FrailCPU
