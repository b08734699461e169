import FrailCPU.RefCpu.Isa
import FrailCPU.Core.LoadStore
import FrailCPU.RefCpu.Core

/-!
# What a bus owes the core

`common.svh` has a request accepted with `addr_ok` and answered with `data_ok`, in the same
cycle or later. A monitor beside a bus keeps the request that was accepted and is not answered
yet; the memory behind the buses takes a write when it is accepted, and a bus is honest when
what it answers to a read is the word that lies there then. Nothing is asked about how long a
bus takes, nor about the data lines in other cycles.
-/

namespace FrailCPU.RefCpu

open ByteMemory

/-- The request that was accepted and is not answered yet. -/
abbrev Pending := Option DBusReq

namespace Pending

variable (p : Pending) (req : DBusReq) (resp : BusResp)

/-- The request that is accepted in this cycle. -/
def accepted : Option DBusReq :=
  if p.isNone && req.valid && resp.addrOk then some req else none

/-- The request whose answer is due. -/
def due : Option DBusReq := p.or (accepted p req resp)

/-- The request that is answered in this cycle. -/
def answered : Option DBusReq := if resp.dataOk then p.due req resp else none

def next : Pending := if resp.dataOk then none else p.due req resp

section Lemmas

variable {p req}

theorem accepted_of_not_valid (hv : req.valid = false) (resp : BusResp) :
    p.accepted req resp = none := by
  rw [accepted, hv, Bool.and_false, Bool.false_and]
  exact if_neg Bool.false_ne_true

theorem next_none (hv : req.valid = false) (resp : BusResp) : next none req resp = none := by
  rw [next, due, accepted_of_not_valid hv]
  exact ite_self none

theorem next_of_valid (hv : req.valid = true) (resp : BusResp) :
    next none req resp = if resp.addrOk && !resp.dataOk then some req else none := by
  rw [next, due, accepted, hv]
  cases resp.addrOk <;> cases resp.dataOk <;> rfl

theorem answered_of_valid (hv : req.valid = true) (resp : BusResp) :
    answered none req resp = if resp.addrOk && resp.dataOk then some req else none := by
  rw [answered, due, accepted, hv]
  cases resp.addrOk <;> cases resp.dataOk <;> rfl

theorem next_some {q : DBusReq} (resp : BusResp) :
    next (some q) req resp = if resp.dataOk then none else some q := rfl

theorem answered_some {q : DBusReq} (resp : BusResp) :
    answered (some q) req resp = if resp.dataOk then some q else none := rfl

end Lemmas

end Pending

/-- The request as it leaves `AddressTranslator`. -/
def translateReq (req : DBusReq) : DBusReq := { req with addr := translate req.addr }

/-- The memory behind a request that was accepted; only a write changes it. -/
def performed (m : Memory) (req : Option DBusReq) : Memory :=
  match req with
  | some q => if q.strobe = 0#4 then m else applyRequest m (translateReq q)
  | none => m

/-- A read that is answered gets the word. -/
def Answers (m : Memory) (req : Option DBusReq) (data : Word) : Prop :=
  ∀ q, req = some q → q.strobe = 0#4 → data = ByteMemory.word m (translate q.addr)

instance (m : Memory) (req : Option DBusReq) (data : Word) : Decidable (Answers m req data) :=
  match req with
  | none => isTrue nofun
  | some q => decidable_of_iff (q.strobe = 0#4 → data = ByteMemory.word m (translate q.addr))
      ⟨fun h _ hq => Option.some.inj hq ▸ h, fun h => h q rfl⟩

/-- The core, the memory as the core knows it, and the monitors of the two buses. -/
structure Machine where
  ctx : Context := {}
  mem : Memory
  ipend : Pending := none
  dpend : Pending := none

namespace Machine

variable (s : Machine) (i : CoreInput)

/-- A clock edge. -/
def step : Machine where
  ctx := s.ctx.next i
  mem := performed s.mem (s.dpend.accepted s.ctx.dreq i.dresp)
  ipend := s.ipend.next s.ctx.ireq.toDreq i.iresp
  dpend := s.dpend.next s.ctx.dreq i.dresp

/-- What is answered on either bus is what lies in the memory. -/
structure Honest : Prop where
  inst : Answers s.mem (s.ipend.answered s.ctx.ireq.toDreq i.iresp) i.iresp.data
  data : Answers s.mem (s.dpend.answered s.ctx.dreq i.dresp) i.dresp.data

instance : Decidable (s.Honest i) :=
  decidable_of_iff (Answers s.mem (s.ipend.answered s.ctx.ireq.toDreq i.iresp) i.iresp.data ∧
    Answers s.mem (s.dpend.answered s.ctx.dreq i.dresp) i.dresp.data)
    ⟨fun h => ⟨h.1, h.2⟩, fun h => ⟨h.inst, h.data⟩⟩

end Machine

end FrailCPU.RefCpu
