import FrailCPU.RefCpu.Implementers
import FrailCPU.Library.Machine

/-!
# The core of the reference CPU

`Core.sv` and `CoreProxy.sv`: the state of the context chooses the function that makes the new
one and the requests on the buses; the proxy then lets the clock pass over the CP0 registers,
holds register 0 at zero and clears `args` behind a commit. `Debugger.sv` watches the new
context. The requests do not depend on the responses of their cycle.
-/

namespace FrailCPU.RefCpu

/-- `ibus_req_t`. -/
structure IBusReq where
  valid : Bool
  addr : Word
  deriving DecidableEq, Repr, Inhabited

/-- `IREQ_TO_DREQ`. -/
def IBusReq.toDreq (r : IBusReq) : DBusReq := ⟨r.valid, r.addr, .size4, 0#4, 0#32⟩

/-- What the core reads in a cycle. -/
structure CoreInput where
  iresp : BusResp := {}
  dresp : BusResp := {}
  extInt : BitVec 6 := 0#6

namespace Context

variable (ctx : Context) (i : CoreInput)

/-- `out_ctx[ctx.state]`. -/
def out : Context :=
  match ctx.state with
  | .unknown => ctx
  | .commit => ctx.commit
  | .fetch => ctx.fetch i.iresp
  | .fetchAddrSent => ctx.fetchAddrSent i.iresp
  | .decode => ctx.decode
  | .branchEval => ctx.branchEval
  | .branch => ctx.branch
  | .arithmetic => ctx.arithmetic
  | .rtype => ctx.rtype
  | .exception => ctx.exception
  | .addrCheck => ctx.addrCheck
  | .load => ctx.load i.dresp
  | .loadAddrSent => ctx.loadAddrSent i.dresp
  | .loaded => ctx.loaded
  | .store => ctx.store i.dresp
  | .storeAddrSent => ctx.storeAddrSent i.dresp
  | .cop0Decode => ctx.cop0Decode
  | .cop0Access => ctx.cop0Access
  | .exceptionReturn => ctx.exceptionReturn

/-- `out_ireq[ctx.state]`. -/
def ireq : IBusReq :=
  match ctx.state with
  | .fetch => ⟨ctx.pc.extractLsb' 0 2 == 0#2, ctx.pc⟩
  | .fetchAddrSent => ⟨false, ctx.pc⟩
  | _ => default

/-- `out_dreq[ctx.state]`. -/
def dreq : DBusReq :=
  match ctx.state with
  | .load => ⟨true, ctx.args.addr, ctx.args.size, 0#4, 0#32⟩
  | .store => ⟨true, ctx.args.addr, ctx.args.size, ctx.args.strobe, ctx.args.data⟩
  | _ => default

/-- `new_ctx`. -/
def newCtx : Context :=
  let out := ctx.out i
  { out with
    cp0 := out.cp0.tick i.extInt
    r := Function.update out.r 0#5 0#32
    args := if ctx.state = .commit then 0#71 else out.args }

/-- A clock edge; `target_id` is reset in every cycle. -/
def next : Context := { ctx.newCtx i with targetId := 0#5 }

end Context

/-- The outputs of `Debugger`. -/
structure DebugPort where
  pc : Word
  wen : Bool
  wnum : CregAddr
  wdata : Word
  deriving DecidableEq, Repr

/-- `Debugger`, with the ports it has in `mycpu_top`. -/
def debugger (ctx : Context) (i : CoreInput) : DebugPort where
  pc := ctx.pc
  wen := (ctx.newCtx i).targetId != 0#5
  wnum := (ctx.newCtx i).targetId
  wdata := (ctx.newCtx i).r (ctx.newCtx i).targetId

section Lemmas

variable (ctx : Context) (i : CoreInput)

@[simp] theorem Context.next_state : (ctx.next i).state = (ctx.out i).state := rfl
@[simp] theorem Context.next_cp0 : (ctx.next i).cp0 = (ctx.out i).cp0.tick i.extInt := rfl
@[simp] theorem Context.next_pc : (ctx.next i).pc = (ctx.out i).pc := rfl
@[simp] theorem Context.next_delayed : (ctx.next i).delayed = (ctx.out i).delayed := rfl
@[simp] theorem Context.next_delayedPc : (ctx.next i).delayedPc = (ctx.out i).delayedPc := rfl
@[simp] theorem Context.next_instr : (ctx.next i).instr = (ctx.out i).instr := rfl
@[simp] theorem Context.next_hi : (ctx.next i).hi = (ctx.out i).hi := rfl
@[simp] theorem Context.next_lo : (ctx.next i).lo = (ctx.out i).lo := rfl
@[simp] theorem Context.next_r :
    (ctx.next i).r = Function.update (ctx.out i).r 0#5 0#32 := rfl

theorem Context.next_args (h : ctx.state ≠ .commit) : (ctx.next i).args = (ctx.out i).args :=
  if_neg h

theorem Context.next_args_of_commit (h : ctx.state = .commit) : (ctx.next i).args = 0#71 :=
  if_pos h

end Lemmas

end FrailCPU.RefCpu
