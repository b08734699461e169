import FrailCPU.RefCpu.Context

/-!
# The states of the reference CPU

One function for each module of `refcpu/impl`: the context that a state makes of the one it
finds. The functions are combinational; the states that talk to a bus read its response as
well.
-/

namespace FrailCPU.RefCpu

open Instr

/-- `shamt`. -/
def shamtOf (w : Word) : BitVec 5 := w.extractLsb' 6 5

/-- `SIGNED_CMP`. -/
def signedCmp (a b : Word) : Word := if a.slt b then 1#32 else 0#32

/-- `UNSIGNED_CMP`. -/
def unsignedCmp (a b : Word) : Word := if a.ult b then 1#32 else 0#32

/-- A sum or a difference of 33 bits whose two top bits differ. -/
def overflows (v : BitVec 33) : Bool := v.getLsbD 32 != v.getLsbD 31

/-- The strobes for `B`, `H` and `W` by the low bits of the address. -/
def strbB (a : BitVec 2) : Strobe :=
  match a with
  | 0#2 => 0b0001#4
  | 1#2 => 0b0010#4
  | 2#2 => 0b0100#4
  | _ => 0b1000#4

def strbH (a : BitVec 2) : Strobe :=
  match a with
  | 0#2 => 0b0011#4
  | 2#2 => 0b1100#4
  | _ => 0#4

def strbW (a : BitVec 2) : Strobe := if a = 0#2 then 0b1111#4 else 0#4

/-- `rep_b` and `rep_h`: the data repeated on all lanes. -/
def repB (v : Word) : Word :=
  v.extractLsb' 0 8 ++ v.extractLsb' 0 8 ++ v.extractLsb' 0 8 ++ v.extractLsb' 0 8

def repH (v : Word) : Word := v.extractLsb' 0 16 ++ v.extractLsb' 0 16

/-- `data.bs` and `data.hs`: the bytes and the halfwords of a word. -/
def bs (data : Word) (sel : BitVec 2) : BitVec 8 := data.extractLsb' (8 * sel.toNat) 8

def hs (data : Word) (sel : BitVec 1) : BitVec 16 := data.extractLsb' (16 * sel.toNat) 16

/-- The instructions that name no register. -/
def cancelsWriteback (funct : BitVec 6) : Bool :=
  match funct with
  | 0b010001#6 | 0b010011#6 | 0b011000#6 | 0b011001#6 | 0b011010#6 | 0b011011#6 | 0b001000#6 =>
    true
  | _ => false

namespace Context

variable (ctx : Context)

/-- The value of the register that the `rs` field names. -/
def vRs : Word := ctx.r (rs ctx.instr)

def vRt : Word := ctx.r (rt ctx.instr)

def linkPc : Word := ctx.pc + 8#32

/-- `Fetch`. -/
def fetch (iresp : BusResp) : Context :=
  let out := { ctx with
    instr := iresp.data
    state := memWait iresp .fetch .fetchAddrSent .decode }
  if ctx.pc.extractLsb' 0 2 ≠ 0#2 then ctx.addrError out exAdel ctx.pc else out

/-- `FetchAddrSent`. -/
def fetchAddrSent (iresp : BusResp) : Context :=
  { ctx with
    instr := iresp.data
    state := if iresp.dataOk then .decode else .fetchAddrSent }

/-- `Decode`. -/
def decode : Context :=
  match op ctx.instr with
  | 0b000000#6 => { ctx with state := .rtype }
  | 0b000100#6 | 0b000101#6 | 0b000110#6 | 0b000111#6 | 0b000010#6 | 0b000011#6 | 0b000001#6 =>
    { ctx with state := .branchEval }
  | 0b001000#6 | 0b001001#6 | 0b001010#6 | 0b001011#6 | 0b001100#6 | 0b001101#6 | 0b001110#6
  | 0b001111#6 => { ctx with state := .arithmetic }
  | 0b100000#6 | 0b100100#6 | 0b100001#6 | 0b100101#6 | 0b101000#6 | 0b101001#6 | 0b100011#6
  | 0b101011#6 => { ctx with state := .addrCheck }
  | 0b010000#6 => { ctx with state := .cop0Decode }
  | _ => ctx.throw ctx exRi

/-- `target_pc`. -/
def targetPc : Word :=
  ctx.pc + 4#32 + (imm ctx.instr ++ 0#2 : BitVec 18).signExtend 32

/-- `jump_pc`. -/
def jumpPc : Word :=
  (ctx.pc.extractLsb' 28 4 ++ ctx.instr.extractLsb' 0 26 ++ 0#2 : BitVec 32)

/-- `need_link`. -/
def needLink : Bool :=
  op ctx.instr == 0b000011#6 ||
    op ctx.instr == 0b000001#6 && (rt ctx.instr == 0b10000#5 || rt ctx.instr == 0b10001#5)

/-- The context behind the link. -/
def linked : Context :=
  if ctx.needLink then
    { ctx with state := .branch, targetId := 31#5 }.setReg 31#5 ctx.linkPc
  else { ctx with state := .branch }

/-- The case on the opcode: what it does to the linked context, and `new_pc`. -/
def branchCase : Context × Word :=
  let go (taken : Bool) : Context × Word :=
    (ctx.linked, if taken then ctx.targetPc else ctx.linkPc)
  match op ctx.instr with
  | 0b000100#6 => go (ctx.vRs == ctx.vRt)
  | 0b000101#6 => go (ctx.vRs != ctx.vRt)
  | 0b000110#6 => go (ctx.vRs.sle 0#32)
  | 0b000111#6 => go ((0#32).slt ctx.vRs)
  | 0b000010#6 | 0b000011#6 => (ctx.linked, ctx.jumpPc)
  | 0b000001#6 =>
    match rt ctx.instr with
    | 0b00000#5 | 0b10000#5 => go (ctx.vRs.slt 0#32)
    | 0b00001#5 | 0b10001#5 => go ((0#32).sle ctx.vRs)
    | _ => (ctx.throw ctx.linked exRi, 0#32)
  | _ => (ctx.linked.fatal, 0#32)

/-- `BranchEval`. The address is written last, over whatever the case has left in `args`. -/
def branchEval : Context :=
  { ctx.branchCase.1 with args := ctx.branchCase.1.args.setNewPc ctx.branchCase.2 }

/-- `Branch`. -/
def branch : Context :=
  let out := { ctx with
    state := .fetch
    pc := ctx.pc + 4#32
    delayed := true
    delayedPc := ctx.args.newPc }
  if ctx.delayed then out.fatal else out

def sextImm : Word := (imm ctx.instr).signExtend 32

def zextImm : Word := (imm ctx.instr).setWidth 32

/-- `Arithmetic`. -/
def arithmetic : Context :=
  let out := { ctx with state := .commit, targetId := rt ctx.instr }
  match op ctx.instr with
  | 0b001001#6 => out.setReg (rt ctx.instr) (ctx.vRs + ctx.sextImm)
  | 0b001010#6 => out.setReg (rt ctx.instr) (signedCmp ctx.vRs ctx.sextImm)
  | 0b001011#6 => out.setReg (rt ctx.instr) (unsignedCmp ctx.vRs ctx.sextImm)
  | 0b001100#6 => out.setReg (rt ctx.instr) (ctx.vRs &&& ctx.zextImm)
  | 0b001101#6 => out.setReg (rt ctx.instr) (ctx.vRs ||| ctx.zextImm)
  | 0b001110#6 => out.setReg (rt ctx.instr) (ctx.vRs ^^^ ctx.zextImm)
  | 0b001111#6 => out.setReg (rt ctx.instr) (imm ctx.instr ++ 0#16 : BitVec 32)
  | 0b001000#6 =>
    let v := ctx.vRs.signExtend 33 + (imm ctx.instr).signExtend 33
    if overflows v then ctx.throw out exOv
    else out.setReg (rt ctx.instr) (v.extractLsb' 0 32)
  | _ => out.fatal

/-- The effect of an `RTYPE` instruction on the context that is to commit it. -/
def rtypeCase (out : Context) : Context :=
  let set (v : Word) : Context := out.setReg (rd ctx.instr) v
  let sum : BitVec 33 := ctx.vRs.signExtend 33 + ctx.vRt.signExtend 33
  let difference : BitVec 33 := ctx.vRs.signExtend 33 - ctx.vRt.signExtend 33
  let hilo (v : BitVec 64) : Context :=
    { out with hi := v.extractLsb' 32 32, lo := v.extractLsb' 0 32 }
  match func ctx.instr with
  | 0b000000#6 => set (ctx.vRt <<< (shamtOf ctx.instr).toNat)
  | 0b000010#6 => set (ctx.vRt >>> (shamtOf ctx.instr).toNat)
  | 0b000011#6 => set (ctx.vRt.sshiftRight (shamtOf ctx.instr).toNat)
  | 0b000110#6 => set (ctx.vRt >>> (ctx.vRs.extractLsb' 0 5).toNat)
  | 0b000111#6 => set (ctx.vRt.sshiftRight (ctx.vRs.extractLsb' 0 5).toNat)
  | 0b000100#6 => set (ctx.vRt <<< (ctx.vRs.extractLsb' 0 5).toNat)
  | 0b100001#6 => set (ctx.vRs + ctx.vRt)
  | 0b100011#6 => set (ctx.vRs - ctx.vRt)
  | 0b100100#6 => set (ctx.vRs &&& ctx.vRt)
  | 0b100101#6 => set (ctx.vRs ||| ctx.vRt)
  | 0b100110#6 => set (ctx.vRs ^^^ ctx.vRt)
  | 0b100111#6 => set (~~~(ctx.vRs ||| ctx.vRt))
  | 0b101010#6 => set (signedCmp ctx.vRs ctx.vRt)
  | 0b101011#6 => set (unsignedCmp ctx.vRs ctx.vRt)
  | 0b100000#6 =>
    if overflows sum then ctx.throw out exOv else set (sum.extractLsb' 0 32)
  | 0b100010#6 =>
    if overflows difference then ctx.throw out exOv else set (difference.extractLsb' 0 32)
  | 0b010000#6 => set ctx.hi
  | 0b010001#6 => { out with hi := ctx.vRs }
  | 0b010010#6 => set ctx.lo
  | 0b010011#6 => { out with lo := ctx.vRs }
  | 0b011000#6 => hilo (ctx.vRs.signExtend 64 * ctx.vRt.signExtend 64)
  | 0b011001#6 => hilo (ctx.vRs.setWidth 64 * ctx.vRt.setWidth 64)
  | 0b011010#6 =>
    if ctx.vRt = 0#32 then out.fatal
    else hilo (ctx.vRs.srem ctx.vRt ++ ctx.vRs.sdiv ctx.vRt)
  | 0b011011#6 =>
    if ctx.vRt = 0#32 then out.fatal
    else hilo (ctx.vRs % ctx.vRt ++ ctx.vRs / ctx.vRt)
  | 0b001000#6 => { out with state := .branch, args := ctx.args.setNewPc ctx.vRs }
  | 0b001001#6 => { set ctx.linkPc with state := .branch, args := ctx.args.setNewPc ctx.vRs }
  | 0b001100#6 => ctx.throw out exSys
  | 0b001101#6 => ctx.throw out exBp
  | _ => ctx.throw out exRi

/-- `RType`. -/
def rtype : Context :=
  let out := ctx.rtypeCase { ctx with state := .commit, targetId := rd ctx.instr }
  if cancelsWriteback (func ctx.instr) then { out with targetId := 0#5 } else out

/-- `Exception`. -/
def exception : Context :=
  let interrupt := ctx.args.code == exInt
  { ctx with
    state :=
      if ctx.cp0.status.erl then .unknown
      else if interrupt && (ctx.cp0.status.exl || ctx.cp0.status.erl) then .unknown
      else .fetch
    cp0 := ctx.cp0.enter ctx.args.code ctx.args.badVAddr ctx.args.delayed ctx.pc
    pc := ctx.cp0.vector ctx.args.code }

/-- The address of a load or a store. -/
def memAddr : Word := ctx.vRs + (imm ctx.instr).signExtend 32

/-- `AddrCheck`. -/
def addrCheck : Context :=
  let addr := ctx.memAddr
  let low := addr.extractLsb' 0 2
  let storing := { ctx with state := .store }
  let loading := { ctx with state := .load }
  match op ctx.instr with
  | 0b101000#6 => { storing with args := .mem addr .size1 (strbB low) (repB ctx.vRt) }
  | 0b101001#6 =>
    if addr.getLsbD 0 then ctx.addrError storing exAdes addr
    else { storing with args := .mem addr .size2 (strbH low) (repH ctx.vRt) }
  | 0b101011#6 =>
    if low ≠ 0#2 then ctx.addrError storing exAdes addr
    else { storing with args := .mem addr .size4 (strbW low) ctx.vRt }
  | 0b100000#6 | 0b100100#6 => { loading with args := .mem addr .size1 0#4 0#32 }
  | 0b100001#6 | 0b100101#6 =>
    if addr.getLsbD 0 then ctx.addrError loading exAdel addr
    else { loading with args := .mem addr .size2 0#4 0#32 }
  | 0b100011#6 =>
    if low ≠ 0#2 then ctx.addrError loading exAdel addr
    else { loading with args := .mem addr .size4 0#4 0#32 }
  | _ => ctx.fatal

/-- `Load`. -/
def load (dresp : BusResp) : Context :=
  { ctx with
    args := ctx.args.setData dresp.data
    state := memWait dresp .load .loadAddrSent .loaded }

/-- `LoadAddrSent`. -/
def loadAddrSent (dresp : BusResp) : Context :=
  { ctx with
    args := ctx.args.setData dresp.data
    state := if dresp.dataOk then .loaded else .loadAddrSent }

/-- `Loaded`. -/
def loaded : Context :=
  let out := { ctx with state := .commit, targetId := rt ctx.instr }
  let b := bs ctx.args.data (ctx.args.addr.extractLsb' 0 2)
  let h := hs ctx.args.data (ctx.args.addr.extractLsb' 1 1)
  match op ctx.instr with
  | 0b100000#6 => out.setReg (rt ctx.instr) (b.signExtend 32)
  | 0b100100#6 => out.setReg (rt ctx.instr) (b.setWidth 32)
  | 0b100001#6 => out.setReg (rt ctx.instr) (h.signExtend 32)
  | 0b100101#6 => out.setReg (rt ctx.instr) (h.setWidth 32)
  | 0b100011#6 => out.setReg (rt ctx.instr) ctx.args.data
  | _ => out.fatal

/-- `Store`. -/
def store (dresp : BusResp) : Context :=
  { ctx with state := memWait dresp .store .storeAddrSent .commit }

/-- `StoreAddrSent`. -/
def storeAddrSent (dresp : BusResp) : Context :=
  { ctx with state := if dresp.dataOk then .commit else .storeAddrSent }

/-- `COP0Decode`. -/
def cop0Decode : Context :=
  if ctx.instr.getLsbD 25 then
    if func ctx.instr = 0b011000#6 then { ctx with state := .exceptionReturn }
    else ctx.throw ctx exRi
  else { ctx with state := .cop0Access }

/-- `COP0Access`. A number that names no register stands for `BadVAddr`, which is read-only. -/
def cop0Access : Context :=
  let found := cp0IdOf (rd ctx.instr ++ sel ctx.instr)
  let id := found.getD .badVAddr
  let out := { ctx with state := if found.isNone then .unknown else .commit }
  match rs ctx.instr with
  | 0b00000#5 =>
    { out with targetId := rt ctx.instr }.setReg (rt ctx.instr) (ctx.cp0.entry id)
  | 0b00100#5 => { out with cp0 := ctx.cp0.mtc0 id ctx.vRt }
  | _ => ctx.throw out exRi

/-- `ExceptionReturn`. -/
def exceptionReturn : Context :=
  { ctx with
    state := if ctx.delayed then .unknown else .fetch
    pc := ctx.cp0.returnPc
    cp0 := ctx.cp0.leave }

/-- `Commit`. -/
def commit : Context :=
  let out :=
    if ctx.delayed then { ctx with state := .fetch, delayed := false, pc := ctx.delayedPc }
    else { ctx with state := .fetch, pc := ctx.pc + 4#32 }
  if ctx.cp0.hasInterrupt then ctx.throw out exInt else out

end Context

end FrailCPU.RefCpu
