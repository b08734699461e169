import FrailCPU.DCache.Cache
import FrailCPU.Library.Machine
import FrailCPU.Mmu.Mmu

/-!
# The instruction cache

`ICache.sv` and the two memories behind it, one clock edge at a time, in the geometry of the
data cache. `ireq_1` asks for the word at `pc` and `ireq_2` for the word at `pc+4`, and both
have to hit for the pair to be accepted. A CACHE operation clears the whole tag array, one set
in each cycle. The initial state is the one that reset leaves behind after its sweep over the
tag array.
-/

namespace FrailCPU.ICache

open DCache (Port Tag Index Way Meta DataAddr tagOf indexOf offsetOf)
open DCache.State (lineAddr)

/-- `state_t`. -/
inductive FsmState
  | idle
  | fetch (p : Port)
  | invalidAll
  deriving DecidableEq

structure State where
  instSave : ICacheInst := .unknown
  instSaved : Bool := false
  state : FsmState := .idle
  metaIndex : Index := 0#6
  missAddr : DataAddr := default
  plru : Index → Way := fun _ => false
  metaRam : Index → Meta := fun _ _ => default
  dataRam : DataAddr → Word := fun _ => 0#32
  portDataR : Port → Word := fun _ => 0#32
  dataOkReg : Bool := false

structure Input where
  ireq : Port → IBusReq
  icresp : CBusResp
  cacheInst : ICacheInst := .unknown

namespace State

variable (s : State) (i : Input)

/-- `valid_inst`: a saved operation goes first, also when it is `I_UNKNOWN`. -/
def validInst : ICacheInst := if s.instSaved then s.instSave else i.cacheInst

/-- `cache_oper`. -/
def cacheOper : CacheOper :=
  if s.validInst i != .unknown && (i.ireq .one).valid then .invalid
  else if s.validInst i == .unknown && (i.ireq .one).valid then .req
  else .null

def index (p : Port) : Index := indexOf (i.ireq p).addr

def tag (p : Port) : Tag := tagOf (i.ireq p).addr

/-- `meta_addr_1` and `meta_addr_2`. The first one is the write port too. -/
def metaAddr : Port → Index
  | .one =>
    match s.state with
    | .fetch .two => index i .two
    | .invalidAll => s.metaIndex
    | _ => index i .one
  | .two => index i .two

def metaR (p : Port) : Meta := s.metaRam (s.metaAddr i p)

def hit (p : Port) : Bool := DCache.hit (s.metaR i p) (tag i p)

def hitLine (p : Port) : Way := DCache.hitLine (s.metaR i p) (tag i p)

def ireqHit : Bool := (i.ireq .one).valid && s.hit i .one && s.hit i .two

/-- `en`: the pair is accepted, or the sweep is over. -/
def en : Bool :=
  (s.validInst i == .unknown && s.ireqHit i && s.state == .idle) ||
    (s.state == .invalidAll && s.metaIndex == 63#6)

/-- `index_line`. -/
def indexLine : Way := (i.ireq .one).addr.getLsbD 12

def invalidLine : Way :=
  if s.validInst i == .indexInvalid then indexLine i else s.hitLine i .one

/-- `replace_line_1` and `replace_line_2`. -/
def replaceLine : Port → Way
  | .one => s.plru (index i .one)
  | .two => if index i .one == index i .two then !s.hitLine i .one else s.plru (index i .two)

def plruNew : Index → Way := fun k =>
  -- the second update starts from the register again, not from the first update
  if s.hit i .two then if index i .two == k then !s.hitLine i .two else s.plru k
  else if s.hit i .one then if index i .one == k then !s.hitLine i .one else s.plru k
  else s.plru k

/-! ### The tag array -/

def metaEn : Bool :=
  match s.state with
  | .fetch _ => i.icresp.last
  | .idle => s.cacheOper i == .invalid
  | .invalidAll => true

def metaW : Meta :=
  let m := s.metaR i .one
  match s.state with
  | .idle =>
    if s.cacheOper i == .invalid then
      let w := s.invalidLine i
      Function.update m w { m w with valid := false }
    else m
  | .fetch p => Function.update m (s.replaceLine i p) ⟨true, tag i p⟩
  | .invalidAll => fun _ => default

def metaRamNext : Index → Meta :=
  if s.metaEn i then Function.update s.metaRam (s.metaAddr i .one) (s.metaW i) else s.metaRam

/-! ### The data RAM -/

/-- `port_1_addr` and `port_2_addr`. -/
def portAddr : Port → DataAddr
  | .one => ⟨⟨s.hitLine i .one, index i .one⟩, offsetOf (i.ireq .one).addr⟩
  | .two =>
    if s.state = .idle then ⟨⟨s.hitLine i .two, index i .two⟩, offsetOf (i.ireq .two).addr⟩
    else s.missAddr

/-- The second port writes in every cycle of a refill, whether there is a beat or not. -/
def dataRamNext : DataAddr → Word :=
  match s.state with
  | .fetch _ => Function.update s.dataRam s.missAddr i.icresp.data
  | _ => s.dataRam

/-! ### The state machine -/

def startMiss (p : Port) : State :=
  { s with state := .fetch p, missAddr := ⟨⟨s.replaceLine i p, index i p⟩, 0#4⟩ }

/-- The state machine, with its registers in place. -/
def fsmNext : State :=
  match s.state with
  | .idle =>
    match s.cacheOper i with
    | .invalid => { s with state := .invalidAll, metaIndex := 0#6 }
    | .req =>
      if (i.ireq .one).valid && !s.hit i .one then s.startMiss i .one
      else if s.hit i .one && (i.ireq .two).valid && !s.hit i .two then s.startMiss i .two
      else s
    | _ => s
  | .fetch p =>
    if i.icresp.ready then
      { s with
        state := if i.icresp.last then .idle else .fetch p
        missAddr := ⟨s.missAddr.slot, s.missAddr.offset + 1#4⟩ }
    else s
  | .invalidAll =>
    { s with
      state := if s.metaIndex == 63#6 then .idle else .invalidAll
      metaIndex := s.metaIndex + 1#6 }

/-! ### The buses -/

/-- `iresp.addr_ok`. -/
def addrOk : Bool := s.en i

/-- `iresp.data_ok`. -/
def dataOk : Bool := s.dataOkReg

/-- The halves of `iresp.data`. -/
def respData (p : Port) : Word := s.portDataR p

def icreq : CBusReq :=
  { valid := match s.state with
      | .fetch _ => true
      | _ => false
    isWrite := false
    size := .size4
    addr :=
      let p := if s.state = .fetch .one then .one else .two
      lineAddr (tag i p) (index i p)
    strobe := 0#4
    data := 0#32
    len := mlen16 }

/-- A clock edge. -/
def next : State :=
  { s.fsmNext i with
    instSave := if !s.en i && !s.instSaved then i.cacheInst else s.instSave
    instSaved := if !s.en i && !s.instSaved then true else if s.en i then false else s.instSaved
    plru := if s.cacheOper i == .req then s.plruNew i else s.plru
    metaRam := s.metaRamNext i
    dataRam := s.dataRamNext i
    portDataR := fun p => s.dataRam (s.portAddr i p)
    dataOkReg := s.en i }

end State

end FrailCPU.ICache
