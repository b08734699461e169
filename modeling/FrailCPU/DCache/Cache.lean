import FrailCPU.Include.Common
import FrailCPU.Library.Lanes

/-!
# The data cache

`DCache.sv` and the two-port RAM behind it, one clock edge at a time: 2 ways of 64 sets,
16 words a line. What the source writes twice, with the suffixes `_1` and `_2`, is one
definition here that takes the port. `State` holds the registers and the two memories, the
other definitions are the wires, and `State.next` is the edge with `resetn` high. The
initial state is the one that reset leaves behind after its sweep over the tag array.
-/

namespace FrailCPU.DCache

/-- The two requests of a pair: `dreq_1` is older. -/
inductive Port
  | one | two
  deriving DecidableEq, Repr

def Port.other : Port → Port
  | .one => .two
  | .two => .one

/-- `tag_t`. -/
abbrev Tag := BitVec 20

/-- `index_t`. -/
abbrev Index := BitVec 6

/-- `offset_t`. -/
abbrev Offset := BitVec 4

/-- `associativity_t`: the way, in one bit. -/
abbrev Way := Bool

def tagOf (a : Word) : Tag := a.extractLsb' 12 20

def indexOf (a : Word) : Index := a.extractLsb' 6 6

def offsetOf (a : Word) : Offset := a.extractLsb' 2 4

/-- `dirty_t`: one line of the data RAM. -/
structure Slot where
  line : Way
  index : Index
  deriving DecidableEq, Inhabited

/-- `data_addr_t`: one word of the data RAM. -/
structure DataAddr where
  slot : Slot
  offset : Offset
  deriving DecidableEq, Inhabited

/-- `info_t`. -/
structure Info where
  valid : Bool
  tag : Tag
  deriving DecidableEq, Inhabited

/-- `meta_t`: the tag entries of a set. -/
abbrev Meta := Way → Info

/-- `state_t`. The states `WRITEBACK` and `STORE` belong to the CACHE instruction. -/
inductive FsmState
  | idle
  | fetch (p : Port)
  | writeback (p : Port)
  | uncache (p : Port)
  | store
  | writebackInst
  deriving DecidableEq

/-- `get_mask`. -/
def getMask (strobe : Strobe) : Word :=
  (BitVec.fill 8 (strobe.getLsbD 3) ++ BitVec.fill 8 (strobe.getLsbD 2) ++
    BitVec.fill 8 (strobe.getLsbD 1) ++ BitVec.fill 8 (strobe.getLsbD 0) : BitVec 32)

/-- A write port of `RAM_TrueDualPort`, the lanes under the strobe. -/
def ramWrite (mem : DataAddr → Word) (en : Bool) (a : DataAddr) (strobe : Strobe)
    (wdata : Word) : DataAddr → Word :=
  if en then
    Function.update mem a (Lanes.maskedWrite (getMask strobe) (mem a) wdata)
  else mem

/-- What `process_pkg_t` keeps of one request. -/
structure Side where
  hit : Bool
  hitLine : Way
  dreq : DBusReq
  metaR : Meta
  isUncached : Bool
  deriving Inhabited

/-- `process_pkg_t`. -/
structure ProcessPkg where
  side : Port → Side
  dreqEn : Bool
  cacheOper : CacheOper
  instOperLine : Way
  deriving Inhabited

/-- The registers of the state machine. -/
structure Fsm where
  state : FsmState := .idle
  missAddr : DataAddr := default
  offsetCount : Offset := 0#4
  bufferOffset : Offset := 0#4
  buffer : Offset → Word := fun _ => 0#32
  delayCounter : Bool := false

/-- The `*_end` registers. -/
structure Ends where
  fetch : Port → Bool := fun _ => false
  writeback : Port → Bool := fun _ => false
  uncache : Port → Bool := fun _ => false
  store : Bool := false
  writebackInst : Bool := false

structure State where
  en : Bool := true
  cacheHandle : ProcessPkg := default
  fsm : Fsm := {}
  ends : Ends := {}
  metaRam : Index → Meta := fun _ _ => default
  cacheDirty : Slot → Bool := fun _ => false
  plru : Index → Way := fun _ => false
  dataRam : DataAddr → Word := fun _ => 0#32
  portDataR : Port → Word := fun _ => 0#32
  replaceLineReg : Port → Way := fun _ => false
  finishReg : Bool := false
  dataOkReg : Bool := false
  uncachedData : Port → Word := fun _ => 0#32
  uncacheFlag : Port → Bool := fun _ => false
  wToRReg : Bool := false
  wToRData : Word := 0#32
  wToRStrobe : Strobe := 0#4

structure Input where
  dreq : Port → DBusReq
  isUncached : Port → Bool
  dcresp : CBusResp
  cacheInst : DCacheInst
  tagLo : Word

def hitBits (m : Meta) (t : Tag) (w : Way) : Bool :=
  (m w).valid && (m w).tag == t

def hit (m : Meta) (t : Tag) : Bool :=
  hitBits m t false || hitBits m t true

/-- `hit_line`: the disjunction of the indices of the ways that hit. -/
def hitLine (m : Meta) (t : Tag) : Way :=
  (hitBits m t false && false) || (hitBits m t true && true)

namespace State

variable (s : State) (i : Input)

/-! ### The first stage: the tag array is read -/

/-- `meta_r_1` and `meta_r_2`. -/
def metaR (p : Port) : Meta := s.metaRam (indexOf (i.dreq p).addr)

def hit (p : Port) : Bool := DCache.hit (s.metaR i p) (tagOf (i.dreq p).addr)

def hitLine (p : Port) : Way := DCache.hitLine (s.metaR i p) (tagOf (i.dreq p).addr)

def cacheHit (p : Port) : Bool := !i.isUncached p && s.hit i p

def dreqEn : Bool :=
  (i.cacheInst == .unknown && (!(i.dreq .one).valid || s.cacheHit i .one) &&
      (!(i.dreq .two).valid || s.cacheHit i .two)) ||
    i.cacheInst == .hitInvalid ||
    (i.cacheInst == .hitWritebackInvalid && (!s.hit i .one || !(i.dreq .one).valid)) ||
    (!(i.dreq .one).valid && !(i.dreq .two).valid)

def invalidFlag : Bool := i.cacheInst == .hitInvalid && s.hit i .one

def wbInvalidFlag : Bool :=
  (i.cacheInst == .hitWritebackInvalid && s.hit i .one) || i.cacheInst == .indexWritebackInvalid

def cacheOper : CacheOper :=
  if s.invalidFlag i && (i.dreq .one).valid then .invalid
  else if s.wbInvalidFlag i && (i.dreq .one).valid then .writebackInvalid
  else if i.cacheInst == .indexStoreTag && (i.dreq .one).valid then .indexStore
  else if i.cacheInst == .unknown then .req
  else .null

/-- `get_line`: the way that an index operation addresses. -/
def indexLine : Way := (i.dreq .one).addr.getLsbD 12

def instOperLine : Way :=
  if i.cacheInst == .indexWritebackInvalid || i.cacheInst == .indexStoreTag then indexLine i
  else s.hitLine i .one

/-- What `cache_handle` latches. -/
def handleNext : ProcessPkg where
  side p :=
    { hit := s.hit i p
      hitLine := s.hitLine i p
      dreq := i.dreq p
      metaR := s.metaR i p
      isUncached := i.isUncached p }
  dreqEn := s.dreqEn i
  cacheOper := s.cacheOper i
  instOperLine := s.instOperLine i

/-! ### The second stage: the latched pair is served -/

/-- `cache_handle.dreq_1` and `cache_handle.dreq_2`. -/
def req (p : Port) : DBusReq := (s.cacheHandle.side p).dreq

def index (p : Port) : Index := indexOf (s.req p).addr

def processCacheHit (p : Port) : Bool :=
  (s.cacheHandle.side p).hit && (s.req p).valid && !(s.cacheHandle.side p).isUncached

def indexEqual : Bool := s.index .one == s.index .two

def processReplaceLine (p : Port) : Way :=
  if s.indexEqual && (s.cacheHandle.side p.other).hit then
    !(s.cacheHandle.side p.other).hitLine
  else s.plru (s.index p)

/-- The line of the data RAM that a miss replaces. -/
def victim (p : Port) : Slot := ⟨s.processReplaceLine p, s.index p⟩

/-- The line of the data RAM that a hit found. -/
def hitSlot (p : Port) : Slot := ⟨(s.cacheHandle.side p).hitLine, s.index p⟩

def plruNew : Index → Way := fun k =>
  let one :=
    if s.processCacheHit .one then
      if s.index .one == k then !(s.cacheHandle.side .one).hitLine else s.plru k
    else if s.fsm.state = .fetch .one ∧ i.dcresp.last then
      if s.index .one == k then !s.processReplaceLine .one else s.plru k
    else s.plru k
  -- the second update starts from the register again, not from the first update
  if s.processCacheHit .two then
    if s.index .two == k then !(s.cacheHandle.side .two).hitLine else s.plru k
  else if s.fsm.state = .fetch .two ∧ i.dcresp.last then
    if s.index .two == k then !s.processReplaceLine .two else s.plru k
  else one

def cacheDirtyNew : Slot → Bool := fun k =>
  match s.fsm.state with
  | .idle =>
    let one :=
      if s.processCacheHit .one && (s.req .one).strobe != 0#4 then
        if s.hitSlot .one == k then true else s.cacheDirty k
      else s.cacheDirty k
    if s.processCacheHit .two && (s.req .two).strobe != 0#4 then
      if s.hitSlot .two == k then true else s.cacheDirty k
    else one
  | .fetch p => if s.victim p == k then (s.req p).strobe != 0#4 else s.cacheDirty k
  | _ => s.cacheDirty k

/-- `cache_dirty_1` and `cache_dirty_2`: the victim has to be written back. -/
def cacheDirtyOf (p : Port) : Bool :=
  s.cacheDirty (s.victim p) &&
    ((s.cacheHandle.side p).metaR (s.processReplaceLine p)).valid

def wbDirty : Bool :=
  s.cacheDirty ⟨s.cacheHandle.instOperLine, s.index .one⟩ &&
    ((s.cacheHandle.side .one).metaR s.cacheHandle.instOperLine).valid

/-- `same_line`: the line of the younger request is fetched for the older one. -/
def sameLine : Bool :=
  (s.req .one).addr.extractLsb' 6 26 == (s.req .two).addr.extractLsb' 6 26 &&
    (s.req .one).valid && !(s.cacheHandle.side .one).isUncached

def addrSame : Bool :=
  (s.req .one).addr.extractLsb' 2 30 == (s.req .two).addr.extractLsb' 2 30 &&
    ((s.req .one).valid && (s.req .two).valid) &&
    (!(s.cacheHandle.side .one).isUncached && !(s.cacheHandle.side .two).isUncached)

def wToW : Bool :=
  s.addrSame && (s.req .one).strobe != 0#4 && (s.req .two).strobe != 0#4

def wToWData : Word :=
  (getMask (s.req .two).strobe &&& (s.req .two).data) |||
    (getMask ((s.req .one).strobe ^^^ (s.req .two).strobe) &&& (s.req .one).data)

def wToR : Bool :=
  s.addrSame && (s.req .one).strobe != 0#4 && (s.req .two).strobe == 0#4

def wToRRespData : Word :=
  (getMask s.wToRStrobe &&& s.wToRData) |||
    (getMask (s.wToRStrobe ^^^ 15#4) &&& s.portDataR .one)

def finishState : FsmState :=
  if (s.req .two).valid && (s.cacheHandle.side .two).isUncached then .uncache .two
  else if (s.req .two).valid && !(s.cacheHandle.side .two).isUncached &&
      !(s.cacheHandle.side .two).hit && !s.sameLine then .fetch .two
  else if (s.req .one).valid && (s.cacheHandle.side .one).isUncached then .uncache .one
  else .fetch .one

def finish : Bool :=
  (s.cacheHandle.cacheOper == .req && s.fsm.state == s.finishState && i.dcresp.last) ||
    (s.cacheHandle.cacheOper == .writebackInvalid && (!s.wbDirty || i.dcresp.last)) ||
    (s.cacheHandle.cacheOper == .indexStore && s.fsm.missAddr.offset == 15#4)

def enNext : Bool :=
  if s.en && !s.dreqEn i then false
  else if !s.en && s.finish i then true
  else s.en

/-! ### The tag array -/

def metaEn : Bool :=
  match s.fsm.state with
  | .store | .fetch _ => true
  | _ => s.cacheHandle.cacheOper == .invalid || s.cacheHandle.cacheOper == .writebackInvalid

def metaWAddr : Index :=
  if s.fsm.state = .fetch .two then s.index .two else s.index .one

/-- The set with the entry of the victim replaced. -/
def metaFetch (p : Port) : Meta :=
  Function.update (s.cacheHandle.side p).metaR (s.processReplaceLine p)
    ⟨true, tagOf (s.req p).addr⟩

def metaW : Meta :=
  let m := (s.cacheHandle.side .one).metaR
  let w := s.cacheHandle.instOperLine
  match s.cacheHandle.cacheOper with
  | .invalid => Function.update m w { m w with valid := false }
  | .writebackInvalid => if s.en then Function.update m w { m w with valid := false } else m
  | .indexStore =>
    if s.en then
      Function.update m w ⟨i.tagLo.getLsbD 0, (BitVec.ofBool (i.tagLo.getLsbD 0)).setWidth 20⟩
    else m
  | .req =>
    match s.fsm.state with
    | .fetch p => s.metaFetch p
    | _ => fun _ => default
  | .null => fun _ => default

def metaRamNext : Index → Meta :=
  if s.metaEn then Function.update s.metaRam s.metaWAddr (s.metaW i) else s.metaRam

/-! ### The ports of the data RAM -/

/-- The word of the data RAM that a request accesses. -/
def accessAddr (p : Port) : DataAddr where
  slot :=
    if (s.cacheHandle.side p).hit then s.hitSlot p else ⟨s.replaceLineReg p, s.index p⟩
  offset := offsetOf (s.req p).addr

def port1En : Bool :=
  (s.cacheHandle.dreqEn || s.finishReg) && !s.wToW && !(s.cacheHandle.side .one).isUncached

def port1Wen : Strobe :=
  if s.cacheHandle.cacheOper == .req then (s.req .one).strobe else 0#4

def port1Addr : DataAddr := s.accessAddr .one

def port2En : Bool :=
  if s.fsm.state = .idle then
    (s.cacheHandle.dreqEn || s.finishReg) && !(s.cacheHandle.side .two).isUncached
  else true

def port2Wen : Strobe :=
  match s.fsm.state with
  | .idle =>
    if s.cacheHandle.cacheOper == .req then
      if s.wToW then (s.req .one).strobe ||| (s.req .two).strobe else (s.req .two).strobe
    else 0#4
  | .fetch _ | .store => 15#4
  | _ => 0#4

def port2Addr : DataAddr :=
  if s.fsm.state = .idle then s.accessAddr .two else s.fsm.missAddr

def port2DataW : Word :=
  match s.fsm.state with
  | .idle => if s.wToW then s.wToWData else (s.req .two).data
  | .store => (BitVec.ofBool (i.tagLo.getLsbD 0)).setWidth 32
  | _ => i.dcresp.data

def dataRamNext : DataAddr → Word :=
  ramWrite (ramWrite s.dataRam s.port1En s.port1Addr s.port1Wen (s.req .one).data)
    s.port2En s.port2Addr s.port2Wen (s.port2DataW i)

def portDataRNext : Port → Word
  | .one => s.dataRam s.port1Addr
  | .two => s.dataRam s.port2Addr

def replaceLineRegNext : Port → Way
  | .one =>
    if s.fsm.state = .fetch .one ∧ i.dcresp.last then s.processReplaceLine .one
    else s.replaceLineReg .one
  | .two =>
    if s.fsm.state = .fetch .two ∧ i.dcresp.last then s.processReplaceLine .two
    else if s.sameLine && i.dcresp.last then s.processReplaceLine .one
    else s.replaceLineReg .two

/-! ### The state machine -/

/-- A request that has to be served on the bus without the cache. -/
def uncacheDue (p : Port) : Bool :=
  (s.req p).valid && (s.cacheHandle.side p).isUncached && !s.ends.uncache p

/-- A request whose line has to be fetched. -/
def fetchDue (p : Port) : Bool :=
  (s.req p).valid && !(s.cacheHandle.side p).hit && !(s.cacheHandle.side p).isUncached &&
    !s.ends.fetch p && !(p == .two && s.sameLine)

/-- The miss of `p` starts, with the write-back of the victim if it is dirty. -/
def startMiss (p : Port) : Fsm :=
  { s.fsm with
    state := if s.cacheDirtyOf p && !s.ends.writeback p then .writeback p else .fetch p
    missAddr := ⟨s.victim p, 0#4⟩
    offsetCount := 0#4
    delayCounter := false }

def fsmIdle : Fsm :=
  let wait := { s.fsm with delayCounter := false }
  let inst : DataAddr := ⟨⟨s.cacheHandle.instOperLine, s.index .one⟩, 0#4⟩
  match s.cacheHandle.cacheOper with
  | .writebackInvalid =>
    if s.wbDirty && !s.ends.writebackInst then
      { wait with state := .writebackInst, missAddr := inst, offsetCount := 0#4 }
    else wait
  | .indexStore =>
    if !s.ends.store then { wait with state := .store, missAddr := inst } else wait
  | .req =>
    if s.uncacheDue .one then { wait with state := .uncache .one }
    else if s.fetchDue .one then s.startMiss .one
    else if s.uncacheDue .two then { wait with state := .uncache .two }
    else if s.fetchDue .two then s.startMiss .two
    else wait
  | _ => wait

/-- A cycle of a refill. -/
def fsmFetch (p : Port) : Fsm :=
  if i.dcresp.ready then
    { s.fsm with
      state := if i.dcresp.last then .idle else .fetch p
      missAddr := ⟨s.fsm.missAddr.slot, s.fsm.missAddr.offset + 1#4⟩ }
  else s.fsm

/-- A cycle of a write-back: the RAM is read into the buffer, and the buffer is sent. -/
def fsmWriteback (stay done : FsmState) : Fsm where
  state := if i.dcresp.ready then (if i.dcresp.last then done else stay) else s.fsm.state
  offsetCount := if i.dcresp.ready then s.fsm.offsetCount + 1#4 else s.fsm.offsetCount
  missAddr :=
    ⟨s.fsm.missAddr.slot, if i.dcresp.last then 0#4 else s.fsm.missAddr.offset + 1#4⟩
  bufferOffset := s.fsm.missAddr.offset
  buffer := fun k => if s.fsm.bufferOffset == k then s.portDataR .two else s.fsm.buffer k
  delayCounter := true

def fsmNext : Fsm :=
  if s.en then s.fsm
  else
    match s.fsm.state with
    | .idle => s.fsmIdle
    | .fetch p => s.fsmFetch i p
    | .writeback p => s.fsmWriteback i (.writeback p) (.fetch p)
    | .uncache p => { s.fsm with state := if i.dcresp.last then .idle else .uncache p }
    | .store =>
      { s.fsm with
        state := if s.fsm.missAddr.offset == 15#4 then .idle else .store
        missAddr := ⟨s.fsm.missAddr.slot, s.fsm.missAddr.offset + 1#4⟩ }
    | .writebackInst => s.fsmWriteback i .writebackInst .idle

def endsNext : Ends :=
  if s.finishReg then {}
  else
    { fetch := fun p => s.fsm.state == .fetch p || s.ends.fetch p
      writeback := fun p => s.fsm.state == .writeback p || s.ends.writeback p
      uncache := fun p => s.fsm.state == .uncache p || s.ends.uncache p
      store := s.fsm.state == .store || s.ends.store
      writebackInst := s.fsm.state == .writebackInst || s.ends.writebackInst }

/-! ### The buses -/

/-- The address of the first word of a line. -/
def lineAddr (t : Tag) (k : Index) : Word := t ++ k ++ 0#6

def cbusAddr : Word :=
  match s.fsm.state with
  | .fetch p => lineAddr (tagOf (s.req p).addr) (s.index p)
  | .writeback p =>
    lineAddr ((s.cacheHandle.side p).metaR (s.processReplaceLine p)).tag (s.index p)
  | .uncache p => (s.req p).addr
  | .writebackInst =>
    lineAddr ((s.cacheHandle.side .one).metaR s.cacheHandle.instOperLine).tag (s.index .one)
  | _ => 0#32

def dcreq : CBusReq :=
  { valid :=
      match s.fsm.state with
      | .fetch _ | .uncache _ => true
      | .writeback _ | .writebackInst => s.fsm.delayCounter
      | _ => false
    isWrite :=
      match s.fsm.state with
      | .writeback _ | .writebackInst => true
      | .uncache p => (s.req p).strobe != 0#4
      | _ => false
    size :=
      match s.fsm.state with
      | .uncache p => (s.req p).size
      | _ => .size4
    addr := s.cbusAddr
    strobe :=
      match s.fsm.state with
      | .uncache p => (s.req p).strobe
      | .writeback _ | .writebackInst => 15#4
      | _ => 0#4
    data :=
      match s.fsm.state with
      | .uncache p => (s.req p).data
      | _ => s.fsm.buffer s.fsm.offsetCount
    len :=
      match s.fsm.state with
      | .uncache _ => mlen1
      | _ => mlen16 }

/-- `dresp.addr_ok`. -/
def addrOk : Bool := s.en

/-- `dresp.data_ok`. -/
def dataOk : Bool := s.dataOkReg

/-- `data_1` and `data_2`. -/
def respData : Port → Word
  | .one => if s.uncacheFlag .one then s.uncachedData .one else s.portDataR .one
  | .two =>
    if s.uncacheFlag .two then s.uncachedData .two
    else if s.wToRReg then s.wToRRespData
    else s.portDataR .two

/-- A clock edge. -/
def next : State where
  en := s.enNext i
  cacheHandle := if s.en then s.handleNext i else s.cacheHandle
  fsm := s.fsmNext i
  ends := s.endsNext
  metaRam := s.metaRamNext i
  cacheDirty := if s.cacheHandle.cacheOper == .req then s.cacheDirtyNew else s.cacheDirty
  plru := if s.cacheHandle.cacheOper == .req then s.plruNew i else s.plru
  dataRam := s.dataRamNext i
  portDataR := s.portDataRNext
  replaceLineReg := s.replaceLineRegNext i
  finishReg := s.finish i
  dataOkReg := s.en
  uncachedData := fun p =>
    if s.fsm.state = .uncache p ∧ i.dcresp.last then i.dcresp.data else s.uncachedData p
  uncacheFlag := fun p => (s.cacheHandle.side p).isUncached
  wToRReg := s.wToR
  wToRData := (s.req .one).data
  wToRStrobe := (s.req .one).strobe

end State

end FrailCPU.DCache
