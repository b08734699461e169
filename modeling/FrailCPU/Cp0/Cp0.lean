import FrailCPU.Mmu.Tlb
import FrailCPU.Library.Lanes

/-!
# Coprocessor 0

`cp0.sv`: the registers, the choice of the exception code, and the clock edge. In one
cycle exactly one of four things happens to the registers, in this order of priority:
an interrupt is taken, an exception is taken, a register is written, a TLB instruction
delivers its result. An `ERET` clears `EXL` on top of any of them.
-/

namespace FrailCPU

/-- The fields of `cp0_status_t` that can change. -/
structure Cp0Status where
  cu0 : Bool := false
  bev : Bool := false
  im : BitVec 8 := 0#8
  um : Bool := false
  erl : Bool := false
  exl : Bool := false
  ie : Bool := false
  deriving DecidableEq, Repr

/-- The fields of `cp0_cause_t` that can change. -/
structure Cp0Cause where
  bd : Bool := false
  ti : Bool := false
  iv : Bool := false
  ip : BitVec 8 := 0#8
  excCode : BitVec 5 := 0#5
  deriving DecidableEq, Repr

def bit (b : Bool) : BitVec 1 := BitVec.ofBool b

def Cp0Status.toWord (s : Cp0Status) : Word :=
  (0#3 ++ bit s.cu0 ++ 0#5 ++ bit s.bev ++ 0#6 ++ s.im ++ 0#3 ++ bit s.um ++ 0#1 ++
    bit s.erl ++ bit s.exl ++ bit s.ie : BitVec 32)

def Cp0Cause.toWord (c : Cp0Cause) : Word :=
  (bit c.bd ++ bit c.ti ++ 0#6 ++ bit c.iv ++ 0#7 ++ c.ip ++ 0#1 ++ c.excCode ++ 0#2 :
    BitVec 32)

/-- `cp0_regs_t`, less the registers that nothing reads. -/
structure Cp0Regs where
  index : Word := 0#32
  random : Word := 0#32
  entryLo0 : Word := 0#32
  entryLo1 : Word := 0#32
  context : Word := 0#32
  pageMask : Word := 0#32
  wired : Word := 0#32
  badVaddr : Word := 0#32
  count : Word := 0#32
  entryHi : Word := 0#32
  compare : Word := 0#32
  status : Cp0Status := {}
  cause : Cp0Cause := {}
  epc : Word := 0#32
  ebase : BitVec 18 := 0#18
  config0 : Word := 0x80000483#32
  tagLo : Word := 0#32
  errorEpc : Word := 0#32
  deriving DecidableEq, Repr

/-- `mmu_resp_t`: what `TLBP` and `TLBR` deliver. -/
structure MmuResp where
  index : Word := 0#32
  entryHi : Word := 0#32
  entryLo0 : Word := 0#32
  entryLo1 : Word := 0#32

/-- The instruction that the W stage hands to `cp0`, and the interrupt lines. -/
structure Cp0Input where
  wa : BitVec 8 := 0#8
  wd : Word := 0#32
  valid : Bool := false
  isEret : Bool := false
  vaddr : Word := 0#32
  pc : Word := 0#32
  etype : ExcpType := {}
  ctype : Cp0Type := .noExc
  isSlot : Bool := false
  iTlbExc : TlbExc := {}
  dTlbExc : TlbExc := {}
  dWrite : Bool := false
  tlbType : TlbType := .noTlb
  mmuResp : MmuResp := {}
  extInt : BitVec 6 := 0#6
  interValid : Bool := false
  intPc : Word := 0#32
  intSlot : Bool := false

/-- The registers with the two flip-flops beside them. -/
structure Cp0State where
  regs : Cp0Regs := {}
  double : Bool := false
  intSaved : Bool := false

def exccodeInt : BitVec 5 := 0x00#5
def exccodeTlbl : BitVec 5 := 0x02#5
def exccodeTlbs : BitVec 5 := 0x03#5
def exccodeAdel : BitVec 5 := 0x04#5
def exccodeAdes : BitVec 5 := 0x05#5
def exccodeSys : BitVec 5 := 0x08#5
def exccodeBp : BitVec 5 := 0x09#5
def exccodeRi : BitVec 5 := 0x0a#5
def exccodeCpu : BitVec 5 := 0x0b#5
def exccodeOv : BitVec 5 := 0x0c#5
def exccodeTr : BitVec 5 := 0x0d#5

/-- `interrupt`: enabled, not in an exception, and some unmasked line is up. -/
def Cp0Regs.interrupt (r : Cp0Regs) (extInt : BitVec 6) : Bool :=
  r.status.ie && !r.status.exl &&
    ((extInt ++ 0#2) ||| r.cause.ip ||| (bit r.cause.ti ++ 0#7)) &&& r.status.im != 0#8

/-- `code`. A pending interrupt is named before any exception. -/
def excCode (interrupt : Bool) (i : Cp0Input) : BitVec 5 :=
  if interrupt then exccodeInt
  else if i.etype.badVaddrF then exccodeAdel
  else if i.etype.reserveInstr then exccodeRi
  else if i.iTlbExc.refill || i.iTlbExc.invalid then exccodeTlbl
  else if i.etype.overflow then exccodeOv
  else if i.etype.bp then exccodeBp
  else if i.etype.syscall then exccodeSys
  else if i.dTlbExc.refill || i.dTlbExc.invalid || i.dTlbExc.modified then
    if i.dTlbExc.modified || i.dWrite then exccodeTlbs else exccodeTlbl
  else if i.etype.adelD then exccodeAdel
  else if i.etype.adesD then exccodeAdes
  else if i.etype.cpU then exccodeCpu
  else if i.etype.trap then exccodeTr
  else 0#5

/-- `EPC` and `BD` when an instruction is abandoned at `pc`; they are kept while `EXL`
is set. -/
def Cp0Regs.recordPc (r : Cp0Regs) (pc : Word) (isSlot : Bool) : Cp0Regs :=
  if r.status.exl then r
  else { r with
    epc := if isSlot then pc - 4#32 else pc
    cause := { r.cause with bd := isSlot } }

def Cp0Regs.setExl (r : Cp0Regs) (b : Bool) : Cp0Regs :=
  { r with status := { r.status with exl := b } }

def Cp0Regs.setCode (r : Cp0Regs) (code : BitVec 5) : Cp0Regs :=
  { r with cause := { r.cause with excCode := code } }

/-- `entry_hi.vpn2=vaddr[31:13]`. -/
def writeVpn2 (entryHi vaddr : Word) : Word :=
  Lanes.maskedWrite 0xffffe000#32 entryHi vaddr

/-- The exception branch of `regs_nxt`. -/
def Cp0Regs.takeException (r : Cp0Regs) (code : BitVec 5) (i : Cp0Input) : Cp0Regs :=
  let badVaddr :=
    if (code == exccodeAdel && i.etype.badVaddrF) || (code == exccodeTlbl && i.iTlbExc.any)
    then i.pc
    else if (code == exccodeAdel && i.etype.adelD) || code == exccodeAdes ||
      code == exccodeTlbs || (code == exccodeTlbl && i.dTlbExc.any) then i.vaddr
    else r.badVaddr
  let entryHi :=
    if i.iTlbExc.refill || i.iTlbExc.invalid then writeVpn2 r.entryHi i.pc
    else if i.dTlbExc.any then writeVpn2 r.entryHi i.vaddr
    else r.entryHi
  (({ r with badVaddr, entryHi }.setCode code).recordPc i.pc i.isSlot).setExl true

/-- The interrupt branch. -/
def Cp0Regs.takeInterrupt (r : Cp0Regs) (i : Cp0Input) : Cp0Regs :=
  ((r.setCode exccodeInt).recordPc i.intPc i.intSlot).setExl true

/-- The register writes of `MTC0` with selection 0, by register number. -/
def Cp0Regs.writeSel0 (r : Cp0Regs) (n : BitVec 5) (wd : Word) : Cp0Regs :=
  match n with
  | 0#5 => { r with index := wd }
  | 2#5 => { r with entryLo0 := Lanes.maskedWrite 0x3fffffff#32 r.entryLo0 wd }
  | 3#5 => { r with entryLo1 := Lanes.maskedWrite 0x3fffffff#32 r.entryLo1 wd }
  | 4#5 => { r with context := Lanes.maskedWrite 0xff800000#32 r.context wd }
  | 5#5 => { r with pageMask := wd }
  | 6#5 => { r with wired := wd }
  | 9#5 => { r with count := wd }
  | 10#5 => { r with entryHi := Lanes.maskedWrite 0xffffe0ff#32 r.entryHi wd }
  | 11#5 => { r with compare := wd }
  | 12#5 =>
    { r with
      status :=
        { cu0 := wd.getLsbD 28, bev := wd.getLsbD 22, im := wd.extractLsb' 8 8,
          um := wd.getLsbD 4, erl := wd.getLsbD 2, exl := wd.getLsbD 1, ie := wd.getLsbD 0 } }
  | 13#5 =>
    { r with
      cause := { r.cause with
        iv := wd.getLsbD 23, ip := Lanes.maskedWrite 0x03#8 r.cause.ip (wd.extractLsb' 8 8) } }
  | 14#5 => { r with epc := wd }
  | 16#5 => { r with config0 := Lanes.maskedWrite 0x7#32 r.config0 wd }
  | 28#5 => { r with tagLo := wd }
  | 30#5 => { r with errorEpc := wd }
  | _ => r

/-- `MTC0`. -/
def Cp0Regs.write (r : Cp0Regs) (wa : BitVec 8) (wd : Word) : Cp0Regs :=
  if wa.extractLsb' 0 3 == 0#3 then r.writeSel0 (wa.extractLsb' 3 5) wd
  else if wa == 15#5 ++ 1#3 then { r with ebase := wd.extractLsb' 12 18 }
  else r

/-- The result of a TLB instruction. -/
def Cp0Regs.tlbResult (r : Cp0Regs) (t : TlbType) (resp : MmuResp) : Cp0Regs :=
  match t with
  | .tlbp => { r with index := resp.index }
  | .tlbr => { r with
      entryHi := resp.entryHi, entryLo0 := resp.entryLo0, entryLo1 := resp.entryLo1 }
  | _ => r

/-- `rd`: what `MFC0` reads. -/
def Cp0Regs.read (r : Cp0Regs) (ra : BitVec 8) : Word :=
  if ra.extractLsb' 0 3 == 0#3 then
    match ra.extractLsb' 3 5 with
    | 0#5 => r.index
    | 1#5 => r.random
    | 2#5 => r.entryLo0
    | 3#5 => r.entryLo1
    | 4#5 => r.context
    | 5#5 => r.pageMask
    | 6#5 => r.wired
    | 8#5 => r.badVaddr
    | 9#5 => r.count
    | 10#5 => r.entryHi
    | 11#5 => r.compare
    | 12#5 => r.status.toWord
    | 13#5 => r.cause.toWord
    | 14#5 => r.epc
    | 15#5 => 0x00004220#32
    | 16#5 => (0x8000048#28 ++ 0#1 ++ r.config0.extractLsb' 0 3 : BitVec 32)
    | 30#5 => r.errorEpc
    | _ => 0#32
  else if ra.extractLsb' 0 3 == 1#3 then
    match ra.extractLsb' 3 5 with
    | 15#5 => (0b10#2 ++ r.ebase ++ 0#12 : BitVec 32)
    | 16#5 => 0x20291480#32
    | _ => 0#32
  else 0#32

namespace Cp0State

variable (s : Cp0State) (i : Cp0Input)

def interrupt : Bool := s.regs.interrupt i.extInt

/-- `is_int`. -/
def isInt : Bool := s.interrupt i || s.intSaved

/-- The interrupt branch is taken. -/
def takesInterrupt : Bool := s.isInt i && i.interValid

/-- `is_INTEXC`. -/
def isIntExc : Bool := i.ctype == .exception || s.takesInterrupt i

/-- The counter moves every second cycle, unless its number is on the write port. The
source sets `cause.ti` in front of `regs_nxt = regs`, which undoes it. -/
def counted : Cp0Regs :=
  if s.double && i.wa.extractLsb' 3 5 != 9#5 then
    { s.regs with count := s.regs.count + 1#32 }
  else s.regs

/-- `regs_nxt` before the `ERET`. -/
def regsTaken : Cp0Regs :=
  if s.takesInterrupt i then (s.counted i).takeInterrupt i
  else if i.ctype == .exception then
    (s.counted i).takeException (excCode (s.interrupt i) i) i
  else if i.valid then (s.counted i).write i.wa i.wd
  else (s.counted i).tlbResult i.tlbType i.mmuResp

/-- `regs_nxt`. -/
def regsNxt : Cp0Regs :=
  if i.isEret then (s.regsTaken i).setExl false else s.regsTaken i

/-- A clock edge of `cp0.sv`. -/
def step : Cp0State where
  regs := s.regsNxt i
  double := !s.double
  intSaved :=
    if s.interrupt i && !i.interValid then true
    else if i.interValid then false else s.intSaved

/-- `entrance`: where the fetch goes when an exception or an interrupt is taken. -/
def entrance : Word :=
  0xbfc00200#32 +
    if s.isInt i && s.regs.cause.iv then 0x200#32
    else if (i.iTlbExc.refill || i.dTlbExc.refill) && !s.regs.status.exl then 0#32
    else 0x180#32

@[simp] theorem counted_status : (s.counted i).status = s.regs.status := by
  unfold counted
  split <;> rfl

@[simp] theorem counted_cause : (s.counted i).cause = s.regs.cause := by
  unfold counted
  split <;> rfl

@[simp] theorem counted_epc : (s.counted i).epc = s.regs.epc := by
  unfold counted
  split <;> rfl

end Cp0State

namespace Cp0Regs

variable (r : Cp0Regs) (pc : Word) (isSlot : Bool)

@[simp] theorem recordPc_status : (r.recordPc pc isSlot).status = r.status := by
  unfold recordPc
  split <;> rfl

@[simp] theorem recordPc_badVaddr : (r.recordPc pc isSlot).badVaddr = r.badVaddr := by
  unfold recordPc
  split <;> rfl

@[simp] theorem recordPc_excCode :
    (r.recordPc pc isSlot).cause.excCode = r.cause.excCode := by
  unfold recordPc
  split <;> rfl

@[simp] theorem setExl_exl (b : Bool) : (r.setExl b).status.exl = b := rfl

@[simp] theorem takeException_excCode (code : BitVec 5) (i : Cp0Input) :
    (r.takeException code i).cause.excCode = code := by
  simp [takeException, setExl, setCode]

@[simp] theorem takeException_exl (code : BitVec 5) (i : Cp0Input) :
    (r.takeException code i).status.exl = true := rfl

@[simp] theorem takeInterrupt_excCode (i : Cp0Input) :
    (r.takeInterrupt i).cause.excCode = exccodeInt := by
  simp [takeInterrupt, setExl, setCode]

end Cp0Regs

end FrailCPU
