import FrailCPU.Cp0.Cp0

/-!
# Coprocessor 0 of the reference CPU

`refcpu/cp0.svh`. The ten registers are words to `MFC0` and `MTC0`, and fields to the rest of
the machine; a write changes the bits of a mask only. A field that no mask and no hardware
event covers keeps its reset value for good, so it is not a field here but a constant in the
word. Beside the registers stand the three things that happen to them: the clock, the entry
into an exception and the return from one.
-/

namespace FrailCPU.RefCpu

/-- `cp0_status_t`. -/
structure Status where
  cu0 : Bool
  bev : Bool
  im : BitVec 8
  erl : Bool
  exl : Bool
  ie : Bool
  deriving DecidableEq, Repr

def Status.toWord (s : Status) : Word :=
  (0#3 ++ bit s.cu0 ++ 0#5 ++ bit s.bev ++ 0#6 ++ s.im ++ 0#5 ++ bit s.erl ++ bit s.exl ++
    bit s.ie : BitVec 32)

def Status.ofWord (w : Word) : Status where
  cu0 := w.getLsbD 28
  bev := w.getLsbD 22
  im := w.extractLsb' 8 8
  erl := w.getLsbD 2
  exl := w.getLsbD 1
  ie := w.getLsbD 0

def causeOfWord (w : Word) : Cp0Cause where
  bd := w.getLsbD 31
  ti := w.getLsbD 30
  iv := w.getLsbD 23
  ip := w.extractLsb' 8 8
  excCode := w.extractLsb' 2 5

/-- `cprid_t`. -/
inductive Cp0Id
  | badVAddr | count | compare | status | cause | epc | prid | config | config1 | errorEpc
  deriving DecidableEq, Repr

/-- `cp0_regfile_t`; `PRId` and `Config1` are constant. -/
structure Cp0 where
  errorEpc : Word
  configK0 : BitVec 3
  epc : Word
  cause : Cp0Cause
  status : Status
  compare : Word
  count : Word
  badVAddr : Word
  deriving DecidableEq, Repr

def exInt : BitVec 5 := 0#5
def exAdel : BitVec 5 := 4#5
def exAdes : BitVec 5 := 5#5
def exSys : BitVec 5 := 8#5
def exBp : BitVec 5 := 9#5
def exRi : BitVec 5 := 10#5
def exOv : BitVec 5 := 12#5

namespace Cp0

/-- `CP0_RESET`. -/
def reset : Cp0 where
  errorEpc := 0#32
  configK0 := 2#3
  epc := 0#32
  cause := {}
  status := { cu0 := true, bev := true, im := 0#8, erl := true, exl := false, ie := false }
  compare := 0#32
  count := 0#32
  badVAddr := 0#32

variable (c : Cp0)

/-- `entry`: the registers as words. -/
def entry (id : Cp0Id) : Word :=
  match id with
  | .badVAddr => c.badVAddr
  | .count => c.count
  | .compare => c.compare
  | .status => c.status.toWord
  | .cause => c.cause.toWord
  | .epc => c.epc
  | .prid => 0x19260817#32
  | .config => (bit true ++ 0#28 ++ c.configK0 : BitVec 32)
  | .config1 => 0#32
  | .errorEpc => c.errorEpc

/-- The registers after a word is stored; it has the bits of no field as they were. -/
def setEntry (id : Cp0Id) (w : Word) : Cp0 :=
  match id with
  | .badVAddr => { c with badVAddr := w }
  | .count => { c with count := w }
  | .compare => { c with compare := w }
  | .status => { c with status := .ofWord w }
  | .cause => { c with cause := causeOfWord w }
  | .epc => { c with epc := w }
  | .prid | .config1 => c
  | .config => { c with configK0 := w.extractLsb' 0 3 }
  | .errorEpc => { c with errorEpc := w }

/-- `CP0_MASK`. -/
def mask (id : Cp0Id) : Word :=
  match id with
  | .count | .compare | .epc | .errorEpc => 0xffffffff#32
  | .status => 0x1040ff07#32
  | .cause => 0x00800300#32
  | .config => 0x00000007#32
  | .badVAddr | .prid | .config1 => 0#32

/-- The masked write of `MTC0`, without its side effect. -/
def write (id : Cp0Id) (v : Word) : Cp0 :=
  c.setEntry id (c.entry id &&& ~~~mask id ||| v &&& mask id)

/-- `MTC0`: a write to `Compare` clears the timer interrupt. -/
def mtc0 (id : Cp0Id) (v : Word) : Cp0 :=
  if id = .compare then
    { c.write id v with cause := { (c.write id v).cause with ti := false } }
  else c.write id v

/-- What the clock does: the lines are sampled, `TI` is raised when `Count` reaches `Compare`,
and `Count` goes on. -/
def tick (ext : BitVec 6) : Cp0 :=
  { c with
    cause := { c.cause with
      ti := c.cause.ti || c.count + 1#32 == c.compare
      ip := (bit (ext.getLsbD 5 || c.cause.ti) ++ ext.extractLsb' 0 5 ++
        c.cause.ip.extractLsb' 0 2 : BitVec 8) }
    count := c.count + 1#32 }

/-- `has_interrupt`. -/
def hasInterrupt : Bool :=
  c.cause.ip &&& c.status.im != 0#8 && c.status.ie && !c.status.erl && !c.status.exl

/-- The registers of an exception at `pc`. `EPC` and `BD` are those of the first exception
while `EXL` stays set. -/
def enter (code : BitVec 5) (badVAddr : Word) (delayed : Bool) (pc : Word) : Cp0 :=
  { c with
    cause := { c.cause with
      bd := if c.status.exl then c.cause.bd else delayed
      excCode := code }
    epc := if c.status.exl then c.epc else if delayed then pc - 4#32 else pc
    status := { c.status with exl := true }
    badVAddr := badVAddr }

/-- The address of the handler. -/
def vector (code : BitVec 5) : Word :=
  if code = exInt then
    match c.status.bev, c.cause.iv with
    | false, false => 0x80000180#32
    | false, true => 0x80000200#32
    | true, false => 0xbfc00380#32
    | true, true => 0xbfc00400#32
  else if c.status.bev then 0xbfc00380#32 else 0x80000180#32

/-- The registers behind an `ERET`. -/
def leave : Cp0 :=
  if c.status.erl then { c with status := { c.status with erl := false } }
  else { c with status := { c.status with exl := false } }

/-- The address an `ERET` goes to. -/
def returnPc : Word := if c.status.erl then c.errorEpc else c.epc

end Cp0

/-- `regsel_t`: the register number with the selection. -/
def cp0IdOf (sel : BitVec 8) : Option Cp0Id :=
  match sel with
  | 0x40#8 => some .badVAddr
  | 0x48#8 => some .count
  | 0x58#8 => some .compare
  | 0x60#8 => some .status
  | 0x68#8 => some .cause
  | 0x70#8 => some .epc
  | 0x78#8 => some .prid
  | 0x80#8 => some .config
  | 0x81#8 => some .config1
  | 0xf0#8 => some .errorEpc
  | _ => none

section Lemmas

variable (c : Cp0) (ext : BitVec 6)

@[simp] theorem Cp0.tick_status : (c.tick ext).status = c.status := rfl

/-- The entry into an exception and the clock touch different fields. -/
theorem Cp0.enter_tick (code : BitVec 5) (bad : Word) (delayed : Bool) (pc : Word) :
    (c.tick ext).enter code bad delayed pc = (c.enter code bad delayed pc).tick ext := rfl

@[simp] theorem Cp0.vector_tick (code : BitVec 5) : (c.tick ext).vector code = c.vector code := rfl

/-- The bits of a word that are fields of `Status`. -/
theorem Status.toWord_ofWord (w : Word) : (Status.ofWord w).toWord = w &&& 0x1040ff07#32 := by
  apply BitVec.eq_of_getLsbD_eq
  intro i hi
  simp only [toWord, ofWord, BitVec.getLsbD_append, BitVec.getLsbD_and, bit]
  interval_cases i <;> simp

theorem toWord_causeOfWord (w : Word) : (causeOfWord w).toWord = w &&& 0xc080ff7c#32 := by
  apply BitVec.eq_of_getLsbD_eq
  intro i hi
  simp only [Cp0Cause.toWord, causeOfWord, BitVec.getLsbD_append, BitVec.getLsbD_and, bit]
  interval_cases i <;> simp

/-- No other bit is ever set. -/
theorem Status.toWord_and (s : Status) : s.toWord &&& 0x1040ff07#32 = s.toWord := by
  apply BitVec.eq_of_getLsbD_eq
  intro i hi
  simp only [toWord, BitVec.getLsbD_append, BitVec.getLsbD_and, bit]
  interval_cases i <;> simp

theorem causeToWord_and (s : Cp0Cause) : s.toWord &&& 0xc080ff7c#32 = s.toWord := by
  apply BitVec.eq_of_getLsbD_eq
  intro i hi
  simp only [Cp0Cause.toWord, BitVec.getLsbD_append, BitVec.getLsbD_and, bit]
  interval_cases i <;> simp

/-- A masked write stays inside the bits that the mask and the old word stay in. -/
theorem maskedWrite_and {m f old v : Word} (hm : m &&& f = m) (ho : old &&& f = old) :
    Lanes.maskedWrite m old v &&& f = Lanes.maskedWrite m old v := by
  apply BitVec.eq_of_getLsbD_eq
  intro i hi
  have hmi := congrArg (fun x : Word => x.getLsbD i) hm
  have hoi := congrArg (fun x : Word => x.getLsbD i) ho
  simp only [BitVec.getLsbD_and] at hmi hoi
  rw [BitVec.getLsbD_and, Lanes.getLsbD_maskedWrite _ _ _ _ hi]
  cases hM : m.getLsbD i with
  | true =>
    rw [hM, Bool.true_and] at hmi
    rw [if_pos rfl, hmi, Bool.and_true]
  | false => rw [if_neg Bool.false_ne_true, hoi]

theorem Cp0.write_eq (id : Cp0Id) (v : Word) :
    c.write id v = c.setEntry id (Lanes.maskedWrite (mask id) (c.entry id) v) := by
  rw [write, Lanes.maskedWrite, BitVec.or_comm, BitVec.and_comm v, BitVec.and_comm (c.entry id)]

/-- What `MFC0` reads behind a write: the field representation loses nothing. -/
theorem Cp0.entry_write (id : Cp0Id) (v : Word) :
    (c.write id v).entry id = Lanes.maskedWrite (mask id) (c.entry id) v := by
  rw [write_eq]
  cases id with
  | badVAddr | count | compare | epc | errorEpc => rfl
  | prid | config1 => simp [entry, mask]
  | status =>
    simp only [setEntry, entry, Status.toWord_ofWord]
    exact maskedWrite_and (by decide) c.status.toWord_and
  | cause =>
    simp only [setEntry, entry, toWord_causeOfWord]
    exact maskedWrite_and (by decide) (causeToWord_and c.cause)
  | config =>
    apply BitVec.eq_of_getLsbD_eq
    intro i hi
    simp only [setEntry, entry, mask]
    rw [Lanes.getLsbD_maskedWrite _ _ _ _ hi]
    simp only [BitVec.getLsbD_append]
    interval_cases i <;> simp [bit, Lanes.maskedWrite]

/-- It leaves the other registers. -/
theorem Cp0.entry_write_of_ne {id id' : Cp0Id} (h : id' ≠ id) (v : Word) :
    (c.write id v).entry id' = c.entry id' := by
  cases id <;> cases id' <;> first | rfl | exact absurd rfl h

end Lemmas

end FrailCPU.RefCpu
