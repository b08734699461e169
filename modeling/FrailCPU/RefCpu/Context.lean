import FrailCPU.RefCpu.Cp0
import FrailCPU.Core.Commit
import FrailCPU.Decode.Decoder

/-!
# The context of the reference CPU

`refcpu/context.svh`: one record holds everything the CPU knows, and every state of the
control is a function of this record. What a state hands to the next one is in `args`, a
packed union whose members share their low bits: the address a branch goes to overlaps the
record of an exception.
-/

namespace FrailCPU.RefCpu

open Instr

/-- `cpu_state_t`. -/
inductive CpuState
  | unknown | commit | fetch | fetchAddrSent | decode | branchEval | branch | arithmetic | rtype
  | exception | addrCheck | load | loadAddrSent | loaded | store | storeAddrSent | cop0Decode
  | cop0Access | exceptionReturn
  deriving DecidableEq, Repr

/-- `args_t`, the packed union: `branch.new_pc` in the bits 31 to 0, `exception` in the bits 37
to 0 and `mem` in all of them. -/
abbrev Args := BitVec 71

namespace Args

variable (a : Args)

/-- `branch.new_pc`. -/
def newPc : Word := a.extractLsb' 0 32

def setNewPc (v : Word) : Args := (a.extractLsb' 32 39 ++ v : BitVec 71)

/-- `exception.code`. -/
def code : BitVec 5 := a.extractLsb' 33 5

def setCode (c : BitVec 5) : Args := (a.extractLsb' 38 33 ++ c ++ a.extractLsb' 0 33 : BitVec 71)

/-- `exception.bad_vaddr`. -/
def badVAddr : Word := a.extractLsb' 1 32

def setBadVAddr (v : Word) : Args :=
  (a.extractLsb' 33 38 ++ v ++ a.extractLsb' 0 1 : BitVec 71)

/-- `exception.delayed`. -/
def delayed : Bool := a.getLsbD 0

def setDelayed (b : Bool) : Args := (a.extractLsb' 1 70 ++ bit b : BitVec 71)

/-- `mem.addr`. -/
def addr : Word := a.extractLsb' 39 32

/-- `mem.size`, of the type `msize_t`. -/
def size : MSize :=
  match a.extractLsb' 36 3 with
  | 0#3 => .size1
  | 1#3 => .size2
  | _ => .size4

/-- `mem.strobe`. -/
def strobe : Strobe := a.extractLsb' 32 4

/-- `mem.data`. -/
def data : Word := a.extractLsb' 0 32

def setData (v : Word) : Args := (a.extractLsb' 32 39 ++ v : BitVec 71)

def sizeBits (s : MSize) : BitVec 3 :=
  match s with
  | .size1 => 0#3
  | .size2 => 1#3
  | .size4 => 2#3

/-- The whole of `mem`. -/
def mem (addr : Word) (size : MSize) (strobe : Strobe) (data : Word) : Args :=
  (addr ++ sizeBits size ++ strobe ++ data : BitVec 71)

section Lemmas

variable {a}

@[simp] theorem newPc_setNewPc (v : Word) : (a.setNewPc v).newPc = v := by
  apply BitVec.eq_of_getLsbD_eq
  intro i hi
  simp only [newPc, setNewPc, BitVec.getLsbD_extractLsb', BitVec.getLsbD_append]
  grind

@[simp] theorem data_setData (v : Word) : (a.setData v).data = v := newPc_setNewPc v

@[simp] theorem addr_setData (v : Word) : (a.setData v).addr = a.addr := by
  apply BitVec.eq_of_getLsbD_eq
  intro i hi
  simp only [addr, setData, BitVec.getLsbD_extractLsb', BitVec.getLsbD_append]
  grind

@[simp] theorem size_setData (v : Word) : (a.setData v).size = a.size := by
  have h : (a.setData v).extractLsb' 36 3 = a.extractLsb' 36 3 := by
    apply BitVec.eq_of_getLsbD_eq
    intro i hi
    simp only [setData, BitVec.getLsbD_extractLsb', BitVec.getLsbD_append]
    grind
  rw [size, h, ← size]

@[simp] theorem addr_mem (x : Word) (s : MSize) (t : Strobe) (v : Word) :
    (mem x s t v).addr = x := by
  apply BitVec.eq_of_getLsbD_eq
  intro i hi
  simp only [addr, mem, BitVec.getLsbD_extractLsb', BitVec.getLsbD_append]
  grind

@[simp] theorem strobe_mem (x : Word) (s : MSize) (t : Strobe) (v : Word) :
    (mem x s t v).strobe = t := by
  apply BitVec.eq_of_getLsbD_eq
  intro i hi
  simp only [strobe, mem, BitVec.getLsbD_extractLsb', BitVec.getLsbD_append]
  grind

@[simp] theorem data_mem (x : Word) (s : MSize) (t : Strobe) (v : Word) :
    (mem x s t v).data = v := by
  apply BitVec.eq_of_getLsbD_eq
  intro i hi
  simp only [data, mem, BitVec.getLsbD_extractLsb', BitVec.getLsbD_append]
  grind

@[simp] theorem size_mem (x : Word) (s : MSize) (t : Strobe) (v : Word) :
    (mem x s t v).size = s := by
  have h : (mem x s t v).extractLsb' 36 3 = sizeBits s := by
    apply BitVec.eq_of_getLsbD_eq
    intro i hi
    simp only [mem, BitVec.getLsbD_extractLsb', BitVec.getLsbD_append]
    grind
  rw [size, h]
  cases s <;> rfl

/-- The record of an exception, written in the order of the source. -/
@[simp] theorem code_setCode (c : BitVec 5) (b : Bool) :
    ((a.setCode c).setDelayed b).code = c := by
  apply BitVec.eq_of_getLsbD_eq
  intro i hi
  simp only [code, setCode, setDelayed, BitVec.getLsbD_extractLsb', BitVec.getLsbD_append]
  grind

@[simp] theorem delayed_setDelayed (b : Bool) : (a.setDelayed b).delayed = b := by
  simp only [delayed, setDelayed, BitVec.getLsbD_append, bit]
  simp

@[simp] theorem badVAddr_setCode (c : BitVec 5) (b : Bool) (v : Word) :
    (((a.setBadVAddr v).setCode c).setDelayed b).badVAddr = v := by
  apply BitVec.eq_of_getLsbD_eq
  intro i hi
  simp only [badVAddr, setBadVAddr, setCode, setDelayed, BitVec.getLsbD_extractLsb',
    BitVec.getLsbD_append]
  grind

/-- The address of a branch lies over the record of an exception. -/
theorem delayed_setNewPc (v : Word) : (a.setNewPc v).delayed = v.getLsbD 0 := by
  simp only [delayed, setNewPc, BitVec.getLsbD_append]
  simp

theorem code_setNewPc (v : Word) : (a.setNewPc v).code = a.code := by
  apply BitVec.eq_of_getLsbD_eq
  intro i hi
  simp only [code, setNewPc, BitVec.getLsbD_extractLsb', BitVec.getLsbD_append]
  grind

end Lemmas

end Args

/-- `ibus_resp_t` and `dbus_resp_t`, with the word of `data` that this CPU reads. -/
structure BusResp where
  addrOk : Bool := false
  dataOk : Bool := false
  data : Word := 0#32
  deriving DecidableEq, Repr

/-- `MEM_WAIT`. -/
def memWait (resp : BusResp) (self step1 step2 : CpuState) : CpuState :=
  if resp.addrOk && resp.dataOk then step2
  else if resp.addrOk then step1
  else self

/-- `context_t`. -/
structure Context where
  state : CpuState := .fetch
  args : Args := 0#71
  cp0 : Cp0 := Cp0.reset
  pc : Word := 0xbfc00000#32
  delayed : Bool := false
  delayedPc : Word := 0#32
  targetId : CregAddr := 0#5
  instr : Word := 0#32
  hi : Word := 0#32
  lo : Word := 0#32
  r : RegFile := fun _ => 0#32

namespace Context

variable (ctx out : Context)

/-- `THROW`: `out` goes to the exception state; `ctx` tells whether it stands in a delay slot. -/
def throw (ecode : BitVec 5) : Context :=
  { out with
    state := .exception
    args := (out.args.setCode ecode).setDelayed ctx.delayed
    targetId := 0#5
    delayed := false }

/-- `ADDR_ERROR`. -/
def addrError (ecode : BitVec 5) (vaddr : Word) : Context :=
  throw ctx { out with args := out.args.setBadVAddr vaddr } ecode

/-- `FATAL`. -/
def fatal : Context := { out with state := .unknown }

/-- `out.r[id] = v`. -/
def setReg (id : CregAddr) (v : Word) : Context :=
  { out with r := Function.update out.r id v }

end Context

end FrailCPU.RefCpu
