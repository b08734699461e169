import FrailCPU.RefCpu.Cp0
import FrailCPU.Core.Integer
import FrailCPU.Core.Hilo

/-!
# The instruction set of the reference CPU

The machine that the reference CPU is a behavioural model of, one instruction at a time: a
program counter with the target of the branch in whose delay slot it stands, the registers,
CP0 and the bytes of the memory. Results are those of `Instruction.result`, accesses those of
`AccessKind.place`. A step is undefined where the architecture leaves it so and the CPU stops:
a branch or an `ERET` in a delay slot, a division by zero, a CP0 register that does not exist,
and an exception under `ERL`. Time is outside: a `tick` may come between any two instructions,
and interrupts are taken when somebody looks for them.
-/

namespace FrailCPU.RefCpu

open Instr ByteMemory

/-- The direct mapping of `AddressTranslator`. -/
def translate (a : Word) : Word := (0#3 ++ a.extractLsb' 0 29 : BitVec 32)

/-- The instructions under the opcode `RTYPE`. -/
def specialOf (func : BitVec 6) : Option Instruction :=
  match func with
  | 0b000000#6 => some .sll
  | 0b000010#6 => some .srl
  | 0b000011#6 => some .sra
  | 0b000110#6 => some .srlv
  | 0b000111#6 => some .srav
  | 0b000100#6 => some .sllv
  | 0b001000#6 => some .jr
  | 0b001001#6 => some .jalr
  | 0b001100#6 => some .syscall
  | 0b001101#6 => some .break
  | 0b010000#6 => some .mfhi
  | 0b010001#6 => some .mthi
  | 0b010010#6 => some .mflo
  | 0b010011#6 => some .mtlo
  | 0b011000#6 => some .mult
  | 0b011001#6 => some .multu
  | 0b011010#6 => some .div
  | 0b011011#6 => some .divu
  | 0b100000#6 => some .add
  | 0b100001#6 => some .addu
  | 0b100010#6 => some .sub
  | 0b100011#6 => some .subu
  | 0b100100#6 => some .and
  | 0b100101#6 => some .or
  | 0b100110#6 => some .xor
  | 0b100111#6 => some .nor
  | 0b101010#6 => some .slt
  | 0b101011#6 => some .sltu
  | _ => none

def regimmOf (rt : BitVec 5) : Option Instruction :=
  match rt with
  | 0b00000#5 => some .bltz
  | 0b00001#5 => some .bgez
  | 0b10000#5 => some .bltzal
  | 0b10001#5 => some .bgezal
  | _ => none

/-- The instructions under the opcode `COP0`; with the bit `co` set only the function tells. -/
def cop0Of (w : Word) : Option Instruction :=
  if w.getLsbD 25 then (if func w = 0b011000#6 then some .eret else none)
  else if rs w = 0b00000#5 then some .mfc0
  else if rs w = 0b00100#5 then some .mtc0
  else none

/-- The instruction of a word; the other words are reserved. -/
def instrOf (w : Word) : Option Instruction :=
  match op w with
  | 0b000000#6 => specialOf (func w)
  | 0b000001#6 => regimmOf (rt w)
  | 0b000010#6 => some .j
  | 0b000011#6 => some .jal
  | 0b000100#6 => some .beq
  | 0b000101#6 => some .bne
  | 0b000110#6 => some .blez
  | 0b000111#6 => some .bgtz
  | 0b001000#6 => some .addi
  | 0b001001#6 => some .addiu
  | 0b001010#6 => some .slti
  | 0b001011#6 => some .sltiu
  | 0b001100#6 => some .andi
  | 0b001101#6 => some .ori
  | 0b001110#6 => some .xori
  | 0b001111#6 => some .lui
  | 0b010000#6 => cop0Of w
  | 0b100000#6 => some .lb
  | 0b100001#6 => some .lh
  | 0b100011#6 => some .lw
  | 0b100100#6 => some .lbu
  | 0b100101#6 => some .lhu
  | 0b101000#6 => some .sb
  | 0b101001#6 => some .sh
  | 0b101011#6 => some .sw
  | _ => none

/-- The word has the fields of the instruction; those of an `ERET` that are reserved as zeros are
not looked at. -/
def Encodes (i : Instruction) (w : Word) : Prop :=
  match i with
  | .eret => op w = 0b010000#6 ∧ w.getLsbD 25 = true ∧ func w = 0b011000#6
  | _ => i.Encodes w

theorem specialOf_encodes {f : BitVec 6} {i : Instruction} (h : specialOf f = some i) :
    i.encoding = .special f ∧ i ≠ .eret := by
  unfold specialOf at h
  split at h <;> cases h <;> exact ⟨rfl, nofun⟩

theorem regimmOf_encodes {t : BitVec 5} {i : Instruction} (h : regimmOf t = some i) :
    i.encoding = .regimm t ∧ i ≠ .eret := by
  unfold regimmOf at h
  split at h <;> cases h <;> exact ⟨rfl, nofun⟩

theorem encodes_of_ne {i : Instruction} {w : Word} (hi : i ≠ .eret) (h : i.Encodes w) :
    Encodes i w := by
  cases i <;> first | exact h | exact absurd rfl hi

/-- The table names the instruction whose fields the word has. -/
theorem encodes_of_instrOf {w : Word} {i : Instruction} (h : instrOf w = some i) :
    Encodes i w := by
  unfold instrOf at h
  split at h
  case h_1 ho =>
    obtain ⟨he, hn⟩ := specialOf_encodes h
    refine encodes_of_ne hn ?_
    rw [Instruction.Encodes, he]
    exact ⟨ho, rfl⟩
  case h_2 ho =>
    obtain ⟨he, hn⟩ := regimmOf_encodes h
    refine encodes_of_ne hn ?_
    rw [Instruction.Encodes, he]
    exact ⟨ho, rfl⟩
  case h_17 ho =>
    unfold cop0Of at h
    split at h
    case isTrue hc =>
      split at h
      case isTrue hf =>
        cases h
        exact ⟨ho, hc, hf⟩
      case isFalse => cases h
    case isFalse =>
      split at h
      case isTrue hr =>
        cases h
        exact ⟨ho, hr⟩
      case isFalse =>
        split at h
        case isTrue hr =>
          cases h
          exact ⟨ho, hr⟩
        case isFalse => cases h
  case h_26 => cases h
  all_goals
    cases h
    assumption

/-- The state between two instructions. In a delay slot `slot` is where the branch goes. -/
structure Arch where
  pc : Word
  slot : Option Word
  r : RegFile
  hi : Word
  lo : Word
  cp0 : Cp0
  mem : Memory

instance (n : ℤ) : Decidable (FitsSigned n) := inferInstanceAs (Decidable (_ ∧ _))

instance (i : Instruction) (w s t : Word) : Decidable (i.Overflows w s t) := by
  unfold Instruction.Overflows
  split <;> infer_instance

/-- How the loads access the memory, and whether they extend without the sign. -/
def loadKind (op : BitVec 6) : Option (AccessKind × Bool) :=
  match op with
  | 0b100000#6 => some (.byte, false)
  | 0b100001#6 => some (.half, false)
  | 0b100011#6 => some (.word, false)
  | 0b100100#6 => some (.byte, true)
  | 0b100101#6 => some (.half, true)
  | _ => none

def storeKind (op : BitVec 6) : Option AccessKind :=
  match op with
  | 0b101000#6 => some .byte
  | 0b101001#6 => some .half
  | 0b101011#6 => some .word
  | _ => none

/-- The condition of a branch. -/
def Taken (i : Instruction) (s t : Word) : Prop :=
  match i with
  | .beq => s = t
  | .bne => s ≠ t
  | .blez => s.toInt ≤ 0
  | .bgtz => 0 < s.toInt
  | .bltz | .bltzal => s.toInt < 0
  | .bgez | .bgezal => 0 ≤ s.toInt
  | _ => False

instance (i : Instruction) (s t : Word) : Decidable (Taken i s t) := by
  unfold Taken
  split <;> infer_instance

/-- The distance of a branch is counted in words, from the delay slot. -/
def branchTarget (w pc : Word) : Word := pc + 4#32 + BitVec.ofInt 32 (4 * (imm w).toInt)

/-- A jump stays in the region of its delay slot. -/
def jumpTarget (w pc : Word) : Word :=
  ((pc + 4#32).extractLsb' 28 4 ++ w.extractLsb' 0 26 ++ 0#2 : BitVec 32)

namespace Arch

variable (a : Arch)

/-- Register 0 is not written. -/
def setReg (id : CregAddr) (v : Word) : Arch :=
  if id = 0#5 then a else { a with r := Function.update a.r id v }

def setHilo (v : BitVec 64) : Arch := { a with hi := v.extractLsb' 32 32, lo := v.extractLsb' 0 32 }

/-- The end of an instruction. -/
def advance : Arch :=
  match a.slot with
  | some target => { a with pc := target, slot := none }
  | none => { a with pc := a.pc + 4#32 }

/-- An exception of the instruction at `pc`. -/
def enter (code : BitVec 5) (badVAddr : Word) : Option Arch :=
  if a.cp0.status.erl then none
  else some { a with
    cp0 := a.cp0.enter code badVAddr a.slot.isSome a.pc
    pc := a.cp0.vector code
    slot := none }

/-- A branch: its delay slot is next. -/
def jump (target : Word) : Option Arch :=
  if a.slot.isSome then none else some { a with pc := a.pc + 4#32, slot := some target }

/-- The link of an instruction that has one. -/
def link (i : Instruction) (w : Word) : Arch :=
  if i.links then a.setReg (i.dest w) (a.pc + 8#32) else a

/-- The word at `pc`. -/
def fetched : Word := ByteMemory.word a.mem (translate a.pc)

/-- The address of an access. -/
def address (w : Word) : Word := a.r (rs w) + (imm w).signExtend 32

def load (k : AccessKind) (isUnsigned : Bool) (w : Word) : Option Arch :=
  if k.Misaligned (a.address w) then a.enter exAdel (a.address w)
  else
    let p := translate (a.address w)
    some (a.setReg (rt w) (get (k.place p) a.mem (k.filling isUnsigned a.mem p 0#32))).advance

def store (k : AccessKind) (w : Word) : Option Arch :=
  if k.Misaligned (a.address w) then a.enter exAdes (a.address w)
  else
    some { a with mem := put (k.place (translate (a.address w))) (a.r (rt w)) a.mem }.advance

/-- `MULT` and `DIV` with the signedness; a division by zero is undefined. -/
def divide (signed : Bool) (s t : Word) : Option Arch :=
  if t = 0#32 then none else some (a.setHilo (divOf signed ⟨s, t⟩)).advance

def readCp0 (w : Word) : Option Arch :=
  (cp0IdOf (rd w ++ sel w)).map fun id => (a.setReg (rt w) (a.cp0.entry id)).advance

def writeCp0 (w : Word) : Option Arch :=
  (cp0IdOf (rd w ++ sel w)).map fun id =>
    { a with cp0 := a.cp0.mtc0 id (a.r (rt w)) }.advance

def eret : Option Arch :=
  if a.slot.isSome then none else some { a with pc := a.cp0.returnPc, cp0 := a.cp0.leave }

/-- The effect of an instruction. What an exception that is about no address leaves in
`BadVAddr` is up to the implementation: `junk`. -/
def execute (i : Instruction) (w junk : Word) : Option Arch :=
  let s := a.r (rs w)
  let t := a.r (rt w)
  match i with
  | .beq | .bne | .blez | .bgtz | .bltz | .bltzal | .bgez | .bgezal =>
    (a.link i w).jump (if Taken i s t then branchTarget w a.pc else a.pc + 8#32)
  | .j | .jal => (a.link i w).jump (jumpTarget w a.pc)
  | .jr | .jalr => (a.link i w).jump s
  | .lb => a.load .byte false w
  | .lbu => a.load .byte true w
  | .lh => a.load .half false w
  | .lhu => a.load .half true w
  | .lw => a.load .word false w
  | .sb => a.store .byte w
  | .sh => a.store .half w
  | .sw => a.store .word w
  | .mult => some (a.setHilo (mulOf true ⟨s, t⟩)).advance
  | .multu => some (a.setHilo (mulOf false ⟨s, t⟩)).advance
  | .div => a.divide true s t
  | .divu => a.divide false s t
  | .mfhi => some (a.setReg (rd w) a.hi).advance
  | .mflo => some (a.setReg (rd w) a.lo).advance
  | .mthi => some { a with hi := s }.advance
  | .mtlo => some { a with lo := s }.advance
  | .syscall => a.enter exSys junk
  | .break => a.enter exBp junk
  | .eret => a.eret
  | .mfc0 => a.readCp0 w
  | .mtc0 => a.writeCp0 w
  | _ =>
    if i.Overflows w s t then a.enter exOv junk
    else some (a.setReg (i.dest w) (i.result w a.pc s t)).advance

/-- The loads, by their opcode. -/
theorem execute_load {w : Word} {k : AccessKind} {isUnsigned : Bool}
    (h : loadKind (op w) = some (k, isUnsigned)) :
    ∃ i, instrOf w = some i ∧ ∀ junk, a.execute i w junk = a.load k isUnsigned w := by
  unfold loadKind at h
  split at h
  case h_6 => cases h
  all_goals
    rename_i ho
    cases h
    simp only [instrOf, ho]
    exact ⟨_, rfl, fun _ => rfl⟩

theorem execute_store {w : Word} {k : AccessKind} (h : storeKind (op w) = some k) :
    ∃ i, instrOf w = some i ∧ ∀ junk, a.execute i w junk = a.store k w := by
  unfold storeKind at h
  split at h
  case h_4 => cases h
  all_goals
    rename_i ho
    cases h
    simp only [instrOf, ho]
    exact ⟨_, rfl, fun _ => rfl⟩

/-- The instruction at `pc`. -/
def instr (junk : Word) : Option Arch :=
  if a.pc.toNat % 4 ≠ 0 then a.enter exAdel a.pc
  else
    match instrOf a.fetched with
    | none => a.enter exRi junk
    | some i => a.execute i a.fetched junk

end Arch

/-- What happens to the machine. -/
inductive Event
  /-- an instruction, and what it leaves in `BadVAddr` if it is to -/
  | instr (junk : Word)
  /-- a look for interrupts -/
  | poll
  /-- a clock edge, with the interrupt lines -/
  | tick (ext : BitVec 6)
  deriving DecidableEq, Repr

def isaStep (a : Arch) (e : Event) : Option Arch :=
  match e with
  | .instr junk => a.instr junk
  | .poll => if a.cp0.hasInterrupt then a.enter exInt 0#32 else some a
  | .tick ext => some { a with cp0 := a.cp0.tick ext }

/-- The state at reset. -/
def Arch.reset (mem : Memory) : Arch where
  pc := 0xbfc00000#32
  slot := none
  r := fun _ => 0#32
  hi := 0#32
  lo := 0#32
  cp0 := .reset
  mem := mem

end FrailCPU.RefCpu
