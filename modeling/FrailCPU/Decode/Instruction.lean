import FrailCPU.Decode.Decoder

/-!
# The instruction set of the decoder

The instructions that `decode.svh` names, each with its encoding and with what the pipeline
has to be told about it: the registers it reads and writes, its control record, its effect on
the exception record and its cache operation. The control records are put together by what
an instruction is (an operation of the arithmetic unit, a load, a branch), and not row by row
from the tables of the decoder.
-/

namespace FrailCPU

open Instr

/-- The instructions, under the names of the encodings. -/
inductive Instruction
  | addi | addiu | slti | sltiu | andi | lui | ori | xori
  | beq | beql | bne | bgez | bltz | bgezal | bltzal | bgtz | blez | j | jal
  | lb | lbu | lh | lhu | lw | ll | sb | sh | sw | sc | lwl | lwr | swl | swr
  | iIndexInvalid | iIndexStoreTag | iHitInvalid
  | dIndexWritebackInvalid | dIndexStoreTag | dHitInvalid | dHitWritebackInvalid
  | eret | tlbp | tlbr | tlbwi | tlbwr | wait | mfc0 | mtc0
  | add | addu | sub | subu | slt | sltu | div | divu | mult | multu
  | and | nor | or | xor | sllv | sll | srav | sra | srlv | srl | jr | jalr
  | mfhi | mflo | mthi | mtlo | break | syscall | movz | movn | sync | tne
  | cf1 | ct1 | mt1 | ldc1 | sdc1
  | madd | maddu | msub | mul | pref
  deriving DecidableEq, Repr

/-- The fields that tell an instruction from the others. -/
inductive Encoding
  | major (op : BitVec 6)
  | regimm (rt : BitVec 5)
  | cache (rt : BitVec 5)
  | cop0 (rs : BitVec 5)
  | cop0Func (func : BitVec 6)
  | special (func : BitVec 6)
  | cop1 (rs : BitVec 5)
  | special2 (func : BitVec 6)
  deriving DecidableEq, Repr

/-- The fields of the word are those of the encoding. -/
def Encoding.Matches (w : Word) : Encoding → Prop
  | major o => op w = o
  | regimm t => op w = 0b000001#6 ∧ rt w = t
  | cache t => op w = 0b101111#6 ∧ rt w = t
  | cop0 s => op w = 0b010000#6 ∧ rs w = s
  | cop0Func f => op w = 0b010000#6 ∧ rs w = 0b10000#5 ∧ func w = f
  | special f => op w = 0b000000#6 ∧ func w = f
  | cop1 s => op w = 0b010001#6 ∧ rs w = s
  | special2 f => op w = 0b011100#6 ∧ func w = f

instance (w : Word) (e : Encoding) : Decidable (e.Matches w) := by
  unfold Encoding.Matches
  split <;> infer_instance

namespace Instruction

variable (i : Instruction)

def encoding : Encoding :=
  match i with
  | addi => .major 0b001000#6
  | addiu => .major 0b001001#6
  | slti => .major 0b001010#6
  | sltiu => .major 0b001011#6
  | andi => .major 0b001100#6
  | lui => .major 0b001111#6
  | ori => .major 0b001101#6
  | xori => .major 0b001110#6
  | beq => .major 0b000100#6
  | beql => .major 0b010100#6
  | bne => .major 0b000101#6
  | bgez => .regimm 0b00001#5
  | bltz => .regimm 0b00000#5
  | bgezal => .regimm 0b10001#5
  | bltzal => .regimm 0b10000#5
  | bgtz => .major 0b000111#6
  | blez => .major 0b000110#6
  | j => .major 0b000010#6
  | jal => .major 0b000011#6
  | lb => .major 0b100000#6
  | lbu => .major 0b100100#6
  | lh => .major 0b100001#6
  | lhu => .major 0b100101#6
  | lw => .major 0b100011#6
  | ll => .major 0b110000#6
  | sb => .major 0b101000#6
  | sh => .major 0b101001#6
  | sw => .major 0b101011#6
  | sc => .major 0b111000#6
  | lwl => .major 0b100010#6
  | lwr => .major 0b100110#6
  | swl => .major 0b101010#6
  | swr => .major 0b101110#6
  | iIndexInvalid => .cache 0b00000#5
  | iIndexStoreTag => .cache 0b01000#5
  | iHitInvalid => .cache 0b10000#5
  | dIndexWritebackInvalid => .cache 0b00001#5
  | dIndexStoreTag => .cache 0b01001#5
  | dHitInvalid => .cache 0b10001#5
  | dHitWritebackInvalid => .cache 0b10101#5
  | eret => .cop0Func 0b011000#6
  | tlbp => .cop0Func 0b001000#6
  | tlbr => .cop0Func 0b000001#6
  | tlbwi => .cop0Func 0b000010#6
  | tlbwr => .cop0Func 0b000110#6
  | wait => .cop0Func 0b100000#6
  | mfc0 => .cop0 0b00000#5
  | mtc0 => .cop0 0b00100#5
  | add => .special 0b100000#6
  | addu => .special 0b100001#6
  | sub => .special 0b100010#6
  | subu => .special 0b100011#6
  | slt => .special 0b101010#6
  | sltu => .special 0b101011#6
  | div => .special 0b011010#6
  | divu => .special 0b011011#6
  | mult => .special 0b011000#6
  | multu => .special 0b011001#6
  | and => .special 0b100100#6
  | nor => .special 0b100111#6
  | or => .special 0b100101#6
  | xor => .special 0b100110#6
  | sllv => .special 0b000100#6
  | sll => .special 0b000000#6
  | srav => .special 0b000111#6
  | sra => .special 0b000011#6
  | srlv => .special 0b000110#6
  | srl => .special 0b000010#6
  | jr => .special 0b001000#6
  | jalr => .special 0b001001#6
  | mfhi => .special 0b010000#6
  | mflo => .special 0b010010#6
  | mthi => .special 0b010001#6
  | mtlo => .special 0b010011#6
  | .break => .special 0b001101#6
  | syscall => .special 0b001100#6
  | movz => .special 0b001010#6
  | movn => .special 0b001011#6
  | sync => .special 0b001111#6
  | tne => .special 0b110110#6
  | cf1 => .cop1 0b00010#5
  | ct1 => .cop1 0b00110#5
  | mt1 => .cop1 0b00100#5
  | ldc1 => .major 0b110101#6
  | sdc1 => .major 0b111101#6
  | madd => .special2 0b000000#6
  | maddu => .special2 0b000001#6
  | msub => .special2 0b000100#6
  | mul => .special2 0b000010#6
  | pref => .major 0b110011#6

/-- The word is one of this instruction. -/
def Encodes (w : Word) : Prop := i.encoding.Matches w

instance (w : Word) : Decidable (i.Encodes w) := inferInstanceAs (Decidable (i.encoding.Matches w))

/-- The instruction reads the register of the `rs` field. -/
def readsRs : Bool :=
  match i with
  | lui | sll | sra | srl | j | jal | mfhi | mflo | mfc0 | mtc0 | eret | tlbp | tlbr | tlbwi
  | tlbwr | wait | .break | syscall | sync | pref | cf1 | ct1 | mt1 | ldc1 | sdc1 => false
  | _ => true

/-- The instruction reads the register of the `rt` field. -/
def readsRt : Bool :=
  match i with
  | beq | beql | bne | sb | sh | sw | sc | lwl | lwr | swl | swr | mtc0
  | add | addu | sub | subu | slt | sltu | div | divu | mult | multu | and | nor | or | xor
  | sllv | sll | srav | sra | srlv | srl | movz | movn | tne
  | madd | maddu | msub | mul => true
  | _ => false

/-- The register an instruction writes, register 0 for none. -/
def dest (w : Word) : CregAddr :=
  match i with
  | addi | addiu | slti | sltiu | andi | lui | ori | xori
  | lb | lbu | lh | lhu | lw | ll | sc | lwl | lwr | mfc0 => rt w
  | add | addu | sub | subu | slt | sltu | and | nor | or | xor | sllv | sll | srav | sra
  | srlv | srl | jalr | mfhi | mflo | movz | movn | mul => rd w
  | jal | bgezal | bltzal => 31#5
  | _ => 0#5

/-- A branch, and whether it links. -/
def branchControl (o : DecodedOp) (t : BranchType) (links : Bool) : Control :=
  { op := o, branch := true, branchType := t, isLink := links }

/-- A load; the address is a sum with the immediate. -/
def loadControl (o : DecodedOp) (size : MSize) (sext : Bool) (kind : MisalignMem) : Control :=
  { op := o, memtoreg := true, alusrc := .imm, msize := size, memsext := sext, memtype := kind }

def storeControl (o : DecodedOp) (size : MSize) (kind : MisalignMem) : Control :=
  { op := o, memwrite := true, alusrc := .imm, msize := size, memtype := kind }

/-- An operation of the arithmetic unit on two registers, or with the immediate. -/
def aluControl (o : DecodedOp) (f : AluFunc) : Control := { op := o, alufunc := f }

def immControl (o : DecodedOp) (f : AluFunc) (zeroext : Bool) : Control :=
  { op := o, alufunc := f, alusrc := .imm, zeroext }

/-- A shift by the amount in the word. -/
def shiftControl (o : DecodedOp) (f : AluFunc) : Control :=
  { op := o, alufunc := f, shamtValid := true }

/-- A use of the multiplier or of the divider for HI and LO. -/
def mulControl (o : DecodedOp) (acc : HiloOp) (signed : Bool) : Control :=
  { op := o, hiloOp := acc, hiwrite := true, lowrite := true, signedMulDiv := signed,
    mul := true }

def divControl (o : DecodedOp) (signed : Bool) : Control :=
  { op := o, hiwrite := true, lowrite := true, signedMulDiv := signed, div := true }

/-- Cache operations address their line as an access does, and issue alone. -/
def cacheIControl : Control :=
  { alusrc := .imm, alufunc := .addu, cache := true, singleIssue := true, cacheI := true }

def cacheDControl : Control :=
  { alusrc := .imm, alufunc := .addu, cache := true, singleIssue := true, cacheD := true,
    memwrite := true }

def tlbControl (t : TlbType) : Control := { tlb := true, singleIssue := true, tlbType := t }

/-- The control record of an instruction, the register write apart. -/
def control (w : Word) : Control :=
  match i with
  | addi => immControl .add .add false
  | addiu => immControl .addu .addu false
  | slti => immControl .slt .slt false
  | sltiu => immControl .sltu .sltu false
  | andi => immControl .and .and true
  | lui => immControl .lui .lui false
  | ori => immControl .or .or true
  | xori => immControl .xor .xor true
  | beq | beql => branchControl .beq .beq false
  | bne => branchControl .bne .bne false
  | bgez => branchControl .bgez .bgez false
  | bltz => branchControl .bltz .bltz false
  | bgezal => branchControl .bgezal .bgez true
  | bltzal => branchControl .bltzal .bltz true
  | bgtz => branchControl .bgtz .bgtz false
  | blez => branchControl .blez .blez false
  | j => { op := .j, jump := true }
  | jal => { op := .jal, jump := true, isLink := true }
  | lb => loadControl .lb .size1 true .noMisalign
  | lbu => loadControl .lbu .size1 false .noMisalign
  | lh => loadControl .lh .size2 true .noMisalign
  | lhu => loadControl .lhu .size2 false .noMisalign
  | lw | ll => loadControl .lw .size4 false .noMisalign
  | sb => storeControl .sb .size1 .noMisalign
  | sh => storeControl .sh .size2 .noMisalign
  | sw => storeControl .sw .size4 .noMisalign
  | sc => { storeControl .sw .size4 .noMisalign with sc := true }
  | lwl => loadControl .lw .size4 false .memL
  | lwr => loadControl .lw .size4 false .memR
  | swl => storeControl .sw .size4 .memL
  | swr => storeControl .sw .size4 .memR
  | iIndexInvalid | iIndexStoreTag | iHitInvalid => cacheIControl
  | dIndexWritebackInvalid | dIndexStoreTag | dHitInvalid | dHitWritebackInvalid =>
    cacheDControl
  | eret => { isEret := true }
  | tlbp => tlbControl .tlbp
  | tlbr => tlbControl .tlbr
  | tlbwi => tlbControl .tlbwi
  | tlbwr => tlbControl .tlbwr
  | wait => { waitSignal := true, singleIssue := true, alufunc := .passa }
  | mfc0 => { op := .mfc0, alufunc := .passa, cp0toreg := true }
  | mtc0 => { op := .mtc0, alufunc := .passb, cp0write := true }
  | add => aluControl .add .add
  | addu => aluControl .addu .addu
  | sub => aluControl .sub .sub
  | subu => aluControl .subu .subu
  | slt => aluControl .slt .slt
  | sltu => aluControl .sltu .sltu
  | div => divControl .div true
  | divu => divControl .divu false
  | mult => mulControl .mult .noHiloOp true
  | multu => mulControl .multu .noHiloOp false
  | and => aluControl .and .and
  | nor => aluControl .nor .nor
  | or => aluControl .or .or
  | xor => aluControl .xor .xor
  | sllv => aluControl .sllv .sll
  | sll => { shiftControl .sll .sll with singleIssue := w.extractLsb' 0 26 == 0b1000000#26 }
  | srav => aluControl .srav .sra
  | sra => shiftControl .sra .sra
  | srlv => aluControl .srlv .srl
  | srl => shiftControl .srl .srl
  | jr => { op := .jr, jump := true, jr := true }
  | jalr => { op := .jalr, jump := true, jr := true, isLink := true }
  | mfhi => { op := .mfhi, alufunc := .passa, hitoreg := true }
  | mflo => { op := .mflo, alufunc := .passb, lotoreg := true }
  | mthi => { op := .mthi, alufunc := .passa, hiwrite := true, srca := true }
  | mtlo => { op := .mtlo, alufunc := .passa, lowrite := true, srca := true }
  | .break => aluControl .break .passa
  | syscall => aluControl .syscall .passa
  | movz => aluControl .movz .passa
  | movn => aluControl .movn .passa
  | sync | pref => {}
  | tne => { alufunc := .passa, tne := true }
  | cf1 | ct1 | mt1 => {}
  | ldc1 | sdc1 => { alufunc := .passa }
  | madd => mulControl .addu .add true
  | maddu => mulControl .addu .add false
  | msub => mulControl .msub .sub true
  | mul => { op := .mult, signedMulDiv := true, mul := true }

/-- What the instruction does to the exception record. -/
def record (old : Cp0Control) : Cp0Control :=
  match i with
  | eret => { old with ctype := .eret }
  | mfc0 | mtc0 => { old with ctype := .instr }
  | .break => { old with ctype := .exception, etype := { old.etype with bp := true } }
  | syscall => { old with ctype := .exception, etype := { old.etype with syscall := true } }
  | cf1 | ct1 | mt1 | ldc1 | sdc1 =>
    { old with ctype := .exception, etype := { old.etype with cpU := true } }
  | _ => old

def cacheControl : CacheControl :=
  match i with
  | iIndexInvalid => { icacheInst := .indexInvalid }
  | iIndexStoreTag => { icacheInst := .indexStoreTag }
  | iHitInvalid => { icacheInst := .hitInvalid }
  | dIndexWritebackInvalid => { dcacheInst := .indexWritebackInvalid }
  | dIndexStoreTag => { dcacheInst := .indexStoreTag }
  | dHitInvalid => { dcacheInst := .hitInvalid }
  | dHitWritebackInvalid => { dcacheInst := .hitWritebackInvalid }
  | _ => {}

/-- The CP0 register an instruction names; the store-tag operations use `TagLo`. -/
def cp0Addr (w : Word) : BitVec 8 :=
  match i with
  | iIndexStoreTag | dIndexStoreTag => tagLoAddr
  | _ => rd w ++ sel w

/-- What the decoder has to say about a word of the instruction. -/
def decoded (w : Word) (old : Cp0Control) : Decoded where
  ctl := { i.control w with regwrite := i.dest w != 0#5 }
  srcrega := if i.readsRs then rs w else 0#5
  srcregb := if i.readsRt then rt w else 0#5
  destreg := i.dest w
  cp0ra := i.cp0Addr w
  cp0Ctl := i.record old
  cacheCtl := i.cacheControl

end Instruction

end FrailCPU
