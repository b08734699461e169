import FrailCPU.Include.Pipes

/-!
# The decoder

`decoder.sv`, one function for each level of its nested `case` statements:
`decodeOp` on the major opcode, and below it the `REGIMM`, `CACHE`, `COP0`,
`SPECIAL`, `COP1` and `SPECIAL2` tables. Each table starts from the preset record
of the `always_comb` block and fills in what its instruction needs. The exception
record of the fetch stage comes in as `cp0CtlOld`, and a table may overwrite its
type.
-/

namespace FrailCPU

/-- The outputs of `decoder`, with the local `exception_ri`. -/
structure Decoded where
  ctl : Control := {}
  srcrega : CregAddr := 0#5
  srcregb : CregAddr := 0#5
  destreg : CregAddr := 0#5
  cp0ra : BitVec 8
  cp0Ctl : Cp0Control
  cacheCtl : CacheControl := {}
  exceptionRi : Bool := false

namespace Instr

variable (instr : Word)

def op : BitVec 6 := instr.extractLsb' 26 6

def rs : CregAddr := instr.extractLsb' 21 5

def rt : CregAddr := instr.extractLsb' 16 5

def rd : CregAddr := instr.extractLsb' 11 5

def func : BitVec 6 := instr.extractLsb' 0 6

def imm : BitVec 16 := instr.extractLsb' 0 16

def sel : BitVec 3 := instr.extractLsb' 0 3

end Instr

open Instr

/-- The values every output has before the `case`. -/
def presetDecoded (instr : Word) (cp0CtlOld : Cp0Control) : Decoded where
  cp0ra := rd instr ++ sel instr
  cp0Ctl := cp0CtlOld

/-- `cp0_ctl.ctype=t`. -/
def Decoded.withCtype (d : Decoded) (t : Cp0Type) : Decoded :=
  { d with cp0Ctl := { d.cp0Ctl with ctype := t } }

/-- The reserved instruction exception. -/
def Decoded.reserved (d : Decoded) (ctl : Control) : Decoded :=
  { d.withCtype .exception with ctl, exceptionRi := true }

/-- `OP_BGEZ`: the branches of the `REGIMM` opcode. -/
def decodeRegimm (instr : Word) (d : Decoded) : Decoded :=
  match rt instr with
  | 0b00001#5 => -- B_BGEZ
    { d with
      ctl := { op := .bgez, branch := true, branchType := .bgez }
      srcrega := rs instr }
  | 0b00000#5 => -- B_BLTZ
    { d with
      ctl := { op := .bltz, branch := true, branchType := .bltz }
      srcrega := rs instr }
  | 0b10001#5 => -- B_BGEZAL
    { d with
      ctl := { op := .bgezal, branch := true, regwrite := true,
               branchType := .bgez, isLink := true }
      srcrega := rs instr, destreg := 31#5 }
  | 0b10000#5 => -- B_BLTZAL
    { d with
      ctl := { op := .bltzal, branch := true, regwrite := true,
               branchType := .bltz, isLink := true }
      srcrega := rs instr, destreg := 31#5 }
  | _ => d.reserved { op := .reserved }

/-- The address of `TagLo`, the register that the index-store-tag operations
read instead of the one their `rd` field names. -/
def tagLoAddr : BitVec 8 := 28#5 ++ 0#3

/-- `OP_CACHE`: the operation is in the `rt` field. -/
def decodeCache (instr : Word) (d : Decoded) : Decoded :=
  let ctl : Control := { alusrc := .imm, alufunc := .addu, cache := true, singleIssue := true }
  let d := { d with ctl, srcrega := rs instr }
  match rt instr with
  | 0b00000#5 => -- I_INDEX_INVALID
    { d with cacheCtl := { icacheInst := .indexInvalid }, ctl := { ctl with cacheI := true } }
  | 0b01000#5 => -- I_INDEX_STORE_TAG
    { d with
      cacheCtl := { icacheInst := .indexStoreTag }
      ctl := { ctl with cacheI := true }, cp0ra := tagLoAddr }
  | 0b10000#5 => -- I_HIT_INVALID
    { d with cacheCtl := { icacheInst := .hitInvalid }, ctl := { ctl with cacheI := true } }
  | 0b00001#5 => -- D_INDEX_WRITEBACK_INVALID
    { d with
      cacheCtl := { dcacheInst := .indexWritebackInvalid }
      ctl := { ctl with cacheD := true, memwrite := true } }
  | 0b01001#5 => -- D_INDEX_STORE_TAG
    { d with
      cacheCtl := { dcacheInst := .indexStoreTag }
      ctl := { ctl with cacheD := true, memwrite := true }, cp0ra := tagLoAddr }
  | 0b10001#5 => -- D_HIT_INVALID
    { d with
      cacheCtl := { dcacheInst := .hitInvalid }
      ctl := { ctl with cacheD := true, memwrite := true } }
  | 0b10101#5 => -- D_HIT_WRITEBACK_INVALID
    { d with
      cacheCtl := { dcacheInst := .hitWritebackInvalid }
      ctl := { ctl with cacheD := true, memwrite := true } }
  | _ => d

/-- The `C_ERET` row of `OP_COP0`: the coprocessor functions. -/
def decodeCop0Func (instr : Word) (d : Decoded) : Decoded :=
  match func instr with
  | 0b011000#6 => -- CP_ERET
    { d.withCtype .eret with ctl := { isEret := true } }
  | 0b001000#6 => -- CP_TLBP
    { d with ctl := { tlb := true, singleIssue := true, tlbType := .tlbp } }
  | 0b000001#6 => -- CP_TLBR
    { d with ctl := { tlb := true, singleIssue := true, tlbType := .tlbr } }
  | 0b000010#6 => -- CP_TLBWI
    { d with ctl := { tlb := true, singleIssue := true, tlbType := .tlbwi } }
  | 0b000110#6 => -- CP_TLBWR
    { d with ctl := { tlb := true, singleIssue := true, tlbType := .tlbwr } }
  | 0b100000#6 => -- CP_WAIT
    { d with ctl := { waitSignal := true, singleIssue := true, alufunc := .passa } }
  | _ => d.reserved { op := .reserved, alufunc := .passa }

/-- `OP_COP0`: `MFC0` and `MTC0` overwrite the type the fetch stage left. -/
def decodeCop0 (instr : Word) (d : Decoded) : Decoded :=
  match rs instr with
  | 0b10000#5 => decodeCop0Func instr d
  | 0b00000#5 => -- C_MFC0
    { d.withCtype .instr with
      ctl := { op := .mfc0, alufunc := .passa, regwrite := true, cp0toreg := true }
      destreg := rt instr }
  | 0b00100#5 => -- C_MTC0
    { d.withCtype .instr with
      ctl := { op := .mtc0, cp0write := true, alufunc := .passb }
      srcregb := rt instr }
  | _ => d.reserved { op := .reserved }

/-- Two source registers and the destination in the `rd` field. -/
def Decoded.threeReg (d : Decoded) (instr : Word) (ctl : Control) : Decoded :=
  { d with ctl, srcrega := rs instr, srcregb := rt instr, destreg := rd instr }

/-- Two source registers and no destination. -/
def Decoded.twoReg (d : Decoded) (instr : Word) (ctl : Control) : Decoded :=
  { d with ctl, srcrega := rs instr, srcregb := rt instr }

/-- A constant shift: the amount comes from the instruction. -/
def Decoded.shiftReg (d : Decoded) (instr : Word) (ctl : Control) : Decoded :=
  { d with ctl, srcregb := rt instr, destreg := rd instr }

/-- `OP_SPECIAL`. -/
def decodeSpecial (instr : Word) (d : Decoded) : Decoded :=
  match func instr with
  | 0b100000#6 => d.threeReg instr { op := .add, alufunc := .add, regwrite := true }
  | 0b100001#6 => d.threeReg instr { op := .addu, alufunc := .addu, regwrite := true }
  | 0b100010#6 => d.threeReg instr { op := .sub, alufunc := .sub, regwrite := true }
  | 0b100011#6 => d.threeReg instr { op := .subu, alufunc := .subu, regwrite := true }
  | 0b101010#6 => d.threeReg instr { op := .slt, alufunc := .slt, regwrite := true }
  | 0b101011#6 => d.threeReg instr { op := .sltu, alufunc := .sltu, regwrite := true }
  | 0b011010#6 => -- F_DIV
    d.twoReg instr { op := .div, signedMulDiv := true, hiwrite := true, lowrite := true,
                     div := true }
  | 0b011011#6 => -- F_DIVU
    d.twoReg instr { op := .divu, hiwrite := true, lowrite := true, div := true }
  | 0b011000#6 => -- F_MULT
    d.twoReg instr { op := .mult, signedMulDiv := true, hiwrite := true, lowrite := true,
                     mul := true }
  | 0b011001#6 => -- F_MULTU
    d.twoReg instr { op := .multu, hiwrite := true, lowrite := true, mul := true }
  | 0b100100#6 => d.threeReg instr { op := .and, alufunc := .and, regwrite := true }
  | 0b100111#6 => d.threeReg instr { op := .nor, alufunc := .nor, regwrite := true }
  | 0b100101#6 => d.threeReg instr { op := .or, alufunc := .or, regwrite := true }
  | 0b100110#6 => d.threeReg instr { op := .xor, alufunc := .xor, regwrite := true }
  | 0b000100#6 => d.threeReg instr { op := .sllv, alufunc := .sll, regwrite := true }
  | 0b000000#6 => -- F_SLL; the word of SSNOP issues alone
    d.shiftReg instr { op := .sll, alufunc := .sll, regwrite := true, shamtValid := true,
                       singleIssue := instr.extractLsb' 0 26 == 0b1000000#26 }
  | 0b000111#6 => d.threeReg instr { op := .srav, alufunc := .sra, regwrite := true }
  | 0b000011#6 => -- F_SRA
    d.shiftReg instr { op := .sra, alufunc := .sra, regwrite := true, shamtValid := true }
  | 0b000110#6 => d.threeReg instr { op := .srlv, alufunc := .srl, regwrite := true }
  | 0b000010#6 => -- F_SRL
    d.shiftReg instr { op := .srl, alufunc := .srl, regwrite := true, shamtValid := true }
  | 0b001000#6 => -- F_JR
    { d with ctl := { op := .jr, jump := true, jr := true }, srcrega := rs instr }
  | 0b001001#6 => -- F_JALR
    { d with
      ctl := { op := .jalr, jump := true, jr := true, regwrite := true, isLink := true }
      srcrega := rs instr, destreg := rd instr }
  | 0b010000#6 => -- F_MFHI
    { d with
      ctl := { op := .mfhi, regwrite := true, alufunc := .passa, hitoreg := true }
      destreg := rd instr }
  | 0b010010#6 => -- F_MFLO
    { d with
      ctl := { op := .mflo, regwrite := true, alufunc := .passb, lotoreg := true }
      destreg := rd instr }
  | 0b010001#6 => -- F_MTHI
    { d with
      ctl := { op := .mthi, hiwrite := true, alufunc := .passa, srca := true }
      srcrega := rs instr }
  | 0b010011#6 => -- F_MTLO
    { d with
      ctl := { op := .mtlo, lowrite := true, alufunc := .passa, srca := true }
      srcrega := rs instr }
  | 0b001101#6 => -- F_BREAK
    { d with
      ctl := { op := .break, alufunc := .passa }
      cp0Ctl := { d.cp0Ctl with
        ctype := .exception, etype := { d.cp0Ctl.etype with bp := true } } }
  | 0b001100#6 => -- F_SYSCALL
    { d with
      ctl := { op := .syscall, alufunc := .passa }
      cp0Ctl := { d.cp0Ctl with
        ctype := .exception, etype := { d.cp0Ctl.etype with syscall := true } } }
  | 0b001010#6 => d.threeReg instr { op := .movz, alufunc := .passa, regwrite := true }
  | 0b001011#6 => d.threeReg instr { op := .movn, alufunc := .passa, regwrite := true }
  | 0b001111#6 => d -- F_SYNC
  | 0b110110#6 => d.twoReg instr { tne := true, alufunc := .passa } -- F_TNE
  | _ => d.reserved { op := .reserved, alufunc := .passa }

/-- The coprocessor unusable exception. -/
def Decoded.copUnusable (d : Decoded) (ctl : Control) : Decoded :=
  { d with
    ctl
    cp0Ctl := { d.cp0Ctl with
      ctype := .exception, etype := { d.cp0Ctl.etype with cpU := true } } }

/-- `OP_COP1`. -/
def decodeCop1 (instr : Word) (d : Decoded) : Decoded :=
  match rs instr with
  | 0b00010#5 => d.copUnusable {} -- CP1_CF
  | 0b00110#5 => d.copUnusable {} -- CP1_CT
  | 0b00100#5 => d.copUnusable {} -- CP1_MT
  | _ => d.reserved { op := .reserved, alufunc := .passa }

/-- `OP_SPECIAL2`. `SP_MADDU` does not raise `mul`, and a function outside the
table decodes to nothing. -/
def decodeSpecial2 (instr : Word) (d : Decoded) : Decoded :=
  match func instr with
  | 0b000000#6 => -- SP_MADD
    d.twoReg instr { hiloOp := .add, hiwrite := true, lowrite := true,
                     signedMulDiv := true, mul := true }
  | 0b000001#6 => -- SP_MADDU
    d.twoReg instr { hiloOp := .add, hiwrite := true, lowrite := true }
  | 0b000100#6 => -- SP_MSUB
    d.twoReg instr { hiloOp := .sub, op := .msub, hiwrite := true, lowrite := true,
                     signedMulDiv := true, mul := true }
  | 0b000010#6 => -- SP_MUL
    d.threeReg instr { op := .mult, regwrite := true, signedMulDiv := true, mul := true }
  | _ => d

/-- An immediate instruction: one source register and the destination in `rt`. -/
def Decoded.immReg (d : Decoded) (instr : Word) (ctl : Control) : Decoded :=
  { d with ctl, srcrega := rs instr, destreg := rt instr }

/-- An unaligned load: the old value of the destination is read too. -/
def Decoded.mergeReg (d : Decoded) (instr : Word) (ctl : Control) : Decoded :=
  { d with ctl, srcrega := rs instr, srcregb := rt instr, destreg := rt instr }

/-- The `case` on the major opcode. -/
def decodeOp (instr : Word) (d : Decoded) : Decoded :=
  match op instr with
  | 0b001000#6 =>
    d.immReg instr { op := .add, alufunc := .add, regwrite := true, alusrc := .imm }
  | 0b001001#6 =>
    d.immReg instr { op := .addu, alufunc := .addu, regwrite := true, alusrc := .imm }
  | 0b001010#6 =>
    d.immReg instr { op := .slt, alufunc := .slt, regwrite := true, alusrc := .imm }
  | 0b001011#6 =>
    d.immReg instr { op := .sltu, alufunc := .sltu, regwrite := true, alusrc := .imm }
  | 0b001100#6 =>
    d.immReg instr
      { op := .and, alufunc := .and, regwrite := true, zeroext := true, alusrc := .imm }
  | 0b001111#6 => -- OP_LUI
    { d with
      ctl := { op := .lui, alufunc := .lui, regwrite := true, alusrc := .imm }
      destreg := rt instr }
  | 0b001101#6 =>
    d.immReg instr
      { op := .or, alufunc := .or, regwrite := true, zeroext := true, alusrc := .imm }
  | 0b001110#6 =>
    d.immReg instr
      { op := .xor, alufunc := .xor, regwrite := true, zeroext := true, alusrc := .imm }
  | 0b000100#6 => d.twoReg instr { op := .beq, branch := true, branchType := .beq }
  | 0b010100#6 => d.twoReg instr { op := .beq, branch := true, branchType := .beq } -- OP_BEQL
  | 0b000101#6 => d.twoReg instr { op := .bne, branch := true, branchType := .bne }
  | 0b000001#6 => decodeRegimm instr d
  | 0b000111#6 => -- OP_BGTZ
    { d with
      ctl := { op := .bgtz, branch := true, branchType := .bgtz }, srcrega := rs instr }
  | 0b000110#6 => -- OP_BLEZ
    { d with
      ctl := { op := .blez, branch := true, branchType := .blez }, srcrega := rs instr }
  | 0b000010#6 => { d with ctl := { op := .j, jump := true } }
  | 0b000011#6 => -- OP_JAL
    { d with
      ctl := { op := .jal, jump := true, regwrite := true, isLink := true }
      destreg := 31#5 }
  | 0b100000#6 => -- OP_LB
    d.immReg instr { op := .lb, regwrite := true, memtoreg := true, alusrc := .imm,
                     msize := .size1, memsext := true }
  | 0b100100#6 => -- OP_LBU
    d.immReg instr { op := .lbu, regwrite := true, memtoreg := true, alusrc := .imm,
                     msize := .size1 }
  | 0b100001#6 => -- OP_LH
    d.immReg instr { op := .lh, regwrite := true, memtoreg := true, alusrc := .imm,
                     msize := .size2, memsext := true }
  | 0b100101#6 => -- OP_LHU
    d.immReg instr { op := .lhu, regwrite := true, memtoreg := true, alusrc := .imm,
                     msize := .size2 }
  | 0b100011#6 => -- OP_LW
    d.immReg instr { op := .lw, regwrite := true, memtoreg := true, alusrc := .imm,
                     msize := .size4 }
  | 0b110000#6 => -- OP_LL
    d.immReg instr { op := .lw, regwrite := true, memtoreg := true, alusrc := .imm,
                     msize := .size4 }
  | 0b101000#6 => -- OP_SB
    d.twoReg instr { op := .sb, memwrite := true, alusrc := .imm, msize := .size1 }
  | 0b101001#6 => -- OP_SH
    d.twoReg instr { op := .sh, memwrite := true, alusrc := .imm, msize := .size2 }
  | 0b101011#6 => -- OP_SW; it is this row that raises `sc`
    d.twoReg instr { op := .sw, memwrite := true, alusrc := .imm, msize := .size4, sc := true }
  | 0b111000#6 => -- OP_SC
    d.mergeReg instr { op := .sw, memwrite := true, alusrc := .imm, regwrite := true,
                       msize := .size4 }
  | 0b100010#6 => -- OP_LWL
    d.mergeReg instr { op := .lw, regwrite := true, memtoreg := true, alusrc := .imm,
                       msize := .size4, memtype := .memL }
  | 0b100110#6 => -- OP_LWR
    d.mergeReg instr { op := .lw, regwrite := true, memtoreg := true, alusrc := .imm,
                       msize := .size4, memtype := .memR }
  | 0b101010#6 => -- OP_SWL
    d.twoReg instr { op := .sw, memwrite := true, alusrc := .imm, msize := .size4,
                     memtype := .memL }
  | 0b101110#6 => -- OP_SWR
    d.twoReg instr { op := .sw, memwrite := true, alusrc := .imm, msize := .size4,
                     memtype := .memR }
  | 0b101111#6 => decodeCache instr d
  | 0b010000#6 => decodeCop0 instr d
  | 0b000000#6 => decodeSpecial instr d
  | 0b010001#6 => decodeCop1 instr d
  | 0b110101#6 => d.copUnusable { alufunc := .passa } -- OP_LDC1
  | 0b111101#6 => d.copUnusable { alufunc := .passa } -- OP_SDC1
  | 0b011100#6 => decodeSpecial2 instr d
  | 0b110011#6 => d -- OP_PREF
  | _ => d.reserved { op := .reserved, alufunc := .passa }

/-- A write of register 0 is no write. -/
def Decoded.dropZeroWrite (d : Decoded) : Decoded :=
  { d with ctl := { d.ctl with regwrite := d.ctl.regwrite && d.destreg != 0#5 } }

/-- `cp0_ctl.etype.reserveInstr=exception_ri`, the last line of the block. -/
def Decoded.setReserve (d : Decoded) : Decoded :=
  { d with
    cp0Ctl := { d.cp0Ctl with etype := { d.cp0Ctl.etype with reserveInstr := d.exceptionRi } } }

/-- `decoder.sv`. -/
def decoder (instr : Word) (valid : Bool) (cp0CtlOld : Cp0Control) : Decoded :=
  let d := presetDecoded instr cp0CtlOld
  (if valid then decodeOp instr d else d).dropZeroWrite.setReserve

/-- One slot of `decode.sv`. The prediction is kept in slot 1 only. -/
def decodeSlot (f : FetchData) (preB : Bool) (prePc : Word) : DecodeData :=
  let d := decoder f.rawInstr f.valid f.cp0Ctl
  { valid := f.valid
    rawInstr := f.rawInstr
    cp0ra := d.cp0ra
    ctl := d.ctl
    rdst := d.destreg
    ra1 := d.srcrega
    ra2 := d.srcregb
    pc := f.pc
    imm := imm f.rawInstr
    preB, prePc
    cp0Ctl := d.cp0Ctl
    cacheCtl := d.cacheCtl
    iTlbExc := f.iTlbExc }

/-- `decode.sv`. -/
def decode (dataF2 : Pair FetchData) : Pair DecodeData where
  slot1 := decodeSlot dataF2.slot1 dataF2.slot1.preB dataF2.slot1.prePc
  slot0 := decodeSlot dataF2.slot0 false 0#32

end FrailCPU
