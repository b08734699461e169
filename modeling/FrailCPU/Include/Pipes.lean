import FrailCPU.Include.Common

/-!
# Pipeline records

The enumerations of `decode.svh`, `cp0_pkg.svh` and `mmu_pkg.svh`, and the
records of `pipes.svh` that travel from one stage to the next. Every field of a
record has the zero of its type as default, so `{}` is the record that the source
writes as `'0`: the contents of a flushed pipeline register. An array `T [1:0]`
is a `Pair`, with the index in the name of the component.
-/

namespace FrailCPU

/-- An array of the source with the indices `1` and `0`. In the pipeline, slot 1
holds the older instruction of a group. -/
structure Pair (α : Type) where
  slot1 : α
  slot0 : α
  deriving DecidableEq, Repr, Inhabited

namespace Pair

variable {α β γ : Type}

def map (f : α → β) (p : Pair α) : Pair β where
  slot1 := f p.slot1
  slot0 := f p.slot0

def zipWith (f : α → β → γ) (p : Pair α) (q : Pair β) : Pair γ where
  slot1 := f p.slot1 q.slot1
  slot0 := f p.slot0 q.slot0

/-- `{p[0], p[1]}`: the concatenation of the two entries in the other order. -/
def swap (p : Pair α) : Pair α where
  slot1 := p.slot0
  slot0 := p.slot1

@[simp] theorem map_slot1 (f : α → β) (p : Pair α) : (p.map f).slot1 = f p.slot1 := rfl

@[simp] theorem map_slot0 (f : α → β) (p : Pair α) : (p.map f).slot0 = f p.slot0 := rfl

@[simp] theorem zipWith_slot1 (f : α → β → γ) (p : Pair α) (q : Pair β) :
    (p.zipWith f q).slot1 = f p.slot1 q.slot1 := rfl

@[simp] theorem zipWith_slot0 (f : α → β → γ) (p : Pair α) (q : Pair β) :
    (p.zipWith f q).slot0 = f p.slot0 q.slot0 := rfl

@[simp] theorem swap_slot1 (p : Pair α) : p.swap.slot1 = p.slot0 := rfl

@[simp] theorem swap_slot0 (p : Pair α) : p.swap.slot0 = p.slot1 := rfl

/-- Both entries satisfy `P`. -/
structure Each (P : α → Prop) (p : Pair α) : Prop where
  slot1 : P p.slot1
  slot0 : P p.slot0

theorem Each.map {P : α → Prop} {Q : β → Prop} {f : α → β} {p : Pair α} (h : p.Each P)
    (hf : ∀ a, P a → Q (f a)) : (p.map f).Each Q :=
  ⟨hf _ h.slot1, hf _ h.slot0⟩

instance {P : α → Prop} [DecidablePred P] {p : Pair α} : Decidable (p.Each P) :=
  decidable_of_iff (P p.slot1 ∧ P p.slot0) ⟨fun h => ⟨h.1, h.2⟩, fun h => ⟨h.1, h.2⟩⟩

end Pair

/-- `creg_addr_t`: the number of a general register. -/
abbrev CregAddr := BitVec 5

/-- `alufunc_t`. -/
inductive AluFunc
  | addu | and | or | add | sll | srl | sra | sub | slt | nor | xor
  | subu | sltu | passa | lui | passb
  deriving DecidableEq, Repr, Inhabited

/-- `alusrcb_t`. -/
inductive AluSrc
  | regb | imm
  deriving DecidableEq, Repr, Inhabited

/-- `branch_t`. -/
inductive BranchType
  | beq | bne | bgez | bltz | bgtz | blez
  deriving DecidableEq, Repr, Inhabited

/-- `decoded_op_t`. -/
inductive DecodedOp
  | addu | reserved
  | beq | bne | bgez | bgtz | bltz | blez | bgezal | bltzal | j | jal
  | lb | lbu | lh | lhu | lw | sb | sh | sw | mfc0 | mtc0
  | add | sub | subu | slt | sltu | div | divu | mult | multu
  | and | nor | or | xor | sllv | sll | srav | sra | srlv | srl
  | jr | jalr | mfhi | mflo | mthi | mtlo | break | syscall | lui
  | movz | movn | sync | ll | sc | cache | msub
  deriving DecidableEq, Repr, Inhabited

/-- `misalign_mem_t`: the two halves of an unaligned access. -/
inductive MisalignMem
  | noMisalign | memL | memR
  deriving DecidableEq, Repr, Inhabited

/-- `hilo_op_t`. -/
inductive HiloOp
  | noHiloOp | add | sub
  deriving DecidableEq, Repr, Inhabited

/-- `tlb_type_t`. -/
inductive TlbType
  | noTlb | tlbwi | tlbwr | tlbr | tlbp
  deriving DecidableEq, Repr, Inhabited

/-- `cp0_type_t`. -/
inductive Cp0Type
  | noExc | exception | interrupt | eret | instr
  deriving DecidableEq, Repr, Inhabited

/-- `excp_type_t`: the causes found for an instruction so far. -/
structure ExcpType where
  badVaddrF : Bool := false
  reserveInstr : Bool := false
  overflow : Bool := false
  trap : Bool := false
  syscall : Bool := false
  adelD : Bool := false
  adesD : Bool := false
  cpU : Bool := false
  bp : Bool := false
  deriving DecidableEq, Repr, Inhabited

/-- `cp0_control_t`. -/
structure Cp0Control where
  excEret : Bool := false
  ctype : Cp0Type := .noExc
  etype : ExcpType := {}
  deriving DecidableEq, Repr, Inhabited

/-- `tlb_exc_t`. -/
structure TlbExc where
  refill : Bool := false
  invalid : Bool := false
  modified : Bool := false
  deriving DecidableEq, Repr, Inhabited

/-- `|e`: some bit of the outcome is set. -/
def TlbExc.any (e : TlbExc) : Bool := e.refill || e.invalid || e.modified

@[simp] theorem TlbExc.any_zero : ({} : TlbExc).any = false := rfl

theorem TlbExc.any_eq_false {e : TlbExc} : e.any = false ↔ e = {} := by
  rcases e with ⟨r, i, m⟩
  simp [TlbExc.any, TlbExc.mk.injEq, and_assoc]

/-- `control_t`: what the decoder says about an instruction. -/
structure Control where
  op : DecodedOp := .addu
  alufunc : AluFunc := .addu
  memtoreg : Bool := false
  memwrite : Bool := false
  memsext : Bool := false
  regwrite : Bool := false
  alusrc : AluSrc := .regb
  branch : Bool := false
  branchType : BranchType := .beq
  jump : Bool := false
  jr : Bool := false
  shamtValid : Bool := false
  zeroext : Bool := false
  cp0write : Bool := false
  isEret : Bool := false
  hiwrite : Bool := false
  lowrite : Bool := false
  hitoreg : Bool := false
  lotoreg : Bool := false
  cp0toreg : Bool := false
  isLink : Bool := false
  cache : Bool := false
  msize : MSize := .size1
  cacheI : Bool := false
  cacheD : Bool := false
  tlbType : TlbType := .noTlb
  tlb : Bool := false
  memtype : MisalignMem := .noMisalign
  hiloOp : HiloOp := .noHiloOp
  signedMulDiv : Bool := false
  mul : Bool := false
  singleIssue : Bool := false
  tne : Bool := false
  waitSignal : Bool := false
  div : Bool := false
  sc : Bool := false
  srca : Bool := false

/-- `cache_control_t`. -/
structure CacheControl where
  icacheInst : ICacheInst := .unknown
  dcacheInst : DCacheInst := .unknown
  deriving DecidableEq, Repr, Inhabited

/-- `fetch1_data_t`. -/
structure Fetch1Data where
  cp0Ctl : Cp0Control := {}
  valid : Bool := false
  pc : Word := 0#32
  preB : Bool := false
  prePc : Word := 0#32
  nxtValid : Bool := false
  nxtException : Bool := false
  iTlbExc : TlbExc := {}

/-- `fetch_data_t`. -/
structure FetchData where
  valid : Bool := false
  rawInstr : Word := 0#32
  pc : Word := 0#32
  cp0Ctl : Cp0Control := {}
  preB : Bool := false
  prePc : Word := 0#32
  iTlbExc : TlbExc := {}

/-- `decode_data_t`. -/
structure DecodeData where
  valid : Bool := false
  rawInstr : Word := 0#32
  cp0ra : BitVec 8 := 0#8
  ctl : Control := {}
  rdst : CregAddr := 0#5
  ra1 : CregAddr := 0#5
  ra2 : CregAddr := 0#5
  pc : Word := 0#32
  imm : BitVec 16 := 0#16
  preB : Bool := false
  prePc : Word := 0#32
  cp0Ctl : Cp0Control := {}
  cacheCtl : CacheControl := {}
  iTlbExc : TlbExc := {}

/-- `issue_data_t`, less the three special-register reads that no stage fills. -/
structure IssueData where
  valid : Bool := false
  rd1 : Word := 0#32
  rd2 : Word := 0#32
  ctl : Control := {}
  cp0ra : BitVec 8 := 0#8
  imm : BitVec 16 := 0#16
  ra1 : CregAddr := 0#5
  ra2 : CregAddr := 0#5
  pc : Word := 0#32
  isSlot : Bool := false
  rawInstr : Word := 0#32
  rdst : CregAddr := 0#5
  preB : Bool := false
  isJrRa : Bool := false
  prePc : Word := 0#32
  cacheCtl : CacheControl := {}
  cp0Ctl : Cp0Control := {}
  iTlbExc : TlbExc := {}

/-- `execute_data_t`, the record of E, M1 and M2. -/
structure ExecuteData where
  valid : Bool := false
  pc : Word := 0#32
  ctl : Control := {}
  rdst : CregAddr := 0#5
  cp0ra : BitVec 8 := 0#8
  aluOutExt : BitVec 64 := 0#64
  regData : Word := 0#32
  target : Word := 0#32
  branchTaken : Bool := false
  isSlot : Bool := false
  isJrRa : Bool := false
  destPc : Word := 0#32
  cacheCtl : CacheControl := {}
  cp0Ctl : Cp0Control := {}
  iTlbExc : TlbExc := {}
  dTlbExc : TlbExc := {}

/-- `memory_data_t`, the record of M3. -/
structure MemoryData where
  valid : Bool := false
  pc : Word := 0#32
  aluOutExt : BitVec 64 := 0#64
  ctl : Control := {}
  rdst : CregAddr := 0#5
  cp0ra : BitVec 8 := 0#8
  isSlot : Bool := false
  cp0Ctl : Cp0Control := {}
  regData : Word := 0#32
  rd : Word := 0#32
  iTlbExc : TlbExc := {}
  dTlbExc : TlbExc := {}

/-- `writeback_data_t`: what an instruction asks of the register file. -/
structure WritebackData where
  valid : Bool := false
  wa : CregAddr := 0#5
  wd : Word := 0#32
  pc : Word := 0#32

/-- `bypass_input_t`: a producer in E, M1, M2 or M3. -/
structure BypassInput where
  data : Word := 0#32
  rdst : CregAddr := 0#5
  memtoreg : Bool := false
  lotoreg : Bool := false
  hitoreg : Bool := false
  cp0toreg : Bool := false
  regwrite : Bool := false

/-- `bypass_issue_t`: the registers an instruction reads. -/
structure BypassIssue where
  ra1 : CregAddr := 0#5
  ra2 : CregAddr := 0#5

/-- `bypass_execute_t`: a producer that is still being executed. -/
structure BypassExecute where
  regwrite : Bool := false
  rdst : CregAddr := 0#5
  memtoreg : Bool := false
  lotoreg : Bool := false
  hitoreg : Bool := false
  cp0toreg : Bool := false

/-- `bypass_output_t`; the defaults are the ones both networks start from. -/
structure BypassOutput where
  data : Word := 0#32
  valid : Bool := true
  bypass : Bool := false

end FrailCPU
