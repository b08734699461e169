import FrailCPU.Core.Group
import FrailCPU.Core.LoadStore
import FrailCPU.Decode.Accepted

/-!
# The integer instructions from decode to write-back

The results of the arithmetic, logical and shift instructions and of the links are given by
the numbers they stand for, signed or not, and compared with what is written back once the
word has been decoded, executed and carried to W in either slot of a group.
-/

namespace FrailCPU

open Instr

section Arithmetic

theorem toNat_extendSign (a : Word) :
    (extendSign a).toNat = if 2 * a.toNat < 2 ^ 32 then a.toNat else a.toNat + 2 ^ 32 := by
  have := a.isLt
  rw [extendSign, BitVec.toNat_signExtend, BitVec.msb_eq_decide, BitVec.toNat_setWidth]
  split <;> simp only [decide_eq_true_iff] at * <;> split <;> omega

/-- The two top bits of an extended sum differ when it lies outside the signed range. -/
theorem topBits_differ (t : BitVec 33) :
    (t.getLsbD 32 != t.getLsbD 31) = decide (2 ^ 31 ≤ t.toNat ∧ t.toNat < 3 * 2 ^ 31) := by
  have := t.isLt
  rw [Bool.eq_iff_iff, bne_iff_ne, decide_eq_true_iff, BitVec.getLsbD, BitVec.getLsbD,
    Nat.testBit_eq_decide_div_mod_eq, Nat.testBit_eq_decide_div_mod_eq, ne_eq, decide_eq_decide]
  omega

/-- A number that a register holds as a signed one. -/
def FitsSigned (n : ℤ) : Prop := -2 ^ 31 ≤ n ∧ n < 2 ^ 31

theorem aluOverflow_add (a b : Word) :
    aluOverflow a b .add = true ↔ ¬ FitsSigned (a.toInt + b.toInt) := by
  have ha := a.isLt
  have hb := b.isLt
  simp only [aluOverflow, FitsSigned]
  rw [topBits_differ, decide_eq_true_iff, BitVec.toNat_add, toNat_extendSign,
    toNat_extendSign, BitVec.toInt_eq_toNat_cond, BitVec.toInt_eq_toNat_cond]
  split <;> split <;> omega

theorem aluOverflow_sub (a b : Word) :
    aluOverflow a b .sub = true ↔ ¬ FitsSigned (a.toInt - b.toInt) := by
  have ha := a.isLt
  have hb := b.isLt
  simp only [aluOverflow, FitsSigned]
  rw [topBits_differ, decide_eq_true_iff, BitVec.toNat_sub, toNat_extendSign,
    toNat_extendSign, BitVec.toInt_eq_toNat_cond, BitVec.toInt_eq_toNat_cond]
  split <;> split <;> omega

theorem shiftLeft_eq_mul (x : Word) (n : ℕ) : x <<< n = BitVec.ofNat 32 (x.toNat * 2 ^ n) := by
  apply BitVec.eq_of_toNat_eq
  rw [BitVec.toNat_shiftLeft, Nat.shiftLeft_eq, BitVec.toNat_ofNat]

theorem ushiftRight_eq_div (x : Word) (n : ℕ) :
    x >>> n = BitVec.ofNat 32 (x.toNat / 2 ^ n) := by
  apply BitVec.eq_of_toNat_eq
  have hle : x.toNat / 2 ^ n ≤ x.toNat := Nat.div_le_self _ _
  rw [BitVec.toNat_ushiftRight, BitVec.toNat_ofNat, Nat.shiftRight_eq_div_pow,
    Nat.mod_eq_of_lt (lt_of_le_of_lt hle x.isLt)]

theorem sshiftRight_eq_div (x : Word) (n : ℕ) :
    x.sshiftRight n = BitVec.ofInt 32 (x.toInt / 2 ^ n) := by
  rw [BitVec.sshiftRight_eq, Int.shiftRight_eq_div_pow]
  norm_cast

theorem alu_slt (a b : Word) : alu a b .slt = if a.toInt < b.toInt then 1#32 else 0#32 := by
  simp [alu, BitVec.slt]

theorem alu_sltu (a b : Word) :
    alu a b .sltu = if a.toNat < b.toNat then 1#32 else 0#32 := by
  simp [alu, BitVec.ult]

theorem toInt_signExtend_imm (x : BitVec 16) : (x.signExtend 32).toInt = x.toInt := by
  rw [BitVec.toInt_signExtend_of_le (by omega)]

theorem extractLsb'_signExtend_imm (x : BitVec 16) :
    (x.signExtend 32).extractLsb' 0 16 = x := by
  apply BitVec.eq_of_getLsbD_eq
  intro k hk
  rw [BitVec.getLsbD_extractLsb', BitVec.getLsbD_signExtend]
  simp [hk]
  omega

theorem append_zero_eq_mul (x : BitVec 16) :
    (x ++ 0#16 : Word) = BitVec.ofNat 32 (x.toNat * 2 ^ 16) := by
  apply BitVec.eq_of_toNat_eq
  have := x.isLt
  rw [BitVec.toNat_append, BitVec.toNat_ofNat, Nat.shiftLeft_eq, BitVec.toNat_ofNat]
  simp
  omega

/-- The amount of a shift is in the low bits of the first operand. -/
theorem shiftAmount (a : Word) : (a.extractLsb' 0 5).toNat = a.toNat % 32 := by
  simp

theorem shiftAmount_setWidth (x : BitVec 5) :
    ((x.setWidth 32).extractLsb' 0 5 : BitVec 5).toNat = x.toNat := by
  have := x.isLt
  simp
  omega

end Arithmetic

namespace Instruction

/-- The shift amount in the word. -/
def shamt (w : Word) : BitVec 5 := w.extractLsb' 6 5

variable (i : Instruction)

/-- The instructions of the arithmetic unit and the links. -/
def isInteger : Bool :=
  match i with
  | add | addi | addu | addiu | sub | subu | slt | slti | sltu | sltiu | and | andi | or | ori
  | xor | xori | nor | lui | sll | srl | sra | sllv | srlv | srav
  | jal | jalr | bgezal | bltzal => true
  | _ => false

def links : Bool :=
  match i with
  | jal | jalr | bgezal | bltzal => true
  | _ => false

/-- The result of an integer instruction at `pc`, for the values `s` and `t` of its source
registers. -/
def result (w pc s t : Word) : Word :=
  let simm : Word := (imm w).signExtend 32
  let zimm : Word := (imm w).setWidth 32
  match i with
  | add | addu => s + t
  | addi | addiu => s + simm
  | sub | subu => s - t
  | slt => if s.toInt < t.toInt then 1#32 else 0#32
  | slti => if s.toInt < (imm w).toInt then 1#32 else 0#32
  | sltu => if s.toNat < t.toNat then 1#32 else 0#32
  | sltiu => if s.toNat < simm.toNat then 1#32 else 0#32
  | and => s &&& t
  | andi => s &&& zimm
  | or => s ||| t
  | ori => s ||| zimm
  | xor => s ^^^ t
  | xori => s ^^^ zimm
  | nor => ~~~(s ||| t)
  | lui => BitVec.ofNat 32 ((imm w).toNat * 2 ^ 16)
  | sll => BitVec.ofNat 32 (t.toNat * 2 ^ (shamt w).toNat)
  | srl => BitVec.ofNat 32 (t.toNat / 2 ^ (shamt w).toNat)
  | sra => BitVec.ofInt 32 (t.toInt / 2 ^ (shamt w).toNat)
  | sllv => BitVec.ofNat 32 (t.toNat * 2 ^ (s.toNat % 32))
  | srlv => BitVec.ofNat 32 (t.toNat / 2 ^ (s.toNat % 32))
  | srav => BitVec.ofInt 32 (t.toInt / 2 ^ (s.toNat % 32))
  | jal | jalr | bgezal | bltzal => pc + 8#32
  | _ => 0#32

/-- The signed sum or difference does not fit into a register. -/
def Overflows (w s t : Word) : Prop :=
  match i with
  | add => ¬ FitsSigned (s.toInt + t.toInt)
  | addi => ¬ FitsSigned (s.toInt + (imm w).toInt)
  | sub => ¬ FitsSigned (s.toInt - t.toInt)
  | _ => False

/-- The bits of a control record that would turn its instruction into something else. -/
structure Plain (c : Control) : Prop where
  memory : c.memtoreg = false ∧ c.memwrite = false
  special : c.hitoreg = false ∧ c.lotoreg = false ∧ c.cp0toreg = false
  sc : c.sc = false
  tne : c.tne = false
  multiOp : c.mul = false ∧ c.div = false
  op : c.op ≠ .movz ∧ c.op ≠ .movn

variable {i} {w : Word}

theorem plain_of_isInteger (h : i.isInteger = true) : Plain (i.control w) := by
  cases i <;> first | exact absurd h Bool.false_ne_true | skip
  all_goals
    exact ⟨⟨rfl, rfl⟩, ⟨rfl, rfl, rfl⟩, rfl, rfl, ⟨rfl, rfl⟩, by simp [control, immControl,
      aluControl, shiftControl, branchControl]⟩

theorem isLink_control : (i.control w).isLink = i.links := by
  cases i <;> rfl

theorem not_slipped_of_isInteger (h : i.isInteger = true) : ¬ i.Slipped := by
  rintro (rfl | rfl | rfl) <;> exact absurd h Bool.false_ne_true

theorem record_of_isInteger (h : i.isInteger = true) (old : Cp0Control) :
    i.record old = old := by
  cases i <;> first | rfl | exact absurd h Bool.false_ne_true

/-- The record of an issued word of the instruction, which came without an exception. -/
structure Issued (i : Instruction) (f : FetchData) (d : IssueData) : Prop where
  encodes : i.Encodes f.rawInstr
  valid : f.valid = true
  clean : f.cp0Ctl.Clean
  carries : d.Carries f

/-- The operands are the contents of the registers that the record names. -/
structure Reads (d : IssueData) (r : Operands) (regs : RegFile) : Prop where
  rd1 : r.rd1 = regs d.ra1
  rd2 : r.rd2 = regs d.ra2

section Issued

variable {f : FetchData} {d : IssueData} {r : Operands} {regs : RegFile}

theorem Issued.decoder_eq (hd : i.Issued f d) (hs : ¬ i.Slipped) :
    decoder f.rawInstr f.valid f.cp0Ctl = i.decoded f.rawInstr f.cp0Ctl := by
  rw [hd.valid]
  exact Instruction.decoder_eq hd.encodes hs hd.clean

variable (hd : i.Issued f d) (hs : ¬ i.Slipped)

include hd hs

theorem Issued.ctl_eq :
    d.ctl = { i.control f.rawInstr with regwrite := i.dest f.rawInstr != 0#5 } := by
  rw [hd.carries.ctl, hd.decoder_eq hs]
  rfl

theorem Issued.rdst_eq : d.rdst = i.dest f.rawInstr := by
  rw [hd.carries.rdst, hd.decoder_eq hs]
  rfl

theorem Issued.cp0Ctl_eq : d.cp0Ctl = i.record f.cp0Ctl := by
  rw [hd.carries.cp0Ctl, hd.decoder_eq hs]
  rfl

theorem Issued.rd1_eq (hr : Reads d r regs) (h : i.readsRs = true) :
    r.rd1 = regs (rs f.rawInstr) := by
  rw [hr.rd1, hd.carries.ra1, hd.decoder_eq hs, decoded, if_pos h]

theorem Issued.rd2_eq (hr : Reads d r regs) (h : i.readsRt = true) :
    r.rd2 = regs (rt f.rawInstr) := by
  rw [hr.rd2, hd.carries.ra2, hd.decoder_eq hs, decoded, if_pos h]

end Issued

section Alu

variable {f : FetchData} {d : IssueData} {r : Operands} {regs : RegFile}
variable (hi : i.isInteger = true) (hd : i.Issued f d) (hr : Reads d r regs)

include hi hd hr

/-- The arithmetic unit computes the result of an instruction that is no link. -/
theorem aluOut_eq_result (hl : i.links = false) :
    aluOut d r = i.result f.rawInstr f.pc (regs (rs f.rawInstr)) (regs (rt f.rawInstr)) := by
  have hs := not_slipped_of_isInteger hi
  have h1 := hd.rd1_eq hs hr
  have h2 := hd.rd2_eq hs hr
  simp only [aluOut, aluA, aluB, extendB, hd.ctl_eq hs, hd.carries.rawInstr, hd.carries.imm]
  generalize f.rawInstr = w at *
  cases i
  case add | addu | sub | subu | and | or | xor | nor =>
    rw [h1 rfl, h2 rfl]
    rfl
  case addi | addiu | andi | ori | xori =>
    rw [h1 rfl]
    rfl
  case slt =>
    rw [h1 rfl, h2 rfl]
    exact alu_slt _ _
  case slti =>
    rw [h1 rfl]
    change alu (regs (rs w)) ((imm w).signExtend 32) .slt = _
    rw [alu_slt, toInt_signExtend_imm]
    rfl
  case sltu =>
    rw [h1 rfl, h2 rfl]
    exact alu_sltu _ _
  case sltiu =>
    rw [h1 rfl]
    exact alu_sltu _ _
  case lui =>
    change (((imm w).signExtend 32).extractLsb' 0 16 ++ 0#16 : Word) = _
    rw [extractLsb'_signExtend_imm]
    exact append_zero_eq_mul _
  case sll =>
    rw [h2 rfl]
    change regs (rt w) <<< ((shamt w).setWidth 32 |>.extractLsb' 0 5).toNat = _
    rw [shiftLeft_eq_mul, shiftAmount_setWidth]
    rfl
  case srl =>
    rw [h2 rfl]
    change regs (rt w) >>> ((shamt w).setWidth 32 |>.extractLsb' 0 5).toNat = _
    rw [ushiftRight_eq_div, shiftAmount_setWidth]
    rfl
  case sra =>
    rw [h2 rfl]
    change (regs (rt w)).sshiftRight ((shamt w).setWidth 32 |>.extractLsb' 0 5).toNat = _
    rw [sshiftRight_eq_div, shiftAmount_setWidth]
    rfl
  case sllv =>
    rw [h1 rfl, h2 rfl]
    change regs (rt w) <<< ((regs (rs w)).extractLsb' 0 5).toNat = _
    rw [shiftLeft_eq_mul, shiftAmount]
    rfl
  case srlv =>
    rw [h1 rfl, h2 rfl]
    change regs (rt w) >>> ((regs (rs w)).extractLsb' 0 5).toNat = _
    rw [ushiftRight_eq_div, shiftAmount]
    rfl
  case srav =>
    rw [h1 rfl, h2 rfl]
    change (regs (rt w)).sshiftRight ((regs (rs w)).extractLsb' 0 5).toNat = _
    rw [sshiftRight_eq_div, shiftAmount]
    rfl
  case jal | jalr | bgezal | bltzal => exact absurd hl.symm Bool.false_ne_true
  all_goals exact absurd hi Bool.false_ne_true

/-- The overflow of the unit is that of the signed sum or difference. -/
theorem exceptionOf_iff :
    exceptionOf d r = true ↔
      i.Overflows f.rawInstr (regs (rs f.rawInstr)) (regs (rt f.rawInstr)) := by
  have hs := not_slipped_of_isInteger hi
  have h1 := hd.rd1_eq hs hr
  have h2 := hd.rd2_eq hs hr
  simp only [exceptionOf, aluA, aluB, extendB, hd.ctl_eq hs, hd.carries.rawInstr,
    hd.carries.imm]
  generalize f.rawInstr = w at *
  cases i
  case add =>
    rw [h1 rfl, h2 rfl]
    exact aluOverflow_add _ _
  case addi =>
    rw [h1 rfl]
    change aluOverflow (regs (rs w)) ((imm w).signExtend 32) .add = true ↔ _
    rw [aluOverflow_add, toInt_signExtend_imm]
    rfl
  case sub =>
    rw [h1 rfl, h2 rfl]
    exact aluOverflow_sub _ _
  all_goals first
    | exact absurd hi Bool.false_ne_true
    | exact iff_of_false Bool.false_ne_true id

end Alu

/-- A link leaves the address behind its delay slot. -/
theorem result_of_links (h : i.links = true) (w pc s t : Word) :
    i.result w pc s t = pc + 8#32 := by
  cases i <;> first | rfl | exact absurd h Bool.false_ne_true

section Quiet

variable {d : IssueData} {r : Operands}

/-- Of the causes that E looks for, an integer instruction can have the overflow only. -/
theorem misalign_of_plain (h : Plain d.ctl) :
    loadMisalign d r = false ∧ storeMisalign d r = false ∧ trapOf d r = false ∧
      moveFails d r = false := by
  refine ⟨?_, ?_, ?_, ?_⟩
  · simp [loadMisalign, h.memory.1]
  · simp [storeMisalign, h.memory.2]
  · simp [trapOf, h.tne]
  · simp [moveFails, h.op.1, h.op.2]

/-- Without the other sources of the last stage, the value is that of E. -/
theorem writebackData_of_plain {m : MemoryData} (s : SpecialRead) (hm : m.ctl.memtoreg = false)
    (hp : m.ctl.hitoreg = false ∧ m.ctl.lotoreg = false ∧ m.ctl.cp0toreg = false)
    (hsc : m.ctl.sc = false) (hw : m.ctl.regwrite = true) :
    writebackData m s = m.aluOutExt.extractLsb' 0 32 := by
  simp [writebackData, hm, hp, hsc, hw]

end Quiet

end Instruction

theorem Cp0Type.leaves_charge (b : Bool) (e : TlbExc) :
    (Cp0Type.charge (if b then .exception else .noExc) e).leaves = (b || e.any) := by
  cases b <;> cases he : e.any <;> simp [Cp0Type.charge, Cp0Type.leaves, he]

namespace Instruction

/-- What an integer instruction leaves in W. It is `cancelled` by an exception of the other
instruction of its group, and its overflow is `hidden` behind an older one. -/
structure Computes (i : Instruction) (f : FetchData) (regs : RegFile)
    (hidden cancelled : Bool) (m : MemoryData) : Prop where
  overflow : hidden = false → (m.cp0Ctl.etype.overflow = true ↔
    i.Overflows f.rawInstr (regs (rs f.rawInstr)) (regs (rt f.rawInstr)))
  raised : hidden = false →
    i.Overflows f.rawInstr (regs (rs f.rawInstr)) (regs (rt f.rawInstr)) →
    m.cp0Ctl.ctype = .exception
  writes : ∀ s, (writeback m s).valid = true ↔ i.dest f.rawInstr ≠ 0#5 ∧
    ¬ i.Overflows f.rawInstr (regs (rs f.rawInstr)) (regs (rt f.rawInstr)) ∧
    cancelled = false
  result : ∀ s, (writeback m s).valid = true → (writeback m s).wa = i.dest f.rawInstr ∧
    (writeback m s).wd =
      i.result f.rawInstr f.pc (regs (rs f.rawInstr)) (regs (rt f.rawInstr))

theorem Issued.plain {i : Instruction} {f : FetchData} {d : IssueData} (hd : i.Issued f d)
    (hi : i.isInteger = true) : Plain d.ctl := by
  have hp : Plain (i.control f.rawInstr) := plain_of_isInteger hi
  rw [hd.ctl_eq (not_slipped_of_isInteger hi)]
  exact ⟨hp.memory, hp.special, hp.sc, hp.tne, hp.multiOp, hp.op⟩

section Group

variable {i : Instruction} {f : FetchData} {dataI : Pair IssueData} {env : GroupEnv}
variable {regs : RegFile}

/-- The younger instruction of the group is refused by the TLB: its outcome is charged to the
older one. -/
def cancelled1 (dataI : Pair IssueData) (env : GroupEnv) : Bool :=
  (ownOutcome dataI env).slot0.any

/-- The older instruction leaves through `cp0`, or an access of the group is refused. -/
def cancelled0 (dataI : Pair IssueData) (env : GroupEnv) : Bool :=
  (groupE dataI env).slot1.cp0Ctl.ctype.leaves || (ownOutcome dataI env).slot0.any ||
    (ownOutcome dataI env).slot1.any

theorem computes_slot1 (hi : i.isInteger = true) (hd : i.Issued f dataI.slot1)
    (hr : Reads dataI.slot1 env.rd.slot1 regs) :
    i.Computes f regs false (cancelled1 dataI env) (groupW dataI env).slot1 := by
  have hs := not_slipped_of_isInteger hi
  have hplain := hd.plain hi
  obtain ⟨hl, hst, ht, hmv⟩ := misalign_of_plain (r := env.rd.slot1) hplain
  have hcp0 : dataI.slot1.cp0Ctl = f.cp0Ctl := by
    rw [hd.cp0Ctl_eq hs, record_of_isInteger hi]
  have hov := exceptionOf_iff hi hd hr
  have hany : (found1 dataI env.rd).any = exceptionOf dataI.slot1 env.rd.slot1 := by
    simp [Found.any, found1, hl, hst, ht]
  have hleaves : (groupW dataI env).slot1.cp0Ctl.ctype.leaves =
      (exceptionOf dataI.slot1 env.rd.slot1 || cancelled1 dataI env) := by
    rw [groupW_slot1_ctype, groupE_slot1_ctype, hany, hcp0, hd.clean.1, Cp0Type.leaves_charge]
    rfl
  have hregwrite : (groupW dataI env).slot1.ctl.regwrite = (i.dest f.rawInstr != 0#5) := by
    change (dataI.slot1.ctl.regwrite && !moveFails dataI.slot1 env.rd.slot1) = _
    rw [hmv, hd.ctl_eq hs]
    exact Bool.and_true _
  have hvalid : (groupW dataI env).slot1.valid = true := hd.carries.valid.trans hd.valid
  have hwrites : ∀ s, (writeback (groupW dataI env).slot1 s).valid = true ↔
      i.dest f.rawInstr ≠ 0#5 ∧
        ¬ i.Overflows f.rawInstr (regs (rs f.rawInstr)) (regs (rt f.rawInstr)) ∧
        cancelled1 dataI env = false := by
    intro s
    simp only [writeback, hleaves, hregwrite, hvalid, ← hov]
    cases exceptionOf dataI.slot1 env.rd.slot1 <;> cases cancelled1 dataI env <;> simp
  refine ⟨fun _ => ?_, fun _ ho => ?_, hwrites, fun s hw => ⟨hd.rdst_eq hs, ?_⟩⟩
  · change (dataI.slot1.cp0Ctl.etype.overflow || exceptionOf dataI.slot1 env.rd.slot1) = true ↔ _
    rw [hcp0, hd.clean.2, Bool.false_or]
    exact hov
  · rw [groupW_slot1_ctype, groupE_slot1_ctype, hany, hov.2 ho, if_pos rfl,
      Cp0Type.charge_exception]
  · have hdest := ((hwrites s).1 hw).1
    change writebackData (groupW dataI env).slot1 s = _
    have hmem : (groupW dataI env).slot1.ctl.memtoreg = false := by
      change (dataI.slot1.ctl.memtoreg && _) = false
      rw [hplain.memory.1, Bool.false_and]
    rw [writebackData_of_plain s hmem hplain.special hplain.sc
      (by rw [hregwrite, bne_iff_ne]; exact hdest)]
    change (aluOutExt1 dataI env.rd env.u).extractLsb' 0 32 = _
    have hlink : dataI.slot1.ctl.isLink = i.links := by
      rw [hd.ctl_eq hs]
      exact isLink_control
    rw [aluOutExt1, hlink, hplain.multiOp.1, hplain.multiOp.2]
    cases hk : i.links with
    | true =>
      rw [if_pos rfl, extractLsb'_setWidth_word, hd.carries.pc, result_of_links hk]
    | false =>
      rw [if_neg Bool.false_ne_true, Bool.or_self, if_neg Bool.false_ne_true,
        extractLsb'_setWidth_word, aluOut_eq_result hi hd hr hk]

/-- The control record of slot 0 behind M1, for the bits that a squash does not touch. -/
theorem groupW_slot0_plain (h : Plain dataI.slot0.ctl) :
    Plain (groupW dataI env).slot0.ctl := by
  rw [groupW_slot0_ctl]
  split
  · exact ⟨⟨rfl, by simp [Control.squashWrites, executeCtl0, h.memory.2]⟩, h.special, h.sc,
      h.tne, h.multiOp, h.op⟩
  · exact ⟨⟨by simp [executeCtl0, h.memory.1], by simp [executeCtl0, h.memory.2]⟩, h.special,
      h.sc, h.tne, h.multiOp, h.op⟩

theorem computes_slot0 (hi : i.isInteger = true) (hk : i.links = false)
    (hd : i.Issued f dataI.slot0) (hr : Reads dataI.slot0 env.rd.slot0 regs) :
    i.Computes f regs (exceptionOf dataI.slot1 env.rd.slot1) (cancelled0 dataI env)
      (groupW dataI env).slot0 := by
  have hs := not_slipped_of_isInteger hi
  have hplain := hd.plain hi
  have hplainW : Plain (groupW dataI env).slot0.ctl := groupW_slot0_plain hplain
  obtain ⟨hl, hst, ht, hmv⟩ := misalign_of_plain (r := env.rd.slot0) hplain
  have hcp0 : dataI.slot0.cp0Ctl = f.cp0Ctl := by
    rw [hd.cp0Ctl_eq hs, record_of_isInteger hi]
  have hov := exceptionOf_iff hi hd hr
  have hany : (found0 dataI env.rd).any =
      (!exceptionOf dataI.slot1 env.rd.slot1 && exceptionOf dataI.slot0 env.rd.slot0) := by
    simp [Found.any, found0, hl, hst, ht]
  -- an older overflow leaves through `cp0`, so it cancels
  have hhid : cancelled0 dataI env = false → exceptionOf dataI.slot1 env.rd.slot1 = false := by
    intro hc
    rw [Bool.eq_false_iff]
    intro ho
    have hf : (found1 dataI env.rd).any = true := by
      simp [Found.any, found1, ho]
    simp only [cancelled0, groupE_slot1_ctype, hf, if_true, Bool.or_eq_false_iff] at hc
    exact absurd hc.1.1 (by decide)
  have hleaves : (groupW dataI env).slot0.cp0Ctl.ctype.leaves =
      ((!exceptionOf dataI.slot1 env.rd.slot1 && exceptionOf dataI.slot0 env.rd.slot0) ||
        (ownOutcome dataI env).slot1.any) := by
    rw [groupW_slot0_ctype, groupE_slot0_ctype, hany, hcp0, hd.clean.1, Cp0Type.leaves_charge]
  have hregwrite : (groupW dataI env).slot0.ctl.regwrite =
      (!cancelled0 dataI env && (i.dest f.rawInstr != 0#5)) := by
    rw [groupW_slot0_ctl, ← cancelled0]
    cases cancelled0 dataI env with
    | true => rfl
    | false =>
      change (dataI.slot0.ctl.regwrite && !moveFails dataI.slot0 env.rd.slot0) = _
      rw [hmv, hd.ctl_eq hs]
      exact Bool.and_true _
  have hvalid : (groupW dataI env).slot0.valid = !exceptionOf dataI.slot1 env.rd.slot1 := by
    change (!exceptionOf dataI.slot1 env.rd.slot1 && dataI.slot0.valid) = _
    rw [hd.carries.valid, hd.valid, Bool.and_true]
  have hwrites : ∀ s, (writeback (groupW dataI env).slot0 s).valid = true ↔
      i.dest f.rawInstr ≠ 0#5 ∧
        ¬ i.Overflows f.rawInstr (regs (rs f.rawInstr)) (regs (rt f.rawInstr)) ∧
        cancelled0 dataI env = false := by
    intro s
    simp only [writeback, hleaves, hregwrite, hvalid, ← hov]
    cases hc : cancelled0 dataI env with
    | true => simp
    | false =>
      have ho : (ownOutcome dataI env).slot1.any = false := by
        simp only [cancelled0, Bool.or_eq_false_iff] at hc
        exact hc.2
      rw [hhid hc, ho]
      cases exceptionOf dataI.slot0 env.rd.slot0 <;> simp
  refine ⟨fun hh => ?_, fun hh ho => ?_, hwrites, fun s hw => ⟨hd.rdst_eq hs, ?_⟩⟩
  · change (dataI.slot0.cp0Ctl.etype.overflow ||
      (!exceptionOf dataI.slot1 env.rd.slot1 && exceptionOf dataI.slot0 env.rd.slot0)) = true ↔ _
    rw [hcp0, hd.clean.2, hh, Bool.not_false, Bool.true_and, Bool.false_or]
    exact hov
  · rw [groupW_slot0_ctype, groupE_slot0_ctype, hany, hh, hov.2 ho, Bool.not_false,
      Bool.and_self, if_pos rfl, Cp0Type.charge_exception]
  · obtain ⟨hdest, -, hc⟩ := (hwrites s).1 hw
    change writebackData (groupW dataI env).slot0 s = _
    rw [writebackData_of_plain s hplainW.memory.1 hplainW.special hplainW.sc
      (by rw [hregwrite, hc, Bool.not_false, Bool.true_and, bne_iff_ne]; exact hdest)]
    change (aluOutExt0 dataI env.rd env.u).extractLsb' 0 32 = _
    rw [aluOutExt0, hplain.multiOp.1, hplain.multiOp.2, Bool.or_self,
      if_neg Bool.false_ne_true, extractLsb'_setWidth_word, aluOut_eq_result hi hd hr hk]

/-- A link never leaves the queue as the younger one of a pair. -/
theorem links_not_issued_younger (hk : i.links = true) (he : i.Encodes f.rawInstr)
    (hv : f.valid = true) (hc : f.cp0Ctl.Clean) (c : DecodeData) (preB : Bool) (prePc : Word)
    (b : Pair PortBypass) : issueEn2 c (decodeSlot f preB prePc) b = false := by
  have hs : ¬ i.Slipped := by
    rintro (rfl | rfl | rfl) <;> exact absurd hk Bool.false_ne_true
  have hctl : (decodeSlot f preB prePc).ctl = (i.decoded f.rawInstr f.cp0Ctl).ctl := by
    change (decoder f.rawInstr f.valid f.cp0Ctl).ctl = _
    rw [hv, decoder_eq he hs hc]
  have ht : (i.control f.rawInstr).branch = true ∨ (i.control f.rawInstr).jump = true := by
    cases i
    case jal | jalr => exact Or.inr rfl
    case bgezal | bltzal => exact Or.inl rfl
    all_goals exact absurd hk Bool.false_ne_true
  have ht' : (decodeSlot f preB prePc).ctl.branch = true ∨
      (decodeSlot f preB prePc).ctl.jump = true := by
    rw [hctl]
    exact ht
  rcases ht' with h | h <;> simp [issueEn2, h]

end Group

/-- The integer instructions compute their result in a group that goes from E to W, as the
older instruction or as the younger one; the links are always the older one. -/
structure EndToEnd (i : Instruction) (f : FetchData) (regs : RegFile)
    (dataI : Pair IssueData) (env : GroupEnv) : Prop where
  slot1 : i.Issued f dataI.slot1 → Reads dataI.slot1 env.rd.slot1 regs →
    i.Computes f regs false (cancelled1 dataI env) (groupW dataI env).slot1
  slot0 : i.links = false → i.Issued f dataI.slot0 → Reads dataI.slot0 env.rd.slot0 regs →
    i.Computes f regs (exceptionOf dataI.slot1 env.rd.slot1) (cancelled0 dataI env)
      (groupW dataI env).slot0
  older : i.links = true → i.Encodes f.rawInstr → f.valid = true → f.cp0Ctl.Clean →
    ∀ c preB prePc b, issueEn2 c (decodeSlot f preB prePc) b = false

/-- For every integer instruction, all register contents and immediates, and either slot. -/
theorem integer_end_to_end (i : Instruction) (hi : i.isInteger = true) (f : FetchData)
    (regs : RegFile) (dataI : Pair IssueData) (env : GroupEnv) :
    i.EndToEnd f regs dataI env where
  slot1 hd hr := computes_slot1 hi hd hr
  slot0 hk hd hr := computes_slot0 hi hk hd hr
  older hk he hv hc c preB prePc b := links_not_issued_younger hk he hv hc c preB prePc b

/-- `ADDI $2,$1,-1` at the head of a group. -/
theorem integer_end_to_end_addi :
    addi.EndToEnd { valid := true, rawInstr := 0x2022ffff#32 } (fun _ => 1#32)
      ⟨issueRecord (decodeSlot { valid := true, rawInstr := 0x2022ffff#32 } false 0#32) {} 1#32
        1#32, {}⟩ { rd := ⟨⟨1#32, 1#32⟩, {}⟩ } :=
  integer_end_to_end addi rfl _ _ _ _

end Instruction

end FrailCPU
