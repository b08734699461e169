import FrailCPU.Core.Integer

/-!
# The instructions whose effect is decided behind the decoder

`MOVZ`, `MOVN`, `TNE`, `SC` and `SW`: E withdraws a register write or raises a trap when it
knows the operands, and the last stage puts the outcome of a conditional store in the place of
the result. What each of them leaves in W is compared with what it should, in either slot of
a group.
-/

namespace FrailCPU

open Instr ByteMemory

inductive Conditional
  | movz | movn | tne | sc | sw
  deriving DecidableEq, Repr

namespace Conditional

variable (c : Conditional)

def instruction : Instruction :=
  match c with
  | movz => .movz
  | movn => .movn
  | tne => .tne
  | sc => .sc
  | sw => .sw

/-- The row of `OP_SW` sets the mark of the conditional store, that of `OP_SC` does not. -/
def decodedSc : Bool :=
  match c with
  | sw => true
  | _ => false

def stores : Bool :=
  match c with
  | sc | sw => true
  | _ => false

/-- What E decides on the operands: a move is withdrawn, a trap is raised. -/
def withdraws (t : Word) : Bool :=
  match c with
  | movz => t != 0#32
  | movn => t == 0#32
  | _ => false

def raises (s t : Word) : Bool :=
  match c with
  | tne => s == t
  | _ => false

variable {c} {w : Word} {old : Cp0Control}

/-- The two stores are decoded with each other's mark. -/
theorem decoder_eq (h : c.instruction.Encodes w) (ho : old.Clean) :
    decoder w true old = { c.instruction.decoded w old with
      ctl := { (c.instruction.decoded w old).ctl with sc := c.decodedSc } } := by
  cases c with
  | movz | movn | tne =>
    rw [Instruction.decoder_eq h (by decide) ho]
    rfl
  | sc | sw =>
    obtain ⟨e, t, y⟩ := old
    obtain ⟨rfl, rfl⟩ := ho
    have h1 : op w = _ := h
    change (decodeOp w (presetDecoded w _)).dropZeroWrite.setReserve = _
    rw [decodeOp, h1]
    rfl

end Conditional

/-- A record of W in which the value `v` is on its way to the register `r`. Register 0 takes no
value. -/
def MemoryData.Leaves (m : MemoryData) (r : CregAddr) (v : Word) : Prop :=
  ∀ s, ((writeback m s).valid = true ↔ r ≠ 0#5) ∧
    (r ≠ 0#5 → (writeback m s).wa = r ∧ (writeback m s).wd = v)

def MemoryData.LeavesNothing (m : MemoryData) : Prop := ∀ s, (writeback m s).valid = false

theorem MemoryData.leaves_of_valid {m : MemoryData} {g : CregAddr} {v : Word}
    (hv : ∀ s, (writeback m s).valid = true ↔ g ≠ 0#5)
    (hw : ∀ s, (writeback m s).valid = true → (writeback m s).wa = g ∧ (writeback m s).wd = v) :
    m.Leaves g v :=
  fun s => ⟨hv s, fun hg => hw s ((hv s).2 hg)⟩

namespace Conditional

/-- The address of a store. -/
def address (f : FetchData) (regs : RegFile) : Word :=
  regs (rs f.rawInstr) + (imm f.rawInstr).signExtend 32

/-- What the instruction should do for the register contents `regs`: in M1 with the request of
`e`, whose own outcome in the TLB is `own`, and in W with the record `m`. -/
def Acts (c : Conditional) (f : FetchData) (regs : RegFile) (e : ExecuteData) (own : TlbExc)
    (m : MemoryData) : Prop :=
  let w := f.rawInstr
  match c with
  | movz => if regs (rt w) = 0#32 then m.Leaves (rd w) (regs (rs w)) else m.LeavesNothing
  | movn => if regs (rt w) ≠ 0#32 then m.Leaves (rd w) (regs (rs w)) else m.LeavesNothing
  | tne => m.cp0Ctl.etype.trap = true ∧ m.cp0Ctl.ctype = .exception ↔
      regs (rs w) ≠ regs (rt w)
  | sc => ¬ AccessKind.word.Misaligned (address f regs) → own.any = false →
      (memoryReq e).valid = true ∧
        (∀ mem : Memory, applyRequest mem (memoryReq e) =
          put (AccessKind.word.place (address f regs)) (regs (rt w)) mem) ∧
        m.Leaves (rt w) 1#32
  | sw => m.LeavesNothing

/-- When the instruction does so. A move needs that its write is not cancelled, a conditional
store that it raises an exception itself or leaves its outcome nowhere. -/
def ActsWhen (c : Conditional) (f : FetchData) (regs : RegFile) (own : TlbExc)
    (cancelled : Bool) : Prop :=
  let w := f.rawInstr
  match c with
  | movz => rd w = 0#5 ∨ regs (rt w) ≠ 0#32 ∨ cancelled = false
  | movn => rd w = 0#5 ∨ regs (rt w) = 0#32 ∨ cancelled = false
  | tne => False
  | sc => AccessKind.word.Misaligned (address f regs) ∨ own.any = true ∨ rt w = 0#5
  | sw => True

/-- What E finds for an instruction that nothing older stands in front of. -/
def foundOf (d : IssueData) (r : Operands) : Found where
  overflow := exceptionOf d r
  adesD := storeMisalign d r
  adelD := loadMisalign d r
  trap := trapOf d r

/-- What is left of an issued instruction in W, by what E finds and by a cancellation. -/
structure Settles (d : IssueData) (r : Operands) (cancelled : Bool) (m : MemoryData) :
    Prop where
  valid : ∀ s, (writeback m s).valid =
    (d.ctl.regwrite && !moveFails d r && !(foundOf d r).any && !cancelled)
  wa : ∀ s, (writeback m s).wa = d.rdst
  wd : ∀ s, (writeback m s).valid = true →
    (writeback m s).wd = if d.ctl.sc then 1#32 else aluOut d r
  trap : m.cp0Ctl.etype.trap = trapOf d r
  ctype : (foundOf d r).any = true → m.cp0Ctl.ctype = .exception

/-- The bits of a record with which its result is the one of the arithmetic unit, or the
outcome of a conditional store. -/
structure Direct (c : Control) : Prop where
  memtoreg : c.memtoreg = false
  special : c.hitoreg = false ∧ c.lotoreg = false ∧ c.cp0toreg = false
  isLink : c.isLink = false
  multiOp : c.mul = false ∧ c.div = false

theorem writebackData_of_direct {m : MemoryData} (s : SpecialRead) (hm : m.ctl.memtoreg = false)
    (hp : m.ctl.hitoreg = false ∧ m.ctl.lotoreg = false ∧ m.ctl.cp0toreg = false)
    (hw : m.ctl.regwrite = true) :
    writebackData m s = if m.ctl.sc then 1#32 else m.aluOutExt.extractLsb' 0 32 := by
  simp [writebackData, hm, hp, hw]

section Issued

variable {c : Conditional} {f : FetchData} {d : IssueData}

section Record

variable (hd : c.instruction.Issued f d)

include hd

theorem ctl_eq : d.ctl = { c.instruction.control f.rawInstr with
    regwrite := c.instruction.dest f.rawInstr != 0#5, sc := c.decodedSc } := by
  rw [hd.carries.ctl, hd.valid, decoder_eq hd.encodes hd.clean]
  rfl

theorem rdst_eq : d.rdst = c.instruction.dest f.rawInstr := by
  rw [hd.carries.rdst, hd.valid, decoder_eq hd.encodes hd.clean]
  rfl

theorem cp0Ctl_eq : d.cp0Ctl = f.cp0Ctl := by
  rw [hd.carries.cp0Ctl, hd.valid, decoder_eq hd.encodes hd.clean]
  cases c <;> rfl

theorem direct : Direct d.ctl := by
  rw [ctl_eq hd]
  cases c <;> exact ⟨rfl, ⟨rfl, rfl, rfl⟩, rfl, ⟨rfl, rfl⟩⟩

theorem rd1_eq {r : Operands} {regs : RegFile} (hr : Instruction.Reads d r regs) :
    r.rd1 = regs (rs f.rawInstr) := by
  rw [hr.rd1, hd.carries.ra1, hd.valid, decoder_eq hd.encodes hd.clean]
  cases c <;> rfl

theorem rd2_eq {r : Operands} {regs : RegFile} (hr : Instruction.Reads d r regs) :
    r.rd2 = regs (rt f.rawInstr) := by
  rw [hr.rd2, hd.carries.ra2, hd.valid, decoder_eq hd.encodes hd.clean]
  cases c <;> rfl

/-- None of the five is a checked addition. -/
theorem exceptionOf_eq (r : Operands) : exceptionOf d r = false := by
  have hf : ∀ a : AluFunc, a ≠ .passa → a ≠ .addu → d.ctl.alufunc ≠ a := by
    intro a hp hu he
    rw [← he, ctl_eq hd] at hp hu
    cases c with
    | movz | movn | tne => exact hp rfl
    | sc | sw => exact hu rfl
  exact exceptionOf_of_alufunc (hf .add (by decide) (by decide))
    (hf .sub (by decide) (by decide))

theorem moveFails_eq {r : Operands} {regs : RegFile} (hr : Instruction.Reads d r regs) :
    moveFails d r = c.withdraws (regs (rt f.rawInstr)) := by
  rw [moveFails, ctl_eq hd, rd2_eq hd hr]
  cases c with
  | movz => exact Bool.or_false _
  | _ => rfl

theorem trapOf_eq {r : Operands} {regs : RegFile} (hr : Instruction.Reads d r regs) :
    trapOf d r = c.raises (regs (rs f.rawInstr)) (regs (rt f.rawInstr)) := by
  rw [trapOf, ctl_eq hd, rd1_eq hd hr, rd2_eq hd hr]
  cases c <;> rfl

theorem memory_eq (hm : c.stores = false) :
    d.ctl.memtoreg = false ∧ d.ctl.memwrite = false ∧ d.ctl.cacheD = false := by
  rw [ctl_eq hd]
  cases c with
  | movz | movn | tne => exact ⟨rfl, rfl, rfl⟩
  | sc | sw => exact absurd hm.symm Bool.false_ne_true

/-- Both stores are stores of a word. -/
theorem sw_controls (hm : c.stores = true) : MemOp.sw.Controls d.ctl := by
  rw [ctl_eq hd]
  cases c with
  | movz | movn | tne => exact absurd hm Bool.false_ne_true
  | sc | sw =>
    exact ⟨rfl, rfl, rfl, rfl, fun h => absurd h (by decide), rfl, rfl, rfl, rfl, rfl, rfl, rfl,
      rfl, rfl⟩

end Record

end Issued

section Slots

variable {c : Conditional} {f : FetchData} {dataI : Pair IssueData} {env : GroupEnv}
variable {regs : RegFile}

/-- The older instruction of the group goes to W without leaving through `cp0`. Issue pairs
none that came with an exception or is an `ERET`. -/
def OlderQuiet (dataI : Pair IssueData) (env : GroupEnv) : Prop :=
  (groupE dataI env).slot1.cp0Ctl.ctype.leaves = false ∧
    (ownOutcome dataI env).slot1.any = false

/-- E finds nothing for a quiet older instruction, and it came without an exception. -/
theorem OlderQuiet.found1_any (hq : OlderQuiet dataI env) : (found1 dataI env.rd).any = false := by
  by_contra hn
  have h := hq.1
  rw [groupE_slot1_ctype, if_pos (by simpa using hn)] at h
  exact absurd h (by decide)

theorem OlderQuiet.passes (hq : OlderQuiet dataI env) : OlderPasses dataI env.rd := by
  have hf := hq.found1_any
  have ht := hq.1
  rw [groupE_slot1_ctype, hf, if_neg Bool.false_ne_true] at ht
  simp only [Found.any, found1, Bool.or_eq_false_iff] at hf
  refine ⟨hf.1.2, hf.1.1.2, hf.1.1.1, fun he => ?_⟩
  rw [he] at ht
  exact absurd ht (by decide)

theorem settles_slot1 (hd : c.instruction.Issued f dataI.slot1) :
    Settles dataI.slot1 env.rd.slot1 (Instruction.cancelled1 dataI env)
      (groupW dataI env).slot1 := by
  have hplain := direct hd
  have hcp0 := cp0Ctl_eq hd
  have hleaves : (groupW dataI env).slot1.cp0Ctl.ctype.leaves =
      ((foundOf dataI.slot1 env.rd.slot1).any || Instruction.cancelled1 dataI env) := by
    rw [groupW_slot1_ctype, groupE_slot1_ctype, hcp0, hd.clean.1, Cp0Type.leaves_charge]
    rfl
  have hvalid : (groupW dataI env).slot1.valid = true := hd.carries.valid.trans hd.valid
  have hv : ∀ s, (writeback (groupW dataI env).slot1 s).valid =
      (dataI.slot1.ctl.regwrite && !moveFails dataI.slot1 env.rd.slot1 &&
        !(foundOf dataI.slot1 env.rd.slot1).any && !Instruction.cancelled1 dataI env) := by
    intro s
    have hreg : (groupW dataI env).slot1.ctl.regwrite =
        (dataI.slot1.ctl.regwrite && !moveFails dataI.slot1 env.rd.slot1) := rfl
    simp only [writeback, hleaves, hvalid, hreg]
    cases (foundOf dataI.slot1 env.rd.slot1).any <;> cases Instruction.cancelled1 dataI env <;> simp
  refine ⟨hv, fun s => rfl, fun s hw => ?_, ?_, fun hf => ?_⟩
  · have hmem : (groupW dataI env).slot1.ctl.memtoreg = false := by
      change (dataI.slot1.ctl.memtoreg && _) = false
      rw [hplain.memtoreg, Bool.false_and]
    have hreg : (groupW dataI env).slot1.ctl.regwrite = true := by
      by_contra hn
      rw [writeback_valid_of_regwrite (by simpa using hn)] at hw
      exact Bool.false_ne_true hw
    change writebackData (groupW dataI env).slot1 s = _
    rw [writebackData_of_direct s hmem hplain.special hreg]
    change (if dataI.slot1.ctl.sc then _ else (aluOutExt1 dataI env.rd env.u).extractLsb' 0 32) = _
    rw [aluOutExt1, hplain.isLink, hplain.multiOp.1, hplain.multiOp.2, if_neg Bool.false_ne_true,
      Bool.or_self, if_neg Bool.false_ne_true, extractLsb'_setWidth_word]
  · change (dataI.slot1.cp0Ctl.etype.trap || _) = _
    rw [hcp0, hd.clean.2]
    exact Bool.false_or _
  · have hfound : (found1 dataI env.rd).any = true := hf
    rw [groupW_slot1_ctype, groupE_slot1_ctype, hfound, if_pos rfl, Cp0Type.charge_exception]

/-- A quiet older instruction hides nothing of what E finds for the younger one. -/
theorem found0_of_quiet (hq : OlderQuiet dataI env) :
    found0 dataI env.rd = foundOf dataI.slot0 env.rd.slot0 := by
  have hf := hq.found1_any
  simp only [Found.any, found1, Bool.or_eq_false_iff] at hf
  simp only [found0, foundOf, hf, Bool.not_false, Bool.true_and]

theorem settles_slot0 (hq : OlderQuiet dataI env) (hd : c.instruction.Issued f dataI.slot0) :
    Settles dataI.slot0 env.rd.slot0 (ownOutcome dataI env).slot0.any
      (groupW dataI env).slot0 := by
  have hplain := direct hd
  have hcp0 := cp0Ctl_eq hd
  have hfound := found0_of_quiet hq
  have hleaves : (groupW dataI env).slot0.cp0Ctl.ctype.leaves =
      (foundOf dataI.slot0 env.rd.slot0).any := by
    rw [groupW_slot0_ctype, groupE_slot0_ctype, hfound, hcp0, hd.clean.1,
      Cp0Type.leaves_charge, hq.2, Bool.or_false]
  have hvalid : (groupW dataI env).slot0.valid = true := by
    change (!exceptionOf dataI.slot1 env.rd.slot1 && dataI.slot0.valid) = true
    rw [hq.passes.overflow, hd.carries.valid, hd.valid]
    rfl
  -- only its own refusal can squash the younger instruction
  have hctl : (groupW dataI env).slot0.ctl = if (ownOutcome dataI env).slot0.any
      then (executeCtl0 dataI env.rd).squashWrites else executeCtl0 dataI env.rd := by
    rw [groupW_slot0_ctl, hq.1, hq.2, Bool.false_or, Bool.or_false]
  have hreg : (groupW dataI env).slot0.ctl.regwrite = (dataI.slot0.ctl.regwrite &&
      !moveFails dataI.slot0 env.rd.slot0 && !(ownOutcome dataI env).slot0.any) := by
    rw [hctl]
    cases (ownOutcome dataI env).slot0.any with
    | true => exact (Bool.and_false _).symm
    | false => exact (Bool.and_true _).symm
  have hv : ∀ s, (writeback (groupW dataI env).slot0 s).valid =
      (dataI.slot0.ctl.regwrite && !moveFails dataI.slot0 env.rd.slot0 &&
        !(foundOf dataI.slot0 env.rd.slot0).any && !(ownOutcome dataI env).slot0.any) := by
    intro s
    simp only [writeback, hleaves, hvalid, hreg]
    cases (foundOf dataI.slot0 env.rd.slot0).any <;> simp
  refine ⟨hv, fun s => rfl, fun s hw => ?_, ?_, fun hf => ?_⟩
  · have hown : (ownOutcome dataI env).slot0.any = false := by
      rw [hv s] at hw
      simp only [Bool.and_eq_true, Bool.not_eq_true'] at hw
      exact hw.2
    have hctl' : (groupW dataI env).slot0.ctl = executeCtl0 dataI env.rd := by
      rw [hctl, hown]
      rfl
    have hmem : (groupW dataI env).slot0.ctl.memtoreg = false := by
      rw [hctl']
      change (dataI.slot0.ctl.memtoreg && _ && _) = false
      rw [hplain.memtoreg, Bool.false_and, Bool.false_and]
    have hspecial : (groupW dataI env).slot0.ctl.hitoreg = false ∧
        (groupW dataI env).slot0.ctl.lotoreg = false ∧
        (groupW dataI env).slot0.ctl.cp0toreg = false := by
      rw [hctl']
      exact hplain.special
    have hsc : (groupW dataI env).slot0.ctl.sc = dataI.slot0.ctl.sc := by
      rw [hctl']
      rfl
    have hreg' : (groupW dataI env).slot0.ctl.regwrite = true := by
      by_contra hn
      rw [writeback_valid_of_regwrite (by simpa using hn)] at hw
      exact Bool.false_ne_true hw
    change writebackData (groupW dataI env).slot0 s = _
    rw [writebackData_of_direct s hmem hspecial hreg', hsc]
    change (if dataI.slot0.ctl.sc then _ else (aluOutExt0 dataI env.rd env.u).extractLsb' 0 32) = _
    rw [aluOutExt0, hplain.multiOp.1, hplain.multiOp.2, Bool.or_self,
      if_neg Bool.false_ne_true, extractLsb'_setWidth_word]
  · change (dataI.slot0.cp0Ctl.etype.trap || (found0 dataI env.rd).trap) = _
    rw [hcp0, hd.clean.2, hfound]
    exact Bool.false_or _
  · rw [groupW_slot0_ctype, groupE_slot0_ctype, hfound, hf, if_pos rfl,
      Cp0Type.charge_exception]

end Slots

section Acts

variable {c : Conditional} {f : FetchData} {d : IssueData} {r : Operands} {regs : RegFile}
variable {e : ExecuteData} {own : TlbExc} {m : MemoryData} {cancelled : Bool}

variable (hd : c.instruction.Issued f d) (hr : Instruction.Reads d r regs)

include hd hr

theorem address_eq : MemOp.address f r = address f regs := by
  rw [MemOp.address, rd1_eq hd hr]
  rfl

omit hr in
/-- E finds a trap or a misaligned store, nothing else. -/
theorem foundOf_any_of_not_stores (hm : c.stores = false) :
    (foundOf d r).any = trapOf d r := by
  obtain ⟨hl, hs, -⟩ := memory_eq hd hm
  simp [Found.any, foundOf, exceptionOf_eq hd, loadMisalign, storeMisalign, hl, hs]

/-- The source operand of a move goes through the arithmetic unit unchanged. -/
theorem aluOut_of_not_stores (hm : c.stores = false) : aluOut d r = regs (rs f.rawInstr) := by
  rw [aluOut, aluA, ctl_eq hd, rd1_eq hd hr]
  cases c with
  | movz | movn | tne => rfl
  | sc | sw => exact absurd hm.symm Bool.false_ne_true

/-- The words whose moves take place. -/
theorem move_acts (h : Settles d r cancelled m) (hm : c.stores = false)
    (hs : c.decodedSc = false) (ht : trapOf d r = false) {dest : CregAddr}
    (hdest : c.instruction.dest f.rawInstr = dest) (hf : moveFails d r = false) :
    m.Leaves dest (regs (rs f.rawInstr)) ↔ dest = 0#5 ∨ cancelled = false := by
  have hsc : d.ctl.sc = false := by
    rw [ctl_eq hd]
    exact hs
  have hv : ∀ s, (writeback m s).valid = ((dest != 0#5) && !cancelled) := by
    intro s
    rw [h.valid, hf, foundOf_any_of_not_stores hd hm, ht, ctl_eq hd, hdest]
    simp
  constructor
  · intro hl
    have hl0 := (hl {}).1
    rw [hv, Bool.and_eq_true, bne_iff_ne, Bool.not_eq_true'] at hl0
    by_cases h0 : dest = 0#5
    · exact Or.inl h0
    · exact Or.inr (hl0.2 h0).2
  · intro hc
    apply MemoryData.leaves_of_valid
    · intro s
      rw [hv, Bool.and_eq_true, bne_iff_ne, Bool.not_eq_true']
      exact ⟨And.left, fun h0 => ⟨h0, hc.resolve_left h0⟩⟩
    · intro s hw
      rw [h.wa, h.wd s hw, hsc, if_neg Bool.false_ne_true, aluOut_of_not_stores hd hr hm,
        rdst_eq hd, hdest]
      exact ⟨rfl, rfl⟩

omit hd hr in
theorem move_leavesNothing (h : Settles d r cancelled m) (hf : moveFails d r = true) :
    m.LeavesNothing := by
  intro s
  rw [h.valid, hf]
  simp

theorem movz_acts_iff (hc : c = movz) (h : Settles d r cancelled m) :
    c.Acts f regs e own m ↔ c.ActsWhen f regs own cancelled := by
  subst hc
  have ht := trapOf_eq hd hr
  have hf := moveFails_eq hd hr
  by_cases hz : regs (rt f.rawInstr) = 0#32
  · have hf' : moveFails d r = false := by
      rw [hf]
      exact bne_eq_false_iff_eq.2 hz
    simp only [Acts, ActsWhen, if_pos hz]
    rw [move_acts hd hr h rfl rfl ht (show _ = rd f.rawInstr from rfl) hf']
    simp only [hz, ne_eq, not_true_eq_false, false_or]
  · have hf' : moveFails d r = true := by
      rw [hf]
      exact bne_iff_ne.2 hz
    simp only [Acts, ActsWhen, if_neg hz]
    exact iff_of_true (move_leavesNothing h hf') (Or.inr (Or.inl hz))

theorem movn_acts_iff (hc : c = movn) (h : Settles d r cancelled m) :
    c.Acts f regs e own m ↔ c.ActsWhen f regs own cancelled := by
  subst hc
  have ht := trapOf_eq hd hr
  have hf := moveFails_eq hd hr
  by_cases hz : regs (rt f.rawInstr) = 0#32
  · have hf' : moveFails d r = true := by
      rw [hf]
      exact beq_iff_eq.2 hz
    simp only [Acts, ActsWhen, if_neg (not_not.2 hz)]
    exact iff_of_true (move_leavesNothing h hf') (Or.inr (Or.inl hz))
  · have hf' : moveFails d r = false := by
      rw [hf]
      exact beq_eq_false_iff_ne.2 hz
    simp only [Acts, ActsWhen, if_pos hz]
    rw [move_acts hd hr h rfl rfl ht (show _ = rd f.rawInstr from rfl) hf']
    simp only [hz, false_or]

/-- `TNE` traps exactly when it should not. -/
theorem not_tne_acts (hc : c = tne) (h : Settles d r cancelled m) :
    ¬ c.Acts f regs e own m := by
  subst hc
  have ht : trapOf d r = (regs (rs f.rawInstr) == regs (rt f.rawInstr)) := trapOf_eq hd hr
  have htrap : m.cp0Ctl.etype.trap = true ∧ m.cp0Ctl.ctype = .exception ↔
      regs (rs f.rawInstr) = regs (rt f.rawInstr) := by
    rw [h.trap, ht, beq_iff_eq]
    refine ⟨And.left, fun he => ⟨he, h.ctype ?_⟩⟩
    rw [foundOf_any_of_not_stores hd rfl, ht, beq_iff_eq]
    exact he
  intro ha
  have := htrap.symm.trans ha
  tauto

omit hr in
theorem sw_leavesNothing (hc : c = sw) (h : Settles d r cancelled m) : m.LeavesNothing := by
  subst hc
  intro s
  rw [h.valid, ctl_eq hd]
  rfl

/-- The store of `SC` is made; the value that follows is the address. -/
theorem sc_acts_iff (hc : c = sc) (h : Settles d r cancelled m) (he : e.Of d r) :
    c.Acts f regs e own m ↔ c.ActsWhen f regs own cancelled := by
  have hk := sw_controls hd (by rw [hc]; rfl)
  have hi := hd.carries.imm
  have ha := address_eq hd hr
  have hv : ∀ s, (writeback m s).valid = (c.instruction.dest f.rawInstr != 0#5 &&
      !moveFails d r && !(foundOf d r).any && !cancelled) := by
    intro s
    rw [h.valid, ctl_eq hd]
  have hsc : d.ctl.sc = false := by
    rw [ctl_eq hd, hc]
    rfl
  subst hc
  constructor
  · intro hs
    by_contra hn
    simp only [ActsWhen, not_or, Bool.not_eq_true] at hn
    obtain ⟨hm, ho, hd0⟩ := hn
    obtain ⟨-, -, hl⟩ := hs hm ho
    have hw := ((hl {}).1).2 hd0
    have h1 := ((hl {}).2 hd0).2
    rw [h.wd {} hw, hsc, if_neg Bool.false_ne_true, MemOp.aluOut_eq_address hk hi, ha] at h1
    -- an aligned address is not the outcome
    exact hm (by rw [h1]; decide)
  · intro hw hm ho
    rw [← ha] at hm
    refine ⟨(MemOp.memoryReq_asks hk hi he hm).1, fun mem => ?_, fun s => ?_⟩
    · rw [MemOp.performs_store hk hi he rfl hm mem, ha, rd2_eq hd hr]
      rfl
    · rw [ha] at hm
      have hd0 : rt f.rawInstr = 0#5 := by
        rcases hw with hw | hw | hw
        · exact absurd hw hm
        · rw [ho] at hw
          exact absurd hw Bool.false_ne_true
        · exact hw
      refine ⟨iff_of_false ?_ (not_not.2 hd0), fun hne => absurd hd0 hne⟩
      rw [hv, show sc.instruction.dest f.rawInstr = 0#5 from hd0]
      simp

theorem acts_iff (h : Settles d r cancelled m) (he : e.Of d r) :
    c.Acts f regs e own m ↔ c.ActsWhen f regs own cancelled := by
  cases c with
  | movz => exact movz_acts_iff hd hr rfl h
  | movn => exact movn_acts_iff hd hr rfl h
  | tne => exact iff_of_false (not_tne_acts hd hr rfl h) id
  | sc => exact sc_acts_iff hd hr rfl h he
  | sw => exact iff_of_true (sw_leavesNothing hd rfl h) trivial

end Acts

/-- A pair does what its conditional instructions should, exactly under `ActsWhen`: the older
one with what the younger one's request cancels, the younger one behind a quiet older one with
no cancellation at all. -/
structure ActsExactly (c : Conditional) (f : FetchData) (regs : RegFile)
    (dataI : Pair IssueData) (env : GroupEnv) : Prop where
  slot1 : c.instruction.Issued f dataI.slot1 →
    Instruction.Reads dataI.slot1 env.rd.slot1 regs →
    (c.Acts f regs (groupE dataI env).slot1 (ownOutcome dataI env).slot1
        (groupW dataI env).slot1 ↔
      c.ActsWhen f regs (ownOutcome dataI env).slot1 (Instruction.cancelled1 dataI env))
  slot0 : OlderQuiet dataI env → c.instruction.Issued f dataI.slot0 →
    Instruction.Reads dataI.slot0 env.rd.slot0 regs →
    (c.Acts f regs (groupE dataI env).slot0 (ownOutcome dataI env).slot0
        (groupW dataI env).slot0 ↔
      c.ActsWhen f regs (ownOutcome dataI env).slot0 false)

/-- A younger instruction without an access is not refused. -/
theorem actsWhen_slot0 {c : Conditional} {f : FetchData} {dataI : Pair IssueData}
    {env : GroupEnv} (regs : RegFile) (hd : c.instruction.Issued f dataI.slot0) :
    c.ActsWhen f regs (ownOutcome dataI env).slot0 (ownOutcome dataI env).slot0.any ↔
      c.ActsWhen f regs (ownOutcome dataI env).slot0 false := by
  cases hm : c.stores with
  | false =>
    obtain ⟨hl, hs, hcd⟩ := memory_eq hd hm
    have hacc : dataI.slot0.ctl.accesses = false := by
      rw [Control.accesses, hl, hs, hcd]
      rfl
    rw [ownOutcome_slot0_of_silent (groupE_slot0_accesses hacc)]
    rfl
  | true => cases c <;> first | exact Iff.rfl | exact absurd hm Bool.false_ne_true

/-- For all operand values, either slot and every other instruction of the pair. -/
theorem conditional_effects_iff (c : Conditional) (f : FetchData) (regs : RegFile)
    (dataI : Pair IssueData) (env : GroupEnv) : c.ActsExactly f regs dataI env where
  slot1 hd hr := acts_iff hd hr (settles_slot1 hd) (execute_slot1_of dataI env.rd env.u)
  slot0 hq hd hr :=
    (acts_iff hd hr (settles_slot0 hq hd) (execute_slot0_of env.u hq.passes)).trans
      (actsWhen_slot0 regs hd)

/-- `TNE $1,$1`. -/
def tneEqual : FetchData := { valid := true, rawInstr := 0x00210036#32 }

def tneGroup : Pair IssueData := ⟨issueRecord (decodeSlot tneEqual false 0#32) {} 0#32 0#32, {}⟩

/-- At the head of a group it traps, and should not. -/
theorem tne_traps_on_equal :
    tne.instruction.Issued tneEqual tneGroup.slot1 ∧
      Instruction.Reads tneGroup.slot1 {} (fun _ => 0#32) ∧
      ¬ tne.Acts tneEqual (fun _ => 0#32) (groupE tneGroup {}).slot1
        (ownOutcome tneGroup {}).slot1 (groupW tneGroup {}).slot1 := by
  refine ⟨⟨by decide, rfl, ⟨rfl, rfl⟩, issueRecord_carries _ _ _ _ _ _⟩, ⟨rfl, rfl⟩, ?_⟩
  intro h
  exact h.1 ⟨rfl, rfl⟩ rfl

end Conditional

end FrailCPU
