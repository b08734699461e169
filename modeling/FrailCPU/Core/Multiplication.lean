import FrailCPU.Core.Division
import FrailCPU.Core.Integer

/-!
# The products that leave E

The multiplier loads its partial products anew in every cycle, and `done` only tells that a
cycle has passed since the instruction was seen in E. What is added up is therefore the
product of the operands of the cycle before, however long the instruction has been stalled.
-/

namespace FrailCPU

open Instr

namespace Instruction

/-- The instructions that leave E with a product. -/
def multiplies : Instruction → Bool
  | mult | multu | mul | madd | msub => true
  | _ => false

/-- `x` is the full product of the operands, which `MULTU` takes as unsigned numbers. -/
def IsProduct (k : Instruction) (rd : Operands) (x : BitVec 64) : Prop :=
  if k = .multu then x.toNat = rd.rd1.toNat * rd.rd2.toNat
  else x.toInt = rd.rd1.toInt * rd.rd2.toInt

instance (k : Instruction) (rd : Operands) (x : BitVec 64) : Decidable (k.IsProduct rd x) :=
  inferInstanceAs (Decidable (ite _ _ _))

variable {k : Instruction} {w : Word}

theorem toInt_mulOf (rd : Operands) : (mulOf true rd).toInt = rd.rd1.toInt * rd.rd2.toInt := by
  have h1 : -2 ^ 31 ≤ rd.rd1.toInt ∧ rd.rd1.toInt ≤ 2 ^ 31 :=
    ⟨BitVec.le_toInt rd.rd1, Int.le_of_lt BitVec.toInt_lt⟩
  have h2 : -2 ^ 31 ≤ rd.rd2.toInt ∧ rd.rd2.toInt ≤ 2 ^ 31 :=
    ⟨BitVec.le_toInt rd.rd2, Int.le_of_lt BitVec.toInt_lt⟩
  have habs : |rd.rd1.toInt * rd.rd2.toInt| ≤ 2 ^ 31 * 2 ^ 31 := by
    rw [abs_mul]
    exact mul_le_mul (abs_le.mpr h1) (abs_le.mpr h2) (abs_nonneg _) (by norm_num)
  obtain ⟨hlo, hhi⟩ := abs_le.mp habs
  change (rd.rd1.signExtend 64 * rd.rd2.signExtend 64).toInt = _
  rw [BitVec.toInt_mul, BitVec.toInt_signExtend_of_le (by omega),
    BitVec.toInt_signExtend_of_le (by omega)]
  exact Int.bmod_eq_of_le (by omega) (by omega)

theorem toNat_mulOf (rd : Operands) :
    (mulOf false rd).toNat = rd.rd1.toNat * rd.rd2.toNat := by
  have h : rd.rd1.toNat * rd.rd2.toNat < 2 ^ 32 * 2 ^ 32 :=
    Nat.mul_lt_mul'' rd.rd1.isLt rd.rd2.isLt
  change (rd.rd1.setWidth 64 * rd.rd2.setWidth 64).toNat = _
  rw [BitVec.toNat_mul, BitVec.toNat_setWidth_of_le (by omega),
    BitVec.toNat_setWidth_of_le (by omega)]
  exact Nat.mod_eq_of_lt h

theorem isProduct_mulOf (k : Instruction) (rd : Operands) :
    k.IsProduct rd (mulOf (k != .multu) rd) := by
  unfold IsProduct
  split
  · rename_i hk
    rw [hk]
    exact toNat_mulOf rd
  · rename_i hk
    rw [bne_iff_ne.mpr hk]
    exact toInt_mulOf rd

/-- The record of a multiplication, whatever it was fetched with. -/
theorem decoder_multiplies (hk : k.multiplies = true) (he : k.Encodes w) (old : Cp0Control) :
    (decoder w true old).ctl = { k.control w with regwrite := k.dest w != 0#5 } ∧
      (decoder w true old).destreg = k.dest w := by
  change (decodeOp w (presetDecoded w _)).dropZeroWrite.ctl = _ ∧
    (decodeOp w (presetDecoded w _)).dropZeroWrite.destreg = _
  cases k
  case madd | msub | mul =>
    obtain ⟨h1, h2⟩ := he
    rw [decodeOp_special2 h1, decodeSpecial2, h2]
    exact ⟨rfl, rfl⟩
  case mult | multu =>
    obtain ⟨h1, h2⟩ := he
    rw [decodeOp_special h1, decodeSpecial, h2]
    exact ⟨rfl, rfl⟩
  all_goals exact absurd hk Bool.false_ne_true

/-- The bits that send a multiplication to the multiplier. -/
theorem control_multiplies (hk : k.multiplies = true) :
    (k.control w).mul = true ∧ (k.control w).div = false ∧ (k.control w).isLink = false ∧
      (k.control w).signedMulDiv = (k != .multu) := by
  cases k
  case mult | multu | madd | msub | mul => exact ⟨rfl, rfl, rfl, rfl⟩
  all_goals exact absurd hk Bool.false_ne_true

end Instruction

/-- Every record in E is that of a fetched word. -/
def Carried (dataI : Pair IssueData) : Prop :=
  dataI.Each fun d => d.valid = true → ∃ f, d.Carries f

/-- If the instruction of a slot multiplies, then `x` is the product of its own operands. -/
def OwnProduct (d : IssueData) (rd : Operands) (x : BitVec 64) : Prop :=
  ∀ k : Instruction, k.multiplies = true → d.valid = true → k.Encodes d.rawInstr →
    k.IsProduct rd x

/-- A `MUL` that reaches W as `m` writes the low word of `x` to its register. -/
def WritesLow (d : IssueData) (x : BitVec 64) (m : MemoryData) : Prop :=
  d.valid = true → Instruction.mul.Encodes d.rawInstr → ∀ sr : SpecialRead,
    (writeback m sr).valid = (rd d.rawInstr != 0#5) ∧
      (rd d.rawInstr ≠ 0#5 → (writeback m sr).wa = rd d.rawInstr ∧
        (writeback m sr).wd = x.extractLsb' 0 32)

/-- What becomes of a group behind E, for any translation and any answer of the cache. -/
def landing (dataE : Pair ExecuteData) (mmu : MmuState) (respData : Pair Word) :
    Pair MemoryData :=
  memory3 (memory dataE (memoryExc mmu dataE)) respData

/-- A slot and the one in front of it do not leave through `cp0`. -/
structure LowWords (dataI : Pair IssueData) (dataE : Pair ExecuteData) (w : Pair MemoryData) :
    Prop where
  slot1 : w.slot1.cp0Ctl.ctype.leaves = false →
    WritesLow dataI.slot1 dataE.slot1.aluOutExt w.slot1
  slot0 : w.slot1.cp0Ctl.ctype.leaves = false → w.slot0.cp0Ctl.ctype.leaves = false →
    WritesLow dataI.slot0 dataE.slot0.aluOutExt w.slot0

section Landing

variable {dataI : Pair IssueData} {env : GroupEnv} {k : Instruction}

theorem Carried.slot {d : IssueData} (h : d.valid = true → ∃ f, d.Carries f)
    (hk : k.multiplies = true) (hv : d.valid = true) (he : k.Encodes d.rawInstr) :
    d.ctl = { k.control d.rawInstr with regwrite := k.dest d.rawInstr != 0#5 } ∧
      d.rdst = k.dest d.rawInstr := by
  obtain ⟨f, hf⟩ := h hv
  have hfv : f.valid = true := hf.valid.symm.trans hv
  rw [hf.ctl, hf.rdst, hfv, hf.rawInstr]
  exact Instruction.decoder_multiplies hk (hf.rawInstr ▸ he) f.cp0Ctl

/-- The value that a record with the bits of `MUL` writes. -/
theorem writesLow_of_ctl {d : IssueData} {m : MemoryData}
    (hc : d.valid = true → Instruction.mul.Encodes d.rawInstr →
      m.valid = true ∧ m.rdst = rd d.rawInstr ∧ m.ctl.regwrite = (rd d.rawInstr != 0#5) ∧
        m.ctl.memtoreg = false ∧ m.ctl.sc = false ∧
        (m.ctl.hitoreg = false ∧ m.ctl.lotoreg = false ∧ m.ctl.cp0toreg = false))
    (hl : m.cp0Ctl.ctype.leaves = false) : WritesLow d m.aluOutExt m := by
  intro hv he sr
  obtain ⟨hmv, hrdst, hw, hmem, hsc, hsp⟩ := hc hv he
  refine ⟨?_, fun hrd => ⟨hrdst, ?_⟩⟩
  · rw [writeback, hl, if_neg Bool.false_ne_true, hw, hmv, Bool.and_true]
  · exact Instruction.writebackData_of_plain sr hmem hsp hsc (by rw [hw, bne_iff_ne]; exact hrd)

theorem moveFails_mul {d : IssueData} {r : Operands} {w : Word}
    (h : d.ctl = { Instruction.mul.control w with regwrite := Instruction.mul.dest w != 0#5 }) :
    moveFails d r = false := by
  rw [moveFails, h]
  rfl

theorem Cp0Type.stays_charge {t : Cp0Type} {e : TlbExc} (h : (t.charge e).leaves = false) :
    t.leaves = false ∧ e.any = false := by
  cases he : e.any with
  | true =>
      rw [Cp0Type.charge_any he] at h
      cases h
  | false =>
      rw [Cp0Type.charge, he, if_neg Bool.false_ne_true] at h
      exact ⟨h, rfl⟩

/-- A group that commits has lost nothing on the way. -/
theorem kept_of_stays (h1 : (groupW dataI env).slot1.cp0Ctl.ctype.leaves = false)
    (h0 : (groupW dataI env).slot0.cp0Ctl.ctype.leaves = false) :
    (groupW dataI env).slot0.ctl = executeCtl0 dataI env.rd ∧
      (groupW dataI env).slot0.valid = dataI.slot0.valid := by
  obtain ⟨hE, h0a⟩ := Cp0Type.stays_charge (e := (ownOutcome dataI env).slot0) h1
  obtain ⟨-, h1a⟩ := Cp0Type.stays_charge (e := (ownOutcome dataI env).slot1) h0
  have ho : exceptionOf dataI.slot1 env.rd.slot1 = false := by
    rw [Bool.eq_false_iff]
    intro ho
    rw [groupE_slot1_ctype, show (found1 dataI env.rd).any = true by simp [Found.any, found1, ho]]
      at hE
    cases hE
  constructor
  · rw [groupW_slot0_ctl, hE, h0a, h1a]
    rfl
  · change (!exceptionOf dataI.slot1 env.rd.slot1 && dataI.slot0.valid) = _
    rw [ho]
    rfl

theorem lowWords_of_carried (hc : Carried dataI) :
    LowWords dataI (groupE dataI env) (groupW dataI env) where
  slot1 hl := by
    refine writesLow_of_ctl (fun hv he => ?_) hl
    obtain ⟨hctl, hrdst⟩ := Carried.slot hc.slot1 rfl hv he
    change _ ∧ _ ∧ (dataI.slot1.ctl.regwrite && !moveFails dataI.slot1 env.rd.slot1) = _ ∧
      (dataI.slot1.ctl.memtoreg && _) = false ∧ dataI.slot1.ctl.sc = false ∧
      dataI.slot1.ctl.hitoreg = false ∧ dataI.slot1.ctl.lotoreg = false ∧
      dataI.slot1.ctl.cp0toreg = false
    rw [moveFails_mul hctl, hctl]
    exact ⟨hv, hrdst, Bool.and_true _, rfl, rfl, rfl, rfl, rfl⟩
  slot0 hl1 hl0 := by
    refine writesLow_of_ctl (fun hv he => ?_) hl0
    obtain ⟨hctl, hrdst⟩ := Carried.slot hc.slot0 rfl hv he
    obtain ⟨hkept, hvalid⟩ := kept_of_stays hl1 hl0
    rw [hkept, hvalid]
    change _ ∧ _ ∧ (dataI.slot0.ctl.regwrite && !moveFails dataI.slot0 env.rd.slot0) = _ ∧
      (dataI.slot0.ctl.memtoreg && _ && _) = false ∧ dataI.slot0.ctl.sc = false ∧
      dataI.slot0.ctl.hitoreg = false ∧ dataI.slot0.ctl.lotoreg = false ∧
      dataI.slot0.ctl.cp0toreg = false
    rw [moveFails_mul hctl, hctl]
    exact ⟨hv, hrdst, Bool.and_true _, rfl, rfl, rfl, rfl, rfl⟩

end Landing

namespace UnitCore

variable (s : UnitCore) (i : UnitInput)

/-- The multiplier sees a multiplication for the first time, and E waits for it. -/
def multiplying : Bool := s.multValid && !s.mul.done s.multValid

/-- No operand comes late while the multiplier takes them. -/
def Prompt : Prop :=
  s.multiplying = true → lateOperand s.core.producers s.unitSlot.ra1 = false ∧
    lateOperand s.core.producers s.unitSlot.ra2 = false

instance : Decidable s.Prompt := inferInstanceAs (Decidable (_ → _ ∧ _))

/-- A multiplication that leaves E has its own product with it, and `MUL` writes the low
word of that. -/
structure MultipliesOwn : Prop where
  slot1 : s.leavesE i = true → OwnProduct s.core.dataI.slot1 s.core.operands.slot1
    (s.step i).core.dataE.slot1.aluOutExt
  slot0 : s.leavesE i = true → OwnProduct s.core.dataI.slot0 s.core.operands.slot0
    (s.step i).core.dataE.slot0.aluOutExt
  low : s.leavesE i = true → ∀ mmu respData, LowWords s.core.dataI (s.step i).core.dataE
    (landing (s.step i).core.dataE mmu respData)

section Product

variable {s i}

theorem done_of_leavesE (hl : s.leavesE i = true) (hv : s.multValid = true) :
    s.mul.state = .doing := by
  have he : s.eWait = false := hazard_leaves _ _ _ _ _ _ hl
  rw [eWait, Bool.or_eq_false_iff, hv, Bool.true_and, Bool.not_eq_false'] at he
  cases hst : s.mul.state with
  | doing => rfl
  | init =>
      rw [Multiplier.done, Multiplier.stateNxt, hst] at he
      exact absurd he.2 (by decide)

/-- The multiplier is done one cycle after it has seen the instruction. -/
theorem multiplying_of_doing (h : (s.step i).mul.state = .doing) : s.multiplying = true := by
  change s.mul.stateNxt s.multValid = .doing at h
  rw [multiplying, Multiplier.done, h]
  cases hv : s.multValid with
  | true => rfl
  | false =>
      rw [Multiplier.stateNxt, hv] at h
      cases hst : s.mul.state <;> rw [hst] at h <;> cases h

theorem multValid_of_flushE (h : (s.hazardOut i).flushE = true) :
    (s.step i).multValid = false := by
  have hI : (s.step i).core.dataI = ⟨{}, {}⟩ := by
    change pipereg2 _ _ (s.hazardOut i).flushE _ _ = _
    rw [h]
    rfl
  rw [multValid, hI]
  rfl

/-- When the product is taken, it is that of the operands of this cycle. -/
theorem product_taken {j : UnitInput} (hp : s.Prompt) (hl : (s.step i).leavesE j = true)
    (hv : (s.step i).multValid = true) :
    (s.step i).mul.c = (s.step i).a.setWidth 64 * (s.step i).b.setWidth 64 := by
  have hm : s.multiplying = true := multiplying_of_doing (done_of_leavesE hl hv)
  have he : s.eWait = true := by
    rw [eWait]
    change (_ || s.multiplying) = true
    rw [hm, Bool.or_true]
  have hf : (s.hazardOut i).flushE = false := by
    rw [Bool.eq_false_iff]
    intro hf
    rw [multValid_of_flushE hf] at hv
    cases hv
  obtain ⟨-, ha, hb⟩ := inputs_kept he hf (hp hm)
  rw [ha, hb]
  exact Multiplier.c_next s.mul s.multValid s.a s.b

variable {dataI : Pair IssueData} {rd : Pair Operands} {u : MulDivResult}

theorem hiloData_of_multc (hm : (dataI.slot1.ctl.mul || dataI.slot0.ctl.mul) = true)
    (h : u.multc = (unitA dataI rd).setWidth 64 * (unitB dataI rd).setWidth 64) :
    hiloData dataI rd u = mulOf (signedMulDivOf dataI) (unitOperands dataI rd) := by
  rw [← hiloData_mul dataI rd hm]
  simp only [hiloData, hm, if_true, h, unitResult, Multiplier.c_next]

theorem ownProduct_slot1 (hc : Carried dataI)
    (h : (dataI.slot1.ctl.mul || dataI.slot0.ctl.mul) = true →
      u.multc = (unitA dataI rd).setWidth 64 * (unitB dataI rd).setWidth 64) :
    OwnProduct dataI.slot1 rd.slot1 (aluOutExt1 dataI rd u) := by
  intro k hk hv he
  obtain ⟨hctl, -⟩ := Carried.slot hc.slot1 hk hv he
  obtain ⟨hmul, hdiv, hlink, hsigned⟩ :=
    Instruction.control_multiplies (w := dataI.slot1.rawInstr) hk
  have hm : dataI.slot1.ctl.mul = true := by rw [hctl]; exact hmul
  have hd : dataI.slot1.ctl.div = false := by rw [hctl]; exact hdiv
  have hlk : dataI.slot1.ctl.isLink = false := by rw [hctl]; exact hlink
  have hs : dataI.slot1.ctl.signedMulDiv = (k != .multu) := by rw [hctl]; exact hsigned
  have hown : mulDivSlot1 dataI = true := by rw [mulDivSlot1, hm]; rfl
  have hg : (dataI.slot1.ctl.mul || dataI.slot0.ctl.mul) = true := by rw [hm]; rfl
  have hops : unitOperands dataI rd = rd.slot1 := by simp [unitOperands, multia, multib, hown]
  have hsg : signedMulDivOf dataI = (k != .multu) := by rw [signedMulDivOf, if_pos hown, hs]
  rw [aluOutExt1, hlk, hm, hd, if_neg Bool.false_ne_true, Bool.or_false, if_pos rfl,
    hiloData_of_multc hg (h hg), hops, hsg]
  exact Instruction.isProduct_mulOf k rd.slot1

theorem ownProduct_slot0 (g : HiloGroup dataI) (hc : Carried dataI)
    (h : (dataI.slot1.ctl.mul || dataI.slot0.ctl.mul) = true →
      u.multc = (unitA dataI rd).setWidth 64 * (unitB dataI rd).setWidth 64) :
    OwnProduct dataI.slot0 rd.slot0 (aluOutExt0 dataI rd u) := by
  intro k hk hv he
  obtain ⟨hctl, -⟩ := Carried.slot hc.slot0 hk hv he
  obtain ⟨hmul, hdiv, -, hsigned⟩ :=
    Instruction.control_multiplies (w := dataI.slot0.rawInstr) hk
  have hm : dataI.slot0.ctl.mul = true := by rw [hctl]; exact hmul
  have hs : dataI.slot0.ctl.signedMulDiv = (k != .multu) := by rw [hctl]; exact hsigned
  -- the older instruction uses no unit beside it
  have hmulti := g.multi
  rw [Control.multiOp, Control.multiOp, hm, Bool.or_true, Bool.and_true,
    Bool.or_eq_false_iff] at hmulti
  have hown : mulDivSlot1 dataI = false := by rw [mulDivSlot1, hmulti.1, hmulti.2]; rfl
  have hg : (dataI.slot1.ctl.mul || dataI.slot0.ctl.mul) = true := by rw [hm, Bool.or_true]
  have hops : unitOperands dataI rd = rd.slot0 := by simp [unitOperands, multia, multib, hown]
  have hsg : signedMulDivOf dataI = (k != .multu) := by simp [signedMulDivOf, hown, hs]
  rw [aluOutExt0, hm, Bool.or_true, if_pos rfl, hiloData_of_multc hg (h hg), hops, hsg]
  exact Instruction.isProduct_mulOf k rd.slot0

end Product

section Run

variable {s i}

theorem carried_empty : Carried ⟨{}, {}⟩ where
  slot1 h := by cases h
  slot0 h := by cases h

theorem carried_issueGroup (f1 f2 : FetchData) (preB1 preB2 : Bool) (prePc1 prePc2 : Word)
    (b : Pair PortBypass) (rd1 rd2 : Pair Word) :
    Carried (issueGroup (decodeSlot f1 preB1 prePc1) (decodeSlot f2 preB2 prePc2) b rd1 rd2) where
  slot1 hv := by
    by_cases h : issueEn1 (decodeSlot f1 preB1 prePc1) (decodeSlot f2 preB2 prePc2) b = true
    · exact ⟨f1, issueGroup_slot1_carries f1 preB1 prePc1 h⟩
    · simp only [issueGroup, h] at hv
      cases hv
  slot0 hv := by
    by_cases h : issueEn2 (decodeSlot f1 preB1 prePc1) (decodeSlot f2 preB2 prePc2) b = true
    · exact ⟨f2, issueGroup_slot0_carries f2 preB2 prePc2 h⟩
    · simp only [issueGroup, h] at hv
      cases hv

/-- What holds of the group in E in every reachable state. -/
structure Fed (s : UnitCore) : Prop where
  group : HiloGroup s.core.dataI
  carried : Carried s.core.dataI

theorem fed_reset : Fed {} where
  group := hiloGroup_empty
  carried := carried_empty

theorem Fed.step (h : s.Fed) (i : UnitInput) : (s.step i).Fed where
  group := HiloGroup.step h.group
  carried := by
    change Carried (pipereg2 _ _ _ _ _)
    rw [pipereg2]
    split
    · exact carried_empty
    · split
      · exact h.carried
      · exact carried_issueGroup _ _ _ _ _ _ _ _ _

theorem Fed.multipliesOwn {j : UnitInput} (h : s.Fed) (hp : s.Prompt) :
    (s.step i).MultipliesOwn j := by
  have h' : (s.step i).Fed := h.step i
  constructor
  · intro hl
    rw [dataE_of_leavesE hl]
    exact ownProduct_slot1 h'.carried (product_taken hp hl)
  · intro hl
    rw [dataE_of_leavesE hl]
    exact ownProduct_slot0 h'.group h'.carried (product_taken hp hl)
  · intro hl mmu respData
    rw [dataE_of_leavesE hl]
    let env : GroupEnv :=
      { rd := (s.step i).core.operands
        u := { multc := (s.step i).mul.c, divc := (s.step i).div.c }
        mmu, respData }
    have hlow : LowWords (s.step i).core.dataI (groupE _ env) (groupW _ env) :=
      lowWords_of_carried h'.carried
    exact hlow

theorem fed_run (is : List UnitInput) : (ClockedMachine.run UnitCore.step {} is).Fed :=
  ClockedMachine.run_invariant (fun _ i h => h.step i) fed_reset is

end Run

/-- In every run, with every pattern of stalls: when a multiplication leaves E and no operand
came late in the cycle before, it has the full product of its operands with it. -/
theorem product_own (is : List UnitInput) (i j : UnitInput)
    (h : (ClockedMachine.run UnitCore.step {} is).Prompt) :
    ((ClockedMachine.run UnitCore.step {} is).step i).MultipliesOwn j :=
  (fed_run is).multipliesOwn h

/-- `lui $6, 0x8000` and `mult $6, $6`: the square of the lowest number. -/
def lowestRun : List UnitInput :=
  [.single 0x3c068000#32 0xbfc00000#32, .single 0x00c60018#32 0xbfc00004#32]

theorem product_own_lowest :
    ((ClockedMachine.run UnitCore.step {} lowestRun).step .idle).leavesE .idle = true ∧
      ((ClockedMachine.run UnitCore.step {} lowestRun).step .idle).MultipliesOwn .idle :=
  ⟨by decide +kernel, product_own lowestRun .idle .idle (by decide +kernel)⟩

/-- `lw $2, 0($6)` of a 7, one cycle without an instruction, `movz $2, $5, $6` with a condition
that fails, and `mult $2, $5` with a 3 in `$5`. The multiplication waits for the move, which
then takes its write back and uncovers the load. -/
def lateRun : List UnitInput :=
  [.single 0x24050003#32 0xbfc00000#32, .single 0x3c068000#32 0xbfc00004#32,
    .single 0x8cc20000#32 0xbfc00008#32, .idle, .single 0x00a6100a#32 0xbfc0000c#32,
    .single 0x00450018#32 0xbfc00010#32]

/-- The product is that of 0 and 3, although the 7 has come by. -/
theorem not_product_own :
    ¬ ((ClockedMachine.run UnitCore.step {} lateRun).step
        { respData := ⟨7#32, 7#32⟩ }).MultipliesOwn .idle := by
  intro h
  have hp := h.slot1 (by decide +kernel) .mult rfl (by decide +kernel) (by decide +kernel)
  exact absurd hp (by decide +kernel)

end UnitCore

end FrailCPU
