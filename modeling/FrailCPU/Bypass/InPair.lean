import FrailCPU.Bypass.Network

/-!
# Dependences inside a group

The network looks at older groups only, so slot 0 sees what slot 1 found. The hazard
test of `issueEn2` keeps apart two instructions of which the younger reads what the
older writes, except behind a branch; there the older one can only write its link
register. A delay slot that reads the link register therefore sees the value from
before the branch.
-/

namespace FrailCPU

variable (t : Passage)

/-- What slot 1 leaves in its destination: the output of E, or the value `late` that a
delayed instruction gets in the last stage. -/
def slot1Result (e : ExecuteData) (late : Word) : Word :=
  if e.ctl.delayed then late else e.aluOutExt.extractLsb' 0 32

/-- The registers of a machine that has executed slot 1, when the network's values are
those from before the group. -/
def afterSlot1 (view : CregAddr → Word) (e : ExecuteData) (late : Word) (r : CregAddr) :
    Word :=
  if e.ctl.regwrite && e.rdst == r then slot1Result e late else view r

/-- Slot 0 uses the registers as slot 1 left them. -/
def DependenceRespected (c1 c2 : DecodeData) (u : MulDivResult) (late : Word) : Prop :=
  let dataI := t.group c1 c2
  let rd := dataI.map t.operands
  let after := afterSlot1 t.view (execute dataI rd u).slot1 late
  rd.slot0.rd1 = after c2.ra1 ∧ rd.slot0.rd2 = after c2.ra2

/-- Slot 1 links, slot 0 reads the link register, and the register did not happen to
hold the link address before. -/
def LinkMissed (c1 c2 : DecodeData) : Prop :=
  c1.ctl.isLink = true ∧ c1.ctl.regwrite = true ∧ (c1.rdst = c2.ra1 ∨ c1.rdst = c2.ra2) ∧
    t.view c1.rdst ≠ c1.pc + 8#32

variable {t} {c1 c2 : DecodeData}

theorem group_slot1 (h : t.together c1 c2 = true) :
    (t.group c1 c2).slot1 =
      issueRecord c1 (t.portBypass c1) (t.regs c1.ra1) (t.regs c1.ra2) := by
  simp [Passage.group, issueGroup, issueEn1_of_issueEn2 h]

theorem operands_slot0 (h : t.together c1 c2 = true) :
    t.operands (t.group c1 c2).slot0 = ⟨t.view c2.ra1, t.view c2.ra2⟩ := by
  have h' : issueEn2 c1 c2 ⟨t.portBypass c1, t.portBypass c2⟩ = true := h
  simp only [Passage.group, issueGroup, h', if_true]
  rfl

/-- A write of slot 1 that slot 0 reads is the write of a link. -/
theorem isLink_of_read (hc : c1.WellDecoded) (h : t.together c1 c2 = true)
    (hw : c1.ctl.regwrite = true) (hr : c1.rdst = c2.ra1 ∨ c1.rdst = c2.ra2) :
    c1.ctl.isLink = true := by
  have hz := (issueEn2_together h).hazard
  have ht : c1.ctl.transfers = true := by
    cases ht : c1.ctl.transfers with
    | true => rfl
    | false => rcases hr with hr | hr <;> simp [pairHazard, hw, hr, ht] at hz
  exact hc.coherent.transfers_link ht hw

/-- The link instruction leaves the address behind its delay slot. -/
theorem slot1Result_link (hc : c1.WellDecoded) (h : t.together c1 c2 = true)
    (hl : c1.ctl.isLink = true) (rd : Pair Operands) (u : MulDivResult) (late : Word) :
    slot1Result (execute (t.group c1 c2) rd u).slot1 late = c1.pc + 8#32 := by
  obtain ⟨ha, -, -, -, -, -, -, hd, -, -⟩ :=
    hc.coherent.transfers_plain (hc.coherent.link_transfers hl)
  simp only [Control.accesses, Control.delayed, Bool.or_eq_false_iff] at ha hd
  have hdel : (execute (t.group c1 c2) rd u).slot1.ctl.delayed = false := by
    simp [execute, executeCtl1, group_slot1 h, issueRecord, Control.delayed, hd]
  have hout : (execute (t.group c1 c2) rd u).slot1.aluOutExt = (c1.pc + 8#32).setWidth 64 := by
    simp [execute, aluOutExt1, group_slot1 h, issueRecord, hl]
  rw [slot1Result, hdel, hout]
  simp

/-- What slot 0 should read from a register: the link address if slot 1 links there, and
the network's value otherwise. -/
theorem afterSlot1_read (hc : c1.WellDecoded) (h : t.together c1 c2 = true)
    (rd : Pair Operands) (u : MulDivResult) (late : Word) {r : CregAddr}
    (hr : r = c2.ra1 ∨ r = c2.ra2) :
    afterSlot1 t.view (execute (t.group c1 c2) rd u).slot1 late r =
      if c1.ctl.regwrite && c1.rdst == r then c1.pc + 8#32 else t.view r := by
  have hrdst : (execute (t.group c1 c2) rd u).slot1.rdst = c1.rdst := by
    simp [execute, group_slot1 h, issueRecord]
  by_cases hw : (c1.ctl.regwrite && c1.rdst == r) = true
  · have hw' := hw
    simp only [Bool.and_eq_true, beq_iff_eq] at hw'
    obtain ⟨hreg, rfl⟩ := hw'
    have hl := isLink_of_read hc h hreg hr
    have hop : moveFails (t.group c1 c2).slot1 rd.slot1 = false := by
      have hm : ¬ (c1.ctl.op = .movz ∨ c1.ctl.op = .movn) := fun hm => by
        have := (hc.coherent.move_prompt hm).2.1
        rw [hl] at this
        cases this
      rw [not_or] at hm
      simp [moveFails, group_slot1 h, issueRecord, hm.1, hm.2]
    have hew : (execute (t.group c1 c2) rd u).slot1.ctl.regwrite = true := by
      simp [execute, executeCtl1, hop]
      simp [group_slot1 h, issueRecord, hreg]
    rw [afterSlot1, hew, hrdst, slot1Result_link hc h hl, if_pos hw]
    simp
  · have hew : ((execute (t.group c1 c2) rd u).slot1.ctl.regwrite && c1.rdst == r) = false := by
      rw [Bool.eq_false_iff]
      intro hn
      apply hw
      simp only [Bool.and_eq_true] at hn ⊢
      refine ⟨?_, hn.2⟩
      have h1 := hn.1
      simp only [execute, executeCtl1, Bool.and_eq_true] at h1
      simpa [group_slot1 h, issueRecord] using h1.1
    rw [afterSlot1, hrdst, hew, if_neg hw]
    simp

theorem view_eq_link_iff (r : CregAddr) :
    (t.view r = if c1.ctl.regwrite && c1.rdst == r then c1.pc + 8#32 else t.view r) ↔
      (c1.ctl.regwrite = true → c1.rdst = r → t.view r = c1.pc + 8#32) := by
  by_cases hw : (c1.ctl.regwrite && c1.rdst == r) = true
  · rw [if_pos hw]
    simp only [Bool.and_eq_true, beq_iff_eq] at hw
    simp [hw.1, hw.2]
  · rw [if_neg hw]
    simp only [Bool.and_eq_true, beq_iff_eq, not_and] at hw
    simp only [true_iff]
    intro h1 h2
    exact absurd h2 (hw h1)

/-- Slot 0 of every group sees the registers as slot 1 leaves them, unless slot 1 links
and slot 0 reads the link register. -/
theorem dependence_respected_iff (t : Passage) (f1 f2 : FetchData) (preB : Bool)
    (prePc : Word) (u : MulDivResult) (late : Word)
    (h : t.together (decodeSlot f1 preB prePc) (decodeSlot f2 false 0#32) = true) :
    DependenceRespected t (decodeSlot f1 preB prePc) (decodeSlot f2 false 0#32) u late ↔
      ¬ LinkMissed t (decodeSlot f1 preB prePc) (decodeSlot f2 false 0#32) := by
  have hc := decodeSlot_wellDecoded f1 preB prePc
  generalize decodeSlot f1 preB prePc = c1 at h hc ⊢
  generalize decodeSlot f2 false 0#32 = c2 at h ⊢
  simp only [DependenceRespected, Pair.map_slot0, operands_slot0 h,
    afterSlot1_read hc h _ u late (Or.inl rfl), afterSlot1_read hc h _ u late (Or.inr rfl)]
  rw [view_eq_link_iff, view_eq_link_iff]
  constructor
  · rintro ⟨h1, h2⟩ ⟨-, hw, hr, hne⟩
    rcases hr with hr | hr
    · exact hne (by rw [hr]; exact h1 hw hr)
    · exact hne (by rw [hr]; exact h2 hw hr)
  · intro hn
    have key : ∀ r, r = c2.ra1 ∨ r = c2.ra2 → c1.ctl.regwrite = true → c1.rdst = r →
        t.view r = c1.pc + 8#32 := by
      rintro r hr hw rfl
      by_contra hne
      have hr' : c1.rdst = c2.ra1 ∨ c1.rdst = c2.ra2 := hr
      exact hn ⟨isLink_of_read hc h hw hr', hw, hr', hne⟩
    exact ⟨key c2.ra1 (Or.inl rfl), key c2.ra2 (Or.inr rfl)⟩

/-- `jal` at `0xbfc00000` and, in its delay slot, `addu $2, $31, $0`. -/
def jalWord : FetchData := { valid := true, rawInstr := 0x0ff00000#32, pc := 0xbfc00000#32 }

def readLinkWord : FetchData :=
  { valid := true, rawInstr := 0x03e01021#32, pc := 0xbfc00004#32 }

/-- The two leave together, and what the delay slot reads is described by the theorem. -/
theorem dependence_respected_jal :
    DependenceRespected {} (decodeSlot jalWord false 0#32)
        (decodeSlot readLinkWord false 0#32) {} 0#32 ↔
      ¬ LinkMissed {} (decodeSlot jalWord false 0#32) (decodeSlot readLinkWord false 0#32) :=
  dependence_respected_iff {} jalWord readLinkWord false 0#32 {} 0#32 (by decide)

/-- The delay slot reads zero, the value of the link register before the jump. -/
theorem not_dependence_respected_jal :
    Passage.together {} (decodeSlot jalWord false 0#32)
        (decodeSlot readLinkWord false 0#32) = true ∧
      ¬ DependenceRespected {} (decodeSlot jalWord false 0#32)
        (decodeSlot readLinkWord false 0#32) {} 0#32 := by
  refine ⟨by decide, fun h => ?_⟩
  have h1 := h.1
  revert h1
  decide

end FrailCPU
