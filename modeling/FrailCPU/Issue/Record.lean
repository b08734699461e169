import FrailCPU.Issue.Issue

/-!
# The record of an issued instruction

What the stages behind the queue know of an instruction word is what the decoder said about
it: issue adds the operands and drops the prediction of the younger slot.
-/

namespace FrailCPU

/-- The record is that of the fetched word `f`. -/
structure IssueData.Carries (d : IssueData) (f : FetchData) : Prop where
  valid : d.valid = f.valid
  rawInstr : d.rawInstr = f.rawInstr
  pc : d.pc = f.pc
  imm : d.imm = Instr.imm f.rawInstr
  ctl : d.ctl = (decoder f.rawInstr f.valid f.cp0Ctl).ctl
  rdst : d.rdst = (decoder f.rawInstr f.valid f.cp0Ctl).destreg
  ra1 : d.ra1 = (decoder f.rawInstr f.valid f.cp0Ctl).srcrega
  ra2 : d.ra2 = (decoder f.rawInstr f.valid f.cp0Ctl).srcregb
  cp0Ctl : d.cp0Ctl = (decoder f.rawInstr f.valid f.cp0Ctl).cp0Ctl

section Issued

variable (f : FetchData) (preB : Bool) (prePc : Word)

theorem issueRecord_carries (b : PortBypass) (rd1 rd2 : Word) :
    (issueRecord (decodeSlot f preB prePc) b rd1 rd2).Carries f :=
  ⟨rfl, rfl, rfl, rfl, rfl, rfl, rfl, rfl, rfl⟩

variable {c : DecodeData} {b : Pair PortBypass} {rd1 rd2 : Pair Word}

/-- The older candidate, when it leaves. -/
theorem issueGroup_slot1_carries (h : issueEn1 (decodeSlot f preB prePc) c b = true) :
    (issueGroup (decodeSlot f preB prePc) c b rd1 rd2).slot1.Carries f := by
  simp only [issueGroup, h, if_true]
  exact issueRecord_carries f preB prePc b.slot1 rd1.slot1 rd2.slot1

/-- The younger candidate, when it leaves with the older one. -/
theorem issueGroup_slot0_carries (h : issueEn2 c (decodeSlot f preB prePc) b = true) :
    (issueGroup c (decodeSlot f preB prePc) b rd1 rd2).slot0.Carries f := by
  simp only [issueGroup, h, if_true]
  exact ⟨rfl, rfl, rfl, rfl, rfl, rfl, rfl, rfl, rfl⟩

end Issued

end FrailCPU
