import FrailCPU.Issue.Issue

/-!
# A branch and its delay slot

`issueEn1` lets a branch go when its delay slot is there and its operands can be
supplied. `issueEn2` asks more of the delay slot, and when it refuses the branch leaves
alone. The two agree exactly when the delay slot does not write CP0, transfers control
or issues alone, and the branch itself carries no exception; in every run whose cycles
meet this, every branch leaves with its delay slot.
-/

namespace FrailCPU

open ClockedMachine

/-- A branch that leaves takes its delay slot along, and slot 0 never holds a branch. -/
def KeepsDelaySlot (dataI : Pair IssueData) : Prop :=
  (dataI.slot1.ctl.transfers = true →
    dataI.slot0.valid = true ∧ dataI.slot0.isSlot = true) ∧
  dataI.slot0.ctl.transfers = false

/-- The delay slot `c2` is refused behind the branch `c1` although its operands are
ready. -/
def slotRefused (c1 c2 : DecodeData) : Bool :=
  c2.ctl.cp0write || c2.ctl.transfers || c2.ctl.singleIssue ||
    c1.cp0Ctl.ctype == .exception || c1.cp0Ctl.ctype == .eret

/-- The branch is about to leave, and its delay slot will not be refused. -/
def SlotFollows (c1 c2 : DecodeData) (b : Pair PortBypass) : Prop :=
  c1.valid = true → c1.ctl.transfers = true → b.slot1.ready = true →
    c2.valid = true → b.slot0.ready = true → slotRefused c1 c2 = false

section Group

variable {c1 c2 : DecodeData} {b : Pair PortBypass} {rd1 rd2 : Pair Word}

theorem issueEn1_transfers (h : c1.ctl.transfers = true) :
    issueEn1 c1 c2 b = (c1.valid && b.slot1.ready && (c2.valid && b.slot0.ready)) := by
  simp [issueEn1, h]

/-- Behind a branch only the conditions of `slotRefused` are left of `issueEn2`. -/
theorem issueEn2_transfers (hc : c1.ctl.Coherent) (ht : c1.ctl.transfers = true) :
    issueEn2 c1 c2 b = (issueEn1 c1 c2 b && !slotRefused c1 c2) := by
  obtain ⟨-, hh, hcp, -, hs, -, -, hd, hm, hv⟩ := hc.transfers_plain ht
  simp only [Control.writesHilo, Bool.or_eq_false_iff] at hh
  simp only [Control.delayed, Bool.or_eq_false_iff] at hd
  rw [issueEn1_transfers ht]
  simp only [issueEn2, pairHazard, Control.multiOp, slotRefused, issueEn1_transfers ht, ht,
    hh.1, hh.2, hcp, hs, hd.2, hm, hv, Bool.not_true, Bool.and_false, Bool.or_false,
    Bool.false_and, Bool.false_or]
  cases c1.valid <;> cases c2.valid <;> cases b.slot1.ready <;> cases b.slot0.ready <;>
    simp [Control.transfers, Bool.or_comm, Bool.or_left_comm]

theorem slot0_never_transfers (rd1 rd2 : Pair Word) :
    (issueGroup c1 c2 b rd1 rd2).slot0.ctl.transfers = false := by
  simp only [issueGroup]
  split
  · rename_i h
    have ht := issueEn2_together h
    simp [issueRecord, Control.transfers, ht.branch2, ht.jump2]
  · rfl

theorem keepsDelaySlot_iff (hc : c1.ctl.Coherent) :
    KeepsDelaySlot (issueGroup c1 c2 b rd1 rd2) ↔ SlotFollows c1 c2 b := by
  have h0 : (issueGroup c1 c2 b rd1 rd2).slot0.ctl.transfers = false :=
    slot0_never_transfers rd1 rd2
  simp only [KeepsDelaySlot, h0, and_true, SlotFollows]
  cases ht : c1.ctl.transfers with
  | false =>
      have h1 : (issueGroup c1 c2 b rd1 rd2).slot1.ctl.transfers = false := by
        simp only [issueGroup]
        split
        · exact ht
        · rfl
      simp [h1]
  | true =>
      cases he : issueEn1 c1 c2 b with
      | false =>
          have hn := he
          rw [issueEn1_transfers ht] at hn
          have h1 : (issueGroup c1 c2 b rd1 rd2).slot1.ctl.transfers = false := by
            simp [issueGroup, he, Control.transfers]
          simp only [h1, Bool.false_eq_true, false_implies, true_iff]
          intro hv _ hr hv2 hr2
          simp [hv, hr, hv2, hr2] at hn
      | true =>
          have he' := he
          rw [issueEn1_transfers ht] at he'
          simp only [Bool.and_eq_true] at he'
          obtain ⟨⟨hv, hr⟩, hv2, hr2⟩ := he'
          have h1 : (issueGroup c1 c2 b rd1 rd2).slot1.ctl.transfers = true := by
            simp [issueGroup, he, issueRecord, ht]
          have h2 : issueEn2 c1 c2 b = (issueEn1 c1 c2 b && !slotRefused c1 c2) :=
            issueEn2_transfers hc ht
          rw [he, Bool.true_and] at h2
          simp only [h1, true_implies, hv, hr, hv2, hr2]
          cases hs : slotRefused c1 c2 with
          | false => simp [issueGroup, h2, hs, issueRecord, hv2, ht]
          | true => simp [issueGroup, h2, hs]

end Group

/-- The condition of a cycle, on the queue it starts from and on the bypass outputs. -/
def IssueQueue.SlotFollows (q : IssueQueue) (i : IssueInput) : Prop :=
  FrailCPU.SlotFollows q.candidate1 q.candidate2 i.bypass

/-- The group that leaves in a cycle keeps the delay slot of its branch. -/
def IssueQueue.KeepsDelaySlot (q : IssueQueue) (i : IssueInput) : Prop :=
  FrailCPU.KeepsDelaySlot (q.dataI i.bypass i.rd1 i.rd2)

theorem IssueQueue.WellFormed.keepsDelaySlot_iff {q : IssueQueue} (h : q.WellFormed)
    (i : IssueInput) : q.KeepsDelaySlot i ↔ q.SlotFollows i := by
  rw [IssueQueue.KeepsDelaySlot, IssueQueue.dataI_eq]
  exact FrailCPU.keepsDelaySlot_iff h.candidate1.coherent

theorem keepsDelaySlot_along {q : IssueQueue} (h : q.WellFormed) (is : List IssueInput) :
    Along IssueQueue.step IssueQueue.KeepsDelaySlot q is ↔
      Along IssueQueue.step IssueQueue.SlotFollows q is := by
  induction is generalizing q with
  | nil => exact Iff.rfl
  | cons i is ih =>
      rw [along_cons, along_cons, h.keepsDelaySlot_iff i, ih (h.step i)]

/-- In a run of the queue from reset, every cycle lets a branch go only with its delay
slot if and only if no cycle refuses the delay slot of a branch that goes. -/
theorem delaySlot_kept_iff (is : List IssueInput) :
    Along IssueQueue.step IssueQueue.KeepsDelaySlot {} is ↔
      Along IssueQueue.step IssueQueue.SlotFollows {} is :=
  keepsDelaySlot_along IssueQueue.wellFormed_reset is

/-- `beq $1, $2, 1` at `0xbfc00000` with `mtc0 $3, $12` behind it. -/
def beqMtc0 : Pair FetchData where
  slot1 := { valid := true, rawInstr := 0x10220001#32, pc := 0xbfc00000#32 }
  slot0 := { valid := true, rawInstr := 0x40836000#32, pc := 0xbfc00004#32 }

/-- The branch leaves the queue alone when its delay slot writes CP0. -/
theorem not_delaySlot_kept_mtc0 :
    ¬ Along IssueQueue.step IssueQueue.KeepsDelaySlot {} [{ dataF2 := beqMtc0 }, {}] := by
  intro h
  have h1 := (h.2.1.1 (by decide)).1
  revert h1
  decide

end FrailCPU
