import FrailCPU.Execute.Execute
import FrailCPU.Issue.Issue

/-!
# The program counter after an instruction

Where the fetch goes on after the instruction in slot 1, against where the instruction
set says it should. A jump is redirected whenever its prediction names another address.
A branch is redirected only when the direction was wrong, and any other instruction
never, so a prediction that an aliased entry attached to them is followed as it is.
-/

namespace FrailCPU

variable (d : IssueData) (rd : Operands)

/-- The address the machine follows: the target of a redirect, else the prediction the
front end has already followed, else the instruction behind the delay slot. -/
def followedPc : Word :=
  if branchTakenOf d rd then targetOf d rd else if d.preB then d.prePc else d.pc + 8#32

/-- The address the instruction set names. -/
def nextPc : Word :=
  if d.ctl.jump then (if d.ctl.jr then rd.rd1 else jumpTarget d)
  else if branchConditionOf d rd then slotPc d + targetOffset d
  else d.pc + 8#32

/-- The predictions that the execute stage cannot repair are absent: a taken branch that
is predicted is predicted with its own target, an instruction that is no branch and is
predicted is predicted with `pc+8`, and the instruction is none of those that restart
the fetch at their own successor. -/
structure Repairable : Prop where
  branch : branchConditionOf d rd = true → d.preB = true →
    d.prePc = slotPc d + targetOffset d
  other : d.ctl.transfers = false → d.preB = true → d.prePc = d.pc + 8#32
  refetch : d.ctl.refetches = false

section Cases

variable {d rd}

theorem branchConditionOf_branch (h : branchConditionOf d rd = true) :
    d.ctl.branch = true :=
  branchCondition_valid h

theorem targetOf_jump (hb : d.ctl.branch = false) (hj : d.ctl.jump = true) :
    targetOf d rd = if d.ctl.jr then rd.rd1 else jumpTarget d := by
  simp [targetOf, hb, hj]

/-- A jump is always followed to its own target. -/
theorem followedPc_jump (hc : d.ctl.Coherent) (hj : d.ctl.jump = true) :
    followedPc d rd = nextPc d rd := by
  have hb : d.ctl.branch = false := by
    cases hb : d.ctl.branch with
    | false => rfl
    | true => rw [hc.branch_jump hb] at hj; cases hj
  rw [nextPc, if_pos hj, ← targetOf_jump hb hj, followedPc]
  by_cases hp : (d.preB && d.prePc == targetOf d rd) = true
  · simp only [Bool.and_eq_true, beq_iff_eq] at hp
    simp [hp.1, hp.2]
  · simp [branchTakenOf, hj, hp]

theorem transfers_refetches (hc : d.ctl.Coherent) (ht : d.ctl.transfers = true) :
    d.ctl.tlb = false ∧ d.ctl.cacheD = false := by
  obtain ⟨-, -, -, hr, -⟩ := hc.transfers_plain ht
  simpa [Control.refetches] using hr

theorem followedPc_branch (hc : d.ctl.Coherent) (hb : d.ctl.branch = true) :
    followedPc d rd =
      if branchConditionOf d rd then (if d.preB then d.prePc else slotPc d + targetOffset d)
      else d.pc + 8#32 := by
  have hj : d.ctl.jump = false := hc.branch_jump hb
  have ht : d.ctl.transfers = true := by simp [Control.transfers, hb]
  obtain ⟨htlb, hcd⟩ := transfers_refetches hc ht
  simp only [followedPc, branchTakenOf, targetOf, hb, hj, htlb, hcd]
  cases branchConditionOf d rd <;> cases d.preB <;> simp

theorem followedPc_other (hb : d.ctl.branch = false) (hj : d.ctl.jump = false)
    (hr : d.ctl.refetches = false) :
    followedPc d rd = if d.preB then d.prePc else d.pc + 8#32 := by
  simp only [Control.refetches, Bool.or_eq_false_iff] at hr
  simp [followedPc, branchTakenOf, hb, hj, hr.1, hr.2]

/-- The instructions that restart the fetch name their own successor, not the one behind
it. -/
theorem followedPc_refetch (hc : d.ctl.Coherent) (hr : d.ctl.refetches = true) :
    followedPc d rd = d.pc + 4#32 := by
  have ht : d.ctl.transfers = false := by
    cases ht : d.ctl.transfers with
    | false => rfl
    | true =>
        obtain ⟨-, -, -, hr', -⟩ := hc.transfers_plain ht
        rw [hr'] at hr
        cases hr
  simp only [Control.transfers, Bool.or_eq_false_iff] at ht
  have hjr : d.ctl.jr = false := by
    cases hjr : d.ctl.jr with
    | false => rfl
    | true => rw [hc.jr_jump hjr] at ht; cases ht.2
  simp only [Control.refetches, Bool.or_eq_true] at hr
  rcases hr with h | h <;>
    simp [followedPc, branchTakenOf, targetOf, ht.1, ht.2, hjr, h]

theorem nextPc_of_not_transfers (hb : d.ctl.branch = false) (hj : d.ctl.jump = false) :
    nextPc d rd = d.pc + 8#32 := by
  have hn : branchConditionOf d rd = false := by
    simp [branchConditionOf, branchCondition, hb]
  simp [nextPc, hj, hn]

theorem nextPc_branch (hj : d.ctl.jump = false) :
    nextPc d rd =
      if branchConditionOf d rd then slotPc d + targetOffset d else d.pc + 8#32 := by
  simp [nextPc, hj]

theorem repairable_of_jump (hc : d.ctl.Coherent) (hj : d.ctl.jump = true) :
    Repairable d rd where
  branch hk _ := by
    rw [hc.branch_jump (branchConditionOf_branch hk)] at hj
    cases hj
  other ht _ := by simp [Control.transfers, hj] at ht
  refetch := (hc.transfers_plain (by simp [Control.transfers, hj])).2.2.2.1

theorem followedPc_iff_branch (hc : d.ctl.Coherent) (hb : d.ctl.branch = true) :
    followedPc d rd = nextPc d rd ↔ Repairable d rd := by
  have ht : d.ctl.transfers = true := by simp [Control.transfers, hb]
  have hr : d.ctl.refetches = false := (hc.transfers_plain ht).2.2.2.1
  rw [followedPc_branch hc hb, nextPc_branch (hc.branch_jump hb)]
  constructor
  · intro h
    refine ⟨fun hk hp => ?_, fun h' => ?_, hr⟩
    · simpa [hk, hp] using h
    · rw [ht] at h'
      cases h'
  · intro h
    cases hk : branchConditionOf d rd with
    | false => simp
    | true =>
        cases hp : d.preB with
        | false => simp
        | true => simp [h.branch hk hp]

theorem followedPc_iff_other (hc : d.ctl.Coherent) (hb : d.ctl.branch = false)
    (hj : d.ctl.jump = false) : followedPc d rd = nextPc d rd ↔ Repairable d rd := by
  have ht : d.ctl.transfers = false := by simp [Control.transfers, hb, hj]
  rw [nextPc_of_not_transfers hb hj]
  cases hr : d.ctl.refetches with
  | true =>
      rw [followedPc_refetch hc hr]
      refine iff_of_false (fun h => ?_) fun h => ?_
      · simp at h
      · rw [h.refetch] at hr
        cases hr
  | false =>
      rw [followedPc_other hb hj hr]
      constructor
      · intro h
        refine ⟨fun hk => ?_, fun _ hp => ?_, hr⟩
        · rw [branchConditionOf_branch hk] at hb
          cases hb
        · simpa [hp] using h
      · intro h
        cases hp : d.preB with
        | false => simp
        | true => simp [h.other ht hp]

theorem followedPc_iff (hc : d.ctl.Coherent) :
    followedPc d rd = nextPc d rd ↔ Repairable d rd := by
  cases hj : d.ctl.jump with
  | true => exact iff_of_true (followedPc_jump hc hj) (repairable_of_jump hc hj)
  | false =>
      cases hb : d.ctl.branch with
      | true => exact followedPc_iff_branch hc hb
      | false => exact followedPc_iff_other hc hb hj

end Cases

/-- For every instruction word, prediction and operand values of slot 1, the machine
goes on at the architectural next address exactly when the prediction is one that the
execute stage can repair. -/
theorem misprediction_repaired_iff (f : FetchData) (preB : Bool) (prePc : Word)
    (b : PortBypass) (rd1 rd2 : Word) (rd : Operands) :
    let d := issueRecord (decodeSlot f preB prePc) b rd1 rd2
    followedPc d rd = nextPc d rd ↔ Repairable d rd :=
  followedPc_iff (decoder_coherent f.rawInstr f.valid f.cp0Ctl)

/-- `beq $1, $2, 1` at `0xbfc00000` with equal operands, and a prediction that an entry
of another branch left there. -/
def aliasedBeq : IssueData :=
  issueRecord (decodeSlot { valid := true, rawInstr := 0x10220001#32, pc := 0xbfc00000#32 }
    true 0x80001000#32) {} 0#32 0#32

/-- The taken branch is followed to the predicted address and not to its target. -/
theorem not_repaired_aliasedBeq :
    followedPc aliasedBeq {} = 0x80001000#32 ∧ nextPc aliasedBeq {} = 0xbfc00008#32 ∧
      followedPc aliasedBeq {} ≠ nextPc aliasedBeq {} := by
  decide

end FrailCPU
