import FrailCPU.Core.Flight

/-!
# The operands of every group

A core is run together with the operands that its instructions used when they left E
and with the writes of the groups that have left W. Without a squash, an instruction in
W has used the values that the older groups left in its registers.
-/

namespace FrailCPU

open PendingWrite

/-- A register that an instruction read, and the value it used. -/
structure OperandUse where
  ra : CregAddr
  rd : Word
  deriving DecidableEq

/-- The operands of one slot. An empty slot uses none. -/
def portUses (d : IssueData) (rd : Operands) : List OperandUse :=
  if d.valid then [⟨d.ra1, rd.rd1⟩, ⟨d.ra2, rd.rd2⟩] else []

/-- The operands that the group in E uses if it leaves now. -/
def CoreState.uses (s : CoreState) : List OperandUse :=
  portUses s.dataI.slot1 s.operands.slot1 ++ portUses s.dataI.slot0 s.operands.slot0

/-- What the most recent writer among the groups, youngest first, has left in a
register. -/
def leftBy : List (Pair WritebackData) → RegFile
  | [], _ => 0#32
  | w :: older, r =>
    if w.slot0.valid && w.slot0.wa == r then w.slot0.wd
    else if w.slot1.valid && w.slot1.wa == r then w.slot1.wd
    else leftBy older r

/-- The core with the operands used by the groups behind E and with the writes that have
left W. -/
structure TracedCore where
  core : CoreState := {}
  useM1 : List OperandUse := []
  useM2 : List OperandUse := []
  useM3 : List OperandUse := []
  useW : List OperandUse := []
  written : List (Pair WritebackData) := []

/-- The operands move with their group. -/
def TracedCore.step (s : TracedCore) (i : CoreInput) : TracedCore :=
  let h := s.core.hazardOut i
  { core := s.core.step i
    useM1 := pipereg2 [] h.stallM h.flushM s.core.uses s.useM1
    useM2 := pipereg2 [] h.stallM2 h.flushM2 s.useM1 s.useM2
    useM3 := pipereg2 [] false h.flushM3 s.useM2 s.useM3
    useW := pipereg2 [] false h.flushW s.useM3 s.useW
    written := s.core.dataW :: s.written }

namespace CoreState

variable (s : CoreState) (i : CoreInput)

/-- The queue's group enters E at the end of this cycle, unless it is squashed. -/
def issuing : Bool := !(i.dWait || s.waitM) && !i.eWait

/-- The youngest writer of `r` in E is a move whose condition fails. -/
def writeWithdrawn (r : CregAddr) : Bool :=
  stageAnswer (fun x => (BypassExecute.ofIssue x.1).writes) (fun x => moveFails x.1 x.2)
    (s.dataI.zipWith Prod.mk s.operands) r false

/-- A register that issues now is still supplied if its writer in E withdraws. -/
def supplied (r : CregAddr) : Bool :=
  !s.writeWithdrawn r ||
    s.producers.suppliedBehind ((s.dataENxt i).map BypassInput.ofExecute) r

/-- The registers of the group that issues are supplied. -/
def MovesSupplied : Prop :=
  s.issuing i = true → (s.dataINxt i).Each fun d =>
    s.supplied i d.ra1 = true ∧ s.supplied i d.ra2 = true

instance : Decidable (s.MovesSupplied i) :=
  have : DecidablePred fun d : IssueData =>
      s.supplied i d.ra1 = true ∧ s.supplied i d.ra2 = true := fun _ => inferInstance
  inferInstanceAs (Decidable (_ → Pair.Each _ _))

end CoreState

/-- Every operand of `l` is the value that the view shows. -/
def Sees (v : CregAddr → Option Word) (l : List OperandUse) : Prop :=
  ∀ u ∈ l, v u.ra = some u.rd

section Sees

variable {v w : CregAddr → Option Word} {l m : List OperandUse}

theorem sees_nil : Sees v [] := fun _ h => by cases h

theorem Sees.mono (h : Sees v l) (hw : Within v w) : Sees w l :=
  fun u hu => hw _ _ (h u hu)

theorem Sees.append (hl : Sees v l) (hm : Sees v m) : Sees v (l ++ m) := by
  intro u hu
  rcases List.mem_append.mp hu with h | h
  · exact hl u h
  · exact hm u h

theorem Sees.left (h : Sees v (l ++ m)) : Sees v l :=
  fun u hu => h u (List.mem_append_left m hu)

theorem Sees.right (h : Sees v (l ++ m)) : Sees v m :=
  fun u hu => h u (List.mem_append_right l hu)

theorem sees_portUses {d : IssueData} {rd : Operands} :
    Sees v (portUses d rd) ↔
      (d.valid = true → v d.ra1 = some rd.rd1 ∧ v d.ra2 = some rd.rd2) := by
  unfold portUses Sees
  by_cases h : d.valid = true <;> simp [h]

end Sees

section Issue

variable {s : CoreState} {i : CoreInput}

theorem writeWithdrawn_eq (r : CregAddr) : s.writeWithdrawn r =
    if (BypassExecute.ofIssue s.dataI.slot0).writes r then
      moveFails s.dataI.slot0 s.operands.slot0
    else if (BypassExecute.ofIssue s.dataI.slot1).writes r then
      moveFails s.dataI.slot1 s.operands.slot1
    else false := rfl

/-- Behind a withdrawn write the port was issued with the value of the file. -/
theorem bypassI_of_writeWithdrawn {r : CregAddr} (h : s.writeWithdrawn r = true) :
    (s.issueBypass r).bypass = false := by
  unfold CoreState.issueBypass bypassI
  rw [stageAnswer]
  by_cases h0 : (BypassExecute.ofIssue s.dataI.slot0).writes r = true
  · rw [Pair.map_slot0, if_pos h0]
  · by_cases h1 : (BypassExecute.ofIssue s.dataI.slot1).writes r = true
    · rw [Pair.map_slot0, if_neg h0, Pair.map_slot1, if_pos h1]
    · rw [writeWithdrawn_eq, if_neg h0, if_neg h1] at h
      cases h

theorem moveFails_slot0 {r : CregAddr} (h : s.writeWithdrawn r = false)
    (h0 : (BypassExecute.ofIssue s.dataI.slot0).writes r = true) :
    moveFails s.dataI.slot0 s.operands.slot0 = false := by
  rwa [writeWithdrawn_eq, if_pos h0] at h

theorem moveFails_slot1 {r : CregAddr} (h : s.writeWithdrawn r = false)
    (h0 : (BypassExecute.ofIssue s.dataI.slot0).writes r = false)
    (h1 : (BypassExecute.ofIssue s.dataI.slot1).writes r = true) :
    moveFails s.dataI.slot1 s.operands.slot1 = false := by
  rwa [writeWithdrawn_eq, if_neg (Bool.eq_false_iff.mp h0), if_pos h1] at h

/-- E takes back a write only of a move that fails. -/
theorem writes_execute {d : IssueData} (rd : Operands) {e : ExecuteData} {r : CregAddr}
    (hw : e.ctl.regwrite = (d.ctl.regwrite && !moveFails d rd)) (hd : e.rdst = d.rdst)
    (hm : (BypassExecute.ofIssue d).writes r = true → moveFails d rd = false) :
    (BypassExecute.ofIssue d).writes r = (BypassInput.ofExecute e).writes r := by
  have he : (BypassInput.ofExecute e).writes r =
      ((BypassExecute.ofIssue d).writes r && !moveFails d rd) := by
    change (e.ctl.regwrite && e.rdst == r) = (d.ctl.regwrite && d.rdst == r && _)
    rw [hw, hd, Bool.and_right_comm]
  cases hi : (BypassExecute.ofIssue d).writes r with
  | false => rw [he, hi, Bool.false_and]
  | true => rw [he, hi, hm hi, Bool.not_false, Bool.and_true]

/-- A prompt instruction is not made a delayed one in E. -/
theorem delayToreg_execute {d : IssueData} {e : ExecuteData}
    (hm : d.ctl.memtoreg = false → e.ctl.memtoreg = false)
    (hlo : e.ctl.lotoreg = d.ctl.lotoreg) (hhi : e.ctl.hitoreg = d.ctl.hitoreg)
    (hc : e.ctl.cp0toreg = d.ctl.cp0toreg)
    (h : (BypassExecute.ofIssue d).delayToreg = false) :
    (BypassInput.ofExecute e).delayToreg = false := by
  simp only [BypassExecute.delayToreg, BypassExecute.ofIssue, Bool.or_eq_false_iff] at h
  obtain ⟨⟨⟨h1, h2⟩, h3⟩, h4⟩ := h
  simp [BypassInput.delayToreg, BypassInput.ofExecute, hm h1, hlo, hhi, hc, h2, h3, h4]

/-- A port of the group that issues: the network answers in the first cycle in E, or the
value of the issue cycle is the one to read. -/
theorem issue_promises (h : s.WritesLand) (hs : s.NoSquash i)
    (hh : (i.dWait || s.waitM) = false) (he : i.eWait = false) {r : CregAddr}
    (hr : s.supplied i r = true)
    (hv : (s.issueBypass r).valid = true) :
    (bypassE (s.step i).producers r).bypass = true ∨
      (s.step i).viewE r = some ((s.issueBypass r).select (s.regs r)) := by
  have hadv := producers_advance h hs hh he
  have hE : (s.step i).producers.dataE = (s.dataENxt i).map BypassInput.ofExecute := by
    simp [CoreState.producers, CoreState.step, hazardOut_free hs hh he, pipereg2]
  cases hw : s.writeWithdrawn r with
  | true =>
      have hb := suppliedBehind_promises hadv r (by
        rw [hE]
        simpa [CoreState.supplied, hw] using hr)
      simpa only [CoreState.viewE, BypassOutput.select, bypassI_of_writeWithdrawn hw,
        Bool.false_eq_true, if_false] using hb
  | false =>
      refine bypassI_promises hadv ?_ ?_ ?_ ?_ hv
      · rw [hE]
        exact writes_execute s.operands.slot0 rfl rfl (moveFails_slot0 hw)
      · rw [hE]
        intro h0
        exact writes_execute s.operands.slot1 rfl rfl (moveFails_slot1 hw h0)
      · rw [hE]
        refine delayToreg_execute (fun hm => ?_) rfl rfl rfl
        simp [CoreState.dataENxt, execute, executeCtl0, hm]
      · rw [hE]
        refine delayToreg_execute (fun hm => ?_) rfl rfl rfl
        simp [CoreState.dataENxt, execute, executeCtl1, hm]

end Issue

section Uses

variable {s : CoreState} {i : CoreInput}

/-- A group that stays in E goes on to have the operands it should have. -/
theorem sees_uses_stalled (hI : (s.step i).dataI = s.dataI)
    (he : (i.eWait || i.dWait) = true) (hu : Sees s.viewE s.uses)
    (hw : Within s.viewE (s.step i).viewE) : Sees (s.step i).viewE (s.step i).uses := by
  have hs1 : (s.step i).saved1 = s.saved1.zipWith (fun sv b => sv.step true b) s.bypassRa1E := by
    rw [← he]
    rfl
  have hs2 : (s.step i).saved2 = s.saved2.zipWith (fun sv b => sv.step true b) s.bypassRa2E := by
    rw [← he]
    rfl
  have sound : ∀ r, (bypassE (s.step i).producers r).Sound ((s.step i).viewE r) :=
    bypassE_sound (s.step i).producers (s.step i).regs
  refine Sees.append (sees_portUses.mpr fun hv => ?_) (sees_portUses.mpr fun hv => ?_)
  all_goals
    simp only [hI] at hv ⊢
    simp only [CoreState.operands, CoreState.bypassRa1E, CoreState.bypassRa2E, hs1, hs2, hI,
      Pair.map_slot1, Pair.map_slot0, Pair.zipWith_slot1, Pair.zipWith_slot0]
  · obtain ⟨h1, h2⟩ := sees_portUses.mp hu.left hv
    exact ⟨select_stalled h1 (sound _) (hw _), select_stalled h2 (sound _) (hw _)⟩
  · obtain ⟨h1, h2⟩ := sees_portUses.mp hu.right hv
    exact ⟨select_stalled h1 (sound _) (hw _), select_stalled h2 (sound _) (hw _)⟩

/-- An issued instruction found both registers ready. -/
theorem issued_ports : (s.dataINxt i).Each fun d => d.valid = true →
    ((s.issueBypass d.ra1).valid = true ∧
      d.rd1 = (s.issueBypass d.ra1).select (s.regs d.ra1)) ∧
    ((s.issueBypass d.ra2).valid = true ∧
      d.rd2 = (s.issueBypass d.ra2).select (s.regs d.ra2)) := by
  constructor
  · simp only [CoreState.dataINxt, issueGroup]
    split
    · rename_i he
      intro _
      simp only [issueEn1, PortBypass.ready, Bool.and_eq_true] at he
      exact ⟨⟨he.1.2.1, rfl⟩, ⟨he.1.2.2, rfl⟩⟩
    · intro hv
      cases hv
  · simp only [CoreState.dataINxt, issueGroup]
    split
    · rename_i he
      intro _
      simp only [issueEn2, PortBypass.ready, Bool.and_eq_true] at he
      exact ⟨⟨he.1.2.1, rfl⟩, ⟨he.1.2.2, rfl⟩⟩
    · intro hv
      cases hv

/-- A group has the operands it should have from its first cycle in E on. -/
theorem sees_uses_issued (h : s.WritesLand) (hs : s.NoSquash i)
    (hh : (i.dWait || s.waitM) = false) (he : i.eWait = false) (hm : s.MovesSupplied i) :
    Sees (s.step i).viewE (s.step i).uses := by
  have hI := (step_free hs hh he).1
  have hst : (i.eWait || i.dWait) = false := by
    rw [he, (Bool.or_eq_false_iff.mp hh).1]
    rfl
  have fresh : ∀ (sv : SavedOperand) (b : BypassOutput), sv.step false b = {} := by
    intro sv b
    simp [SavedOperand.step]
  have hs1 : (s.step i).saved1 = ⟨{}, {}⟩ := by
    simp only [CoreState.step, hst, fresh]
    rfl
  have hs2 : (s.step i).saved2 = ⟨{}, {}⟩ := by
    simp only [CoreState.step, hst, fresh]
    rfl
  have hsup := hm (by simp [CoreState.issuing, hh, he])
  have port : ∀ {r rd}, s.supplied i r = true → (s.issueBypass r).valid = true →
      rd = (s.issueBypass r).select (s.regs r) →
      (s.step i).viewE r =
        some (SavedOperand.select {} (bypassE (s.step i).producers r) rd) := by
    intro r rd hr hv hrd
    rw [hrd]
    exact select_fresh (bypassE_sound _ _ r) (issue_promises h hs hh he hr hv)
  refine Sees.append (sees_portUses.mpr fun hv => ?_) (sees_portUses.mpr fun hv => ?_)
  all_goals
    simp only [hI] at hv ⊢
    simp only [CoreState.operands, CoreState.bypassRa1E, CoreState.bypassRa2E, hs1, hs2, hI,
      Pair.map_slot1, Pair.map_slot0]
  · obtain ⟨⟨hv1, hd1⟩, ⟨hv2, hd2⟩⟩ := issued_ports.slot1 hv
    exact ⟨port hsup.slot1.1 hv1 hd1, port hsup.slot1.2 hv2 hd2⟩
  · obtain ⟨⟨hv1, hd1⟩, ⟨hv2, hd2⟩⟩ := issued_ports.slot0 hv
    exact ⟨port hsup.slot0.1 hv1 hd1, port hsup.slot0.2 hv2 hd2⟩

end Uses

/-- Every group behind E has used the values it should read, and the one in E is about
to, unless M1 waits for an interrupt and lets nothing leave E any more. -/
structure TracedCore.Delivered (s : TracedCore) : Prop where
  lands : s.core.WritesLand
  written : s.core.regs = leftBy s.written
  inE : s.core.waitM = false → Sees s.core.viewE s.core.uses
  inM1 : Sees s.core.viewM1 s.useM1
  inM2 : Sees s.core.viewM2 s.useM2
  inM3 : Sees s.core.viewM3 s.useM3
  inW : Sees (settled s.core.regs) s.useW

section Run

variable {s : TracedCore} {i : CoreInput}

theorem TracedCore.delivered_reset : ({} : TracedCore).Delivered where
  lands := {
    regs0 := rfl
    dataI := ⟨lands_zero, lands_zero⟩
    dataE1 := lands_zero
    dataE0 _ := lands_zero
    dataM1 := ⟨lands_zero, lands_zero⟩
    dataM2 := ⟨lands_zero, lands_zero⟩
    dataM3 := ⟨lands_zero, lands_zero⟩ }
  written := rfl
  inE _ := sees_nil
  inM1 := sees_nil
  inM2 := sees_nil
  inM3 := sees_nil
  inW := sees_nil

/-- The write of a group is the most recent one once the group has left W. -/
theorem regfileNxt_leftBy {older : List (Pair WritebackData)} {w : Pair WritebackData}
    (h1 : w.slot1.valid = true → w.slot1.wa ≠ 0#5)
    (h0 : w.slot0.valid = true → w.slot0.wa ≠ 0#5) (hz : leftBy older 0#5 = 0#32) :
    regfileNxt (leftBy older) w = leftBy (w :: older) := by
  funext r
  by_cases hr : r = 0#5
  · subst hr
    have hn0 : (w.slot0.valid && w.slot0.wa == 0#5) = false := by
      cases hv : w.slot0.valid with
      | false => rfl
      | true => simpa using h0 hv
    have hn1 : (w.slot1.valid && w.slot1.wa == 0#5) = false := by
      cases hv : w.slot1.valid with
      | false => rfl
      | true => simpa using h1 hv
    rw [leftBy, hn0, hn1, hz]
    rfl
  · have hb : ∀ x : WritebackData, (r == x.wa && x.valid) = (x.valid && x.wa == r) := by
      intro x
      rw [Bool.and_comm, BEq.comm]
    rw [regfileNxt, if_neg (by simpa using hr), hb, hb, leftBy]

theorem writeback_wa_ne {d : MemoryData} {sr : SpecialRead}
    (h : Lands d.valid d.ctl d.rdst d.cp0Ctl.ctype) (hv : (writeback d sr).valid = true) :
    (writeback d sr).wa ≠ 0#5 := by
  rw [writeback_valid h] at hv
  exact (h hv).2.2.1

theorem TracedCore.Delivered.step (h : s.Delivered) (hs : s.core.NoSquash i)
    (hm : s.core.MovesSupplied i) : (s.step i).Delivered := by
  have hl := h.lands.step hs
  have hwr : (s.step i).core.regs = leftBy (s.step i).written := by
    change regfileNxt s.core.regs s.core.dataW = leftBy (s.core.dataW :: s.written)
    rw [h.written]
    exact regfileNxt_leftBy (writeback_wa_ne h.lands.dataM3.slot1)
      (writeback_wa_ne h.lands.dataM3.slot0) (by rw [← h.written]; exact h.lands.regs0)
  have hW : Within s.core.viewM3 (settled (s.core.step i).regs) := by
    rw [viewM3_eq h.lands]
    exact Within.refl _
  by_cases hh : (i.dWait || s.core.waitM) = true
  · obtain ⟨hI, hE, hM1, hM2, hM3⟩ := step_held hs hh
    have v2 : Within s.core.viewM2 (s.core.step i).viewM2 := by
      rw [viewM2_of_bubble hM2]
      exact viewM2_within h.lands hM3
    have v1 := viewM1_of_kept hM1 v2
    have vE := viewE_of_kept hE v1
    refine ⟨hl, hwr, fun hw => ?_, ?_, ?_, ?_, ?_⟩
    · have hw' : s.core.waitM = false := by
        rw [← hw]
        exact congrArg (fun p : Pair ExecuteData => p.slot1.ctl.waitSignal) hE.symm
      have hd : i.dWait = true := by simpa [hw'] using hh
      exact sees_uses_stalled hI (by simp [hd]) (h.inE hw') vE
    all_goals simp only [TracedCore.step, hazardOut_held hs hh, pipereg2]
    · exact h.inM1.mono v1
    · exact h.inM2.mono v2
    · exact sees_nil
    · exact h.inM3.mono hW
  · rw [Bool.not_eq_true] at hh
    have hw := (Bool.or_eq_false_iff.mp hh).2
    cases he : i.eWait with
    | true =>
        obtain ⟨hI, hE, hM1, hM2, hM3⟩ := step_busy hs hh he
        rw [dataM1Nxt_eq (hs.2 hh).1] at hM1
        have v1 := viewM1_of_moved hM2 (viewM2_within h.lands hM3)
        have vE : Within s.core.viewE (s.core.step i).viewE := by
          rw [viewE_of_bubble hE]
          exact viewE_of_moved hM1 v1
        refine ⟨hl, hwr, fun _ => ?_, ?_, ?_, ?_, ?_⟩
        · exact sees_uses_stalled hI (by simp [he]) (h.inE hw) vE
        all_goals simp only [TracedCore.step, hazardOut_busy hs hh he, pipereg2]
        · exact sees_nil
        · exact h.inM1.mono v1
        · exact h.inM2.mono (viewM2_within h.lands hM3)
        · exact h.inM3.mono hW
    | false =>
        obtain ⟨hI, hE, hM1, hM2, hM3⟩ := step_free hs hh he
        rw [dataM1Nxt_eq (hs.2 hh).1] at hM1
        have v1 := viewM1_of_moved hM2 (viewM2_within h.lands hM3)
        have vE := viewE_of_moved hM1 v1
        refine ⟨hl, hwr, fun _ => ?_, ?_, ?_, ?_, ?_⟩
        · exact sees_uses_issued h.lands hs hh he hm
        all_goals simp only [TracedCore.step, hazardOut_free hs hh he, pipereg2]
        · exact (h.inE hw).mono vE
        · exact h.inM1.mono v1
        · exact h.inM2.mono (viewM2_within h.lands hM3)
        · exact h.inM3.mono hW

/-- Every instruction in W has used the values that the most recent older writers left in
its registers, as long as no group is squashed and every move that takes its write back
is covered. -/
theorem operands_delivered (is : List CoreInput)
    (hs : ClockedMachine.Along TracedCore.step (fun s i => s.core.NoSquash i) {} is)
    (hm : ClockedMachine.Along TracedCore.step (fun s i => s.core.MovesSupplied i) {} is) :
    ∀ u ∈ (ClockedMachine.run TracedCore.step {} is).useW,
      u.rd = leftBy (ClockedMachine.run TracedCore.step {} is).written u.ra := by
  have hd : (ClockedMachine.run TracedCore.step {} is).Delivered :=
    (hs.and hm).invariant (fun s i hp hg => hp.step hg.1 hg.2) TracedCore.delivered_reset
  intro u hu
  have hv := hd.inW u hu
  rw [settled, hd.written] at hv
  exact (Option.some.inj hv).symm

end Run

/-- `addiu $4, $0, 1`, `addiu $2, $0, 5`, `bubbles` empty cycles, `movz $2, $3, $4`,
`addu $5, $2, $0`, and the cycles in which the last one goes to W. -/
def moveRun (bubbles : ℕ) : List CoreInput :=
  [.single 0x24040001#32 0xbfc00000#32, .single 0x24020005#32 0xbfc00004#32] ++
    List.replicate bubbles .idle ++
    [.single 0x0064100a#32 0xbfc00008#32, .single 0x00402821#32 0xbfc0000c#32, .idle, .idle,
      .idle, .idle]

/-- With the writer of `$2` right in front of the move, the last instruction reads 5. -/
theorem operands_delivered_move :
    (ClockedMachine.run TracedCore.step {} (moveRun 0)).useW ≠ [] ∧
      ∀ u ∈ (ClockedMachine.run TracedCore.step {} (moveRun 0)).useW,
        u.rd = leftBy (ClockedMachine.run TracedCore.step {} (moveRun 0)).written u.ra :=
  ⟨by decide +kernel, operands_delivered (moveRun 0) (by decide +kernel) (by decide +kernel)⟩

/-- With the writer of `$2` in W when the last instruction issues, the move hides it and
takes its own write back: 0 is read. -/
theorem not_operands_delivered_move :
    ClockedMachine.Along TracedCore.step (fun s i => s.core.NoSquash i) {} (moveRun 3) ∧
      ¬ ∀ u ∈ (ClockedMachine.run TracedCore.step {} (moveRun 3)).useW,
        u.rd = leftBy (ClockedMachine.run TracedCore.step {} (moveRun 3)).written u.ra := by
  constructor <;> decide +kernel

end FrailCPU
