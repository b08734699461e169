import FrailCPU.Bypass.Delivery

/-!
# The groups in flight

Without a squash the groups move in one of three ways: M1 waits and holds everything in
front of it, E waits and holds the queue, or all of them move on. Every write in flight
is then one that reaches the register file, and the views only gain answers.
-/

namespace FrailCPU

open PendingWrite

namespace CoreState

variable (s : CoreState) (i : CoreInput)

/-- No group is squashed in this cycle. -/
def NoSquash : Prop :=
  s.excpW i = false ∧
    ((i.dWait || s.waitM) = false → s.excpM1 = false ∧ s.branchM = false)

instance : Decidable (s.NoSquash i) :=
  inferInstanceAs (Decidable (_ ∧ ((i.dWait || s.waitM) = false → _ ∧ _)))

end CoreState

/-- A record whose write, if it has one, names a register and reaches the file. -/
def Lands (valid : Bool) (ctl : Control) (rdst : CregAddr) (t : Cp0Type) : Prop :=
  ctl.regwrite = true → valid = true ∧ t.leaves = false ∧ rdst ≠ 0#5 ∧ ctl.sc = false

/-- The writes in flight are those the records say. -/
structure CoreState.WritesLand (s : CoreState) : Prop where
  regs0 : s.regs 0#5 = 0#32
  dataI : s.dataI.Each fun d => Lands d.valid d.ctl d.rdst .noExc
  dataE1 : Lands s.dataE.slot1.valid s.dataE.slot1.ctl s.dataE.slot1.rdst .noExc
  dataE0 : s.dataE.slot1.cp0Ctl.ctype.leaves = false →
    Lands s.dataE.slot0.valid s.dataE.slot0.ctl s.dataE.slot0.rdst .noExc
  dataM1 : s.dataM1.Each fun d => Lands d.valid d.ctl d.rdst d.cp0Ctl.ctype
  dataM2 : s.dataM2.Each fun d => Lands d.valid d.ctl d.rdst d.cp0Ctl.ctype
  dataM3 : s.dataM3.Each fun d => Lands d.valid d.ctl d.rdst d.cp0Ctl.ctype

section Hazard

variable {s : CoreState} {i : CoreInput}

theorem hazardOut_held (hs : s.NoSquash i) (h : (i.dWait || s.waitM) = true) :
    s.hazardOut i = { stallE := true, stallM := true, stallM2 := true, flushM3 := true } := by
  rw [CoreState.hazardOut, hazard, hs.1, h]
  rfl

theorem hazardOut_busy (hs : s.NoSquash i) (h : (i.dWait || s.waitM) = false)
    (he : i.eWait = true) : s.hazardOut i = { stallE := true, flushM := true } := by
  rw [CoreState.hazardOut, hazard, hs.1, h, (hs.2 h).1, (hs.2 h).2, he]
  rfl

theorem hazardOut_free (hs : s.NoSquash i) (h : (i.dWait || s.waitM) = false)
    (he : i.eWait = false) : s.hazardOut i = {} := by
  rw [CoreState.hazardOut, hazard, hs.1, h, (hs.2 h).1, (hs.2 h).2, he]
  rfl

/-- M1 waits: M3 and W go on, and a bubble enters M3. -/
theorem step_held (hs : s.NoSquash i) (h : (i.dWait || s.waitM) = true) :
    (s.step i).dataI = s.dataI ∧ (s.step i).dataE = s.dataE ∧ (s.step i).dataM1 = s.dataM1 ∧
      (s.step i).dataM2 = ⟨{}, {}⟩ ∧ (s.step i).dataM3 = memory3 s.dataM2 i.respData := by
  simp [CoreState.step, hazardOut_held hs h, pipereg2]

/-- E waits: everything behind it goes on, and a bubble enters M1. -/
theorem step_busy (hs : s.NoSquash i) (h : (i.dWait || s.waitM) = false)
    (he : i.eWait = true) :
    (s.step i).dataI = s.dataI ∧ (s.step i).dataE = ⟨{}, {}⟩ ∧
      (s.step i).dataM1 = s.dataM1Nxt ∧ (s.step i).dataM2 = s.dataM1 ∧
      (s.step i).dataM3 = memory3 s.dataM2 i.respData := by
  simp [CoreState.step, hazardOut_busy hs h he, pipereg2]

theorem step_free (hs : s.NoSquash i) (h : (i.dWait || s.waitM) = false)
    (he : i.eWait = false) :
    (s.step i).dataI = s.dataINxt i ∧ (s.step i).dataE = s.dataENxt i ∧
      (s.step i).dataM1 = s.dataM1Nxt ∧ (s.step i).dataM2 = s.dataM1 ∧
      (s.step i).dataM3 = memory3 s.dataM2 i.respData := by
  simp [CoreState.step, hazardOut_free hs h he, pipereg2]

end Hazard

section Lands

variable {s : CoreState} {i : CoreInput}

theorem lands_zero : Lands false {} 0#5 .noExc := fun h => by cases h

theorem lands_issueRecord (c : Candidate) (hv : c.val.valid = true) (b : PortBypass)
    (rd1 rd2 : Word) :
    Lands (issueRecord c.val b rd1 rd2).valid (issueRecord c.val b rd1 rd2).ctl
      (issueRecord c.val b rd1 rd2).rdst .noExc := by
  intro hw
  refine ⟨hv, rfl, c.property.rdst_ne hw, ?_⟩
  rw [Bool.eq_false_iff]
  intro hsc
  have h := c.property.coherent.sc_regwrite hsc
  rw [show c.val.ctl.regwrite = true from hw] at h
  cases h

theorem lands_issue :
    (s.dataINxt i).Each fun d => Lands d.valid d.ctl d.rdst .noExc := by
  constructor
  · simp only [CoreState.dataINxt, issueGroup]
    split
    · rename_i he
      exact lands_issueRecord i.candidates.slot1
        (by simp only [issueEn1, Bool.and_eq_true] at he; exact he.1.1) _ _ _
    · exact lands_zero
  · simp only [CoreState.dataINxt, issueGroup]
    split
    · rename_i he
      exact lands_issueRecord i.candidates.slot0 (issueEn2_together he).valid2
        (s.portBypass i.candidates.slot0.val) (s.regs i.candidates.slot0.val.ra1)
        (s.regs i.candidates.slot0.val.ra2)
    · exact lands_zero

theorem lands_execute1 (h : Lands s.dataI.slot1.valid s.dataI.slot1.ctl s.dataI.slot1.rdst
      .noExc) :
    Lands (s.dataENxt i).slot1.valid (s.dataENxt i).slot1.ctl (s.dataENxt i).slot1.rdst
      .noExc := by
  intro hw
  have hw' : s.dataI.slot1.ctl.regwrite = true := by
    simp only [CoreState.dataENxt, execute, executeCtl1, Bool.and_eq_true] at hw
    exact hw.1
  exact h hw'

/-- Slot 0 of a group is valid after E unless slot 1 overflows. -/
theorem lands_execute0 (h : Lands s.dataI.slot0.valid s.dataI.slot0.ctl s.dataI.slot0.rdst
      .noExc) (hl : (s.dataENxt i).slot1.cp0Ctl.ctype.leaves = false) :
    Lands (s.dataENxt i).slot0.valid (s.dataENxt i).slot0.ctl (s.dataENxt i).slot0.rdst
      .noExc := by
  intro hw
  have hw' : s.dataI.slot0.ctl.regwrite = true := by
    simp only [CoreState.dataENxt, execute, executeCtl0, Bool.and_eq_true] at hw
    exact hw.1
  obtain ⟨hv, hn, hr, hsc⟩ := h hw'
  refine ⟨?_, hn, hr, hsc⟩
  have ho : exceptionOf s.dataI.slot1 s.operands.slot1 = false := by
    rw [Bool.eq_false_iff]
    intro ho
    simp [CoreState.dataENxt, execute, Cp0Control.addFound, Found.any, found1, ho,
      Cp0Type.leaves] at hl
  simp [CoreState.dataENxt, execute, ho, hv]

theorem excpM1_eq_false (h : s.excpM1 = false) :
    s.dataE.slot0.cp0Ctl.ctype.leaves = false ∧ s.dataE.slot1.cp0Ctl.ctype.leaves = false ∧
      s.dTlbExc = ⟨{}, {}⟩ := by
  simp only [CoreState.excpM1, excpM, Bool.or_eq_false_iff, TlbExc.any_eq_false] at h
  obtain ⟨⟨⟨h0, h1⟩, he1⟩, he0⟩ := h
  refine ⟨h0, h1, ?_⟩
  cases hd : s.dTlbExc
  rw [hd] at he1 he0
  simp only at he1 he0
  rw [he1, he0]

/-- Without an exception the records pass through M1 as they are. -/
theorem dataM1Nxt_eq (h : s.excpM1 = false) : s.dataM1Nxt =
    s.dataE.map fun d => { d with dTlbExc := {} } := by
  obtain ⟨-, h1, he⟩ := excpM1_eq_false h
  simp [CoreState.dataM1Nxt, he, memory, h1, chargeDTlbExc, Cp0Type.charge, Pair.map]

theorem CoreState.WritesLand.step (h : s.WritesLand) (hs : s.NoSquash i) :
    (s.step i).WritesLand := by
  have hM1 (hh : (i.dWait || s.waitM) = false) :
      s.dataM1Nxt.Each fun d => Lands d.valid d.ctl d.rdst d.cp0Ctl.ctype := by
    obtain ⟨hl0, hl1, -⟩ := excpM1_eq_false (hs.2 hh).1
    rw [dataM1Nxt_eq (hs.2 hh).1]
    refine ⟨fun hw => ?_, fun hw => ?_⟩
    · obtain ⟨hv, -, hr⟩ := h.dataE1 hw
      exact ⟨hv, hl1, hr⟩
    · obtain ⟨hv, -, hr⟩ := h.dataE0 hl1 hw
      exact ⟨hv, hl0, hr⟩
  have hM3 : (memory3 s.dataM2 i.respData).Each fun d =>
      Lands d.valid d.ctl d.rdst d.cp0Ctl.ctype := ⟨h.dataM2.slot1, h.dataM2.slot0⟩
  have hr0 : regfileNxt s.regs s.dataW 0#5 = 0#32 := by simp [regfileNxt]
  by_cases hh : (i.dWait || s.waitM) = true
  · simp only [CoreState.step, hazardOut_held hs hh, pipereg2]
    exact ⟨hr0, h.dataI, h.dataE1, h.dataE0, h.dataM1, ⟨lands_zero, lands_zero⟩, hM3⟩
  · rw [Bool.not_eq_true] at hh
    cases he : i.eWait with
    | true =>
        simp only [CoreState.step, hazardOut_busy hs hh he, pipereg2]
        exact ⟨hr0, h.dataI, lands_zero, fun _ => lands_zero, hM1 hh, h.dataM1, hM3⟩
    | false =>
        simp only [CoreState.step, hazardOut_free hs hh he, pipereg2]
        exact ⟨hr0, lands_issue, lands_execute1 h.dataI.slot1,
          lands_execute0 h.dataI.slot0, hM1 hh, h.dataM1, hM3⟩

end Lands

namespace CoreState

variable (s : CoreState)

def viewE : CregAddr → Option Word := s.producers.viewE s.regs

def viewM1 : CregAddr → Option Word := s.producers.viewM1 s.regs

def viewM2 : CregAddr → Option Word := s.producers.viewM2 s.regs

def viewM3 : CregAddr → Option Word := s.producers.viewM3 s.regs

end CoreState

section Views

variable {s : CoreState} {i : CoreInput}

theorem writeback_valid {d : MemoryData} {sr : SpecialRead}
    (h : Lands d.valid d.ctl d.rdst d.cp0Ctl.ctype) :
    (writeback d sr).valid = d.ctl.regwrite := by
  cases hw : d.ctl.regwrite with
  | false => exact writeback_valid_of_regwrite hw
  | true =>
      obtain ⟨hv, hl, -⟩ := h hw
      simp [writeback, hl, hw, hv]

@[simp] theorem writeback_wa (d : MemoryData) (sr : SpecialRead) :
    (writeback d sr).wa = d.rdst := rfl

/-- A group in W is seen as the file will be after it. -/
theorem viewM3_eq (h : s.WritesLand) : s.viewM3 = settled (s.step i).regs := by
  have h1 : (writeback s.dataM3.slot1 s.specialRead).valid = _ :=
    writeback_valid h.dataM3.slot1
  have h0 : (writeback s.dataM3.slot0 s.specialRead).valid = _ :=
    writeback_valid h.dataM3.slot0
  rw [CoreState.viewM3, Producers.viewM3, through, Pair.map_slot0, Pair.map_slot1,
    ahead_settled (fun _ => rfl), ahead_settled (fun _ => rfl)]
  congr 1
  funext r
  change _ = regfileNxt s.regs s.dataW r
  by_cases hr : r = 0#5
  · subst hr
    have hn1 : ¬ (s.dataM3.slot1.ctl.regwrite = true ∧ s.dataM3.slot1.rdst = 0#5) :=
      fun hn => (h.dataM3.slot1 hn.1).2.2.1 hn.2
    have hn0 : ¬ (s.dataM3.slot0.ctl.regwrite = true ∧ s.dataM3.slot0.rdst = 0#5) :=
      fun hn => (h.dataM3.slot0 hn.1).2.2.1 hn.2
    simp [regfileNxt, CoreState.producers, BypassInput.ofMemory, BypassInput.arrived, hn1,
      hn0, h.regs0]
  · have hw : ∀ d : MemoryData, (r == (writeback d s.specialRead).wa && d.ctl.regwrite) = true ↔
        d.ctl.regwrite = true ∧ d.rdst = r := by
      intro d
      rw [Bool.and_eq_true, beq_iff_eq, writeback_wa, and_comm]
      exact and_congr_right fun _ => eq_comm
    have hr' : ¬ (r == 0#5) = true := by simpa using hr
    simp only [regfileNxt, CoreState.dataW, Pair.map_slot0, Pair.map_slot1, h1, h0, hw, hr']
    rfl

/-- On the way from M3 to W a delayed write gets its value, and no other write changes. -/
theorem fills_memory3 {d : ExecuteData} (h : Lands d.valid d.ctl d.rdst d.cp0Ctl.ctype)
    (respData : Word) (sr : SpecialRead) :
    (BypassInput.ofExecute d).pending.Fills
      (BypassInput.ofMemory (memory3Slot d respData)
        (writeback (memory3Slot d respData) sr)).arrived where
  live := rfl
  dst := rfl
  value := by
    intro hw x hx
    change d.ctl.regwrite = true at hw
    obtain ⟨-, -, -, hsc⟩ := h hw
    by_cases hd : (BypassInput.ofExecute d).delayToreg = true
    · simp [BypassInput.pending, hd] at hx
    · have hd' := hd
      simp only [BypassInput.delayToreg, BypassInput.ofExecute, Bool.not_eq_true,
        Bool.or_eq_false_iff] at hd'
      obtain ⟨⟨⟨hm, hlo⟩, hhi⟩, hc⟩ := hd'
      rw [← hx]
      simp [BypassInput.arrived, BypassInput.pending, BypassInput.ofMemory, hd, writeback,
        writebackData, memory3Slot, hsc, hm, hlo, hhi, hc, hw]
      rfl

variable {s' : CoreState}

/-- M3 and W are never stalled. -/
theorem viewM2_within (h : s.WritesLand) (hM3 : (s.step i).dataM3 = memory3 s.dataM2 i.respData) :
    Within s.viewM2 (s.step i).viewM3 := by
  have hp : (s.step i).producers.dataM3 =
      (memory3 s.dataM2 i.respData).zipWith BypassInput.ofMemory
        ((memory3 s.dataM2 i.respData).map fun d => writeback d (s.step i).specialRead) := by
    simp only [CoreState.producers, CoreState.dataW, hM3]
  have hw : Within s.viewM3 (settled (s.step i).regs) := by
    rw [viewM3_eq h]
    exact Within.refl _
  simp only [CoreState.viewM2, Producers.viewM2, CoreState.viewM3, Producers.viewM3, hp]
  exact through_within (fills_memory3 h.dataM2.slot1 _ _) (fills_memory3 h.dataM2.slot0 _ _) hw

theorem viewM2_of_bubble (h : s'.dataM2 = ⟨{}, {}⟩) : s'.viewM2 = s'.viewM3 := by
  simp only [CoreState.viewM2, Producers.viewM2, CoreState.producers, h]
  exact through_dead rfl rfl

theorem viewE_of_bubble (h : s'.dataE = ⟨{}, {}⟩) : s'.viewE = s'.viewM1 := by
  simp only [CoreState.viewE, Producers.viewE, CoreState.producers, h]
  exact through_dead rfl rfl

theorem viewM1_of_moved (h : s'.dataM2 = s.dataM1) (hw : Within s.viewM2 s'.viewM3) :
    Within s.viewM1 s'.viewM2 := by
  simp only [CoreState.viewM1, Producers.viewM1, CoreState.viewM2, Producers.viewM2,
    CoreState.producers, h]
  exact through_within (Fills.refl _) (Fills.refl _) hw

theorem viewE_of_moved (h : s'.dataM1 = s.dataE.map fun d => { d with dTlbExc := {} })
    (hw : Within s.viewM1 s'.viewM2) : Within s.viewE s'.viewM1 := by
  simp only [CoreState.viewM1, Producers.viewM1, CoreState.viewE, Producers.viewE,
    CoreState.producers, h]
  exact through_within (Fills.refl _) (Fills.refl _) hw

theorem viewM1_of_kept (h : s'.dataM1 = s.dataM1) (hw : Within s.viewM2 s'.viewM2) :
    Within s.viewM1 s'.viewM1 := by
  simp only [CoreState.viewM1, Producers.viewM1, CoreState.producers, h]
  exact through_within (Fills.refl _) (Fills.refl _) hw

theorem viewE_of_kept (h : s'.dataE = s.dataE) (hw : Within s.viewM1 s'.viewM1) :
    Within s.viewE s'.viewE := by
  simp only [CoreState.viewE, Producers.viewE, CoreState.producers, h]
  exact through_within (Fills.refl _) (Fills.refl _) hw

/-- A group leaves E: everything behind it moves on. -/
theorem producers_advance (h : s.WritesLand) (hs : s.NoSquash i)
    (hh : (i.dWait || s.waitM) = false) (he : i.eWait = false) :
    s.producers.Advance s.regs (s.step i).producers (s.step i).regs := by
  obtain ⟨-, -, hM1, hM2, hM3⟩ := step_free hs hh he
  rw [dataM1Nxt_eq (hs.2 hh).1] at hM1
  refine ⟨?_, ?_, ?_, ?_, ?_, ?_, (viewM3_eq h).symm⟩
  · simp only [CoreState.producers, hM1]
    rfl
  · simp only [CoreState.producers, hM2]
  all_goals simp only [CoreState.producers, CoreState.dataW, hM3]
  · exact fills_memory3 h.dataM2.slot1 _ _
  · exact fills_memory3 h.dataM2.slot0 _ _
  · rfl
  · rfl

end Views

end FrailCPU
