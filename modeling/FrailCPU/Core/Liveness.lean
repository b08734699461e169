import FrailCPU.Core.Target
import FrailCPU.Core.Division
import FrailCPU.Core.Enabled

/-!
# A requested interrupt and a pipeline at rest

The whole core together with the registers of its two units, which give it `e_wait`. When
an interrupt is requested and the caches are ready, a cycle changes something besides the
counter: an interrupt is entered or an instruction moves, a unit goes on, or the fetch
delivers. The exception is a `WAIT` in M1: nothing but a redirect from W ends it, and once
M3 and W are empty there is no instruction that the interrupt could be charged to.
-/

namespace FrailCPU

open Cpu (pipereg2_ordered)

/-- The core with the registers of `multi.sv` and `div.sv`. -/
structure UnitCpu where
  cpu : Cpu := {}
  mul : Multiplier := {}
  div : Divider := {}

/-- What the core reads in a cycle, less what the units answer. -/
structure CycleInput where
  addrOk : Bool := true
  instrData : Pair Word := ⟨0#32, 0#32⟩
  prediction : Prediction := {}
  dWait : Bool := false
  respData : Pair Word := ⟨0#32, 0#32⟩
  extInt : BitVec 6 := 0#6

namespace UnitCpu

variable (s : UnitCpu) (i : CycleInput)

/-- The stages behind the queue with the units. -/
def units : UnitCore where
  core := s.cpu.core
  mul := s.mul
  div := s.div

def cpuInput : CpuInput where
  addrOk := i.addrOk
  instrData := i.instrData
  prediction := i.prediction
  dWait := i.dWait
  eWait := s.units.eWait
  u := { multc := s.mul.c, divc := s.div.c }
  respData := i.respData
  extInt := i.extInt

/-- A clock edge. -/
def step : UnitCpu where
  cpu := s.cpu.step (s.cpuInput i)
  mul := s.mul.next s.units.multValid s.units.a s.units.b
  div := s.div.next s.units.divValid s.units.a s.units.b

/-- Interrupts are enabled, an unmasked source is asserted, and the caches are ready. -/
def Requested : Prop :=
  s.cpu.core.cp0.regs.interrupt i.extInt = true ∧ s.cpu.iWait (s.cpuInput i) = false ∧
    i.dWait = false

/-- The state without the counter and its divider. -/
def exceptCount : UnitCpu :=
  { s with cpu := { s.cpu with core := { s.cpu.core with cp0 :=
      { s.cpu.core.cp0 with regs := { s.cpu.core.cp0.regs with count := 0#32 }, double := false } } } }

/-- A cycle with a requested interrupt changes something besides the counter. -/
def Lively : Prop := s.Requested i → (s.step i).exceptCount ≠ s.exceptCount

/-- A `WAIT` is in M1, nothing valid is in M3 and in W, and no position is saved for an
interrupt. -/
def Asleep : Prop :=
  s.cpu.core.waitM = true ∧
    s.cpu.core.dataM2.slot1.valid = false ∧ s.cpu.core.dataM2.slot0.valid = false ∧
    s.cpu.core.dataM3.slot1.valid = false ∧ s.cpu.core.dataM3.slot0.valid = false ∧
    s.cpu.core.intPcSaved = false

/-- No interrupt is requested of a core that is asleep. -/
def NotAsleep : Prop := s.Requested i → ¬ s.Asleep

instance : Decidable (s.Requested i) := inferInstanceAs (Decidable (_ ∧ _ ∧ _))

instance : Decidable s.Asleep := inferInstanceAs (Decidable (_ ∧ _ ∧ _ ∧ _ ∧ _ ∧ _))

instance : Decidable (s.NotAsleep i) := inferInstanceAs (Decidable (_ → ¬ _))

end UnitCpu

/-- The instruction writes no register, accesses nothing and raises nothing. -/
structure Inert (ctl : Control) (t : Cp0Type) : Prop where
  regwrite : ctl.regwrite = false
  accesses : ctl.accesses = false
  leaves : t.leaves = false

def ExecuteData.IsInert (d : ExecuteData) : Prop := Inert d.ctl d.cp0Ctl.ctype

def MemoryData.IsInert (d : MemoryData) : Prop := Inert d.ctl d.cp0Ctl.ctype

/-- A pair without a valid instruction does nothing. -/
structure CoreState.Vacant (s : CoreState) : Prop where
  e : s.dataI.slot1.valid = false → s.dataI = ⟨{}, {}⟩
  m1 : s.dataE.slot1.valid = false → s.dataE.Each ExecuteData.IsInert ∧ Cpu.Idle s.dataE
  m2 : s.dataM1.slot1.valid = false →
    s.dataM1.Each ExecuteData.IsInert ∧ s.dataM1.slot1.cacheCtl.icacheInst = .unknown
  m3 : s.dataM2.slot1.valid = false → s.dataM2.Each ExecuteData.IsInert
  w : s.dataM3.slot1.valid = false → s.dataM3.Each MemoryData.IsInert

section Vacant

theorem inert_zero : Inert {} .noExc := ⟨rfl, rfl, rfl⟩

theorem inert_execute_zero (rd : Pair Operands) (u : MulDivResult) :
    (execute ⟨{}, {}⟩ rd u).Each ExecuteData.IsInert := by
  have hf (r : Operands) : exceptionOf {} r = false ∧ storeMisalign {} r = false ∧
      loadMisalign {} r = false ∧ trapOf {} r = false := ⟨rfl, rfl, rfl, rfl⟩
  constructor
  · refine ⟨rfl, rfl, ?_⟩
    simp [execute, Cp0Control.addFound, Found.any, found1, hf, Cp0Type.leaves]
  · refine ⟨rfl, rfl, ?_⟩
    simp [execute, Cp0Control.addFound, Found.any, found0, hf, Cp0Type.leaves]

/-- M1 charges nothing to an inert pair. -/
theorem inert_memory {p : Pair ExecuteData} (m : MmuState)
    (h : p.Each ExecuteData.IsInert) :
    (memory p (memoryExc m p)).Each ExecuteData.IsInert := by
  have e1 : m.dTlbExc (memoryReq p.slot1) = {} := m.dTlbExc_of_invalid h.slot1.accesses
  have e0 : m.dTlbExc (memoryReq p.slot0) = {} := m.dTlbExc_of_invalid h.slot0.accesses
  have hexc : memoryExc m p = ⟨{}, {}⟩ := by
    have h1 := memoryExc_slot1 m p
    have h0 := memoryExc_slot0 m p
    rw [e0] at h1
    rw [e1] at h0
    cases hx : memoryExc m p
    rw [hx] at h1 h0
    simp only at h1 h0
    rw [h1, h0]
  rw [hexc]
  refine ⟨h.slot1, ?_⟩
  simp only [memory]
  split
  · have ha := h.slot0.accesses
    simp only [Control.accesses, Bool.or_eq_false_iff] at ha
    exact ⟨rfl, by simp [Control.accesses, Control.squashWrites, ha], h.slot0.leaves⟩
  · exact h.slot0

variable {s : CoreState} {i : CoreInput}

theorem vacant_reset : CoreState.Vacant {} where
  e _ := rfl
  m1 _ := ⟨⟨inert_zero, inert_zero⟩, Cpu.idle_zero⟩
  m2 _ := ⟨⟨inert_zero, inert_zero⟩, rfl⟩
  m3 _ := ⟨inert_zero, inert_zero⟩
  w _ := ⟨inert_zero, inert_zero⟩

/-- Nothing issues without the older candidate. -/
theorem dataINxt_of_invalid (h : (s.dataINxt i).slot1.valid = false) :
    s.dataINxt i = ⟨{}, {}⟩ := by
  have hn1 : ¬ issueEn1 i.candidates.slot1.val i.candidates.slot0.val
      ⟨s.portBypass i.candidates.slot1.val, s.portBypass i.candidates.slot0.val⟩ = true := by
    intro he
    simp only [CoreState.dataINxt, issueGroup, if_pos he] at h
    rw [show (issueRecord i.candidates.slot1.val _ _ _).valid = true from
      Cpu.valid_of_issueEn1 he] at h
    cases h
  have hn2 := fun he => hn1 (issueEn1_of_issueEn2 he)
  simp only [CoreState.dataINxt, issueGroup, if_neg hn1, if_neg hn2]

theorem CoreState.Vacant.step (h : s.Vacant) : (s.step i).Vacant where
  e := pipereg2_ordered (P := fun p : Pair IssueData => p.slot1.valid = false → p = ⟨{}, {}⟩)
    (fun _ => rfl) dataINxt_of_invalid h.e
  m1 := by
    refine pipereg2_ordered (P := fun p : Pair ExecuteData => p.slot1.valid = false →
      p.Each ExecuteData.IsInert ∧ Cpu.Idle p) ?_ (fun hv => ?_) h.m1
    · exact fun _ => ⟨⟨inert_zero, inert_zero⟩, Cpu.idle_zero⟩
    · have hI : s.dataI = ⟨{}, {}⟩ := h.e hv
      rw [CoreState.dataENxt, hI]
      exact ⟨inert_execute_zero _ _, Cpu.idle_execute _ _⟩
  m2 := by
    refine pipereg2_ordered (P := fun p : Pair ExecuteData => p.slot1.valid = false →
      p.Each ExecuteData.IsInert ∧ p.slot1.cacheCtl.icacheInst = .unknown) ?_ (fun hv => ?_) h.m2
    · exact fun _ => ⟨⟨inert_zero, inert_zero⟩, rfl⟩
    · exact ⟨inert_memory _ (h.m1 hv).1, (h.m1 hv).2.icacheInst⟩
  m3 := by
    refine pipereg2_ordered (P := fun p : Pair ExecuteData => p.slot1.valid = false →
      p.Each ExecuteData.IsInert) ?_ (fun hv => (h.m2 hv).1) h.m3
    exact fun _ => ⟨inert_zero, inert_zero⟩
  w := by
    refine pipereg2_ordered (P := fun p : Pair MemoryData => p.slot1.valid = false →
      p.Each MemoryData.IsInert) ?_ (fun hv => ⟨(h.m3 hv).slot1, (h.m3 hv).slot0⟩) h.w
    exact fun _ => ⟨inert_zero, inert_zero⟩

theorem stageAnswer_of_silent {α β : Type} {writes : α → CregAddr → Bool} (answer : α → β)
    {p : Pair α} {ra : CregAddr} (rest : β) (h : p.Each fun a => writes a ra = false) :
    stageAnswer writes answer p ra rest = rest := by
  rw [stageAnswer, h.slot0, h.slot1]
  rfl

/-- An empty pipeline makes no candidate wait. -/
theorem portBypass_ready (hI : s.dataI = ⟨{}, {}⟩) (hE : s.dataE.Each ExecuteData.IsInert)
    (hM1 : s.dataM1.Each ExecuteData.IsInert) (hM2 : s.dataM2.Each ExecuteData.IsInert)
    (hM3 : s.dataM3.Each MemoryData.IsInert) (c : DecodeData) :
    (s.portBypass c).ready = true := by
  have hx (p : Pair ExecuteData) (h : p.Each ExecuteData.IsInert) (ra : CregAddr) :
      (p.map BypassInput.ofExecute).Each fun a => a.writes ra = false :=
    h.map fun d hd => by simp [BypassInput.writes, BypassInput.ofExecute, hd.regwrite]
  have hb (ra : CregAddr) : s.issueBypass ra = {} := by
    rw [CoreState.issueBypass, bypassI, hI, CoreState.producers]
    rw [stageAnswer_of_silent _ _ ⟨rfl, rfl⟩, stageAnswer_of_silent _ _ (hx _ hE ra),
      stageAnswer_of_silent _ _ (hx _ hM1 ra), stageAnswer_of_silent _ _ (hx _ hM2 ra)]
    refine stageAnswer_of_silent _ _ ⟨?_, ?_⟩
    · simp [Pair.zipWith, BypassInput.writes, BypassInput.ofMemory, hM3.slot1.regwrite]
    · simp [Pair.zipWith, BypassInput.writes, BypassInput.ofMemory, hM3.slot0.regwrite]
  simp only [PortBypass.ready, CoreState.portBypass, hb]
  rfl

end Vacant

section Units

/-- A unit that is not done goes on. -/
theorem Divider.next_ne {d : Divider} {valid : Bool} {a b : Word} (h : d.done valid = false) :
    d.next valid a b ≠ d := by
  intro he
  have hst : d.stateNxt valid = d.state := congrArg Divider.state he
  have hc : d.countNxt valid = d.count := congrArg Divider.count he
  have hd : d.stateNxt valid ≠ .init := by
    simpa [Divider.done] using h
  cases hs : d.state with
  | init =>
      rw [hst, hs] at hd
      exact hd rfl
  | doing =>
      have hz : d.count ≠ 0#35 := fun hz => hd (by
        rw [Divider.stateNxt, hs, hc, hz]
        rfl)
      rw [Divider.countNxt, hs] at hc
      have hlt : (d.count >>> 1).toNat = d.count.toNat := congrArg BitVec.toNat hc
      rw [BitVec.toNat_ushiftRight, Nat.shiftRight_one] at hlt
      have hzero : d.count.toNat = 0 := by omega
      exact hz (BitVec.eq_of_toNat_eq hzero)

theorem Multiplier.next_ne {m : Multiplier} {valid : Bool} {a b : Word}
    (h : m.done valid = false) : m.next valid a b ≠ m := by
  intro he
  have hst : m.stateNxt valid = m.state := congrArg Multiplier.state he
  have hd : m.stateNxt valid ≠ .init := by
    simpa [Multiplier.done] using h
  cases hs : m.state with
  | init =>
      rw [hst, hs] at hd
      exact hd rfl
  | doing =>
      rw [Multiplier.stateNxt, hs] at hd
      exact hd rfl

end Units

section Hazard

theorem hazard_flushW :
    ∀ a b c d e : Bool, (hazard false a b c d e).flushW = false := by
  decide

theorem hazard_moves :
    ∀ c d e : Bool, (hazard false false false c d e).flushM3 = false ∧
      (hazard false false false c d e).flushM2 = false ∧
      (hazard false false false c d e).stallM2 = false := by
  decide

end Hazard

namespace UnitCpu

variable {s : UnitCpu} {i : CycleInput}

/-- The registers that a cycle without a change leaves as they are. -/
structure Still (s : UnitCpu) (i : CycleInput) : Prop where
  front : (s.cpu.step (s.cpuInput i)).front = s.cpu.front
  dataD : (s.cpu.step (s.cpuInput i)).dataD = s.cpu.dataD
  queue : (s.cpu.step (s.cpuInput i)).queue = s.cpu.queue
  dataI : (s.cpu.step (s.cpuInput i)).core.dataI = s.cpu.core.dataI
  dataE : (s.cpu.step (s.cpuInput i)).core.dataE = s.cpu.core.dataE
  dataM1 : (s.cpu.step (s.cpuInput i)).core.dataM1 = s.cpu.core.dataM1
  dataM2 : (s.cpu.step (s.cpuInput i)).core.dataM2 = s.cpu.core.dataM2
  dataM3 : (s.cpu.step (s.cpuInput i)).core.dataM3 = s.cpu.core.dataM3
  intPcSaved : (s.cpu.step (s.cpuInput i)).core.intPcSaved = s.cpu.core.intPcSaved
  status : (s.cpu.step (s.cpuInput i)).core.cp0.regs.status = s.cpu.core.cp0.regs.status
  mul : (s.step i).mul = s.mul
  div : (s.step i).div = s.div

theorem still_of_unchanged (h : (s.step i).exceptCount = s.exceptCount) : s.Still i where
  front := congrArg (fun t : UnitCpu => t.cpu.front) h
  dataD := congrArg (fun t : UnitCpu => t.cpu.dataD) h
  queue := congrArg (fun t : UnitCpu => t.cpu.queue) h
  dataI := congrArg (fun t : UnitCpu => t.cpu.core.dataI) h
  dataE := congrArg (fun t : UnitCpu => t.cpu.core.dataE) h
  dataM1 := congrArg (fun t : UnitCpu => t.cpu.core.dataM1) h
  dataM2 := congrArg (fun t : UnitCpu => t.cpu.core.dataM2) h
  dataM3 := congrArg (fun t : UnitCpu => t.cpu.core.dataM3) h
  intPcSaved := congrArg (fun t : UnitCpu => t.cpu.core.intPcSaved) h
  status := congrArg (fun t : UnitCpu => t.cpu.core.cp0.regs.status) h
  mul := by
    have hm : (s.step i).exceptCount.mul = s.exceptCount.mul := by rw [h]
    exact hm
  div := by
    have hd : (s.step i).exceptCount.div = s.exceptCount.div := by rw [h]
    exact hd

theorem Requested.isInt (hr : s.Requested i) :
    s.cpu.core.isInt (s.cpu.coreInput (s.cpuInput i)) = true :=
  (Bool.or_eq_true _ _).mpr (Or.inl hr.1)

section Still

variable (h : s.Still i) (hr : s.Requested i)

include h

theorem Still.eWait : s.units.eWait = false := by
  rw [Bool.eq_false_iff]
  intro he
  simp only [UnitCore.eWait, Bool.or_eq_true, Bool.and_eq_true, Bool.not_eq_true'] at he
  rcases he with ⟨-, hd⟩ | ⟨-, hm⟩
  · exact Divider.next_ne hd h.div
  · exact Multiplier.next_ne hm h.mul

include hr

/-- A redirect from W empties W, or sets `EXL`. -/
theorem Still.excpW : s.cpu.core.excpW (s.cpu.coreInput (s.cpuInput i)) = false := by
  rw [Bool.eq_false_iff]
  intro hw
  have hb : s.cpu.core.hazardOut (s.cpu.coreInput (s.cpuInput i)) = _ :=
    HazardIn.back_squashW (h := s.cpu.hazardIn (s.cpuInput i)) hw
  have hM3 : s.cpu.core.dataM3 = ⟨{}, {}⟩ := by
    rw [← h.dataM3]
    simp only [Cpu.step, CoreState.step, hb, pipereg2, if_true]
  have he : isEret s.cpu.core.dataM3 = false := by
    rw [hM3]
    rfl
  have ht : s.cpu.core.cp0.takesInterrupt (s.cpu.core.cp0In (s.cpu.coreInput (s.cpuInput i))) =
      true := by
    rw [CoreState.excpW, he, Cp0State.isIntExc] at hw
    have hc : (s.cpu.core.cp0In (s.cpu.coreInput (s.cpuInput i))).ctype = .noExc := by
      change (excSlot s.cpu.core.dataM3).cp0Ctl.ctype = .noExc
      rw [hM3]
      rfl
    rw [hc] at hw
    simpa using hw
  have hexl : (s.cpu.step (s.cpuInput i)).core.cp0.regs.status.exl = true := by
    change (s.cpu.core.cp0.regsNxt (s.cpu.core.cp0In (s.cpu.coreInput (s.cpuInput i)))).status.exl =
      true
    have hi : (s.cpu.core.cp0In (s.cpu.coreInput (s.cpuInput i))).isEret = false := he
    rw [Cp0State.regsNxt, hi, Cp0State.regsTaken, ht]
    rfl
  rw [h.status, ((Cp0Regs.interrupt_iff _ _).mp hr.1).2.1] at hexl
  cases hexl

/-- Nothing is saved for the interrupt, and W holds nothing that it could be charged to. -/
theorem Still.notSaved : s.cpu.core.intPcSaved = false ∧
    s.cpu.core.dataM3.slot1.valid = false ∧ s.cpu.core.dataM3.slot0.valid = false := by
  have hw := h.excpW hr
  have hint := hr.isInt
  have hs : s.cpu.core.intPcSaved = false := by
    rw [Bool.eq_false_iff]
    intro hs
    have hv : s.cpu.core.interValid (s.cpu.coreInput (s.cpuInput i)) = true := by
      have hi : (s.cpu.coreInput (s.cpuInput i)).iWait = false := hr.2.1
      rw [CoreState.interValid, hi, hs]
      rfl
    have ht : s.cpu.core.cp0.takesInterrupt
        (s.cpu.core.cp0In (s.cpu.coreInput (s.cpuInput i))) = true :=
      (Bool.and_eq_true _ _).mpr ⟨hint, hv⟩
    rw [CoreState.excpW, Cp0State.isIntExc, ht] at hw
    simp at hw
  have hnext : (if s.cpu.core.dataM3.slot0.valid &&
        s.cpu.core.isInt (s.cpu.coreInput (s.cpuInput i)) then true
      else if !s.cpu.core.dataM3.slot0.valid && s.cpu.core.dataM3.slot1.valid &&
        s.cpu.core.isInt (s.cpu.coreInput (s.cpuInput i)) then true
      else if !s.cpu.core.isInt (s.cpu.coreInput (s.cpuInput i)) then false
      else s.cpu.core.intPcSaved) = s.cpu.core.intPcSaved := h.intPcSaved
  rw [hint, hs] at hnext
  refine ⟨hs, ?_⟩
  cases h0 : s.cpu.core.dataM3.slot0.valid <;> cases h1 : s.cpu.core.dataM3.slot1.valid <;>
    simp [h0, h1] at hnext ⊢

/-- M3 is never stalled, so it is empty as well. -/
theorem Still.emptyM3 :
    s.cpu.core.dataM2.slot1.valid = false ∧ s.cpu.core.dataM2.slot0.valid = false := by
  have hw := h.excpW hr
  obtain ⟨-, h1, h0⟩ := h.notSaved hr
  have hfw : (s.cpu.core.hazardOut (s.cpu.coreInput (s.cpuInput i))).flushW = false := by
    rw [CoreState.hazardOut, hw]
    exact hazard_flushW _ _ _ _ _
  have hM3 : memory3 s.cpu.core.dataM2 (s.cpu.coreInput (s.cpuInput i)).respData =
      s.cpu.core.dataM3 := by
    rw [← h.dataM3]
    simp only [Cpu.step, CoreState.step, hfw, pipereg2]
    rfl
  rw [← hM3] at h1 h0
  exact ⟨h1, h0⟩

/-- What is left, if no `WAIT` is in M1: every stage behind the queue is empty, and everything
moves. -/
theorem Still.emptyM2 (hw : s.cpu.core.waitM = false) :
    s.cpu.core.dataM1.slot1.valid = false ∧ s.cpu.core.dataE.slot1.valid = false := by
  have hwp := h.excpW hr
  have hd : (s.cpu.coreInput (s.cpuInput i)).dWait = false := hr.2.2
  have hflags := hazard_moves s.cpu.core.excpM1 s.cpu.core.branchM
    (s.cpu.coreInput (s.cpuInput i)).eWait
  have hb : s.cpu.core.hazardOut (s.cpu.coreInput (s.cpuInput i)) =
      hazard false false false s.cpu.core.excpM1 s.cpu.core.branchM
        (s.cpu.coreInput (s.cpuInput i)).eWait := by
    rw [CoreState.hazardOut, hwp, hd, hw]
  rw [← hb] at hflags
  obtain ⟨hf3, hf2, hs2⟩ := hflags
  have hM2 : s.cpu.core.dataM1 = s.cpu.core.dataM2 := by
    rw [← h.dataM2]
    simp only [Cpu.step, CoreState.step, hf3, pipereg2]
    rfl
  have hM1 : s.cpu.core.dataM1Nxt = s.cpu.core.dataM1 := by
    rw [← h.dataM1]
    simp only [Cpu.step, CoreState.step, hf2, hs2, pipereg2]
    rfl
  have h1 : s.cpu.core.dataM1.slot1.valid = false := by
    rw [hM2]
    exact (h.emptyM3 hr).1
  refine ⟨h1, ?_⟩
  rw [← hM1] at h1
  exact h1

theorem Still.asleep_of_waitM (hw : s.cpu.core.waitM = true) : s.Asleep := by
  obtain ⟨hs, h1, h0⟩ := h.notSaved hr
  obtain ⟨h21, h20⟩ := h.emptyM3 hr
  exact ⟨hw, h21, h20, h1, h0, hs⟩

end Still

/-- The entries of the queue are valid, and what is not valid does nothing. -/
structure Sound (s : Cpu) : Prop where
  ordered : s.Ordered
  vacant : s.core.Vacant
  filled : ∀ d ∈ s.queue.val.contents, d.valid = true

theorem sound_reset : Sound {} where
  ordered := Cpu.ordered_reset
  vacant := vacant_reset
  filled := fun _ hd => by cases hd

theorem Sound.step {s : Cpu} {i : CpuInput} (h : Sound s) : Sound (s.step i) where
  ordered := h.ordered.step
  vacant := h.vacant.step
  filled := by
    intro d hd
    rw [h.ordered.queue_step.2] at hd
    split at hd
    · cases hd
    · rcases List.mem_append.mp hd with hd | hd
      · exact h.filled d (List.mem_of_mem_drop hd)
      · exact TrackedQueue.valid_of_mem_arrivals hd

section Moving

variable (h : s.Still i) (hr : s.Requested i) (hs : Sound s.cpu)
  (hw : s.cpu.core.waitM = false)

include h hr hs hw

/-- Nothing stops the stages from E on. -/
theorem Still.moving :
    ((s.cpu.hazardIn (s.cpuInput i)).dWait || (s.cpu.hazardIn (s.cpuInput i)).waitM) = false ∧
      ((s.cpu.hazardIn (s.cpuInput i)).excpM || (s.cpu.hazardIn (s.cpuInput i)).branchM) =
        false := by
  obtain ⟨-, hidle⟩ := hs.vacant.m1 (h.emptyM2 hr hw).2
  refine ⟨Bool.or_eq_false_iff.mpr ⟨hr.2.2, hw⟩, Bool.or_eq_false_iff.mpr ⟨hidle.excpM _, ?_⟩⟩
  exact Bool.or_eq_false_iff.mpr ⟨hidle.branchTaken, hidle.cacheI⟩

theorem Still.hazardOut : s.cpu.core.hazardOut (s.cpu.coreInput (s.cpuInput i)) = {} := by
  obtain ⟨hd, hm⟩ := h.moving hr hs hw
  exact HazardIn.back_move (h := s.cpu.hazardIn (s.cpuInput i)) (h.excpW hr) hd hm h.eWait

/-- E is empty, and nothing issues. -/
theorem Still.emptyE : s.cpu.core.dataI = ⟨{}, {}⟩ ∧
    s.cpu.core.dataINxt (s.cpu.coreInput (s.cpuInput i)) = ⟨{}, {}⟩ := by
  have hb := h.hazardOut hr hs hw
  have hE : s.cpu.core.dataENxt (s.cpu.coreInput (s.cpuInput i)) = s.cpu.core.dataE := by
    rw [← h.dataE]
    simp only [Cpu.step, CoreState.step, hb, pipereg2]
    rfl
  have hI : s.cpu.core.dataINxt (s.cpu.coreInput (s.cpuInput i)) = s.cpu.core.dataI := by
    rw [← h.dataI]
    simp only [Cpu.step, CoreState.step, hb, pipereg2]
    rfl
  have hv : s.cpu.core.dataI.slot1.valid = false := by
    have hve := (h.emptyM2 hr hw).2
    rw [← hE] at hve
    exact hve
  rw [hI]
  exact ⟨hs.vacant.e hv, hs.vacant.e hv⟩

theorem Still.notIssued : issueEn1 s.cpu.queue.val.candidate1 s.cpu.queue.val.candidate2
    (s.cpu.issueInput (s.cpuInput i)).bypass = false := by
  rw [Bool.eq_false_iff]
  intro he
  have hissued : (s.cpu.core.dataINxt (s.cpu.coreInput (s.cpuInput i))).slot1.valid = true := by
    have hslot : (s.cpu.core.dataINxt (s.cpu.coreInput (s.cpuInput i))).slot1 = _ := if_pos he
    rw [hslot]
    exact Cpu.valid_of_issueEn1 he
  rw [(h.emptyE hr hs hw).2] at hissued
  cases hissued

/-- Only a branch that waits for its delay slot stays in the queue. -/
theorem Still.length_contents : s.cpu.queue.val.contents.length ≤ 1 := by
  obtain ⟨p, t, hc⟩ := hs.ordered.queue
  obtain ⟨hM1, hE⟩ := h.emptyM2 hr hw
  have hready := portBypass_ready (h.emptyE hr hs hw).1 (hs.vacant.m1 hE).1
    (hs.vacant.m2 hM1).1 (hs.vacant.m3 (h.emptyM3 hr).1) (hs.vacant.w (h.notSaved hr).2.1)
  by_contra hlen
  have hv1 : s.cpu.queue.val.candidate1.valid = true := by
    rw [hc.candidate1]
    match hl : s.cpu.queue.val.contents with
    | [] => simp [hl] at hlen
    | c :: l => exact hs.filled c (by rw [hl]; exact List.mem_cons_self)
  have hv2 : s.cpu.queue.val.candidate2.valid = true := by
    rw [hc.candidate2]
    match hl : s.cpu.queue.val.contents with
    | [] => simp [hl] at hlen
    | [c] => simp [hl] at hlen
    | c :: c' :: l => exact hs.filled c' (by rw [hl]; simp)
  have hen : issueEn1 s.cpu.queue.val.candidate1 s.cpu.queue.val.candidate2
      (s.cpu.issueInput (s.cpuInput i)).bypass = true := by
    simp [issueEn1, hv1, hv2, Cpu.issueInput, hready]
  rw [h.notIssued hr hs hw] at hen
  cases hen

theorem Still.overflow : s.cpu.queue.val.overflow = false := by
  obtain ⟨p, t, hc⟩ := hs.ordered.queue
  have hlen := h.length_contents hr hs hw
  rw [hc.contents, RingQueue.length_window] at hlen
  have hle := hc.le
  rw [Bool.eq_false_iff]
  intro ho
  rw [IssueQueue.overflow, Bool.or_eq_true, beq_iff_eq, beq_iff_eq, hc.odd_full, hc.even_full] at ho
  omega

/-- The fetch goes on as well. -/
theorem Still.hazardFront : s.cpu.hazardFront (s.cpuInput i) = { flushF2 := s.cpu.front.fihazrd } := by
  obtain ⟨hd, hm⟩ := h.moving hr hs hw
  have ho : (s.cpu.hazardIn (s.cpuInput i)).overflowI = false := h.overflow hr hs hw
  have hi : (s.cpu.hazardIn (s.cpuInput i)).iWait = false := hr.2.1
  rw [Cpu.hazardFront, HazardIn.front, HazardIn.chain_move (h.excpW hr) hd hm h.eWait, ho, hi]
  cases s.cpu.front.fihazrd <;> rfl

/-- Nothing is in the decoder: it would enter the queue. -/
theorem Still.emptyD : s.cpu.dataD.slot1.valid = false := by
  have hz := h.hazardFront hr hs hw
  have hc := (hs.ordered.queue_step (i := s.cpuInput i)).2
  rw [h.queue, hz, if_neg Bool.false_ne_true] at hc
  have hn1 := h.notIssued hr hs hw
  have hn2 : issueEn2 s.cpu.queue.val.candidate1 s.cpu.queue.val.candidate2
      (s.cpu.issueInput (s.cpuInput i)).bypass = false := by
    rw [Bool.eq_false_iff]
    intro he
    rw [issueEn1_of_issueEn2 he] at hn1
    cases hn1
  have hdep : s.cpu.queue.val.departures (s.cpu.issueInput (s.cpuInput i)) = 0 := by
    rw [IssueQueue.departures, hn1, hn2]
    exact ite_self _
  rw [hdep, List.drop_zero, List.self_eq_append_right] at hc
  have hI : (s.cpu.issueInput (s.cpuInput i)).stallI = false := by
    change (s.cpu.hazardFront (s.cpuInput i)).stallI = false
    rw [hz]
  rw [IssueQueue.arrivals, hI] at hc
  rw [Bool.eq_false_iff]
  intro hv
  rw [show (decode (s.cpu.issueInput (s.cpuInput i)).dataF2).slot1.valid = true from hv] at hc
  simp at hc

/-- The fetch has nothing on its way either, and delivers. -/
theorem Still.absurd : False := by
  have hz := h.hazardFront hr hs hw
  have hzi : (s.cpu.fetchInput (s.cpuInput i)).hazard = { flushF2 := s.cpu.front.fihazrd } := hz
  have hstep : s.cpu.front.step (s.cpu.fetchInput (s.cpuInput i)) = s.cpu.front := h.front
  have hsaves : s.cpu.front.saves (s.cpu.fetchInput (s.cpuInput i)) = false := by
    rw [FrontEnd.saves, hzi]
    rfl
  have hF2 : s.cpu.front.dataF2.slot1.valid = false := by
    have hd : s.cpu.front.dataF2 = s.cpu.dataD := by
      rw [← h.dataD]
      simp only [Cpu.step, hz, pipereg2]
      rfl
    rw [hd]
    exact h.emptyD hr hs hw
  have hF1 : s.cpu.front.dataF1.valid = false := by
    have hd := FrontEnd.step_dataF2 (f := s.cpu.front) (i := s.cpu.fetchInput (s.cpuInput i))
      (by rw [hzi]) (by rw [hzi])
    rw [hstep] at hd
    rw [hd] at hF2
    exact hF2
  have hfi : s.cpu.front.fihazrd = false := by
    have hx := congrArg FrontEnd.fihazrd hstep
    simpa [FrontEnd.step, hzi] using hx.symm
  have hsaved : s.cpu.front.icacheSaved = false := by
    have hx := congrArg FrontEnd.icacheSaved hstep
    simpa [FrontEnd.step, hsaves, hzi] using hx.symm
  have hM1 := hs.vacant.m1 (h.emptyM2 hr hw).2
  have hcacheI : s.cpu.front.dataP.cacheI = false := by
    have hx := congrArg (fun f : FrontEnd => f.dataP.cacheI) hstep
    have hicache : (s.cpu.fetchInput (s.cpuInput i)).redirects.icache = false := hM1.2.cacheI
    have hP : (s.cpu.front.step (s.cpu.fetchInput (s.cpuInput i))).dataP =
        s.cpu.front.dataPNxt (s.cpu.fetchInput (s.cpuInput i)) := by
      simp [FrontEnd.step, hzi]
    rw [← hx]
    simp only [hP, FrontEnd.dataPNxt]
    split
    · exact hsaved
    · split <;> exact hicache
  have hvalid : (s.cpu.front.step (s.cpu.fetchInput (s.cpuInput i))).dataF1.valid = true := by
    have hidle : (s.cpu.fetchInput (s.cpuInput i)).redirects.m1IcacheInst = .unknown :=
      (hs.vacant.m2 (h.emptyM2 hr hw).1).2
    have hiw : (s.cpu.fetchInput (s.cpuInput i)).iWait = false := hr.2.1
    simp [FrontEnd.step, hzi, hfi, pipereg2, dataF1Nxt, FrontEnd.env, hidle, hiw, hsaved, hcacheI]
  rw [hstep, hF1] at hvalid
  cases hvalid

end Moving

end UnitCpu

namespace UnitCpu

section Asleep

variable {s : UnitCpu} {i : CycleInput} (h : s.Asleep) (hs : Sound s.cpu)

include h hs

/-- W holds nothing that redirects, and no position is saved. -/
theorem Asleep.excpW : s.cpu.core.excpW (s.cpu.coreInput (s.cpuInput i)) = false := by
  obtain ⟨-, -, -, h1, -, hp⟩ := h
  have hin := hs.vacant.w h1
  have hle : s.cpu.core.dataM3.slot1.cp0Ctl.ctype.leaves = false ∧
      s.cpu.core.dataM3.slot0.cp0Ctl.ctype.leaves = false :=
    ⟨hin.slot1.leaves, hin.slot0.leaves⟩
  have hc : (excSlot s.cpu.core.dataM3).cp0Ctl.ctype.leaves = false := by
    rw [excSlot]
    split
    · exact hle.1
    · exact hle.2
  have he : isEret s.cpu.core.dataM3 = false := by
    simp only [Cp0Type.leaves, Bool.or_eq_false_iff] at hle
    rw [isEret, hle.1.2, hle.2.2]
    rfl
  have ht : s.cpu.core.cp0.takesInterrupt
      (s.cpu.core.cp0In (s.cpu.coreInput (s.cpuInput i))) = false := by
    have hv : (s.cpu.core.cp0In (s.cpu.coreInput (s.cpuInput i))).interValid = false := by
      change (!_ && s.cpu.core.intPcSaved) = false
      rw [hp, Bool.and_false]
    rw [Cp0State.takesInterrupt, hv, Bool.and_false]
  have hx : (s.cpu.core.cp0In (s.cpu.coreInput (s.cpuInput i))).ctype.leaves = false := hc
  simp only [Cp0Type.leaves, Bool.or_eq_false_iff] at hx
  rw [CoreState.excpW, he, Cp0State.isIntExc, ht, hx.1]
  rfl

theorem Asleep.noSquash : s.cpu.core.NoSquash (s.cpu.coreInput (s.cpuInput i)) := by
  refine ⟨h.excpW hs, fun hw => ?_⟩
  rw [h.1, Bool.or_true] at hw
  cases hw

/-- M1 waits: M3 and W drain. -/
theorem Asleep.step_held :
    (s.step i).cpu.core.dataI = s.cpu.core.dataI ∧ (s.step i).cpu.core.dataE = s.cpu.core.dataE ∧
      (s.step i).cpu.core.dataM1 = s.cpu.core.dataM1 ∧
      (s.step i).cpu.core.dataM2 = ⟨{}, {}⟩ ∧
      (s.step i).cpu.core.dataM3 = memory3 s.cpu.core.dataM2 i.respData :=
  FrailCPU.step_held (h.noSquash hs) (by rw [h.1, Bool.or_true])

/-- Nothing wakes the core. -/
theorem Asleep.step : (s.step i).Asleep := by
  obtain ⟨-, hE, -, hM2, hM3⟩ := h.step_held (i := i) hs
  obtain ⟨hw, h21, h20, h1, h0, hp⟩ := h
  refine ⟨?_, ?_, ?_, ?_, ?_, ?_⟩
  · rw [CoreState.waitM, hE]
    exact hw
  · rw [hM2]
  · rw [hM2]
  · rw [hM3]
    exact h21
  · rw [hM3]
    exact h20
  · simp [UnitCpu.step, Cpu.step, CoreState.step, h1, h0, hp]

end Asleep

attribute [ext] UnitCpu Cpu CoreState Cp0State

/-- The registers of W that change nothing when they are written back. -/
theorem regfileNxt_idle {regs : RegFile} {w : Pair WritebackData} (h0 : regs 0#5 = 0#32)
    (hw : w.slot1.valid = false ∧ w.slot0.valid = false) : regfileNxt regs w = regs := by
  funext r
  rw [regfileNxt, hw.1, hw.2]
  split
  · have hr : r = 0#5 := by simpa using ‹(r == 0#5) = true›
    rw [hr, h0]
  · simp

/-- A queue that is stalled with the stage in front of it stands still. -/
theorem queue_stalled {q : DecodedQueue} {j : IssueInput} (hI : j.stallI = true)
    (hIDe : j.stallIDe = true) (hf : j.flushQue = false) : q.val.step j = q.val := by
  simp [IssueQueue.step, IssueQueue.evenEn, IssueQueue.oddEn, IssueQueue.popEven,
    IssueQueue.popOdd, IssueQueue.popping, hI, hIDe, hf]

/-- A fetch that is held and that nothing redirects stands still, once it has saved the
answer of the cache. -/
theorem front_stalled {f : FrontEnd} {j : FetchInput}
    (hz : j.hazard =
      { stallF := true, stallF2 := true, stallD := true, stallI := true, stallIDe := true,
        fihazrdNxt := f.fihazrd })
    (hu : f.Unredirected j) (hs : f.rawInstrSave.isSome = true) : f.step j = f := by
  have hsaves : f.saves j = false := by
    rw [FrontEnd.saves, hu.2]
    exact Bool.and_false _
  obtain ⟨w, hw⟩ := Option.isSome_iff_exists.mp hs
  simp [FrontEnd.step, hz, hsaves, hu.1, hw, pipereg2]
  rw [← hw]

/-- W drains: M3 and W are empty, and no operand is saved in E. -/
structure Drains (c : CoreState) (respData : Pair Word) : Prop where
  saved1 : c.saved1 = ⟨{}, {}⟩
  saved2 : c.saved2 = ⟨{}, {}⟩
  dataM2 : c.dataM2 = ⟨{}, {}⟩
  dataM3 : c.dataM3 = memory3 ⟨{}, {}⟩ respData

/-- The operands of E come from the stages up to M2. -/
theorem Drains.operands {c c' : CoreState} {r r' : Pair Word} (h : Drains c r)
    (h' : Drains c' r') (hI : c'.dataI = c.dataI) (hE : c'.dataE = c.dataE)
    (hM1 : c'.dataM1 = c.dataM1) : c'.operands = c.operands := by
  have hw (c : CoreState) (r : Pair Word) (h : Drains c r) :
      c.dataM3.zipWith BypassInput.ofMemory c.dataW = ⟨{}, {}⟩ := by
    rw [CoreState.dataW, h.dataM3]
    rfl
  have hp : c'.producers = c.producers := by
    rw [CoreState.producers, CoreState.producers, hE, hM1, h.dataM2, h'.dataM2, hw c r h, hw c' r' h']
  rw [CoreState.operands, CoreState.operands, CoreState.bypassRa1E, CoreState.bypassRa1E,
    CoreState.bypassRa2E, CoreState.bypassRa2E, hp, hI, h.saved1, h.saved2, h'.saved1, h'.saved2]

/-- The group in E does not use the units, and M1 does not redirect. -/
structure Quiet (s : UnitCpu) : Prop where
  branch : s.cpu.core.branchM = false
  mul : s.units.multValid = false
  div : s.units.divValid = false
  init : s.div.state = .init

namespace Asleep

variable {s : UnitCpu} {i : CycleInput} (h : s.Asleep) (hs : Sound s.cpu) (hq : s.Quiet)

section Quiet

include hq

theorem eWait_of_quiet : s.units.eWait = false := by
  rw [UnitCore.eWait, hq.mul, hq.div]
  rfl

theorem saved_step (hd : i.dWait = false) :
    (s.step i).cpu.core.saved1 = ⟨{}, {}⟩ ∧ (s.step i).cpu.core.saved2 = ⟨{}, {}⟩ := by
  have he : ((s.cpu.coreInput (s.cpuInput i)).eWait || (s.cpu.coreInput (s.cpuInput i)).dWait) =
      false := Bool.or_eq_false_iff.mpr ⟨eWait_of_quiet hq, hd⟩
  simp [UnitCpu.step, Cpu.step, CoreState.step, he, SavedOperand.step, Pair.zipWith]

end Quiet

include h

/-- `cp0` is offered no position for the interrupt. -/
theorem interValid : s.cpu.core.interValid (s.cpu.coreInput (s.cpuInput i)) = false := by
  rw [CoreState.interValid, h.2.2.2.2.2]
  exact Bool.and_false _

/-- A requested interrupt is remembered. -/
theorem intSaved_step (hr : s.cpu.core.cp0.regs.interrupt i.extInt = true) :
    (s.step i).cpu.core.cp0.intSaved = true := by
  have hv : (s.cpu.core.cp0In (s.cpu.coreInput (s.cpuInput i))).interValid = false := h.interValid
  have hi : s.cpu.core.cp0.interrupt (s.cpu.core.cp0In (s.cpu.coreInput (s.cpuInput i))) = true :=
    hr
  simp [UnitCpu.step, Cpu.step, CoreState.step, Cp0State.step, hv, hi]

/-- The position for the interrupt is not recorded. -/
theorem intPc_step (hr : s.cpu.core.cp0.regs.interrupt i.extInt = true) :
    (s.step i).cpu.core.intPcSave = s.cpu.core.intPcSave ∧
      (s.step i).cpu.core.intSlot = s.cpu.core.intSlot := by
  have hi : s.cpu.core.isInt (s.cpu.coreInput (s.cpuInput i)) = true :=
    (Bool.or_eq_true _ _).mpr (Or.inl hr)
  obtain ⟨-, -, -, h1, h0, -⟩ := h
  simp [UnitCpu.step, Cpu.step, CoreState.step, hi, h1, h0]

include hs

theorem hazard : s.cpu.hazardFront (s.cpuInput i) =
    { stallF := true, stallF2 := true, stallD := true, stallI := true, stallIDe := true,
      fihazrdNxt := s.cpu.front.fihazrd } := by
  have hc : (s.cpu.hazardIn (s.cpuInput i)).chain s.cpu.front.fihazrd = _ :=
    HazardIn.chain_stall (h.excpW hs) (Or.inl ((Bool.or_eq_true _ _).mpr (Or.inr h.1)))
  rw [Cpu.hazardFront, HazardIn.front, hc]
  rfl

theorem queue_step : (s.step i).cpu.queue = s.cpu.queue := by
  have hz := h.hazard (i := i) hs
  refine Subtype.ext (queue_stalled ?_ ?_ ?_)
  · exact congrArg HazardFront.stallI hz
  · exact congrArg HazardFront.stallIDe hz
  · exact congrArg HazardFront.flushQue hz

theorem dataD_step : (s.step i).cpu.dataD = s.cpu.dataD := by
  simp only [UnitCpu.step, Cpu.step, h.hazard hs, pipereg2]
  rfl

/-- The counter apart, `cp0` keeps its registers once W has drained. -/
theorem regs_step (hM3 : s.cpu.core.dataM3 = memory3 ⟨{}, {}⟩ i.respData) :
    { (s.step i).cpu.core.cp0.regs with count := 0#32 } =
      { s.cpu.core.cp0.regs with count := 0#32 } := by
  have hw := h.excpW (i := i) hs
  rw [CoreState.excpW, Bool.or_eq_false_iff, Cp0State.isIntExc, Bool.or_eq_false_iff] at hw
  have hregs : (s.step i).cpu.core.cp0.regs =
      s.cpu.core.cp0.counted (s.cpu.core.cp0In (s.cpu.coreInput (s.cpuInput i))) := by
    change s.cpu.core.cp0.regsNxt (s.cpu.core.cp0In (s.cpu.coreInput (s.cpuInput i))) = _
    have he : (s.cpu.core.cp0In (s.cpu.coreInput (s.cpuInput i))).isEret = false := hw.1
    have hv : (s.cpu.core.cp0In (s.cpu.coreInput (s.cpuInput i))).valid = false := by
      change s.cpu.core.dataM3.slot1.ctl.cp0write = false
      rw [hM3]
      rfl
    have ht : (s.cpu.core.cp0In (s.cpu.coreInput (s.cpuInput i))).tlbType = .noTlb := by
      change s.cpu.core.dataM3.slot1.ctl.tlbType = .noTlb
      rw [hM3]
      rfl
    rw [Cp0State.regsNxt, he, Cp0State.regsTaken, hw.2.1, hw.2.2, hv, ht]
    rfl
  rw [hregs, Cp0State.counted]
  split <;> rfl

include hq

theorem quiet_step : (s.step i).Quiet := by
  obtain ⟨hI, hE, -⟩ := h.step_held (i := i) hs
  refine ⟨?_, ?_, ?_, ?_⟩
  · rw [CoreState.branchM, hE]
    exact hq.branch
  · exact (congrArg (fun d : Pair IssueData => d.slot1.ctl.mul || d.slot0.ctl.mul) hI).trans hq.mul
  · exact (congrArg (fun d : Pair IssueData => d.slot1.ctl.div || d.slot0.ctl.div) hI).trans hq.div
  · simp [UnitCpu.step, Divider.next, Divider.stateNxt, hq.init, hq.div]

/-- From the second cycle on the fetch has the answer of the cache. -/
theorem front_step : ((s.step i).step i).cpu.front = (s.step i).cpu.front := by
  have hA := h.step (i := i) hs
  have hw := hA.excpW (i := i) hs.step
  have hb := (h.quiet_step (i := i) hs hq).branch
  rw [CoreState.excpW, Bool.or_eq_false_iff] at hw
  rw [CoreState.branchM, Bool.or_eq_false_iff] at hb
  refine front_stalled (hA.hazard hs.step) (FrontEnd.unredirected_of_raised ?_) ?_
  · simp only [Redirects.raised, Cpu.fetchInput, Cpu.redirects, hw.1, hw.2, hb.1, hb.2]
    rfl
  · have hz : (s.cpu.fetchInput (s.cpuInput i)).hazard.stallF2 = true :=
      congrArg HazardFront.stallF2 (h.hazard (i := i) hs)
    change (s.cpu.front.step (s.cpu.fetchInput (s.cpuInput i))).rawInstrSave.isSome = true
    cases hr : s.cpu.front.rawInstrSave <;> simp [FrontEnd.step, hz, hr]

/-- Two cycles empty M3 and W. -/
theorem drains_step (hd : i.dWait = false) : Drains ((s.step i).step i).cpu.core i.respData := by
  obtain ⟨-, -, -, hM2, -⟩ := h.step_held (i := i) hs
  have hA := h.step (i := i) hs
  obtain ⟨-, -, -, hM2', hM3⟩ := hA.step_held (i := i) hs.step
  obtain ⟨h1, h2⟩ := saved_step (i := i) (h.quiet_step hs hq) hd
  rw [hM2] at hM3
  exact ⟨h1, h2, hM2', hM3⟩

/-- The units work on operands that do not change. -/
theorem units_step (ho : (s.step i).cpu.core.operands = s.cpu.core.operands) :
    ((s.step i).step i).mul = (s.step i).mul ∧ ((s.step i).step i).div = (s.step i).div := by
  have hI : (s.step i).cpu.core.dataI = s.cpu.core.dataI := (h.step_held (i := i) hs).1
  have ha : (s.step i).units.a = s.units.a := by
    change unitA (s.step i).cpu.core.dataI (s.step i).cpu.core.operands = _
    rw [hI, ho]
    rfl
  have hb : (s.step i).units.b = s.units.b := by
    change unitB (s.step i).cpu.core.dataI (s.step i).cpu.core.operands = _
    rw [hI, ho]
    rfl
  have hq' := h.quiet_step (i := i) hs hq
  have hmul : (s.step i).mul = s.mul.next s.units.multValid s.units.a s.units.b := rfl
  have hdiv : (s.step i).div = s.div.next s.units.divValid s.units.a s.units.b := rfl
  constructor
  · change (s.step i).mul.next (s.step i).units.multValid (s.step i).units.a (s.step i).units.b = _
    rw [ha, hb, hq'.mul, hmul, hq.mul]
    cases hst : s.mul.state <;> simp [Multiplier.next, Multiplier.stateNxt, hst]
  · change (s.step i).div.next (s.step i).units.divValid (s.step i).units.a (s.step i).units.b = _
    rw [ha, hb, hq'.div, hdiv, hq.div]
    simp [Divider.next, Divider.stateNxt, Divider.countNxt, Divider.pNxt, hq.init]

end Asleep

/-- A core that is asleep and of which an interrupt is requested is at rest after three
cycles. -/
theorem Asleep.rest {s : UnitCpu} {i : CycleInput} (h : s.Asleep) (hs : Sound s.cpu)
    (hq : s.Quiet) (hd : i.dWait = false)
    (hr : ((s.step i).step i).cpu.core.cp0.regs.interrupt i.extInt = true) :
    ((((s.step i).step i).step i).step i).exceptCount =
      (((s.step i).step i).step i).exceptCount := by
  -- `a` and `t` are the states after two and after three cycles
  have hB := h.step (i := i) hs
  have hqB := h.quiet_step (i := i) hs hq
  have hda := h.drains_step (i := i) hs hq hd
  have hdt := hB.drains_step (i := i) hs.step hqB hd
  have hA := hB.step (i := i) hs.step
  have hqA := hB.quiet_step (i := i) hs.step hqB
  have hsA : Sound ((s.step i).step i).cpu := hs.step.step
  generalize (s.step i).step i = a at *
  obtain ⟨hI, hE, hM1, -, -⟩ := hA.step_held (i := i) hsA
  have hT := hA.step (i := i) hsA
  have hsT : Sound (a.step i).cpu := hsA.step
  obtain ⟨hIt, hEt, hM1t, hM2t, hM3t⟩ := hT.step_held (i := i) hsT
  have hunits := hA.units_step hsA hqA (hda.operands hdt hI hE hM1)
  have hfront := hA.front_step (i := i) hsA hqA
  have hsaved := saved_step (i := i) (hA.quiet_step (i := i) hsA hqA) hd
  have hregs := hT.regs_step (i := i) hsT hdt.dataM3
  have hrt : (a.step i).cpu.core.cp0.regs.interrupt i.extInt = true :=
    (congrArg (fun r : Cp0Regs => r.interrupt i.extInt) (hA.regs_step hsA hda.dataM3)).trans hr
  have hpc := hT.intPc_step hrt
  have hint : ((a.step i).step i).cpu.core.cp0.intSaved = (a.step i).cpu.core.cp0.intSaved :=
    (hT.intSaved_step hrt).trans (hA.intSaved_step hr).symm
  have hpcs : ((a.step i).step i).cpu.core.intPcSaved = (a.step i).cpu.core.intPcSaved :=
    (hT.step (i := i) hsT).2.2.2.2.2.trans hT.2.2.2.2.2.symm
  rw [hdt.dataM2] at hM3t
  have hfile : ((a.step i).step i).cpu.core.regs = (a.step i).cpu.core.regs := by
    refine regfileNxt_idle rfl ⟨?_, ?_⟩
    · exact writeback_valid_of_regwrite (hsT.vacant.w hT.2.2.2.1).slot1.regwrite
    · exact writeback_valid_of_regwrite (hsT.vacant.w hT.2.2.2.1).slot0.regwrite
  have hhilo : ((a.step i).step i).cpu.core.hilo = (a.step i).cpu.core.hilo := by
    change hiloNxt (a.step i).cpu.core.hilo (a.step i).cpu.core.dataM3 = _
    rw [hdt.dataM3]
    rfl
  have htlb : ((a.step i).step i).cpu.core.tlbRam = (a.step i).cpu.core.tlbRam := by
    change tlbNxt (a.step i).cpu.core.tlbRam (a.step i).cpu.core.cp0.regs
      (a.step i).cpu.core.dataM3 = _
    rw [hdt.dataM3]
    rfl
  exact UnitCpu.ext (Cpu.ext hfront (hT.dataD_step hsT) (hT.queue_step hsT)
    (CoreState.ext hIt (hsaved.1.trans hdt.saved1.symm) (hsaved.2.trans hdt.saved2.symm) hEt hM1t
      (hM2t.trans hdt.dataM2.symm) (hM3t.trans hdt.dataM3.symm) hfile hhilo
      (Cp0State.ext hregs rfl hint) htlb hpc.1 hpcs hpc.2)) hunits.1 hunits.2

/-- Once asleep, the core stays asleep, whatever comes. -/
theorem asleep_forever {s : UnitCpu} (h : s.Asleep) (hs : Sound s.cpu) (is : List CycleInput) :
    (ClockedMachine.run step s is).Asleep := by
  have hrun : (ClockedMachine.run step s is).Asleep ∧ Sound (ClockedMachine.run step s is).cpu :=
    ClockedMachine.run_invariant (P := fun s : UnitCpu => s.Asleep ∧ Sound s.cpu)
      (fun _ _ hx => ⟨hx.1.step hx.2, hx.2.step⟩) ⟨h, hs⟩ is
  exact hrun.1

end UnitCpu

/-- In every run in which no interrupt is requested of a core that is asleep, every cycle with
a requested interrupt changes something besides the counter. -/
theorem interrupt_lively (is : List CycleInput)
    (h : ClockedMachine.Along UnitCpu.step UnitCpu.NotAsleep {} is) :
    ClockedMachine.Along UnitCpu.step UnitCpu.Lively {} is := by
  refine h.imp_of_invariant (P := fun s : UnitCpu => UnitCpu.Sound s.cpu) (fun _ _ hs => hs.step)
    (fun s i hs hn hr he => ?_) UnitCpu.sound_reset
  have hstill := UnitCpu.still_of_unchanged he
  cases hw : s.cpu.core.waitM with
  | true => exact hn hr (hstill.asleep_of_waitM hr hw)
  | false => exact hstill.absurd hr hs hw

/-- A cycle with an answer of the instruction cache. -/
def CycleInput.answer (slot1 slot0 : Word) : CycleInput := { instrData := ⟨slot1, slot0⟩ }

/-- A cycle in which an interrupt line is up. -/
def CycleInput.interrupted : CycleInput := { extInt := 1#6 }

/-- Interrupts are enabled, and the word `w` follows; the last cycles bring it to M1 and
empty the stages behind it. -/
def enabledBefore (w : Word) : List CycleInput :=
  [.answer 0#32 0#32, .answer 0x24010401#32 0x40816000#32, .answer 0#32 0#32, .answer 0#32 0#32,
    .answer 0#32 0#32, .answer w 0#32] ++ List.replicate 8 (.answer 0#32 0#32)

/-- With a `nop` in place of the `WAIT` every cycle changes something. -/
theorem interrupt_lively_nop :
    (ClockedMachine.run UnitCpu.step {} (enabledBefore 0#32)).Requested .interrupted ∧
      ClockedMachine.Along UnitCpu.step UnitCpu.Lively {}
        (enabledBefore 0#32 ++ [.interrupted, .interrupted]) :=
  ⟨by decide +kernel, interrupt_lively _ (by decide +kernel)⟩

instance (s : UnitCpu) : Decidable s.Quiet :=
  decidable_of_iff (s.cpu.core.branchM = false ∧ s.units.multValid = false ∧
    s.units.divValid = false ∧ s.div.state = .init)
    ⟨fun h => ⟨h.1, h.2.1, h.2.2.1, h.2.2.2⟩, fun h => ⟨h.branch, h.mul, h.div, h.init⟩⟩

/-- A line that goes up after the stages behind a `WAIT` have drained finds the core at rest. -/
theorem not_interrupt_lively_wait :
    ¬ ∀ is : List CycleInput, ClockedMachine.Along UnitCpu.step UnitCpu.Lively {} is := by
  intro h
  have hl := ((ClockedMachine.along_append _ _ _ _ _).mp
    (h (enabledBefore 0x42000020#32 ++ List.replicate 4 .interrupted))).2.2.2.2.1
  have hs : UnitCpu.Sound (ClockedMachine.run UnitCpu.step {} (enabledBefore 0x42000020#32)).cpu :=
    ClockedMachine.run_invariant (P := fun s : UnitCpu => UnitCpu.Sound s.cpu)
      (fun _ _ hx => hx.step) UnitCpu.sound_reset _
  exact hl (by decide +kernel) (UnitCpu.Asleep.rest (by decide +kernel) hs (by decide +kernel) rfl
    (by decide +kernel))

end FrailCPU
