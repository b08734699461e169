import FrailCPU.Core.Order

/-!
# When interrupts are precise

The position that is saved for `EPC` is that of the last instruction that has left W, so
it is always one that has done all it does; and in the cycle in which the interrupt is
taken, the next group commits and the stores behind M1 have been accepted. An interrupt
is therefore precise when the saved instruction and what is behind it had nothing to do.
-/

namespace FrailCPU

namespace NumberedCore

variable {s : NumberedCore} {i : CoreInput}

section Take

/-- What `cp0` records is the saved position. -/
theorem recorded_position {c : CoreState} (h : c.recordsInterrupt i = true) :
    (c.step i).cp0.regs.epc = (if c.intSlot then c.intPcSave - 4#32 else c.intPcSave) ∧
      (c.step i).cp0.regs.cause.bd = c.intSlot := by
  rw [CoreState.recordsInterrupt, Bool.and_eq_true, Bool.not_eq_true'] at h
  obtain ⟨ht, hx⟩ := h
  have hr : c.cp0.regsTaken (c.cp0In i) = (c.cp0.counted (c.cp0In i)).takeInterrupt (c.cp0In i) := by
    rw [Cp0State.regsTaken, if_pos ht]
  have hp : ((c.cp0.counted (c.cp0In i)).setCode exccodeInt).status.exl = false := by
    simpa [Cp0Regs.setCode] using hx
  change (c.cp0.regsNxt (c.cp0In i)).epc = _ ∧ (c.cp0.regsNxt (c.cp0In i)).cause.bd = _
  rw [Cp0State.regsNxt, hr, Cp0Regs.takeInterrupt, Cp0Regs.recordPc, hp]
  cases (c.cp0In i).isEret <;> exact ⟨rfl, rfl⟩

theorem intPcSaved_of_recordsInterrupt {c : CoreState} (h : c.recordsInterrupt i = true) :
    c.intPcSaved = true := by
  simp only [CoreState.recordsInterrupt, Cp0State.takesInterrupt, Bool.and_eq_true] at h
  have hv : (!i.iWait && c.intPcSaved) = true := h.1.2
  rw [Bool.and_eq_true] at hv
  exact hv.2

theorem intExc_of_recordsInterrupt {c : CoreState} (h : c.recordsInterrupt i = true) :
    c.intExc i = true := by
  simp only [CoreState.recordsInterrupt, Bool.and_eq_true] at h
  simp [CoreState.intExc, Cp0State.isIntExc, h.1]

/-- The instruction that `EPC` designates is one of the last group. -/
theorem Orderly.designates (h : s.Orderly) (hr : s.core.recordsInterrupt i = true) :
    ∃ w ∈ s.last, ∃ x ∈ s.issued, (s.step i).Designates x ∧
      x.id = if resumesAtSlot1 w.2 then 2 * w.1 else 2 * w.1 + 1 := by
  obtain ⟨w, hw, hpc, hslot⟩ := h.saved (intPcSaved_of_recordsInterrupt hr)
  obtain ⟨hepc, hbd⟩ := recorded_position hr
  obtain ⟨hh, -⟩ := h.last w hw
  have hsub : s.issued ⊆ (s.step i).issued := subset_issued
  obtain ⟨t, hx1, ht⟩ := hh.slot1 w.1 rfl
  refine ⟨w, hw, ?_⟩
  cases h0 : w.2.slot0.valid with
  | false =>
      rw [h0, Bool.false_and] at hslot
      rw [h0, if_neg Bool.false_ne_true] at hpc
      rw [hslot] at hepc hbd
      refine ⟨_, hx1, ⟨fun _ => ?_, fun hb => ?_⟩, by simp [resumesAtSlot1, h0]⟩
      · exact (hepc.trans hpc).symm
      · rw [show (s.step i).core.cp0.regs.cause.bd = false from hbd] at hb
        cases hb
  | true =>
      obtain ⟨-, t0, hx0⟩ := hh.slot0 w.1 rfl h0
      rw [h0, if_pos rfl] at hpc
      rw [h0, Bool.true_and] at hslot
      cases hs : w.2.slot0.isSlot with
      | false =>
          rw [hslot, hs] at hepc hbd
          refine ⟨_, hx0, ⟨fun _ => ?_, fun hb => ?_⟩, by simp [resumesAtSlot1, h0, hs]⟩
          · exact (hepc.trans hpc).symm
          · rw [show (s.step i).core.cp0.regs.cause.bd = false from hbd] at hb
            cases hb
      | true =>
          rw [hslot, hs] at hepc hbd
          refine ⟨_, hx1, ⟨fun hb => ?_, fun _ => ⟨ht h0 hs, _, hsub hx0, rfl, ?_⟩⟩,
            by simp [resumesAtSlot1, h0, hs]⟩
          · rw [show (s.step i).core.cp0.regs.cause.bd = true from hbd] at hb
            cases hb
          · change w.2.slot0.pc = (s.core.step i).cp0.regs.epc + 4#32
            rw [hepc, if_pos rfl, hpc]
            exact (BitVec.sub_add_cancel _ _).symm

/-- A quiet interrupt finds nothing that could still be done, or was done too early. -/
theorem Orderly.precise_of_quietTake (h : s.Orderly) (hq : s.QuietTake i) : s.Precise i := by
  intro hr
  obtain ⟨hlast, ⟨hw1, hw0⟩, hsW, hs2, hs1, hacc⟩ := hq hr
  obtain ⟨w, hw, x, hx, hd, hid⟩ := h.designates hr
  obtain ⟨hh, hlt⟩ := h.last w hw
  obtain ⟨hl0, hl1⟩ := hlast w hw
  have hxge : 2 * w.1 ≤ x.id := by
    rw [hid]
    split <;> omega
  have hxle : x.id ≤ 2 * w.1 + 1 := by
    rw [hid]
    split <;> omega
  have hopen : s.Open := by
    refine ⟨?_, fun v hv => ?_⟩
    · simp only [CoreState.recordsInterrupt, Bool.and_eq_true, Bool.not_eq_true'] at hr
      exact hr.2
    · obtain rfl : v = w := Option.some.inj ((show s.last = some v from hv).symm.trans hw)
      have he : ∀ d : MemoryData, d.writesRegister = false → (d.cp0Ctl.ctype == .eret) = false := by
        intro d hn
        simp only [MemoryData.writesRegister, Bool.or_eq_false_iff] at hn
        exact hn.2
      simp only [leftEffects, Bool.or_eq_false_iff] at hl0 hl1
      rw [isEret, he _ hl0.1, Bool.or_false]
      cases hres : resumesAtSlot1 v.2 with
      | true => exact he _ (hl1 hres).1.1
      | false =>
          simp only [resumesAtSlot1, Bool.or_eq_false_iff, Bool.not_eq_false'] at hres
          have := (hh.slot0 v.1 rfl hres.1).1
          simpa [MemoryData.view] using this
  refine ⟨x, hx, hd, fun m hm hmx => ?_, fun e he => ?_⟩
  · rcases Nat.lt_or_ge (m.id / 2) w.1 with hm1 | hm1
    · rcases h.settled m hm with hc | hc | hc
      · exact Or.inl hc
      · exact Or.inr ⟨by omega, hc⟩
      · have := hlt _ (List.mem_cons_of_mem _ hc)
        omega
    · left
      rw [show m.id / 2 = w.1 by omega]
      exact h.commit hopen w hw
  · simp only [NumberedCore.step, List.mem_append] at he
    rw [hacc] at he
    have hreg : s.core.registerWrites i = ⟨false, false⟩ := by
      simp [CoreState.registerWrites, hw1, hw0, intExc_of_recordsInterrupt hr]
    rw [hreg] at he
    rcases he with (he | he) | he
    · exact (flaggedIds_none_of_false he).elim
    · exact (flaggedIds_none_of_false he).elim
    · rcases h.effects e he with he | he
      · simp only [storesInFlight, hsW, hs2, hs1, List.mem_append] at he
        rcases he with (he | he) | he <;> exact (flaggedIds_none_of_false he).elim
      · obtain ⟨v, hv, hlt' | hfl⟩ := he.last hopen
        · obtain rfl : v = w := Option.some.inj ((show s.last = some v from hv).symm.trans hw)
          omega
        · obtain rfl : v = w := Option.some.inj ((show s.last = some v from hv).symm.trans hw)
          obtain ⟨k, hk, he'⟩ := mem_flaggedIds.mp hfl
          obtain rfl := Option.some.inj hk
          rcases he' with ⟨rfl, h1⟩ | ⟨rfl, h0⟩
          · rw [hid]
            cases hres : resumesAtSlot1 v.2 with
            | true =>
                rw [hl1 hres] at h1
                cases h1
            | false => simp
          · rw [hl0] at h0
            cases h0

end Take

/-- In every run whose interrupts find nothing done by the instruction that `EPC`
designates, nor by what is behind it, all of them are precise. -/
theorem interrupts_precise (is : List CoreInput)
    (h : ClockedMachine.Along NumberedCore.step QuietTake {} is) :
    ClockedMachine.Along NumberedCore.step Precise {} is :=
  h.imp_of_invariant (fun _ _ ho => ho.step) (fun _ _ ho hq => ho.precise_of_quietTake hq)
    orderly_reset

/-- `ori $1, $0, 0xff01` and `mtc0 $1, $12` enable the interrupts; then the word `w` goes to
W alone and meets a line that has just gone up. -/
def interruptSetup (w : Word) : List CoreInput :=
  [.single 0x3401ff01#32 0xbfc00000#32, .single 0x40816000#32 0xbfc00004#32, .idle, .idle, .idle,
    .single w 0xbfc00008#32, .idle, .idle, .idle, .idle, { CoreInput.idle with extInt := 1#6 }]

/-- The cycle after, in which the interrupt is taken. -/
def interruptRun (w : Word) : List CoreInput :=
  interruptSetup w ++ [{ CoreInput.idle with extInt := 1#6 }]

/-- An interrupt behind a `nop` is precise. -/
theorem interrupts_precise_nop :
    (ClockedMachine.run step {} (interruptSetup 0#32)).core.recordsInterrupt
        { CoreInput.idle with extInt := 1#6 } = true ∧
      ClockedMachine.Along step Precise {} (interruptRun 0#32) :=
  ⟨by decide +kernel, interrupts_precise (interruptRun 0#32) (by decide +kernel)⟩

/-- Behind `addiu $2, $2, 1` it is not: `EPC` designates the `addiu`, which has committed. -/
theorem not_interrupts_precise_addiu :
    ¬ ClockedMachine.Along step Precise {} (interruptRun 0x24420001#32) := by
  decide +kernel

end NumberedCore

end FrailCPU
