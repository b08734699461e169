import FrailCPU.Core.Interrupt

/-!
# When the interrupt branch is entered

`cp0.sv` enters its interrupt branch for an interrupt that it sees or that it has saved,
as soon as `inter_valid` comes. What has been saved is not looked at again, and meanwhile
the group in W commits: it may take an exception, or write Status or Cause. A saved
interrupt that is still enabled when it is entered is one that nothing has withdrawn.
-/

namespace FrailCPU

/-- The unmasked sources that are asserted. -/
def Cp0Regs.sources (r : Cp0Regs) (extInt : BitVec 6) : BitVec 8 :=
  ((extInt ++ 0#2) ||| r.cause.ip ||| (bit r.cause.ti ++ 0#7)) &&& r.status.im

namespace CoreState

variable (s : CoreState) (i : CoreInput)

/-- The interrupt branch is entered only with `IE` set, `EXL` clear and an unmasked source
asserted. -/
def EntersEnabled : Prop :=
  s.cp0.takesInterrupt (s.cp0In i) = true →
    s.cp0.regs.status.ie = true ∧ s.cp0.regs.status.exl = false ∧
      s.cp0.regs.sources i.extInt ≠ 0#8

/-- W writes Status with `IE` clear or `EXL` set. -/
def disables : Bool :=
  (s.cp0In i).valid && (s.cp0In i).wa == (12#5 ++ 0#3 : BitVec 8) &&
    (!(s.cp0In i).wd.getLsbD 0 || (s.cp0In i).wd.getLsbD 1)

/-- Nothing withdraws an interrupt that is recognised and not yet entered: W takes no
exception and does not disable interrupts, and while an interrupt is saved an unmasked
source stays asserted. -/
def NotWithdrawn : Prop :=
  (s.isInt i = true → s.interValid i = false →
    (s.cp0In i).ctype ≠ .exception ∧ s.disables i = false) ∧
  (s.cp0.intSaved = true → s.cp0.regs.sources i.extInt ≠ 0#8)

instance : Decidable (s.EntersEnabled i) :=
  inferInstanceAs (Decidable (_ → _ ∧ _ ∧ _))

instance : Decidable (s.NotWithdrawn i) :=
  inferInstanceAs (Decidable ((_ → _ → _ ∧ _) ∧ (_ → _)))

/-- A saved interrupt is enabled. -/
def SavedEnabled : Prop :=
  s.cp0.intSaved = true → s.cp0.regs.status.ie = true ∧ s.cp0.regs.status.exl = false

end CoreState

section Status

theorem Cp0Regs.interrupt_iff (r : Cp0Regs) (extInt : BitVec 6) :
    r.interrupt extInt = true ↔
      r.status.ie = true ∧ r.status.exl = false ∧ r.sources extInt ≠ 0#8 := by
  simp only [Cp0Regs.interrupt, Cp0Regs.sources, Bool.and_eq_true, Bool.not_eq_true', bne_iff_ne,
    ne_eq, and_assoc]

/-- Only a write to Status changes it. -/
theorem Cp0Regs.write_status (r : Cp0Regs) (wa : BitVec 8) (wd : Word)
    (h : wa ≠ (12#5 ++ 0#3 : BitVec 8)) : (r.write wa wd).status = r.status := by
  have halves : ∀ x : BitVec 8, (x.extractLsb' 3 5 ++ x.extractLsb' 0 3 : BitVec 8) = x := by
    decide
  have hsel : wa.extractLsb' 0 3 = 0#3 → wa.extractLsb' 3 5 ≠ 12#5 := by
    intro h0 h3
    apply h
    rw [← h0, ← h3]
    exact (halves wa).symm
  unfold Cp0Regs.write
  split
  · rename_i h0
    rw [beq_iff_eq] at h0
    unfold Cp0Regs.writeSel0
    split <;> first | rfl | exact absurd ‹_› (hsel h0)
  · split <;> rfl

theorem Cp0Regs.write_status_self (r : Cp0Regs) (wd : Word) :
    (r.write (12#5 ++ 0#3) wd).status.ie = wd.getLsbD 0 ∧
      (r.write (12#5 ++ 0#3) wd).status.exl = wd.getLsbD 1 := ⟨rfl, rfl⟩

@[simp] theorem Cp0Regs.tlbResult_status (r : Cp0Regs) (t : TlbType) (resp : MmuResp) :
    (r.tlbResult t resp).status = r.status := by
  cases t <;> rfl

/-- What stays enabled in a cycle in which nothing is taken. -/
theorem Cp0State.enabled_step {s : Cp0State} {x : Cp0Input} (hie : s.regs.status.ie = true)
    (hexl : s.regs.status.exl = false) (ht : s.takesInterrupt x = false)
    (hc : x.ctype ≠ .exception)
    (hd : (x.valid && x.wa == (12#5 ++ 0#3 : BitVec 8) &&
      (!x.wd.getLsbD 0 || x.wd.getLsbD 1)) = false) :
    (s.step x).regs.status.ie = true ∧ (s.step x).regs.status.exl = false := by
  have htaken : (s.regsTaken x).status.ie = true ∧ (s.regsTaken x).status.exl = false := by
    rw [Cp0State.regsTaken, ht, if_neg Bool.false_ne_true, if_neg (by simpa using hc)]
    split
    · rename_i hv
      by_cases hwa : x.wa = (12#5 ++ 0#3 : BitVec 8)
      · obtain ⟨h0, h1⟩ := Cp0Regs.write_status_self (s.counted x) x.wd
        rw [hv, hwa] at hd
        simp only [beq_self_eq_true, Bool.and_self, Bool.true_and, Bool.or_eq_false_iff,
          Bool.not_eq_false'] at hd
        rw [hwa, h0, h1]
        exact hd
      · rw [Cp0Regs.write_status _ _ _ hwa, counted_status]
        exact ⟨hie, hexl⟩
    · rw [Cp0Regs.tlbResult_status, counted_status]
      exact ⟨hie, hexl⟩
  change (s.regsNxt x).status.ie = true ∧ (s.regsNxt x).status.exl = false
  rw [Cp0State.regsNxt]
  split
  · exact ⟨htaken.1, rfl⟩
  · exact htaken

end Status

namespace CoreState

variable {s : CoreState} {i : CoreInput}

theorem savedEnabled_reset : SavedEnabled {} := fun hs => nomatch (show false = true from hs)

theorem SavedEnabled.recognised (h : s.SavedEnabled) (hi : s.isInt i = true) :
    s.cp0.regs.status.ie = true ∧ s.cp0.regs.status.exl = false := by
  rw [CoreState.isInt, Cp0State.isInt, Bool.or_eq_true] at hi
  rcases hi with hi | hi
  · obtain ⟨hie, hexl, -⟩ := (Cp0Regs.interrupt_iff _ _).mp hi
    exact ⟨hie, hexl⟩
  · exact h hi

/-- What is saved was recognised and not entered. -/
theorem recognised_of_saved (h : (s.step i).cp0.intSaved = true) :
    s.isInt i = true ∧ s.interValid i = false := by
  change (if s.cp0.interrupt (s.cp0In i) && !s.interValid i then true
    else if s.interValid i then false else s.cp0.intSaved) = true at h
  rw [CoreState.isInt, Cp0State.isInt]
  cases hv : s.interValid i with
  | true => simp [hv] at h
  | false =>
      rw [hv] at h
      cases hx : s.cp0.interrupt (s.cp0In i) with
      | true => exact ⟨rfl, rfl⟩
      | false =>
          rw [hx] at h
          exact ⟨h, rfl⟩

theorem SavedEnabled.step (h : s.SavedEnabled) (hn : s.NotWithdrawn i) :
    (s.step i).SavedEnabled := by
  intro hs
  obtain ⟨hi, hv⟩ := recognised_of_saved hs
  obtain ⟨hie, hexl⟩ := h.recognised hi
  obtain ⟨hc, hd⟩ := hn.1 hi hv
  have ht : s.cp0.takesInterrupt (s.cp0In i) = false := by
    rw [Cp0State.takesInterrupt]
    change (s.cp0.isInt (s.cp0In i) && s.interValid i) = false
    rw [hv, Bool.and_false]
  exact Cp0State.enabled_step hie hexl ht hc hd

theorem SavedEnabled.entersEnabled (h : s.SavedEnabled) (hn : s.NotWithdrawn i) :
    s.EntersEnabled i := by
  intro ht
  rw [Cp0State.takesInterrupt, Bool.and_eq_true] at ht
  obtain ⟨hie, hexl⟩ := h.recognised ht.1
  refine ⟨hie, hexl, ?_⟩
  rcases (Bool.or_eq_true _ _).mp ht.1 with hx | hx
  · exact ((Cp0Regs.interrupt_iff _ _).mp hx).2.2
  · exact hn.2 hx

/-- In every run in which no interrupt is withdrawn between its recognition and its entry,
the interrupt branch is entered only with interrupts enabled. -/
theorem interrupt_enabled (is : List CoreInput)
    (h : ClockedMachine.Along CoreState.step NotWithdrawn {} is) :
    ClockedMachine.Along CoreState.step EntersEnabled {} is :=
  h.imp_of_kept (fun _ _ hs hn => hs.step hn) (fun _ _ hs hn => hs.entersEnabled hn)
    savedEnabled_reset

/-- An interrupt behind a `nop` is entered enabled. -/
theorem interrupt_enabled_nop :
    (ClockedMachine.run CoreState.step {} (NumberedCore.interruptSetup 0#32)).cp0.takesInterrupt
        ((ClockedMachine.run CoreState.step {} (NumberedCore.interruptSetup 0#32)).cp0In
          { CoreInput.idle with extInt := 1#6 }) = true ∧
      ClockedMachine.Along CoreState.step EntersEnabled {} (NumberedCore.interruptRun 0#32) :=
  ⟨by decide +kernel, interrupt_enabled _ (by decide +kernel)⟩

/-- A `SYSCALL` that is in W when the interrupt is recognised sets `EXL`; the interrupt is
entered in the next cycle. -/
theorem not_interrupt_enabled_syscall :
    ¬ ClockedMachine.Along CoreState.step EntersEnabled {}
      (NumberedCore.interruptRun 0x0000000c#32) := by
  decide +kernel

end CoreState

end FrailCPU
