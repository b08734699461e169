import FrailCPU.Core.Commit
import FrailCPU.Bypass.Network

/-!
# One group from E to W

The path of an issue group through the stages behind the queue, with everything it
meets on the way left open: its operands, the results of the multiplier and the
divider, the translation in M1 and the loaded words. `groupE`, `groupM` and `groupW`
are the records of the group in M1, M2 and W.
-/

namespace FrailCPU

/-- What a group meets between E and W. -/
structure GroupEnv where
  rd : Pair Operands := ⟨{}, {}⟩
  u : MulDivResult := {}
  mmu : MmuState := { tlbRam := fun _ => {}, asid := 0#8, configK0 := 3#3 }
  respData : Pair Word := ⟨0#32, 0#32⟩

section Path

variable (dataI : Pair IssueData) (env : GroupEnv)

def groupE : Pair ExecuteData := execute dataI env.rd env.u

def groupM : Pair ExecuteData :=
  memory (groupE dataI env) (memoryExc env.mmu (groupE dataI env))

def groupW : Pair MemoryData := memory3 (groupM dataI env) env.respData

/-- The outcome of each slot's own data request. -/
def ownOutcome : Pair TlbExc :=
  (groupE dataI env).map fun e => env.mmu.dTlbExc (memoryReq e)

/-- `p_dreq`, with each slot's forwarded request under the slot's index. -/
def forwardedReq : Pair DBusReq :=
  (groupE dataI env).map fun e => env.mmu.dreq (memoryReq e)

/-- The older instruction raises an exception after issue. -/
def raises1 : Bool := (found1 dataI env.rd).any || (ownOutcome dataI env).slot1.any

end Path

section Lemmas

variable {dataI : Pair IssueData} {env : GroupEnv}

/-- The outcome that reaches slot 1's record is that of slot 0's request. -/
theorem groupW_slot1_dTlbExc :
    (groupW dataI env).slot1.dTlbExc = (ownOutcome dataI env).slot0 := rfl

theorem groupE_slot1_ctype :
    (groupE dataI env).slot1.cp0Ctl.ctype =
      if (found1 dataI env.rd).any then .exception else dataI.slot1.cp0Ctl.ctype := rfl

theorem groupE_slot0_ctype :
    (groupE dataI env).slot0.cp0Ctl.ctype =
      if (found0 dataI env.rd).any then .exception else dataI.slot0.cp0Ctl.ctype := rfl

theorem groupW_slot1_ctype :
    (groupW dataI env).slot1.cp0Ctl.ctype =
      (groupE dataI env).slot1.cp0Ctl.ctype.charge (ownOutcome dataI env).slot0 := rfl

theorem groupW_slot0_ctype :
    (groupW dataI env).slot0.cp0Ctl.ctype =
      (groupE dataI env).slot0.cp0Ctl.ctype.charge (ownOutcome dataI env).slot1 := rfl

/-- The writes of slot 0 are taken back as soon as slot 1 leaves through `cp0` or either
request is refused. -/
theorem groupW_slot0_ctl :
    (groupW dataI env).slot0.ctl =
      if (groupE dataI env).slot1.cp0Ctl.ctype.leaves || (ownOutcome dataI env).slot0.any ||
        (ownOutcome dataI env).slot1.any
      then (executeCtl0 dataI env.rd).squashWrites else executeCtl0 dataI env.rd := rfl

@[simp] theorem groupW_slot1_writesHilo :
    (groupW dataI env).slot1.ctl.writesHilo = dataI.slot1.ctl.writesHilo := rfl

@[simp] theorem groupW_slot1_cp0write :
    (groupW dataI env).slot1.ctl.cp0write = dataI.slot1.ctl.cp0write := rfl

@[simp] theorem groupW_slot1_tlbType :
    (groupW dataI env).slot1.ctl.tlbType = dataI.slot1.ctl.tlbType := rfl

@[simp] theorem groupW_slot1_badVaddrF :
    (groupW dataI env).slot1.cp0Ctl.etype.badVaddrF =
      dataI.slot1.cp0Ctl.etype.badVaddrF := rfl

@[simp] theorem groupW_slot1_reserveInstr :
    (groupW dataI env).slot1.cp0Ctl.etype.reserveInstr =
      dataI.slot1.cp0Ctl.etype.reserveInstr := rfl

@[simp] theorem groupW_slot1_iTlbExc :
    (groupW dataI env).slot1.iTlbExc = dataI.slot1.iTlbExc := rfl

@[simp] theorem groupW_slot0_badVaddrF :
    (groupW dataI env).slot0.cp0Ctl.etype.badVaddrF =
      dataI.slot0.cp0Ctl.etype.badVaddrF := rfl

@[simp] theorem groupW_slot0_reserveInstr :
    (groupW dataI env).slot0.cp0Ctl.etype.reserveInstr =
      dataI.slot0.cp0Ctl.etype.reserveInstr := rfl

@[simp] theorem groupW_slot0_iTlbExc :
    (groupW dataI env).slot0.iTlbExc = dataI.slot0.iTlbExc := rfl

@[simp] theorem groupW_slot0_tlbType :
    (groupW dataI env).slot0.ctl.tlbType = dataI.slot0.ctl.tlbType := by
  rw [groupW_slot0_ctl]
  split <;> rfl

theorem groupW_slot0_writesHilo (h : dataI.slot0.ctl.writesHilo = false) :
    (groupW dataI env).slot0.ctl.writesHilo = false := by
  rw [groupW_slot0_ctl]
  split
  · rfl
  · exact h

theorem groupW_slot0_cp0write (h : dataI.slot0.ctl.cp0write = false) :
    (groupW dataI env).slot0.ctl.cp0write = false := by
  rw [groupW_slot0_ctl]
  split
  · rfl
  · exact h

theorem Cp0Type.charge_none (t : Cp0Type) : t.charge {} = t := rfl

theorem Cp0Type.charge_any {t : Cp0Type} {e : TlbExc} (h : e.any = true) :
    t.charge e = .exception := by
  simp [Cp0Type.charge, h]

theorem Cp0Type.charge_exception (e : TlbExc) :
    Cp0Type.exception.charge e = .exception := by
  unfold Cp0Type.charge
  split <;> rfl

theorem Cp0Type.charge_ne_eret {t : Cp0Type} (e : TlbExc) (h : t ≠ .eret) :
    t.charge e ≠ .eret := by
  unfold Cp0Type.charge
  split
  · simp
  · exact h

/-- A request with an outcome is refused, and one without is forwarded. -/
theorem forwardedReq_slot1_valid :
    (forwardedReq dataI env).slot1.valid =
      ((groupE dataI env).slot1.ctl.accesses && !(ownOutcome dataI env).slot1.any) := rfl

theorem forwardedReq_slot0_valid :
    (forwardedReq dataI env).slot0.valid =
      ((groupE dataI env).slot0.ctl.accesses && !(ownOutcome dataI env).slot0.any) := rfl

theorem ownOutcome_slot1_of_silent (h : (groupE dataI env).slot1.ctl.accesses = false) :
    (ownOutcome dataI env).slot1 = {} :=
  env.mmu.dTlbExc_of_invalid h

theorem ownOutcome_slot0_of_silent (h : (groupE dataI env).slot0.ctl.accesses = false) :
    (ownOutcome dataI env).slot0 = {} :=
  env.mmu.dTlbExc_of_invalid h

/-- E only takes accesses back. -/
theorem groupE_slot1_accesses (h : dataI.slot1.ctl.accesses = false) :
    (groupE dataI env).slot1.ctl.accesses = false := by
  simp only [Control.accesses, Bool.or_eq_false_iff] at h
  simp [groupE, execute, executeCtl1, Control.accesses, h]

theorem groupE_slot0_accesses (h : dataI.slot0.ctl.accesses = false) :
    (groupE dataI env).slot0.ctl.accesses = false := by
  simp only [Control.accesses, Bool.or_eq_false_iff] at h
  simp [groupE, execute, executeCtl0, Control.accesses, h]

end Lemmas

section Found

variable {d : IssueData} {r : Operands}

theorem loadMisalign_memtoreg (h : loadMisalign d r = true) : d.ctl.memtoreg = true := by
  simp only [loadMisalign, Bool.and_eq_true] at h
  exact h.1.2

theorem storeMisalign_memwrite (h : storeMisalign d r = true) : d.ctl.memwrite = true := by
  simp only [storeMisalign, Bool.and_eq_true] at h
  exact h.1.2

theorem trapOf_tne (h : trapOf d r = true) : d.ctl.tne = true := by
  simp only [trapOf, Bool.and_eq_true] at h
  exact h.1

theorem exceptionOf_alufunc (h : exceptionOf d r = true) :
    d.ctl.alufunc = .add ∨ d.ctl.alufunc = .sub :=
  aluOverflow_func h

/-- An instruction without an access, a trap or a checked addition finds nothing in E. -/
theorem misalign_of_silent (h : d.ctl.accesses = false) :
    loadMisalign d r = false ∧ storeMisalign d r = false := by
  simp only [Control.accesses, Bool.or_eq_false_iff] at h
  simp [loadMisalign, storeMisalign, h.1.1, h.1.2]

theorem exceptionOf_of_alufunc (ha : d.ctl.alufunc ≠ .add) (hs : d.ctl.alufunc ≠ .sub) :
    exceptionOf d r = false := by
  rw [Bool.eq_false_iff]
  intro h
  rcases exceptionOf_alufunc h with h | h
  · exact ha h
  · exact hs h

theorem trapOf_of_tne (h : d.ctl.tne = false) : trapOf d r = false := by
  simp [trapOf, h]

/-- A CP0 move or an `ERET` finds nothing in E. -/
theorem quiet_of_special (hc : d.ctl.Coherent)
    (h : d.ctl.cp0toreg = true ∨ d.ctl.cp0write = true ∨ d.ctl.isEret = true) :
    exceptionOf d r = false ∧ storeMisalign d r = false ∧ loadMisalign d r = false ∧
      trapOf d r = false := by
  obtain ⟨hacc, htne, hadd, hsub⟩ := hc.special_plain h
  obtain ⟨hl, hst⟩ := misalign_of_silent (r := r) hacc
  exact ⟨exceptionOf_of_alufunc hadd hsub, hst, hl, trapOf_of_tne htne⟩

end Found

end FrailCPU
