import FrailCPU.Core.Group

/-!
# Exceptions inside a pair

When the older instruction of a pair raises an exception after issue, the younger one
must have no effect. The suppression is spread over the stages. E takes back both kinds
of access for a misaligned older access, but only the store for an overflow and nothing
for a trap; `memory` takes back the register writes in every case; nothing takes back
an `ERET`. And the outcome of a data translation is charged to the other slot. The
pairs for which the suppression is complete are those of `Unshadowed`.
-/

namespace FrailCPU

/-- What the issue stage promises about a pair that leaves together. -/
structure DualIssued (dataI : Pair IssueData) : Prop where
  coherent1 : dataI.slot1.ctl.Coherent
  coherent0 : dataI.slot0.ctl.Coherent
  cp0write1 : dataI.slot1.ctl.cp0write = false
  single1 : dataI.slot1.ctl.singleIssue = false
  single0 : dataI.slot0.ctl.singleIssue = false
  ctype1 : dataI.slot1.cp0Ctl.ctype.leaves = false
  eret0 : dataI.slot0.cp0Ctl.ctype = .eret → dataI.slot0.ctl.isEret = true

/-- The fetch stage sets no other types than these. -/
def FetchData.Typed (f : FetchData) : Prop :=
  f.cp0Ctl.ctype = .noExc ∨ f.cp0Ctl.ctype = .exception

theorem decodeSlot_eret {f : FetchData} (hf : f.Typed) (preB : Bool) (prePc : Word)
    (h : (decodeSlot f preB prePc).cp0Ctl.ctype = .eret) :
    (decodeSlot f preB prePc).ctl.isEret = true := by
  have ht := (decoder_typed f.rawInstr f.valid f.cp0Ctl).ctype
  have h' : (decoder f.rawInstr f.valid f.cp0Ctl).cp0Ctl.ctype = .eret := h
  rw [h'] at ht
  rcases ht with ht | ht | ⟨-, he⟩ | ⟨ht, -⟩
  · rcases hf with hf | hf <;> rw [hf] at ht <;> cases ht
  · cases ht
  · exact he
  · cases ht

theorem issueGroup_dualIssued {f1 f2 : FetchData} (hf : f2.Typed) {preB : Bool}
    {prePc : Word} {b : Pair PortBypass} (rd1 rd2 : Pair Word)
    (h : issueEn2 (decodeSlot f1 preB prePc) (decodeSlot f2 false 0#32) b = true) :
    DualIssued (issueGroup (decodeSlot f1 preB prePc) (decodeSlot f2 false 0#32) b rd1 rd2) := by
  have hc1 := decodeSlot_wellDecoded f1 preB prePc
  have hc2 := decodeSlot_wellDecoded f2 false 0#32
  have he2 := decodeSlot_eret hf false 0#32
  have ht := issueEn2_together h
  simp only [issueGroup, issueEn1_of_issueEn2 h, h, if_true]
  refine ⟨hc1.coherent, hc2.coherent, ht.cp0write1, ht.single1, ht.single2, ?_, he2⟩
  simp [issueRecord, Cp0Type.leaves, ht.ctype1]

variable (dataI : Pair IssueData) (env : GroupEnv)

/-- The younger instruction has no effect, the older one writes nothing, and it is the
older one's exception that `cp0` is given. -/
structure Precise : Prop where
  request0 : (forwardedReq dataI env).slot0.valid = false
  regs0 : ∀ s, (writeback (groupW dataI env).slot0 s).valid = false
  hilo0 : (groupW dataI env).slot0.ctl.writesHilo = false
  cp0write0 : (groupW dataI env).slot0.ctl.cp0write = false
  eret : isEret (groupW dataI env) = false
  selected : validN (groupW dataI env) = true
  ctype : (groupW dataI env).slot1.cp0Ctl.ctype = .exception
  outcome : (groupW dataI env).slot1.dTlbExc = (ownOutcome dataI env).slot1
  request1 : (forwardedReq dataI env).slot1.valid = false
  regs1 : ∀ s, (writeback (groupW dataI env).slot1 s).valid = false
  hilo1 : (groupW dataI env).slot1.ctl.writesHilo = false
  cp0write1 : (groupW dataI env).slot1.ctl.cp0write = false

/-- An aligned load, and an aligned access of either kind. -/
def alignedLoad (d : IssueData) (r : Operands) : Bool :=
  d.ctl.memtoreg && !loadMisalign d r

def alignedAccess (d : IssueData) (r : Operands) : Bool :=
  alignedLoad d r || (d.ctl.memwrite && !storeMisalign d r)

/-- The pairs whose younger half is suppressed completely. -/
structure Unshadowed : Prop where
  eret : dataI.slot0.cp0Ctl.ctype ≠ .eret
  outcomes : (ownOutcome dataI env).slot0 = (ownOutcome dataI env).slot1
  overflow : exceptionOf dataI.slot1 env.rd.slot1 = true →
    alignedLoad dataI.slot0 env.rd.slot0 = false
  trap : trapOf dataI.slot1 env.rd.slot1 = true →
    alignedAccess dataI.slot0 env.rd.slot0 = false

variable {dataI env}

namespace DualIssued

theorem cacheD1 (hd : DualIssued dataI) : dataI.slot1.ctl.cacheD = false := by
  cases h : dataI.slot1.ctl.cacheD with
  | false => rfl
  | true =>
      have hs := hd.coherent1.refetches_alone (by simp [Control.refetches, h])
      rw [hd.single1] at hs
      cases hs

theorem cacheD0 (hd : DualIssued dataI) : dataI.slot0.ctl.cacheD = false := by
  cases h : dataI.slot0.ctl.cacheD with
  | false => rfl
  | true =>
      have hs := hd.coherent0.refetches_alone (by simp [Control.refetches, h])
      rw [hd.single0] at hs
      cases hs

/-- An `ERET` in slot 0 makes no request and finds nothing. -/
theorem eret0_silent (hd : DualIssued dataI) (he : dataI.slot0.cp0Ctl.ctype = .eret) :
    (ownOutcome dataI env).slot0 = {} ∧ (groupE dataI env).slot0.cp0Ctl.ctype = .eret := by
  have hs : dataI.slot0.ctl.cp0toreg = true ∨ dataI.slot0.ctl.cp0write = true ∨
      dataI.slot0.ctl.isEret = true := Or.inr (Or.inr (hd.eret0 he))
  obtain ⟨ho, hst, hl, ht⟩ := quiet_of_special (r := env.rd.slot0) hd.coherent0 hs
  refine ⟨ownOutcome_slot0_of_silent (groupE_slot0_accesses (hd.coherent0.special_plain hs).1), ?_⟩
  simp [groupE_slot0_ctype, found0, Found.any, ho, hst, hl, ht, he]

/-- A misaligned access of slot 1 takes both accesses back. -/
theorem accesses_of_misalign (hd : DualIssued dataI)
    (h : (loadMisalign dataI.slot1 env.rd.slot1 ||
      storeMisalign dataI.slot1 env.rd.slot1) = true) :
    (groupE dataI env).slot1.ctl.accesses = false ∧
      (groupE dataI env).slot0.ctl.accesses = false := by
  have hc := hd.coherent1
  constructor
  · cases hl : loadMisalign dataI.slot1 env.rd.slot1 with
    | true =>
        have hm : dataI.slot1.ctl.memwrite = false := by
          cases hm : dataI.slot1.ctl.memwrite with
          | false => rfl
          | true =>
              have := hc.memwrite_memtoreg hm
              rw [loadMisalign_memtoreg hl] at this
              cases this
        simp [groupE, execute, executeCtl1, Control.accesses, hl, hm, hd.cacheD1]
    | false =>
        rw [hl, Bool.false_or] at h
        have hm := hc.memwrite_memtoreg (storeMisalign_memwrite h)
        simp [groupE, execute, executeCtl1, Control.accesses, hl, h, hm, hd.cacheD1]
  · simp [groupE, execute, executeCtl0, Control.accesses, h, hd.cacheD0]

/-- An overflow or a trap comes from an instruction that makes no request. -/
theorem silent_of_overflow (hd : DualIssued dataI)
    (h : exceptionOf dataI.slot1 env.rd.slot1 = true) : dataI.slot1.ctl.accesses = false :=
  (hd.coherent1.overflow_plain (exceptionOf_alufunc h)).1

theorem silent_of_trap (hd : DualIssued dataI)
    (h : trapOf dataI.slot1 env.rd.slot1 = true) : dataI.slot1.ctl.accesses = false :=
  (hd.coherent1.trap_plain (trapOf_tne h)).1

/-- Behind an overflow the request of slot 0 goes out exactly for an aligned load. -/
theorem accesses0_of_overflow (hd : DualIssued dataI)
    (h : exceptionOf dataI.slot1 env.rd.slot1 = true) :
    (groupE dataI env).slot0.ctl.accesses = alignedLoad dataI.slot0 env.rd.slot0 := by
  obtain ⟨hl, hs⟩ := misalign_of_silent (r := env.rd.slot1) (hd.silent_of_overflow h)
  simp [groupE, execute, executeCtl0, Control.accesses, alignedLoad, h, hl, hs, hd.cacheD0]

/-- Behind a trap it goes out for any aligned access. -/
theorem accesses0_of_trap (hd : DualIssued dataI)
    (h : trapOf dataI.slot1 env.rd.slot1 = true) :
    (groupE dataI env).slot0.ctl.accesses = alignedAccess dataI.slot0 env.rd.slot0 := by
  obtain ⟨hacc, -, -, -⟩ := hd.coherent1.trap_plain (trapOf_tne h)
  obtain ⟨hl, hs⟩ := misalign_of_silent (r := env.rd.slot1) hacc
  have ho : exceptionOf dataI.slot1 env.rd.slot1 = false := by
    rw [Bool.eq_false_iff]
    intro ho
    have := (hd.coherent1.overflow_plain (exceptionOf_alufunc ho)).2.2.1
    rw [trapOf_tne h] at this
    cases this
  have hx : (dataI.slot1.cp0Ctl.ctype == .exception) = false := by
    have hl := hd.ctype1
    simp only [Cp0Type.leaves, Bool.or_eq_false_iff] at hl
    exact hl.1
  cases hm : dataI.slot0.ctl.memwrite with
  | false =>
      simp [groupE, execute, executeCtl0, Control.accesses, alignedAccess, alignedLoad, hl, hs,
        hm, hd.cacheD0]
  | true =>
      have hld := hd.coherent0.memwrite_memtoreg hm
      have hl0 : loadMisalign dataI.slot0 env.rd.slot0 = false := by simp [loadMisalign, hld]
      simp [groupE, execute, executeCtl0, Control.accesses, alignedAccess, alignedLoad, hl, hs,
        ho, hx, hm, hld, hl0, hd.cacheD0]

/-- The older instruction raises an exception: its own kinds, one by one. -/
theorem raises1_cases (h : raises1 dataI env = true) :
    exceptionOf dataI.slot1 env.rd.slot1 = true ∨
      (loadMisalign dataI.slot1 env.rd.slot1 ||
        storeMisalign dataI.slot1 env.rd.slot1) = true ∨
      trapOf dataI.slot1 env.rd.slot1 = true ∨ (ownOutcome dataI env).slot1.any = true := by
  simp only [raises1, found1, Found.any, Bool.or_eq_true] at h ⊢
  tauto

/-- The older instruction writes no special register. -/
theorem plain_of_raises (hd : DualIssued dataI) (h : raises1 dataI env = true) :
    dataI.slot1.ctl.writesHilo = false := by
  have hacc : dataI.slot1.ctl.accesses = true → dataI.slot1.ctl.writesHilo = false :=
    fun ha => (hd.coherent1.access_plain ha).1
  rcases raises1_cases h with ho | hm | ht | he
  · exact (hd.coherent1.overflow_plain (exceptionOf_alufunc ho)).2.1
  · apply hacc
    simp only [Bool.or_eq_true] at hm
    rcases hm with hm | hm
    · simp [Control.accesses, loadMisalign_memtoreg hm]
    · simp [Control.accesses, storeMisalign_memwrite hm]
  · exact (hd.coherent1.trap_plain (trapOf_tne ht)).2.1
  · apply hacc
    cases ha : dataI.slot1.ctl.accesses with
    | true => rfl
    | false =>
        rw [ownOutcome_slot1_of_silent (groupE_slot1_accesses ha)] at he
        cases he

/-- With one outcome for both slots, the older instruction's exception is recorded. -/
theorem ctype_of_raises (h : raises1 dataI env = true)
    (ho : (ownOutcome dataI env).slot0 = (ownOutcome dataI env).slot1) :
    (groupW dataI env).slot1.cp0Ctl.ctype = .exception := by
  rw [groupW_slot1_ctype, ho]
  cases he : (ownOutcome dataI env).slot1.any with
  | true => exact Cp0Type.charge_any he
  | false =>
      simp only [raises1, he, Bool.or_false] at h
      rw [groupE_slot1_ctype, if_pos h, Cp0Type.charge_exception]

/-- The squash of `memory` fires. -/
theorem squash_of_raises (h : raises1 dataI env = true) :
    (groupW dataI env).slot0.ctl = (executeCtl0 dataI env.rd).squashWrites := by
  rw [groupW_slot0_ctl, if_pos]
  simp only [raises1, Bool.or_eq_true] at h
  rcases h with h | h
  · simp [groupE_slot1_ctype, h, Cp0Type.leaves]
  · simp [h]

theorem request1_of_raises (hd : DualIssued dataI) (h : raises1 dataI env = true) :
    (forwardedReq dataI env).slot1.valid = false := by
  rw [forwardedReq_slot1_valid]
  rcases raises1_cases h with ho | hm | ht | he
  · simp [groupE_slot1_accesses (hd.silent_of_overflow ho)]
  · simp [(hd.accesses_of_misalign hm).1]
  · simp [groupE_slot1_accesses (hd.silent_of_trap ht)]
  · simp [he]

theorem request0_of_unshadowed (hd : DualIssued dataI) (h : raises1 dataI env = true)
    (hu : Unshadowed dataI env) : (forwardedReq dataI env).slot0.valid = false := by
  rw [forwardedReq_slot0_valid]
  rcases raises1_cases h with ho | hm | ht | he
  · simp [hd.accesses0_of_overflow ho, hu.overflow ho]
  · simp [(hd.accesses_of_misalign hm).2]
  · simp [hd.accesses0_of_trap ht, hu.trap ht]
  · simp [hu.outcomes, he]

theorem precise_of_unshadowed (hd : DualIssued dataI) (h : raises1 dataI env = true)
    (hu : Unshadowed dataI env) : Precise dataI env := by
  have ht := ctype_of_raises h hu.outcomes
  have hs := squash_of_raises h
  have hn0 : (groupW dataI env).slot0.cp0Ctl.ctype ≠ .eret := by
    rw [groupW_slot0_ctype]
    apply Cp0Type.charge_ne_eret
    rw [groupE_slot0_ctype]
    split
    · simp
    · exact hu.eret
  exact
    { request0 := hd.request0_of_unshadowed h hu
      regs0 := fun s => writeback_valid_of_regwrite (by rw [hs]; rfl)
      hilo0 := by rw [hs]; rfl
      cp0write0 := by rw [hs]; rfl
      eret := by simp [isEret, ht, hn0]
      selected := by simp [validN, ht, Cp0Type.leaves]
      ctype := ht
      outcome := by rw [groupW_slot1_dTlbExc, hu.outcomes]
      request1 := hd.request1_of_raises h
      regs1 := fun s => writeback_valid_of_leaves (by simp [ht, Cp0Type.leaves])
      hilo1 := hd.plain_of_raises h
      cp0write1 := hd.cp0write1 }

theorem unshadowed_of_precise (hd : DualIssued dataI) (hp : Precise dataI env) :
    Unshadowed dataI env := by
  have ho : (ownOutcome dataI env).slot0 = (ownOutcome dataI env).slot1 := by
    rw [← groupW_slot1_dTlbExc, hp.outcome]
  have hr := hp.request0
  rw [forwardedReq_slot0_valid] at hr
  refine ⟨fun he => ?_, ho, fun hov => ?_, fun htr => ?_⟩
  · obtain ⟨hn, ht⟩ : (ownOutcome dataI env).slot0 = {} ∧
        (groupE dataI env).slot0.cp0Ctl.ctype = .eret := hd.eret0_silent he
    have hw : (groupW dataI env).slot0.cp0Ctl.ctype = .eret := by
      rw [groupW_slot0_ctype, ← ho, hn, ht, Cp0Type.charge_none]
    have := hp.eret
    simp [isEret, hw] at this
  · have hn : (ownOutcome dataI env).slot1 = {} :=
      ownOutcome_slot1_of_silent (groupE_slot1_accesses (hd.silent_of_overflow hov))
    rw [ho, hn, hd.accesses0_of_overflow hov] at hr
    simpa using hr
  · have hn : (ownOutcome dataI env).slot1 = {} :=
      ownOutcome_slot1_of_silent (groupE_slot1_accesses (hd.silent_of_trap htr))
    rw [ho, hn, hd.accesses0_of_trap htr] at hr
    simpa using hr

end DualIssued

/-- For every pair that issue lets go together, whatever its operands, the TLB and the
memory hold: an exception of the older instruction is precise exactly when the pair is
unshadowed. -/
theorem pair_exception_precise_iff (f1 f2 : FetchData) (hf : f2.Typed) (preB : Bool)
    (prePc : Word) (b : Pair PortBypass) (rd1 rd2 : Pair Word) (env : GroupEnv)
    (h : issueEn2 (decodeSlot f1 preB prePc) (decodeSlot f2 false 0#32) b = true) :
    let dataI := issueGroup (decodeSlot f1 preB prePc) (decodeSlot f2 false 0#32) b rd1 rd2
    (raises1 dataI env = true → Precise dataI env) ↔
      (raises1 dataI env = true → Unshadowed dataI env) := by
  intro dataI
  have hd : DualIssued dataI := issueGroup_dualIssued hf rd1 rd2 h
  exact ⟨fun hp hr => hd.unshadowed_of_precise (hp hr),
    fun hu hr => hd.precise_of_unshadowed hr (hu hr)⟩

/-- `add $1, $2, $3` at `0xbfc00000` with `lw $4, 0($5)` behind it. -/
def addWord : FetchData := { valid := true, rawInstr := 0x00430820#32, pc := 0xbfc00000#32 }

def lwWord : FetchData := { valid := true, rawInstr := 0x8ca40000#32, pc := 0xbfc00004#32 }

theorem pair_exception_precise_add_lw :
    let dataI := issueGroup (decodeSlot addWord false 0#32) (decodeSlot lwWord false 0#32)
      ⟨{}, {}⟩ ⟨0#32, 0#32⟩ ⟨0#32, 0#32⟩
    (raises1 dataI {} = true → Precise dataI {}) ↔
      (raises1 dataI {} = true → Unshadowed dataI {}) :=
  pair_exception_precise_iff addWord lwWord (Or.inl rfl) false 0#32 ⟨{}, {}⟩ ⟨0#32, 0#32⟩
    ⟨0#32, 0#32⟩ {} (by decide)

/-- The addition overflows, and the load behind it asks for its word all the same. -/
theorem not_pair_exception_precise_add_lw :
    let dataI := issueGroup (decodeSlot addWord false 0#32) (decodeSlot lwWord false 0#32)
      ⟨{}, {}⟩ ⟨0#32, 0#32⟩ ⟨0#32, 0#32⟩
    let env : GroupEnv := { rd := ⟨⟨0x7fffffff#32, 1#32⟩, ⟨0x80000000#32, 0#32⟩⟩ }
    issueEn2 (decodeSlot addWord false 0#32) (decodeSlot lwWord false 0#32) ⟨{}, {}⟩ = true ∧
      ¬ (raises1 dataI env = true → Precise dataI env) := by
  intro dataI env
  refine ⟨by decide, fun h => ?_⟩
  have hr := (h (by decide)).request0
  revert hr
  decide

end FrailCPU
