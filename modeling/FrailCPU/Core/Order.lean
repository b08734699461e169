import FrailCPU.Core.Flight
import FrailCPU.Core.Group
import FrailCPU.Core.Numbered

/-!
# The order of the groups

The groups in flight stay in the order of their numbers, and each stage holds the records
of its group. A group that is not in flight any more has committed or was removed, and an
instruction with an effect is older than every group in flight, or it is a store behind
M1. `Orderly` says so, and every step keeps it.
-/

namespace FrailCPU

/-- What does not change in a record on its way through the stages, up to taking parts of
it back. -/
structure SlotView where
  valid : Bool
  pc : Word
  ctl : Control
  isSlot : Bool
  ctype : Cp0Type

def IssueData.view (d : IssueData) : SlotView := ⟨d.valid, d.pc, d.ctl, d.isSlot, d.cp0Ctl.ctype⟩

def ExecuteData.view (d : ExecuteData) : SlotView :=
  ⟨d.valid, d.pc, d.ctl, d.isSlot, d.cp0Ctl.ctype⟩

def MemoryData.view (d : MemoryData) : SlotView :=
  ⟨d.valid, d.pc, d.ctl, d.isSlot, d.cp0Ctl.ctype⟩

/-- The record of an empty slot. -/
structure SlotView.Idle (v : SlotView) : Prop where
  valid : v.valid = false
  regwrite : v.ctl.regwrite = false
  accesses : v.ctl.accesses = false
  writesHilo : v.ctl.writesHilo = false
  cp0write : v.ctl.cp0write = false
  tlbType : v.ctl.tlbType = .noTlb
  tne : v.ctl.tne = false
  alufunc : v.ctl.alufunc = .addu
  ctype : v.ctype = .noExc

/-- The group `q` is the group `p` one stage further. -/
structure Keeps (p q : Pair SlotView) : Prop where
  valid1 : q.slot1.valid = p.slot1.valid
  valid0 : q.slot0.valid = true → p.slot0.valid = true
  pc1 : q.slot1.pc = p.slot1.pc
  pc0 : q.slot0.pc = p.slot0.pc
  isSlot : q.slot0.isSlot = p.slot0.isSlot
  eret : q.slot1.ctype = .eret → p.slot1.ctype = .eret
  wait : q.slot1.ctl.waitSignal = p.slot1.ctl.waitSignal
  accesses : (p.Each fun v => v.ctl.accesses = false) → q.Each fun v => v.ctl.accesses = false
  idle : p.Each SlotView.Idle → q.Each SlotView.Idle

/-- The stage with the records `p` holds the group `n`. -/
structure Holds (issued : List Issued) (n : Option ℕ) (p : Pair SlotView) : Prop where
  idle : n = none → p.Each SlotView.Idle
  valid1 : ∀ k ∈ n, p.slot1.valid = true
  slot1 : ∀ k ∈ n, ∃ t, ⟨2 * k, p.slot1.pc, t⟩ ∈ issued ∧
    (p.slot0.valid = true → p.slot0.isSlot = true → t = true)
  slot0 : ∀ k ∈ n, p.slot0.valid = true →
    p.slot1.ctype ≠ .eret ∧ ∃ t, ⟨2 * k + 1, p.slot0.pc, t⟩ ∈ issued
  wait : p.slot1.ctl.waitSignal = true → p.Each fun v => v.ctl.accesses = false

section Holds

variable {issued issued' : List Issued} {n m : Option ℕ} {p q : Pair SlotView}

theorem Holds.keeps (h : Holds issued n p) (hk : Keeps p q) (hi : issued ⊆ issued') :
    Holds issued' n q where
  idle hn := hk.idle (h.idle hn)
  valid1 k hn := hk.valid1.trans (h.valid1 k hn)
  slot1 k hn := by
    obtain ⟨t, ht, hs⟩ := h.slot1 k hn
    rw [hk.pc1, hk.isSlot]
    exact ⟨t, hi ht, fun hv => hs (hk.valid0 hv)⟩
  slot0 k hn hv := by
    obtain ⟨he, t, ht⟩ := h.slot0 k hn (hk.valid0 hv)
    rw [hk.pc0]
    exact ⟨fun hq => he (hk.eret hq), t, hi ht⟩
  wait hw := hk.accesses (h.wait (by rw [← hk.wait]; exact hw))

theorem Keeps.refl (p : Pair SlotView) : Keeps p p :=
  ⟨rfl, fun h => h, rfl, rfl, rfl, fun h => h, rfl, fun h => h, fun h => h⟩

theorem SlotView.idle_zero (pc : Word) : SlotView.Idle ⟨false, pc, {}, false, .noExc⟩ :=
  ⟨rfl, rfl, rfl, rfl, rfl, rfl, rfl, rfl, rfl⟩

theorem holds_none (h : p.Each SlotView.Idle) (hw : p.slot1.ctl.waitSignal = false) :
    Holds issued none p where
  idle _ := h
  valid1 _ hn := nomatch hn
  slot1 _ hn := nomatch hn
  slot0 _ hn := nomatch hn
  wait hw' := by
    rw [hw] at hw'
    cases hw'

/-- A pipeline register passes on what it is given, keeps what it has, or is cleared. -/
theorem holds_pipereg2 {α : Type} {view : α → SlotView} {zero nxt out : Pair α}
    (hz : Holds issued none (zero.map view)) (hn : Holds issued n (nxt.map view))
    (ho : Holds issued m (out.map view)) (stall flush : Bool) :
    Holds issued (pipereg2 none stall flush n m)
      ((pipereg2 zero stall flush nxt out).map view) := by
  cases flush
  · cases stall
    · exact hn
    · exact ho
  · exact hz

end Holds

section Stages

theorem IssueData.idle_view {d : IssueData} (h : d.view.Idle) (r : Operands) :
    exceptionOf d r = false ∧ storeMisalign d r = false ∧ loadMisalign d r = false ∧
      trapOf d r = false := by
  have ha : d.ctl.alufunc = .addu := h.alufunc
  have hacc : d.ctl.accesses = false := h.accesses
  obtain ⟨hl, hst⟩ := misalign_of_silent (r := r) hacc
  refine ⟨exceptionOf_of_alufunc ?_ ?_, hst, hl, trapOf_of_tne h.tne⟩ <;> simp [ha]

/-- E finds nothing in an empty group. -/
theorem found_of_idle {dataI : Pair IssueData} (rd : Pair Operands)
    (h : (dataI.map IssueData.view).Each SlotView.Idle) :
    (found1 dataI rd).any = false ∧ (found0 dataI rd).any = false := by
  obtain ⟨ho1, hs1, hl1, ht1⟩ := IssueData.idle_view h.slot1 rd.slot1
  obtain ⟨ho0, hs0, hl0, ht0⟩ := IssueData.idle_view h.slot0 rd.slot0
  simp [Found.any, found1, found0, ho1, hs1, hl1, ht1, ho0, hs0, hl0, ht0]

theorem ctype_addFound (c : Cp0Control) (f : Found) :
    (c.addFound f).ctype = if f.any then .exception else c.ctype := rfl

theorem accesses_execute {dataI : Pair IssueData} (rd : Pair Operands) (u : MulDivResult)
    (h : (dataI.map IssueData.view).Each fun v => v.ctl.accesses = false) :
    ((execute dataI rd u).map ExecuteData.view).Each fun v => v.ctl.accesses = false := by
  have h1 : dataI.slot1.ctl.accesses = false := h.slot1
  have h0 : dataI.slot0.ctl.accesses = false := h.slot0
  simp only [Control.accesses, Bool.or_eq_false_iff] at h1 h0
  constructor
  · simp [ExecuteData.view, execute, executeCtl1, Control.accesses, h1]
  · simp [ExecuteData.view, execute, executeCtl0, Control.accesses, h0]

theorem keeps_execute (dataI : Pair IssueData) (rd : Pair Operands) (u : MulDivResult) :
    Keeps (dataI.map IssueData.view) ((execute dataI rd u).map ExecuteData.view) where
  valid1 := rfl
  valid0 h := by
    simp only [Pair.map_slot0, ExecuteData.view, execute, Bool.and_eq_true] at h
    exact h.2
  pc1 := rfl
  pc0 := rfl
  isSlot := rfl
  eret h := by
    change (dataI.slot1.cp0Ctl.addFound (found1 dataI rd)).ctype = .eret at h
    rw [ctype_addFound] at h
    split at h
    · cases h
    · exact h
  wait := rfl
  accesses := accesses_execute rd u
  idle h := by
    obtain ⟨hf1, hf0⟩ := found_of_idle rd h
    have ha := accesses_execute rd u ⟨h.slot1.accesses, h.slot0.accesses⟩
    have hr1 : dataI.slot1.ctl.regwrite = false := h.slot1.regwrite
    have hr0 : dataI.slot0.ctl.regwrite = false := h.slot0.regwrite
    have hv0 : dataI.slot0.valid = false := h.slot0.valid
    refine ⟨⟨h.slot1.valid, ?_, ha.slot1, h.slot1.writesHilo, h.slot1.cp0write,
      h.slot1.tlbType, h.slot1.tne, h.slot1.alufunc, ?_⟩, ⟨?_, ?_, ha.slot0,
      h.slot0.writesHilo, h.slot0.cp0write, h.slot0.tlbType, h.slot0.tne, h.slot0.alufunc, ?_⟩⟩
    · simp [ExecuteData.view, execute, executeCtl1, hr1]
    · change (dataI.slot1.cp0Ctl.addFound (found1 dataI rd)).ctype = .noExc
      rw [ctype_addFound, hf1]
      exact h.slot1.ctype
    · simp [ExecuteData.view, execute, hv0]
    · simp [ExecuteData.view, execute, executeCtl0, hr0]
    · change (dataI.slot0.cp0Ctl.addFound (found0 dataI rd)).ctype = .noExc
      rw [ctype_addFound, hf0]
      exact h.slot0.ctype

theorem accesses_memory {dataE : Pair ExecuteData} (exc : Pair TlbExc)
    (h : (dataE.map ExecuteData.view).Each fun v => v.ctl.accesses = false) :
    ((memory dataE exc).map ExecuteData.view).Each fun v => v.ctl.accesses = false := by
  have h0 : dataE.slot0.ctl.accesses = false := h.slot0
  refine ⟨h.slot1, ?_⟩
  change (memory dataE exc).slot0.ctl.accesses = false
  rcases memory_slot0_ctl dataE exc with hc | hc
  · rw [hc]
    exact h0
  · rw [hc]
    simp only [Control.accesses, Bool.or_eq_false_iff] at h0
    simp [Control.squashWrites, Control.accesses, h0]

/-- A group without requests is charged nothing. -/
theorem memoryExc_of_accesses (m : MmuState) {dataE : Pair ExecuteData}
    (h : (dataE.map ExecuteData.view).Each fun v => v.ctl.accesses = false) :
    memoryExc m dataE = ⟨{}, {}⟩ := by
  have h1 := m.dTlbExc_of_invalid (r := memoryReq dataE.slot1) h.slot1
  have h0 := m.dTlbExc_of_invalid (r := memoryReq dataE.slot0) h.slot0
  change (⟨m.dTlbExc (memoryReq dataE.slot0), m.dTlbExc (memoryReq dataE.slot1)⟩ :
    Pair TlbExc) = _
  rw [h1, h0]

theorem keeps_memory (dataE : Pair ExecuteData) (m : MmuState) :
    Keeps (dataE.map ExecuteData.view)
      ((memory dataE (memoryExc m dataE)).map ExecuteData.view) where
  valid1 := rfl
  valid0 h := h
  pc1 := rfl
  pc0 := rfl
  isSlot := rfl
  eret h := by
    by_contra hne
    exact Cp0Type.charge_ne_eret _ hne h
  wait := rfl
  accesses := accesses_memory _
  idle h := by
    have hacc : (dataE.map ExecuteData.view).Each fun v => v.ctl.accesses = false :=
      ⟨h.slot1.accesses, h.slot0.accesses⟩
    have he := memoryExc_of_accesses m hacc
    have hl : dataE.slot1.cp0Ctl.ctype.leaves = false := by
      rw [show dataE.slot1.cp0Ctl.ctype = .noExc from h.slot1.ctype]
      rfl
    have hm : memory dataE ⟨{}, {}⟩ = dataE.map fun d => { d with dTlbExc := {} } := by
      simp [memory, hl, chargeDTlbExc, Cp0Type.charge, Pair.map]
    rw [he, hm]
    exact h

theorem issueGroup_empty {c1 c2 : DecodeData} {b : Pair PortBypass} {rd1 rd2 : Pair Word}
    (h : issueEn1 c1 c2 b = false) : issueGroup c1 c2 b rd1 rd2 = ⟨{}, {}⟩ := by
  have h2 : issueEn2 c1 c2 b = false := by
    rw [Bool.eq_false_iff]
    intro h2
    rw [issueEn1_of_issueEn2 h2] at h
    cases h
  simp [issueGroup, h, h2]

theorem issueGroup_single {c1 c2 : DecodeData} {b : Pair PortBypass} {rd1 rd2 : Pair Word}
    (h1 : issueEn1 c1 c2 b = true) (h2 : issueEn2 c1 c2 b = false) :
    issueGroup c1 c2 b rd1 rd2 =
      ⟨issueRecord c1 b.slot1 rd1.slot1 rd2.slot1, {}⟩ := by
  simp [issueGroup, h1, h2]

theorem issueGroup_both {c1 c2 : DecodeData} {b : Pair PortBypass} {rd1 rd2 : Pair Word}
    (h : issueEn2 c1 c2 b = true) :
    issueGroup c1 c2 b rd1 rd2 =
      ⟨issueRecord c1 b.slot1 rd1.slot1 rd2.slot1,
        { issueRecord c2 b.slot0 rd1.slot0 rd2.slot0 with
          preB := false, prePc := 0#32, isSlot := c1.ctl.transfers }⟩ := by
  simp [issueGroup, h, issueEn1_of_issueEn2 h]

theorem valid_of_issueEn1 {c1 c2 : DecodeData} {b : Pair PortBypass}
    (h : issueEn1 c1 c2 b = true) : c1.valid = true := by
  simp only [issueEn1, Bool.and_eq_true] at h
  exact h.1.1

theorem holds_bubble : Holds [] none ((⟨{}, {}⟩ : Pair IssueData).map IssueData.view) :=
  holds_none ⟨SlotView.idle_zero _, SlotView.idle_zero _⟩ rfl

/-- The group that leaves the queue gets the number of the cycle. -/
theorem holds_issueGroup {c1 : DecodeData} (hc : c1.WellDecoded) (c2 : DecodeData)
    (b : Pair PortBypass) (rd1 rd2 : Pair Word) (now : ℕ) (issued : List Issued) :
    let g := issueGroup c1 c2 b rd1 rd2
    Holds (groupIssued now g ++ issued) (if g.slot1.valid then some now else none)
      (g.map IssueData.view) := by
  intro g
  cases h1 : issueEn1 c1 c2 b with
  | false =>
      simp only [g, issueGroup_empty h1]
      exact holds_bubble.keeps (Keeps.refl _) (List.nil_subset _)
  | true =>
      have hv := valid_of_issueEn1 h1
      cases h2 : issueEn2 c1 c2 b with
      | false =>
          simp only [g, issueGroup_single h1 h2]
          refine ⟨fun hn => ?_, fun k hk => hv, fun k hk => ⟨c1.ctl.transfers, ?_, ?_⟩,
            fun k hk h => ?_, fun hw => ⟨(hc.coherent.wait_alone hw).2, rfl⟩⟩
          · simp [issueRecord, hv] at hn
          · obtain rfl : now = k := by simpa [issueRecord, hv] using hk
            simp [groupIssued, issueRecord, hv, IssueData.view]
          · intro h
            cases h
          · cases h
      | true =>
          have ht := issueEn2_together h2
          simp only [g, issueGroup_both h2]
          refine ⟨fun hn => ?_, fun k hk => hv, fun k hk => ⟨c1.ctl.transfers, ?_, ?_⟩,
            fun k hk h => ⟨ht.ctype1.2, c2.ctl.transfers, ?_⟩, fun hw => ?_⟩
          · simp [issueRecord, hv] at hn
          · obtain rfl : now = k := by simpa [issueRecord, hv] using hk
            simp [groupIssued, issueRecord, hv, IssueData.view]
          · exact fun _ h => h
          · obtain rfl : now = k := by simpa [issueRecord, hv] using hk
            simp [groupIssued, issueRecord, hv, ht.valid2, IssueData.view]
          · have hs := (hc.coherent.wait_alone hw).1
            rw [ht.single1] at hs
            cases hs

end Stages

section Flags

variable {n : Option ℕ} {b c : Pair Bool} {e : ℕ}

theorem mem_flaggedIds : e ∈ flaggedIds n b ↔
    ∃ k ∈ n, (e = 2 * k ∧ b.slot1 = true) ∨ (e = 2 * k + 1 ∧ b.slot0 = true) := by
  cases n with
  | none => simp [flaggedIds]
  | some k => cases h1 : b.slot1 <;> cases h0 : b.slot0 <;> simp [flaggedIds, h1, h0]

theorem flaggedIds_mono (h1 : b.slot1 = true → c.slot1 = true)
    (h0 : b.slot0 = true → c.slot0 = true) (he : e ∈ flaggedIds n b) :
    e ∈ flaggedIds n c := by
  rw [mem_flaggedIds] at he ⊢
  obtain ⟨k, hk, he⟩ := he
  exact ⟨k, hk, he.imp (And.imp_right h1) (And.imp_right h0)⟩

theorem half_of_flagged (he : e ∈ flaggedIds n b) : e / 2 ∈ n := by
  obtain ⟨k, hk, he⟩ := mem_flaggedIds.mp he
  rcases he with ⟨rfl, -⟩ | ⟨rfl, -⟩
  · simpa using hk
  · rwa [show (2 * k + 1) / 2 = k by omega]

theorem flaggedIds_none_of_false (he : e ∈ flaggedIds n ⟨false, false⟩) : False := by
  obtain ⟨k, -, ⟨-, h⟩ | ⟨-, h⟩⟩ := mem_flaggedIds.mp he <;> cases h

theorem half_of_issued {m : Issued} {k : ℕ} {d : Pair IssueData}
    (h : m ∈ groupIssued k d) : m.id / 2 = k := by
  unfold groupIssued at h
  rcases List.mem_append.mp h with h | h
  · split at h
    · rw [List.mem_singleton.mp h]
      change 2 * k / 2 = k
      omega
    · cases h
  · split at h
    · rw [List.mem_singleton.mp h]
      change (2 * k + 1) / 2 = k
      omega
    · cases h

end Flags

section Flow

variable {s : CoreState} {i : CoreInput}

theorem hazardOut_flushed (h : s.excpW i = true) : s.hazardOut i =
    { flushE := true, flushM := true, flushM2 := true, flushM3 := true, flushW := true } := by
  rw [CoreState.hazardOut, hazard, h]
  rfl

theorem hazardOut_squashed (h : s.excpW i = false) (hh : (i.dWait || s.waitM) = false)
    (hs : (s.excpM1 || s.branchM) = true) :
    s.hazardOut i = { flushE := true, flushM := true } := by
  rw [CoreState.hazardOut, hazard, h, hh]
  cases he : s.excpM1 with
  | true => rfl
  | false =>
      rw [he, Bool.false_or] at hs
      rw [hs]
      rfl

/-- The five ways the registers behind E are driven. -/
theorem hazardOut_cases (s : CoreState) (i : CoreInput) :
    (s.excpW i = true ∧ s.hazardOut i =
      { flushE := true, flushM := true, flushM2 := true, flushM3 := true, flushW := true }) ∨
    (s.excpW i = false ∧ (i.dWait || s.waitM) = true ∧ s.hazardOut i =
      { stallE := true, stallM := true, stallM2 := true, flushM3 := true }) ∨
    (s.excpW i = false ∧ s.hazardOut i = { flushE := true, flushM := true }) ∨
    (s.excpW i = false ∧ s.hazardOut i = { stallE := true, flushM := true }) ∨
    (s.excpW i = false ∧ s.hazardOut i = {}) := by
  cases hw : s.excpW i with
  | true => exact Or.inl ⟨rfl, hazardOut_flushed hw⟩
  | false =>
      right
      cases hh : i.dWait || s.waitM with
      | true =>
          left
          exact ⟨rfl, rfl, hazardOut_held ⟨hw, fun h => by rw [hh] at h; cases h⟩ hh⟩
      | false =>
          right
          cases hs : s.excpM1 || s.branchM with
          | true => exact Or.inl ⟨rfl, hazardOut_squashed hw hh hs⟩
          | false =>
              have hns : s.NoSquash i := ⟨hw, fun _ => Bool.or_eq_false_iff.mp hs⟩
              cases he : i.eWait with
              | true => exact Or.inr (Or.inl ⟨rfl, hazardOut_busy hns hh he⟩)
              | false => exact Or.inr (Or.inr ⟨rfl, hazardOut_free hns hh he⟩)

/-- An empty stage W does not clear `EXL`. -/
theorem exl_of_idle (h : (s.dataM3.map MemoryData.view).Each SlotView.Idle)
    (he : (s.step i).cp0.regs.status.exl = false) : s.cp0.regs.status.exl = false := by
  have h1 : s.dataM3.slot1.cp0Ctl.ctype = .noExc := h.slot1.ctype
  have h0 : s.dataM3.slot0.cp0Ctl.ctype = .noExc := h.slot0.ctype
  have hw : s.dataM3.slot1.ctl.cp0write = false := h.slot1.cp0write
  have ht : s.dataM3.slot1.ctl.tlbType = .noTlb := h.slot1.tlbType
  have hx : (s.cp0In i).ctype = .noExc := by
    simp [CoreState.cp0In, cp0Input, excSlot, validN, h1, h0, Cp0Type.leaves]
  change (s.cp0.regsNxt (s.cp0In i)).status.exl = false at he
  rw [Cp0State.regsNxt, show (s.cp0In i).isEret = false by
    simp [CoreState.cp0In, cp0Input, isEret, h1, h0]] at he
  rw [if_neg Bool.false_ne_true, Cp0State.regsTaken, hx,
    show (s.cp0In i).valid = false from hw, show (s.cp0In i).tlbType = .noTlb from ht] at he
  split at he
  · cases he
  · simpa [Cp0Regs.tlbResult] using he

/-- Whatever is taken in W sets `EXL`, unless an `ERET` stands there. -/
theorem exl_of_intExc (h : s.intExc i = true) (he : isEret s.dataM3 = false) :
    (s.step i).cp0.regs.status.exl = true := by
  change (s.cp0.regsNxt (s.cp0In i)).status.exl = true
  rw [Cp0State.regsNxt, show (s.cp0In i).isEret = false from he, if_neg Bool.false_ne_true,
    Cp0State.regsTaken]
  split
  · rfl
  · rename_i ht
    have hc : ((s.cp0In i).ctype == .exception) = true := by
      rw [CoreState.intExc, Cp0State.isIntExc, Bool.or_eq_true] at h
      exact h.resolve_right ht
    rw [if_pos hc]
    rfl

theorem accepted_slot {m : MmuState} {d : ExecuteData} {dWait : Bool}
    (h : (!dWait && (m.dreq (memoryReq d)).valid && (memoryReq d).strobe != 0#4) = true) :
    dWait = false ∧ d.ctl.accesses = true ∧ d.ctl.memwrite = true ∧
      (m.dTlbExc (memoryReq d)).any = false := by
  simp only [Bool.and_eq_true, Bool.not_eq_true', bne_iff_ne, MmuState.dreq] at h
  obtain ⟨⟨hd, hv, he⟩, hs⟩ := h
  refine ⟨hd, hv, ?_, he⟩
  by_contra hw
  rw [Bool.not_eq_true] at hw
  exact hs (memoryReq_strobe_of_load hw)

theorem memwrite_dataM1Nxt (s : CoreState) :
    s.dataM1Nxt.slot0.ctl.memwrite = s.dataE.slot0.ctl.memwrite := by
  rw [CoreState.dataM1Nxt]
  rcases memory_slot0_ctl s.dataE s.dTlbExc with h | h
  · rw [h]
  · rw [h]
    rfl

/-- A store that the cache accepts in M1 is one of the stores behind M1 when its group
moves on. -/
theorem acceptedStores_stored :
    ((s.acceptedStores i).slot1 = true → (storedX s.dataM1Nxt).slot1 = true) ∧
      ((s.acceptedStores i).slot0 = true → (storedX s.dataM1Nxt).slot0 = true) := by
  constructor
  · intro h
    obtain ⟨-, -, hw, he⟩ := accepted_slot h
    have he' : s.dataM1Nxt.slot0.dTlbExc.any = false := he
    have hw' : s.dataM1Nxt.slot1.ctl.memwrite = true := hw
    simp [storedX, stored, hw', he']
  · intro h
    obtain ⟨-, -, hw, he⟩ := accepted_slot h
    have he' : s.dataM1Nxt.slot1.dTlbExc.any = false := he
    have hw' := (memwrite_dataM1Nxt s).trans hw
    simp [storedX, stored, hw', he']

/-- While M1 waits the cache accepts nothing. -/
theorem acceptedStores_of_held (h : (i.dWait || s.waitM) = true)
    (hw : s.waitM = true → (s.dataE.map ExecuteData.view).Each fun v => v.ctl.accesses = false) :
    s.acceptedStores i = ⟨false, false⟩ := by
  have key : ∀ d : ExecuteData, (s.waitM = true → d.ctl.accesses = false) →
      (!i.dWait && (s.mmu.dreq (memoryReq d)).valid && (memoryReq d).strobe != 0#4) = false := by
    intro d hd
    rw [Bool.eq_false_iff]
    intro hn
    obtain ⟨hdw, hacc, -, -⟩ := accepted_slot hn
    rw [hdw, Bool.false_or] at h
    rw [hd h] at hacc
    cases hacc
  simp only [CoreState.acceptedStores, Pair.map, key s.dataE.slot1 fun h => (hw h).slot1,
    key s.dataE.slot0 fun h => (hw h).slot0]

end Flow

namespace NumberedCore

variable (s : NumberedCore) (i : CoreInput)

/-- The groups in front of W. -/
def front : List ℕ :=
  s.noE.toList ++ s.noM1.toList ++ s.noM2.toList ++ s.noM3.toList

/-- An interrupt may be taken: `EXL` is clear and no `ERET` has just cleared it. -/
structure Open : Prop where
  exl : s.core.cp0.regs.status.exl = false
  eret : ∀ w ∈ s.last, isEret w.2 = false

/-- The stores behind M1. -/
def storesInFlight : List ℕ :=
  flaggedIds s.noM2 (storedX s.core.dataM1) ++ flaggedIds s.noM3 (storedX s.core.dataM2) ++
    flaggedIds s.noW (storedW s.core.dataM3)

/-- The instruction `e` is older than every group in flight, and if an interrupt may be
taken, it is of a group before the last one, or was seen in the last one. -/
structure Gone (e : ℕ) : Prop where
  older : ∀ n ∈ s.flight, e / 2 < n
  past : e / 2 < s.now
  last : s.Open → ∃ w ∈ s.last, e / 2 < w.1 ∨ e ∈ flaggedIds (some w.1) (leftEffects w.2)

variable {s i}

/-- Nothing overtakes, and nothing is there twice. -/
theorem flight_step : (s.step i).flight.Sublist (s.now :: s.front) := by
  rcases hazardOut_cases s.core i with ⟨-, h⟩ | ⟨-, -, h⟩ | ⟨-, h⟩ | ⟨-, h⟩ | ⟨-, h⟩
  all_goals simp only [flight, front, step, h, pipereg2, Bool.false_eq_true, if_true, if_false,
    Option.toList_none, List.nil_append, List.append_nil]
  · exact List.nil_sublist _
  · exact List.sublist_cons_self _ _
  · refine List.Sublist.cons _ ?_
    simp only [List.append_assoc]
    exact List.sublist_append_right _ _
  · exact List.sublist_cons_self _ _
  · cases (s.core.dataINxt i).slot1.valid with
    | true => exact List.Sublist.refl _
    | false => exact List.sublist_cons_self _ _

/-- A group in front of W stays in flight or is removed by a flush. -/
theorem front_step {n : ℕ} (hn : n ∈ s.front) : n ∈ (s.step i).flight ∨ n ∈ s.dropped i := by
  rcases hazardOut_cases s.core i with ⟨hw, h⟩ | ⟨hw, -, h⟩ | ⟨hw, h⟩ | ⟨hw, h⟩ | ⟨hw, h⟩
  · right
    simpa [dropped, hw, front] using hn
  · left
    simpa [flight, front, step, h, pipereg2] using hn
  · simp only [flight, front, step, h, pipereg2, dropped, hw, List.mem_append] at hn ⊢
    simp at hn ⊢
    tauto
  · left
    simpa [flight, front, step, h, pipereg2] using hn
  · left
    simp only [flight, front, step, h, pipereg2, List.mem_append] at hn ⊢
    simp at hn ⊢
    tauto

/-- What holds in every run. -/
structure Orderly (s : NumberedCore) : Prop where
  sorted : (s.now :: s.flight).Pairwise (· > ·)
  settled : ∀ m ∈ s.issued,
    m.id / 2 ∈ s.committed ∨ m.id / 2 ∈ s.discarded ∨ m.id / 2 ∈ s.flight
  inE : Holds s.issued s.noE (s.core.dataI.map IssueData.view)
  inM1 : Holds s.issued s.noM1 (s.core.dataE.map ExecuteData.view)
  inM2 : Holds s.issued s.noM2 (s.core.dataM1.map ExecuteData.view)
  inM3 : Holds s.issued s.noM3 (s.core.dataM2.map ExecuteData.view)
  inW : Holds s.issued s.noW (s.core.dataM3.map MemoryData.view)
  last : ∀ w ∈ s.last, Holds s.issued (some w.1) (w.2.map MemoryData.view) ∧
    ∀ n ∈ s.now :: s.flight, w.1 < n
  saved : s.core.intPcSaved = true → ∃ w ∈ s.last,
    s.core.intPcSave = (if w.2.slot0.valid then w.2.slot0.pc else w.2.slot1.pc) ∧
      s.core.intSlot = (w.2.slot0.valid && w.2.slot0.isSlot)
  commit : s.Open → ∀ w ∈ s.last, w.1 ∈ s.committed
  effects : ∀ e ∈ s.effects, e ∈ s.storesInFlight ∨ s.Gone e

theorem orderly_reset : ({} : NumberedCore).Orderly where
  sorted := List.pairwise_singleton _ _
  settled _ h := nomatch h
  inE := holds_none ⟨SlotView.idle_zero _, SlotView.idle_zero _⟩ rfl
  inM1 := holds_none ⟨SlotView.idle_zero _, SlotView.idle_zero _⟩ rfl
  inM2 := holds_none ⟨SlotView.idle_zero _, SlotView.idle_zero _⟩ rfl
  inM3 := holds_none ⟨SlotView.idle_zero _, SlotView.idle_zero _⟩ rfl
  inW := holds_none ⟨SlotView.idle_zero _, SlotView.idle_zero _⟩ rfl
  last _ h := nomatch h
  saved h := nomatch h
  commit _ _ h := nomatch h
  effects _ h := nomatch h

section Step

theorem subset_issued : s.issued ⊆ (s.step i).issued := by
  intro m hm
  simp only [step]
  split
  · exact List.mem_append_right _ hm
  · exact hm

/-- The group in W is the last one that left it, if an instruction stands there. -/
theorem last_eq_of_w {k : ℕ} (hk : s.noW = some k) (hv : s.core.dataM3.slot1.valid = true) :
    (s.step i).last = some (k, s.core.dataM3) := by
  simp [step, hk, hv]

theorem last_eq_of_idle (h1 : s.core.dataM3.slot1.valid = false)
    (h0 : s.core.dataM3.slot0.valid = false) : (s.step i).last = s.last := by
  simp [step, h1, h0]

variable (h : s.Orderly)

include h

theorem Orderly.sorted_step : ((s.step i).now :: (s.step i).flight).Pairwise (· > ·) := by
  have hs : (s.now :: s.front).Pairwise (· > ·) :=
    h.sorted.sublist ((List.sublist_append_left _ _).cons_cons _)
  have hf : (s.step i).flight.Pairwise (· > ·) := hs.sublist flight_step
  refine List.pairwise_cons.mpr ⟨fun n hn => ?_, hf⟩
  have hm : n ∈ s.now :: s.front := flight_step.subset hn
  change s.now + 1 > n
  rcases List.mem_cons.mp hm with rfl | hm
  · exact Nat.lt_succ_self _
  · exact Nat.lt_succ_of_lt ((List.pairwise_cons.mp hs).1 n hm)

/-- Every group in flight after the step is younger than the one in W. -/
theorem Orderly.lt_flight_step {k n : ℕ} (hk : k ∈ s.noW) (hn : n ∈ (s.step i).flight) :
    k < n := by
  have hs : (s.now :: s.front ++ s.noW.toList).Pairwise (· > ·) := h.sorted
  exact (List.pairwise_append.mp hs).2.2 n (flight_step.subset hn) k (by simpa using hk)

theorem Orderly.lt_now {n : ℕ} (hn : n ∈ s.flight) : n < s.now :=
  (List.pairwise_cons.mp h.sorted).1 n hn

theorem Orderly.holds_step :
    Holds (s.step i).issued (s.step i).noE ((s.step i).core.dataI.map IssueData.view) ∧
    Holds (s.step i).issued (s.step i).noM1 ((s.step i).core.dataE.map ExecuteData.view) ∧
    Holds (s.step i).issued (s.step i).noM2 ((s.step i).core.dataM1.map ExecuteData.view) ∧
    Holds (s.step i).issued (s.step i).noM3 ((s.step i).core.dataM2.map ExecuteData.view) ∧
    Holds (s.step i).issued (s.step i).noW ((s.step i).core.dataM3.map MemoryData.view) := by
  have hi : s.issued ⊆ (s.step i).issued := subset_issued
  have bubble : ∀ {issued : List Issued} {pc : Word},
      Holds issued none ⟨⟨false, pc, {}, false, .noExc⟩, ⟨false, pc, {}, false, .noExc⟩⟩ :=
    holds_none ⟨SlotView.idle_zero _, SlotView.idle_zero _⟩ rfl
  have inE := h.inE.keeps (Keeps.refl _) hi
  have inM1 := h.inM1.keeps (Keeps.refl _) hi
  have inM2 := h.inM2.keeps (Keeps.refl _) hi
  have inM3 := h.inM3.keeps (Keeps.refl _) hi
  have inW := h.inW.keeps (Keeps.refl _) hi
  refine ⟨?_, ?_, ?_, ?_, ?_⟩
  · have hg := holds_issueGroup i.candidates.slot1.property i.candidates.slot0.val
      ⟨s.core.portBypass i.candidates.slot1.val, s.core.portBypass i.candidates.slot0.val⟩
      ⟨s.core.regs i.candidates.slot1.val.ra1, s.core.regs i.candidates.slot0.val.ra1⟩
      ⟨s.core.regs i.candidates.slot1.val.ra2, s.core.regs i.candidates.slot0.val.ra2⟩
      s.now s.issued
    simp only [step, CoreState.step]
    cases hf : (s.core.hazardOut i).flushE with
    | true => exact bubble
    | false =>
        cases hs : (s.core.hazardOut i).stallE with
        | true => exact h.inE
        | false => exact hg
  · exact holds_pipereg2 bubble
      (h.inE.keeps (keeps_execute s.core.dataI s.core.operands i.u) hi) inM1 _ _
  · exact holds_pipereg2 bubble (h.inM1.keeps (keeps_memory s.core.dataE s.core.mmu) hi) inM2 _ _
  · exact holds_pipereg2 bubble inM2 inM3 _ _
  · have inM3' : Holds (s.step i).issued s.noM3
        ((memory3 s.core.dataM2 i.respData).map MemoryData.view) := inM3
    exact holds_pipereg2 bubble inM3' inW _ _

theorem Orderly.settled_step : ∀ m ∈ (s.step i).issued,
    m.id / 2 ∈ (s.step i).committed ∨ m.id / 2 ∈ (s.step i).discarded ∨
      m.id / 2 ∈ (s.step i).flight := by
  have old : ∀ m ∈ s.issued, m.id / 2 ∈ (s.step i).committed ∨
      m.id / 2 ∈ (s.step i).discarded ∨ m.id / 2 ∈ (s.step i).flight := by
    intro m hm
    rcases h.settled m hm with hc | hd | hf
    · left
      simp only [step]
      split
      · exact hc
      · exact List.mem_append_right _ hc
    · right
      left
      exact List.mem_append_right _ hd
    · rcases List.mem_append.mp hf with hf | hf
      · rcases front_step hf with hf | hd
        · exact Or.inr (Or.inr hf)
        · exact Or.inr (Or.inl (List.mem_append_left _ (List.mem_append_right _ hd)))
      · cases hx : s.core.intExc i with
        | true => simp [step, hx, hf]
        | false => simp [step, hx, hf]
  intro m hm
  have hE := (h.holds_step (i := i)).1
  simp only [step] at hm
  split at hm
  · rename_i hen
    rcases List.mem_append.mp hm with hm | hm
    · have hid := half_of_issued hm
      rw [Bool.and_eq_true, Bool.not_eq_true', Bool.not_eq_true'] at hen
      right
      right
      rw [hid]
      have hno : (s.step i).noE =
          if (s.core.dataINxt i).slot1.valid then some s.now else none := by
        simp [step, hen, pipereg2]
      have hdI : (s.step i).core.dataI = s.core.dataINxt i := by
        simp [step, CoreState.step, hen, pipereg2]
      cases hv : (s.core.dataINxt i).slot1.valid with
      | true =>
          rw [hv, if_pos rfl] at hno
          simp [flight, hno]
      | false =>
          rw [hv, if_neg Bool.false_ne_true] at hno
          have hv0 : (s.core.dataINxt i).slot0.valid = false := by
            have := (hE.idle hno).slot0.valid
            rwa [hdI] at this
          simp [groupIssued, hv, hv0] at hm
    · exact old m hm
  · exact old m hm

/-- W is empty, or it holds the group that is the last one from now on. -/
theorem Orderly.w_cases : (s.noW = none ∧ (s.step i).last = s.last) ∨
    ∃ k, s.noW = some k ∧ s.core.dataM3.slot1.valid = true ∧
      (s.step i).last = some (k, s.core.dataM3) := by
  cases hk : s.noW with
  | none =>
      have hid := h.inW.idle hk
      exact Or.inl ⟨rfl, last_eq_of_idle hid.slot1.valid hid.slot0.valid⟩
  | some k =>
      have hv : s.core.dataM3.slot1.valid = true := h.inW.valid1 k hk
      exact Or.inr ⟨k, rfl, hv, last_eq_of_w hk hv⟩

theorem Orderly.open_of_idle (hk : s.noW = none) (ho : (s.step i).Open) : s.Open := by
  have hid := h.inW.idle hk
  refine ⟨exl_of_idle hid ho.exl, fun w hw => ho.eret w ?_⟩
  rw [last_eq_of_idle hid.slot1.valid hid.slot0.valid]
  exact hw

/-- No interrupt may be taken right after something was taken in W. -/
theorem Orderly.not_open_of_excpW (hw : s.core.excpW i = true) : ¬ (s.step i).Open := by
  intro ho
  have hne : isEret s.core.dataM3 = false := by
    rcases h.w_cases (i := i) with ⟨hk, -⟩ | ⟨k, -, -, hl⟩
    · have hid := h.inW.idle hk
      have h1 : s.core.dataM3.slot1.cp0Ctl.ctype = .noExc := hid.slot1.ctype
      have h0 : s.core.dataM3.slot0.cp0Ctl.ctype = .noExc := hid.slot0.ctype
      simp [isEret, h1, h0]
    · exact ho.eret _ (by rw [hl]; rfl)
  rw [CoreState.excpW, hne, Bool.false_or] at hw
  have hexl : (s.step i).core.cp0.regs.status.exl = true := exl_of_intExc hw hne
  rw [ho.exl] at hexl
  cases hexl

theorem Orderly.last_step : ∀ w ∈ (s.step i).last,
    Holds (s.step i).issued (some w.1) (w.2.map MemoryData.view) ∧
      ∀ n ∈ (s.step i).now :: (s.step i).flight, w.1 < n := by
  have hnow : (s.step i).now = s.now + 1 := rfl
  intro w hw
  rcases h.w_cases (i := i) with ⟨-, hl⟩ | ⟨k, hk, -, hl⟩
  · rw [hl] at hw
    obtain ⟨hh, hlt⟩ := h.last w hw
    refine ⟨hh.keeps (Keeps.refl _) subset_issued, fun n hn => ?_⟩
    rcases List.mem_cons.mp hn with rfl | hn
    · rw [hnow]
      exact Nat.lt_succ_of_lt (hlt s.now List.mem_cons_self)
    · apply hlt
      rcases List.mem_cons.mp (flight_step.subset hn) with rfl | hn
      · exact List.mem_cons_self
      · exact List.mem_cons_of_mem _ (List.mem_append_left _ hn)
  · rw [hl] at hw
    obtain rfl := Option.some.inj hw
    have hW := h.inW
    rw [hk] at hW
    refine ⟨hW.keeps (Keeps.refl _) subset_issued, fun n hn => ?_⟩
    rcases List.mem_cons.mp hn with rfl | hn
    · rw [hnow]
      exact Nat.lt_succ_of_lt (h.lt_now (by simp [flight, hk]))
    · exact h.lt_flight_step (by rw [hk]; rfl) hn

theorem Orderly.saved_step (hs : (s.step i).core.intPcSaved = true) :
    ∃ w ∈ (s.step i).last,
      (s.step i).core.intPcSave = (if w.2.slot0.valid then w.2.slot0.pc else w.2.slot1.pc) ∧
        (s.step i).core.intSlot = (w.2.slot0.valid && w.2.slot0.isSlot) := by
  rcases h.w_cases (i := i) with ⟨hk, hl⟩ | ⟨k, hk, hv, hl⟩
  · have hid := h.inW.idle hk
    have h1 : s.core.dataM3.slot1.valid = false := hid.slot1.valid
    have h0 : s.core.dataM3.slot0.valid = false := hid.slot0.valid
    cases hint : s.core.isInt i with
    | false => simp [step, CoreState.step, hint, h0, h1] at hs
    | true =>
        have hold : s.core.intPcSaved = true := by
          simpa [step, CoreState.step, hint, h0, h1] using hs
        rw [hl]
        simpa [step, CoreState.step, hint, h0, h1] using h.saved hold
  · refine ⟨_, by rw [hl]; rfl, ?_⟩
    cases hint : s.core.isInt i with
    | false => simp [step, CoreState.step, hint] at hs
    | true =>
        cases h0 : s.core.dataM3.slot0.valid <;>
          simp [step, CoreState.step, hint, h0, hv]

theorem Orderly.commit_step (ho : (s.step i).Open) :
    ∀ w ∈ (s.step i).last, w.1 ∈ (s.step i).committed := by
  intro w hw
  rcases h.w_cases (i := i) with ⟨hk, hl⟩ | ⟨k, hk, -, hl⟩
  · rw [hl] at hw
    have hc := h.commit (h.open_of_idle hk ho) w hw
    simp only [step]
    split
    · exact hc
    · exact List.mem_append_right _ hc
  · have hx : s.core.intExc i = false := by
      rw [Bool.eq_false_iff]
      intro hx
      exact h.not_open_of_excpW (by rw [CoreState.excpW, CoreState.intExc] at *; simp [hx]) ho
    rw [hl] at hw
    obtain rfl := Option.some.inj hw
    simp [step, hx, hk]

/-- An effect of the group in W is over when the group has left. -/
theorem Orderly.gone_of_w {k e : ℕ} (hk : s.noW = some k) (he : e / 2 = k)
    (hl : e ∈ flaggedIds (some k) (leftEffects s.core.dataM3)) : (s.step i).Gone e where
  older n hn := by
    rw [he]
    exact h.lt_flight_step (by rw [hk]; rfl) hn
  past := by
    rw [he]
    exact Nat.lt_succ_of_lt (h.lt_now (by simp [flight, hk]))
  last _ := by
    have hv : s.core.dataM3.slot1.valid = true := h.inW.valid1 k (by rw [hk]; rfl)
    refine ⟨(k, s.core.dataM3), ?_, Or.inr hl⟩
    rw [last_eq_of_w hk hv]
    rfl

theorem Orderly.gone_of_gone {e : ℕ} (hg : s.Gone e) : (s.step i).Gone e where
  older n hn := by
    rcases List.mem_cons.mp (flight_step.subset hn) with rfl | hn
    · exact hg.past
    · exact hg.older n (List.mem_append_left _ hn)
  past := Nat.lt_succ_of_lt hg.past
  last ho := by
    rcases h.w_cases (i := i) with ⟨hk, hl⟩ | ⟨k, hk, -, hl⟩
    · rw [hl]
      exact hg.last (h.open_of_idle hk ho)
    · refine ⟨(k, s.core.dataM3), ?_, Or.inl (hg.older k (by simp [flight, hk]))⟩
      rw [hl]
      rfl

/-- An accepted store is over when its group is removed together with everything else. -/
theorem Orderly.gone_of_flush {e : ℕ} (hw : s.core.excpW i = true) (he : e / 2 ∈ s.front) :
    (s.step i).Gone e where
  older n hn := by
    simp [flight, step, hazardOut_flushed hw, pipereg2] at hn
  past := Nat.lt_succ_of_lt (h.lt_now (List.mem_append_left _ he))
  last ho := absurd ho (h.not_open_of_excpW hw)

theorem Orderly.stores_step {e : ℕ} (he : e ∈ s.storesInFlight) :
    e ∈ (s.step i).storesInFlight ∨ (s.step i).Gone e := by
  simp only [storesInFlight, List.mem_append] at he
  rcases he with (he | he) | he
  · have hm := half_of_flagged he
    rcases hazardOut_cases s.core i with ⟨hw, -⟩ | ⟨-, -, hz⟩ | ⟨-, hz⟩ | ⟨-, hz⟩ | ⟨-, hz⟩
    · right
      exact h.gone_of_flush hw (by simp only [front, List.mem_append, Option.mem_toList]; tauto)
    all_goals
      left
      simp only [storesInFlight, step, CoreState.step, hz, pipereg2, List.mem_append]
      simp [he]
  · have hm := half_of_flagged he
    rcases hazardOut_cases s.core i with ⟨hw, -⟩ | ⟨-, -, hz⟩ | ⟨-, hz⟩ | ⟨-, hz⟩ | ⟨-, hz⟩
    · right
      exact h.gone_of_flush hw (by simp only [front, List.mem_append, Option.mem_toList]; tauto)
    all_goals
      left
      have he' : e ∈ flaggedIds s.noM3 (storedW (memory3 s.core.dataM2 i.respData)) := he
      simp only [storesInFlight, step, CoreState.step, hz, pipereg2, List.mem_append]
      simp [he']
  · right
    obtain ⟨k, hk, -⟩ := mem_flaggedIds.mp he
    have hk' : s.noW = some k := hk
    have hh := half_of_flagged he
    rw [hk'] at he hh
    refine h.gone_of_w hk' (Option.some.inj hh).symm (flaggedIds_mono ?_ ?_ he)
    · intro h1
      simp [leftEffects, h1]
    · intro h0
      simp [leftEffects, h0]

theorem Orderly.accepted_step {e : ℕ}
    (he : e ∈ flaggedIds s.noM1 (s.core.acceptedStores i)) :
    e ∈ (s.step i).storesInFlight ∨ (s.step i).Gone e := by
  have hm := half_of_flagged he
  rcases hazardOut_cases s.core i with ⟨hw, -⟩ | ⟨-, hh, hz⟩ | ⟨-, hz⟩ | ⟨-, hz⟩ | ⟨-, hz⟩
  · right
    exact h.gone_of_flush hw (by simp only [front, List.mem_append, Option.mem_toList]; tauto)
  · rw [acceptedStores_of_held hh h.inM1.wait] at he
    exact (flaggedIds_none_of_false he).elim
  all_goals
    left
    have he' := flaggedIds_mono acceptedStores_stored.1 acceptedStores_stored.2 he
    simp only [storesInFlight, step, CoreState.step, hz, pipereg2, List.mem_append]
    simp [he']

theorem Orderly.effects_step : ∀ e ∈ (s.step i).effects,
    e ∈ (s.step i).storesInFlight ∨ (s.step i).Gone e := by
  intro e he
  simp only [step, List.mem_append] at he
  rcases he with (he | he) | he
  · right
    obtain ⟨k, hk, -⟩ := mem_flaggedIds.mp he
    have hk' : s.noW = some k := hk
    have hh := half_of_flagged he
    rw [hk'] at he hh
    refine h.gone_of_w hk' (Option.some.inj hh).symm (flaggedIds_mono ?_ ?_ he)
    · intro h1
      simp only [CoreState.registerWrites, Bool.or_eq_true, Bool.and_eq_true] at h1
      simp only [leftEffects, Bool.or_eq_true]
      exact Or.inl (h1.imp_right And.left)
    · intro h0
      have h0' : s.core.dataM3.slot0.writesRegister = true := h0
      simp [leftEffects, h0']
  · exact h.accepted_step he
  · rcases h.effects e he with he | he
    · exact h.stores_step he
    · exact Or.inr (h.gone_of_gone he)

theorem Orderly.step : (s.step i).Orderly := by
  obtain ⟨inE, inM1, inM2, inM3, inW⟩ := h.holds_step (i := i)
  exact ⟨h.sorted_step, h.settled_step, inE, inM1, inM2, inM3, inW, h.last_step, h.saved_step,
    h.commit_step, h.effects_step⟩

end Step

end NumberedCore

end FrailCPU
