import FrailCPU.Core.InOrder
import FrailCPU.Fetch.Target

/-!
# A redirect reaches the queue

From the cycle in which it is raised, a redirect is either held in M1, or everything in
front of E has been squashed and its target is on the way to the queue. The run is carried
together with the redirect that the fetch has not yet followed: the most senior one, and
of two of the same stage the later one. The target is lost when a redirect from W meets an
operation of the instruction cache whose redirect is not finished.
-/

namespace FrailCPU

/-- Only the operations of the instruction cache name one. -/
def DecodeData.CacheCoherent (d : DecodeData) : Prop :=
  d.ctl.cacheI = false → d.cacheCtl.icacheInst = .unknown

section Decode

variable (instr : Word) (d : Decoded)

theorem decodeRegimm_cacheCtl : (decodeRegimm instr d).cacheCtl = d.cacheCtl := by
  unfold decodeRegimm
  split <;> rfl

theorem decodeCop0Func_cacheCtl : (decodeCop0Func instr d).cacheCtl = d.cacheCtl := by
  unfold decodeCop0Func
  split <;> rfl

theorem decodeCop0_cacheCtl : (decodeCop0 instr d).cacheCtl = d.cacheCtl := by
  unfold decodeCop0
  split
  · exact decodeCop0Func_cacheCtl instr d
  all_goals rfl

theorem decodeSpecial_cacheCtl : (decodeSpecial instr d).cacheCtl = d.cacheCtl := by
  unfold decodeSpecial
  split <;> rfl

theorem decodeCop1_cacheCtl : (decodeCop1 instr d).cacheCtl = d.cacheCtl := by
  unfold decodeCop1
  split <;> rfl

theorem decodeSpecial2_cacheCtl : (decodeSpecial2 instr d).cacheCtl = d.cacheCtl := by
  unfold decodeSpecial2
  split <;> rfl

theorem decodeCache_icacheInst (h : d.cacheCtl.icacheInst = .unknown)
    (hc : (decodeCache instr d).ctl.cacheI = false) :
    (decodeCache instr d).cacheCtl.icacheInst = .unknown := by
  revert hc
  unfold decodeCache
  split <;> simp [h]

/-- Only the CACHE instruction names an operation. -/
theorem decodeOp_cacheCtl :
    (decodeOp instr d).cacheCtl = d.cacheCtl ∨ decodeOp instr d = decodeCache instr d := by
  unfold decodeOp
  split
  case h_31 => exact Or.inr rfl
  all_goals left
  all_goals first
    | rfl
    | rw [decodeRegimm_cacheCtl]
    | rw [decodeCop0_cacheCtl]
    | rw [decodeSpecial_cacheCtl]
    | rw [decodeCop1_cacheCtl]
    | rw [decodeSpecial2_cacheCtl]

theorem decodeOp_icacheInst (h : d.cacheCtl.icacheInst = .unknown)
    (hc : (decodeOp instr d).ctl.cacheI = false) :
    (decodeOp instr d).cacheCtl.icacheInst = .unknown := by
  rcases decodeOp_cacheCtl instr d with hd | hd
  · rw [hd, h]
  · rw [hd] at hc ⊢
    exact decodeCache_icacheInst instr d h hc

theorem decodeSlot_cacheCoherent (f : FetchData) (preB : Bool) (prePc : Word) :
    (decodeSlot f preB prePc).CacheCoherent := by
  intro hc
  cases hv : f.valid with
  | false =>
      simp only [decodeSlot, decoder, hv]
      rfl
  | true =>
      simp only [decodeSlot, decoder, hv] at hc ⊢
      exact decodeOp_icacheInst f.rawInstr _ rfl hc

end Decode

namespace IssueQueue

/-- Every record of the rings has the property. -/
structure All (P : DecodeData → Prop) (q : IssueQueue) : Prop where
  even : ∀ i, P (q.even i)
  odd : ∀ i, P (q.odd i)

variable {P : DecodeData → Prop} {q : IssueQueue}

theorem All.step (hd : ∀ f preB prePc, P (decodeSlot f preB prePc)) (h : q.All P)
    (i : IssueInput) : (q.step i).All P where
  even k := by
    have hw : P (q.wdataEven i) := by
      unfold wdataEven
      split <;> exact hd ..
    simp only [IssueQueue.step]
    split
    · rw [Function.update_apply]
      split
      · exact hw
      · exact h.even k
    · exact h.even k
  odd k := by
    have hw : P (q.wdataOdd i) := by
      unfold wdataOdd
      split <;> exact hd ..
    simp only [IssueQueue.step]
    split
    · rw [Function.update_apply]
      split
      · exact hw
      · exact h.odd k
    · exact h.odd k

theorem All.candidate1 (h0 : P {}) (h : q.All P) : P q.candidate1 := by
  unfold IssueQueue.candidate1 IssueQueue.rdataOdd IssueQueue.rdataEven
  split <;> split
  · exact h.odd _
  · exact h0
  · exact h.even _
  · exact h0

end IssueQueue

namespace Cpu

variable (s : Cpu) (i : CpuInput)

/-- What enters the queue in this cycle. -/
def enqueued : List DecodeData :=
  if (s.hazardFront i).flushQue then [] else IssueQueue.arrivals (s.issueInput i)

/-- The target of the redirect that M1 asks for. -/
def targetM : Option Word :=
  if s.core.dataE.slot1.ctl.cacheI then some (s.core.dataE.slot1.pc + 4#32)
  else if s.core.dataE.slot1.branchTaken then some s.core.dataE.slot1.target
  else none

/-- A redirect from W meets an operation of the instruction cache: in M1, or saved for the
time after the wait of the fetch, or performed in this cycle. -/
def Overtakes : Prop :=
  s.core.excpW (s.coreInput i) = true ∧
    (s.core.dataE.slot1.ctl.cacheI = true ∨
      s.iWait i = true ∧ s.front.icacheSaved = true ∨
      s.iWait i = false ∧ s.front.icachePcnxtSaved = true ∧ s.front.pcSaved = false)

instance : Decidable (s.Overtakes i) := inferInstanceAs (Decidable (_ ∧ (_ ∨ _ ∧ _ ∨ _ ∧ _ ∧ _)))

/-- A pair that does nothing in M1. -/
structure Idle (p : Pair ExecuteData) : Prop where
  cacheI : p.slot1.ctl.cacheI = false
  branchTaken : p.slot1.branchTaken = false
  icacheInst : p.slot1.cacheCtl.icacheInst = .unknown
  excpM : ∀ m, FrailCPU.excpM p (memoryExc m p) = false

/-- Nothing is left in the queue, in E and in M1. -/
structure Cleared (s : Cpu) : Prop where
  queue : ∃ p, s.queue.val.Counts p p
  dataI : s.core.dataI = ⟨{}, {}⟩
  dataE : Idle s.core.dataE

/-- The records up to M1 name an operation of the instruction cache only if they are one. -/
structure OpsKnown (s : Cpu) : Prop where
  ordered : s.Ordered
  queue : s.queue.val.All DecodeData.CacheCoherent
  e : s.core.dataI.slot1.ctl.cacheI = false →
    s.core.dataI.slot1.cacheCtl.icacheInst = .unknown
  m1 : s.core.dataE.slot1.ctl.cacheI = false →
    s.core.dataE.slot1.cacheCtl.icacheInst = .unknown

variable {s i}

/-- Without an access and an exception M1 finds nothing. -/
theorem excpM_eq_false {p : Pair ExecuteData} (m : MmuState)
    (h1 : p.slot1.ctl.accesses = false ∧ p.slot1.cp0Ctl.ctype.leaves = false)
    (h0 : p.slot0.ctl.accesses = false ∧ p.slot0.cp0Ctl.ctype.leaves = false) :
    FrailCPU.excpM p (memoryExc m p) = false := by
  have e1 : m.dTlbExc (memoryReq p.slot1) = {} := m.dTlbExc_of_invalid h1.1
  have e0 : m.dTlbExc (memoryReq p.slot0) = {} := m.dTlbExc_of_invalid h0.1
  rw [FrailCPU.excpM, memoryExc_slot1, memoryExc_slot0, e1, e0, h1.2, h0.2]
  rfl

theorem idle_zero : Idle ⟨{}, {}⟩ where
  cacheI := rfl
  branchTaken := rfl
  icacheInst := rfl
  excpM _ := excpM_eq_false _ ⟨rfl, rfl⟩ ⟨rfl, rfl⟩

theorem idle_execute (rd : Pair Operands) (u : MulDivResult) :
    Idle (execute ⟨{}, {}⟩ rd u) where
  cacheI := rfl
  branchTaken := rfl
  icacheInst := rfl
  excpM _ := by
    have hf (r : Operands) : exceptionOf {} r = false ∧ storeMisalign {} r = false ∧
        loadMisalign {} r = false ∧ trapOf {} r = false := ⟨rfl, rfl, rfl, rfl⟩
    refine excpM_eq_false _ ⟨rfl, ?_⟩ ⟨rfl, ?_⟩
    · simp [execute, Cp0Control.addFound, Found.any, found1, hf, Cp0Type.leaves]
    · simp [execute, Cp0Control.addFound, Found.any, found0, hf, Cp0Type.leaves]

section Cleared

/-- A squash empties everything in front of M2. -/
theorem cleared_of_squash {c : HazardFront} {b : HazardOut} (hc : s.hazardFront i = c)
    (hq : c.flushQue = true) (hb : (s.hazardIn i).back = b) (he : b.flushE = true)
    (hm : b.flushM = true) : (s.step i).Cleared where
  queue := ⟨0, IssueQueue.counts_flushed (by rw [← hc] at hq; exact hq)⟩
  dataI := by
    have hf : (s.core.hazardOut (s.coreInput i)).flushE = true := by
      rw [← hazardIn_back, hb, he]
    simp only [Cpu.step, CoreState.step, hf, pipereg2, if_true]
  dataE := by
    have hf : (s.core.hazardOut (s.coreInput i)).flushM = true := by
      rw [← hazardIn_back, hb, hm]
    simp only [Cpu.step, CoreState.step, hf, pipereg2, if_true]
    exact idle_zero

theorem Cleared.candidates (h : s.Cleared) :
    s.queue.val.candidate1 = {} ∧ s.queue.val.candidate2 = {} := by
  obtain ⟨p, hp⟩ := h.queue
  exact IssueQueue.candidates_of_queEmpty (hp.queEmpty.mpr rfl)

theorem Cleared.overflow (h : s.Cleared) : s.queue.val.overflow = false := by
  obtain ⟨p, hp⟩ := h.queue
  rw [Bool.eq_false_iff]
  intro ho
  rw [IssueQueue.overflow, Bool.or_eq_true, beq_iff_eq, beq_iff_eq, hp.odd_full, hp.even_full] at ho
  omega

theorem Cleared.dataINxt (h : s.Cleared) : s.core.dataINxt (s.coreInput i) = ⟨{}, {}⟩ := by
  obtain ⟨h1, h2⟩ := h.candidates
  have hg : s.core.dataINxt (s.coreInput i) =
      issueGroup s.queue.val.candidate1 s.queue.val.candidate2 _ _ _ := rfl
  rw [hg, h1, h2]
  simp [issueGroup, issueEn1, issueEn2]

/-- As long as nothing enters, the queue, E and M1 stay empty. -/
theorem Cleared.step (h : s.Cleared) (ho : s.Ordered) (hn : s.enqueued i = []) :
    (s.step i).Cleared where
  queue := by
    obtain ⟨p, hp⟩ := h.queue
    cases hf : (s.hazardFront i).flushQue with
    | true => exact ⟨0, IssueQueue.counts_flushed hf⟩
    | false =>
        rw [enqueued, hf] at hn
        have hg : s.queue.val.overflow = true → (s.issueInput i).stallI = true := fun hv => by
          rw [h.overflow] at hv
          cases hv
        have hnext := hp.step (i := s.issueInput i) hf ho.d hg
        have hle := hp.departures_le (s.issueInput i)
        have hdep : s.queue.val.departures (s.issueInput i) = 0 := by omega
        rw [hdep, show IssueQueue.arrivals (s.issueInput i) = [] from hn] at hnext
        exact ⟨p, hnext⟩
  dataI := by
    simp only [Cpu.step, CoreState.step, pipereg2, h.dataINxt, h.dataI, ite_self]
  dataE := by
    simp only [Cpu.step, CoreState.step, pipereg2]
    split
    · exact idle_zero
    · split
      · exact h.dataE
      · rw [CoreState.dataENxt, h.dataI]
        exact idle_execute _ _

theorem Cleared.branchM (h : s.Cleared) : s.core.branchM = false := by
  rw [CoreState.branchM, h.dataE.branchTaken, h.dataE.cacheI]
  rfl

theorem Cleared.excpM1 (h : s.Cleared) : s.core.excpM1 = false := h.dataE.excpM _

/-- Without a redirect from W an emptied core lets the fetch stand still, wait or go on. -/
theorem Cleared.hazardFront (h : s.Cleared) (hw : s.core.excpW (s.coreInput i) = false) :
    s.hazardFront i = { stallF := true, stallF2 := true, stallD := true, stallI := true,
                        stallIDe := true, fihazrdNxt := s.front.fihazrd } ∨
      s.hazardFront i = { stallF := true, flushF2 := true, fihazrdNxt := s.front.fihazrd } ∨
      s.hazardFront i = { flushF2 := s.front.fihazrd } ∧ s.iWait i = false ∧
        (s.hazardIn i).back = {} := by
  have hw' : (s.hazardIn i).excpW = false := hw
  have hm : ((s.hazardIn i).excpM || (s.hazardIn i).branchM) = false :=
    Bool.or_eq_false_iff.mpr ⟨h.excpM1, h.branchM⟩
  have ho : (s.hazardIn i).overflowI = false := h.overflow
  have hi : (s.hazardIn i).iWait = s.iWait i := rfl
  rw [Cpu.hazardFront, HazardIn.front]
  cases hs : (s.hazardIn i).dWait || (s.hazardIn i).waitM with
  | true =>
      rw [HazardIn.chain_stall hw' (Or.inl hs)]
      exact Or.inl rfl
  | false =>
      cases he : (s.hazardIn i).eWait with
      | true =>
          rw [HazardIn.chain_stall hw' (Or.inr ⟨hm, he⟩)]
          exact Or.inl rfl
      | false =>
          rw [HazardIn.chain_move hw' hs hm he, ho, hi]
          cases hw : s.iWait i with
          | true => exact Or.inr (Or.inl rfl)
          | false =>
              refine Or.inr (Or.inr ⟨?_, rfl, HazardIn.back_move hw' hs hm he⟩)
              cases s.front.fihazrd <;> rfl

end Cleared

/-- The operation of the instruction cache in M2 after a cycle. -/
theorem step_m1IcacheInst :
    (s.step i).m1IcacheInst =
      if (s.hazardIn i).back.flushM2 then .unknown
      else if (s.hazardIn i).back.stallM2 then s.m1IcacheInst
      else s.core.dataE.slot1.cacheCtl.icacheInst := by
  rw [hazardIn_back]
  simp only [m1IcacheInst, Cpu.step, CoreState.step, pipereg2]
  split
  · rfl
  · split <;> rfl

/-- A cleared M1 sends no operation to M2. -/
theorem Cleared.m1IcacheInst (h : s.Cleared) (hm : s.m1IcacheInst = .unknown) :
    (s.step i).m1IcacheInst = .unknown := by
  rw [step_m1IcacheInst, hm, h.dataE.icacheInst, ite_self, ite_self]

theorem redirects_w : ((s.redirects i).isEret || (s.redirects i).isIntExc) =
    s.core.excpW (s.coreInput i) := rfl

/-- What the two stages ask for, the last one first. -/
theorem raised_eq (hw : s.core.excpW (s.coreInput i) = false) :
    (s.redirects i).raised = s.targetM.map fun a => (.pcm, a) := by
  rw [← redirects_w, Bool.or_eq_false_iff] at hw
  have hi : (s.redirects i).icache = s.core.dataE.slot1.ctl.cacheI := rfl
  have hb : (s.redirects i).branchTaken = s.core.dataE.slot1.branchTaken := rfl
  rw [Redirects.raised, hw.1, hw.2, hi, hb, targetM]
  cases s.core.dataE.slot1.ctl.cacheI with
  | true => rfl
  | false => cases s.core.dataE.slot1.branchTaken <;> rfl

theorem excpW_of_raised_none (h : (s.redirects i).raised = none) :
    s.core.excpW (s.coreInput i) = false := by
  rcases (s.redirects i).raised_cases 0#32 false false 0#32 with
    ⟨-, -, hw, -⟩ | ⟨b, hr, -⟩ | ⟨hr, -⟩ | ⟨hr, -⟩
  · exact hw
  all_goals
    rw [hr] at h
    cases h

theorem branchM_of_targetM (h : s.targetM ≠ none) : s.core.branchM = true := by
  rw [targetM] at h
  rw [CoreState.branchM]
  cases hc : s.core.dataE.slot1.ctl.cacheI with
  | true => exact Bool.or_true _
  | false =>
      rw [hc] at h
      cases hb : s.core.dataE.slot1.branchTaken with
      | true => rfl
      | false =>
          rw [hb] at h
          exact absurd rfl h

theorem raised_of_excpW (hw : s.core.excpW (s.coreInput i) = true) :
    ∃ a, (s.redirects i).raised = some (.pcw, a) := by
  rw [← redirects_w] at hw
  rcases (s.redirects i).raised_cases 0#32 false false 0#32 with
    ⟨-, -, hn, -⟩ | ⟨a, hr, -⟩ | ⟨-, -, hn, -⟩ | ⟨-, -, hn, -⟩
  · rw [hw] at hn
    cases hn
  · exact ⟨a, hr⟩
  all_goals
    rw [hw] at hn
    cases hn

section Enqueued

theorem enqueued_of_flushQue (h : (s.hazardFront i).flushQue = true) : s.enqueued i = [] :=
  if_pos h

theorem enqueued_of_stallI (h : (s.hazardFront i).stallI = true) : s.enqueued i = [] := by
  rw [enqueued, IssueQueue.arrivals, show (s.issueInput i).stallI = true from h]
  exact ite_self _

theorem enqueued_of_invalid (ho : s.Ordered) (h : s.dataD.slot1.valid = false) :
    s.enqueued i = [] := by
  have h1 : (decode (s.issueInput i).dataF2).slot1.valid = false := h
  have h0 : (decode (s.issueInput i).dataF2).slot0.valid = false := by
    rw [Bool.eq_false_iff]
    intro h0
    rw [show s.dataD.slot1.valid = true from ho.d h0] at h
    cases h
  rw [enqueued, IssueQueue.arrivals, h1, h0]
  simp

theorem pc_of_mem_head_enqueued (h : s.dataD.slot1.valid = true) :
    ∀ d ∈ (s.enqueued i).head?, d.pc = s.dataD.slot1.pc := by
  have h1 : (decode (s.issueInput i).dataF2).slot1.valid = true := h
  rw [enqueued, IssueQueue.arrivals, h1]
  split
  · exact fun _ hd => by cases hd
  · split
    · exact fun _ hd => by cases hd
    · intro d hd
      cases hd
      rfl

/-- Nothing enters in a cycle in which a redirect is raised. -/
theorem enqueued_of_raised (h : (s.redirects i).raised ≠ none) : s.enqueued i = [] := by
  have hfq : (s.hazardFront i).flushQue = _ := HazardIn.front_flushQue
  have hsI : (s.hazardFront i).stallI = _ := HazardIn.front_stallI
  cases hw : s.core.excpW (s.coreInput i) with
  | true =>
      refine enqueued_of_flushQue (hfq.trans ?_)
      rw [HazardIn.chain_squash (Or.inl hw)]
      rfl
  | false =>
      have hm : ((s.hazardIn i).excpM || (s.hazardIn i).branchM) = true := by
        rw [raised_eq hw, ne_eq, Option.map_eq_none_iff] at h
        exact (Bool.or_eq_true _ _).mpr (Or.inr (branchM_of_targetM h))
      cases hs : (s.hazardIn i).dWait || (s.hazardIn i).waitM with
      | true =>
          refine enqueued_of_stallI (hsI.trans ?_)
          rw [HazardIn.chain_stall hw (Or.inl hs)]
      | false =>
          refine enqueued_of_flushQue (hfq.trans ?_)
          rw [HazardIn.chain_squash (Or.inr ⟨hs, hm⟩)]
          rfl

end Enqueued

theorem OpsKnown.step (h : s.OpsKnown) : (s.step i).OpsKnown where
  ordered := h.ordered.step
  queue := h.queue.step decodeSlot_cacheCoherent _
  e := by
    have hc : s.queue.val.candidate1.CacheCoherent :=
      h.queue.candidate1 (fun _ => rfl)
    refine pipereg2_ordered (P := fun d : Pair IssueData => d.slot1.ctl.cacheI = false →
      d.slot1.cacheCtl.icacheInst = .unknown) (fun _ => rfl) ?_ h.e
    simp only [CoreState.dataINxt, issueGroup]
    split
    · exact hc
    · exact fun _ => rfl
  m1 := pipereg2_ordered (P := fun d : Pair ExecuteData => d.slot1.ctl.cacheI = false →
      d.slot1.cacheCtl.icacheInst = .unknown) (fun _ => rfl) h.e h.m1

theorem opsKnown_reset : OpsKnown {} where
  ordered := ordered_reset
  queue := ⟨fun _ _ => rfl, fun _ _ => rfl⟩
  e _ := rfl
  m1 _ := rfl

end Cpu

/-- The core with the redirect that the fetch has not yet followed. -/
structure TrackedRedirect where
  cpu : Cpu := {}
  expected : Option (ForwardPcType × Word) := none

namespace TrackedRedirect

variable (s : TrackedRedirect) (i : CpuInput)

/-- The redirect to be followed after the redirects of this cycle: the most senior one, and of
two of the same stage the later one. -/
def due : Option (ForwardPcType × Word) :=
  match (s.cpu.redirects i).raised, s.expected with
  | some r, some e => if r.1.rank < e.1.rank then some e else some r
  | some r, none => some r
  | none, e => e

/-- A clock edge: the redirect is followed by the first instruction that enters the queue. -/
def step : TrackedRedirect where
  cpu := s.cpu.step i
  expected := if (s.cpu.enqueued i).isEmpty then s.due i else none

/-- Whatever comes next, the first instruction to enter the queue after a redirect is that at
its target. -/
def Delivers : Prop :=
  ∀ (i : CpuInput) (r : ForwardPcType × Word), s.due i = some r →
    ∀ d ∈ (s.cpu.enqueued i).head?, d.pc = r.2

/-- No redirect from W meets an operation of the instruction cache. -/
def NotOvertaken : Prop := ¬ s.cpu.Overtakes i

instance : Decidable (s.NotOvertaken i) := inferInstanceAs (Decidable (¬ _))

/-- Where the redirect is: nowhere, in a stalled M1, or on its way to the queue. -/
inductive Heading (s : TrackedRedirect) : Prop
  | idle (expected : s.expected = none) (unsaved : s.cpu.front.Unsaved)
  | held (a : Word) (expected : s.expected = some (.pcm, a)) (target : s.cpu.targetM = some a)
      (pcSaved : s.cpu.front.pcSaved = true → s.cpu.front.forwardPctypeSave = .pcm)
      (icacheSaved : s.cpu.front.icacheSaved = true → s.cpu.core.dataE.slot1.ctl.cacheI = true)
      (pcnxtSaved : s.cpu.front.icachePcnxtSaved = true → s.cpu.front.pcSaved = true)
  | sent (l : ForwardPcType) (a : Word) (expected : s.expected = some (l, a))
      (cleared : s.cpu.Cleared)
      (approach : s.cpu.front.Approach a s.cpu.dataD s.cpu.m1IcacheInst)

variable {s i}

theorem Heading.delivers (h : s.Heading) (ho : s.cpu.Ordered) : s.Delivers := by
  intro i r hr d hd
  cases hra : (s.cpu.redirects i).raised with
  | some x =>
      rw [Cpu.enqueued_of_raised (by rw [hra]; simp)] at hd
      cases hd
  | none =>
      rw [due, hra] at hr
      cases h with
      | idle expected unsaved =>
          rw [expected] at hr
          cases hr
      | held a expected target pcSaved icacheSaved pcnxtSaved =>
          rw [Cpu.raised_eq (Cpu.excpW_of_raised_none hra), target] at hra
          cases hra
      | sent l a expected cleared approach =>
          rw [expected] at hr
          cases hr
          rcases approach.decoder with hv | ⟨hv, hpc⟩
          · rw [Cpu.enqueued_of_invalid ho hv] at hd
            cases hd
          · exact (Cpu.pc_of_mem_head_enqueued hv d hd).trans hpc

theorem due_of_raised_none (h : (s.cpu.redirects i).raised = none) : s.due i = s.expected := by
  rw [due, h]

/-- A redirect that nothing more senior precedes is the one to be followed. -/
theorem step_expected {r : ForwardPcType × Word} (h : (s.cpu.redirects i).raised = some r)
    (he : ∀ e, s.expected = some e → e.1.rank ≤ r.1.rank) : (s.step i).expected = some r := by
  have hn : s.cpu.enqueued i = [] := Cpu.enqueued_of_raised (by rw [h]; simp)
  have hd : s.due i = some r := by
    rw [due, h]
    cases hx : s.expected with
    | none => rfl
    | some e => exact if_neg (Nat.not_lt.mpr (he e hx))
  rw [TrackedRedirect.step, hn, hd]
  rfl

/-- Everything in front of E is squashed, and the target sets out. -/
theorem heading_of_squash {l : ForwardPcType} {a : Word}
    (hc : (s.cpu.hazardIn i).chain s.cpu.front.fihazrd =
      (s.cpu.hazardIn i).squashFront s.cpu.front.fihazrd)
    {b : HazardOut} (hb : (s.cpu.hazardIn i).back = b) (hfe : b.flushE = true)
    (hfm : b.flushM = true) (hr : (s.cpu.redirects i).raised = some (l, a))
    (he : ∀ e, s.expected = some e → e.1.rank ≤ l.rank)
    (hop : s.cpu.core.dataE.slot1.ctl.cacheI = true → l = .pcm)
    (hsaved : s.cpu.iWait i = true → s.cpu.front.icacheSaved = true →
      s.cpu.core.dataE.slot1.ctl.cacheI = true)
    (hrank : s.cpu.front.pcSaved = true → ¬ l.rank < s.cpu.front.forwardPctypeSave.rank)
    (hpcnxt : s.cpu.iWait i = false → s.cpu.front.icachePcnxtSaved = true →
      s.cpu.front.pcSaved = true)
    (hm : s.cpu.core.dataE.slot1.ctl.cacheI = false → (s.cpu.step i).m1IcacheInst = .unknown) :
    (s.step i).Heading := by
  have hz : s.cpu.hazardFront i =
      { flushF2 := true, flushD := true, flushI := true, flushQue := true,
        stallF := s.cpu.iWait i, fihazrdNxt := s.cpu.iWait i } := by
    have hi : (s.cpu.hazardIn i).iWait = s.cpu.iWait i := rfl
    rw [Cpu.hazardFront, HazardIn.front, hc, HazardIn.squashFront, hi]
    cases s.cpu.iWait i <;> cases s.cpu.front.fihazrd <;> rfl
  have hd : (s.step i).cpu.dataD = ⟨{}, {}⟩ := by
    simp only [TrackedRedirect.step, Cpu.step, hz, pipereg2, if_true]
  refine .sent l a (step_expected hr he) (Cpu.cleared_of_squash hz rfl hb hfe hfm) ?_
  rw [hd]
  exact FrontEnd.approach_of_squash (i := s.cpu.fetchInput i) hz hr hop hsaved hrank hpcnxt hm

/-- A cycle in which no redirect is raised. -/
theorem Heading.step_quiet (h : s.Heading) (hk : s.cpu.OpsKnown)
    (hr : (s.cpu.redirects i).raised = none) : (s.step i).Heading := by
  have hw := Cpu.excpW_of_raised_none hr
  have hu : s.cpu.front.Unredirected (s.cpu.fetchInput i) := FrontEnd.unredirected_of_raised hr
  have he : (s.step i).expected = if (s.cpu.enqueued i).isEmpty then s.expected else none := by
    rw [TrackedRedirect.step, due_of_raised_none hr]
  cases h with
  | idle expected unsaved =>
      refine .idle ?_ (hu.unsaved unsaved)
      rw [he, expected, ite_self]
  | held a expected target pcSaved icacheSaved pcnxtSaved =>
      rw [Cpu.raised_eq hw, target] at hr
      cases hr
  | sent l a expected cleared approach =>
      have hm : s.cpu.m1IcacheInst = .unknown → (s.cpu.step i).m1IcacheInst = .unknown :=
        cleared.m1IcacheInst
      have hempty (hn : s.cpu.enqueued i = []) : (s.step i).expected = some (l, a) := by
        rw [he, hn, expected]
        rfl
      have hdone (hv : s.cpu.dataD.slot1.valid = true)
          (hI : (s.cpu.hazardFront i).stallI = false)
          (hq : (s.cpu.hazardFront i).flushQue = false) : (s.step i).expected = none := by
        rw [he, if_neg]
        rw [Cpu.enqueued, hq, IssueQueue.arrivals, show (s.cpu.issueInput i).stallI = false from hI,
          show (decode (s.cpu.issueInput i).dataF2).slot1.valid = true from hv]
        simp
      rcases cleared.hazardFront hw with hz | hz | ⟨hz, hiw, hb⟩
      · have hn : s.cpu.enqueued i = [] := Cpu.enqueued_of_stallI (by rw [hz])
        have hd : (s.step i).cpu.dataD = s.cpu.dataD := by
          simp only [TrackedRedirect.step, Cpu.step, hz, pipereg2]
          rfl
        refine .sent l a (hempty hn) (cleared.step hk.ordered hn) ?_
        rw [hd]
        exact approach.stall hu hz hm
      · have hd : (s.step i).cpu.dataD = s.cpu.front.dataF2 := by
          simp only [TrackedRedirect.step, Cpu.step, hz, pipereg2]
          rfl
        rcases approach.wait hu hz hm with ⟨hs, hv, -⟩ | ⟨hv, ha⟩
        · exact .idle (hdone hv (by rw [hz]) (by rw [hz])) hs
        · have hn := Cpu.enqueued_of_invalid (i := i) hk.ordered hv
          refine .sent l a (hempty hn) (cleared.step hk.ordered hn) ?_
          rw [hd]
          exact ha
      · have hd : (s.step i).cpu.dataD = s.cpu.front.dataF2 := by
          simp only [TrackedRedirect.step, Cpu.step, hz, pipereg2]
          rfl
        have hm' : (s.cpu.step i).m1IcacheInst = .unknown := by
          rw [Cpu.step_m1IcacheInst, hb]
          exact cleared.dataE.icacheInst
        rcases approach.go hu hz hiw rfl with ⟨hs, hv, -⟩ | ⟨hv, ha⟩
        · exact .idle (hdone hv (by rw [hz]) (by rw [hz])) hs
        · have hn := Cpu.enqueued_of_invalid (i := i) hk.ordered hv
          refine .sent l a (hempty hn) (cleared.step hk.ordered hn) ?_
          rw [hd, show (s.step i).cpu.m1IcacheInst = _ from hm']
          exact ha

/-- What the save registers hold while M1 raises a redirect. -/
structure SavedByM1 (s : TrackedRedirect) (a : Word) : Prop where
  expected : s.expected = none ∨ s.expected = some (.pcm, a)
  pcSaved : s.cpu.front.pcSaved = true → s.cpu.front.forwardPctypeSave = .pcm
  icacheSaved : s.cpu.front.icacheSaved = true → s.cpu.core.dataE.slot1.ctl.cacheI = true
  pcnxtSaved : s.cpu.front.icachePcnxtSaved = true → s.cpu.front.pcSaved = true

theorem Heading.savedByM1 {a : Word} (h : s.Heading) (ht : s.cpu.targetM = some a) :
    s.SavedByM1 a := by
  cases h with
  | idle expected unsaved =>
      refine ⟨Or.inl expected, fun hp => ?_, fun hp => ?_, fun hp => ?_⟩
      · rw [unsaved.pcSaved] at hp
        cases hp
      · rw [unsaved.icacheSaved] at hp
        cases hp
      · rw [unsaved.icachePcnxtSaved] at hp
        cases hp
  | held b expected target pcSaved icacheSaved pcnxtSaved =>
      rw [target] at ht
      cases ht
      exact ⟨Or.inr expected, pcSaved, icacheSaved, pcnxtSaved⟩
  | sent l b expected cleared approach =>
      rw [Cpu.targetM, cleared.dataE.cacheI, cleared.dataE.branchTaken] at ht
      cases ht

/-- M1 waits with its redirect, which is saved again. -/
theorem SavedByM1.hold {a : Word} (h : s.SavedByM1 a)
    (hw : s.cpu.core.excpW (s.cpu.coreInput i) = false) (ht : s.cpu.targetM = some a)
    (hs : ((s.cpu.hazardIn i).dWait || (s.cpu.hazardIn i).waitM) = true) : (s.step i).Heading := by
  have hr : (s.cpu.redirects i).raised = some (.pcm, a) := by
    rw [Cpu.raised_eq hw, ht]
    rfl
  have hE : (s.step i).cpu.core.dataE = s.cpu.core.dataE := by
    have hb : s.cpu.core.hazardOut (s.cpu.coreInput i) = _ := HazardIn.back_held hw hs
    simp only [TrackedRedirect.step, Cpu.step, CoreState.step, hb, pipereg2]
    rfl
  have hsel := (FrontEnd.selected_of_raised (f := s.cpu.front) (i := s.cpu.fetchInput i) hr
    (fun _ => rfl)).1
  have hF : (s.cpu.fetchInput i).hazard.stallF = true := by
    have hf : (s.cpu.hazardFront i).stallF = _ := HazardIn.front_stallF
    refine hf.trans ?_
    rw [HazardIn.chain_stall hw (Or.inl hs)]
  have hsv : s.cpu.front.saves (s.cpu.fetchInput i) = true := by
    rw [FrontEnd.saves, hF, hsel]
    rfl
  refine .held a (step_expected hr fun e he => ?_) ?_ (fun _ => ?_) (fun hp => ?_) (fun _ => ?_)
  · rcases h.expected with hn | hn
    · rw [hn] at he
      cases he
    · rw [hn] at he
      cases he
      exact Nat.le_refl _
  · rw [Cpu.targetM, hE]
    exact ht
  · simp only [TrackedRedirect.step, Cpu.step, FrontEnd.step, hsv, if_true]
    exact hsel
  · rw [hE]
    simp only [TrackedRedirect.step, Cpu.step, FrontEnd.step, hsv, if_true, Bool.or_eq_true] at hp
    exact hp.elim h.icacheSaved (fun hi => hi)
  · simp only [TrackedRedirect.step, Cpu.step, FrontEnd.step, hsv, if_true]

theorem Heading.step (h : s.Heading) (hk : s.cpu.OpsKnown) (hn : s.NotOvertaken i) :
    (s.step i).Heading := by
  cases hw : s.cpu.core.excpW (s.cpu.coreInput i) with
  | true =>
      obtain ⟨a, hr⟩ := Cpu.raised_of_excpW hw
      have hb := HazardIn.back_squashW (h := s.cpu.hazardIn i) hw
      refine heading_of_squash (HazardIn.chain_squash (Or.inl hw)) hb rfl rfl hr
        (fun e _ => e.1.rank_le) (fun hc => absurd ⟨hw, Or.inl hc⟩ hn)
        (fun hi hs => absurd ⟨hw, Or.inr (Or.inl ⟨hi, hs⟩)⟩ hn)
        (fun _ => Nat.not_lt.mpr (ForwardPcType.rank_le _)) (fun hi hs => ?_) (fun _ => ?_)
      · by_contra hp
        rw [Bool.not_eq_true] at hp
        exact hn ⟨hw, Or.inr (Or.inr ⟨hi, hs, hp⟩)⟩
      · rw [Cpu.step_m1IcacheInst, hb]
        rfl
  | false =>
      cases ht : s.cpu.targetM with
      | none =>
          refine h.step_quiet hk ?_
          rw [Cpu.raised_eq hw, ht]
          rfl
      | some a =>
          have hr : (s.cpu.redirects i).raised = some (.pcm, a) := by
            rw [Cpu.raised_eq hw, ht]
            rfl
          have hsv := h.savedByM1 ht
          cases hs : (s.cpu.hazardIn i).dWait || (s.cpu.hazardIn i).waitM with
          | true => exact hsv.hold hw ht hs
          | false =>
              have hm : ((s.cpu.hazardIn i).excpM || (s.cpu.hazardIn i).branchM) = true :=
                (Bool.or_eq_true _ _).mpr (Or.inr (Cpu.branchM_of_targetM (by rw [ht]; simp)))
              have hb := HazardIn.back_squashM (h := s.cpu.hazardIn i) hw hs hm
              refine heading_of_squash (HazardIn.chain_squash (Or.inr ⟨hs, hm⟩)) hb rfl rfl hr
                (fun e he => ?_) (fun _ => rfl) (fun _ => hsv.icacheSaved) (fun hp => ?_)
                (fun _ => hsv.pcnxtSaved) (fun hc => ?_)
              · rcases hsv.expected with hx | hx
                · rw [hx] at he
                  cases he
                · rw [hx] at he
                  cases he
                  exact Nat.le_refl _
              · rw [hsv.pcSaved hp]
                exact Nat.lt_irrefl _
              · rw [Cpu.step_m1IcacheInst, hb]
                exact hk.m1 hc

end TrackedRedirect

/-- In every run in which no redirect from W meets an operation of the instruction cache, the
first instruction to enter the queue after a redirect is the one at its target. -/
theorem redirect_delivered (is : List CpuInput)
    (h : ClockedMachine.Along TrackedRedirect.step TrackedRedirect.NotOvertaken {} is) :
    (ClockedMachine.run TrackedRedirect.step {} is).Delivers := by
  have hrun : (ClockedMachine.run TrackedRedirect.step {} is).cpu.OpsKnown ∧
      (ClockedMachine.run TrackedRedirect.step {} is).Heading := by
    refine h.invariant (P := fun s : TrackedRedirect => s.cpu.OpsKnown ∧ s.Heading)
      (fun s i hs hn => ⟨hs.1.step, hs.2.step hs.1 hn⟩) ⟨Cpu.opsKnown_reset, .idle rfl ?_⟩
    exact ⟨rfl, rfl, rfl⟩
  exact hrun.2.delivers hrun.1.ordered

/-- A cycle with an answer of the instruction cache while an interrupt line is up. -/
def interruptedCycle (slot1 slot0 : Word) : CpuInput :=
  { instrData := ⟨slot1, slot0⟩, extInt := 1#6 }

/-- Interrupts are enabled, and the word `w` is in M1 when the interrupt is entered, in the
sixth of the last `n` cycles. -/
def enteredBehind (w : Word) (n : ℕ) : List CpuInput :=
  [interruptedCycle 0#32 0#32, interruptedCycle 0x24010401#32 0x40816000#32] ++
    List.replicate 4 (interruptedCycle 0#32 0#32) ++ [interruptedCycle w 0#32] ++
    List.replicate n (interruptedCycle 0#32 0#32)

/-- The interrupt is entered at its address. -/
theorem redirect_delivered_interrupt :
    (ClockedMachine.run TrackedRedirect.step {} (enteredBehind 0#32 9)).expected =
        some (.pcw, 0xbfc00380#32) ∧
      (ClockedMachine.run TrackedRedirect.step {} (enteredBehind 0#32 9)).Delivers :=
  ⟨by decide +kernel, redirect_delivered _ (by decide +kernel)⟩

/-- Behind a `CACHE` on the instruction cache the handler is never entered: the fetch goes on
behind the `CACHE`. -/
theorem not_redirect_delivered_cache :
    ¬ ∀ is : List CpuInput, (ClockedMachine.run TrackedRedirect.step {} is).Delivers := by
  intro h
  have hd := h (enteredBehind 0xbc100000#32 10) {} (.pcw, 0xbfc00380#32) (by decide +kernel)
  have hall : (((ClockedMachine.run TrackedRedirect.step {}
      (enteredBehind 0xbc100000#32 10)).cpu.enqueued {}).head?.all
        (·.pc == 0xbfc00380#32)) = true := by
    rw [Option.all_eq_true]
    intro d hm
    exact beq_iff_eq.mpr (hd d hm)
  revert hall
  decide +kernel

end FrailCPU
