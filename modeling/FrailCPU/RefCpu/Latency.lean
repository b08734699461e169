import FrailCPU.RefCpu.VTop
import FrailCPU.RefCpu.Progress

/-!
# How long an instruction takes on the simulated bus

Outside of `kseg1` an instruction costs its own cycles, the line that it is fetched from, and the
line of its data with the way back of it. Each of the three is a burst of sixteen beats with a
cycle for the choice of the arbiter and one for the device to take the request.
-/

namespace FrailCPU.RefCpu

open Verilate ClockedMachine

section Charge

/-- The enabled cycles of the lines that a state asks for. -/
def CpuState.price (st : CpuState) : ℕ :=
  match st with
  | .fetch => 18
  | .load | .store => 36
  | _ => 0

/-- The enabled cycles of the lines that the instruction at work has asked for, at most. -/
def CpuState.credit (st : CpuState) : ℕ :=
  match st with
  | .commit | .fetch | .branch | .exception | .storeAddrSent => 0
  | .loadAddrSent | .loaded | .unknown => 54
  | _ => 18

theorem CpuState.credit_moves {st st' : CpuState} (h : st' ∈ st.moves) :
    st.price + st.credit ≤ st'.credit := by
  cases st <;> revert st' <;> decide

theorem CpuState.credit_le (st : CpuState) : st.price + st.credit ≤ 54 := by
  cases st <;> decide

/-- The price of what is accepted in a cycle. -/
def Context.charge (ctx : Context) (i : CoreInput) : ℕ :=
  if ctx.stalled i then 0 else ctx.state.price

/-- An instruction pays for its lines. -/
theorem Machine.charge_bounded (s : Machine) (i : CoreInput) :
    s.ctx.charge i + s.ctx.state.credit ≤
      54 * (s.instrs i).length + (s.step i).ctx.state.credit := by
  have hle := s.ctx.state.credit_le
  cases s.moves i with
  | waits hw hn =>
    rw [Context.charge, if_pos hw, hn]
    omega
  | stopped hs hn =>
    have hc : s.ctx.charge i = 0 := by
      rw [Context.charge, hs]
      exact ite_self 0
    rw [hc, hn, hs]
    omega
  | executes _ _ hi =>
    have h1 := List.length_pos_iff.2 hi
    have h2 : s.ctx.charge i ≤ s.ctx.state.price := by
      unfold Context.charge
      split <;> omega
    omega
  | moves ha _ hm =>
    have h1 := CpuState.credit_moves hm
    rw [Context.charge, ha, if_neg Bool.false_ne_true]
    omega

end Charge

namespace VTop

variable {s : VTop} {i : VTopInput} {ki kd : ℕ}

/-- The enabled cycles that the lines at work still take. -/
def remaining (s : VTop) : ℕ :=
  match s.icvt.state, s.dcvt0.state with
  | .fetch, .flush => s.bus.burst + 18
  | .fetch, _ => s.bus.burst
  | _, .fetch => s.bus.burst + 18
  | _, .ready => 18
  | _, .flush => s.bus.burst
  | _, _ => 0

/-- The core waits for data only while a buffer gets it. -/
def Awake (s : VTop) : Prop := s.dcvt0.state = .idle → s.dpend = none

/-- The enabled cycles in which the core waits. -/
def waiting (s : VTop) (i : VTopInput) : ℕ :=
  if i.enable = true ∧ s.ctx.stalled (s.input i) = true then 1 else 0

theorem waiting_le (s : VTop) (i : VTopInput) : s.waiting i ≤ if i.enable then 1 else 0 := by
  unfold waiting
  cases i.enable
  · exact (if_neg (by simp)).le
  · rw [if_pos rfl]
    split <;> decide

theorem waiting_of_not_stalled (h : s.ctx.stalled (s.input i) = false) : s.waiting i = 0 :=
  if_neg (by simp [h])

/-- Outside of `kseg1` no answer is lost. -/
theorem Inv.step_awake (h : s.Inv ki kd) (ha : s.Awake) (hu : s.uncached = false) :
    (s.step i).Awake := by
  intro hidle
  change s.dpend.next s.ctx.dreq (s.dresp i) = none
  have hn := step_dcvt0 (i := i) hu
  rw [dresp_of_cached hu]
  cases hs : s.dcvt0.state with
  | idle =>
    rw [ha hs, StupidBuffer.pend_of_idle _ hs]
    refine if_neg fun hv => ?_
    rw [hn, StupidBuffer.next_of_request hs hv] at hidle
    cases hidle
  | fetch =>
    rw [hn, StupidBuffer.next_of_fetch _ _ hs] at hidle
    dsimp only at hidle
    split at hidle <;> cases hidle
  | ready => exact StupidBuffer.pend_of_ready _ _ hs
  | flush =>
    have hc : s.ctx.state.calm = true := by
      have hd := h.data
      simp only [DataSide, hs] at hd
      exact hd
    have hp : s.dpend = none := Machine.data_none h.core.data
      (fun hl => by rw [hl] at hc; cases hc) (fun hl => by rw [hl] at hc; cases hc)
    rw [hp, Context.dreq_of_calm hc]
    exact Pending.next_none rfl _

/-- Between two idle buffers the core does not wait. -/
theorem Inv.not_stalled (h : s.Inv ki kd) (ha : s.Awake) (hu : s.uncached = false)
    (hs : s.dcvt0.state = .idle) (hi : s.icvt.state = .idle) :
    s.ctx.stalled (s.input i) = false := by
  have hd : (s.input i).dresp.addrOk = true := by
    change (s.dresp i).addrOk = true
    rw [dresp_of_cached hu]
    exact StupidBuffer.addrOk_of_idle hs
  have hia : (s.input i).iresp.addrOk = true := StupidBuffer.addrOk_of_idle hi
  have hip : s.ipend = none := by
    have hip := h.inst
    simp only [InstSide, hi] at hip
    exact hip
  have hdp := ha hs
  unfold Context.stalled
  cases hst : s.ctx.state with
  | fetch => simp only [hia, Bool.not_true, Bool.and_false]
  | load | store => simp only [hd, Bool.not_true]
  | fetchAddrSent =>
    have hp := h.core.inst
    simp only [Machine.InstPort, hst, hip] at hp
    grind
  | loadAddrSent | storeAddrSent =>
    have hp := h.core.data
    simp only [Machine.DataPort, hst, hdp] at hp
    grind
  | _ => rfl

/-- A line of instructions that starts has been asked for. -/
theorem charge_of_fetch (hi : s.icvt.state = .idle) (hn : (s.step i).icvt.state ≠ .idle) :
    s.ctx.charge (s.input i) = 18 := by
  have hia : (s.input i).iresp.addrOk = true := StupidBuffer.addrOk_of_idle hi
  have hv : s.ctx.ireq.valid = true := by
    by_contra hv
    refine hn ?_
    change (s.icvt.next s.ctx.ireq.toDreq (s.iresps i 1)).state = .idle
    have hv' : s.ctx.ireq.toDreq.valid = false := Bool.eq_false_iff.2 hv
    simp only [StupidBuffer.next, hi, hv', Bool.false_eq_true, if_false]
  rw [Context.charge, Context.stalled, Context.state_of_ireq hv]
  simp only [hia, Bool.not_true, Bool.and_false]
  rfl

/-- A line of data that starts has been asked for. -/
theorem charge_of_access (hu : s.uncached = false) (hs : s.dcvt0.state = .idle)
    (hv : s.ctx.dreq.valid = true) : s.ctx.charge (s.input i) = 36 := by
  have hd : (s.input i).dresp.addrOk = true := by
    change (s.dresp i).addrOk = true
    rw [dresp_of_cached hu]
    exact StupidBuffer.addrOk_of_idle hs
  rw [Context.charge, Context.stalled]
  rcases Context.state_of_dreq hv with hst | hst <;> rw [hst] <;>
    simp only [hd, Bool.not_true] <;> rfl

/-- A cycle in which the data bus has a burst. -/
theorem Inv.waiting_of_data (h : s.Inv ki kd) (hv : s.dcvt0.creq.valid = true) :
    s.waiting i + (s.step i).remaining ≤ s.remaining + s.ctx.charge (s.input i) := by
  have hw := s.waiting_le i
  have hs := StupidBuffer.valid_iff.1 hv
  obtain ⟨hi', -, hsilent⟩ := h.icvt_of_data hv i
  have hcharge : s.icvt.state = .idle → (s.step i).icvt.state = .fetch →
      s.ctx.charge (s.input i) = 18 :=
    fun hi hf => charge_of_fetch hi (by simp [hf])
  cases hi : s.icvt.state with
  | ready =>
    rw [h.dcvt0_idle hi] at hs
    simp at hs
  | flush =>
    have hf := h.inst
    simp only [InstSide, hi] at hf
  | fetch =>
    have hs : s.dcvt0.state = .flush := by
      refine hs.resolve_left fun hs => ?_
      rw [h.icvt_idle (Or.inl hs)] at hi
      cases hi
    have hi' : (s.step i).icvt.state = .fetch := by
      change (s.icvt.next s.ctx.ireq.toDreq (s.iresps i 1)).state = .fetch
      rw [(h.data_burst hv i).2, StupidBuffer.next_of_fetch _ _ hi]
      rfl
    cases (h.data_burst hv i).1 with
    | goes j hj hst hheld hh hc =>
      rw [hs] at hst
      simp only [remaining, hs, hst, hi, hi']
      omega
    | ends hst hfree hh hc =>
      rw [hs, if_neg (by decide)] at hst
      simp only [remaining, hs, hst, hi, hi', hfree.burst]
      split at hw <;> omega
  | idle =>
    rcases hs with hs | hs
    · have hi' := hsilent hi (Context.ireq_of_waits (h.accessing (Or.inl hs)).2)
      cases (h.data_burst hv i).1 with
      | goes j hj hst hheld hh hc =>
        rw [hs] at hst
        simp only [remaining, hs, hst, hi, hi']
        omega
      | ends hst hfree hh hc =>
        rw [if_pos hs] at hst
        simp only [remaining, hs, hst, hi, hi']
        split at hw <;> omega
    · cases (h.data_burst hv i).1 with
      | goes j hj hst hheld hh hc =>
        rw [hs] at hst
        rcases hi' with hi' | hi'
        · simp only [remaining, hs, hst, hi, hi']
          omega
        · simp only [remaining, hs, hst, hi, hi', hcharge hi hi']
          omega
      | ends hst hfree hh hc =>
        rw [hs, if_neg (by decide)] at hst
        rcases hi' with hi' | hi'
        · simp only [remaining, hs, hst, hi, hi']
          split at hw <;> omega
        · simp only [remaining, hs, hst, hi, hi', hcharge hi hi', hfree.burst]
          split at hw <;> omega

/-- A cycle in which the instruction bus has a burst. -/
theorem Inv.waiting_of_inst (h : s.Inv ki kd) (hs : s.dcvt0.state = .idle)
    (hi : s.icvt.state = .fetch) :
    s.waiting i + (s.step i).remaining ≤ s.remaining + s.ctx.charge (s.input i) := by
  have hw := s.waiting_le i
  have hs' := dcvt0_of_default (i := i) hs (h.dreq_of_fetching (by simp [hi]))
  cases h.inst_burst hs hi i with
  | goes j hj hst hheld hh hc =>
    rw [hi] at hst
    simp only [remaining, hs, hs', hst, hi]
    omega
  | ends hst hfree hh hc =>
    rw [if_pos hi] at hst
    simp only [remaining, hs, hs', hst, hi]
    split at hw <;> omega

/-- A cycle in which a buffer answers. -/
theorem Inv.waiting_of_ready (h : s.Inv ki kd) (hs : s.dcvt0.state = .ready) :
    s.waiting i + (s.step i).remaining ≤ s.remaining + s.ctx.charge (s.input i) := by
  have hi := h.icvt_idle (Or.inr hs)
  have hne : s.dcvt0.state ≠ .idle := by simp [hs]
  have hu := uncached_of_default (h.dreq_eq hne)
  obtain ⟨hfree, hfree'⟩ := h.free_of_quiet hu (StupidBuffer.creq_of_ready hs)
    (StupidBuffer.creq_of_idle hi) i
  obtain ⟨-, -, hsilent⟩ := h.icvt_unserved (i := i) (by simp [hi])
    (fun hf => by rw [hi] at hf; cases hf) (hfree.iresps 1) default
  have hi' := hsilent hi (Context.ireq_of_waits (h.accessing (Or.inr hs)).2)
  have hw : s.waiting i = 0 := by
    have hok : (s.input i).dresp.dataOk = true := by
      change (s.dresp i).dataOk = true
      rw [dresp_of_cached hu]
      exact StupidBuffer.dataOk_of_ready hs
    refine waiting_of_not_stalled ?_
    unfold Context.stalled
    rcases (h.accessing (Or.inr hs)).2 with hst | hst <;> rw [hst] <;> simp only [hok, Bool.not_true]
  have hst : (s.step i).dcvt0.state = if s.dcvt0.req.strobe ≠ 0#4 then .flush else .idle := by
    rw [step_dcvt0 hu]
    exact (h.dholds.ready_next s.ctx.dreq (s.dcresp0 i) hs).1
  split at hst <;> simp only [remaining, hw, hs, hi, hst, hi', hfree'.burst] <;> omega

/-- A cycle in which the buffer of the instruction bus answers. -/
theorem Inv.waiting_of_fetched (h : s.Inv ki kd) (hi : s.icvt.state = .ready) :
    s.waiting i + (s.step i).remaining ≤ s.remaining + s.ctx.charge (s.input i) := by
  have hs' := dcvt0_of_default (i := i) (h.dcvt0_idle hi) (h.dreq_of_fetching (by simp [hi]))
  have hi' : (s.step i).icvt.state = .idle := by
    have hn := (h.iholds.ready_next s.ctx.ireq.toDreq (s.iresps i 1) hi).1
    rw [(h.ipend_eq (by simp [hi])).2] at hn
    exact hn
  have hw : s.waiting i = 0 := by
    have hok : (s.input i).iresp.dataOk = true := StupidBuffer.dataOk_of_ready hi
    refine waiting_of_not_stalled ?_
    unfold Context.stalled
    rw [h.fetching (by simp [hi])]
    simp only [hok, Bool.not_true]
  simp only [remaining, hw, hs', hi']
  omega

/-- A cycle in which both buffers may take a request. -/
theorem Inv.waiting_of_idle (h : s.Inv ki kd) (ha : s.Awake) (hu : s.uncached = false)
    (hs : s.dcvt0.state = .idle) (hi : s.icvt.state = .idle) :
    s.waiting i + (s.step i).remaining ≤ s.remaining + s.ctx.charge (s.input i) := by
  have hw : s.waiting i = 0 := waiting_of_not_stalled (h.not_stalled ha hu hs hi)
  obtain ⟨hfree, hfree'⟩ := h.free_of_quiet hu (StupidBuffer.creq_of_idle hs)
    (StupidBuffer.creq_of_idle hi) i
  obtain ⟨hi', -, hsilent⟩ := h.icvt_unserved (i := i) (by simp [hi])
    (fun hf => by rw [hi] at hf; cases hf) (hfree.iresps 1) default
  cases hv : s.ctx.dreq.valid with
  | true =>
    have hs' : (s.step i).dcvt0.state = .fetch := by
      rw [step_dcvt0 hu, StupidBuffer.next_of_request hs hv]
    have hi' : (s.step i).icvt.state = .idle := by
      refine hsilent hi (Bool.eq_false_iff.2 fun hq => ?_)
      rw [(h.core.ireq_valid hq).2] at hv
      cases hv
    simp only [remaining, hw, hs', hi', hfree'.burst, charge_of_access hu hs hv]
    omega
  | false =>
    have hs' := dcvt0_of_default (i := i) hs (Context.dreq_of_not_valid hv)
    rcases hi' with hi' | hi'
    · simp only [remaining, hw, hs', hi']
      omega
    · have hc := charge_of_fetch (i := i) hi (by simp [hi'])
      simp only [remaining, hw, hs', hi', hfree'.burst, hc]
      omega

/-- The core waits for the lines that it has been charged for. -/
theorem Inv.waiting_bounded (h : s.Inv ki kd) (ha : s.Awake) (hu : s.uncached = false)
    (i : VTopInput) :
    s.waiting i + (s.step i).remaining ≤ s.remaining + s.ctx.charge (s.input i) := by
  cases hs : s.dcvt0.state with
  | fetch => exact h.waiting_of_data (StupidBuffer.valid_iff.2 (Or.inl hs))
  | flush => exact h.waiting_of_data (StupidBuffer.valid_iff.2 (Or.inr hs))
  | ready => exact h.waiting_of_ready hs
  | idle =>
    cases hi : s.icvt.state with
    | idle => exact h.waiting_of_idle ha hu hs hi
    | fetch => exact h.waiting_of_inst hs hi
    | ready => exact h.waiting_of_fetched hi
    | flush =>
      have hf := h.inst
      simp only [InstSide, hi] at hf

/-- The enabled cycles, for as long as the core has not stopped. -/
def enabled (s : VTop) (i : VTopInput) : List Unit :=
  if i.enable = true ∧ s.ctx.state ≠ .unknown then [()] else []

/-- An enabled cycle is one in which the core waits or one in which it is busy. -/
theorem enabled_le (s : VTop) (i : VTopInput) :
    (s.enabled i).length ≤ s.waiting i + (s.toMachine.busy (s.input i)).length := by
  unfold enabled waiting Machine.busy
  split
  case isFalse => exact Nat.zero_le _
  case isTrue he =>
    cases hw : s.ctx.stalled (s.input i) with
    | true =>
      rw [if_pos ⟨he.1, rfl⟩]
      exact Nat.le_add_right 1 _
    | false =>
      have hb : ¬ (false = true ∨ s.ctx.state = .unknown) := by simp [he.2]
      rw [if_neg hb]
      exact Nat.le_add_left 1 _

/-- The enabled cycles up to the effect of the next instruction, at most. -/
def due (s : VTop) : ℕ :=
  s.ctx.state.distance + s.remaining + (54 - s.ctx.state.credit)

/-- An enabled cycle pays for itself with an instruction or with what is due. -/
theorem Inv.enabled_bounded (h : s.Inv ki kd) (ha : s.Awake) (hu : s.uncached = false)
    (i : VTopInput) :
    (s.enabled i).length + (s.step i).due ≤
      64 * (s.toMachine.instrs (s.input i)).length + s.due := by
  have h1 := s.enabled_le i
  have h2 : _ ≤ _ := h.waiting_bounded ha hu i
  have h3 : _ + (s.step i).ctx.state.distance ≤ _ := s.toMachine.busy_bounded (s.input i)
  have h4 : _ ≤ _ + (s.step i).ctx.state.credit := s.toMachine.charge_bounded (s.input i)
  have h5 := s.ctx.state.credit_le
  have h6 := (s.step i).ctx.state.credit_le
  unfold due
  omega

end VTop

open VTop in
/-- From reset, and outside of `kseg1`, the device is enabled at most sixty-four times for an
instruction, for as long as the core has not stopped. -/
theorem vtop_progress (mem : ByteMemory.Memory) {is : List VTopInput}
    (h : Along VTop.step (fun s _ => s.ctx.Regular ∧ s.uncached = false) (reset mem) is) :
    (collect VTop.step VTop.enabled (reset mem) is).length ≤
      64 * (collect VTop.step VTop.events (reset mem) is).countP Event.isInstr + 61 := by
  rw [List.countP_eq_length_filter, collect_filter]
  have hb := collect_bounded VTop.due (P := fun s => (∃ ki kd, s.Inv ki kd) ∧ s.Awake)
    (fun _ _ ⟨⟨_, _, hs⟩, ha⟩ hg => ⟨(hs.drives hg.1).kept, hs.step_awake ha hg.2⟩)
    (fun _ i ⟨⟨_, _, hs⟩, ha⟩ hg => hs.enabled_bounded ha hg.2 i) h
    ⟨⟨0, 0, inv_reset mem⟩, fun _ => rfl⟩
  exact (Nat.le_add_right _ _).trans hb

theorem vtop_progress_addiuSw :
    (collect VTop.step VTop.enabled (.reset addiuSw) addiuSwEnables).length ≤
      64 * (collect VTop.step VTop.events (.reset addiuSw) addiuSwEnables).countP
        Event.isInstr + 61 :=
  vtop_progress addiuSw (by decide +kernel)

end FrailCPU.RefCpu
