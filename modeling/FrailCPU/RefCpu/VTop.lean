import FrailCPU.RefCpu.Refine
import FrailCPU.RefCpu.SharedBus
import FrailCPU.RefCpu.StupidBuffer

/-!
# The reference CPU on the simulated bus

`VTop.sv` with `IM_STUPID`: a buffer in front of the instruction bus, another one and a plain
converter in front of the data bus, where the address of the request chooses, and the bus that
they share. Either buffer may hold a line that the memory behind the bus does not have yet, or
no longer; nevertheless the core executes its instruction set, since a line that was written is
written back before the next instruction is fetched.
-/

namespace FrailCPU.RefCpu

open ByteMemory Verilate ClockedMachine

/-- The registers of `DBusToCBus`. -/
structure DBusToCBus where
  dataOk : Bool := false
  data : Word := 0#32
  deriving DecidableEq, Repr

namespace DBusToCBus

variable (s : DBusToCBus) (dreq : DBusReq) (dcresp : CBusResp)

def dcreq : CBusReq where
  valid := dreq.valid
  isWrite := dreq.strobe != 0#4
  size := dreq.size
  addr := dreq.addr
  strobe := dreq.strobe
  data := dreq.data
  len := mlen1

def okay : Bool := dcresp.ready && dcresp.last

def dresp : BusResp := ⟨okay dcresp, s.dataOk, s.data⟩

def next : DBusToCBus := ⟨okay dcresp, dcresp.data⟩

end DBusToCBus

/-- `VTop` over the device; the monitors of the core's buses are those of `Machine`. -/
structure VTop extends Machine where
  icvt : StupidBuffer := {}
  dcvt0 : StupidBuffer := {}
  dcvt1 : DBusToCBus := {}
  bus : SharedBus 3

structure VTopInput where
  enable : Bool := true
  extInt : BitVec 6 := 0#6
  deriving DecidableEq, Repr

instance : Inhabited VTopInput := ⟨{}⟩

namespace VTop

variable (s : VTop) (i : VTopInput)

/-- The request is one of `kseg1`. -/
def uncached : Bool := s.ctx.dreq.addr.extractLsb' 29 3 == 0b101#3

def dcreq : CBusReq :=
  if s.uncached then DBusToCBus.dcreq s.ctx.dreq else s.dcvt0.creq

/-- The inputs of the arbiter; the first two of the concatenation are padding. -/
def ireqs : Fin 4 → CBusReq := ![s.dcreq, s.icvt.creq, default, default]

def iresps : Fin 4 → CBusResp := s.bus.iresps s.ireqs i.enable

/-- `mux_cresp`. -/
def dcresp0 : CBusResp := if s.uncached then default else s.iresps i 0

def dcresp1 : CBusResp := if s.uncached then s.iresps i 0 else default

def dresp : BusResp :=
  if s.uncached then s.dcvt1.dresp (s.dcresp1 i) else s.dcvt0.dresp

/-- What the core reads. -/
def input : CoreInput where
  iresp := s.icvt.dresp
  dresp := s.dresp i
  extInt := i.extInt

def step : VTop where
  toMachine := s.toMachine.step (s.input i)
  icvt := s.icvt.next s.ctx.ireq.toDreq (s.iresps i 1)
  dcvt0 := s.dcvt0.next (if s.uncached then default else s.ctx.dreq) (s.dcresp0 i)
  dcvt1 := DBusToCBus.next (s.dcresp1 i)
  bus := s.bus.next s.ireqs i.enable

def reset (mem : Memory) : VTop := { mem := mem, bus := { device := { mem := mem } } }

end VTop

/-- The states of the core while a line is written back. -/
def CpuState.calm (st : CpuState) : Bool :=
  match st with
  | .commit | .exception | .fetch | .fetchAddrSent | .unknown => true
  | _ => false

namespace VTop

variable (s : VTop)

/-- The fetch that is pending is that of the buffer. -/
def InstSide : Prop :=
  match s.icvt.state with
  | .idle => s.ipend = none
  | .fetch | .ready => s.ipend = some s.icvt.req ∧ s.icvt.req.strobe = 0#4
  | .flush => False

def DataSide : Prop :=
  match s.dcvt0.state with
  | .idle => True
  | .fetch | .ready => s.dpend = some s.dcvt0.req
  | .flush => s.ctx.state.calm = true

/-- Who has the shared bus, at the beats `ki` and `kd` of the two buffers. -/
def Owner (ki kd : ℕ) : Prop :=
  match s.icvt.state, s.dcvt0.state with
  | .fetch, .flush => s.bus.Held 0 s.dcvt0.creq kd ∧ ki = 0
  | .fetch, _ => s.bus.Open 1 s.icvt.creq ki
  | _, .fetch => s.bus.Open 0 s.dcvt0.creq kd
  | .ready, .flush => False
  | _, .flush =>
    s.bus.Open 0 s.dcvt0.creq kd ∧ (s.bus.arbiter.busy = false → s.ctx.state = .commit)
  | _, _ =>
    if s.uncached then s.bus.Open 0 (DBusToCBus.dcreq s.ctx.dreq) 0 else s.bus.Free

/-- What the buffers hold, and the bus. -/
structure Lines (ki kd : ℕ) : Prop where
  ibeat : ki ≤ 15
  dbeat : kd ≤ 15
  iholds : s.icvt.Holds (translate s.icvt.req.addr) s.bus.device.mem s.bus.device.mem ki
  dholds : s.dcvt0.Holds (translate s.dcvt0.req.addr) s.bus.device.mem s.mem kd
  owner : s.Owner ki kd

structure Inv (ki kd : ℕ) : Prop extends s.Lines ki kd where
  core : s.toMachine.Inv
  inst : s.InstSide
  data : s.DataSide
  lost : s.dcvt1.dataOk = true → s.ctx.state = .loadAddrSent ∨ s.ctx.state = .storeAddrSent

end VTop

section Lemmas

theorem translate_lt (a : Word) : (translate a).toNat < 2 ^ 29 := by
  rw [translate, BitVec.toNat_append]
  simp only [BitVec.toNat_zero, Nat.zero_shiftLeft, Nat.zero_or]
  exact (a.extractLsb' 0 29).isLt

/-- The translator leaves the position in the line. -/
theorem lineOffset_translate (a : Word) : lineOffset (translate a) = lineOffset a := by
  apply BitVec.eq_of_getLsbD_eq
  intro i hi
  simp only [lineOffset, translate, BitVec.getLsbD_extractLsb', BitVec.getLsbD_append]
  grind

/-- A line behind the translator is never the last one. -/
theorem isLine_translated (b : StupidBuffer) :
    AxiTransaction.IsLine (translated b.creq) where
  size := rfl
  len := rfl
  inside := by
    have h := translate_lt b.creq.addr
    change (translate b.creq.addr).toNat / 64 + 1 < 2 ^ 26
    omega

theorem performed_eq_merged (m : Memory) (q : DBusReq) :
    performed m (some q) = merged m (translate q.addr) q := rfl

theorem CpuState.calm_next {ctx : Context} {i : CoreInput} (h : ctx.state.calm = true)
    (hd : i.iresp.dataOk = false) : (ctx.next i).state.calm = true := by
  change (ctx.out i).state.calm = true
  unfold Context.out
  cases hs : ctx.state with
  | commit =>
    change ctx.commit.state.calm = true
    rw [ctx.commit_state]
    split <;> rfl
  | fetch =>
    change (ctx.fetch i.iresp).state.calm = true
    unfold Context.fetch memWait
    rw [hd, Bool.and_false]
    cases i.iresp.addrOk <;> dsimp only <;> split <;> rfl
  | fetchAddrSent =>
    change (if i.iresp.dataOk then CpuState.decode else .fetchAddrSent).calm = true
    rw [hd]
    rfl
  | «exception» =>
    change (if ctx.cp0.status.erl then CpuState.unknown else
      if _ then .unknown else .fetch).calm = true
    split
    · rfl
    · split <;> rfl
  | unknown => rw [hs]; rfl
  | _ => rw [hs] at h; cases h

theorem Context.dreq_of_calm {ctx : Context} (h : ctx.state.calm = true) :
    ctx.dreq = default := by
  unfold Context.dreq
  split
  case h_1 hs | h_2 hs =>
    rw [hs] at h
    cases h
  · rfl

end Lemmas

section Waiting

variable {ctx : Context} {i : CoreInput}

/-- An access that is not accepted is asked for again. -/
theorem Context.next_of_waiting (hs : ctx.state = .load ∨ ctx.state = .store)
    (ha : i.dresp.addrOk = false) :
    (ctx.next i).state = ctx.state ∧ (ctx.next i).dreq = ctx.dreq := by
  rcases hs with hs | hs
  · have ho : ctx.out i = ctx.load i.dresp := by rw [Context.out, hs]
    have hst : (ctx.next i).state = .load := by
      rw [Context.next_state, ho, Context.load, memWait, ha]
      rfl
    have hargs : (ctx.next i).args = ctx.args.setData i.dresp.data := by
      rw [Context.next_args _ _ (by simp [hs]), ho]
      rfl
    refine ⟨hst.trans hs.symm, ?_⟩
    simp only [Context.dreq, hst, hs, hargs, Args.addr_setData, Args.size_setData]
  · have ho : ctx.out i = ctx.store i.dresp := by rw [Context.out, hs]
    have hst : (ctx.next i).state = .store := by
      rw [Context.next_state, ho, Context.store, memWait, ha]
      rfl
    have hargs : (ctx.next i).args = ctx.args := by
      rw [Context.next_args _ _ (by simp [hs]), ho]
      rfl
    refine ⟨hst.trans hs.symm, ?_⟩
    simp only [Context.dreq, hst, hs, hargs]

/-- An access that is accepted and not answered. -/
theorem Context.next_of_sent (hs : ctx.state = .load ∨ ctx.state = .store)
    (ha : i.dresp.addrOk = true) (hd : i.dresp.dataOk = false) :
    (ctx.next i).state = .loadAddrSent ∨ (ctx.next i).state = .storeAddrSent := by
  rcases hs with hs | hs
  · left
    rw [Context.next_state, Context.out, hs]
    change memWait _ _ _ _ = _
    rw [memWait, ha, hd]
    rfl
  · right
    rw [Context.next_state, Context.out, hs]
    change memWait _ _ _ _ = _
    rw [memWait, ha, hd]
    rfl

end Waiting

/-- A cycle of a burst of client `l` goes on with it, or ends it; a fetch leaves the memory, and
an enabled cycle counts. -/
inductive Bursts {n : ℕ} (b b' : StupidBuffer) (bus bus' : SharedBus n) (l : Fin (n + 1))
    (m' : Memory) (enable : Bool) : Prop
  | goes (j : ℕ) (beat : j ≤ 15) (same : b'.state = b.state) (held : bus'.Held l b'.creq j)
    (holds : b'.Holds (translate b'.req.addr) bus'.device.mem m' j)
    (counts : bus'.burst + (if enable then 1 else 0) ≤ bus.burst)
    (fetched : b.state = .fetch → bus'.device.mem = bus.device.mem)
  | ends (state : b'.state = if b.state = .fetch then .ready else .idle) (free : bus'.Free)
    (holds : b'.Holds (translate b'.req.addr) bus'.device.mem m' 0) (counts : bus.burst = 1)
    (fetched : b.state = .fetch → bus'.device.mem = bus.device.mem)

theorem SharedBus.Open.bursts {n : ℕ} {b : StupidBuffer} {bus : SharedBus n} {l : Fin (n + 1)}
    {ireqs : Fin (n + 1) → CBusReq} {m' : Memory} {j : ℕ} (h : bus.Open l b.creq j)
    (hh : b.Holds (translate b.req.addr) bus.device.mem m' j) (hv : b.creq.valid = true)
    (hj : j ≤ 15) (hl : ireqs l = b.creq)
    (ho : bus.arbiter.busy = false → ∀ k, l < k → (ireqs k).valid = false) (dreq : DBusReq)
    (enable : Bool) :
    Bursts b (b.next dreq (bus.iresps ireqs enable l)) bus (bus.next ireqs enable) l m' enable := by
  have hne := StupidBuffer.ne_idle_of_valid hv
  have hs := h.serves enable hl hv hj ho
  have hc := h.burst_next enable hl hv hj rfl ho
  have ht := hh.transfers dreq hv hj hs.beats ((isLine_translated b).base_beat j)
  have hreq := StupidBuffer.next_req dreq (bus.iresps ireqs enable l) hne
  have hattr : (b.next dreq (bus.iresps ireqs enable l)).state = b.state →
      (b.next dreq (bus.iresps ireqs enable l)).creq.attributes = b.creq.attributes := by
    intro hst
    simp only [CBusReq.attributes, StupidBuffer.creq, hst, hreq]
  have hf : b.state = .fetch → (bus.next ireqs enable).device.mem = bus.device.mem := by
    intro hf
    have hw : (translated b.creq).isWrite = false := by
      change (b.state == .flush) = false
      rw [hf]
      rfl
    cases hr : (bus.iresps ireqs enable l).ready with
    | false => exact (hs.beats.silent hr).2
    | true => exact (hs.beats.read hr hw).2
  rw [← hreq] at ht
  cases hr : (bus.iresps ireqs enable l).ready with
  | false =>
    obtain ⟨hst, hh⟩ := ht.silent hr
    rw [if_neg (by simp [hr])] at hc
    exact .goes j hj hst ((hs.silent hr).congr (hattr hst)) hh hc hf
  | true =>
    rcases Nat.lt_or_eq_of_le hj with hlt | rfl
    · obtain ⟨hst, hh⟩ := ht.beat hr hlt
      rw [if_neg (by omega)] at hc
      exact .goes (j + 1) hlt hst ((hs.beat hr hlt).congr (hattr hst)) hh hc hf
    · obtain ⟨hst, hh⟩ := ht.last hr rfl
      rw [if_pos ⟨hr, rfl⟩] at hc
      exact .ends hst (hs.last hr rfl) hh hc hf

namespace VTop

variable {s : VTop} {i : VTopInput} {ki kd : ℕ}

section Phases

/-- A free bus is nobody's; only behind a store a line waits for it. -/
theorem owner_of_free (hf : s.bus.Free)
    (hc : s.dcvt0.state = .flush → s.icvt.state = .idle ∧ s.ctx.state = .commit) :
    s.Owner 0 0 := by
  have ho : ∀ k req, s.bus.Open k req 0 := fun _ _ => Or.inr ⟨hf, rfl⟩
  unfold Owner
  split
  case h_1 hi hd =>
    rw [(hc hd).1] at hi
    cases hi
  case h_4 hi hd =>
    rw [(hc hd).1] at hi
    cases hi
  case h_5 => exact ⟨ho _ _, fun _ => (hc ‹_›).2⟩
  case h_6 =>
    split
    · exact ho _ _
    · exact hf
  all_goals exact ho _ _

theorem inv_reset (mem : Memory) : (reset mem).Inv 0 0 where
  ibeat := Nat.zero_le 15
  dbeat := Nat.zero_le 15
  iholds := rfl
  dholds := rfl
  owner := owner_of_free ⟨rfl, rfl⟩ fun h => by cases h
  core := Machine.inv_reset mem
  inst := rfl
  data := trivial
  lost h := absurd h Bool.false_ne_true

theorem Inv.mem_eq (h : s.Inv ki kd) (hs : s.dcvt0.state = .idle) : s.mem = s.bus.device.mem := by
  have hh := h.dholds
  simp only [StupidBuffer.Holds, hs] at hh
  exact hh

theorem Inv.ipend_eq (h : s.Inv ki kd) (hs : s.icvt.state ≠ .idle) :
    s.ipend = some s.icvt.req ∧ s.icvt.req.strobe = 0#4 := by
  have hi := h.inst
  unfold InstSide at hi
  split at hi
  · contradiction
  · exact hi
  · exact hi
  · exact hi.elim

/-- The buffer of the instruction bus is at work while the core waits for it. -/
theorem Inv.fetching (h : s.Inv ki kd) (hs : s.icvt.state ≠ .idle) :
    s.ctx.state = .fetchAddrSent := by
  by_contra hc
  have hn := (h.ipend_eq hs).1
  rw [Machine.inst_none h.core.inst hc] at hn
  cases hn

theorem Inv.accessing (h : s.Inv ki kd) (hs : s.dcvt0.state = .fetch ∨ s.dcvt0.state = .ready) :
    s.dpend = some s.dcvt0.req ∧
      (s.ctx.state = .loadAddrSent ∨ s.ctx.state = .storeAddrSent) := by
  have hd : s.dpend = some s.dcvt0.req := by
    have hd := h.data
    unfold DataSide at hd
    rcases hs with hs | hs <;> rw [hs] at hd <;> exact hd
  refine ⟨hd, ?_⟩
  by_contra hc
  rw [not_or] at hc
  rw [Machine.data_none h.core.data hc.1 hc.2] at hd
  cases hd

theorem dreq_of_waits (hs : s.ctx.state.waits = true) : s.ctx.dreq = default := by
  apply Context.dreq_of_not_valid
  exact Context.dreq_valid (fun hl => by rw [hl] at hs; cases hs)
    (fun hl => by rw [hl] at hs; cases hs)

/-- The core asks for nothing while the buffer of the data bus is at work. -/
theorem Inv.dreq_eq (h : s.Inv ki kd) (hs : s.dcvt0.state ≠ .idle) : s.ctx.dreq = default := by
  have hd := h.data
  unfold DataSide at hd
  cases hs' : s.dcvt0.state with
  | idle => contradiction
  | flush =>
    rw [hs'] at hd
    exact Context.dreq_of_calm hd
  | fetch =>
    refine dreq_of_waits ?_
    rcases (h.accessing (Or.inl hs')).2 with hw | hw <;> rw [hw] <;> rfl
  | ready =>
    refine dreq_of_waits ?_
    rcases (h.accessing (Or.inr hs')).2 with hw | hw <;> rw [hw] <;> rfl

theorem uncached_of_default (hd : s.ctx.dreq = default) : s.uncached = false := by
  rw [uncached, hd]
  rfl

/-- A request of `kseg1` is one. -/
theorem dreq_of_uncached (hu : s.uncached = true) : s.ctx.dreq.valid = true := by
  by_contra hv
  rw [uncached_of_default (Context.dreq_of_not_valid (Bool.eq_false_iff.2 hv))] at hu
  cases hu

theorem dresp_of_cached (hu : s.uncached = false) : s.dresp i = s.dcvt0.dresp := by
  rw [dresp, hu]
  exact if_neg Bool.false_ne_true

theorem dresp_of_uncached (hu : s.uncached = true) :
    s.dresp i = s.dcvt1.dresp (s.iresps i 0) := by
  rw [dresp, dcresp1, hu]
  rfl

/-- A request of `kseg1` gets no data with its acceptance. -/
theorem Inv.dataOk_of_uncached (h : s.Inv ki kd) (hu : s.uncached = true) :
    (s.dresp i).dataOk = false := by
  rw [dresp_of_uncached hu]
  by_contra hd
  have hl := h.lost (Bool.not_eq_false _ ▸ hd)
  have hw : s.ctx.dreq = default := dreq_of_waits (by rcases hl with hl | hl <;> rw [hl] <;> rfl)
  rw [uncached_of_default hw] at hu
  cases hu

/-- The two buffers are not both at work, but for a line that is written back. -/
theorem Inv.icvt_idle (h : s.Inv ki kd) (hs : s.dcvt0.state = .fetch ∨ s.dcvt0.state = .ready) :
    s.icvt.state = .idle := by
  by_contra hi
  have hf := h.fetching hi
  rcases (h.accessing hs).2 with hw | hw <;> rw [hf] at hw <;> cases hw

theorem Inv.dcvt0_idle (h : s.Inv ki kd) (hs : s.icvt.state = .ready) : s.dcvt0.state = .idle := by
  cases hd : s.dcvt0.state with
  | idle => rfl
  | fetch =>
    have hi := h.icvt_idle (Or.inl hd)
    rw [hs] at hi
    cases hi
  | ready =>
    have hi := h.icvt_idle (Or.inr hd)
    rw [hs] at hi
    cases hi
  | flush =>
    have ho := h.owner
    simp only [Owner, hs, hd] at ho

end Phases

/-- What the buffers answer is what lies in the memory. -/
theorem Inv.fair (h : s.Inv ki kd) (hr : s.ctx.Regular) : s.toMachine.Fair (s.input i) where
  honest := {
    inst := by
      intro q hq hstr
      change s.ipend.answered _ s.icvt.dresp = some q at hq
      by_cases hs : s.icvt.state = .ready
      · have hne : s.icvt.state ≠ .idle := by simp [hs]
        rw [(h.ipend_eq hne).1, StupidBuffer.answered_of_ready _ hs] at hq
        obtain rfl := Option.some.inj hq
        rw [h.mem_eq (h.dcvt0_idle hs)]
        exact h.iholds.answer hs hstr
      · rw [StupidBuffer.answered_of_ne _ _ hs] at hq
        cases hq
    data := by
      intro q hq hstr
      change s.dpend.answered _ (s.dresp i) = some q at hq
      change (s.dresp i).data = _
      cases hu : s.uncached with
      | true =>
        rw [Pending.answered, h.dataOk_of_uncached hu] at hq
        cases hq
      | false =>
        rw [dresp_of_cached hu] at hq ⊢
        by_cases hs : s.dcvt0.state = .ready
        · rw [(h.accessing (Or.inr hs)).1, StupidBuffer.answered_of_ready _ hs] at hq
          obtain rfl := Option.some.inj hq
          exact h.dholds.answer hs hstr
        · rw [StupidBuffer.answered_of_ne _ _ hs] at hq
          cases hq }
  regular := hr

section Sides

theorem Inv.step_inst (h : s.Inv ki kd) : (s.step i).InstSide := by
  change InstSide { s with
    ipend := s.ipend.next s.ctx.ireq.toDreq s.icvt.dresp
    icvt := s.icvt.next s.ctx.ireq.toDreq (s.iresps i 1) }
  cases hs : s.icvt.state with
  | idle =>
    have hi := h.inst
    simp only [InstSide, hs] at hi
    cases hv : s.ctx.ireq.toDreq.valid with
    | true =>
      simp only [InstSide, StupidBuffer.next_of_request hs hv, hi, StupidBuffer.pend_of_idle _ hs,
        hv, if_true, true_and]
      rfl
    | false =>
      simp only [InstSide, StupidBuffer.next, hs, hv, Bool.false_eq_true, if_false, hi,
        StupidBuffer.pend_of_idle _ hs]
  | fetch =>
    have hne : s.icvt.state ≠ .idle := by simp [hs]
    have hp := h.ipend_eq hne
    have hreq := StupidBuffer.next_req s.ctx.ireq.toDreq (s.iresps i 1) hne
    have hn := StupidBuffer.next_of_fetch s.ctx.ireq.toDreq (s.iresps i 1) hs
    unfold InstSide
    simp only [hreq, StupidBuffer.pend_of_busy _ _ (StupidBuffer.valid_iff.2 (Or.inl hs))]
    rw [hn]
    dsimp only
    cases (s.iresps i 1).ready && (s.iresps i 1).last <;> exact hp
  | ready =>
    have hp := h.ipend_eq (s := s) (by simp [hs])
    have hn := (h.iholds.ready_next s.ctx.ireq.toDreq (s.iresps i 1) hs).1
    rw [hp.2] at hn
    have hn' : (s.icvt.next s.ctx.ireq.toDreq (s.iresps i 1)).state = .idle := hn
    simp only [InstSide, hn', StupidBuffer.pend_of_ready _ _ hs]
  | flush =>
    have hi := h.inst
    simp only [InstSide, hs] at hi

/-- A store is over when its line has come. -/
theorem Inv.step_commit (h : s.Inv ki kd) (hs : s.dcvt0.state = .ready)
    (hz : s.dcvt0.req.strobe ≠ 0#4) : (s.step i).ctx.state = .commit := by
  have hne : s.dcvt0.state ≠ .idle := by simp [hs]
  have hu := uncached_of_default (h.dreq_eq hne)
  obtain ⟨hp, hw⟩ := h.accessing (Or.inr hs)
  have hst : s.ctx.state = .storeAddrSent := by
    refine hw.resolve_left fun hl => hz ?_
    have hd := h.core.data
    simp only [Machine.DataPort, hl] at hd
    obtain ⟨q, hq, -, hstr⟩ := hd
    rw [hp] at hq
    obtain rfl := Option.some.inj hq
    exact hstr
  have hok : (s.dresp i).dataOk = true := by
    rw [dresp_of_cached hu]
    exact StupidBuffer.dataOk_of_ready hs
  change (s.ctx.next (s.input i)).state = _
  rw [Context.next_state, Context.out, hst]
  exact if_pos hok

theorem Inv.step_data (h : s.Inv ki kd) : (s.step i).DataSide := by
  change DataSide { s with
    ctx := s.ctx.next (s.input i)
    dpend := s.dpend.next s.ctx.dreq (s.dresp i)
    dcvt0 := s.dcvt0.next (if s.uncached then default else s.ctx.dreq) (s.dcresp0 i) }
  cases hs : s.dcvt0.state with
  | idle =>
    cases hv : (if s.uncached then default else s.ctx.dreq).valid with
    | true =>
      have hu : s.uncached = false := by
        by_contra hu
        rw [if_pos (Bool.not_eq_false _ ▸ hu)] at hv
        cases hv
      rw [hu] at hv ⊢
      have hv : s.ctx.dreq.valid = true := hv
      simp only [DataSide, Bool.false_eq_true, if_false, StupidBuffer.next_of_request hs hv,
        dresp_of_cached hu, h.core.dreq_valid hv, StupidBuffer.pend_of_idle _ hs]
      exact if_pos hv
    | false =>
      simp only [DataSide, StupidBuffer.next, hs, hv, Bool.false_eq_true, if_false]
  | fetch =>
    have hne : s.dcvt0.state ≠ .idle := by simp [hs]
    have hu := uncached_of_default (h.dreq_eq hne)
    have hp := (h.accessing (Or.inl hs)).1
    have hn := StupidBuffer.next_of_fetch s.ctx.dreq (s.dcresp0 i) hs
    unfold DataSide
    simp only [hu, Bool.false_eq_true, if_false, dresp_of_cached hu,
      StupidBuffer.pend_of_busy _ _ (StupidBuffer.valid_iff.2 (Or.inl hs))]
    rw [hn]
    dsimp only
    cases (s.dcresp0 i).ready && (s.dcresp0 i).last <;> exact hp
  | ready =>
    have hne : s.dcvt0.state ≠ .idle := by simp [hs]
    have hu := uncached_of_default (h.dreq_eq hne)
    have hn := (h.dholds.ready_next s.ctx.dreq (s.dcresp0 i) hs).1
    unfold DataSide
    simp only [hu, Bool.false_eq_true, if_false]
    rw [hn]
    by_cases hz : s.dcvt0.req.strobe = 0#4
    · rw [if_neg (not_not_intro hz)]
      trivial
    · have hc : (s.ctx.next (s.input i)).state = .commit := h.step_commit hs hz
      rw [if_pos hz, hc]
      rfl
  | flush =>
    have hd := h.data
    simp only [DataSide, hs] at hd
    have hi : s.icvt.dresp.dataOk = false := by
      refine beq_eq_false_iff_ne.2 fun hi => ?_
      have hd := h.dcvt0_idle hi
      rw [hs] at hd
      cases hd
    have hc := CpuState.calm_next (i := s.input i) hd hi
    have hn := StupidBuffer.next_of_flush (if s.uncached then default else s.ctx.dreq)
      (s.dcresp0 i) hs
    unfold DataSide
    simp only [hn]
    cases (s.dcresp0 i).ready && (s.dcresp0 i).last
    · exact hc
    · trivial

/-- The answer that the converter has is lost when the core waits for it. -/
theorem Inv.step_lost (h : s.Inv ki kd) (ho : (s.step i).dcvt1.dataOk = true) :
    (s.step i).ctx.state = .loadAddrSent ∨ (s.step i).ctx.state = .storeAddrSent := by
  change DBusToCBus.okay (s.dcresp1 i) = true at ho
  cases hu : s.uncached with
  | false =>
    rw [dcresp1, hu] at ho
    cases ho
  | true =>
    refine Context.next_of_sent (Context.state_of_dreq (dreq_of_uncached hu)) ?_
      (h.dataOk_of_uncached hu)
    change (s.dresp i).addrOk = true
    rw [dresp_of_uncached hu]
    rw [dcresp1, hu] at ho
    exact ho

end Sides

section Transport

theorem ireqs_of_lt {l : Fin 4} (h : 1 < l) : (s.ireqs l).valid = false := by
  match l with
  | 0 => exact absurd h (by decide)
  | 1 => exact absurd h (by decide)
  | 2 => rfl
  | 3 => rfl

/-- Nobody stands before the data bus while the buffer of the instruction bus is idle. -/
theorem ireqs_of_idle (hi : s.icvt.state = .idle) {l : Fin 4} (hl : 0 < l) :
    (s.ireqs l).valid = false := by
  rcases (Fin.one_le_of_ne_zero hl.ne').lt_or_eq with hlt | heq
  · exact ireqs_of_lt hlt
  · rw [← heq]
    exact StupidBuffer.creq_of_idle hi

theorem ireqs_zero (hu : s.uncached = false) : s.ireqs 0 = s.dcvt0.creq := by
  change s.dcreq = _
  rw [dcreq, hu]
  exact if_neg Bool.false_ne_true

/-- Nobody asks. -/
theorem ireqs_silent (hu : s.uncached = false) (hd : s.dcvt0.creq.valid = false)
    (hi : s.icvt.creq.valid = false) (l : Fin 4) : (s.ireqs l).valid = false := by
  match l with
  | 0 =>
    rw [ireqs_zero hu]
    exact hd
  | 1 => exact hi
  | 2 => rfl
  | 3 => rfl

/-- Without a request the bus is free, and stays so. -/
theorem Inv.free_of_quiet (h : s.Inv ki kd) (hu : s.uncached = false)
    (hd : s.dcvt0.creq.valid = false) (hi : s.icvt.creq.valid = false) (i : VTopInput) :
    s.bus.Free ∧ (s.step i).bus.Free := by
  have hfree : s.bus.Free := by
    have ho := h.owner
    have hd' : s.dcvt0.state = .idle ∨ s.dcvt0.state = .ready := by
      cases hs : s.dcvt0.state <;> simp [StupidBuffer.creq, hs] at hd ⊢
    cases hs : s.icvt.state with
    | fetch => simp [StupidBuffer.creq, hs] at hi
    | _ =>
      rcases hd' with hd' | hd' <;>
        simp only [Owner, hs, hd', hu, Bool.false_eq_true, if_false] at ho <;> exact ho
  exact ⟨hfree, hfree.next (ireqs_silent hu hd hi)⟩

theorem step_dcvt0 (hu : s.uncached = false) :
    (s.step i).dcvt0 = s.dcvt0.next s.ctx.dreq (s.dcresp0 i) := by
  simp only [step, hu, Bool.false_eq_true, if_false]

theorem step_mem_of_default (hd : s.ctx.dreq = default) : (s.step i).mem = s.mem := by
  change performed s.mem (s.dpend.accepted s.ctx.dreq (s.dresp i)) = s.mem
  rw [hd, Pending.accepted_of_not_valid rfl]
  rfl

/-- The buffer of the instruction bus while somebody else has the bus. -/
theorem Inv.icvt_unserved (h : s.Inv ki kd) (hr : s.icvt.state ≠ .ready)
    (hk : s.icvt.state = .fetch → ki = 0) (hresp : s.iresps i 1 = default) (m : Memory) :
    ((s.step i).icvt.state = .idle ∨ (s.step i).icvt.state = .fetch) ∧
      (s.step i).icvt.Holds (translate (s.step i).icvt.req.addr) m m 0 ∧
      (s.icvt.state = .idle → s.ctx.ireq.valid = false → (s.step i).icvt.state = .idle) := by
  have hstep : (s.step i).icvt = s.icvt.next s.ctx.ireq.toDreq default := by
    rw [← hresp]
    rfl
  rw [hstep]
  cases hs : s.icvt.state with
  | idle =>
    cases hv : s.ctx.ireq.toDreq.valid with
    | true =>
      have hn : s.icvt.next s.ctx.ireq.toDreq default = { s.icvt with
          state := .fetch
          req := s.ctx.ireq.toDreq
          offset := lineOffset s.ctx.ireq.toDreq.addr } := StupidBuffer.next_of_request hs hv
      refine ⟨Or.inr (by rw [hn]), ?_, fun _ hf => ?_⟩
      · rw [show (s.icvt.next s.ctx.ireq.toDreq default).req = s.ctx.ireq.toDreq by rw [hn]]
        exact StupidBuffer.holds_of_request hs hv (lineOffset_translate _) rfl
      · rw [show s.ctx.ireq.valid = true from hv] at hf
        cases hf
    | false =>
      have hn : (s.icvt.next s.ctx.ireq.toDreq default).state = .idle := by
        simp only [StupidBuffer.next, hs, hv, Bool.false_eq_true, if_false]
      exact ⟨Or.inl hn, StupidBuffer.holds_of_idle hn rfl, fun _ _ => hn⟩
  | fetch =>
    have hne : s.icvt.state ≠ .idle := by simp [hs]
    have hh := h.iholds
    rw [hk hs] at hh
    simp only [StupidBuffer.Holds, hs] at hh
    have hm : m = merged m (translate s.icvt.req.addr) s.icvt.req :=
      (if_pos (h.ipend_eq hne).2).symm
    rw [StupidBuffer.next_of_fetch _ _ hs]
    exact ⟨Or.inr rfl, ⟨hh.1, fun j hj => absurd hj (Nat.not_lt_zero j), hm⟩,
      fun hi => by cases hi⟩
  | ready => exact absurd hs hr
  | flush =>
    have hi := h.inst
    simp only [InstSide, hs] at hi

/-- The bus is that of the data bus during its bursts. -/
theorem Inv.owner_of_burst (h : s.Inv ki kd) (hv : s.dcvt0.creq.valid = true) :
    s.bus.Open 0 s.dcvt0.creq kd ∧ (s.icvt.state = .fetch → ki = 0) ∧
      (s.bus.arbiter.busy = false → s.icvt.state = .idle ∧
        (s.dcvt0.state = .flush → s.ctx.state = .commit)) := by
  have ho := h.owner
  rcases StupidBuffer.valid_iff.1 hv with hs | hs
  · have hi := h.icvt_idle (Or.inl hs)
    simp only [Owner, hs, hi] at ho
    refine ⟨ho, fun hf => ?_, fun _ => ⟨hi, fun hf => ?_⟩⟩
    · rw [hi] at hf
      cases hf
    · rw [hs] at hf
      cases hf
  · cases hi : s.icvt.state with
    | idle =>
      simp only [Owner, hs, hi] at ho
      exact ⟨ho.1, BufferState.noConfusion, fun hb => ⟨rfl, fun _ => ho.2 hb⟩⟩
    | fetch =>
      simp only [Owner, hs, hi] at ho
      refine ⟨Or.inl ho.1, fun _ => ho.2, fun hb => ?_⟩
      rw [ho.1.busy] at hb
      cases hb
    | ready => simp only [Owner, hs, hi] at ho
    | flush =>
      have hf := h.inst
      simp only [InstSide, hi] at hf

/-- A cycle in which the buffer of the data bus has a burst. -/
theorem Inv.data_burst (h : s.Inv ki kd) (hv : s.dcvt0.creq.valid = true) (i : VTopInput) :
    Bursts s.dcvt0 (s.step i).dcvt0 s.bus (s.step i).bus 0 (s.step i).mem i.enable ∧
      s.iresps i 1 = default := by
  have hd := h.dreq_eq (StupidBuffer.ne_idle_of_valid hv)
  have hu := uncached_of_default hd
  obtain ⟨ho, -, hbusy⟩ := h.owner_of_burst hv
  have hfirst : s.bus.arbiter.busy = false → ∀ l, 0 < l → (s.ireqs l).valid = false :=
    fun hb l hl => ireqs_of_idle (hbusy hb).1 hl
  have hn : (s.step i).dcvt0 = s.dcvt0.next s.ctx.dreq (s.bus.iresps s.ireqs i.enable 0) := by
    rw [step_dcvt0 hu, dcresp0, hu]
    rfl
  rw [hn, step_mem_of_default hd]
  exact ⟨ho.bursts h.dholds hv h.dbeat (ireqs_zero hu) hfirst s.ctx.dreq i.enable,
    (ho.serves i.enable (ireqs_zero hu) hv h.dbeat hfirst).others 1 (by decide)⟩

theorem Inv.icvt_of_data (h : s.Inv ki kd) (hv : s.dcvt0.creq.valid = true) (i : VTopInput) :
    ((s.step i).icvt.state = .idle ∨ (s.step i).icvt.state = .fetch) ∧
      (s.step i).icvt.Holds (translate (s.step i).icvt.req.addr) (s.step i).bus.device.mem
        (s.step i).bus.device.mem 0 ∧
      (s.icvt.state = .idle → s.ctx.ireq.valid = false → (s.step i).icvt.state = .idle) := by
  exact h.icvt_unserved (fun hi => StupidBuffer.ne_idle_of_valid hv (h.dcvt0_idle hi)) (h.owner_of_burst hv).2.1
    (h.data_burst hv i).2 _

theorem Context.ireq_of_waits {ctx : Context}
    (hs : ctx.state = .loadAddrSent ∨ ctx.state = .storeAddrSent) : ctx.ireq.valid = false := by
  unfold Context.ireq
  rcases hs with hs | hs <;> rw [hs] <;> rfl

theorem Inv.lines_burst (h : s.Inv ki kd) (hv : s.dcvt0.creq.valid = true) :
    ∃ ki kd, (s.step i).Lines ki kd := by
  have hs := StupidBuffer.valid_iff.1 hv
  obtain ⟨hi1, hi2, hi3⟩ := h.icvt_of_data hv i
  cases (h.data_burst hv i).1 with
  | goes j hj hst hheld hh =>
    refine ⟨0, j, Nat.zero_le 15, hj, hi2, hh, ?_⟩
    unfold Owner
    rw [hst]
    rcases hs with hs | hs
    · rw [hi3 (h.icvt_idle (Or.inl hs)) (Context.ireq_of_waits (h.accessing (Or.inl hs)).2), hs]
      exact Or.inl hheld
    · rw [hs]
      rcases hi1 with hi1 | hi1 <;> rw [hi1]
      · exact ⟨Or.inl hheld, fun hf => absurd (hf.symm.trans hheld.busy) Bool.false_ne_true⟩
      · exact ⟨hheld, rfl⟩
  | ends hst hfree hh =>
    refine ⟨0, 0, Nat.zero_le 15, Nat.zero_le 15, hi2, hh, owner_of_free hfree fun hf => ?_⟩
    rw [hst] at hf
    rcases hs with hs | hs <;> rw [hs] at hf <;> cases hf

/-- A line of the data bus that has come, or been merged. -/
theorem Inv.lines_ready (h : s.Inv ki kd) (hs : s.dcvt0.state = .ready) :
    ∃ ki kd, (s.step i).Lines ki kd := by
  have hne : s.dcvt0.state ≠ .idle := by simp [hs]
  have hd := h.dreq_eq hne
  have hu := uncached_of_default hd
  have hidle := h.icvt_idle (Or.inr hs)
  obtain ⟨hfree, hfree'⟩ := h.free_of_quiet hu (StupidBuffer.creq_of_ready hs)
    (StupidBuffer.creq_of_idle hidle) i
  have hdev : (s.step i).bus.device = s.bus.device := hfree.device_next
  have hv := Context.ireq_of_waits (h.accessing (Or.inr hs)).2
  obtain ⟨-, hi2, hi3⟩ := h.icvt_unserved (i := i) (by simp [hidle])
    (fun hf => by rw [hidle] at hf; cases hf) (hfree.iresps 1) (s.step i).bus.device.mem
  obtain ⟨hst, hh⟩ := h.dholds.ready_next s.ctx.dreq (s.dcresp0 i) hs
  have hn := step_dcvt0 (i := i) hu
  have hreq := StupidBuffer.next_req s.ctx.dreq (s.dcresp0 i) hne
  rw [← hn] at hst hh hreq
  refine ⟨0, 0, Nat.zero_le 15, Nat.zero_le 15, hi2, ?_,
    owner_of_free hfree' fun hf => ⟨hi3 hidle hv, h.step_commit hs fun hz => ?_⟩⟩
  · rw [hreq, hdev, step_mem_of_default hd]
    exact hh
  · rw [hf, if_neg (not_not_intro hz)] at hst
    cases hst

/-- The buffer of the data bus stays idle when it is not asked. -/
theorem dcvt0_of_default (hs : s.dcvt0.state = .idle) (hd : s.ctx.dreq = default) :
    (s.step i).dcvt0.state = .idle := by
  change (s.dcvt0.next (if s.uncached then default else s.ctx.dreq) (s.dcresp0 i)).state = .idle
  rw [hd, ite_self]
  simp only [StupidBuffer.next, hs]
  rfl

/-- A cycle in which a line of instructions comes. -/
theorem Inv.inst_burst (h : s.Inv ki kd) (hs : s.dcvt0.state = .idle)
    (hi : s.icvt.state = .fetch) (i : VTopInput) :
    Bursts s.icvt (s.step i).icvt s.bus (s.step i).bus 1 s.bus.device.mem i.enable := by
  have ho : s.bus.Open 1 s.icvt.creq ki := by
    have ho := h.owner
    simp only [Owner, hs, hi] at ho
    exact ho
  exact ho.bursts h.iholds (StupidBuffer.valid_iff.2 (Or.inl hi)) h.ibeat
    (rfl : s.ireqs 1 = s.icvt.creq) (fun _ l hl => ireqs_of_lt hl) s.ctx.ireq.toDreq i.enable

theorem Inv.dreq_of_fetching (h : s.Inv ki kd) (hi : s.icvt.state ≠ .idle) :
    s.ctx.dreq = default :=
  dreq_of_waits (by rw [h.fetching hi]; rfl)

theorem Inv.lines_fetch (h : s.Inv ki kd) (hs : s.dcvt0.state = .idle)
    (hi : s.icvt.state = .fetch) : ∃ ki kd, (s.step i).Lines ki kd := by
  have hd := h.dreq_of_fetching (by simp [hi])
  have hidle := dcvt0_of_default (i := i) hs hd
  have hdh : (s.step i).bus.device.mem = s.bus.device.mem →
      (s.step i).dcvt0.Holds (translate (s.step i).dcvt0.req.addr) (s.step i).bus.device.mem
        (s.step i).mem 0 := by
    intro hmem
    refine StupidBuffer.holds_of_idle hidle ?_
    rw [step_mem_of_default hd, h.mem_eq hs, hmem]
  cases h.inst_burst hs hi i with
  | goes j hj hst hheld hh _ hmem =>
    rw [← hmem hi] at hh
    refine ⟨j, 0, hj, Nat.zero_le 15, hh, hdh (hmem hi), ?_⟩
    have hst' : (s.step i).icvt.state = .fetch := hst.trans hi
    simp only [Owner, hst', hidle]
    exact Or.inl hheld
  | ends hst hfree hh _ hmem =>
    rw [← hmem hi] at hh
    refine ⟨0, 0, Nat.zero_le 15, Nat.zero_le 15, hh, hdh (hmem hi),
      owner_of_free hfree fun hf => ?_⟩
    rw [hidle] at hf
    cases hf

/-- A line of instructions that has come. -/
theorem Inv.lines_fetched (h : s.Inv ki kd) (hi : s.icvt.state = .ready) :
    ∃ ki kd, (s.step i).Lines ki kd := by
  have hs := h.dcvt0_idle hi
  have hd := h.dreq_of_fetching (by simp [hi])
  have hu := uncached_of_default hd
  obtain ⟨hfree, hfree'⟩ := h.free_of_quiet hu (StupidBuffer.creq_of_idle hs)
    (StupidBuffer.creq_of_ready hi) i
  have hdev : (s.step i).bus.device = s.bus.device := hfree.device_next
  have hidle := dcvt0_of_default (i := i) hs hd
  obtain ⟨-, hh⟩ := h.iholds.ready_next s.ctx.ireq.toDreq (s.iresps i 1) hi
  have hreq := StupidBuffer.next_req s.ctx.ireq.toDreq (s.iresps i 1)
    (show s.icvt.state ≠ .idle by simp [hi])
  refine ⟨0, 0, Nat.zero_le 15, Nat.zero_le 15, ?_, ?_,
    owner_of_free hfree' fun hf => ?_⟩
  · rw [hdev]
    change (s.icvt.next s.ctx.ireq.toDreq (s.iresps i 1)).Holds
      (translate (s.icvt.next s.ctx.ireq.toDreq (s.iresps i 1)).req.addr) _ _ 0
    rw [hreq]
    exact hh
  · refine StupidBuffer.holds_of_idle hidle ?_
    rw [step_mem_of_default hd, hdev, h.mem_eq hs]
  · rw [hidle] at hf
    cases hf

/-- Two idle buffers, of which either may take a request. -/
theorem Inv.lines_idle (h : s.Inv ki kd) (hs : s.dcvt0.state = .idle) (hi : s.icvt.state = .idle)
    (hu : s.uncached = false) : ∃ ki kd, (s.step i).Lines ki kd := by
  obtain ⟨hfree, hfree'⟩ := h.free_of_quiet hu (StupidBuffer.creq_of_idle hs)
    (StupidBuffer.creq_of_idle hi) i
  have hdev : (s.step i).bus.device = s.bus.device := hfree.device_next
  obtain ⟨-, hi2, -⟩ := h.icvt_unserved (i := i) (by simp [hi])
    (fun hf => by rw [hi] at hf; cases hf) (hfree.iresps 1) (s.step i).bus.device.mem
  have hn := step_dcvt0 (i := i) hu
  have hmem : (s.step i).mem = performed s.mem (s.dpend.accepted s.ctx.dreq s.dcvt0.dresp) := by
    rw [← dresp_of_cached hu]
    rfl
  cases hv : s.ctx.dreq.valid with
  | false =>
    have hidle := dcvt0_of_default (i := i) hs (Context.dreq_of_not_valid hv)
    refine ⟨0, 0, Nat.zero_le 15, Nat.zero_le 15, hi2, StupidBuffer.holds_of_idle hidle ?_,
      owner_of_free hfree' fun hf => ?_⟩
    · rw [step_mem_of_default (Context.dreq_of_not_valid hv), hdev, h.mem_eq hs]
    · rw [hidle] at hf
      cases hf
  | true =>
    rw [h.core.dreq_valid hv, StupidBuffer.accepted_of_idle _ hs, hv, if_pos rfl,
      performed_eq_merged, h.mem_eq hs, ← hdev] at hmem
    have hreq : (s.step i).dcvt0.req = s.ctx.dreq := by
      rw [hn, StupidBuffer.next_of_request hs hv]
    refine ⟨0, 0, Nat.zero_le 15, Nat.zero_le 15, hi2, ?_,
      owner_of_free hfree' fun hf => ?_⟩
    · rw [hreq, hn]
      exact StupidBuffer.holds_of_request hs hv (lineOffset_translate _) hmem
    · rw [hn, StupidBuffer.next_of_request hs hv] at hf
      cases hf

/-- The memory behind the bus when a request of one word has been served. -/
theorem performed_of_beats {m m' : Memory} {req : DBusReq} {resp : CBusResp}
    (h : CBusDevice.Beats m (AxiTransaction.beat (translated (DBusToCBus.dcreq req)) 0).addr
      (translated (DBusToCBus.dcreq req)) 0 resp m') (hr : resp.ready = true) :
    performed m (some req) = m' := by
  by_cases hz : req.strobe = 0#4
  · have hw : (translated (DBusToCBus.dcreq req)).isWrite = false := by
      change (req.strobe != 0#4) = false
      rw [hz]
      rfl
    rw [(h.read hr hw).2]
    exact if_pos hz
  · have hw : (translated (DBusToCBus.dcreq req)).isWrite = true := bne_iff_ne.2 hz
    rw [h.write hr hw]
    exact if_neg hz

theorem ireqs_of_uncached (hu : s.uncached = true) :
    s.ireqs 0 = DBusToCBus.dcreq s.ctx.dreq := by
  change s.dcreq = _
  rw [dcreq, hu]
  rfl

/-- The buffers are idle during a request of `kseg1`. -/
theorem Inv.phase_of_uncached (h : s.Inv ki kd) (hu : s.uncached = true) :
    s.dcvt0.state = .idle ∧ s.icvt.state = .idle ∧
      s.bus.Open 0 (DBusToCBus.dcreq s.ctx.dreq) 0 := by
  have hst := Context.state_of_dreq (dreq_of_uncached hu)
  have hs : s.dcvt0.state = .idle := by
    by_contra hs
    rw [uncached_of_default (h.dreq_eq hs)] at hu
    cases hu
  have hi : s.icvt.state = .idle := by
    by_contra hi
    have hf := h.fetching hi
    rcases hst with hst | hst <;> rw [hf] at hst <;> cases hst
  have ho := h.owner
  simp only [Owner, hs, hi, hu, if_true] at ho
  exact ⟨hs, hi, ho⟩

theorem addrOk_of_uncached (hu : s.uncached = true) :
    (s.dresp i).addrOk = DBusToCBus.okay (s.iresps i 0) := by
  rw [dresp_of_uncached hu]
  rfl

/-- A request of `kseg1` that is not accepted is asked for again. -/
theorem dreq_of_not_okay (hu : s.uncached = true)
    (hno : DBusToCBus.okay (s.iresps i 0) = false) :
    (s.step i).ctx.dreq = s.ctx.dreq ∧ (s.step i).uncached = true := by
  have hd : (s.step i).ctx.dreq = s.ctx.dreq :=
    (Context.next_of_waiting (i := s.input i) (Context.state_of_dreq (dreq_of_uncached hu))
      ((addrOk_of_uncached hu).trans hno)).2
  refine ⟨hd, ?_⟩
  rw [uncached, hd]
  exact hu

theorem dcvt0_of_uncached (hs : s.dcvt0.state = .idle) (hu : s.uncached = true) :
    (s.step i).dcvt0.state = .idle := by
  simp only [step, hu, if_true, StupidBuffer.next, hs]
  rfl

/-- A request of `kseg1`. -/
theorem Inv.lines_uncached (h : s.Inv ki kd) (hu : s.uncached = true) :
    ∃ ki kd, (s.step i).Lines ki kd := by
  have hv := dreq_of_uncached hu
  have hst := Context.state_of_dreq hv
  obtain ⟨hs, hi, ho⟩ := h.phase_of_uncached hu
  have hireq := ireqs_of_uncached hu
  have hsv := ho.serves i.enable hireq hv (Nat.zero_le _) fun _ _ hl => ireqs_of_idle hi hl
  obtain ⟨-, hi2, hi3⟩ := h.icvt_unserved (i := i) (by simp [hi])
    (fun hf => by rw [hi] at hf; cases hf) (hsv.others 1 (by decide)) (s.step i).bus.device.mem
  have hiidle : (s.step i).icvt.state = .idle := by
    refine hi3 hi ?_
    unfold Context.ireq
    rcases hst with hst | hst <;> rw [hst] <;> rfl
  have hidle := dcvt0_of_uncached (i := i) hs hu
  have hacc : s.dpend.accepted s.ctx.dreq (s.dresp i) =
      if DBusToCBus.okay (s.iresps i 0) then some s.ctx.dreq else none := by
    rw [h.core.dreq_valid hv, Pending.accepted, hv, addrOk_of_uncached hu]
    rfl
  have hmem : (s.step i).mem = performed s.mem (s.dpend.accepted s.ctx.dreq (s.dresp i)) := rfl
  rw [hacc, h.mem_eq hs] at hmem
  cases hr : (s.iresps i 0).ready with
  | false =>
    have hno : DBusToCBus.okay (s.iresps i 0) = false := by
      rw [DBusToCBus.okay, hr]
      rfl
    obtain ⟨hdq, hu'⟩ := dreq_of_not_okay hu hno
    rw [hno] at hmem
    refine ⟨0, 0, Nat.zero_le 15, Nat.zero_le 15, hi2, StupidBuffer.holds_of_idle hidle ?_, ?_⟩
    · rw [hmem]
      exact (hsv.beats.silent hr).2.symm
    · simp only [Owner, hiidle, hidle, hu', if_true, hdq]
      exact Or.inl (hsv.silent hr)
  | true =>
    have hyes : DBusToCBus.okay (s.iresps i 0) = true := by
      rw [DBusToCBus.okay, hr]
      exact hsv.beats.last hr
    rw [hyes] at hmem
    refine ⟨0, 0, Nat.zero_le 15, Nat.zero_le 15, hi2, StupidBuffer.holds_of_idle hidle ?_,
      owner_of_free (hsv.last hr rfl) fun hf => ?_⟩
    · rw [hmem]
      exact performed_of_beats hsv.beats hr
    · rw [hidle] at hf
      cases hf

theorem Inv.step_lines (h : s.Inv ki kd) : ∃ ki kd, (s.step i).Lines ki kd := by
  cases hs : s.dcvt0.state with
  | fetch => exact h.lines_burst (StupidBuffer.valid_iff.2 (Or.inl hs))
  | flush => exact h.lines_burst (StupidBuffer.valid_iff.2 (Or.inr hs))
  | ready => exact h.lines_ready hs
  | idle =>
    cases hi : s.icvt.state with
    | fetch => exact h.lines_fetch hs hi
    | ready => exact h.lines_fetched hi
    | flush =>
      have hf := h.inst
      simp only [InstSide, hi] at hf
    | idle =>
      cases hu : s.uncached with
      | false => exact h.lines_idle hs hi hu
      | true => exact h.lines_uncached hu

end Transport

/-- Every cycle keeps the invariant, and is one of the core over honest buses. -/
theorem Inv.drives (h : s.Inv ki kd) (hr : s.ctx.Regular) :
    Drives VTop.step Machine.step VTop.toMachine VTop.input (fun s => ∃ ki kd, s.Inv ki kd)
      Machine.Fair s i where
  kept := by
    obtain ⟨ki', kd', hl⟩ := h.step_lines (i := i)
    exact ⟨ki', kd', { hl with
      core := (Machine.refines h.core (h.fair hr)).kept
      inst := h.step_inst
      data := h.step_data
      lost := h.step_lost }⟩
  simulates := rfl
  condition := h.fair hr

theorem inv_run (mem : Memory) {is : List VTopInput}
    (h : Along VTop.step (fun s _ => s.ctx.Regular) (reset mem) is) :
    ∃ ki kd, (run VTop.step (reset mem) is).Inv ki kd :=
  Along.invariant (P := fun s : VTop => ∃ ki kd, s.Inv ki kd)
    (fun _ _ ⟨_, _, hs⟩ hr => (hs.drives hr).kept) h ⟨0, 0, inv_reset mem⟩

/-- The checks of the device hold for the request that it serves. -/
theorem Inv.sane (h : s.Inv ki kd) (i : VTopInput) (hb : s.bus.device.tx.busy = true) :
    s.bus.device.Sane (translated (s.bus.treq s.ireqs i.enable)) := by
  have hnf : ¬ s.bus.Free := fun hf => by
    rw [hf.device] at hb
    cases hb
  cases hv : s.dcvt0.creq.valid with
  | true =>
    have hne := StupidBuffer.ne_idle_of_valid hv
    exact (h.owner_of_burst hv).1.sane (ireqs_zero (uncached_of_default (h.dreq_eq hne))) hv hb
  | false =>
    have ho := h.owner
    have hd : s.dcvt0.state = .idle ∨ s.dcvt0.state = .ready := by
      cases hs : s.dcvt0.state <;> simp [StupidBuffer.creq, hs] at hv ⊢
    cases hi : s.icvt.state with
    | fetch =>
      have ho : s.bus.Open 1 s.icvt.creq ki := by
        rcases hd with hd | hd <;> simp only [Owner, hi, hd] at ho <;> exact ho
      exact ho.sane rfl (StupidBuffer.valid_iff.2 (Or.inl hi)) hb
    | _ =>
      have ho : if s.uncached then s.bus.Open 0 (DBusToCBus.dcreq s.ctx.dreq) 0
          else s.bus.Free := by
        rcases hd with hd | hd <;> simp only [Owner, hi, hd] at ho <;> exact ho
      cases hu : s.uncached with
      | true =>
        rw [hu] at ho
        exact SharedBus.Open.sane (k := 0) ho (ireqs_of_uncached hu) (dreq_of_uncached hu) hb
      | false =>
        rw [hu] at ho
        exact absurd ho hnf

/-- What can be seen behind the core. -/
structure Coherent (s : VTop) : Prop where
  settled : s.dcvt0.state = .idle → s.bus.device.mem = s.mem
  sane : s.bus.device.tx.busy = true → ∀ i : VTopInput,
    s.bus.device.Sane (translated (s.bus.treq s.ireqs i.enable))

theorem Inv.coherent (h : s.Inv ki kd) : s.Coherent where
  settled hs := (h.mem_eq hs).symm
  sane hb i := h.sane i hb

/-- The events of a cycle. -/
def events (s : VTop) (i : VTopInput) : List Event := s.toMachine.events (s.input i)

end VTop

open VTop in
/-- From reset, and whenever the device is enabled, the core executes its instruction set, and the
memory of the device is the memory of the program whenever no line of data is at work. -/
theorem vtop_executes (mem : Memory) {is : List VTopInput}
    (h : Along VTop.step (fun s _ => s.ctx.Regular) (reset mem) is) :
    (run VTop.step (reset mem) is).abs = follow isaStep (some (Arch.reset mem))
        (collect VTop.step VTop.events (reset mem) is) ∧
      (run VTop.step (reset mem) is).Coherent := by
  have hd : ∀ (s : VTop) (i : VTopInput), (∃ ki kd, s.Inv ki kd) → s.ctx.Regular →
      Drives VTop.step Machine.step VTop.toMachine VTop.input (fun s => ∃ ki kd, s.Inv ki kd)
        Machine.Fair s i := fun s i ⟨_, _, hs⟩ hr => hs.drives hr
  have h0 : ∃ ki kd, (reset mem).Inv ki kd := ⟨0, 0, inv_reset mem⟩
  obtain ⟨⟨ki, kd, hk⟩, hf, ha⟩ := drives_run hd h h0
  have hcore := core_refines mem hf
  refine ⟨?_, hk.coherent⟩
  unfold VTop.events
  rw [← drives_collect hd Machine.events h h0]
  exact (congrArg Machine.abs ha).trans hcore

/-- The device pauses while the first line comes. -/
def addiuSwEnables : List VTopInput :=
  List.replicate 7 default ++ { enable := false } :: List.replicate 90 default

theorem vtop_executes_addiuSw :
    (run VTop.step (.reset addiuSw) addiuSwEnables).abs = follow isaStep
        (some (Arch.reset addiuSw)) (collect VTop.step VTop.events (.reset addiuSw) addiuSwEnables) ∧
      (run VTop.step (.reset addiuSw) addiuSwEnables).Coherent :=
  vtop_executes addiuSw (by decide +kernel)

example : (run VTop.step (.reset addiuSw) addiuSwEnables).ctx.pc = 0xbfc00008#32 ∧
    ByteMemory.word (run VTop.step (.reset addiuSw) addiuSwEnables).bus.device.mem 0#32 = 5#32 := by
  decide +kernel

end FrailCPU.RefCpu
