import FrailCPU.Core.Target
import FrailCPU.DCache.Answer

/-!
# The answer of a load

The core and the data cache together. The cache takes the pair of requests of M1 in every cycle
with `en`, which is the wait of the core turned round, and answers without a name. The pairs are
numbered as they are taken, the number goes with the group from M1 to M3 on one side and with
the latch of the cache on the other, and the two are the same when a load is in M3.
-/

namespace FrailCPU

open ClockedMachine

/-- The slot whose request goes to a port of the cache. -/
def Pair.atPort {α : Type} (p : Pair α) : DCache.Port → α
  | .one => p.slot1
  | .two => p.slot0

/-- A pair that the cache has taken: the group in M1, and what its addresses were translated
with. -/
structure Exchange where
  group : Pair ExecuteData
  mmu : MmuState

namespace Exchange

variable (x : Exchange) (p : DCache.Port)

/-- `dreq`. -/
def asked : DBusReq := memoryReq (x.group.atPort p)

/-- `p_dreq`. -/
def sent : DBusReq := x.mmu.dreq (x.asked p)

/-- `d_uncache`. -/
def isUncached : Bool := x.mmu.dUncache (x.asked p)

/-- The group as it leaves M1. -/
def leaving : Pair ExecuteData := memory x.group (memoryExc x.mmu x.group)

end Exchange

/-- What the core and the cache read from outside in a cycle. The wait of the data cache and its
answers in `cpu` are not read. -/
structure LoadInput where
  cpu : CpuInput := {}
  tagLo : Word := 0#32
  ready : Bool := false
  data : Word := 0#32

/-- The core with its data cache. `handle` is the number of the pair in `cache_handle`,
`answered` that of the pair whose answer is on `dresp`, and `m2` and `m3` are those of the pairs
that the groups in M2 and M3 made. -/
structure LoadTrace where
  cpu : Cpu := {}
  service : DCache.Service := {}
  exchanges : List Exchange := []
  handle : Option ℕ := none
  answered : Option ℕ := none
  m2 : Option ℕ := none
  m3 : Option ℕ := none

namespace LoadTrace

variable (s : LoadTrace) (i : LoadInput)

/-- `dresp.data`. -/
def respData : Pair Word :=
  ⟨s.service.cache.respData .one, s.service.cache.respData .two⟩

def cpuInput : CpuInput :=
  { i.cpu with dWait := !s.service.cache.addrOk, respData := s.respData }

/-- The pair that M1 presents. -/
def exchange : Exchange := ⟨s.cpu.core.dataE, s.cpu.core.mmu⟩

def offer : DCache.Offer where
  dreq := s.exchange.sent
  isUncached := s.exchange.isUncached
  cacheInst := s.cpu.core.dataE.slot1.cacheCtl.dcacheInst
  tagLo := i.tagLo
  ready := i.ready
  data := i.data

def hazardOut : HazardOut := s.cpu.core.hazardOut (s.cpu.coreInput (s.cpuInput i))

/-- A clock edge. -/
def step : LoadTrace where
  cpu := s.cpu.step (s.cpuInput i)
  service := s.service.step (s.offer i)
  exchanges := if s.service.cache.en then s.exchanges ++ [s.exchange] else s.exchanges
  handle := if s.service.cache.en then some s.exchanges.length else s.handle
  answered := if s.service.cache.en then s.handle else none
  m2 := pipereg2 none (s.hazardOut i).stallM2 (s.hazardOut i).flushM2
    (some s.exchanges.length) s.m2
  m3 := pipereg2 none false (s.hazardOut i).flushM3 s.m2 s.m3

/-- A load in M3 is the one that made a pair with its request, that pair is the one that is
answered, and the loaded word is taken from the answer to its request. -/
def Answered (p : DCache.Port) : Prop :=
  ∃ k x, s.m3 = some k ∧ s.answered = some k ∧ s.exchanges[k]? = some x ∧
    s.cpu.core.dataM2 = x.leaving ∧ x.asked p = memoryReq (s.cpu.core.dataM2.atPort p) ∧
    ((x.sent p).valid = true → ∃ w, s.service.answer p = some w ∧
      ∀ i, (memory3 s.cpu.core.dataM2 (s.cpu.coreInput (s.cpuInput i)).respData).atPort p =
        memory3Slot (s.cpu.core.dataM2.atPort p) w)

end LoadTrace

/-! ### Loads and the operations of the data cache -/

/-- An operation of the data cache has the control word of one. -/
def DecodeData.Operates (d : DecodeData) : Prop :=
  d.cacheCtl.dcacheInst = .unknown ∨ d.ctl.cacheD = true ∧ d.ctl.memwrite = true

theorem decodeSlot_operates (f : FetchData) (preB : Bool) (prePc : Word) :
    (decodeSlot f preB prePc).Operates := by
  change ((decoder f.rawInstr f.valid f.cp0Ctl).cacheCtl.dcacheInst = .unknown ∨
    (decoder f.rawInstr f.valid f.cp0Ctl).ctl.cacheD = true ∧
      (decoder f.rawInstr f.valid f.cp0Ctl).ctl.memwrite = true)
  cases hv : f.valid with
  | false => exact Or.inl rfl
  | true =>
      change ((decodeOp f.rawInstr _).cacheCtl.dcacheInst = .unknown ∨
        (decodeOp f.rawInstr _).ctl.cacheD = true ∧ (decodeOp f.rawInstr _).ctl.memwrite = true)
      rcases decodeOp_cacheCtl f.rawInstr (presetDecoded f.rawInstr f.cp0Ctl) with hd | hd
      · exact Or.inl (by rw [hd]; rfl)
      · rw [hd]
        unfold decodeCache
        dsimp only
        split
        case h_8 => exact Or.inl rfl
        all_goals simp

/-- A group with an operation of the data cache has no load. -/
def LoadsAlone (op : DCacheInst) (load1 load0 : Bool) : Prop :=
  op = .unknown ∨ load1 = false ∧ load0 = false

namespace Cpu

variable {s : Cpu} {i : CpuInput}

/-- The operations of the data cache on their way to M1. -/
structure OpsAlone (s : Cpu) : Prop where
  queue : s.queue.val.All DecodeData.Operates
  e : LoadsAlone s.core.dataI.slot1.cacheCtl.dcacheInst s.core.dataI.slot1.ctl.memtoreg
    s.core.dataI.slot0.ctl.memtoreg
  m1 : LoadsAlone s.core.dataE.slot1.cacheCtl.dcacheInst s.core.dataE.slot1.ctl.memtoreg
    s.core.dataE.slot0.ctl.memtoreg

theorem operates_zero : DecodeData.Operates {} := Or.inl rfl

theorem opsAlone_reset : OpsAlone {} where
  queue := ⟨fun _ => operates_zero, fun _ => operates_zero⟩
  e := Or.inl rfl
  m1 := Or.inl rfl

theorem loadsAlone_issueGroup {c1 c2 : DecodeData} (hc : c1.WellDecoded) (ho : c1.Operates)
    (b : Pair PortBypass) (rd1 rd2 : Pair Word) :
    LoadsAlone (issueGroup c1 c2 b rd1 rd2).slot1.cacheCtl.dcacheInst
      (issueGroup c1 c2 b rd1 rd2).slot1.ctl.memtoreg
      (issueGroup c1 c2 b rd1 rd2).slot0.ctl.memtoreg := by
  cases h1 : issueEn1 c1 c2 b with
  | false =>
      left
      rw [issueGroup, h1]
      rfl
  | true =>
      have hslot : (issueGroup c1 c2 b rd1 rd2).slot1 =
          issueRecord c1 b.slot1 rd1.slot1 rd2.slot1 := by
        rw [issueGroup, h1]
        rfl
      rw [hslot]
      rcases ho with ho | ⟨hd, hw⟩
      · exact Or.inl ho
      · have hs : c1.ctl.singleIssue = true :=
          hc.coherent.refetches_alone (by rw [Control.refetches, hd, Bool.or_true])
        have h2 : issueEn2 c1 c2 b = false := by simp [issueEn2, hs]
        refine Or.inr ⟨hc.coherent.memwrite_memtoreg hw, ?_⟩
        rw [issueGroup, h2]
        rfl

/-- E only takes loads back. -/
theorem loadsAlone_execute {d : Pair IssueData} (rd : Pair Operands) (u : MulDivResult)
    (h : LoadsAlone d.slot1.cacheCtl.dcacheInst d.slot1.ctl.memtoreg d.slot0.ctl.memtoreg) :
    LoadsAlone (execute d rd u).slot1.cacheCtl.dcacheInst (execute d rd u).slot1.ctl.memtoreg
      (execute d rd u).slot0.ctl.memtoreg := by
  rcases h with h | ⟨h1, h0⟩
  · exact Or.inl h
  · refine Or.inr ⟨?_, ?_⟩
    · change (d.slot1.ctl.memtoreg && _) = false
      rw [h1, Bool.false_and]
    · change (d.slot0.ctl.memtoreg && _ && _) = false
      rw [h0, Bool.false_and, Bool.false_and]

theorem OpsAlone.step (h : s.OpsAlone) : (s.step i).OpsAlone where
  queue := h.queue.step decodeSlot_operates _
  e := by
    simp only [Cpu.step, CoreState.step]
    exact pipereg2_ordered (P := fun p : Pair IssueData =>
      LoadsAlone p.slot1.cacheCtl.dcacheInst p.slot1.ctl.memtoreg p.slot0.ctl.memtoreg)
        (Or.inl rfl) (loadsAlone_issueGroup s.queue.property.candidate1
          (h.queue.candidate1 operates_zero) _ _ _) h.e
  m1 := by
    simp only [Cpu.step, CoreState.step]
    exact pipereg2_ordered (P := fun p : Pair ExecuteData =>
      LoadsAlone p.slot1.cacheCtl.dcacheInst p.slot1.ctl.memtoreg p.slot0.ctl.memtoreg)
        (Or.inl rfl) (loadsAlone_execute _ _ h.e) h.m1

end Cpu

namespace LoadTrace

variable {s : LoadTrace} {i : LoadInput}

/-- What is latched in the cache is the pair. -/
structure Latched (s : LoadTrace) (x : Exchange) : Prop where
  dreq : ∀ p, s.service.cache.req p = x.sent p
  isUncached : ∀ p, (s.service.cache.cacheHandle.side p).isUncached = x.isUncached p
  oper : ∀ p, (x.group.atPort p).ctl.memtoreg = true →
    s.service.cache.cacheHandle.cacheOper = .req

/-- The groups behind M1 and the latch of the cache know their pairs. -/
structure Kept (s : LoadTrace) : Prop where
  service : s.service.Attentive
  ops : s.cpu.OpsAlone
  handle : ∀ k, s.handle = some k → ∃ x, s.exchanges[k]? = some x ∧ s.Latched x
  m2 : ∀ k, s.m2 = some k → (s.handle = some k ∨ s.cpu.core.waitM = true) ∧
    ∃ x, s.exchanges[k]? = some x ∧ s.cpu.core.dataM1 = x.leaving
  m2_none : s.m2 = none → s.cpu.core.dataM1 = ⟨{}, {}⟩
  m3 : ∀ k, s.m3 = some k → s.answered = some k ∧
    ∃ x, s.exchanges[k]? = some x ∧ s.cpu.core.dataM2 = x.leaving ∧
      ∀ p, (s.cpu.core.dataM2.atPort p).ctl.memtoreg = true → (x.sent p).valid = true →
        s.service.answer p = some (s.service.cache.respData p)
  m3_none : s.m3 = none → s.cpu.core.dataM2 = ⟨{}, {}⟩

theorem latched_congr {t : LoadTrace} {x : Exchange}
    (h : t.service.cache.cacheHandle = s.service.cache.cacheHandle) (hl : s.Latched x) :
    t.Latched x where
  dreq p := by
    rw [DCache.State.req, h]
    exact hl.dreq p
  isUncached p := by
    rw [h]
    exact hl.isUncached p
  oper p hp := by
    rw [h]
    exact hl.oper p hp

theorem lookup_step {k : ℕ} {x : Exchange} (h : s.exchanges[k]? = some x) :
    (s.step i).exchanges[k]? = some x := by
  simp only [step]
  split
  · rw [List.getElem?_append_left (List.getElem?_eq_some_iff.mp h).1, h]
  · exact h

/-- The pair that is taken. -/
theorem lookup_taken (he : s.service.cache.en = true) :
    (s.step i).exchanges[s.exchanges.length]? = some s.exchange := by
  simp [step, he]

theorem handle_taken (he : s.service.cache.en = true) :
    (s.step i).handle = some s.exchanges.length := by
  simp [step, he]

theorem latched_taken (h : s.Kept) (he : s.service.cache.en = true) :
    (s.step i).Latched s.exchange := by
  have hc : (s.step i).service.cache.cacheHandle =
      s.service.cache.handleNext (s.service.input (s.offer i)) := by
    change (if s.service.cache.en then _ else _) = _
    rw [he, if_pos rfl]
  constructor
  · intro p
    rw [DCache.State.req, hc]
    rfl
  · intro p
    rw [hc]
    rfl
  · intro p hp
    rw [hc]
    apply DCache.State.cacheOper_eq
    rcases h.ops.m1 with ho | ⟨h1, h0⟩
    · exact ho
    · cases p with
      | one =>
          change s.cpu.core.dataE.slot1.ctl.memtoreg = true at hp
          rw [h1] at hp
          cases hp
      | two =>
          change s.cpu.core.dataE.slot0.ctl.memtoreg = true at hp
          rw [h0] at hp
          cases hp

theorem handle_step (h : s.Kept) (k : ℕ) (hk : (s.step i).handle = some k) :
    ∃ x, (s.step i).exchanges[k]? = some x ∧ (s.step i).Latched x := by
  cases he : s.service.cache.en with
  | true =>
      rw [handle_taken he, Option.some_inj] at hk
      rw [← hk]
      exact ⟨s.exchange, lookup_taken he, latched_taken h he⟩
  | false =>
      have hh : (s.step i).handle = s.handle := by simp [step, he]
      rw [hh] at hk
      obtain ⟨x, hx, hl⟩ := h.handle k hk
      have hc : (s.step i).service.cache.cacheHandle = s.service.cache.cacheHandle :=
        DCache.State.next_cacheHandle he
      exact ⟨x, lookup_step hx, latched_congr hc hl⟩

/-- What the registers behind M1 do: they are emptied, M1 and M2 stand, or all move and the
cache takes the pair of M1. -/
theorem back_cases (s : LoadTrace) (i : LoadInput) :
    ((s.hazardOut i).flushM2 = true ∧ (s.hazardOut i).flushM3 = true) ∨
      ((s.hazardOut i).flushM2 = false ∧ (s.hazardOut i).stallM2 = true ∧
        (s.hazardOut i).flushM3 = true ∧ (s.hazardOut i).flushM = false ∧
        (s.hazardOut i).stallM = true ∧
        (s.service.cache.en = false ∨ s.cpu.core.waitM = true)) ∨
      ((s.hazardOut i).flushM2 = false ∧ (s.hazardOut i).stallM2 = false ∧
        (s.hazardOut i).flushM3 = false ∧ s.service.cache.en = true ∧
        s.cpu.core.waitM = false) := by
  have hd : (s.cpu.coreInput (s.cpuInput i)).dWait = !s.service.cache.en := rfl
  rw [hazardOut, CoreState.hazardOut, hazard, hd]
  split_ifs with hw hm
  · exact Or.inl ⟨rfl, rfl⟩
  · rw [Bool.or_eq_true, Bool.not_eq_true'] at hm
    exact Or.inr (Or.inl ⟨rfl, rfl, rfl, rfl, rfl, hm⟩)
  all_goals
    rw [Bool.not_eq_true, Bool.or_eq_false_iff, Bool.not_eq_false'] at hm
    exact Or.inr (Or.inr ⟨rfl, rfl, rfl, hm⟩)

theorem m2_eq : (s.step i).m2 = pipereg2 none (s.hazardOut i).stallM2 (s.hazardOut i).flushM2
    (some s.exchanges.length) s.m2 := rfl

theorem m3_eq : (s.step i).m3 = pipereg2 none false (s.hazardOut i).flushM3 s.m2 s.m3 := rfl

theorem dataE_eq : (s.step i).cpu.core.dataE =
    pipereg2 ⟨{}, {}⟩ (s.hazardOut i).stallM (s.hazardOut i).flushM
      (s.cpu.core.dataENxt (s.cpu.coreInput (s.cpuInput i))) s.cpu.core.dataE := rfl

theorem dataM1_eq : (s.step i).cpu.core.dataM1 =
    pipereg2 ⟨{}, {}⟩ (s.hazardOut i).stallM2 (s.hazardOut i).flushM2 s.exchange.leaving
      s.cpu.core.dataM1 := rfl

theorem dataM2_eq : (s.step i).cpu.core.dataM2 =
    pipereg2 ⟨{}, {}⟩ false (s.hazardOut i).flushM3 s.cpu.core.dataM1 s.cpu.core.dataM2 := rfl

theorem m2_step (h : s.Kept) (k : ℕ) (hk : (s.step i).m2 = some k) :
    ((s.step i).handle = some k ∨ (s.step i).cpu.core.waitM = true) ∧
      ∃ x, (s.step i).exchanges[k]? = some x ∧ (s.step i).cpu.core.dataM1 = x.leaving := by
  rw [m2_eq] at hk
  rw [dataM1_eq]
  rcases back_cases s i with ⟨hf, -⟩ | ⟨hf, hs, -, hfm, hsm, hw⟩ | ⟨hf, hs, -, he, -⟩
  · rw [hf] at hk
    cases hk
  · rw [hf, hs] at hk ⊢
    obtain ⟨hh, x, hx, hd⟩ := h.m2 k hk
    refine ⟨?_, x, lookup_step hx, hd⟩
    have hwait : (s.step i).cpu.core.waitM = s.cpu.core.waitM := by
      rw [CoreState.waitM, dataE_eq, hfm, hsm]
      rfl
    rw [hwait]
    rcases hw with he | hw
    · have hhandle : (s.step i).handle = s.handle := by simp [step, he]
      rw [hhandle]
      exact hh
    · exact Or.inr hw
  · rw [hf, hs] at hk ⊢
    obtain rfl := Option.some_inj.mp hk
    exact ⟨Or.inl (handle_taken he), s.exchange, lookup_taken he, rfl⟩

theorem m2_none_step (h : s.Kept) (hk : (s.step i).m2 = none) :
    (s.step i).cpu.core.dataM1 = ⟨{}, {}⟩ := by
  rw [m2_eq] at hk
  rw [dataM1_eq]
  rcases back_cases s i with ⟨hf, -⟩ | ⟨hf, hs, -⟩ | ⟨hf, hs, -⟩
  · rw [hf]
    rfl
  · rw [hf, hs] at hk ⊢
    exact h.m2_none hk
  · rw [hf, hs] at hk
    cases hk

theorem m3_none_step (h : s.Kept) (hk : (s.step i).m3 = none) :
    (s.step i).cpu.core.dataM2 = ⟨{}, {}⟩ := by
  rw [m3_eq] at hk
  rw [dataM2_eq]
  cases hf : (s.hazardOut i).flushM3 with
  | true => rfl
  | false =>
      rw [hf] at hk
      exact h.m2_none hk

end LoadTrace

/-- A load that leaves M1 as one leaves it with its control word. -/
theorem Exchange.ctl_leaving {x : Exchange} {p : DCache.Port}
    (h : (x.leaving.atPort p).ctl.memtoreg = true) :
    (x.leaving.atPort p).ctl = (x.group.atPort p).ctl := by
  cases p with
  | one => rfl
  | two =>
      change (memory x.group (memoryExc x.mmu x.group)).slot0.ctl.memtoreg = true at h
      change (memory x.group (memoryExc x.mmu x.group)).slot0.ctl = x.group.slot0.ctl
      rcases memory_slot0_ctl x.group (memoryExc x.mmu x.group) with hc | hc
      · exact hc
      · rw [hc] at h
        cases h

/-- The record of a load in M2 and M3 still says what was asked for. -/
theorem Exchange.asked_leaving {x : Exchange} {p : DCache.Port}
    (h : (x.leaving.atPort p).ctl.memtoreg = true) :
    x.asked p = memoryReq (x.leaving.atPort p) := by
  have hc := x.ctl_leaving h
  cases p with
  | one => rfl
  | two =>
      change memoryReq x.group.slot0 = memoryReq x.leaving.slot0
      change x.leaving.slot0.ctl = x.group.slot0.ctl at hc
      rw [memoryReq, memoryReq, hc]
      rfl

namespace LoadTrace

variable {s : LoadTrace} {i : LoadInput}

theorem m3_step (h : s.Kept) (k : ℕ) (hk : (s.step i).m3 = some k) :
    (s.step i).answered = some k ∧ ∃ x, (s.step i).exchanges[k]? = some x ∧
      (s.step i).cpu.core.dataM2 = x.leaving ∧
      ∀ p, ((s.step i).cpu.core.dataM2.atPort p).ctl.memtoreg = true →
        (x.sent p).valid = true →
        (s.step i).service.answer p = some ((s.step i).service.cache.respData p) := by
  rw [m3_eq] at hk
  rw [dataM2_eq]
  rcases back_cases s i with ⟨-, hf⟩ | ⟨-, -, hf, -⟩ | ⟨-, -, hf, he, hw⟩
  · rw [hf] at hk
    cases hk
  · rw [hf] at hk
    cases hk
  · rw [hf] at hk ⊢
    obtain ⟨hh, x, hx, hd⟩ := h.m2 k hk
    have hhandle := hh.resolve_right (by simp [hw])
    obtain ⟨y, hy, hl⟩ := h.handle k hhandle
    obtain rfl : x = y := Option.some_inj.mp (hx.symm.trans hy)
    refine ⟨by simp [step, he, hhandle], x, lookup_step hx, hd, ?_⟩
    intro p hp hv
    change (s.cpu.core.dataM1.atPort p).ctl.memtoreg = true at hp
    rw [hd] at hp
    refine h.service.answer_step he fun _ => ⟨hl.oper p ?_, ?_⟩
    · rw [← x.ctl_leaving hp]
      exact hp
    · rw [hl.dreq]
      exact hv

theorem Kept.step (h : s.Kept) : (s.step i).Kept where
  service := h.service.step
  ops := h.ops.step
  handle := handle_step h
  m2 := m2_step h
  m2_none := m2_none_step h
  m3 := m3_step h
  m3_none := m3_none_step h

theorem kept_reset : Kept {} where
  service := DCache.Service.attentive_reset
  ops := Cpu.opsAlone_reset
  handle _ hk := by cases hk
  m2 _ hk := by cases hk
  m2_none _ := rfl
  m3 _ hk := by cases hk
  m3_none _ := rfl

theorem Kept.answered (h : s.Kept) {p : DCache.Port}
    (hl : (s.cpu.core.dataM2.atPort p).ctl.memtoreg = true) : s.Answered p := by
  cases hm : s.m3 with
  | none =>
      rw [h.m3_none hm] at hl
      cases p <;> cases hl
  | some k =>
      obtain ⟨ha, x, hx, hd, hw⟩ := h.m3 k hm
      refine ⟨k, x, hm, ha, hx, hd, ?_, ?_⟩
      · rw [hd] at hl ⊢
        exact x.asked_leaving hl
      · intro hv
        refine ⟨_, hw p hl hv, fun i => ?_⟩
        cases p <;> rfl

/-- Every load receives the answer to its own request, whatever the caches, the bus and the
units of E do. -/
theorem load_answered (is : List LoadInput) (p : DCache.Port)
    (hl : ((run step {} is).cpu.core.dataM2.atPort p).ctl.memtoreg = true) :
    (run step {} is).Answered p :=
  (run_invariant (fun _ _ h => h.step) kept_reset is).answered hl

/-- A load from an uncached address: `LUI`, then `LW`, and the bus answers late. -/
def uncachedCycles : List LoadInput :=
  let empty : LoadInput := {}
  [empty, { cpu := { instrData := ⟨0x3c01a000#32, 0x8c220004#32⟩ } }] ++
    List.replicate 9 empty ++ [{ ready := true, data := 0x12345678#32 }, empty]

theorem load_answered_uncached :
    (run step {} uncachedCycles).Answered .one ∧
      (run step {} uncachedCycles).service.answer .one = some 0x12345678#32 :=
  ⟨load_answered uncachedCycles .one (by decide +kernel), by decide +kernel⟩

end LoadTrace

end FrailCPU
