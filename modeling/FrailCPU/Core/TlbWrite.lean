import FrailCPU.Core.InOrder

/-!
# What sees a write of the TLB

The instructions in flight together with the number of TLB writes before their fetch was
translated and before they left M1. `TLBWI` and `TLBWR` make the fetch start again behind them
when they are in M1, and the TLB is written when they are in W, so a fetch that is answered in
between is translated with the old contents.
-/

namespace FrailCPU

open ClockedMachine

/-- The instruction writes an entry of the TLB. -/
def Control.writesTlb (c : Control) : Bool := c.tlbType == .tlbwi || c.tlbType == .tlbwr

/-- An instruction in flight. `fetched` is the number of TLB writes before the translation of
its fetch, if that was one of the TLB, and `translated` the number before it left M1. -/
structure Stamped where
  token : Token
  fetched : Option ℕ
  translated : ℕ := 0
  deriving DecidableEq

namespace Cpu

variable (s : Cpu) (i : CpuInput)

/-- A word of the fetch is asked for at a mapped address. -/
def throughTlb : Bool :=
  (s.ireqs.slot1.valid && isMapped s.ireqs.slot1.addr) ||
    (s.ireqs.slot0.valid && isMapped s.ireqs.slot0.addr)

/-- The record of the fetch. -/
def fetchRecord : Fetch1Data :=
  dataF1Nxt s.front.dataP (s.fetchInput i).iTlbExc (s.front.env (s.fetchInput i))

/-- The fetch is answered and goes on. -/
def takesFetch : Bool :=
  !(s.hazardFront i).stallF2 && !(s.hazardFront i).flushF2 && (s.fetchRecord i).valid

/-- A write of the TLB is under way: between M1 and the end of W. -/
def tlbWriteDue : Bool :=
  s.core.dataM1.slot1.ctl.writesTlb || s.core.dataM2.slot1.ctl.writesTlb ||
    s.core.dataM3.slot1.ctl.writesTlb

/-- While a write of the TLB is under way no fetch at a mapped address is answered. -/
def Settled : Prop :=
  s.tlbWriteDue = true → s.takesFetch i = true → s.throughTlb = false

instance : Decidable (s.Settled i) := inferInstanceAs (Decidable (_ → _ → _))

end Cpu

/-- The core with the stamps of the instructions in flight: `f1` and `f2` belong to the fetches
in `dataF1` and `dataF2`. -/
structure TlbTrace where
  cpu : Cpu := {}
  writes : ℕ := 0
  f1 : Option ℕ := none
  f2 : Option ℕ := none
  flight : Stages Stamped := {}

namespace TlbTrace

variable (s : TlbTrace) (i : CpuInput)

/-- The data addresses of M1 are translated in every cycle until it moves. -/
def marked : Stages Stamped :=
  { s.flight with m1 := s.flight.m1.map fun x => { x with translated := s.writes } }

def fresh : List Stamped := s.cpu.entering.map fun t => ⟨t, s.f2, 0⟩

/-- A clock edge. -/
def step : TlbTrace where
  cpu := s.cpu.step i
  writes := if writesTlb s.cpu.core.dataM3 then s.writes + 1 else s.writes
  f1 :=
    if (s.cpu.hazardFront i).stallF2 then s.f1
    else if s.cpu.throughTlb then some s.writes else none
  f2 := if (s.cpu.hazardFront i).stallD then s.f2 else s.f1
  flight := s.marked.next s.fresh (s.cpu.event i true)

/-- What is in flight knows all writes of the TLB: nothing leaves together with a write, and
the translations of the fetches and, behind M1, of the data addresses are later than every
write so far. -/
structure Seen : Prop where
  tokens : s.flight.map Stamped.token = s.cpu.stages
  alone : writesTlb s.cpu.core.dataM3 = true → s.cpu.core.dataM3.slot0.valid = false
  fetched : ∀ x ∈ s.flight.line, ∀ n ∈ x.fetched, n = s.writes
  translated : ∀ x ∈ s.flight.w ++ s.flight.m3 ++ s.flight.m2, x.translated = s.writes

end TlbTrace

namespace Cpu

variable {s : Cpu} {i : CpuInput}

/-- A write of the TLB makes the fetch start again and leaves the queue alone. -/
theorem refetches_of_writesTlb {c : Control} (hc : c.Coherent) (h : c.writesTlb = true) :
    c.tlb = true ∧ c.singleIssue = true := by
  have htype : c.tlbType ≠ .noTlb := by
    intro hn
    rw [Control.writesTlb, hn] at h
    cases h
  have htlb := hc.tlbType_tlb htype
  exact ⟨htlb, hc.refetches_alone (by rw [Control.refetches, htlb]; rfl)⟩

/-- The group of a write of the TLB, on its way through the registers. -/
structure Solo (s : Cpu) : Prop where
  e : s.core.dataI.slot1.ctl.writesTlb = true →
    s.core.dataI.slot1.ctl.tlb = true ∧ s.core.dataI.slot0.valid = false
  m1 : s.core.dataE.slot1.ctl.writesTlb = true →
    s.core.dataE.slot1.branchTaken = true ∧ s.core.dataE.slot0.valid = false
  m2 : s.core.dataM1.slot1.ctl.writesTlb = true → s.core.dataM1.slot0.valid = false
  m3 : s.core.dataM2.slot1.ctl.writesTlb = true → s.core.dataM2.slot0.valid = false
  w : s.core.dataM3.slot1.ctl.writesTlb = true → s.core.dataM3.slot0.valid = false

theorem solo_reset : Solo {} where
  e h := by cases h
  m1 h := by cases h
  m2 h := by cases h
  m3 h := by cases h
  w h := by cases h

theorem solo_issueGroup {c1 c2 : DecodeData} (hc : c1.WellDecoded) (b : Pair PortBypass)
    (rd1 rd2 : Pair Word)
    (h : (issueGroup c1 c2 b rd1 rd2).slot1.ctl.writesTlb = true) :
    (issueGroup c1 c2 b rd1 rd2).slot1.ctl.tlb = true ∧
      (issueGroup c1 c2 b rd1 rd2).slot0.valid = false := by
  cases h1 : issueEn1 c1 c2 b with
  | false =>
      rw [issueGroup, h1] at h
      cases h
  | true =>
      have hctl : (issueGroup c1 c2 b rd1 rd2).slot1.ctl = c1.ctl := by
        simp [issueGroup, h1, issueRecord]
      rw [hctl] at h ⊢
      obtain ⟨htlb, hsingle⟩ := refetches_of_writesTlb hc.coherent h
      have h2 : issueEn2 c1 c2 b = false := by simp [issueEn2, hsingle]
      refine ⟨htlb, ?_⟩
      simp [issueGroup, h2]

theorem Solo.step (h : s.Solo) : (s.step i).Solo where
  e := by
    simp only [Cpu.step, CoreState.step]
    refine pipereg2_ordered (P := fun p : Pair IssueData => p.slot1.ctl.writesTlb = true →
      p.slot1.ctl.tlb = true ∧ p.slot0.valid = false) (fun hn => by cases hn) ?_ h.e
    exact solo_issueGroup s.queue.property.candidate1 _ _ _
  m1 := by
    simp only [Cpu.step, CoreState.step]
    refine pipereg2_ordered (P := fun p : Pair ExecuteData => p.slot1.ctl.writesTlb = true →
      p.slot1.branchTaken = true ∧ p.slot0.valid = false) (fun hn => by cases hn) ?_ h.m1
    intro hn
    obtain ⟨htlb, hv⟩ := h.e hn
    refine ⟨?_, ?_⟩
    · change branchTakenOf s.core.dataI.slot1 _ = true
      rw [branchTakenOf, htlb]
      simp
    · change (!exceptionOf _ _ && s.core.dataI.slot0.valid) = false
      rw [hv, Bool.and_false]
  m2 := by
    simp only [Cpu.step, CoreState.step]
    refine pipereg2_ordered (P := fun p : Pair ExecuteData => p.slot1.ctl.writesTlb = true →
      p.slot0.valid = false) (fun hn => by cases hn) ?_ h.m2
    exact fun hn => (h.m1 hn).2
  m3 := by
    simp only [Cpu.step, CoreState.step]
    exact pipereg2_ordered (P := fun p : Pair ExecuteData => p.slot1.ctl.writesTlb = true →
      p.slot0.valid = false) (fun hn => by cases hn) h.m2 h.m3
  w := by
    simp only [Cpu.step, CoreState.step]
    exact pipereg2_ordered (P := fun p : Pair MemoryData => p.slot1.ctl.writesTlb = true →
      p.slot0.valid = false) (fun hn => by cases hn) h.m3 h.w

/-! ### Nothing is close behind a write -/

/-- The instructions behind M2, up to the register behind the decoder. -/
def behindM2 (s : Cpu) : List Token := s.stages.m1 ++ s.stages.e ++ s.stages.queue ++ s.stages.d

/-- Behind a write in M2 there is nothing, behind one in M3 there is at most a fetch, and behind
one in W at most what has not reached the decoder's register. -/
structure Apart (s : Cpu) : Prop where
  ordered : s.Ordered
  solo : s.Solo
  m2 : s.core.dataM1.slot1.ctl.writesTlb = true →
    s.behindM2 = [] ∧ s.front.dataF2.slot1.valid = false ∧ s.front.dataF1.valid = false
  m3 : s.core.dataM2.slot1.ctl.writesTlb = true →
    s.stages.m2 = [] ∧ s.behindM2 = [] ∧ s.front.dataF2.slot1.valid = false
  w : s.core.dataM3.slot1.ctl.writesTlb = true →
    s.stages.m3 = [] ∧ s.stages.m2 = [] ∧ s.behindM2 = []

theorem behindM2_eq_nil : s.behindM2 = [] ↔
    s.stages.m1 = [] ∧ s.stages.e = [] ∧ s.stages.queue = [] ∧ s.stages.d = [] := by
  rw [behindM2, List.append_eq_nil_iff, List.append_eq_nil_iff, List.append_eq_nil_iff, and_assoc,
    and_assoc]

theorem apart_reset : Apart {} :=
  ⟨ordered_reset, solo_reset, fun h => (by cases h), fun h => (by cases h), fun h => (by cases h)⟩

/-- The decoder delivers nothing without a valid older instruction. -/
theorem entering_eq_nil (h : s.Ordered) (hv : s.front.dataF2.slot1.valid = false) :
    s.entering = [] := by
  have h0 : s.front.dataF2.slot0.valid = false := by
    rw [Bool.eq_false_iff]
    intro hn
    rw [h.f2 hn] at hv
    cases hv
  have h1 : (decode s.front.dataF2).slot1.valid = false := hv
  have h2 : (decode s.front.dataF2).slot0.valid = false := h0
  rw [entering, decodeTokens, slotTokens, h1, h2]
  rfl

theorem dataF1_step : (s.step i).front.dataF1 =
    pipereg2 {} (s.hazardFront i).stallF2 (s.hazardFront i).flushF2 (s.fetchRecord i)
      s.front.dataF1 := rfl

theorem dataF2_step : (s.step i).front.dataF2 =
    pipereg2 ⟨{}, {}⟩ (s.hazardFront i).stallD (s.hazardFront i).flushD
      (dataF2Nxt s.front.dataF1 (instrWords i.instrData s.front.rawInstrSave)) s.front.dataF2 := rfl

theorem dataF2_step_valid (h1 : s.front.dataF1.valid = false)
    (h2 : s.front.dataF2.slot1.valid = false) : (s.step i).front.dataF2.slot1.valid = false := by
  rw [dataF2_step]
  exact pipereg2_ordered (P := fun p : Pair FetchData => p.slot1.valid = false) rfl h1 h2

/-- A squash empties the fetch stages. -/
theorem front_of_squash
    (hc : (s.hazardIn i).chain s.front.fihazrd = (s.hazardIn i).squashFront s.front.fihazrd) :
    (s.step i).front.dataF1.valid = false ∧ (s.step i).front.dataF2.slot1.valid = false := by
  have hF2 : (s.hazardFront i).flushF2 = true := by
    rw [hazardFront, HazardIn.front, hc]
    split <;> rfl
  have hD : (s.hazardFront i).flushD = true := by
    rw [hazardFront, HazardIn.front_flushD, hc]
    rfl
  refine ⟨?_, ?_⟩
  · rw [dataF1_step, hF2, pipereg2, if_pos rfl]
  · rw [dataF2_step, hD, pipereg2, if_pos rfl]

/-- A wait behind the fetch holds what is in its stages. -/
theorem front_of_stall
    (hc : (s.hazardIn i).chain s.front.fihazrd =
      { stallF := true, stallF2 := true, stallD := true, stallI := true, stallIDe := true,
        fihazrdNxt := s.front.fihazrd }) :
    (s.step i).front.dataF1 = s.front.dataF1 ∧ (s.step i).front.dataF2 = s.front.dataF2 := by
  have hh : s.hazardFront i = (s.hazardIn i).chain s.front.fihazrd := by
    rw [hazardFront, HazardIn.front, hc]
    rfl
  refine ⟨?_, ?_⟩
  · rw [dataF1_step, hh, hc]
    rfl
  · rw [dataF2_step, hh, hc]
    rfl

/-- The control records behind E, from the outputs of the hazard unit. -/
theorem slot1_ctl_step {b : HazardOut} (hb : (s.hazardIn i).back = b) :
    (s.step i).core.dataM3.slot1.ctl = (if b.flushW then {} else s.core.dataM2.slot1.ctl) ∧
      (s.step i).core.dataM2.slot1.ctl = (if b.flushM3 then {} else s.core.dataM1.slot1.ctl) ∧
      (s.step i).core.dataM1.slot1.ctl =
        (if b.flushM2 then {} else if b.stallM2 then s.core.dataM1.slot1.ctl
          else s.core.dataE.slot1.ctl) := by
  have hc : s.core.hazardOut (s.coreInput i) = b := hb
  simp only [Cpu.step, CoreState.step, hc, pipereg2]
  refine ⟨?_, ?_, ?_⟩
  · cases b.flushW <;> rfl
  · cases b.flushM3 <;> rfl
  · cases b.flushM2 <;> cases b.stallM2 <;> rfl

/-- With a write in M1 the stages do not move on as they are. -/
theorem branchM_of_writesTlb (h : s.Solo) (hx : s.core.dataE.slot1.ctl.writesTlb = true) :
    ((s.hazardIn i).excpM || (s.hazardIn i).branchM) = true := by
  have hb : (s.hazardIn i).branchM = true := by
    change (s.core.dataE.slot1.branchTaken || s.core.dataE.slot1.ctl.cacheI) = true
    rw [(h.m1 hx).1]
    rfl
  rw [hb, Bool.or_true]

theorem not_writesTlb_of_busy (h : s.Solo) (he : s.event i true = .busy) :
    s.core.dataE.slot1.ctl.writesTlb = false := by
  rw [Bool.eq_false_iff]
  intro hx
  rw [event, branchM_of_writesTlb h hx] at he
  split at he
  · cases he
  · split at he <;> cases he

theorem not_writesTlb_of_move (h : s.Solo) {n : ℕ} {full drops : Bool}
    (he : s.event i true = .move n full drops) : s.core.dataE.slot1.ctl.writesTlb = false := by
  rw [Bool.eq_false_iff]
  intro hx
  rw [event, branchM_of_writesTlb h hx] at he
  split at he
  · cases he
  · split at he <;> cases he

theorem Apart.step (h : s.Apart) : (s.step i).Apart := by
  have hst := stages_step (i := i) h.ordered
  refine ⟨h.ordered.step, h.solo.step, ?_, ?_, ?_⟩
  all_goals rw [behindM2_eq_nil]
  · intro hx
    rcases s.event_cases i true with ⟨hev, hc, hb⟩ | ⟨hev, hc, hb⟩ | ⟨hev, hc, hb⟩ |
      ⟨hev, hc, hb⟩ | ⟨hev, -, -, -, -, hb⟩
    · rw [(slot1_ctl_step hb).2.2] at hx
      cases hx
    · rw [(slot1_ctl_step hb).2.2] at hx
      obtain ⟨hl, h2, h1⟩ := h.m2 hx
      obtain ⟨hF1, hF2⟩ := front_of_stall hc
      rw [hst, hev, hF1, hF2]
      exact ⟨behindM2_eq_nil.mp hl, h2, h1⟩
    · obtain ⟨h1, h2⟩ := front_of_squash hc
      rw [hst, hev]
      exact ⟨⟨rfl, rfl, rfl, rfl⟩, h2, h1⟩
    · rw [(slot1_ctl_step hb).2.2] at hx
      exact absurd hx (by simp [not_writesTlb_of_busy h.solo hev])
    · rw [(slot1_ctl_step hb).2.2] at hx
      exact absurd hx (by simp [not_writesTlb_of_move h.solo hev])
  · intro hx
    rcases s.event_cases i true with ⟨hev, hc, hb⟩ | ⟨hev, hc, hb⟩ | ⟨hev, hc, hb⟩ |
      ⟨hev, hc, hb⟩ | ⟨hev, -, -, -, -, hb⟩
    · rw [(slot1_ctl_step hb).2.1] at hx
      cases hx
    · rw [(slot1_ctl_step hb).2.1] at hx
      cases hx
    · rw [(slot1_ctl_step hb).2.1] at hx
      obtain ⟨hl, -, -⟩ := h.m2 hx
      rw [hst, hev]
      exact ⟨(behindM2_eq_nil.mp hl).1, ⟨rfl, rfl, rfl, rfl⟩, (front_of_squash hc).2⟩
    · rw [(slot1_ctl_step hb).2.1] at hx
      obtain ⟨hl, h2, -⟩ := h.m2 hx
      obtain ⟨hm1, he, hq, hd⟩ := behindM2_eq_nil.mp hl
      rw [hst, hev, (front_of_stall hc).2]
      exact ⟨hm1, ⟨rfl, he, hq, hd⟩, h2⟩
    · rw [(slot1_ctl_step hb).2.1] at hx
      obtain ⟨hl, h2, h1⟩ := h.m2 hx
      obtain ⟨hm1, he, hq, hd⟩ := behindM2_eq_nil.mp hl
      refine ⟨?_, ?_, dataF2_step_valid h1 h2⟩
      · rw [hst, hev]
        exact hm1
      · rw [hst, hev]
        simp [Stages.next, Stages.kept, he, hq, hd, entering_eq_nil h.ordered h2]
  · intro hx
    rcases s.event_cases i true with ⟨hev, hc, hb⟩ | ⟨hev, hc, hb⟩ | ⟨hev, hc, hb⟩ |
      ⟨hev, hc, hb⟩ | ⟨hev, -, -, -, -, hb⟩
    · rw [(slot1_ctl_step hb).1] at hx
      cases hx
    · rw [(slot1_ctl_step hb).1] at hx
      obtain ⟨hm2, hl, -⟩ := h.m3 hx
      rw [hst, hev]
      exact ⟨rfl, hm2, behindM2_eq_nil.mp hl⟩
    · rw [(slot1_ctl_step hb).1] at hx
      obtain ⟨hm2, hl, -⟩ := h.m3 hx
      rw [hst, hev]
      exact ⟨hm2, (behindM2_eq_nil.mp hl).1, rfl, rfl, rfl, rfl⟩
    · rw [(slot1_ctl_step hb).1] at hx
      obtain ⟨hm2, hl, -⟩ := h.m3 hx
      obtain ⟨hm1, he, hq, hd⟩ := behindM2_eq_nil.mp hl
      rw [hst, hev]
      exact ⟨hm2, hm1, rfl, he, hq, hd⟩
    · rw [(slot1_ctl_step hb).1] at hx
      obtain ⟨hm2, hl, h2⟩ := h.m3 hx
      obtain ⟨hm1, he, hq, hd⟩ := behindM2_eq_nil.mp hl
      rw [hst, hev]
      simp [Stages.next, Stages.kept, hm2, hm1, he, hq, hd, entering_eq_nil h.ordered h2]

end Cpu

namespace Stages

variable {α β : Type} {s : Stages α} {entering : List α}

theorem line_map (f : α → β) : (s.map f).line = s.line.map f := by
  simp [line, map]

/-- What is behind M1 after a cycle was behind E. -/
theorem mem_next_back {ev : PipeEvent} {x : α}
    (hx : x ∈ (s.next entering ev).w ++ (s.next entering ev).m3 ++ (s.next entering ev).m2) :
    x ∈ s.m3 ++ s.m2 ++ s.m1 := by
  cases ev with
  | squashW => cases hx
  | squashM => exact hx
  | held =>
      simp only [next, List.append_nil] at hx
      exact List.mem_append_left _ hx
  | busy => exact hx
  | move n full drops => exact hx

theorem mem_next_line {ev : PipeEvent} {x : α} (hx : x ∈ (s.next entering ev).line) :
    x ∈ s.line ∨ x ∈ entering := by
  have hsub : (s.w ++ (s.next entering ev).line).Sublist (s.line ++ entered entering ev) :=
    next_sublist ev
  refine (List.mem_append.mp (hsub.subset (List.mem_append_right _ hx))).imp_right fun hn => ?_
  cases ev with
  | move n full drops => cases full <;> simp_all [entered]
  | _ => cases hn

/-- With nothing behind W only what enters is left. -/
theorem mem_next_of_empty {ev : PipeEvent} {x : α} (hs : s.line = s.w)
    (hx : x ∈ (s.next entering ev).line) : x ∈ entering := by
  have hsub : (s.w ++ (s.next entering ev).line).Sublist (s.line ++ entered entering ev) :=
    next_sublist ev
  rw [hs, List.append_sublist_append_left] at hsub
  have hn := hsub.subset hx
  cases ev with
  | move n full drops => cases full <;> simp_all [entered]
  | _ => cases hn

end Stages

namespace TlbTrace

variable {s : TlbTrace} {i : CpuInput}

/-- The stamps belong to the instructions, and the data addresses behind M1 are translated with
the present contents. -/
structure Kept (s : TlbTrace) : Prop where
  apart : s.cpu.Apart
  tokens : s.flight.map Stamped.token = s.cpu.stages
  translated : ∀ x ∈ s.flight.w ++ s.flight.m3 ++ s.flight.m2, x.translated = s.writes

theorem marked_tokens : s.marked.map Stamped.token = s.flight.map Stamped.token := by
  rw [marked, Stages.map, Stages.map, List.map_map]
  rfl

theorem fresh_tokens : s.fresh.map Stamped.token = s.cpu.entering := by
  rw [fresh, List.map_map]
  exact List.map_id _

theorem Kept.m3_of_w (h : s.Kept) (hx : writesTlb s.cpu.core.dataM3 = true) :
    s.flight.m3 = [] ∧ s.flight.m2 = [] ∧ s.flight.m1 = [] ∧ s.flight.line = s.flight.w := by
  obtain ⟨h3, h2, hl⟩ := h.apart.w hx
  obtain ⟨h1, he, hq, hd⟩ := Cpu.behindM2_eq_nil.mp hl
  have ht := h.tokens
  rw [← ht] at h3 h2 h1 he hq hd
  simp only [Stages.map, List.map_eq_nil_iff] at h3 h2 h1 he hq hd
  refine ⟨h3, h2, h1, ?_⟩
  rw [Stages.line, h3, h2, h1, he, hq, hd]
  simp

theorem Kept.step (h : s.Kept) : (s.step i).Kept where
  apart := h.apart.step
  tokens := by
    change (s.marked.next s.fresh (s.cpu.event i true)).map _ = (s.cpu.step i).stages
    rw [Stages.map_next, marked_tokens, fresh_tokens, h.tokens, Cpu.stages_step h.apart.ordered]
  translated := by
    intro x hx
    have hold : x ∈ s.marked.m3 ++ s.marked.m2 ++ s.marked.m1 := Stages.mem_next_back hx
    change x.translated = if writesTlb s.cpu.core.dataM3 then s.writes + 1 else s.writes
    cases hw : writesTlb s.cpu.core.dataM3 with
    | true =>
        obtain ⟨h3, h2, h1, -⟩ := h.m3_of_w hw
        simp [marked, h3, h2, h1] at hold
    | false =>
        rw [if_neg Bool.false_ne_true]
        rw [List.mem_append] at hold
        rcases hold with hback | hm1
        · refine h.translated x ?_
          rw [List.append_assoc]
          exact List.mem_append_right _ hback
        · obtain ⟨y, -, rfl⟩ := List.mem_map.mp hm1
          rfl

theorem kept_reset : Kept {} where
  apart := Cpu.apart_reset
  tokens := rfl
  translated x hx := by cases hx

/-- The fetches of what is in flight are translated with the present contents. A fetch that is
answered behind a write is none of the TLB. -/
structure Current (s : TlbTrace) : Prop where
  f1 : s.cpu.front.dataF1.valid = true → ∀ n ∈ s.f1, n = s.writes
  f2 : s.cpu.front.dataF2.slot1.valid = true → ∀ n ∈ s.f2, n = s.writes
  flight : ∀ x ∈ s.flight.line, ∀ n ∈ x.fetched, n = s.writes
  m3 : s.cpu.core.dataM2.slot1.ctl.writesTlb = true → s.cpu.front.dataF1.valid = true → s.f1 = none
  w1 : s.cpu.core.dataM3.slot1.ctl.writesTlb = true → s.cpu.front.dataF1.valid = true → s.f1 = none
  w2 : s.cpu.core.dataM3.slot1.ctl.writesTlb = true →
    s.cpu.front.dataF2.slot1.valid = true → s.f2 = none

/-- The fetch in `dataF1` was there before, or was answered in this cycle. -/
theorem f1_cases (hv : (s.step i).cpu.front.dataF1.valid = true) :
    (s.cpu.front.dataF1.valid = true ∧ (s.step i).f1 = s.f1) ∨
      (s.cpu.takesFetch i = true ∧
        (s.step i).f1 = if s.cpu.throughTlb then some s.writes else none) := by
  change (s.cpu.step i).front.dataF1.valid = true at hv
  rw [Cpu.dataF1_step, pipereg2] at hv
  rw [Cpu.takesFetch]
  change _ ∨ (_ ∧ (if (s.cpu.hazardFront i).stallF2 then _ else _) = _)
  cases hf : (s.cpu.hazardFront i).flushF2 with
  | true =>
      rw [hf, if_pos rfl] at hv
      cases hv
  | false =>
      rw [hf, if_neg Bool.false_ne_true] at hv
      cases hs : (s.cpu.hazardFront i).stallF2 with
      | true =>
          rw [hs, if_pos rfl] at hv
          refine Or.inl ⟨hv, ?_⟩
          change (if (s.cpu.hazardFront i).stallF2 then s.f1 else _) = _
          rw [hs, if_pos rfl]
      | false =>
          rw [hs, if_neg Bool.false_ne_true] at hv
          exact Or.inr ⟨by rw [hv]; rfl, rfl⟩

theorem f2_cases (hv : (s.step i).cpu.front.dataF2.slot1.valid = true) :
    (s.cpu.front.dataF2.slot1.valid = true ∧ (s.step i).f2 = s.f2) ∨
      (s.cpu.front.dataF1.valid = true ∧ (s.step i).f2 = s.f1) := by
  change (s.cpu.step i).front.dataF2.slot1.valid = true at hv
  rw [Cpu.dataF2_step, pipereg2] at hv
  change (_ ∧ (if (s.cpu.hazardFront i).stallD then s.f2 else s.f1) = _) ∨
    (_ ∧ (if (s.cpu.hazardFront i).stallD then s.f2 else s.f1) = _)
  cases hf : (s.cpu.hazardFront i).flushD with
  | true =>
      rw [hf, if_pos rfl] at hv
      cases hv
  | false =>
      rw [hf, if_neg Bool.false_ne_true] at hv
      cases hs : (s.cpu.hazardFront i).stallD with
      | true =>
          rw [hs, if_pos rfl] at hv
          exact Or.inl ⟨hv, rfl⟩
      | false =>
          rw [hs, if_neg Bool.false_ne_true] at hv
          exact Or.inr ⟨hv, rfl⟩

/-- What the decoder delivers has the stamp of its fetch. -/
theorem fetched_of_fresh (h : s.cpu.Ordered) {x : Stamped} (hx : x ∈ s.fresh) :
    s.cpu.front.dataF2.slot1.valid = true ∧ x.fetched = s.f2 := by
  obtain ⟨t, ht, rfl⟩ := List.mem_map.mp hx
  refine ⟨?_, rfl⟩
  rw [← Bool.not_eq_false]
  intro hv
  rw [Cpu.entering_eq_nil h hv] at ht
  cases ht

theorem fetched_of_marked {x : Stamped} (hx : x ∈ s.marked.line) :
    ∃ y ∈ s.flight.line, x.fetched = y.fetched := by
  have hmap : s.marked.map Stamped.fetched = s.flight.map Stamped.fetched := by
    rw [marked, Stages.map, Stages.map, List.map_map]
    rfl
  have hmem : x.fetched ∈ (s.marked.map Stamped.fetched).line := by
    rw [Stages.line_map]
    exact List.mem_map_of_mem hx
  rw [hmap, Stages.line_map] at hmem
  obtain ⟨y, hy, hf⟩ := List.mem_map.mp hmem
  exact ⟨y, hy, hf.symm⟩

theorem writes_step : (s.step i).writes =
    if s.cpu.core.dataM3.slot1.ctl.writesTlb then s.writes + 1 else s.writes := rfl

section Step

variable (h : s.Current) (hk : s.Kept) (hc : s.cpu.Settled i)
include h hc

omit h in
/-- With a write under way a fetch that is answered has no stamp. -/
theorem f1_of_due (hd : s.cpu.tlbWriteDue = true)
    (hold : s.cpu.front.dataF1.valid = true → s.f1 = none)
    (hv : (s.step i).cpu.front.dataF1.valid = true) : (s.step i).f1 = none := by
  rcases f1_cases hv with ⟨hv, hf⟩ | ⟨ht, hf⟩
  · rw [hf, hold hv]
  · rw [hf, hc hd ht]
    rfl

theorem f1_step (hv : (s.step i).cpu.front.dataF1.valid = true) :
    ∀ n ∈ (s.step i).f1, n = (s.step i).writes := by
  intro n hn
  rw [writes_step]
  cases hw : s.cpu.core.dataM3.slot1.ctl.writesTlb with
  | true =>
      rw [f1_of_due hc (by rw [Cpu.tlbWriteDue, hw, Bool.or_true]) (h.w1 hw) hv] at hn
      cases hn
  | false =>
      rw [if_neg Bool.false_ne_true]
      rcases f1_cases hv with ⟨hv, hf⟩ | ⟨-, hf⟩
      · exact h.f1 hv n (hf ▸ hn)
      · rw [hf] at hn
        split at hn
        · exact (Option.mem_some.mp hn).symm
        · cases hn

omit hc in
theorem f2_step (hv : (s.step i).cpu.front.dataF2.slot1.valid = true) :
    ∀ n ∈ (s.step i).f2, n = (s.step i).writes := by
  intro n hn
  rw [writes_step]
  cases hw : s.cpu.core.dataM3.slot1.ctl.writesTlb with
  | true =>
      rcases f2_cases hv with ⟨hv, hf⟩ | ⟨hv, hf⟩
      · rw [hf, h.w2 hw hv] at hn
        cases hn
      · rw [hf, h.w1 hw hv] at hn
        cases hn
  | false =>
      rw [if_neg Bool.false_ne_true]
      rcases f2_cases hv with ⟨hv, hf⟩ | ⟨hv, hf⟩
      · exact h.f2 hv n (hf ▸ hn)
      · exact h.f1 hv n (hf ▸ hn)

omit hc in
include hk in
theorem flight_step : ∀ x ∈ (s.step i).flight.line, ∀ n ∈ x.fetched, n = (s.step i).writes := by
  intro x hx n hn
  change x ∈ (s.marked.next s.fresh (s.cpu.event i true)).line at hx
  rw [writes_step]
  cases hw : s.cpu.core.dataM3.slot1.ctl.writesTlb with
  | true =>
      obtain ⟨-, -, h1, hline⟩ := hk.m3_of_w hw
      have hmarked : s.marked = s.flight := by rw [marked, h1, List.map_nil, ← h1]
      rw [hmarked] at hx
      obtain ⟨hv, hf⟩ := fetched_of_fresh hk.apart.ordered (Stages.mem_next_of_empty hline hx)
      rw [hf, h.w2 hw hv] at hn
      cases hn
  | false =>
      rw [if_neg Bool.false_ne_true]
      rcases Stages.mem_next_line hx with hx | hx
      · obtain ⟨y, hy, hf⟩ := fetched_of_marked hx
        exact h.flight y hy n (hf ▸ hn)
      · obtain ⟨hv, hf⟩ := fetched_of_fresh hk.apart.ordered hx
        exact h.f2 hv n (hf ▸ hn)

include hk in
theorem Current.step : (s.step i).Current where
  f1 hv := f1_step h hc hv
  f2 hv := f2_step h hv
  flight := flight_step h hk
  m3 hx hv := by
    change (s.cpu.step i).core.dataM2.slot1.ctl.writesTlb = true at hx
    rw [(Cpu.slot1_ctl_step rfl).2.1] at hx
    split at hx
    · cases hx
    · refine f1_of_due hc (by rw [Cpu.tlbWriteDue, hx]; rfl) (fun hv' => ?_) hv
      rw [(hk.apart.m2 hx).2.2] at hv'
      cases hv'
  w1 hx hv := by
    change (s.cpu.step i).core.dataM3.slot1.ctl.writesTlb = true at hx
    rw [(Cpu.slot1_ctl_step rfl).1] at hx
    split at hx
    · cases hx
    · exact f1_of_due hc (by rw [Cpu.tlbWriteDue, hx, Bool.or_true]; rfl) (h.m3 hx) hv
  w2 hx hv := by
    change (s.cpu.step i).core.dataM3.slot1.ctl.writesTlb = true at hx
    rw [(Cpu.slot1_ctl_step rfl).1] at hx
    split at hx
    · cases hx
    · rcases f2_cases hv with ⟨hv, hf⟩ | ⟨hv, hf⟩
      · rw [(hk.apart.m3 hx).2.2] at hv
        cases hv
      · rw [hf, h.m3 hx hv]

end Step

theorem current_reset : Current {} where
  f1 hv := by cases hv
  f2 hv := by cases hv
  flight x hx := by cases hx
  m3 hx := by cases hx
  w1 hx := by cases hx
  w2 hx := by cases hx

/-- A program that writes an entry with `TLBWI`, then goes to its page, whose first instruction
is `TLBWI` again, with another frame in `EntryLo0`. The rest is empty. -/
def remapCycles : List CpuInput :=
  let fed (w1 w0 : Word) : CpuInput := { instrData := ⟨w1, w0⟩ }
  let empty : CpuInput := {}
  [empty, fed 0x24010003#32 0x24022000#32, fed 0x40811000#32 0x40811800#32,
    fed 0x40825000#32 0x42000002#32, fed 0x24010043#32 0x40811000#32, fed 0x00400008#32 0#32] ++
  List.replicate 6 empty ++ [fed 0x24010043#32 0x40811000#32, fed 0x00400008#32 0#32] ++
  List.replicate 7 empty ++ [fed 0x42000002#32 0#32] ++ List.replicate 14 empty

end TlbTrace

end FrailCPU
