import FrailCPU.Core.Cpu
import FrailCPU.Core.Flight

/-!
# No instruction is lost or duplicated

The registers from the decoder to W as the stages of one line, and what a cycle may do to
them: everything moves, or the stages from E or from M1 up to the queue stand still, or an
event removes what is younger. `hazard.sv` gives each register its own enable and flush;
together they make one of these moves. In every run the stages hold the instructions of
the line, numbered in the order in which the decoder delivered them.
-/

namespace FrailCPU

/-- The contents of the stages, in each of them the older instruction first. -/
@[ext]
structure Stages (α : Type) where
  w : List α := []
  m3 : List α := []
  m2 : List α := []
  m1 : List α := []
  e : List α := []
  queue : List α := []
  d : List α := []
  deriving DecidableEq

/-- What a cycle does. In `move`, the queue hands over its first `issued` instructions,
takes what the decoder has delivered unless it is full, and the younger companion of an
instruction that overflows is dropped if `drops`. -/
inductive PipeEvent
  | squashW | squashM | held | busy
  | move (issued : ℕ) (full : Bool) (drops : Bool)
  deriving DecidableEq

namespace Stages

variable {α β : Type} (s : Stages α) (entering : List α)

/-- All instructions in flight, the oldest first. -/
def line : List α := s.w ++ s.m3 ++ s.m2 ++ s.m1 ++ s.e ++ s.queue ++ s.d

def map (f : α → β) : Stages β where
  w := s.w.map f
  m3 := s.m3.map f
  m2 := s.m2.map f
  m1 := s.m1.map f
  e := s.e.map f
  queue := s.queue.map f
  d := s.d.map f

/-- What is left of the group in E. -/
def kept (drops : Bool) : List α := if drops then s.e.take 1 else s.e

/-- The stages after a cycle. -/
def next : PipeEvent → Stages α
  | .squashW => {}
  | .squashM => { w := s.m3, m3 := s.m2, m2 := s.m1 }
  | .held => { s with w := s.m3, m3 := [] }
  | .busy => { s with w := s.m3, m3 := s.m2, m2 := s.m1, m1 := [] }
  | .move n full drops =>
    { w := s.m3
      m3 := s.m2
      m2 := s.m1
      m1 := s.kept drops
      e := s.queue.take n
      queue := s.queue.drop n ++ if full then [] else s.d
      d := if full then s.d else entering }

/-- The instructions that enter the line in a cycle. -/
def entered (entering : List α) : PipeEvent → List α
  | .move _ full _ => if full then [] else entering
  | _ => []

/-- The instructions that a cycle removes: those younger than the pair in W, those younger
than the pair in M1, or a dropped companion. -/
def removed : PipeEvent → List α
  | .squashW => s.m3 ++ s.m2 ++ s.m1 ++ s.e ++ s.queue ++ s.d
  | .squashM => s.e ++ s.queue ++ s.d
  | .move _ _ drops => if drops then s.e.drop 1 else []
  | _ => []

variable {s entering}

theorem map_next (f : α → β) (ev : PipeEvent) :
    (s.next entering ev).map f = (s.map f).next (entering.map f) ev := by
  cases ev with
  | move n full drops =>
      cases full <;> cases drops <;> simp [next, kept, map, List.map_take, List.map_drop]
  | _ => rfl

/-- What does not enter has no effect. -/
theorem next_entered (ev : PipeEvent) :
    s.next entering ev = s.next (entered entering ev) ev := by
  cases ev with
  | move n full drops => cases full <;> rfl
  | _ => rfl

theorem map_entered (f : α → β) (ev : PipeEvent) :
    (entered entering ev).map f = entered (entering.map f) ev := by
  cases ev with
  | move n full drops => cases full <;> rfl
  | _ => rfl

theorem map_congr {f g : α → β} (h : ∀ a ∈ s.line, f a = g a) : s.map f = s.map g := by
  simp only [line, List.mem_append] at h
  ext1 <;> refine List.map_congr_left fun a ha => h a ?_ <;> simp [ha]

theorem line_next_move (n : ℕ) (full drops : Bool) :
    (s.next entering (.move n full drops)).line =
      s.m3 ++ s.m2 ++ s.m1 ++ s.kept drops ++ s.queue ++ s.d ++
        entered entering (.move n full drops) := by
  have hq : ∀ l : List α, s.queue.take n ++ (s.queue.drop n ++ l) = s.queue ++ l := fun l => by
    rw [← List.append_assoc, List.take_append_drop]
  cases full <;> simp [next, line, entered, hq]

/-- Nothing overtakes: what leaves W and what stays is a part of the line, in its order. -/
theorem next_sublist (ev : PipeEvent) :
    (s.w ++ (s.next entering ev).line).Sublist (s.line ++ entered entering ev) := by
  cases ev with
  | squashW => simp [next, line, entered]
  | squashM => simp [next, line, entered]
  | held => simp [next, line, entered]
  | busy => simp [next, line, entered]
  | move n full drops =>
      have he : (s.kept drops).Sublist s.e := by
        rw [kept]
        split
        · exact List.take_sublist ..
        · exact List.Sublist.refl _
      rw [line_next_move]
      simp only [line, List.append_assoc]
      gcongr

/-- Nothing is lost or duplicated: the line is what leaves W, what stays and what is
removed. -/
theorem next_perm (ev : PipeEvent) :
    (s.line ++ entered entering ev).Perm (s.w ++ (s.next entering ev).line ++ s.removed ev) := by
  cases ev with
  | squashW => simp [next, line, entered, removed]
  | squashM => simp [next, line, entered, removed]
  | held => simp [next, line, entered, removed]
  | busy => simp [next, line, entered, removed]
  | move n full drops =>
      have he : s.e = s.kept drops ++ s.removed (.move n full drops) := by
        cases drops with
        | true => exact (List.take_append_drop 1 s.e).symm
        | false => exact (List.append_nil s.e).symm
      have tail_comm : ∀ l l' : List α, (l ++ l').Perm (l' ++ l) := fun _ _ =>
        List.perm_append_comm
      have hp := List.Perm.append_left (s.w ++ s.m3 ++ s.m2 ++ s.m1 ++ s.kept drops)
        (tail_comm (s.removed (.move n full drops))
          (s.queue ++ s.d ++ entered entering (.move n full drops)))
      rw [line_next_move, line]
      nth_rewrite 1 [he]
      simpa only [List.append_assoc] using hp

end Stages

/-- What a record keeps on its way from the decoder to W. -/
structure Token where
  pc : Word := 0#32
  op : DecodedOp := .addu
  rdst : CregAddr := 0#5
  cp0ra : BitVec 8 := 0#8
  deriving DecidableEq, Inhabited

def DecodeData.token (d : DecodeData) : Token := ⟨d.pc, d.ctl.op, d.rdst, d.cp0ra⟩

def IssueData.token (d : IssueData) : Token := ⟨d.pc, d.ctl.op, d.rdst, d.cp0ra⟩

def ExecuteData.token (d : ExecuteData) : Token := ⟨d.pc, d.ctl.op, d.rdst, d.cp0ra⟩

def MemoryData.token (d : MemoryData) : Token := ⟨d.pc, d.ctl.op, d.rdst, d.cp0ra⟩

/-- The valid instructions of a group, the older one first. -/
def slotTokens {α : Type} (valid : α → Bool) (token : α → Token) (p : Pair α) : List Token :=
  (if valid p.slot1 then [token p.slot1] else []) ++ if valid p.slot0 then [token p.slot0] else []

def issueTokens (p : Pair IssueData) : List Token := slotTokens (·.valid) IssueData.token p

def executeTokens (p : Pair ExecuteData) : List Token := slotTokens (·.valid) ExecuteData.token p

def memoryTokens (p : Pair MemoryData) : List Token := slotTokens (·.valid) MemoryData.token p

def decodeTokens (p : Pair DecodeData) : List Token := slotTokens (·.valid) DecodeData.token p

namespace Cpu

variable (s : Cpu) (i : CpuInput)

/-- The valid instructions in the stages. -/
def stages : Stages Token where
  w := memoryTokens s.core.dataM3
  m3 := executeTokens s.core.dataM2
  m2 := executeTokens s.core.dataM1
  m1 := executeTokens s.core.dataE
  e := issueTokens s.core.dataI
  queue := s.queue.val.contents.map DecodeData.token
  d := decodeTokens (decode s.dataD)

/-- What the decoder delivers in this cycle. -/
def entering : List Token := decodeTokens (decode s.front.dataF2)

/-- The number of candidates that may leave. -/
def issued : ℕ :=
  let b := (s.issueInput i).bypass
  let q := s.queue.val
  (if issueEn1 q.candidate1 q.candidate2 b then 1 else 0) +
    if issueEn2 q.candidate1 q.candidate2 b then 1 else 0

/-- The event of the cycle: an exception, an interrupt or an `ERET` in W, a wait of M1, an
exception or a redirect in M1, a wait of E, or none of these. With `drops`, the companion of
an instruction that overflows counts as removed. -/
def event (drops : Bool) : PipeEvent :=
  let h := s.hazardIn i
  if h.excpW then .squashW
  else if h.dWait || h.waitM then .held
  else if h.excpM || h.branchM then .squashM
  else if h.eWait then .busy
  else .move (s.issued i) h.overflowI
    (drops && exceptionOf s.core.dataI.slot1 s.core.operands.slot1)

/-- Slot 1 of the arrivals is filled first, in every stage of the fetch, and the rings of
the queue are those of a FIFO. -/
structure Ordered (s : Cpu) : Prop where
  f1 : s.front.dataF1.nxtValid = true → s.front.dataF1.valid = true
  f2 : s.front.dataF2.slot0.valid = true → s.front.dataF2.slot1.valid = true
  d : s.dataD.slot0.valid = true → s.dataD.slot1.valid = true
  queue : ∃ p t, s.queue.val.Counts p t
  e : s.core.dataI.slot0.valid = true → s.core.dataI.slot1.valid = true

variable {s i}

theorem ordered_reset : Ordered {} where
  f1 := fun h => h
  f2 := fun h => h
  d := fun h => h
  queue := ⟨0, 0, IssueQueue.counts_reset⟩
  e := fun h => h

theorem pipereg2_ordered {α : Type} {P : α → Prop} {zero nxt out : α} {stall flush : Bool}
    (hz : P zero) (hn : P nxt) (ho : P out) : P (pipereg2 zero stall flush nxt out) := by
  rw [pipereg2]
  split
  · exact hz
  · split
    · exact ho
    · exact hn

theorem valid_of_issueEn1 {c1 c2 : DecodeData} {b : Pair PortBypass}
    (h : issueEn1 c1 c2 b = true) : c1.valid = true := by
  simp only [issueEn1, Bool.and_eq_true] at h
  exact h.1.1

/-- The issued pair carries the tokens of its candidates. -/
theorem issueTokens_issueGroup (c1 c2 : DecodeData) (b : Pair PortBypass) (rd1 rd2 : Pair Word) :
    issueTokens (issueGroup c1 c2 b rd1 rd2) =
      (if issueEn1 c1 c2 b then [c1.token] else []) ++
        if issueEn2 c1 c2 b then [c2.token] else [] := by
  have h1 : (if (issueGroup c1 c2 b rd1 rd2).slot1.valid
      then [(issueGroup c1 c2 b rd1 rd2).slot1.token] else []) =
      if issueEn1 c1 c2 b then [c1.token] else [] := by
    simp only [issueGroup]
    split
    · exact if_pos (valid_of_issueEn1 (by assumption))
    · rfl
  have h0 : (if (issueGroup c1 c2 b rd1 rd2).slot0.valid
      then [(issueGroup c1 c2 b rd1 rd2).slot0.token] else []) =
      if issueEn2 c1 c2 b then [c2.token] else [] := by
    simp only [issueGroup]
    by_cases he : issueEn2 c1 c2 b = true
    · rw [if_pos he, if_pos he]
      exact if_pos (issueEn2_together he).valid2
    · rw [if_neg he, if_neg he]
      rfl
  rw [issueTokens, slotTokens, h1, h0]

/-- The first entries of a list, when only entries are asked for. -/
theorem heads_eq_take (l : List DecodeData) {e1 e2 : Bool} (h21 : e2 = true → e1 = true)
    (h1 : e1 = true → (l[0]?.getD ({} : DecodeData)).valid = true)
    (h2 : e2 = true → (l[1]?.getD ({} : DecodeData)).valid = true) :
    ((if e1 = true then [(l[0]?.getD ({} : DecodeData)).token] else []) ++
      if e2 = true then [(l[1]?.getD ({} : DecodeData)).token] else []) =
      (l.map DecodeData.token).take
        ((if e1 = true then 1 else 0) + if e2 = true then 1 else 0) := by
  cases e1 with
  | false =>
      cases e2 with
      | false => rfl
      | true => cases h21 rfl
  | true =>
      match l, e2 with
      | [], _ => cases h1 rfl
      | [_], false => rfl
      | [_], true => cases h2 rfl
      | _ :: _ :: _, false => rfl
      | _ :: _ :: _, true => rfl

/-- What issues is taken from the front of the queue. -/
theorem issueTokens_dataINxt (h : s.Ordered) :
    issueTokens (s.core.dataINxt (s.coreInput i)) =
      (s.queue.val.contents.map DecodeData.token).take (s.issued i) := by
  obtain ⟨p, t, hc⟩ := h.queue
  have hnxt : issueTokens (s.core.dataINxt (s.coreInput i)) = _ :=
    issueTokens_issueGroup s.queue.val.candidate1 s.queue.val.candidate2
      (s.issueInput i).bypass _ _
  have h21 : issueEn2 s.queue.val.candidate1 s.queue.val.candidate2 (s.issueInput i).bypass = true →
      issueEn1 s.queue.val.candidate1 s.queue.val.candidate2 (s.issueInput i).bypass = true :=
    issueEn1_of_issueEn2
  have h1 : issueEn1 s.queue.val.candidate1 s.queue.val.candidate2 (s.issueInput i).bypass = true →
      s.queue.val.candidate1.valid = true := valid_of_issueEn1
  have h2 : issueEn2 s.queue.val.candidate1 s.queue.val.candidate2 (s.issueInput i).bypass = true →
      s.queue.val.candidate2.valid = true := fun he => (issueEn2_together he).valid2
  rw [hnxt, issued]
  generalize issueEn1 s.queue.val.candidate1 s.queue.val.candidate2 (s.issueInput i).bypass = e1
    at h21 h1 ⊢
  generalize issueEn2 s.queue.val.candidate1 s.queue.val.candidate2 (s.issueInput i).bypass = e2
    at h21 h2 ⊢
  rw [hc.candidate1] at h1 ⊢
  rw [hc.candidate2] at h2 ⊢
  exact heads_eq_take _ h21 h1 h2

/-- On the way from E to M1 slot 0 of a pair is dropped if slot 1 overflows. -/
theorem executeTokens_execute {dataI : Pair IssueData} (rd : Pair Operands) (u : MulDivResult)
    (h : dataI.slot0.valid = true → dataI.slot1.valid = true) :
    executeTokens (execute dataI rd u) =
      if exceptionOf dataI.slot1 rd.slot1 then (issueTokens dataI).take 1
      else issueTokens dataI := by
  have ht1 : (execute dataI rd u).slot1.token = dataI.slot1.token := rfl
  have ht0 : (execute dataI rd u).slot0.token = dataI.slot0.token := rfl
  have hv1 : (execute dataI rd u).slot1.valid = dataI.slot1.valid := rfl
  have hv0 : (execute dataI rd u).slot0.valid =
      (!exceptionOf dataI.slot1 rd.slot1 && dataI.slot0.valid) := rfl
  rw [executeTokens, issueTokens, slotTokens, slotTokens, ht1, ht0, hv1, hv0]
  cases exceptionOf dataI.slot1 rd.slot1 <;> cases h1 : dataI.slot1.valid <;>
    cases h0 : dataI.slot0.valid <;> simp [h1, h0] at h ⊢

theorem executeTokens_memory (dataE : Pair ExecuteData) (exc : Pair TlbExc) :
    executeTokens (memory dataE exc) = executeTokens dataE := by
  have ht0 : (memory dataE exc).slot0.token = dataE.slot0.token := by
    simp only [memory, ExecuteData.token]
    split <;> rfl
  simp only [executeTokens, slotTokens, ht0]
  rfl

theorem memoryTokens_memory3 (dataE : Pair ExecuteData) (respData : Pair Word) :
    memoryTokens (memory3 dataE respData) = executeTokens dataE := rfl

/-- The queue keeps its order: it is flushed, or the heads and the tails move. -/
theorem Ordered.queue_step (h : s.Ordered) :
    (∃ p t, (s.step i).queue.val.Counts p t) ∧
      (s.step i).queue.val.contents =
        if (s.hazardFront i).flushQue then []
        else s.queue.val.contents.drop (s.queue.val.departures (s.issueInput i)) ++
          IssueQueue.arrivals (s.issueInput i) := by
  obtain ⟨p, t, hc⟩ := h.queue
  cases hf : (s.hazardFront i).flushQue with
  | true =>
      have hreset : (s.step i).queue.val.Counts 0 0 := IssueQueue.counts_flushed hf
      exact ⟨⟨0, 0, hreset⟩, hreset.contents⟩
  | false =>
      have hg : s.queue.val.overflow = true → (s.issueInput i).stallI = true := fun ho =>
        (HazardIn.overflow_stalls (h := s.hazardIn i) ho).resolve_right
          (fun hq => by rw [show (s.hazardFront i).flushQue = true from hq] at hf; cases hf)
      exact ⟨⟨_, _, hc.step hf h.d hg⟩, hc.contents_step hf h.d hg⟩

theorem Ordered.step (h : s.Ordered) : (s.step i).Ordered where
  f1 := by
    refine pipereg2_ordered (P := fun d : Fetch1Data => d.nxtValid = true → d.valid = true)
      (fun hv => hv) (fun hv => ?_) h.f1
    simp only [dataF1Nxt, Bool.and_eq_true] at hv ⊢
    exact hv.2
  f2 := pipereg2_ordered
    (P := fun d : Pair FetchData => d.slot0.valid = true → d.slot1.valid = true)
    (fun hv => hv) h.f1 h.f2
  d := pipereg2_ordered
    (P := fun d : Pair FetchData => d.slot0.valid = true → d.slot1.valid = true)
    (fun hv => hv) h.f2 h.d
  queue := h.queue_step.1
  e := by
    refine pipereg2_ordered
      (P := fun d : Pair IssueData => d.slot0.valid = true → d.slot1.valid = true)
      (fun hv => hv) (fun hv => ?_) h.e
    simp only [CoreState.dataINxt, issueGroup] at hv ⊢
    split at hv
    · have he := ‹issueEn2 _ _ _ = true›
      rw [if_pos (issueEn1_of_issueEn2 he)]
      exact valid_of_issueEn1 (issueEn1_of_issueEn2 he)
    · cases hv

theorem arrivals_tokens :
    (IssueQueue.arrivals (s.issueInput i)).map DecodeData.token =
      if (s.hazardFront i).stallI then [] else s.stages.d := by
  have hi : (s.issueInput i).stallI = (s.hazardFront i).stallI := rfl
  have hd : (s.issueInput i).dataF2 = s.dataD := rfl
  rw [IssueQueue.arrivals, hi, hd, stages, decodeTokens, slotTokens]
  generalize (decode s.dataD).slot1 = d1
  generalize (decode s.dataD).slot0 = d0
  cases (s.hazardFront i).stallI <;> cases d1.valid <;> cases d0.valid <;> rfl

/-- The stages behind the queue, from the outputs of the hazard unit. -/
theorem stages_back {b : HazardOut} (hb : (s.hazardIn i).back = b) :
    (s.step i).stages.w = (if b.flushW then [] else s.stages.m3) ∧
      (s.step i).stages.m3 = (if b.flushM3 then [] else s.stages.m2) ∧
      (s.step i).stages.m2 =
        (if b.flushM2 then [] else if b.stallM2 then s.stages.m2 else s.stages.m1) ∧
      (s.step i).stages.m1 =
        (if b.flushM then [] else if b.stallM then s.stages.m1
          else executeTokens (s.core.dataENxt (s.coreInput i))) ∧
      (s.step i).stages.e =
        (if b.flushE then [] else if b.stallE then s.stages.e
          else issueTokens (s.core.dataINxt (s.coreInput i))) := by
  have hc : s.core.hazardOut (s.coreInput i) = b := hb
  have hm : executeTokens s.core.dataM1Nxt = s.stages.m1 := executeTokens_memory _ _
  have hw : memoryTokens (memory3 s.core.dataM2 (s.coreInput i).respData) = s.stages.m3 :=
    memoryTokens_memory3 _ _
  simp only [stages, Cpu.step, CoreState.step, hc, pipereg2] at hm hw ⊢
  refine ⟨?_, ?_, ?_, ?_, ?_⟩
  · cases b.flushW
    · exact hw
    · rfl
  · cases b.flushM3 <;> rfl
  · cases b.flushM2
    · cases b.stallM2
      · exact hm
      · rfl
    · rfl
  · cases b.flushM <;> cases b.stallM <;> rfl
  · cases b.flushE <;> cases b.stallE <;> rfl

/-- The queue and the register behind the decoder, from the outputs of the hazard unit. -/
theorem stages_front (h : s.Ordered) {c : HazardFront}
    (hc : (s.hazardIn i).chain s.front.fihazrd = c) :
    (s.step i).stages.queue =
        (if c.flushQue then []
        else s.stages.queue.drop
            (if !c.stallI || (s.queue.val.overflow && !c.stallIDe) then s.issued i else 0) ++
          if c.stallI then [] else s.stages.d) ∧
      (s.step i).stages.d =
        (if c.flushI then [] else if c.stallI then s.stages.d else s.entering) := by
  have hq : (s.hazardFront i).flushQue = c.flushQue := by
    rw [← hc]
    exact HazardIn.front_flushQue
  have hI : (s.hazardFront i).stallI = c.stallI := by
    rw [← hc]
    exact HazardIn.front_stallI
  have hIDe : (s.hazardFront i).stallIDe = c.stallIDe := by
    rw [← hc]
    exact HazardIn.front_stallIDe
  have hfI : (s.hazardFront i).flushI = c.flushI := by
    rw [← hc]
    exact HazardIn.front_flushI
  have hpop : s.queue.val.departures (s.issueInput i) =
      if !c.stallI || (s.queue.val.overflow && !c.stallIDe) then s.issued i else 0 := by
    rw [← hI, ← hIDe]
    rfl
  have hcontents := (h.queue_step (i := i)).2
  constructor
  · rw [stages, hcontents, hq, hpop]
    cases c.flushQue with
    | true => rfl
    | false =>
        have ht := arrivals_tokens (s := s) (i := i)
        rw [hI] at ht
        simp only [Bool.false_eq_true, if_false, List.map_append, List.map_drop, ht]
        rfl
  · have hd : (s.step i).dataD =
        pipereg2 ⟨{}, {}⟩ c.stallI c.flushI s.front.dataF2 s.dataD := by
      rw [← hI, ← hfI]
      rfl
    simp only [stages, hd, pipereg2]
    cases c.flushI <;> cases c.stallI <;> rfl

/-- The five moves of the hazard unit, with its outputs. -/
theorem event_cases (s : Cpu) (i : CpuInput) (drops : Bool) :
    (s.event i drops = .squashW ∧
        (s.hazardIn i).chain s.front.fihazrd = (s.hazardIn i).squashFront s.front.fihazrd ∧
        (s.hazardIn i).back = { flushE := true, flushM := true, flushM2 := true,
                                flushM3 := true, flushW := true }) ∨
      (s.event i drops = .held ∧
        (s.hazardIn i).chain s.front.fihazrd =
          { stallF := true, stallF2 := true, stallD := true, stallI := true, stallIDe := true,
            fihazrdNxt := s.front.fihazrd } ∧
        (s.hazardIn i).back =
          { stallE := true, stallM := true, stallM2 := true, flushM3 := true }) ∨
      (s.event i drops = .squashM ∧
        (s.hazardIn i).chain s.front.fihazrd = (s.hazardIn i).squashFront s.front.fihazrd ∧
        (s.hazardIn i).back = { flushE := true, flushM := true }) ∨
      (s.event i drops = .busy ∧
        (s.hazardIn i).chain s.front.fihazrd =
          { stallF := true, stallF2 := true, stallD := true, stallI := true, stallIDe := true,
            fihazrdNxt := s.front.fihazrd } ∧
        (s.hazardIn i).back = { stallE := true, flushM := true }) ∨
      (s.event i drops = .move (s.issued i) s.queue.val.overflow
          (drops && exceptionOf s.core.dataI.slot1 s.core.operands.slot1) ∧
        ((s.hazardIn i).chain s.front.fihazrd).flushQue = false ∧
        ((s.hazardIn i).chain s.front.fihazrd).flushI = false ∧
        ((s.hazardIn i).chain s.front.fihazrd).stallI = s.queue.val.overflow ∧
        ((s.hazardIn i).chain s.front.fihazrd).stallIDe = false ∧
        (s.hazardIn i).back = {}) := by
  have ho : (s.hazardIn i).overflowI = s.queue.val.overflow := rfl
  rw [event, ← ho]
  generalize s.hazardIn i = h
  cases hw : h.excpW with
  | true => exact Or.inl ⟨rfl, HazardIn.chain_squash (Or.inl hw), HazardIn.back_squashW hw⟩
  | false =>
      right
      cases hs : h.dWait || h.waitM with
      | true =>
          exact Or.inl ⟨rfl, HazardIn.chain_stall hw (Or.inl hs), HazardIn.back_held hw hs⟩
      | false =>
          right
          cases hm : h.excpM || h.branchM with
          | true =>
              exact Or.inl ⟨rfl, HazardIn.chain_squash (Or.inr ⟨hs, hm⟩),
                HazardIn.back_squashM hw hs hm⟩
          | false =>
              right
              cases he : h.eWait with
              | true =>
                  exact Or.inl ⟨rfl, HazardIn.chain_stall hw (Or.inr ⟨hm, he⟩),
                    HazardIn.back_busy hw hs hm he⟩
              | false =>
                  rw [HazardIn.chain_move hw hs hm he]
                  refine Or.inr ⟨rfl, ?_, ?_, ?_, ?_,
                    HazardIn.back_move hw hs hm he⟩ <;>
                    cases h.overflowI <;> cases h.iWait <;> rfl

/-- A cycle moves the stages as its event says. -/
theorem stages_step (h : s.Ordered) :
    (s.step i).stages = s.stages.next s.entering (s.event i true) := by
  rcases s.event_cases i true with ⟨hev, hc, hb⟩ | ⟨hev, hc, hb⟩ | ⟨hev, hc, hb⟩ |
    ⟨hev, hc, hb⟩ | ⟨hev, hfq, hfi, hsi, hsd, hb⟩
  · obtain ⟨w, m3, m2, m1, e⟩ := stages_back hb
    obtain ⟨q, d⟩ := stages_front (i := i) h hc
    rw [hev]
    exact Stages.ext w m3 m2 m1 e q d
  · obtain ⟨w, m3, m2, m1, e⟩ := stages_back hb
    obtain ⟨q, d⟩ := stages_front (i := i) h hc
    rw [hev]
    refine Stages.ext w m3 m2 m1 e (q.trans ?_) d
    simp [Stages.next]
  · obtain ⟨w, m3, m2, m1, e⟩ := stages_back hb
    obtain ⟨q, d⟩ := stages_front (i := i) h hc
    rw [hev]
    exact Stages.ext w m3 m2 m1 e q d
  · obtain ⟨w, m3, m2, m1, e⟩ := stages_back hb
    obtain ⟨q, d⟩ := stages_front (i := i) h hc
    rw [hev]
    refine Stages.ext w m3 m2 m1 e (q.trans ?_) d
    simp [Stages.next]
  · obtain ⟨w, m3, m2, m1, e⟩ := stages_back hb
    obtain ⟨q, d⟩ := stages_front (i := i) h rfl
    rw [hfq, hsi, hsd] at q
    rw [hfi, hsi] at d
    rw [hev]
    refine Stages.ext w m3 m2 (m1.trans ?_) (e.trans (issueTokens_dataINxt h)) (q.trans ?_) d
    · rw [CoreState.dataENxt]
      exact executeTokens_execute _ _ h.e
    · cases s.queue.val.overflow <;> rfl

/-- The heads of the queue move exactly in the cycles in which the register behind the
issue stage takes what issues. -/
theorem popping_iff_captures :
    (s.queue.val.popping (s.issueInput i) = true ∧ (s.issueInput i).flushQue = false) ↔
      (s.core.hazardOut (s.coreInput i)).stallE = false ∧
        (s.core.hazardOut (s.coreInput i)).flushE = false := by
  have hq : (s.issueInput i).flushQue = _ := HazardIn.front_flushQue
  have hI : (s.issueInput i).stallI = _ := HazardIn.front_stallI
  have hIDe : (s.issueInput i).stallIDe = _ := HazardIn.front_stallIDe
  rw [← hazardIn_back, IssueQueue.popping, hq, hI, hIDe]
  rcases s.event_cases i true with ⟨-, hc, hb⟩ | ⟨-, hc, hb⟩ | ⟨-, hc, hb⟩ |
    ⟨-, hc, hb⟩ | ⟨-, hfq, -, hsi, hsd, hb⟩
  · simp [hc, hb, HazardIn.squashFront]
  · simp [hc, hb]
  · simp [hc, hb, HazardIn.squashFront]
  · simp [hc, hb]
  · cases ho : s.queue.val.overflow <;> simp [hfq, hsi, hsd, hb, ho]

end Cpu

/-- The core with the numbers of the instructions in its stages. `entered` are the
instructions that the decoder has delivered, in their order; `passed` are the numbers of
those that have left W, and `removed` those of the instructions that an event has removed. -/
structure Ledger where
  cpu : Cpu := {}
  entered : List Token := []
  numbers : Stages ℕ := {}
  passed : List ℕ := []
  removed : List ℕ := []

namespace Ledger

variable (drops : Bool) (s : Ledger) (i : CpuInput)

/-- The numbers of the instructions that the decoder delivers in this cycle. -/
def fresh : List ℕ := List.range' s.entered.length s.cpu.entering.length

/-- A clock edge: the numbers move as the event of the cycle says. -/
def step : Ledger where
  cpu := s.cpu.step i
  entered := s.entered ++ Stages.entered s.cpu.entering (s.cpu.event i drops)
  numbers := s.numbers.next s.fresh (s.cpu.event i drops)
  passed := s.passed ++ s.numbers.w
  removed := s.removed ++ s.numbers.removed (s.cpu.event i drops)

/-- The stages hold the instructions of their numbers; what has passed and what is in flight
is in program order; every instruction has passed, is in flight or was removed, and only
one of them, once. The queue moves its heads exactly when the register behind the issue
stage takes what issues. -/
structure InOrder : Prop where
  stages : s.cpu.stages.map some = s.numbers.map (s.entered[·]?)
  order : (s.passed ++ s.numbers.line).Pairwise (· < ·)
  once : (s.passed ++ s.numbers.line ++ s.removed).Perm (List.range s.entered.length)
  heads : ∀ i : CpuInput,
    (s.cpu.queue.val.popping (s.cpu.issueInput i) = true ∧
        (s.cpu.issueInput i).flushQue = false) ↔
      (s.cpu.core.hazardOut (s.cpu.coreInput i)).stallE = false ∧
        (s.cpu.core.hazardOut (s.cpu.coreInput i)).flushE = false

/-- The numbers match, and the arrivals come in order. -/
structure Kept : Prop where
  ordered : s.cpu.Ordered
  stages : s.cpu.stages.map some = s.numbers.map (s.entered[·]?)
  order : (s.passed ++ s.numbers.line).Pairwise (· < ·)
  once : (s.passed ++ s.numbers.line ++ s.removed).Perm (List.range s.entered.length)

variable {s i}

theorem kept_reset : Kept {} where
  ordered := Cpu.ordered_reset
  stages := rfl
  order := List.Pairwise.nil
  once := List.Perm.nil

/-- The numbers that enter are the next ones. -/
theorem entered_fresh (ev : PipeEvent) :
    Stages.entered s.fresh ev =
      List.range' s.entered.length (Stages.entered s.cpu.entering ev).length := by
  cases ev with
  | move n full drops => cases full <;> rfl
  | _ => rfl

theorem Kept.lt_length (h : s.Kept) {k : ℕ} (hk : k ∈ s.passed ++ s.numbers.line) :
    k < s.entered.length :=
  List.mem_range.mp (h.once.mem_iff.mp (List.mem_append_left _ hk))

/-- New numbers change nothing about those in the stages. -/
theorem Kept.lookup_append (h : s.Kept) (l : List Token) :
    s.numbers.map ((s.entered ++ l)[·]?) = s.numbers.map (s.entered[·]?) :=
  Stages.map_congr fun _ hk =>
    List.getElem?_append_left (h.lt_length (List.mem_append_right _ hk))

theorem lookup_fresh (l l' : List Token) :
    (List.range' l.length l'.length).map ((l ++ l')[·]?) = l'.map some := by
  rw [List.range'_eq_map_range, List.map_map]
  apply List.ext_getElem
  · simp
  · intro k h1 h2
    have hk : k < l'.length := by simpa using h2
    simp [hk]

theorem Kept.step (h : s.Kept) : (s.step true i).Kept := by
  have hfresh := entered_fresh (s := s) (s.cpu.event i true)
  refine ⟨h.ordered.step, ?_, ?_, ?_⟩
  · simp only [Ledger.step]
    rw [Cpu.stages_step h.ordered, Stages.map_next, Stages.map_next, h.stages, h.lookup_append,
      Stages.next_entered, ← Stages.map_entered, ← lookup_fresh s.entered, ← hfresh,
      Stages.map_entered, ← Stages.next_entered]
  · have hline : (s.numbers.w ++ (s.numbers.next s.fresh (s.cpu.event i true)).line).Sublist
        (s.numbers.line ++ Stages.entered s.fresh (s.cpu.event i true)) := Stages.next_sublist _
    have hsub := (List.Sublist.refl s.passed).append hline
    simp only [← List.append_assoc] at hsub
    refine List.Pairwise.sublist hsub (List.pairwise_append.mpr ⟨h.order, ?_, fun a ha b hb => ?_⟩)
    · rw [hfresh]
      exact List.pairwise_lt_range'
    · rw [hfresh, List.mem_range'_1] at hb
      exact (h.lt_length ha).trans_le hb.1
  · have hmove : (s.numbers.line ++ Stages.entered s.fresh (s.cpu.event i true)).Perm
        (s.numbers.w ++ (s.numbers.next s.fresh (s.cpu.event i true)).line ++
          s.numbers.removed (s.cpu.event i true)) := Stages.next_perm _
    have hrange : List.range (s.entered ++ Stages.entered s.cpu.entering (s.cpu.event i true)).length =
        List.range s.entered.length ++ Stages.entered s.fresh (s.cpu.event i true) := by
      rw [hfresh, List.length_append, List.range_add, List.range'_eq_map_range]
    have honce := h.once
    simp only [Ledger.step]
    rw [hrange]
    -- both sides as multisets: what leaves W and what is removed changes its place
    rw [← Multiset.coe_eq_coe] at hmove honce ⊢
    simp only [← Multiset.coe_add] at hmove honce ⊢
    generalize Stages.entered s.fresh (s.cpu.event i true) = new at hmove ⊢
    generalize (s.numbers.next s.fresh (s.cpu.event i true)).line = line' at hmove ⊢
    generalize s.numbers.removed (s.cpu.event i true) = gone at hmove ⊢
    calc (s.passed + s.numbers.w + line' + (s.removed + gone) : Multiset ℕ)
        = s.passed + (s.numbers.w + line' + gone) + s.removed := by abel
      _ = s.passed + (s.numbers.line + new) + s.removed := by rw [hmove]
      _ = s.passed + s.numbers.line + s.removed + new := by abel
      _ = List.range s.entered.length + new := by rw [honce]

theorem Kept.inOrder (h : s.Kept) : s.InOrder :=
  ⟨h.stages, h.order, h.once, fun _ => Cpu.popping_iff_captures⟩

end Ledger

/-- In every run from reset no instruction is lost, duplicated or overtaken between the
decoder and W. -/
theorem core_inOrder (is : List CpuInput) :
    (ClockedMachine.run (Ledger.step true) {} is).InOrder :=
  (ClockedMachine.run_invariant (fun _ _ hs => hs.step) Ledger.kept_reset is).inOrder

/-- `lui $1, 0x8000` and `addi $2, $1, -1`, each with an empty instruction behind it. -/
def overflowCycles : List CpuInput :=
  [{}, { instrData := ⟨0x3c018000#32, 0#32⟩ }, { instrData := ⟨0x2022ffff#32, 0#32⟩ }, {}, {}, {}, {}]

/-- The companion of an instruction that overflows does not reach M1. -/
theorem not_core_inOrder_companion :
    ¬ ∀ is : List CpuInput, (ClockedMachine.run (Ledger.step false) {} is).InOrder := by
  intro h
  have hm1 := congrArg (fun t => t.m1.length) (h overflowCycles).stages
  revert hm1
  decide +kernel

end FrailCPU
