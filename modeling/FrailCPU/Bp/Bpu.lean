import FrailCPU.Bp.Jht
import FrailCPU.Core.Step

/-!
# The predictor

`bpu.sv`: the tables of the branches and of the jumps, and `rpct.sv`, the table of the returns.
Whatever is executed, the fetch is sent nowhere but to where an executed instruction has pointed.
The table of the returns has no part in it: nothing assigns `is_jr_ra` in front of E, so no return
is ever written.
-/

namespace FrailCPU

open ClockedMachine

/-- `meta_t` of `rpct.sv`. -/
structure RpctInfo where
  valid : Bool := false
  tag : BitVec 18 := 0#18
  pchi : BitVec 12 := 0#12
  deriving DecidableEq

/-- `get_tag` of `rpct.sv`. -/
def rpctTag (addr : Word) : BitVec 18 := addr.extractLsb' 2 18

/-- `get_index` of `rpct.sv`. -/
def rpctIndex (addr : Word) : BitVec 3 := addr.extractLsb' 14 3

/-- The entry of an address, with its `get_pchi`. -/
def rpctInfo (addr : Word) : RpctInfo := ⟨true, rpctTag addr, addr.extractLsb' 20 12⟩

abbrev RpctRam := BitVec 3 → BhtWay → RpctInfo

/-- The search loops of `rpct.sv`. -/
def rpctLine (m : BhtWay → RpctInfo) (t : BitVec 18) : Option BhtWay :=
  matchLine (fun w => ⟨(m w).valid, (m w).tag⟩) t

structure Rpct where
  callPcRam : RpctRam := fun _ _ => {}
  retPcRam : RpctRam := fun _ _ => {}
  jrraPcRam : RpctRam := fun _ _ => {}
  plruRam : BitVec 3 → BhtWay := fun _ => false

structure RpctInput where
  isCall : Bool := false
  isRet : Bool := false
  pcF1 : Word := 0#32
  jrraPc : Word := 0#32
  callPc : Word := 0#32
  retPc : Word := 0#32

namespace Rpct

variable (s : Rpct) (pcF1 : Word)

/-- `pc_hit` and `pc_hit_line`. -/
def pcHitLine : Option BhtWay := rpctLine (s.jrraPcRam (rpctIndex pcF1)) (rpctTag pcF1)

/-- `pcp4_hit` and `pcp4_hit_line`. -/
def pcp4HitLine : Option BhtWay :=
  rpctLine (s.jrraPcRam (rpctIndex pcF1)) (rpctTag (pcF1 + 4#32))

def hit : Bool := (s.pcp4HitLine pcF1).isSome || (s.pcHitLine pcF1).isSome

def hitLine : BhtWay :=
  match s.pcHitLine pcF1 with
  | some w => w
  | none => (s.pcp4HitLine pcF1).getD false

def prePc : Word :=
  let r := s.retPcRam (rpctIndex pcF1) (s.hitLine pcF1)
  (r.pchi ++ r.tag ++ 0#2 : BitVec 32)

/-- `hit` and `hit_pc`. -/
def answer : JumpHit := ⟨s.hit pcF1, (s.pcHitLine pcF1).isSome⟩

variable (i : RpctInput)

/-- `call_hit` and `call_hit_line`. -/
def callHitLine : Option BhtWay :=
  rpctLine (s.callPcRam (rpctIndex i.callPc)) (rpctTag i.callPc)

/-- `ret_hit` and `ret_hit_line`, in the set of `call_pc`. -/
def retHitLine : Option BhtWay :=
  rpctLine (s.retPcRam (rpctIndex i.callPc)) (rpctTag i.retPc)

def replaceLine : BhtWay := s.plruRam (rpctIndex i.pcF1)

/-- `w_call_pc_re`. -/
def wCallPcRe : BhtWay → RpctInfo :=
  let r := s.callPcRam (rpctIndex i.callPc)
  if (s.callHitLine i).isNone then Function.update r (s.replaceLine i) (rpctInfo i.callPc) else r

/-- `w_ret_pc_re`. -/
def wRetPcRe : BhtWay → RpctInfo :=
  Function.update (s.retPcRam (rpctIndex i.callPc)) ((s.callHitLine i).getD (s.replaceLine i))
    (rpctInfo i.retPc)

/-- `w_jrra_pc_re`. -/
def wJrraPcRe : BhtWay → RpctInfo :=
  let r := s.jrraPcRam (rpctIndex i.retPc)
  match s.retHitLine i with
  | some w => Function.update r w (rpctInfo i.jrraPc)
  | none => r

/-- A clock edge with `resetn` high. -/
def step : Rpct where
  callPcRam :=
    if i.isCall then Function.update s.callPcRam (rpctIndex i.callPc) (s.wCallPcRe i)
    else s.callPcRam
  retPcRam :=
    if i.isCall then Function.update s.retPcRam (rpctIndex i.callPc) (s.wRetPcRe i)
    else s.retPcRam
  jrraPcRam :=
    if i.isRet then Function.update s.jrraPcRam (rpctIndex i.retPc) (s.wJrraPcRe i)
    else s.jrraPcRam
  plruRam :=
    if s.hit i.pcF1 then Function.update s.plruRam (rpctIndex i.pcF1) (!s.hitLine i.pcF1)
    else s.plruRam

end Rpct

/-- What `MyCore.sv` connects to the table of the returns. -/
def BhtCycle.rpctInput (c : BhtCycle) : RpctInput where
  isCall := c.dataI.ctl.op == .jal || c.dataI.ctl.op == .jalr
  isRet := c.dataI.isJrRa
  pcF1 := c.f1Pc
  jrraPc := c.dataI.pc
  callPc := destPcOf c.dataI c.operands
  retPc := if c.dataI.isJrRa then destPcOf c.dataI c.operands else c.dataI.pc + 8#32

structure Bpu where
  bht : Bht := {}
  jht : Jht := {}
  rpct : Rpct := {}

namespace Bpu

variable (s : Bpu) (f1Pc : Word)

/-- `f1_taken`. -/
def taken : Bool := f1Taken s.bht (s.jht.answer f1Pc) (s.rpct.answer f1Pc) f1Pc

/-- `pre_pc`. -/
def prePc : Word := prePcOf s.bht s.jht (s.rpct.answer f1Pc) (s.rpct.prePc f1Pc) f1Pc

def cycle (c : BhtCycle) : Bpu where
  bht := s.bht.cycle c
  jht := s.jht.cycle c
  rpct := s.rpct.step c.rpctInput

/-- The replacement bits are not reset. -/
def reset (bht jht rpct : BitVec 3 → BhtWay) : Bpu where
  bht := { plruRam := bht }
  jht := .reset jht
  rpct := { plruRam := rpct }

end Bpu

/-- The instruction in M1 has pointed to the address. -/
def BhtCycle.Points (c : BhtCycle) (a : Word) : Prop :=
  (c.input.isWrite = true ∨ c.jhtInput.isWrite = true) ∧ a = destPcOf c.dataI c.operands

section Step

variable {R : Word → Prop}

/-- A branch comes into the table with its target, or an entry keeps its own. -/
theorem Bht.step_entry (s : Bht) (i : BhtInput) (k : BhtIndex) (w : BhtWay) :
    i.isWrite = true ∧ ((s.step i).dataRam k w).pc = i.destPc ∨
      (s.step i).metaRam k w = s.metaRam k w ∧
        ((s.step i).dataRam k w).pc = (s.dataRam k w).pc := by
  by_cases hk : k = bhtIndex i.executedBranchPc
  · subst hk
    have hm : (s.step i).metaRam (bhtIndex i.executedBranchPc) w = s.wMeta i w := by
      change Function.update s.metaRam _ (s.wMeta i) _ w = _
      rw [Function.update_self]
    have hd : ((s.step i).dataRam (bhtIndex i.executedBranchPc) w).pc =
        if ((s.inBht i).isSome || i.isWrite) = true ∧ w = s.replaceAddrLine i
        then (s.wPcReplace i).pc else (s.dataRam (bhtIndex i.executedBranchPc) w).pc := by
      change ((if (s.inBht i).isSome || i.isWrite then _ else _ :
        BhtIndex → BhtWay → BhtData) _ _).pc = _
      by_cases hx : ((s.inBht i).isSome || i.isWrite) = true
      · rw [if_pos hx, Function.update_self, Function.update_apply]
        by_cases hw : w = s.replaceAddrLine i
        · rw [if_pos hw, if_pos ⟨hx, hw⟩]
        · rw [if_neg hw, if_neg fun h => hw h.2]
      · rw [if_neg hx, if_neg fun h => hx h.1]
    by_cases he : ((s.inBht i).isNone && i.isWrite) = true
    · have hn : s.inBht i = none ∧ i.isWrite = true := by
        rwa [Bool.and_eq_true, Option.isNone_iff_eq_none] at he
      have hline : s.replaceAddrLine i = s.replaceLine i := by
        rw [replaceAddrLine, hn.1]
        rfl
      by_cases hw : w = s.replaceLine i
      · left
        rw [hd, if_pos ⟨by rw [hn.2, Bool.or_true], hw.trans hline.symm⟩, wPcReplace]
        exact ⟨hn.2, if_pos he⟩
      · right
        rw [hd, if_neg fun h => hw (h.2.trans hline), hm, wMeta, he, Bool.true_and,
          if_neg (by simpa using hw)]
        exact ⟨rfl, rfl⟩
    · right
      have he' := Bool.eq_false_iff.2 he
      constructor
      · rw [hm, wMeta, he', Bool.false_and]
        rfl
      · rw [hd]
        split
        case isTrue h =>
          rw [h.2, wPcReplace, he']
          rfl
        case isFalse => rfl
  · right
    constructor
    · change Function.update s.metaRam _ (s.wMeta i) k w = _
      rw [Function.update_of_ne hk]
    · change ((if (s.inBht i).isSome || i.isWrite then _ else _ :
        BhtIndex → BhtWay → BhtData) _ _).pc = _
      split
      · rw [Function.update_of_ne hk]
      · rfl

/-- What the entries hold. -/
def Bht.Within (s : Bht) (R : Word → Prop) : Prop :=
  ∀ k w, (s.metaRam k w).valid = true → R (s.dataRam k w).pc

theorem Bht.Within.step {s : Bht} {i : BhtInput} (h : s.Within R)
    (hi : i.isWrite = true → R i.destPc) : (s.step i).Within R := by
  intro k w hv
  rcases s.step_entry i k w with ⟨hw, hp⟩ | ⟨hm, hp⟩
  · rw [hp]
    exact hi hw
  · rw [hm] at hv
    rw [hp]
    exact h k w hv

theorem Bht.Within.predictPc {s : Bht} (h : s.Within R) {pc : Word} (hh : s.hit pc = true) :
    R (s.predictPc pc) := by
  rw [Bht.predictPc, if_pos hh]
  exact h _ _ (valid_of_hit hh)

theorem Jht.Within.predictPc {s : Jht} (h : s.Within fun _ => R) {pc : Word}
    (hh : s.hit pc = true) : R (s.predictPc pc) := by
  rw [Jht.predictPc, if_pos hh]
  exact h _ _ (valid_of_hit hh)

/-- No return has been written. -/
def Rpct.Silent (s : Rpct) : Prop := ∀ k w, (s.jrraPcRam k w).valid = false

theorem Rpct.Silent.line {s : Rpct} (h : s.Silent) (k : BitVec 3) (t : BitVec 18) :
    rpctLine (s.jrraPcRam k) t = none := by
  cases hl : rpctLine (s.jrraPcRam k) t with
  | none => rfl
  | some w =>
    have hv : (s.jrraPcRam k w).valid = true := (matchLine_spec hl).1
    rw [h k w] at hv
    cases hv

theorem Rpct.Silent.hit {s : Rpct} (h : s.Silent) (pc : Word) : s.hit pc = false := by
  rw [Rpct.hit, pcp4HitLine, pcHitLine, h.line, h.line]
  rfl

theorem Rpct.Silent.step {s : Rpct} {i : RpctInput} (h : s.Silent) (hi : i.isRet = false) :
    (s.step i).Silent := by
  intro k w
  change ((if i.isRet then _ else s.jrraPcRam : RpctRam) k w).valid = false
  rw [hi]
  exact h k w

end Step

namespace Bpu

variable {s : Bpu} {R : Word → Prop} {c : BhtCycle} {cs : List BhtCycle}

structure Within (s : Bpu) (R : Word → Prop) : Prop where
  bht : s.bht.Within R
  jht : s.jht.Within fun _ => R
  rpct : s.rpct.Silent

theorem within_reset (bht jht rpct : BitVec 3 → BhtWay) : (reset bht jht rpct).Within R where
  bht _ _ h := absurd h Bool.false_ne_true
  jht _ _ h := absurd h Bool.false_ne_true
  rpct _ _ := rfl

theorem Within.cycle (h : s.Within R) (hr : c.dataI.isJrRa = false)
    (hc : ∀ a, c.Points a → R a) : (s.cycle c).Within R where
  bht := h.bht.step fun hw => hc _ ⟨Or.inl hw, rfl⟩
  jht := h.jht.step fun hw => hc _ ⟨Or.inr hw, rfl⟩
  rpct := h.rpct.step hr

theorem Within.run (h : s.Within R)
    (hc : ∀ c ∈ cs, c.dataI.isJrRa = false ∧ ∀ a, c.Points a → R a) :
    (run Bpu.cycle s cs).Within R := by
  induction cs generalizing s with
  | nil => exact h
  | cons c cs ih =>
    obtain ⟨hr, hp⟩ := hc c List.mem_cons_self
    exact ih (h.cycle hr hp) fun x hx => hc x (List.mem_cons_of_mem c hx)

theorem Within.prePc (h : s.Within R) {pc : Word} (ht : s.taken pc = true) :
    R (s.prePc pc) := by
  rw [Bpu.prePc, prePcOf]
  cases hb : s.bht.hit pc with
  | true => exact h.bht.predictPc hb
  | false =>
    have hj : s.jht.hit pc = true := by
      rw [taken, f1Taken, Rpct.answer, Jht.answer, h.rpct.hit, hb] at ht
      simpa using ht
    rw [if_neg Bool.false_ne_true, if_pos hj]
    exact h.jht.predictPc hj

end Bpu

theorem isJrRa_issueGroup (c1 c2 : DecodeData) (b : Pair PortBypass) (rd1 rd2 : Pair Word) :
    (issueGroup c1 c2 b rd1 rd2).slot1.isJrRa = false := by
  unfold issueGroup
  dsimp only
  split <;> rfl

/-- No instruction that comes to E is marked as a return. -/
theorem isJrRa_run (is : List CoreInput) :
    (run CoreState.step {} is).dataI.slot1.isJrRa = false := by
  refine run_invariant (P := fun s : CoreState => s.dataI.slot1.isJrRa = false) ?_ rfl is
  intro s i h
  change (pipereg2 ⟨{}, {}⟩ _ _ (s.dataINxt i) s.dataI).slot1.isJrRa = false
  unfold pipereg2
  split
  · rfl
  · split
    · exact h
    · exact isJrRa_issueGroup _ _ _ _ _

/-- The record is one that comes to E in a run of the core. -/
def BhtCycle.Issued (c : BhtCycle) : Prop :=
  ∃ is : List CoreInput, c.dataI = (run CoreState.step {} is).dataI.slot1

open Bpu in
/-- In every run of issued instructions the fetch is sent only to where one of them has pointed,
and the table of the returns is never heard. -/
theorem bpu_points (bht jht rpct : BitVec 3 → BhtWay) (cs : List BhtCycle)
    (hcs : ∀ c ∈ cs, c.Issued) (pc : Word) :
    (run Bpu.cycle (reset bht jht rpct) cs).rpct.hit pc = false ∧
      ((run Bpu.cycle (reset bht jht rpct) cs).taken pc = true →
        ∃ c ∈ cs, c.Points ((run Bpu.cycle (reset bht jht rpct) cs).prePc pc)) := by
  have h : (run Bpu.cycle (reset bht jht rpct) cs).Within fun a => ∃ c ∈ cs, c.Points a := by
    refine (within_reset bht jht rpct).run fun c hc => ⟨?_, fun _ hp => ⟨c, hc, hp⟩⟩
    obtain ⟨is, his⟩ := hcs c hc
    rw [his]
    exact isJrRa_run is
  exact ⟨h.rpct.hit pc, fun ht => h.prePc ht⟩

/-- `J 0xbfc00200` at `0xbfc00100` with a `NOP` behind it. -/
def jumpInput : CoreInput :=
  { candidates :=
      ⟨⟨decodeSlot { valid := true, rawInstr := 0x0bf00080#32, pc := 0xbfc00100#32 } false 0#32,
          decodeSlot_wellDecoded _ _ _⟩,
        ⟨decodeSlot { valid := true, pc := 0xbfc00104#32 } false 0#32,
          decodeSlot_wellDecoded _ _ _⟩⟩ }

theorem issued_jumpCycle (f1Pc : Word) : (jumpCycle 0xbfc00100#32 f1Pc).Issued :=
  ⟨[jumpInput], by rfl⟩

theorem bpu_points_jump :
    (run Bpu.cycle (.reset (fun _ => false) (fun _ => false) fun _ => false)
        [jumpCycle 0xbfc00100#32 0#32]).rpct.hit 0xbfc00100#32 = false ∧
      ((run Bpu.cycle (.reset (fun _ => false) (fun _ => false) fun _ => false)
          [jumpCycle 0xbfc00100#32 0#32]).taken 0xbfc00100#32 = true →
        ∃ c ∈ [jumpCycle 0xbfc00100#32 0#32],
          c.Points ((run Bpu.cycle (.reset (fun _ => false) (fun _ => false) fun _ => false)
            [jumpCycle 0xbfc00100#32 0#32]).prePc 0xbfc00100#32)) :=
  bpu_points _ _ _ _ (by simp [issued_jumpCycle]) _

end FrailCPU
