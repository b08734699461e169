import FrailCPU.Bp.Bht
import FrailCPU.Execute.Redirect
import FrailCPU.Issue.Record
import FrailCPU.Library.Machine

/-!
# Learning a jump

`jht.sv`, the table of `J` and `JAL`: 2 ways of 8 sets, searched like the table of the branches,
with an index that is a part of the tag. A jump that is not found takes the way that the
replacement bit of the set of the *fetch* names, and the target of a jump that is found is not
written again. So a jump is predicted from its first execution on, until another one takes its
way, when the jumps before it that have its tag have its target. But the table of the branches
comes first: where it finds the address too, its target is followed.
-/

namespace FrailCPU

open ClockedMachine

/-- `get_tag` of `jht.sv`. -/
def jhtTag (addr : Word) : BitVec 18 := addr.extractLsb' 2 18

/-- `get_index` of `jht.sv`. -/
def jhtIndex (addr : Word) : BitVec 3 := addr.extractLsb' 7 3

/-- The sets of `meta_ram` are those of `bht.sv`. -/
structure Jht where
  metaRam : BitVec 3 → BhtWay → BhtInfo := fun _ _ => {}
  destPcRam : BitVec 3 → BhtWay → Word := fun _ _ => 0#32
  plruRam : BitVec 3 → BhtWay := fun _ => false

structure JhtInput where
  isWrite : Bool := false
  jPc : Word := 0#32
  executedJPc : Word := 0#32
  destPc : Word := 0#32

namespace Jht

variable (s : Jht)

/-- `pc_hit` and `pc_hit_line`. -/
def pcHitLine (jPc : Word) : Option BhtWay := matchLine (s.metaRam (jhtIndex jPc)) (jhtTag jPc)

/-- `pcp4_hit` and `pcp4_hit_line`, in the set of `j_pc`. -/
def pcp4HitLine (jPc : Word) : Option BhtWay :=
  matchLine (s.metaRam (jhtIndex jPc)) (jhtTag (jPc + 4#32))

def hit (jPc : Word) : Bool := (s.pcp4HitLine jPc).isSome || (s.pcHitLine jPc).isSome

def hitLine (jPc : Word) : BhtWay :=
  match s.pcHitLine jPc with
  | some w => w
  | none => (s.pcp4HitLine jPc).getD false

def predictPc (jPc : Word) : Word :=
  if s.hit jPc then s.destPcRam (jhtIndex jPc) (s.hitLine jPc) else 0#32

/-- `hit` and `hit_pc`. -/
def answer (jPc : Word) : JumpHit := ⟨s.hit jPc, (s.pcHitLine jPc).isSome⟩

variable (i : JhtInput)

def inJht : Option BhtWay :=
  matchLine (s.metaRam (jhtIndex i.executedJPc)) (jhtTag i.executedJPc)

/-- A jump comes into the table. -/
def enters : Bool := (s.inJht i).isNone && i.isWrite

def replaceLine : BhtWay := s.plruRam (jhtIndex i.jPc)

/-- `w_meta`. -/
def wMeta : BhtWay → BhtInfo := fun w =>
  if s.enters i && w == s.replaceLine i then ⟨true, jhtTag i.executedJPc⟩
  else s.metaRam (jhtIndex i.executedJPc) w

/-- `w_pc_replace`. -/
def wPcReplace : Word :=
  if s.enters i then i.destPc else s.destPcRam (jhtIndex i.executedJPc) (s.replaceLine i)

/-- A clock edge with `resetn` high. -/
def step : Jht where
  metaRam := Function.update s.metaRam (jhtIndex i.executedJPc) (s.wMeta i)
  destPcRam :=
    if (s.inJht i).isSome || i.isWrite then
      Function.update s.destPcRam (jhtIndex i.executedJPc)
        (Function.update (s.destPcRam (jhtIndex i.executedJPc)) (s.replaceLine i)
          (s.wPcReplace i))
    else s.destPcRam
  plruRam :=
    if s.hit i.jPc then Function.update s.plruRam (jhtIndex i.jPc) (!s.hitLine i.jPc)
    else s.plruRam

/-- The replacement bits are not reset. -/
def reset (plruRam : BitVec 3 → BhtWay) : Jht := { plruRam }

end Jht

/-- `pre_pc` of `bpu.sv`. -/
def prePcOf (b : Bht) (s : Jht) (rpct : JumpHit) (rpctPrePc : Word) (f1Pc : Word) : Word :=
  if b.hit f1Pc then b.predictPc f1Pc
  else if s.hit f1Pc then s.predictPc f1Pc
  else if rpct.hit then rpctPrePc
  else 0#32

/-- What `MyCore.sv` connects to the table. -/
def BhtCycle.jhtInput (c : BhtCycle) : JhtInput where
  isWrite := c.dataI.ctl.op == .j || c.dataI.ctl.op == .jal
  jPc := c.f1Pc
  executedJPc := c.dataI.pc
  destPc := destPcOf c.dataI c.operands

def Jht.cycle (s : Jht) (c : BhtCycle) : Jht := s.step c.jhtInput

section Step

variable {s : Jht} {i : JhtInput} {pc : Word} {w : BhtWay}

/-- A match comes into a set without one. -/
theorem matchLine_enters {m : BhtWay → BhtInfo} {t : BitVec 18} (h : matchLine m t = none) :
    matchLine (Function.update m w ⟨true, t⟩) t = some w := by
  rw [matchLine] at h
  split_ifs at h with h1 h2
  cases w with
  | true => simp [matchLine]
  | false =>
    have h1' : ((m true).valid && (m true).tag == t) = false := Bool.eq_false_iff.2 h1
    rw [matchLine, Function.update_of_ne (by decide), h1']
    simp

/-- What is found lies in a valid entry. -/
theorem valid_of_hit {m : BhtWay → BhtInfo} {t t4 : BitVec 18}
    (h : ((matchLine m t4).isSome || (matchLine m t).isSome) = true) :
    (m (match matchLine m t with
      | some w => w
      | none => (matchLine m t4).getD false)).valid = true := by
  cases hl : matchLine m t with
  | some w => exact (matchLine_spec hl).1
  | none =>
    rw [hl, Option.isSome_none, Bool.or_false, Option.isSome_iff_exists] at h
    obtain ⟨w, hw⟩ := h
    rw [hw]
    exact (matchLine_spec hw).1

/-- A jump comes into the table, or the table keeps what it has. -/
theorem Jht.step_cases (s : Jht) (i : JhtInput) :
    (s.enters i = true ∧
      (s.step i).metaRam = Function.update s.metaRam (jhtIndex i.executedJPc)
        (Function.update (s.metaRam (jhtIndex i.executedJPc)) (s.replaceLine i)
          ⟨true, jhtTag i.executedJPc⟩) ∧
      (s.step i).destPcRam = Function.update s.destPcRam (jhtIndex i.executedJPc)
        (Function.update (s.destPcRam (jhtIndex i.executedJPc)) (s.replaceLine i) i.destPc)) ∨
    (s.enters i = false ∧ (s.step i).metaRam = s.metaRam ∧
      (s.step i).destPcRam = s.destPcRam) := by
  cases he : s.enters i with
  | true =>
    have hx : ((s.inJht i).isSome || i.isWrite) = true := by
      rw [enters, Bool.and_eq_true] at he
      rw [he.2, Bool.or_true]
    refine Or.inl ⟨rfl, ?_, ?_⟩
    · have hm : s.wMeta i = Function.update (s.metaRam (jhtIndex i.executedJPc))
          (s.replaceLine i) ⟨true, jhtTag i.executedJPc⟩ := by
        funext v
        rw [wMeta, he, Bool.true_and, Function.update_apply]
        exact if_congr beq_iff_eq rfl rfl
      rw [← hm]
      rfl
    · change (if (s.inJht i).isSome || i.isWrite then _ else _ : BitVec 3 → BhtWay → Word) = _
      rw [hx, if_pos rfl, wPcReplace, he, if_pos rfl]
  | false =>
    refine Or.inr ⟨rfl, ?_, ?_⟩
    · have hm : s.wMeta i = s.metaRam (jhtIndex i.executedJPc) := by
        funext v
        rw [wMeta, he]
        rfl
      change Function.update _ _ _ = _
      rw [hm, Function.update_eq_self]
    · have hp : s.wPcReplace i = s.destPcRam (jhtIndex i.executedJPc) (s.replaceLine i) := by
        rw [wPcReplace, he]
        rfl
      change (if _ then _ else _ : BitVec 3 → BhtWay → Word) = _
      rw [hp, Function.update_eq_self, Function.update_eq_self, ite_self]

/-- A jump that is found at its own address is predicted by its entry. -/
theorem Jht.predictPc_of_found (h : s.pcHitLine pc = some w) :
    s.predictPc pc = s.destPcRam (jhtIndex pc) w := by
  have hh : s.hit pc = true := by rw [hit, h, Option.isSome_some, Bool.or_true]
  rw [predictPc, hh, if_pos rfl, hitLine, h]

/-- The jump in M1 takes the way of the jump at `pc`. -/
def Jht.Displaces (s : Jht) (pc : Word) (i : JhtInput) : Prop :=
  s.enters i = true ∧ jhtIndex i.executedJPc = jhtIndex pc ∧
    s.pcHitLine pc = some (s.replaceLine i)

instance : Decidable (s.Displaces pc i) := inferInstanceAs (Decidable (_ ∧ _ ∧ _))

end Step

namespace Jht

variable {s : Jht} {i : JhtInput} {pc dest : Word} {w : BhtWay} {R : BitVec 18 → Word → Prop}

/-- The entry of the jump at `pc`, and its target. -/
structure Files (s : Jht) (pc : Word) (w : BhtWay) (dest : Word) : Prop where
  found : s.pcHitLine pc = some w
  dest : s.destPcRam (jhtIndex pc) w = dest

/-- What holds of the tags and targets of the entries. -/
def Within (s : Jht) (R : BitVec 18 → Word → Prop) : Prop :=
  ∀ k w, (s.metaRam k w).valid = true → R (s.metaRam k w).tag (s.destPcRam k w)

theorem within_reset (plruRam : BitVec 3 → BhtWay) : (reset plruRam).Within R :=
  fun _ _ h => absurd h Bool.false_ne_true

/-- An entry stays as it is until its way is taken. -/
theorem Files.step (h : s.Files pc w dest) (hd : ¬ s.Displaces pc i) :
    (s.step i).Files pc w dest := by
  rcases s.step_cases i with ⟨he, hm, hp⟩ | ⟨-, hm, hp⟩
  · by_cases hk : jhtIndex i.executedJPc = jhtIndex pc
    · have hw : s.replaceLine i ≠ w := fun hw => hd ⟨he, hk, hw ▸ h.found⟩
      have ht : jhtTag i.executedJPc ≠ jhtTag pc := by
        intro ht
        have hf := h.found
        rw [enters, Bool.and_eq_true, Option.isNone_iff_eq_none, inJht, hk, ht] at he
        rw [pcHitLine, he.1] at hf
        cases hf
      constructor
      · rw [pcHitLine, hm, hk, Function.update_self]
        exact matchLine_update h.found hw ht
      · rw [hp, hk, Function.update_self, Function.update_of_ne hw.symm]
        exact h.dest
    · constructor
      · rw [pcHitLine, hm, Function.update_of_ne (Ne.symm hk)]
        exact h.found
      · rw [hp, Function.update_of_ne (Ne.symm hk)]
        exact h.dest
  · constructor
    · rw [pcHitLine, hm]
      exact h.found
    · rw [hp]
      exact h.dest

theorem Within.step (h : s.Within R)
    (hi : i.isWrite = true → R (jhtTag i.executedJPc) i.destPc) : (s.step i).Within R := by
  intro k v
  rcases s.step_cases i with ⟨he, hm, hp⟩ | ⟨-, hm, hp⟩
  · rw [hm, hp]
    by_cases hk : k = jhtIndex i.executedJPc
    · subst hk
      rw [Function.update_self, Function.update_self]
      by_cases hv : v = s.replaceLine i
      · subst hv
        rw [Function.update_self, Function.update_self]
        rw [enters, Bool.and_eq_true] at he
        exact fun _ => hi he.2
      · rw [Function.update_of_ne hv, Function.update_of_ne hv]
        exact h _ v
    · rw [Function.update_of_ne hk, Function.update_of_ne hk]
      exact h k v
  · rw [hm, hp]
    exact h k v

/-- A jump that has been executed is in the table, with its target. -/
theorem Within.files (h : s.Within fun t dest => t = jhtTag i.executedJPc → dest = i.destPc)
    (hw : i.isWrite = true) : ∃ w, (s.step i).Files i.executedJPc w i.destPc := by
  rcases s.step_cases i with ⟨he, hm, hp⟩ | ⟨he, hm, hp⟩
  · rw [enters, Bool.and_eq_true, Option.isNone_iff_eq_none] at he
    refine ⟨s.replaceLine i, ?_, ?_⟩
    · rw [pcHitLine, hm, Function.update_self]
      exact matchLine_enters he.1
    · rw [hp, Function.update_self, Function.update_self]
  · rw [enters, hw, Bool.and_true, Option.isNone_eq_false_iff, Option.isSome_iff_exists] at he
    obtain ⟨v, hv⟩ := he
    have hm' := matchLine_spec hv
    refine ⟨v, ?_, ?_⟩
    · rw [pcHitLine, hm]
      exact hv
    · rw [hp]
      exact h _ v hm'.1 hm'.2

end Jht

/-! ### Jumps -/

/-- The record of `J` or `JAL`. -/
structure IssueData.Direct (d : IssueData) : Prop where
  coherent : d.ctl.Coherent
  op : d.ctl.op = .j ∨ d.ctl.op = .jal
  jump : d.ctl.jump = true
  jr : d.ctl.jr = false

/-- The same jump once more. -/
structure IssueData.Repeats (d d' : IssueData) : Prop where
  direct : d.Direct
  pc : d.pc = d'.pc
  rawInstr : d.rawInstr = d'.rawInstr

/-- The record of an instruction whose address the fetch has looked up, whatever `rpct` says. -/
structure Jht.Predicts (s : Jht) (b : Bht) (rpct : JumpHit) (rpctPrePc : Word)
    (d : IssueData) : Prop where
  preB : d.preB = preBOf b (s.answer d.pc) rpct d.pc
  prePc : d.prePc = prePcOf b s rpct rpctPrePc d.pc

/-- The two jumps go to one target if they have one tag. -/
def BhtCycle.Agrees (x c : BhtCycle) : Prop :=
  x.jhtInput.isWrite = true → jhtTag x.dataI.pc = jhtTag c.dataI.pc →
    x.jhtInput.destPc = c.jhtInput.destPc

instance (x c : BhtCycle) : Decidable (x.Agrees c) := inferInstanceAs (Decidable (_ → _ → _))

section Jumps

variable {s : Jht} {b : Bht} {rpct : JumpHit} {rpctPrePc : Word} {d : IssueData} {w : BhtWay}

theorem IssueData.Direct.branch (h : d.Direct) : d.ctl.branch = false := by
  by_contra hb
  have hj := h.coherent.branch_jump (Bool.not_eq_false _ ▸ hb)
  rw [h.jump] at hj
  cases hj

theorem IssueData.Direct.destPcOf (h : d.Direct) (rd : Operands) :
    destPcOf d rd = jumpTarget d := by
  simp only [FrailCPU.destPcOf, h.branch, h.jr, h.jump, Bool.false_eq_true, if_false, if_true]

theorem IssueData.Direct.branchTakenOf (h : d.Direct) (rd : Operands) :
    branchTakenOf d rd = !(d.preB && d.prePc == jumpTarget d) := by
  have ht := transfers_refetches h.coherent (by rw [Control.transfers, h.jump, Bool.or_true])
  have htarget : targetOf d rd = jumpTarget d := by
    rw [targetOf_jump h.branch h.jump, h.jr]
    rfl
  simp only [FrailCPU.branchTakenOf, htarget, h.branch, h.jump, ht.1, ht.2, Bool.false_and,
    Bool.or_false, Bool.true_and]

theorem decoder_direct {instr : Word}
    (h : Instr.op instr = 0b000010#6 ∨ Instr.op instr = 0b000011#6) (cp0CtlOld : Cp0Control) :
    ((decoder instr true cp0CtlOld).ctl.op = .j ∨
        (decoder instr true cp0CtlOld).ctl.op = .jal) ∧
      (decoder instr true cp0CtlOld).ctl.jump = true ∧
      (decoder instr true cp0CtlOld).ctl.jr = false := by
  rcases h with h | h <;>
    simp [decoder, decodeOp, h, Decoded.setReserve, Decoded.dropZeroWrite]

/-- An instruction that was decoded from such a word has such a record. -/
theorem IssueData.Carries.isDirect {f : FetchData} (h : d.Carries f) (hv : f.valid = true)
    (ho : Instr.op f.rawInstr = 0b000010#6 ∨ Instr.op f.rawInstr = 0b000011#6) : d.Direct := by
  have hd := decoder_direct ho f.cp0Ctl
  have hctl := h.ctl
  rw [hv] at hctl
  rw [← hctl] at hd
  exact ⟨hctl ▸ decoder_coherent _ _ _, hd.1, hd.2.1, hd.2.2⟩

/-- A jump is predicted by its entry, unless the table of the branches has another target. -/
theorem Jht.Files.branchTakenOf (h : s.Files d.pc w (jumpTarget d)) (hd : d.Direct)
    (hp : s.Predicts b rpct rpctPrePc d) (rd : Operands) :
    branchTakenOf d rd = (b.hit d.pc && b.predictPc d.pc != jumpTarget d) := by
  have hh : s.hit d.pc = true := by rw [hit, h.found, Option.isSome_some, Bool.or_true]
  have hpre : d.preB = true := by
    have ht : f1Taken b (s.answer d.pc) rpct d.pc = true := by
      rw [f1Taken, answer, hh, Bool.or_true, if_pos rfl]
    have hpos : hitPos b (s.answer d.pc) rpct d.pc = true := by
      rw [hitPos, answer, h.found]
      exact Bool.or_true _
    rw [hp.preB, preBOf, ht, hpos]
    rfl
  have hpc : d.prePc = if b.hit d.pc then b.predictPc d.pc else jumpTarget d := by
    rw [hp.prePc, prePcOf, hh, if_pos rfl, predictPc_of_found h.found, h.dest]
  rw [hd.branchTakenOf, hpre, hpc, Bool.true_and]
  cases b.hit d.pc with
  | true => rfl
  | false => exact congrArg Bool.not (beq_self_eq_true _)

end Jumps

/-- From its first execution on, and until another one takes its way, a jump flushes the fetch
only where the table of the branches finds its address and has another target. -/
theorem jump_learned (plruRam : BitVec 3 → BhtWay) (cs ks : List BhtCycle) (c : BhtCycle)
    (hcs : Along Jht.cycle (fun _ x => x.Agrees c) (.reset plruRam) cs)
    (hc : c.dataI.Direct)
    (hks : Along Jht.cycle (fun s x => ¬ s.Displaces c.dataI.pc x.jhtInput)
      (run Jht.cycle (.reset plruRam) (cs ++ [c])) ks)
    (b : Bht) (rpct : JumpHit) (rpctPrePc : Word) (d : IssueData) (hd : d.Repeats c.dataI)
    (hp : (run Jht.cycle (.reset plruRam) (cs ++ [c] ++ ks)).Predicts b rpct rpctPrePc d)
    (rd : Operands) :
    branchTakenOf d rd = (b.hit d.pc && b.predictPc d.pc != jumpTarget d) := by
  have hl : (run Jht.cycle (.reset plruRam) cs).Within
      fun t dest => t = jhtTag c.dataI.pc → dest = c.jhtInput.destPc :=
    Along.invariant (P := fun s : Jht => s.Within _) (fun _ _ h hx => h.step hx) hcs
      (Jht.within_reset plruRam)
  have hw : c.jhtInput.isWrite = true := by
    simpa only [BhtCycle.jhtInput, Bool.or_eq_true, beq_iff_eq] using hc.op
  obtain ⟨w, hfiles⟩ := Jht.Within.files (i := c.jhtInput) hl hw
  have hfiles : (run Jht.cycle (.reset plruRam) (cs ++ [c])).Files c.dataI.pc w
      (jumpTarget c.dataI) := by
    rw [run_append, ← hc.destPcOf c.operands]
    exact hfiles
  have hrun : (run Jht.cycle (.reset plruRam) (cs ++ [c] ++ ks)).Files c.dataI.pc w
      (jumpTarget c.dataI) := by
    rw [run_append]
    exact Along.invariant (P := fun s : Jht => s.Files c.dataI.pc w (jumpTarget c.dataI))
      (fun _ _ h hx => h.step hx) hks hfiles
  have hsame : jumpTarget d = jumpTarget c.dataI := by
    rw [jumpTarget, jumpTarget, slotPc, slotPc, hd.pc, hd.rawInstr]
  rw [← hd.pc, ← hsame] at hrun
  exact hrun.branchTakenOf hd.direct hp rd

/-- The record of `J 0xbfc00200` at `pc`. -/
def jumpAt (pc prePc : Word) (preB : Bool) : IssueData :=
  issueRecord (decodeSlot { valid := true, rawInstr := 0x0bf00080#32, pc } preB prePc) {} 0#32 0#32

theorem direct_jumpAt (pc prePc : Word) (preB : Bool) : (jumpAt pc prePc preB).Direct :=
  (issueRecord_carries _ preB prePc _ _ _).isDirect rfl
    (Or.inl (show Instr.op 0x0bf00080#32 = 0b000010#6 by decide))

/-- The jump in M1, while the fetch looks at `f1Pc`. -/
def jumpCycle (pc f1Pc : Word) : BhtCycle where
  f1Pc := f1Pc
  dataI := jumpAt pc 0#32 false
  operands := { rd1 := 0#32, rd2 := 0#32 }
  coherent := (direct_jumpAt pc 0#32 false).coherent

theorem jump_learned_twice :
    branchTakenOf (jumpAt 0xbfc00100#32 0xbfc00200#32 true) { rd1 := 0#32, rd2 := 0#32 } =
      (Bht.hit {} 0xbfc00100#32 && Bht.predictPc {} 0xbfc00100#32 != 0xbfc00200#32) :=
  jump_learned (fun _ => false) [jumpCycle 0xbfc00900#32 0#32]
    [jumpCycle 0xbfc00100#32 0xbfc00100#32, jumpCycle 0xbfc00500#32 0xbfc00100#32]
    (jumpCycle 0xbfc00100#32 0#32) (by decide) (direct_jumpAt _ _ _) (by decide) {}
    {} 0#32 (jumpAt 0xbfc00100#32 0xbfc00200#32 true) ⟨direct_jumpAt _ _ _, rfl, rfl⟩
    ⟨by decide, by decide⟩ _

end FrailCPU
