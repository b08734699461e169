import FrailCPU.Core.Step
import FrailCPU.Library.Machine
import FrailCPU.Library.PendingWrites

/-!
# What the network delivers over a run

The register file with the writes of the groups in flight in front of it is what an
instruction should read: `viewE` for a group in E, `viewM1` for one in M1, and so on,
down to the file itself for a group in W. A value that the network answers is the one
seen there, and a view only gains answers while the groups move on. The operands of the
group in E are therefore the ones it should read as soon as they are in the cycle after
its issue, and nothing else can go wrong but a move that is taken back in E: its
register was not bypassed at issue, and an older writer may have left the network by
then.
-/

namespace FrailCPU

open PendingWrite

/-- The write of a producer in M1, M2 or M3: a delayed one has no value yet. -/
def BypassInput.pending (a : BypassInput) : PendingWrite CregAddr Word where
  live := a.regwrite
  dst := a.rdst
  value := if a.delayToreg then none else some a.data

/-- The write of a producer in W. -/
def BypassInput.arrived (a : BypassInput) : PendingWrite CregAddr Word where
  live := a.regwrite
  dst := a.rdst
  value := some a.data

/-- The view through the writes of a group; slot 0 is the younger one. -/
def through (p : Pair (PendingWrite CregAddr Word)) (v : CregAddr → Option Word) :
    CregAddr → Option Word :=
  p.slot0.ahead (p.slot1.ahead v)

namespace Producers

variable (p : Producers) (regs : RegFile)

def viewM3 : CregAddr → Option Word :=
  through (p.dataM3.map BypassInput.arrived) (settled regs)

def viewM2 : CregAddr → Option Word :=
  through (p.dataM2.map BypassInput.pending) (p.viewM3 regs)

def viewM1 : CregAddr → Option Word :=
  through (p.dataM1.map BypassInput.pending) (p.viewM2 regs)

def viewE : CregAddr → Option Word :=
  through (p.dataE.map BypassInput.pending) (p.viewM1 regs)

end Producers

section Through

variable {p q : Pair (PendingWrite CregAddr Word)} {v w : CregAddr → Option Word}

theorem through_within (h1 : p.slot1.Fills q.slot1) (h0 : p.slot0.Fills q.slot0)
    (h : Within v w) : Within (through p v) (through q w) :=
  ahead_within h0 (ahead_within h1 h)

theorem through_dead (h1 : p.slot1.live = false) (h0 : p.slot0.live = false) :
    through p v = v := by
  rw [through, ahead_dead h0, ahead_dead h1]

/-- Two networks that are asked for the same register, and the view of it. Where the
first stages agree on the producer, it is enough to relate their answers there. -/
theorem stageAnswer_rel {α β : Type} (D : β → BypassOutput → Option Word → Prop)
    (answerI : α → β) (restI : β) {writesI : α → CregAddr → Bool}
    {answerE : BypassInput → BypassOutput} {f : BypassInput → PendingWrite CregAddr Word}
    {a : Pair α} {a' : Pair BypassInput} {r : CregAddr} {restE : BypassOutput}
    (hl : ∀ x, (f x).live = x.regwrite) (hd : ∀ x, (f x).dst = x.rdst)
    (w0 : writesI a.slot0 r = a'.slot0.writes r)
    (w1 : writesI a.slot0 r = false → writesI a.slot1 r = a'.slot1.writes r)
    (d0 : writesI a.slot0 r = true →
      D (answerI a.slot0) (answerE a'.slot0) (f a'.slot0).value)
    (d1 : writesI a.slot1 r = true →
      D (answerI a.slot1) (answerE a'.slot1) (f a'.slot1).value)
    (hr : D restI restE (v r)) :
    D (stageAnswer writesI answerI a r restI)
      (stageAnswer BypassInput.writes answerE a' r restE) (through (a'.map f) v r) := by
  have hit : ∀ x, x.writes r = true ↔ (f x).live = true ∧ (f x).dst = r := by
    intro x
    rw [hl, hd]
    simp [BypassInput.writes]
  unfold stageAnswer through
  rw [Pair.map_slot0, Pair.map_slot1, ← w0]
  by_cases h0 : writesI a.slot0 r = true
  · have hx := (hit a'.slot0).mp (w0.symm.trans h0)
    rw [if_pos h0, if_pos h0, ahead_hit hx.1 hx.2]
    exact d0 h0
  · have hx := mt (hit a'.slot0).mpr (by rw [← w0]; exact h0)
    have hw := w1 (Bool.eq_false_iff.mpr h0)
    rw [if_neg h0, if_neg h0, ahead_miss hx, ← hw]
    by_cases h1 : writesI a.slot1 r = true
    · have hx1 := (hit a'.slot1).mp (hw.symm.trans h1)
      rw [if_pos h1, if_pos h1, ahead_hit hx1.1 hx1.2]
      exact d1 h1
    · have hx1 := mt (hit a'.slot1).mpr (by rw [← hw]; exact h1)
      rw [if_neg h1, if_neg h1, ahead_miss hx1]
      exact hr

/-- A bypassed value is the one that the view `v` shows. -/
def BypassOutput.Sound (b : BypassOutput) (v : Option Word) : Prop :=
  b.bypass = true → v = some b.data

/-- A stage answers soundly when it does for each of its producers, and when the stages
behind it do. -/
theorem stageAnswer_sound {answer : BypassInput → BypassOutput}
    {f : BypassInput → PendingWrite CregAddr Word} {a : Pair BypassInput} {r : CregAddr}
    {rest : BypassOutput} (hl : ∀ x, (f x).live = x.regwrite) (hd : ∀ x, (f x).dst = x.rdst)
    (hf : ∀ x, (answer x).Sound (f x).value) (hr : rest.Sound (v r)) :
    (stageAnswer BypassInput.writes answer a r rest).Sound (through (a.map f) v r) :=
  stageAnswer_rel (fun _ b v => b.Sound v) answer rest hl hd rfl (fun _ => rfl)
    (fun _ => hf _) (fun _ => hf _) hr

/-- The value of a producer that is not delayed is on the network from M1 on. -/
theorem prompt_sound (x : BypassInput) (valid : Bool) :
    BypassOutput.Sound { valid, bypass := !x.delayToreg, data := x.data } x.pending.value := by
  intro hb
  simp only [Bool.not_eq_true'] at hb
  simp [BypassInput.pending, hb]

/-- `bypassE` never answers with a value that is not the register's. -/
theorem bypassE_sound (p : Producers) (regs : RegFile) (r : CregAddr) :
    (bypassE p r).Sound (p.viewE regs r) := by
  refine stageAnswer_sound (fun _ => rfl) (fun _ => rfl) (fun x => prompt_sound x true) ?_
  refine stageAnswer_sound (fun _ => rfl) (fun _ => rfl) (fun x => prompt_sound x true) ?_
  refine stageAnswer_sound (fun _ => rfl) (fun _ => rfl) (fun x => prompt_sound x true) ?_
  refine stageAnswer_sound (fun _ => rfl) (fun _ => rfl) (fun x _ => rfl) ?_
  exact fun h => nomatch h

end Through

/-- The groups of `p` have moved on by one stage: the ones in M1 and M2 as they are, the
one in M3 with its values filled in, the one in W into the file. -/
structure Producers.Advance (p : Producers) (regs : RegFile) (p' : Producers)
    (regs' : RegFile) : Prop where
  dataM1 : p'.dataM1 = p.dataE
  dataM2 : p'.dataM2 = p.dataM1
  fills1 : p.dataM2.slot1.pending.Fills p'.dataM3.slot1.arrived
  fills0 : p.dataM2.slot0.pending.Fills p'.dataM3.slot0.arrived
  delay1 : p'.dataM3.slot1.delayToreg = p.dataM2.slot1.delayToreg
  delay0 : p'.dataM3.slot0.delayToreg = p.dataM2.slot0.delayToreg
  regs : settled regs' = p.viewM3 regs

section Advance

variable {p p' : Producers} {regs regs' : RegFile}

theorem BypassInput.writes_eq_of_fills {a b : BypassInput} (h : a.pending.Fills b.arrived)
    (r : CregAddr) : a.writes r = b.writes r := by
  have hl : b.regwrite = a.regwrite := h.live
  have hd : b.rdst = a.rdst := h.dst
  rw [BypassInput.writes, BypassInput.writes, hl, hd]

/-- The value of a prompt producer does not change on the way to W. -/
theorem BypassInput.data_eq_of_fills {a b : BypassInput} (h : a.pending.Fills b.arrived)
    (hw : a.regwrite = true) (hd : a.delayToreg = false) : b.data = a.data := by
  have hv := h.value hw a.data (by simp [BypassInput.pending, hd])
  simpa [BypassInput.arrived] using hv

theorem viewM3_apply (p : Producers) (regs : RegFile) (r : CregAddr) :
    p.viewM3 regs r =
      stageAnswer BypassInput.writes (fun a => some a.data) p.dataM3 r (some (regs r)) := by
  have hit : ∀ a : BypassInput, a.writes r = true ↔
      a.arrived.live = true ∧ a.arrived.dst = r := by
    intro a
    simp [BypassInput.writes, BypassInput.arrived]
  simp only [Producers.viewM3, through, ahead, stageAnswer, hit]
  rfl

/-- `ok` promises the value `x` to a port that the network does not answer. -/
def Promises (ok : Bool) (x : Word) (b : BypassOutput) (v : Option Word) : Prop :=
  ok = true → b.bypass = true ∨ v = some x

/-- A group that is issued while the youngest writers in E keep their writes: either the
network answers in its first cycle in E, or the value it was issued with is right. -/
theorem bypassI_promises {dataEnxt : Pair BypassExecute} (h : p.Advance regs p' regs')
    {r : CregAddr} (w0 : dataEnxt.slot0.writes r = p'.dataE.slot0.writes r)
    (w1 : dataEnxt.slot0.writes r = false →
      dataEnxt.slot1.writes r = p'.dataE.slot1.writes r)
    (d0 : dataEnxt.slot0.delayToreg = false → p'.dataE.slot0.delayToreg = false)
    (d1 : dataEnxt.slot1.delayToreg = false → p'.dataE.slot1.delayToreg = false) :
    Promises (bypassI dataEnxt p r).valid ((bypassI dataEnxt p r).select (regs r))
      (bypassE p' r) (p'.viewE regs' r) := by
  have prompt : ∀ a : BypassInput, Promises (!a.delayToreg)
      (BypassOutput.select { valid := !a.delayToreg, bypass := !a.delayToreg, data := a.data }
        (regs r)) { bypass := !a.delayToreg, data := a.data } a.pending.value :=
    fun _ ha => Or.inl ha
  have late : ∀ a b : BypassInput, a.pending.Fills b.arrived →
      b.delayToreg = a.delayToreg → a.writes r = true →
      Promises true (BypassOutput.select { bypass := !a.delayToreg, data := a.data } (regs r))
        { bypass := b.delayToreg, data := b.data } b.arrived.value := by
    intro a b hf hd hw _
    cases ha : a.delayToreg with
    | true => exact Or.inl (hd.trans ha)
    | false =>
        simp only [BypassInput.writes, Bool.and_eq_true] at hw
        right
        simp [BypassOutput.select, BypassInput.arrived, BypassInput.data_eq_of_fills hf hw.1 ha]
  let D : BypassOutput → BypassOutput → Option Word → Prop := fun b b' v =>
    Promises b.valid (b.select (regs r)) b' v
  refine stageAnswer_rel (f := BypassInput.pending) D (fun b => { valid := !b.delayToreg }) _
    (fun _ => rfl) (fun _ => rfl) w0 w1 (fun _ hv => Or.inl ?_) (fun _ hv => Or.inl ?_) ?_
  · simpa using d0 (by simpa using hv)
  · simpa using d1 (by simpa using hv)
  rw [Producers.viewM1, h.dataM1]
  refine stageAnswer_rel D _ _ (fun _ => rfl) (fun _ => rfl) rfl (fun _ => rfl)
    (fun _ => prompt _) (fun _ => prompt _) ?_
  rw [Producers.viewM2, h.dataM2]
  refine stageAnswer_rel D _ _ (fun _ => rfl) (fun _ => rfl) rfl (fun _ => rfl)
    (fun _ => prompt _) (fun _ => prompt _) ?_
  refine stageAnswer_rel D _ _ (fun _ => rfl) (fun _ => rfl)
    (BypassInput.writes_eq_of_fills h.fills0 r) (fun _ => BypassInput.writes_eq_of_fills h.fills1 r)
    (late _ _ h.fills0 h.delay0) (late _ _ h.fills1 h.delay1) ?_
  rw [h.regs, viewM3_apply]
  intro _
  right
  unfold stageAnswer
  split
  · rfl
  · split <;> rfl

/-- The youngest real writer of `r`, with the group of `e` in front of `p`, can answer in
the next cycle: it is prompt and in slot 1 of E, in M1 or in M2, or it is delayed and in
M3; or no group writes `r`. -/
def Producers.suppliedBehind (p : Producers) (e : Pair BypassInput) (r : CregAddr) : Bool :=
  stageAnswer BypassInput.writes (fun a => !a.delayToreg) e r <|
  stageAnswer BypassInput.writes (fun a => !a.delayToreg) p.dataE r <|
  stageAnswer BypassInput.writes (fun a => !a.delayToreg) p.dataM1 r <|
  stageAnswer BypassInput.writes (fun a => a.delayToreg) p.dataM2 r <|
  stageAnswer BypassInput.writes (fun _ => false) p.dataM3 r true

/-- A group that is issued with the file's value behind a write that is withdrawn. -/
theorem suppliedBehind_promises (h : p.Advance regs p' regs') (r : CregAddr) :
    Promises (p.suppliedBehind p'.dataE r) (regs r) (bypassE p' r) (p'.viewE regs' r) := by
  let D : Bool → BypassOutput → Option Word → Prop := fun ok b' v => Promises ok (regs r) b' v
  have prompt : ∀ a : BypassInput, D (!a.delayToreg)
      { bypass := !a.delayToreg, data := a.data } a.pending.value := fun _ ha => Or.inl ha
  refine stageAnswer_rel (f := BypassInput.pending) D (fun a => !a.delayToreg) _
    (fun _ => rfl) (fun _ => rfl) rfl (fun _ => rfl) (fun _ => ?_) (fun _ => ?_) ?_
  · exact prompt _
  · exact prompt _
  rw [Producers.viewM1, h.dataM1]
  refine stageAnswer_rel D _ _ (fun _ => rfl) (fun _ => rfl) rfl (fun _ => rfl)
    (fun _ => prompt _) (fun _ => prompt _) ?_
  rw [Producers.viewM2, h.dataM2]
  refine stageAnswer_rel D _ _ (fun _ => rfl) (fun _ => rfl) rfl (fun _ => rfl)
    (fun _ => prompt _) (fun _ => prompt _) ?_
  refine stageAnswer_rel D _ _ (fun _ => rfl) (fun _ => rfl)
    (BypassInput.writes_eq_of_fills h.fills0 r)
    (fun _ => BypassInput.writes_eq_of_fills h.fills1 r)
    (fun _ ha => Or.inl (h.delay0.trans ha)) (fun _ ha => Or.inl (h.delay1.trans ha)) ?_
  rw [h.regs, viewM3_apply]
  unfold stageAnswer
  intro hok
  right
  split at hok
  · cases hok
  · split at hok
    · cases hok
    · rename_i h0 h1
      rw [if_neg h0, if_neg h1]

end Advance

section Port

variable {sv : SavedOperand} {b b' : BypassOutput} {rd : Word} {v v' : Option Word}

/-- A port in a stalled cycle: what it read stays what it should read. -/
theorem select_stalled (hv : v = some (sv.select b rd)) (hb' : b'.Sound v')
    (hw : ∀ x, v = some x → v' = some x) :
    v' = some ((sv.step true b).select b' rd) := by
  have hv' := hw _ hv
  by_cases h' : b'.bypass = true
  · simp [SavedOperand.select, h', hb' h']
  · by_cases h : b.bypass = true
    · simpa [SavedOperand.select, SavedOperand.step, h, h'] using hv'
    · simpa [SavedOperand.select, SavedOperand.step, h, h'] using hv'

/-- A port in the first cycle of a group in E. -/
theorem select_fresh (hb' : b'.Sound v') (h : b'.bypass = true ∨ v' = some rd) :
    v' = some (SavedOperand.select {} b' rd) := by
  by_cases hb : b'.bypass = true
  · simp [SavedOperand.select, hb, hb' hb]
  · simpa [SavedOperand.select, hb] using h

end Port

end FrailCPU
