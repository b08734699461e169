import FrailCPU.Core.Step

/-!
# The hazard unit in front of E

The outputs of `hazard.sv` for the fetch stages, the decoder and the queue, and the marker
`fihazrd` of a fetch that is to be thrown away. They come from the same chain of priorities
as the outputs for the later stages.
-/

namespace FrailCPU

/-- The inputs of `hazard.sv`, less `fihazrd`. -/
structure HazardIn where
  excpW : Bool := false
  dWait : Bool := false
  waitM : Bool := false
  excpM : Bool := false
  branchM : Bool := false
  eWait : Bool := false
  overflowI : Bool := false
  iWait : Bool := false
  deriving DecidableEq

/-- The outputs of `hazard.sv` for the registers up to the queue. -/
structure HazardFront where
  stallF : Bool := false
  stallF2 : Bool := false
  stallD : Bool := false
  stallI : Bool := false
  stallIDe : Bool := false
  flushF2 : Bool := false
  flushD : Bool := false
  flushI : Bool := false
  flushQue : Bool := false
  fihazrdNxt : Bool := false
  deriving DecidableEq

namespace HazardIn

variable (h : HazardIn) (fihazrd : Bool)

/-- The outputs of a cycle that squashes what is in front of E. -/
def squashFront : HazardFront :=
  { flushF2 := true, flushD := true, flushI := true, flushQue := true, stallF := h.iWait,
    fihazrdNxt := fihazrd || h.iWait }

/-- The chain of priorities. -/
def chain : HazardFront :=
  if h.excpW then h.squashFront fihazrd
  else if h.dWait || h.waitM then
    { stallF := true, stallF2 := true, stallD := true, stallI := true, stallIDe := true,
      fihazrdNxt := fihazrd }
  else if h.excpM then h.squashFront fihazrd
  else if h.branchM then h.squashFront fihazrd
  else if h.eWait then
    { stallF := true, stallF2 := true, stallD := true, stallI := true, stallIDe := true,
      fihazrdNxt := fihazrd }
  else if h.overflowI then
    { stallF := true, stallF2 := true, stallI := true, stallD := true, fihazrdNxt := fihazrd }
  else if h.iWait then { stallF := true, flushF2 := true, fihazrdNxt := fihazrd }
  else { fihazrdNxt := fihazrd }

/-- The outputs: the marked fetch is thrown away when the fetch goes on. -/
def front : HazardFront :=
  let c := h.chain fihazrd
  if !c.stallF && fihazrd then { c with flushF2 := true, fihazrdNxt := false } else c

/-- The outputs for the later stages. -/
def back : HazardOut := hazard h.excpW h.dWait h.waitM h.excpM h.branchM h.eWait

section Outputs

variable {h : HazardIn} {fihazrd : Bool}

theorem front_stallF : (h.front fihazrd).stallF = (h.chain fihazrd).stallF := by
  unfold front
  dsimp only
  split <;> rfl

theorem front_stallI : (h.front fihazrd).stallI = (h.chain fihazrd).stallI := by
  unfold front
  dsimp only
  split <;> rfl

theorem front_stallIDe : (h.front fihazrd).stallIDe = (h.chain fihazrd).stallIDe := by
  unfold front
  dsimp only
  split <;> rfl

theorem front_flushD : (h.front fihazrd).flushD = (h.chain fihazrd).flushD := by
  unfold front
  dsimp only
  split <;> rfl

theorem front_flushI : (h.front fihazrd).flushI = (h.chain fihazrd).flushI := by
  unfold front
  dsimp only
  split <;> rfl

theorem front_flushQue : (h.front fihazrd).flushQue = (h.chain fihazrd).flushQue := by
  unfold front
  dsimp only
  split <;> rfl

/-- Everything in front of E is squashed. -/
theorem chain_squash (hs : h.excpW = true ∨
      (h.dWait || h.waitM) = false ∧ (h.excpM || h.branchM) = true) :
    h.chain fihazrd = h.squashFront fihazrd := by
  unfold chain
  rcases hs with hs | ⟨hw, hm⟩
  · rw [if_pos hs]
  · rw [hw, if_neg Bool.false_ne_true]
    rcases (Bool.or_eq_true _ _).mp hm with hm | hm <;> simp [hm]

/-- M1 waits, or E does. -/
theorem chain_stall (hw : h.excpW = false)
    (hs : (h.dWait || h.waitM) = true ∨ (h.excpM || h.branchM) = false ∧ h.eWait = true) :
    h.chain fihazrd =
      { stallF := true, stallF2 := true, stallD := true, stallI := true, stallIDe := true,
        fihazrdNxt := fihazrd } := by
  unfold chain
  rw [hw, if_neg Bool.false_ne_true]
  rcases hs with hs | ⟨hm, he⟩
  · rw [if_pos hs]
  · rw [Bool.or_eq_false_iff] at hm
    rw [hm.1, hm.2, he]
    cases h.dWait || h.waitM <;> rfl

/-- The stages from E on move; the queue may be full, or the fetch may wait. -/
theorem chain_move (hw : h.excpW = false) (hs : (h.dWait || h.waitM) = false)
    (hm : (h.excpM || h.branchM) = false) (he : h.eWait = false) :
    h.chain fihazrd =
      if h.overflowI then
        { stallF := true, stallF2 := true, stallI := true, stallD := true, fihazrdNxt := fihazrd }
      else if h.iWait then { stallF := true, flushF2 := true, fihazrdNxt := fihazrd }
      else { fihazrdNxt := fihazrd } := by
  rw [Bool.or_eq_false_iff] at hm
  unfold chain
  rw [hw, hs, hm.1, hm.2, he]
  rfl

theorem back_squashW (hw : h.excpW = true) :
    h.back = { flushE := true, flushM := true, flushM2 := true, flushM3 := true,
               flushW := true } := by
  rw [back, hazard, if_pos hw]

theorem back_held (hw : h.excpW = false) (hs : (h.dWait || h.waitM) = true) :
    h.back = { stallE := true, stallM := true, stallM2 := true, flushM3 := true } := by
  rw [back, hazard, hw, hs]
  rfl

theorem back_squashM (hw : h.excpW = false) (hs : (h.dWait || h.waitM) = false)
    (hm : (h.excpM || h.branchM) = true) : h.back = { flushE := true, flushM := true } := by
  rw [back, hazard, hw, hs]
  rcases (Bool.or_eq_true _ _).mp hm with hm | hm
  · rw [hm]
    rfl
  · rw [hm]
    cases h.excpM <;> rfl

theorem back_busy (hw : h.excpW = false) (hs : (h.dWait || h.waitM) = false)
    (hm : (h.excpM || h.branchM) = false) (he : h.eWait = true) :
    h.back = { stallE := true, flushM := true } := by
  rw [Bool.or_eq_false_iff] at hm
  rw [back, hazard, hw, hs, hm.1, hm.2, he]
  rfl

theorem back_move (hw : h.excpW = false) (hs : (h.dWait || h.waitM) = false)
    (hm : (h.excpM || h.branchM) = false) (he : h.eWait = false) : h.back = {} := by
  rw [Bool.or_eq_false_iff] at hm
  rw [back, hazard, hw, hs, hm.1, hm.2, he]
  rfl

/-- An overflow stops the arrivals, unless something more senior flushes the queue. -/
theorem overflow_stalls (ho : h.overflowI = true) :
    (h.front fihazrd).stallI = true ∨ (h.front fihazrd).flushQue = true := by
  rw [front_stallI, front_flushQue]
  cases hw : h.excpW with
  | true =>
      rw [chain_squash (Or.inl hw)]
      exact Or.inr rfl
  | false =>
      cases hs : h.dWait || h.waitM with
      | true =>
          rw [chain_stall hw (Or.inl hs)]
          exact Or.inl rfl
      | false =>
          cases hm : h.excpM || h.branchM with
          | true =>
              rw [chain_squash (Or.inr ⟨hs, hm⟩)]
              exact Or.inr rfl
          | false =>
              cases he : h.eWait with
              | true =>
                  rw [chain_stall hw (Or.inr ⟨hm, he⟩)]
                  exact Or.inl rfl
              | false =>
                  rw [chain_move hw hs hm he, ho]
                  exact Or.inl rfl

end Outputs

end HazardIn

end FrailCPU
