import Mathlib.Tactic

/-!
# Masked updates of a bit vector

`maskedWrite m old new` takes the bits of `new` where the mask `m` is set and the
bits of `old` elsewhere: the effect of a write with byte enables, once the enables
are spread over their lanes. Everything about it is read off one bit at a time,
from `getLsbD_maskedWrite`.
-/

namespace Lanes

variable {w : ℕ}

/-- The bits of `new` under the mask, and those of `old` elsewhere. -/
def maskedWrite (m old new : BitVec w) : BitVec w :=
  (m &&& new) ||| (~~~m &&& old)

theorem getLsbD_maskedWrite (m old new : BitVec w) (i : ℕ) (hi : i < w) :
    (maskedWrite m old new).getLsbD i =
      if m.getLsbD i then new.getLsbD i else old.getLsbD i := by
  simp only [maskedWrite, BitVec.getLsbD_or, BitVec.getLsbD_and, BitVec.getLsbD_not, hi,
    decide_true, Bool.true_and]
  cases m.getLsbD i <;> simp

@[simp] theorem maskedWrite_zero (old new : BitVec w) :
    maskedWrite 0#w old new = old := by
  simp [maskedWrite]

@[simp] theorem maskedWrite_allOnes (old new : BitVec w) :
    maskedWrite (BitVec.allOnes w) old new = new := by
  simp [maskedWrite]

/-- Data that is zero outside its mask can be combined with a younger write by
exclusive or and disjunction: this is how a circuit merges two writes without a
multiplexer. -/
theorem maskedWrite_merge {m n old a b : BitVec w}
    (ha : ∀ i, i < w → m.getLsbD i = false → a.getLsbD i = false) :
    maskedWrite (m ||| n) old ((n &&& b) ||| ((m ^^^ n) &&& a)) =
      maskedWrite n (maskedWrite m old a) b := by
  apply BitVec.eq_of_getLsbD_eq
  intro i hi
  simp only [getLsbD_maskedWrite _ _ _ _ hi, BitVec.getLsbD_or, BitVec.getLsbD_and,
    BitVec.getLsbD_xor]
  cases hm : m.getLsbD i with
  | true => cases n.getLsbD i <;> simp
  | false =>
      rw [ha i hi hm]
      cases n.getLsbD i <;> simp

end Lanes
