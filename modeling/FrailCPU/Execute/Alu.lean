import FrailCPU.Include.Pipes

/-!
# The arithmetic unit and the branch condition

`alu.sv` and `pcbranch.sv`. The additions and subtractions that can overflow compare
the two top bits of the sum extended by one bit.
-/

namespace FrailCPU

/-- `{a[31], a}`. -/
def extendSign (a : Word) : BitVec 33 := a.signExtend 33

/-- `exception_of` of the unit. -/
def aluOverflow (a b : Word) : AluFunc → Bool
  | .add => let temp := extendSign a + extendSign b; temp.getLsbD 32 != temp.getLsbD 31
  | .sub => let temp := extendSign a - extendSign b; temp.getLsbD 32 != temp.getLsbD 31
  | _ => false

/-- `c` of the unit; the shift amount is in the low bits of `a`. -/
def alu (a b : Word) : AluFunc → Word
  | .and => a &&& b
  | .add => a + b
  | .or => a ||| b
  | .sll => b <<< (a.extractLsb' 0 5).toNat
  | .srl => b >>> (a.extractLsb' 0 5).toNat
  | .sra => b.sshiftRight (a.extractLsb' 0 5).toNat
  | .sub => a - b
  | .slt => if a.slt b then 1#32 else 0#32
  | .nor => ~~~(a ||| b)
  | .xor => a ^^^ b
  | .addu => a + b
  | .subu => a - b
  | .sltu => if a.ult b then 1#32 else 0#32
  | .passa => a
  | .lui => b.extractLsb' 0 16 ++ 0#16
  | .passb => b

/-- `branch_condition` of `pcbranch.sv`. -/
def branchCondition (branch : BranchType) (srca srcb : Word) (valid : Bool) : Bool :=
  valid && match branch with
    | .beq => srca == srcb
    | .bne => srca != srcb
    | .bgez => !srca.msb
    | .bgtz => (0#32).slt srca
    | .blez => srca.sle 0#32
    | .bltz => srca.msb

theorem aluOverflow_func {a b : Word} {f : AluFunc} (h : aluOverflow a b f = true) :
    f = .add ∨ f = .sub := by
  cases f <;> simp_all [aluOverflow]

theorem branchCondition_valid {branch : BranchType} {srca srcb : Word} {valid : Bool}
    (h : branchCondition branch srca srcb valid = true) : valid = true := by
  simp only [branchCondition, Bool.and_eq_true] at h
  exact h.1

end FrailCPU
