import FrailCPU.Include.Common
import FrailCPU.Library.RestoringDivision

/-!
# The multiplier and the divider

`multi.sv` and `div.sv`. Both take magnitudes and answer after some cycles in which the
operands have to stay: the multiplier adds up the products of the halves, the divider
works on one register of twice the width and counts with a digit that is shifted out.
-/

namespace FrailCPU

/-- `state` of both units. -/
inductive UnitState
  | init | doing
  deriving DecidableEq, Repr, Inhabited

/-- The registers of `multi.sv`. -/
structure Multiplier where
  state : UnitState := .init
  p0 : Word := 0#32
  p1 : Word := 0#32
  p2 : Word := 0#32
  p3 : Word := 0#32

namespace Multiplier

variable (m : Multiplier) (valid : Bool) (a b : Word)

def stateNxt : UnitState :=
  match m.state with
  | .doing => .init
  | .init => if valid then .doing else .init

def done : Bool := m.stateNxt valid == .init

def c : BitVec 64 :=
  (0#32 ++ m.p0 : BitVec 64) + (0#16 ++ m.p1 ++ 0#16 : BitVec 64) +
    (0#16 ++ m.p2 ++ 0#16 : BitVec 64) + (m.p3 ++ 0#32 : BitVec 64)

/-- A product of two halves, in the width of the register it goes to. -/
def halfProduct (x y : BitVec 16) : Word := x.setWidth 32 * y.setWidth 32

/-- A clock edge. -/
def next : Multiplier where
  state := m.stateNxt valid
  p0 := halfProduct (a.extractLsb' 0 16) (b.extractLsb' 0 16)
  p1 := halfProduct (a.extractLsb' 0 16) (b.extractLsb' 16 16)
  p2 := halfProduct (a.extractLsb' 16 16) (b.extractLsb' 0 16)
  p3 := halfProduct (a.extractLsb' 16 16) (b.extractLsb' 16 16)

theorem toNat_halfProduct (x y : BitVec 16) :
    (halfProduct x y).toNat = x.toNat * y.toNat := by
  have h : x.toNat * y.toNat < 2 ^ 16 * 2 ^ 16 := Nat.mul_lt_mul'' x.isLt y.isLt
  simp only [halfProduct, BitVec.toNat_mul, BitVec.toNat_setWidth]
  have hx := x.isLt
  have hy := y.isLt
  rw [Nat.mod_eq_of_lt (a := x.toNat) (by omega), Nat.mod_eq_of_lt (a := y.toNat) (by omega)]
  exact Nat.mod_eq_of_lt (by omega)

/-- The word in its two halves. -/
theorem toNat_halves :
    a.toNat = (a.extractLsb' 16 16).toNat * 2 ^ 16 + (a.extractLsb' 0 16).toNat := by
  have := a.isLt
  simp only [BitVec.extractLsb'_toNat, Nat.shiftRight_eq_div_pow]
  omega

theorem toNat_c :
    m.c.toNat = (m.p0.toNat + m.p1.toNat * 2 ^ 16 + m.p2.toNat * 2 ^ 16 +
      m.p3.toNat * 2 ^ 32) % 2 ^ 64 := by
  have h0 := m.p0.isLt
  have h1 := m.p1.isLt
  have h2 := m.p2.isLt
  have h3 := m.p3.isLt
  simp only [c, BitVec.toNat_add, BitVec.toNat_append, BitVec.toNat_ofNat, Nat.shiftLeft_eq,
    Nat.zero_mod, Nat.zero_mul, Nat.zero_or, Nat.or_zero]
  omega

/-- One edge after the operands are there, the product is. -/
theorem c_next : (m.next valid a b).c = a.setWidth 64 * b.setWidth 64 := by
  have ha := toNat_halves a
  have hb := toNat_halves b
  apply BitVec.eq_of_toNat_eq
  rw [toNat_c]
  simp only [next, toNat_halfProduct, BitVec.toNat_mul, BitVec.toNat_setWidth]
  rw [Nat.mod_eq_of_lt (a := a.toNat) (by omega), Nat.mod_eq_of_lt (a := b.toNat) (by omega),
    ha, hb]
  congr 1
  ring

end Multiplier

/-- The registers of `div.sv`. -/
structure Divider where
  state : UnitState := .init
  count : BitVec 35 := 0#35
  p : BitVec 64 := 0#64

namespace Divider

variable (d : Divider) (valid : Bool) (a b : Word)

/-- `DIV_DELAY`. -/
def divDelay : BitVec 35 := 0b00#2 ++ 1#1 ++ 0#32

def countNxt : BitVec 35 :=
  match d.state with
  | .init => if valid then divDelay else d.count
  | .doing => d.count >>> 1

def stateNxt : UnitState :=
  match d.state with
  | .init => if valid then .doing else .init
  | .doing => if d.countNxt valid == 0#35 then .init else .doing

def done : Bool := d.stateNxt valid == .init

/-- `p_nxt` in the state `DOING`. -/
def shiftSubtract (p : BitVec 64) (b : Word) : BitVec 64 :=
  let q := p <<< 1
  if b ≤ q.extractLsb' 32 32 then
    (q.extractLsb' 32 32 - b) ++ (q.extractLsb' 1 31 ++ 1#1 : Word)
  else q

def pNxt : BitVec 64 :=
  match d.state with
  | .init => 0#32 ++ a
  | .doing => shiftSubtract d.p b

/-- `c = {a % b, a / b}`. -/
def c : BitVec 64 := d.p

/-- A clock edge. -/
def next : Divider where
  state := d.stateNxt valid
  count := d.countNxt valid
  p := d.pNxt a b

theorem toNat_append_add {m n : ℕ} (x : BitVec m) (y : BitVec n) :
    (x ++ y).toNat = x.toNat * 2 ^ n + y.toNat := by
  rw [BitVec.toNat_append, ← Nat.shiftLeft_add_eq_or_of_lt y.isLt, Nat.shiftLeft_eq]

theorem toNat_shiftSubtract (p : BitVec 64) :
    (shiftSubtract p b).toNat = RestoringDivision.step 32 b.toNat p.toNat := by
  have hp := p.isLt
  have hb := b.isLt
  have hq : (p <<< 1).toNat = 2 * p.toNat % 2 ^ 64 := by
    rw [BitVec.toNat_shiftLeft, Nat.shiftLeft_eq, Nat.mul_comm]
  have hhi : ((p <<< 1).extractLsb' 32 32).toNat = 2 * p.toNat % 2 ^ 64 / 2 ^ 32 := by
    rw [BitVec.extractLsb'_toNat, hq, Nat.shiftRight_eq_div_pow]
    omega
  simp only [shiftSubtract, RestoringDivision.step, BitVec.le_def, hhi]
  split
  · have hlow : ((p <<< 1).extractLsb' 1 31).toNat = 2 * p.toNat % 2 ^ 64 / 2 % 2 ^ 31 := by
      rw [BitVec.extractLsb'_toNat, hq, Nat.shiftRight_eq_div_pow, pow_one]
    rw [toNat_append_add, toNat_append_add, BitVec.toNat_sub, hhi, hlow, BitVec.toNat_ofNat]
    omega
  · exact hq

/-- The division of `a` by `b` is under way, and `k` digits of `a` are divided. -/
structure After (a b : Word) (k : ℕ) : Prop where
  state : d.state = .doing
  count : d.count = 1#35 <<< (32 - k)
  p : d.p.toNat = (RestoringDivision.step 32 b.toNat)^[k] a.toNat
  le : k ≤ 32

theorem count_shift :
    ∀ k < 32, (1#35 <<< (32 - k)) >>> 1 = 1#35 <<< (32 - (k + 1)) ∧
      1#35 <<< (32 - (k + 1)) ≠ 0#35 := by
  decide

variable {d : Divider} {valid : Bool} {a b : Word} {k : ℕ}

theorem done_init : d.state = .init → d.done valid = !valid := by
  intro h
  cases valid <;> simp [done, stateNxt, h]

theorem After.start (h : d.state = .init) (hv : valid = true) :
    (d.next valid a b).After a b 0 where
  state := by simp [next, stateNxt, h, hv]
  count := by
    rw [next, countNxt, h, hv]
    rfl
  p := by
    rw [next, pNxt, h, toNat_append_add]
    simp
  le := by omega

theorem After.countNxt (h : d.After a b k) (hk : k < 32) :
    d.countNxt valid = 1#35 <<< (32 - (k + 1)) := by
  rw [Divider.countNxt, h.state, h.count]
  exact (count_shift k hk).1

theorem After.not_done (h : d.After a b k) (hk : k < 32) : d.done valid = false := by
  simp only [done, stateNxt, h.state, h.countNxt hk, beq_iff_eq, (count_shift k hk).2, if_false]
  rfl

/-- The operands stay, and one more digit is divided. -/
theorem After.next (h : d.After a b k) (hk : k < 32) :
    (d.next valid a b).After a b (k + 1) where
  state := by
    simp only [Divider.next, stateNxt, h.state, h.countNxt hk, beq_iff_eq, (count_shift k hk).2,
      if_false]
  count := h.countNxt hk
  p := by
    rw [Divider.next, pNxt, h.state, Function.iterate_succ_apply', ← h.p]
    exact toNat_shiftSubtract b d.p
  le := hk

theorem After.done (h : d.After a b 32) : d.done valid = true := by
  simp [Divider.done, stateNxt, Divider.countNxt, h.state, h.count]

theorem After.done_iff (h : d.After a b k) : d.done valid = true ↔ k = 32 := by
  constructor
  · intro hd
    by_contra hk
    have hlt : k < 32 := Nat.lt_of_le_of_ne h.le hk
    rw [h.not_done hlt] at hd
    exact absurd hd (by simp)
  · rintro rfl
    exact h.done

theorem After.next_state (h : d.After a b 32) : (d.next valid a b).state = .init := by
  simp [Divider.next, stateNxt, Divider.countNxt, h.state, h.count]

/-- After the last digit the register holds the remainder and the quotient. -/
theorem After.c (h : d.After a b 32) (hb : b ≠ 0#32) : d.c = a % b ++ a / b := by
  have hpos : 0 < b.toNat := Nat.pos_of_ne_zero fun h0 => hb (BitVec.eq_of_toNat_eq h0)
  apply BitVec.eq_of_toNat_eq
  rw [Divider.c, h.p, RestoringDivision.iterate_step_width a.isLt hpos, toNat_append_add,
    BitVec.toNat_umod, BitVec.toNat_udiv]

/-- The divider `n` cycles after `d`, with the operands held. -/
def held (d : Divider) (valid : ℕ → Bool) (a b : Word) : ℕ → Divider
  | 0 => d
  | n + 1 => (held d valid a b n).next (valid n) a b

/-- `done` is raised in the 33rd cycle after `d` for the first time, and in that cycle the
register holds the remainder and the quotient. -/
structure Divides (d : Divider) (valid : ℕ → Bool) (a b : Word) : Prop where
  waits : ∀ n < 33, (d.held valid a b n).done (valid n) = false
  done : (d.held valid a b 33).done (valid 33) = true
  c : (d.held valid a b 33).c = a % b ++ a / b

variable {v : ℕ → Bool}

/-- The divider after the cycle that takes the operands in and `k` further ones. `valid` is
not read in the further ones. -/
theorem after_held (hd : d.state = .init) (hv : v 0 = true) (hk : k ≤ 32) :
    (d.held v a b (k + 1)).After a b k := by
  induction k with
  | zero => exact After.start hd hv
  | succ k ih => exact (ih (by omega)).next hk

theorem divides_of_init (hd : d.state = .init) (hv : v 0 = true) (hb : b ≠ 0#32) :
    d.Divides v a b where
  waits n hn := by
    cases n with
    | zero =>
        rw [held, done_init hd, hv]
        rfl
    | succ n => exact (after_held hd hv (by omega)).not_done (by omega)
  done := (after_held hd hv (Nat.le_refl 32)).done
  c := (after_held hd hv (Nat.le_refl 32)).c hb

/-- `held` is the iteration of a cycle when `valid` stays as well. -/
theorem held_eq_iterate (n : ℕ) :
    d.held (fun _ => true) a b n = (fun d : Divider => d.next true a b)^[n] d := by
  induction n with
  | zero => rfl
  | succ n ih => rw [held, ih, Function.iterate_succ_apply']

theorem c_iterate (hb : b ≠ 0#32) :
    ((fun d : Divider => d.next true a b)^[33] {}).c = a % b ++ a / b := by
  rw [← held_eq_iterate]
  exact (divides_of_init rfl rfl hb).c

end Divider

end FrailCPU
