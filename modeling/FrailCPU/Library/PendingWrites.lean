import Mathlib.Tactic.Common

/-!
# Pending writes in front of a register file

A register file with writes on their way to it is seen through these writes: the
youngest one of a register hides the older ones and the file. A write may be known to
come before its value is, so a view answers `none` for a register whose value is still
missing. `settled` is the view of the file alone. Two facts carry the proofs about a
pipeline: a write that learns its value only adds answers (`Within`), and a write with
its value can be moved into the file (`ahead_settled`).
-/

/-- A write on its way to the file. A write that is not `live` never happens. -/
structure PendingWrite (ρ α : Type*) where
  live : Bool
  dst : ρ
  value : Option α

namespace PendingWrite

variable {ρ α : Type*}

/-- The file with no write pending. -/
def settled (regs : ρ → α) : ρ → Option α := fun r => some (regs r)

/-- Every answer of `v` is an answer of `w`. -/
def Within (v w : ρ → Option α) : Prop := ∀ r x, v r = some x → w r = some x

theorem Within.refl (v : ρ → Option α) : Within v v := fun _ _ h => h

theorem Within.trans {u v w : ρ → Option α} (h : Within u v) (h' : Within v w) :
    Within u w := fun r x hr => h' r x (h r x hr)

/-- The same write, possibly with its value filled in. -/
structure Fills (p q : PendingWrite ρ α) : Prop where
  live : q.live = p.live
  dst : q.dst = p.dst
  value : p.live = true → ∀ x, p.value = some x → q.value = some x

theorem Fills.refl (p : PendingWrite ρ α) : p.Fills p := ⟨rfl, rfl, fun _ _ h => h⟩

section Ahead

variable [DecidableEq ρ]

/-- The view through the write `p` in front of `v`. -/
def ahead (p : PendingWrite ρ α) (v : ρ → Option α) : ρ → Option α := fun r =>
  if p.live = true ∧ p.dst = r then p.value else v r

variable {p q : PendingWrite ρ α} {v w : ρ → Option α} {r : ρ}

theorem ahead_hit (hl : p.live = true) (hd : p.dst = r) : p.ahead v r = p.value := by
  rw [ahead, if_pos ⟨hl, hd⟩]

theorem ahead_miss (h : ¬ (p.live = true ∧ p.dst = r)) : p.ahead v r = v r := by
  rw [ahead, if_neg h]

theorem ahead_dead (h : p.live = false) : p.ahead v = v := by
  funext r
  exact ahead_miss (by simp [h])

/-- A view only gains answers when a write in front of it, or the view behind the
write, does. -/
theorem ahead_within (hp : p.Fills q) (h : Within v w) : Within (p.ahead v) (q.ahead w) := by
  intro r x hr
  by_cases hd : p.live = true ∧ p.dst = r
  · rw [ahead_hit hd.1 hd.2] at hr
    rw [ahead_hit (hp.live.trans hd.1) (hp.dst.trans hd.2)]
    exact hp.value hd.1 x hr
  · rw [ahead_miss hd] at hr
    rw [ahead_miss (by rw [hp.live, hp.dst]; exact hd)]
    exact h r x hr

/-- A write with its value lands in the file. -/
theorem ahead_settled {regs : ρ → α} {x : α} (h : p.live = true → p.value = some x) :
    p.ahead (settled regs) =
      settled fun r => if p.live = true ∧ p.dst = r then x else regs r := by
  funext r
  by_cases hd : p.live = true ∧ p.dst = r
  · rw [ahead_hit hd.1 hd.2, h hd.1, settled, if_pos hd]
  · rw [ahead_miss hd, settled, settled, if_neg hd]

end Ahead

end PendingWrite
