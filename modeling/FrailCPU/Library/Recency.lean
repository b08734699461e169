import Mathlib.Data.Set.Basic
import Mathlib.Tactic

/-!
# The order of last uses

A log of uses, the latest at the end, orders the members of a set by their last use. The age
of a member is the number of uses since its own, and one that was never used is as old as the
log. Uses of other things do not count: the order is that of the log without them.
-/

namespace Recency

variable {α : Type*} [DecidableEq α]

/-- The number of uses since the last one of `a`. -/
def age (log : List α) (a : α) : ℕ := log.reverse.idxOf a

/-- `x` was not used later than `y`. -/
def Older (log : List α) (x y : α) : Prop := age log y ≤ age log x

instance (log : List α) (x y : α) : Decidable (Older log x y) :=
  inferInstanceAs (Decidable (_ ≤ _))

/-- A member of the set that was not used later than any other member. -/
structure LeastRecent (log : List α) (S : Set α) (x : α) : Prop where
  mem : x ∈ S
  oldest : ∀ y ∈ S, Older log x y

variable {log : List α} {S : Set α} {a b x y : α}

@[simp] theorem age_append_self : age (log ++ [a]) a = 0 := by
  simp [age]

theorem age_append_of_ne (h : b ≠ a) : age (log ++ [b]) a = age log a + 1 := by
  rw [age, List.reverse_append, List.reverse_singleton, List.singleton_append,
    List.idxOf_cons_ne _ h]
  rfl

/-- The latest use makes its object the youngest, and leaves the others in their order. -/
theorem older_append : Older (log ++ [b]) x y ↔ y = b ∨ (x ≠ b ∧ Older log x y) := by
  by_cases hy : b = y
  · subst hy
    simp [Older]
  · have hy' : y ≠ b := fun h => hy h.symm
    by_cases hx : b = x
    · subst hx
      simp [Older, age_append_of_ne hy, hy']
    · have hx' : x ≠ b := fun h => hx h.symm
      simp [Older, age_append_of_ne hy, age_append_of_ne hx, hx', hy']

theorem older_nil : Older [] x y := Nat.le_refl 0

/-- The uses of what is not in the set do not count. -/
theorem older_filter [DecidablePred (· ∈ S)] (hx : x ∈ S) (hy : y ∈ S) :
    Older (log.filter (· ∈ S)) x y ↔ Older log x y := by
  induction log using List.reverseRecOn with
  | nil => rfl
  | append_singleton log b ih =>
      rw [List.filter_append, older_append]
      by_cases hb : b ∈ S
      · rw [List.filter_cons_of_pos (by simpa using hb), List.filter_nil, older_append, ih]
      · have hxb : x ≠ b := fun h => hb (h ▸ hx)
        have hyb : y ≠ b := fun h => hb (h ▸ hy)
        rw [List.filter_cons_of_neg (by simpa using hb), List.filter_nil, List.append_nil, ih]
        simp [hxb, hyb]

theorem leastRecent_nil (h : x ∈ S) : LeastRecent [] S x := ⟨h, fun _ _ => older_nil⟩

/-- Logs with the same uses of the members say the same. -/
theorem LeastRecent.congr [DecidablePred (· ∈ S)] {log' : List α} (h : LeastRecent log S x)
    (he : log'.filter (· ∈ S) = log.filter (· ∈ S)) : LeastRecent log' S x where
  mem := h.mem
  oldest y hy := by
    rw [← older_filter h.mem hy, he, older_filter h.mem hy]
    exact h.oldest y hy

/-- A second use on top of the first one changes nothing. -/
theorem LeastRecent.again (h : LeastRecent (log ++ [a]) S x) :
    LeastRecent (log ++ [a] ++ [a]) S x where
  mem := h.mem
  oldest y hy := by
    have hxy := h.oldest y hy
    rw [older_append] at hxy ⊢
    exact hxy.imp_right fun hx => ⟨hx.1, h.oldest y hy⟩

/-- In a set of two the one that was not used last is the least recent. -/
theorem leastRecent_of_pair (hx : x ∈ S) (hS : ∀ y ∈ S, y = a ∨ y = x) (hne : x ≠ a) :
    LeastRecent (log ++ [a]) S x where
  mem := hx
  oldest y hy := by
    rw [older_append]
    rcases hS y hy with h | h
    · exact Or.inl h
    · exact Or.inr ⟨hne, h ▸ Nat.le_refl _⟩

end Recency
