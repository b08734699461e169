import Mathlib.Tactic

/-!
# Writes through several ports

In one cycle every port of a memory may write a cell of its own choice. The ports are taken in
their order, so among those that meet in a cell the last one wins. `combined` is the sum of one
value of each port under exclusive or, and what becomes of it when the value of one port is
replaced.
-/

namespace PortWrites

variable {n w : ℕ} {κ α : Type*}

/-- What the ports write in a cycle. -/
structure Writes (n : ℕ) (κ α : Type*) where
  en : Fin n → Bool
  addr : Fin n → κ
  data : Fin n → α

/-- A list of updates, one after the other. -/
theorem foldl_update [DecidableEq κ] (en : Fin n → Bool) (addr : Fin n → κ) (data : Fin n → α)
    (l : List (Fin n)) (mem : κ → α) (a : κ) :
    l.foldl (fun m k => if en k then Function.update m (addr k) (data k) else m) mem a =
      ((l.reverse.find? fun k => en k && addr k == a).map data).getD (mem a) := by
  induction l generalizing mem with
  | nil => rfl
  | cons k l ih =>
      rw [List.foldl_cons, ih, List.reverse_cons, List.find?_append]
      cases hl : l.reverse.find? fun k => en k && addr k == a with
      | some j => rfl
      | none =>
          rw [Option.none_or, List.find?_singleton]
          by_cases hk : (en k && addr k == a) = true
          · obtain ⟨he, ha⟩ := Bool.and_eq_true_iff.mp hk
            rw [if_pos hk, if_pos he, eq_of_beq ha]
            exact Function.update_self _ _ _
          · rw [if_neg hk]
            change (if en k then Function.update mem (addr k) (data k) else mem) a = mem a
            split
            · rename_i he
              refine Function.update_of_ne (fun ha => hk ?_) _ _
              rw [he, ha, beq_self_eq_true]
              rfl
            · rfl

namespace Writes

variable [DecidableEq κ] (c : Writes n κ α) (mem : κ → α)

/-- The memory after the cycle. -/
def apply : κ → α :=
  (List.finRange n).foldl
    (fun m k => if c.en k then Function.update m (c.addr k) (c.data k) else m) mem

/-- The port whose value is in the cell after the cycle. -/
def winner (a : κ) : Option (Fin n) :=
  (List.finRange n).reverse.find? fun k => c.en k && c.addr k == a

theorem apply_eq (a : κ) : c.apply mem a = ((c.winner a).map c.data).getD (mem a) :=
  foldl_update c.en c.addr c.data (List.finRange n) mem a

theorem apply_of_winner {a : κ} {k : Fin n} (h : c.winner a = some k) :
    c.apply mem a = c.data k := by
  rw [apply_eq, h]
  rfl

theorem apply_of_none {a : κ} (h : c.winner a = none) : c.apply mem a = mem a := by
  rw [apply_eq, h]
  rfl

theorem winner_eq_none {a : κ} :
    c.winner a = none ↔ ∀ k, c.en k = true → c.addr k ≠ a := by
  rw [winner, List.find?_eq_none]
  simp

/-- The ports are searched from the last one on. -/
theorem not_later {a : κ} {j k : Fin n} (h : c.winner a = some k) (hj : k < j) :
    ¬ (c.en j = true ∧ c.addr j = a) := by
  rintro ⟨he, ha⟩
  have hsorted : (List.finRange n).reverse.Pairwise (· > ·) := by
    rw [List.pairwise_reverse]
    exact List.pairwise_lt_finRange n
  obtain ⟨-, as, bs, hl, has⟩ := List.find?_eq_some_iff_append.mp h
  have hmem : j ∈ (List.finRange n).reverse := by simp
  rw [hl, List.mem_append, List.mem_cons] at hmem
  rw [hl, List.pairwise_append, List.pairwise_cons] at hsorted
  rcases hmem with hj' | rfl | hj'
  · have hno := has j hj'
    rw [he, ha, beq_self_eq_true] at hno
    cases hno
  · exact lt_irrefl _ hj
  · exact lt_asymm hj (hsorted.2.1.1 j hj')

/-- The winner writes the cell, and no later port does. -/
theorem winner_eq_some {a : κ} {k : Fin n} :
    c.winner a = some k ↔
      c.en k = true ∧ c.addr k = a ∧ ∀ j, k < j → c.en j = true → c.addr j ≠ a := by
  have writes {j : Fin n} (h : c.winner a = some j) : c.en j = true ∧ c.addr j = a := by
    have hj := List.find?_some h
    rwa [Bool.and_eq_true, beq_iff_eq] at hj
  constructor
  · intro h
    exact ⟨(writes h).1, (writes h).2, fun j hj he ha => c.not_later h hj ⟨he, ha⟩⟩
  · rintro ⟨he, ha, hlast⟩
    cases h : c.winner a with
    | none => exact absurd ha (c.winner_eq_none.mp h k he)
    | some j =>
        rcases lt_trichotomy k j with hlt | rfl | hlt
        · exact absurd (writes h).2 (hlast j hlt (writes h).1)
        · rfl
        · exact absurd ⟨he, ha⟩ (c.not_later h hlt)

end Writes

/-- The values of all ports, added up with exclusive or. -/
def combined (f : Fin n → BitVec w) : BitVec w :=
  (List.finRange n).foldl (fun x k => x ^^^ f k) 0#w

section Combined

theorem xor_xor_cancel (x y : BitVec w) : x ^^^ (x ^^^ y) = y := by
  rw [← BitVec.xor_assoc, BitVec.xor_self, BitVec.zero_xor]

theorem foldl_xor (f : Fin n → BitVec w) (l : List (Fin n)) (x : BitVec w) :
    l.foldl (fun y k => y ^^^ f k) x = x ^^^ l.foldl (fun y k => y ^^^ f k) 0#w := by
  induction l generalizing x with
  | nil => exact (BitVec.xor_zero).symm
  | cons k l ih =>
      rw [List.foldl_cons, List.foldl_cons, ih, ih (0#w ^^^ f k), BitVec.zero_xor,
        BitVec.xor_assoc]

theorem foldl_xor_update (f : Fin n → BitVec w) (k : Fin n) (v : BitVec w) {l : List (Fin n)}
    (hl : l.Nodup) :
    l.foldl (fun y j => y ^^^ Function.update f k v j) 0#w =
      if k ∈ l then l.foldl (fun y j => y ^^^ f j) 0#w ^^^ f k ^^^ v
      else l.foldl (fun y j => y ^^^ f j) 0#w := by
  induction l with
  | nil => rfl
  | cons j l ih =>
      rw [List.nodup_cons] at hl
      rw [List.foldl_cons, List.foldl_cons, foldl_xor, foldl_xor f l, ih hl.2, BitVec.zero_xor,
        BitVec.zero_xor]
      by_cases hj : k = j
      · subst hj
        rw [if_neg hl.1, if_pos List.mem_cons_self, Function.update_self, BitVec.xor_comm (f k),
          BitVec.xor_assoc _ (f k), BitVec.xor_assoc, xor_xor_cancel, BitVec.xor_comm]
      · rw [Function.update_of_ne (Ne.symm hj)]
        by_cases hm : k ∈ l
        · rw [if_pos hm, if_pos (List.mem_cons_of_mem j hm), BitVec.xor_assoc, BitVec.xor_assoc,
            BitVec.xor_assoc]
        · rw [if_neg hm, if_neg (by simp [hj, hm])]

/-- One value is replaced. -/
theorem combined_update (f : Fin n → BitVec w) (k : Fin n) (v : BitVec w) :
    combined (Function.update f k v) = combined f ^^^ f k ^^^ v := by
  rw [combined, foldl_xor_update f k v (List.nodup_finRange n), if_pos (List.mem_finRange k)]
  rfl

/-- A port that holds the combination of its own word with the others' values makes that word
the combination of all. -/
theorem combined_encode (f : Fin n → BitVec w) (k : Fin n) (v : BitVec w) :
    combined (Function.update f k (combined (Function.update f k v))) = v := by
  rw [combined_update, combined_update, xor_xor_cancel]

end Combined

end PortWrites
