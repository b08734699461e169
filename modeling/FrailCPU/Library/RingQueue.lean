import Mathlib.Tactic

/-!
# Queues in a ring of cells

A queue that is kept in the cells of a ring is a window of an address sequence: the
entries with the numbers from `p` on stand in the cells `addr p`, `addr (p + 1)` and so on.
Addresses may come back, but not within the capacity. A removal moves the front of the
window, an insertion writes the cell behind it.
-/

namespace RingQueue

variable {ι α : Type*}

/-- Addresses less than `cap` apart are different cells. -/
def Separates (addr : ℕ → ι) (cap : ℕ) : Prop :=
  ∀ j k, j < k → k < j + cap → addr j ≠ addr k

/-- The `n` entries from the number `p` on. -/
def window (mem : ι → α) (addr : ℕ → ι) (p : ℕ) : ℕ → List α
  | 0 => []
  | n + 1 => mem (addr p) :: window mem addr (p + 1) n

variable {mem mem' : ι → α} {addr : ℕ → ι} {p n k : ℕ}

@[simp] theorem window_zero (mem : ι → α) (addr : ℕ → ι) (p : ℕ) : window mem addr p 0 = [] := rfl

@[simp] theorem length_window : (window mem addr p n).length = n := by
  induction n generalizing p with
  | zero => rfl
  | succ n ih => rw [window, List.length_cons, ih]

theorem getElem?_window (hk : k < n) : (window mem addr p n)[k]? = some (mem (addr (p + k))) := by
  induction n generalizing p k with
  | zero => omega
  | succ n ih =>
      cases k with
      | zero => rfl
      | succ k =>
          rw [window, List.getElem?_cons_succ, ih (by omega), Nat.add_assoc, Nat.add_comm 1 k]

/-- Removing entries moves the front. -/
theorem drop_window : (window mem addr p n).drop k = window mem addr (p + k) (n - k) := by
  induction k generalizing p n with
  | zero => rfl
  | succ k ih =>
      cases n with
      | zero => simp
      | succ n =>
          rw [window, List.drop_succ_cons, ih, Nat.add_right_comm, Nat.add_assoc,
            Nat.add_sub_add_right]

/-- A window reads its own cells only. -/
theorem window_congr (h : ∀ k < n, mem (addr (p + k)) = mem' (addr (p + k))) :
    window mem addr p n = window mem' addr p n := by
  induction n generalizing p with
  | zero => rfl
  | succ n ih =>
      have h0 : mem (addr p) = mem' (addr p) := h 0 (by omega)
      rw [window, window, h0, ih]
      intro k hk
      have := h (k + 1) (by omega)
      rwa [Nat.add_comm k 1, ← Nat.add_assoc] at this

theorem window_concat : window mem addr p (n + 1) = window mem addr p n ++ [mem (addr (p + n))] := by
  induction n generalizing p with
  | zero => rfl
  | succ n ih => rw [window, ih, window, List.cons_append, Nat.add_right_comm, Nat.add_assoc]

/-- Inserting an entry writes the cell behind the window. -/
theorem window_update [DecidableEq ι] {cap : ℕ} (hs : Separates addr cap) (hn : n < cap) (x : α) :
    window (Function.update mem (addr (p + n)) x) addr p (n + 1) = window mem addr p n ++ [x] := by
  rw [window_concat, Function.update_self]
  congr 1
  apply window_congr
  intro k hk
  exact Function.update_of_ne (hs (p + k) (p + n) (by omega) (by omega)) _ _

/-- The cells after the entries of a list have been written, from the number `t` on. -/
def writes [DecidableEq ι] (addr : ℕ → ι) (t : ℕ) (mem : ι → α) : List α → ι → α
  | [] => mem
  | x :: l => writes addr (t + 1) (Function.update mem (addr t) x) l

/-- Insertions append to the queue while they fit into it. -/
theorem window_writes [DecidableEq ι] {cap : ℕ} (hs : Separates addr cap) {t : ℕ} (l : List α)
    (ht : t = p + n) (hn : n + l.length ≤ cap) :
    window (writes addr t mem l) addr p (n + l.length) = window mem addr p n ++ l := by
  induction l generalizing mem n t with
  | nil => simp [writes]
  | cons x l ih =>
      rw [List.length_cons] at hn ⊢
      rw [writes, Nat.add_comm l.length 1, ← Nat.add_assoc, ih (by omega) (by omega), ht,
        window_update hs (by omega), List.append_assoc, List.singleton_append]

end RingQueue
