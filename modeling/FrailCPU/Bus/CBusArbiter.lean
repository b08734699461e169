import FrailCPU.Bus.Arbiter

/-!
# The arbiter of the utilities

`CBusArbiter.sv`, for any number of clients. While it is free it chooses, in every cycle, the
client with the greatest number that asks, and lets nothing through; from the cycle behind the
choice on the client has the bus, until the device says `last`.
-/

namespace FrailCPU

/-- The registers of `CBusArbiter` with `n + 1` inputs. -/
structure CBusArbiter (n : ℕ) where
  busy : Bool := false
  index : Fin (n + 1) := 0
  deriving DecidableEq

namespace CBusArbiter

variable {n : ℕ} (s : CBusArbiter n) (i : ArbiterInput n)

/-- `select`, of the loop that counts down. -/
def select : Fin (n + 1) :=
  ((List.finRange (n + 1)).reverse.find? fun k => (i.ireqs k).valid).getD ⟨0, n.succ_pos⟩

def oreq : CBusReq := if s.busy then i.ireqs s.index else default

def iresps (k : Fin (n + 1)) : CBusResp :=
  if s.busy then if s.index = k then i.oresp else default else default

/-- A clock edge. -/
def next : CBusArbiter n :=
  if s.busy then
    if i.oresp.last then { s with busy := false } else s
  else
    { busy := (i.ireqs (select i)).valid
      index := select i }

variable {s i}

/-- The choice is the greatest number that asks. -/
theorem le_select {k : Fin (n + 1)} (h : (i.ireqs k).valid = true) :
    k ≤ select i ∧ (i.ireqs (select i)).valid = true := by
  have hk : k ∈ (List.finRange (n + 1)).reverse := by simp
  rw [select]
  cases hf : (List.finRange (n + 1)).reverse.find? fun k => (i.ireqs k).valid with
  | none => exact absurd h (List.find?_eq_none.1 hf k hk)
  | some j =>
    obtain ⟨hj, as, bs, hl, has⟩ := List.find?_eq_some_iff_append.1 hf
    have hp : (as ++ j :: bs).Pairwise (· > ·) := by
      rw [← hl, List.pairwise_reverse]
      exact List.pairwise_lt_finRange (n + 1)
    refine ⟨?_, hj⟩
    rw [hl, List.mem_append, List.mem_cons] at hk
    rcases hk with hk | rfl | hk
    · exact absurd (has k hk) (by simp [h])
    · exact le_rfl
    · exact (List.pairwise_cons.1 (List.pairwise_append.1 hp).2.1).1 k hk |>.le

theorem select_eq {k : Fin (n + 1)} (h : (i.ireqs k).valid = true)
    (ho : ∀ l, k < l → (i.ireqs l).valid = false) : select i = k := by
  obtain ⟨hle, hv⟩ := le_select h
  rcases hle.lt_or_eq with hlt | heq
  · rw [ho _ hlt] at hv
    cases hv
  · exact heq.symm

variable (i) in
theorem next_of_free (hb : s.busy = false) :
    s.next i = ⟨(i.ireqs (select i)).valid, select i⟩ := by
  rw [next, hb]
  exact if_neg Bool.false_ne_true

variable (i) in
theorem next_of_busy (hb : s.busy = true) :
    s.next i = if i.oresp.last then { s with busy := false } else s := by
  rw [next, hb]
  exact if_pos rfl

theorem iresps_of_free (hb : s.busy = false) (k : Fin (n + 1)) : s.iresps i k = default := by
  rw [iresps, hb]
  exact if_neg Bool.false_ne_true

theorem iresps_of_busy (hb : s.busy = true) (k : Fin (n + 1)) :
    s.iresps i k = if s.index = k then i.oresp else default := by
  rw [iresps, hb]
  exact if_pos rfl

end CBusArbiter

end FrailCPU
