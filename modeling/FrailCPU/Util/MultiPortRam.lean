import Mathlib
import FrailCPU.Library.Machine
import FrailCPU.Library.PortWrites

/-!
# The RAMs with several ports

`FFRAM`, `XORRAM` and `LVTRAM`. The first one keeps the words in registers. The other two are
built from RAMs with one write port each: `XORRAM` stores in each of them a part of an exclusive
or over all of them, and `LVTRAM` remembers for each address which of them was written last. A
`DistributedRAM` starts with zeros, is read in the same cycle and written at the edge.
-/

namespace FrailCPU

open ClockedMachine PortWrites

/-- The ports in a cycle, with `n + 1` of them for writing and `r` for reading. -/
structure RamInput (α : Type) (depth n r : ℕ) where
  resetn : Bool
  wen : Fin (n + 1) → Bool
  waddr : Fin (n + 1) → Fin depth
  wdata : Fin (n + 1) → α
  raddr : Fin r → Fin depth

variable {α : Type} {width depth n r : ℕ}

/-- There is a port for writing. -/
local instance (priority := high) neZero_ports : NeZero (n + 1) := ⟨Nat.succ_ne_zero n⟩

/-- The write ports. -/
def RamInput.writes (i : RamInput α depth n r) : Writes (n + 1) (Fin depth) α :=
  ⟨i.wen, i.waddr, i.wdata⟩

/-- The words of a `DistributedRAM`. -/
abbrev Bank (α : Type) (depth : ℕ) := Fin depth → α

/-- A clock edge of `DistributedRAM`. -/
def Bank.write (bank : Bank α depth) (wea : Bool) (addra : Fin depth) (dina : α) :
    Bank α depth :=
  if wea then Function.update bank addra dina else bank

/-- The registers of `FFRAM` with latency 1. -/
structure Ffram (α : Type) [Zero α] (depth r : ℕ) where
  prev : Bank α depth := fun _ => 0
  rdata : Fin r → α := fun _ => 0

namespace Ffram

variable [Zero α] (s : Ffram α depth r) (i : RamInput α depth n r)

/-- `next`. -/
def next : Bank α depth := i.writes.apply s.prev

/-- `rdata` with latency 0. -/
def rdataNow (p : Fin r) : α := s.next i (i.raddr p)

/-- A clock edge. -/
def step : Ffram α depth r where
  prev := s.next i
  rdata p := if i.resetn then s.next i (i.raddr p) else 0

end Ffram

/-- `next` of `BypassBuffer`. -/
def bypassNext (i : RamInput α depth n r) (data : Fin r → α) : Fin r → α :=
  (List.finRange (n + 1)).foldl
    (fun next k p => if i.wen k && i.raddr p == i.waddr k then i.wdata k else next p) data

/-- What `BypassBuffer` registers at a clock edge. -/
def bypassBuffer [Zero α] (i : RamInput α depth n r) (data : Fin r → α) : Fin r → α :=
  fun p => if i.resetn then bypassNext i data p else 0

/-- The RAMs behind the write ports and behind the read ports of `XORRAM`. -/
structure Xorram (width depth n r : ℕ) where
  wRow : Fin (n + 1) → Fin (n + 1) → Bank (BitVec width) depth := fun _ _ _ => 0
  rRow : Fin r → Fin (n + 1) → Bank (BitVec width) depth := fun _ _ _ => 0
  rdata : Fin r → BitVec width := fun _ => 0

namespace Xorram

variable (s : Xorram width depth n r) (i : RamInput (BitVec width) depth n r)

/-- `en`: the last port that writes an address is enabled. -/
def en (k : Fin (n + 1)) : Bool :=
  i.wen k && (List.finRange (n + 1)).all fun j =>
    !(decide (k < j)) || (!i.wen j || i.waddr k != i.waddr j)

/-- `vec` of a write row. -/
def wVec (k j : Fin (n + 1)) : BitVec width :=
  if k = j then i.wdata k else s.wRow k j (i.waddr k)

/-- `sum`. -/
def sum (k : Fin (n + 1)) : BitVec width := combined (s.wVec i k)

/-- `out`. -/
def out (p : Fin r) : BitVec width := combined fun j => s.rRow p j (i.raddr p)

/-- A clock edge. -/
def step : Xorram width depth n r where
  wRow k j := if k = j then s.wRow k j else (s.wRow k j).write (en i j) (i.waddr j) (s.sum i j)
  rRow p j := (s.rRow p j).write (en i j) (i.waddr j) (s.sum i j)
  rdata := bypassBuffer i (s.out i)

end Xorram

/-- The RAMs of `LVTRAM` and its table of the live values. -/
structure Lvtram (α : Type) [Zero α] (depth n r : ℕ) where
  data : Fin r → Fin (n + 1) → Bank α depth := fun _ _ _ => 0
  lvt : Ffram (Fin (n + 1)) depth r := {}
  rdata : Fin r → α := fun _ => 0

namespace Lvtram

variable [Zero α] (s : Lvtram α depth n r) (i : RamInput α depth n r)

/-- The ports of `lvt_inst`: every write port writes its number. -/
def lvtInput : RamInput (Fin (n + 1)) depth n r where
  resetn := true
  wen := i.wen
  waddr := i.waddr
  wdata := id
  raddr := i.raddr

/-- `out`. With a single write port there is no table. -/
def out (p : Fin r) : α :=
  if 1 < n + 1 then s.data p (s.lvt.rdataNow (lvtInput i) p) (i.raddr p)
  else s.data p 0 (i.raddr p)

/-- A clock edge. -/
def step : Lvtram α depth n r where
  data p j := (s.data p j).write (i.wen j) (i.waddr j) (i.wdata j)
  lvt := s.lvt.step (lvtInput i)
  rdata := bypassBuffer i (s.out i)

end Lvtram

/-- The value last written to an address: of the last cycle that wrote it, by the port with the
highest number. -/
def lastWritten [Zero α] (is : List (RamInput α depth n r)) (a : Fin depth) : α :=
  (is.reverse.findSome? fun i => (i.writes.winner a).map i.wdata).getD 0

section Bypass

variable [Zero α] {i : RamInput α depth n r}

omit [Zero α] in
/-- The bypass shows a write of the same cycle, and what the RAM shows otherwise. -/
theorem bypassNext_eq (data : Fin r → α) (p : Fin r) :
    bypassNext i data p = ((i.writes.winner (i.raddr p)).map i.wdata).getD (data p) := by
  have key (l : List (Fin (n + 1))) (data : Fin r → α) :
      l.foldl (fun next k p => if i.wen k && i.raddr p == i.waddr k then i.wdata k else next p)
          data p =
        ((l.reverse.find? fun k => i.wen k && i.waddr k == i.raddr p).map i.wdata).getD
          (data p) := by
    induction l generalizing data with
    | nil => rfl
    | cons k l ih =>
        rw [List.foldl_cons, ih, List.reverse_cons, List.find?_append]
        cases l.reverse.find? fun k => i.wen k && i.waddr k == i.raddr p with
        | some j => rfl
        | none =>
            rw [Option.none_or, List.find?_singleton, BEq.comm]
            split <;> rfl
  exact key (List.finRange (n + 1)) data

/-- Behind the bypass only the words that no port writes matter. -/
theorem bypassBuffer_eq (mem : Bank α depth) (data : Fin r → α)
    (h : ∀ p, i.writes.winner (i.raddr p) = none → data p = mem (i.raddr p)) :
    bypassBuffer i data = fun p => if i.resetn then i.writes.apply mem (i.raddr p) else 0 := by
  funext p
  rw [bypassBuffer, bypassNext_eq, Writes.apply_eq]
  cases hw : i.writes.winner (i.raddr p) with
  | some k => rfl
  | none =>
      rw [h p hw]
      rfl

end Bypass

/-- What a bank holds after a write. -/
theorem write_apply (bank : Bank α depth) (wea : Bool) (x : Fin depth) (v : α) (a : Fin depth) :
    bank.write wea x v a = if wea = true ∧ x = a then v else bank a := by
  rw [Bank.write]
  by_cases hw : wea = true
  · by_cases hx : x = a
    · rw [if_pos hw, if_pos ⟨hw, hx⟩, hx]
      exact Function.update_self _ _ _
    · rw [if_pos hw, if_neg fun h => hx h.2]
      exact Function.update_of_ne (Ne.symm hx) _ _
  · rw [if_neg hw, if_neg fun h => hw h.1]

/-! ### The exclusive or over the banks -/

namespace Xorram

variable {s : Xorram width depth n r} {i : RamInput (BitVec width) depth n r}

/-- The copies of each column agree, and together they hold the words. -/
structure Encodes (s : Xorram width depth n r) (mem : Bank (BitVec width) depth)
    (col : Fin (n + 1) → Bank (BitVec width) depth) : Prop where
  wRow : ∀ k j, k ≠ j → s.wRow k j = col j
  rRow : ∀ p j, s.rRow p j = col j
  word : ∀ a, combined (fun j => col j a) = mem a

/-- The enabled ports are the winners. -/
theorem en_iff (k : Fin (n + 1)) : en i k = true ↔ i.writes.winner (i.waddr k) = some k := by
  rw [Writes.winner_eq_some, en, Bool.and_eq_true, List.all_eq_true]
  constructor
  · rintro ⟨he, hall⟩
    refine ⟨he, rfl, fun j hj hw ha => ?_⟩
    have h := hall j (List.mem_finRange j)
    change i.wen j = true at hw
    change i.waddr j = i.waddr k at ha
    rw [decide_eq_true hj, hw, ha, bne_self_eq_false] at h
    cases h
  · rintro ⟨he, -, hlast⟩
    refine ⟨he, fun j _ => ?_⟩
    by_cases hj : k < j
    · cases hw : i.wen j with
      | false => simp
      | true =>
          have hne : i.waddr k ≠ i.waddr j := fun h => hlast j hj hw h.symm
          simp [hne]
    · simp [hj]

variable {mem : Bank (BitVec width) depth} {col : Fin (n + 1) → Bank (BitVec width) depth}

/-- A write row adds the other columns to its own word. -/
theorem Encodes.sum_eq (h : s.Encodes mem col) (k : Fin (n + 1)) :
    s.sum i k = combined (Function.update (fun j => col j (i.waddr k)) k (i.wdata k)) := by
  have hv : s.wVec i k = Function.update (fun j => col j (i.waddr k)) k (i.wdata k) := by
    funext j
    by_cases hj : k = j
    · subst hj
      rw [wVec, if_pos rfl, Function.update_self]
    · rw [wVec, if_neg hj, Function.update_of_ne (Ne.symm hj), h.wRow k j hj]
  rw [sum, hv]

/-- The columns after a clock edge. -/
def colNext (s : Xorram width depth n r) (i : RamInput (BitVec width) depth n r)
    (col : Fin (n + 1) → Bank (BitVec width) depth) : Fin (n + 1) → Bank (BitVec width) depth :=
  fun j => (col j).write (en i j) (i.waddr j) (s.sum i j)

/-- The winner encodes its word, and an address that nobody writes keeps its own. -/
theorem Encodes.word_next (h : s.Encodes mem col) (a : Fin depth) :
    combined (fun j => s.colNext i col j a) = i.writes.apply mem a := by
  -- a bank is written at `a` by the winner and by no other port
  have hcol (j : Fin (n + 1)) : s.colNext i col j a =
      if i.writes.winner a = some j then s.sum i j else col j a := by
    rw [colNext, write_apply]
    refine if_congr ⟨fun ⟨he, ha⟩ => ?_, fun hw => ?_⟩ rfl rfl
    · rw [← ha]
      exact (en_iff j).mp he
    · have ha : i.waddr j = a := (Writes.winner_eq_some _).mp hw |>.2.1
      exact ⟨(en_iff j).mpr (by rw [ha]; exact hw), ha⟩
  cases hw : i.writes.winner a with
  | none =>
      rw [Writes.apply_of_none _ _ hw, ← h.word a]
      congr 1
      funext j
      rw [hcol, hw, if_neg (by simp)]
  | some k =>
      have ha : i.waddr k = a := (Writes.winner_eq_some _).mp hw |>.2.1
      have hnext : (fun j => s.colNext i col j a) =
          Function.update (fun j => col j a) k (s.sum i k) := by
        funext j
        rw [hcol, hw]
        by_cases hj : j = k
        · subst hj
          rw [if_pos rfl, Function.update_self]
        · rw [Function.update_of_ne hj, if_neg fun h => hj (Option.some.inj h).symm]
      rw [Writes.apply_of_winner _ _ hw, hnext, h.sum_eq, ha]
      exact combined_encode _ k (i.wdata k)

theorem Encodes.step (h : s.Encodes mem col) :
    (s.step i).Encodes (i.writes.apply mem) (s.colNext i col) where
  wRow k j hj := by
    change (if k = j then s.wRow k j else _) = _
    rw [if_neg hj, h.wRow k j hj]
    rfl
  rRow p j := by
    change (s.rRow p j).write _ _ _ = _
    rw [h.rRow p j]
    rfl
  word := h.word_next

theorem Encodes.rdata_step (h : s.Encodes mem col) :
    (s.step i).rdata = fun p => if i.resetn then i.writes.apply mem (i.raddr p) else 0 := by
  refine bypassBuffer_eq mem _ fun p _ => ?_
  rw [out, ← h.word]
  congr 1
  funext j
  rw [h.rRow]

theorem encodes_reset : ({} : Xorram width depth n r).Encodes (fun _ => 0) fun _ _ => 0 where
  wRow _ _ _ := rfl
  rRow _ _ := rfl
  word a := by
    have h (l : List (Fin (n + 1))) (x : BitVec width) :
        l.foldl (fun y _ => y ^^^ (0 : BitVec width)) x = x := by
      induction l generalizing x with
      | nil => rfl
      | cons k l ih => exact (ih _).trans BitVec.xor_zero
    exact h _ _

end Xorram

/-! ### The table of the live values -/

namespace Lvtram

variable [Zero α] {s : Lvtram α depth n r} {i : RamInput α depth n r} {mem : Bank α depth}

/-- The live bank of every address holds its word. -/
def Live (s : Lvtram α depth n r) (mem : Bank α depth) : Prop :=
  ∀ p a, s.data p (s.lvt.prev a) a = mem a

theorem Live.step (h : s.Live mem) : (s.step i).Live (i.writes.apply mem) := by
  intro p a
  have hlvt : (s.step i).lvt.prev a = (i.writes.winner a).getD (s.lvt.prev a) := by
    change (lvtInput i).writes.apply s.lvt.prev a = _
    rw [Writes.apply_eq]
    change ((i.writes.winner a).map id).getD _ = _
    rw [Option.map_id_fun, id]
  change (s.data p ((s.step i).lvt.prev a)).write _ _ _ a = _
  rw [write_apply, hlvt]
  cases hw : i.writes.winner a with
  | none =>
      have hno := (Writes.winner_eq_none _).mp hw (s.lvt.prev a)
      rw [Option.getD_none, Writes.apply_of_none _ _ hw, if_neg fun hx => hno hx.1 hx.2]
      exact h p a
  | some k =>
      obtain ⟨he, ha, -⟩ := (Writes.winner_eq_some _).mp hw
      rw [Option.getD_some, Writes.apply_of_winner _ _ hw, if_pos ⟨he, ha⟩]
      rfl

/-- An address that is not written in the cycle is read from its live bank. -/
theorem Live.out_eq (h : s.Live mem) {p : Fin r} (hw : i.writes.winner (i.raddr p) = none) :
    s.out i p = mem (i.raddr p) := by
  have hid : s.lvt.rdataNow (lvtInput i) p = s.lvt.prev (i.raddr p) :=
    Writes.apply_of_none _ _ hw
  rw [out]
  split
  · rw [hid, h]
  · -- with one port the table has one entry
    have hn : n = 0 := by omega
    subst hn
    rw [← h p (i.raddr p), Fin.fin_one_eq_zero (s.lvt.prev (i.raddr p))]

theorem Live.rdata_step (h : s.Live mem) :
    (s.step i).rdata = fun p => if i.resetn then i.writes.apply mem (i.raddr p) else 0 :=
  bypassBuffer_eq mem _ fun _ hw => h.out_eq hw

end Lvtram

section Runs

variable (is : List (RamInput (BitVec width) depth n r))

/-- The registers hold what was last written. -/
theorem prev_eq_lastWritten (a : Fin depth) :
    (run Ffram.step {} is : Ffram (BitVec width) depth r).prev a = lastWritten is a := by
  induction is using List.reverseRecOn with
  | nil => rfl
  | append_singleton is i ih =>
      rw [run_append]
      change i.writes.apply (run Ffram.step {} is : Ffram (BitVec width) depth r).prev a = _
      rw [Writes.apply_eq, ih, lastWritten, lastWritten, List.reverse_append,
        List.reverse_singleton, List.singleton_append, List.findSome?_cons]
      cases i.writes.winner a with
      | none => rfl
      | some k => rfl

theorem Xorram.encodes_run : ∃ col, (run Xorram.step {} is : Xorram width depth n r).Encodes
    (run Ffram.step {} is : Ffram (BitVec width) depth r).prev col := by
  refine run_related (R := fun (s : Xorram width depth n r)
    (t : Ffram (BitVec width) depth r) => ∃ col, s.Encodes t.prev col) ?_ ⟨_, encodes_reset⟩ is
  rintro s t i ⟨col, h⟩
  exact ⟨_, h.step⟩

theorem Lvtram.live_run : (run Lvtram.step {} is : Lvtram (BitVec width) depth n r).Live
    (run Ffram.step {} is : Ffram (BitVec width) depth r).prev := by
  refine run_related (R := fun (s : Lvtram (BitVec width) depth n r)
    (t : Ffram (BitVec width) depth r) => s.Live t.prev) ?_ (fun _ _ => rfl) is
  intro s t i h
  exact h.step

/-- The three RAMs read alike in every cycle: the value last written to the address, with a
write of the same cycle. -/
theorem rams_interchangeable (i : RamInput (BitVec width) depth n r) :
    (run Xorram.step {} (is ++ [i]) : Xorram width depth n r).rdata =
        (run Ffram.step {} (is ++ [i]) : Ffram (BitVec width) depth r).rdata ∧
      (run Lvtram.step {} (is ++ [i]) : Lvtram (BitVec width) depth n r).rdata =
        (run Ffram.step {} (is ++ [i]) : Ffram (BitVec width) depth r).rdata ∧
      ∀ p, (run Ffram.step {} (is ++ [i]) : Ffram (BitVec width) depth r).rdata p =
        if i.resetn then lastWritten (is ++ [i]) (i.raddr p) else 0 := by
  obtain ⟨col, hx⟩ := Xorram.encodes_run is
  refine ⟨?_, ?_, fun p => ?_⟩
  · rw [run_append, run_append]
    exact hx.rdata_step
  · rw [run_append, run_append]
    exact (Lvtram.live_run is).rdata_step
  · rw [← prev_eq_lastWritten, run_append]
    rfl

end Runs

end FrailCPU
