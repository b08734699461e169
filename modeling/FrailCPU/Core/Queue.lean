import FrailCPU.Core.Hazard
import FrailCPU.Library.RingQueue

/-!
# The issue queue as a bounded FIFO

The entries of the queue are numbered in the order of their arrival: even numbers go to
the odd ring and odd numbers to the even one, in both downwards. The pointers are those of
the number `p` of the entries that have left and of the number `t` of those that have
arrived. `hazard.sv` stops the arrivals as soon as one ring has a single free cell.
-/

namespace FrailCPU

/-- The pointer of a ring after `k` steps. -/
def ringIndex (k : ℕ) : QueueIndex := -BitVec.ofNat 4 k

/-- The cell of the entry `k`: its ring, which is the odd one if `true`, and its index. -/
def ringAddr (k : ℕ) : Bool × QueueIndex := (k % 2 == 0, ringIndex (k / 2))

section Index

theorem ringIndex_next (k : ℕ) : (ringIndex k).next = ringIndex (k + 1) := by
  have h : ∀ x : BitVec 4, QueueIndex.next (-x) = -(x + 1#4) := by decide
  rw [ringIndex, ringIndex, h, BitVec.ofNat_add]

theorem ringIndex_step (k : ℕ) (b : Bool) :
    (if b = true then (ringIndex k).next else ringIndex k) = ringIndex (k + b.toNat) := by
  cases b with
  | true => exact ringIndex_next k
  | false => rfl

theorem ringIndex_eq_iff {j k : ℕ} : ringIndex j = ringIndex k ↔ j % 16 = k % 16 := by
  rw [ringIndex, ringIndex, BitVec.neg_inj]
  constructor
  · intro he
    simpa using congrArg BitVec.toNat he
  · intro he
    apply BitVec.eq_of_toNat_eq
    simpa using he

theorem toNat_ringIndex_sub {j k : ℕ} (hjk : j ≤ k) (h : k < j + 16) :
    (ringIndex j - ringIndex k).toNat = k - j := by
  simp only [ringIndex, BitVec.toNat_sub, BitVec.toNat_neg, BitVec.toNat_ofNat]
  omega

/-- The two rings have 32 cells. -/
theorem ringAddr_separates : RingQueue.Separates ringAddr 32 := by
  intro j k hjk hk he
  obtain ⟨hpar, hidx⟩ := Prod.mk.inj he
  have hm : j % 2 = 0 ↔ k % 2 = 0 := by simpa using hpar
  have := ringIndex_eq_iff.mp hidx
  omega

end Index

namespace IssueQueue

/-- The cells of both rings. -/
def cell (q : IssueQueue) (x : Bool × QueueIndex) : DecodeData :=
  if x.1 then q.odd x.2 else q.even x.2

/-- The number of entries, from the pointers. -/
def size (q : IssueQueue) : ℕ :=
  (q.headOdd - q.tailOdd).toNat + (q.headEven - q.tailEven).toNat

/-- The entries from the heads to the tails, in the order in which the rings alternate. -/
def contentsFrom (q : IssueQueue) (odd : Bool) (io ie : QueueIndex) : ℕ → List DecodeData
  | 0 => []
  | n + 1 =>
    if odd then q.odd io :: contentsFrom q false io.next ie n
    else q.even ie :: contentsFrom q true io ie.next n

def contents (q : IssueQueue) : List DecodeData :=
  q.contentsFrom q.oddFirst q.headOdd q.headEven q.size

/-- The cells after a write to each ring. -/
def writeCells (mem : Bool × QueueIndex → DecodeData) (oddEn evenEn : Bool)
    (tailOdd tailEven : QueueIndex) (wdataOdd wdataEven : DecodeData) :
    Bool × QueueIndex → DecodeData :=
  let mem' := if oddEn then Function.update mem (true, tailOdd) wdataOdd else mem
  if evenEn then Function.update mem' (false, tailEven) wdataEven else mem'

/-- What arrives in a cycle. -/
def arrivals (i : IssueInput) : List DecodeData :=
  if i.stallI then []
  else (if (decode i.dataF2).slot1.valid then [(decode i.dataF2).slot1] else []) ++
    (if (decode i.dataF2).slot0.valid then [(decode i.dataF2).slot0] else [])

theorem length_arrivals_le (i : IssueInput) : (arrivals i).length ≤ 2 := by
  rw [arrivals]
  generalize (decode i.dataF2).slot1 = d1
  generalize (decode i.dataF2).slot0 = d0
  cases i.stallI <;> cases d1.valid <;> cases d0.valid <;> simp

/-- How many entries leave in a cycle. -/
def departures (q : IssueQueue) (i : IssueInput) : ℕ :=
  if q.popping i then
    (if issueEn1 q.candidate1 q.candidate2 i.bypass then 1 else 0) +
      (if issueEn2 q.candidate1 q.candidate2 i.bypass then 1 else 0)
  else 0

end IssueQueue

theorem IssueQueue.cell_step_eq (q : IssueQueue) (i : IssueInput) :
    (q.step i).cell = IssueQueue.writeCells q.cell (q.oddEn i) (q.evenEn i) q.tailOdd q.tailEven
      (q.wdataOdd i) (q.wdataEven i) := by
  funext x
  obtain ⟨odd, idx⟩ := x
  simp only [IssueQueue.cell, IssueQueue.step, IssueQueue.writeCells]
  generalize q.oddEn i = oe
  generalize q.evenEn i = ee
  generalize q.wdataOdd i = wo
  generalize q.wdataEven i = we
  cases oe <;> cases ee <;> cases odd <;> simp [Function.update_apply, IssueQueue.cell]

/-- The pointers after `p` departures and `t` arrivals. -/
structure IssueQueue.Counts (q : IssueQueue) (p t : ℕ) : Prop where
  headOdd : q.headOdd = ringIndex ((p + 1) / 2)
  headEven : q.headEven = ringIndex (p / 2)
  tailOdd : q.tailOdd = ringIndex ((t + 1) / 2)
  tailEven : q.tailEven = ringIndex (t / 2)
  le : p ≤ t
  oddRoom : (t + 1) / 2 ≤ (p + 1) / 2 + 15
  evenRoom : t / 2 ≤ p / 2 + 15

namespace IssueQueue

variable {q : IssueQueue} {p t : ℕ}

section Counts

theorem counts_reset : Counts {} 0 0 := by
  constructor <;> first | rfl | omega

/-- The walk along the rings is a window of the entries. -/
theorem contentsFrom_eq (q : IssueQueue) (n p : ℕ) :
    q.contentsFrom (p % 2 == 0) (ringIndex ((p + 1) / 2)) (ringIndex (p / 2)) n =
      RingQueue.window q.cell ringAddr p n := by
  induction n generalizing p with
  | zero => rfl
  | succ n ih =>
      have hnext := ih (p + 1)
      rcases Nat.mod_two_eq_zero_or_one p with hp | hp
      · have hodd : (ringIndex ((p + 1) / 2)).next = ringIndex ((p + 1 + 1) / 2) := by
          rw [ringIndex_next]
          congr 1
          omega
        have hpar : ((p + 1) % 2 == 0) = false := by simp; omega
        have hcell : q.odd (ringIndex ((p + 1) / 2)) = q.cell (ringAddr p) := by
          rw [show (p + 1) / 2 = p / 2 by omega]
          simp [cell, ringAddr, hp]
        rw [hpar, show (p + 1) / 2 = p / 2 by omega] at hnext
        rw [RingQueue.window, ← hnext, ← hcell, contentsFrom, hodd, hp]
        rfl
      · have heven : (ringIndex (p / 2)).next = ringIndex ((p + 1) / 2) := by
          rw [ringIndex_next]
          congr 1
          omega
        have hpar : ((p + 1) % 2 == 0) = true := by simp; omega
        have hcell : q.even (ringIndex (p / 2)) = q.cell (ringAddr p) := by
          simp [cell, ringAddr, hp]
        rw [hpar, show (p + 1 + 1) / 2 = (p + 1) / 2 by omega] at hnext
        rw [RingQueue.window, ← hnext, ← hcell, contentsFrom, heven, hp]
        rfl

variable (h : q.Counts p t)

include h

theorem Counts.oddFirst : q.oddFirst = (p % 2 == 0) := by
  rw [Bool.eq_iff_iff, IssueQueue.oddFirst, beq_iff_eq, beq_iff_eq, h.headOdd, h.headEven,
    eq_comm, ringIndex_eq_iff]
  omega

theorem Counts.oddNext : q.oddNext = (t % 2 == 0) := by
  rw [Bool.eq_iff_iff, IssueQueue.oddNext, beq_iff_eq, beq_iff_eq, h.tailOdd, h.tailEven,
    eq_comm, ringIndex_eq_iff]
  omega

theorem Counts.odd_empty : q.headOdd = q.tailOdd ↔ (p + 1) / 2 = (t + 1) / 2 := by
  have := h.le
  have := h.oddRoom
  rw [h.headOdd, h.tailOdd, ringIndex_eq_iff]
  omega

theorem Counts.even_empty : q.headEven = q.tailEven ↔ p / 2 = t / 2 := by
  have := h.le
  have := h.evenRoom
  rw [h.headEven, h.tailEven, ringIndex_eq_iff]
  omega

/-- The queue is taken for empty exactly when it is. -/
theorem Counts.queEmpty : q.queEmpty = true ↔ p = t := by
  have := h.le
  rw [IssueQueue.queEmpty, Bool.and_eq_true, beq_iff_eq, beq_iff_eq, h.odd_empty, h.even_empty]
  omega

theorem Counts.odd_full : q.tailOdd.next = q.headOdd ↔ (t + 1) / 2 = (p + 1) / 2 + 15 := by
  have := h.le
  have := h.oddRoom
  rw [h.headOdd, h.tailOdd, ringIndex_next, ringIndex_eq_iff]
  omega

theorem Counts.even_full : q.tailEven.next = q.headEven ↔ t / 2 = p / 2 + 15 := by
  have := h.le
  have := h.evenRoom
  rw [h.headEven, h.tailEven, ringIndex_next, ringIndex_eq_iff]
  omega

theorem Counts.size : q.size = t - p := by
  have hle := h.le
  have ho := h.oddRoom
  have he := h.evenRoom
  rw [IssueQueue.size, h.headOdd, h.tailOdd, h.headEven, h.tailEven,
    toNat_ringIndex_sub (by omega) (by omega), toNat_ringIndex_sub (by omega) (by omega)]
  omega

theorem Counts.contents : q.contents = RingQueue.window q.cell ringAddr p (t - p) := by
  rw [IssueQueue.contents, h.size, h.oddFirst, h.headOdd, h.headEven, contentsFrom_eq]

theorem Counts.size_le : t - p ≤ 30 := by
  have := h.oddRoom
  have := h.evenRoom
  omega

/-- The entry `k` of the queue, counted from the head. -/
theorem Counts.getElem? (k : ℕ) :
    q.contents[k]?.getD {} = if p + k < t then q.cell (ringAddr (p + k)) else {} := by
  rw [h.contents]
  split
  · rw [RingQueue.getElem?_window (by omega)]
    rfl
  · rw [List.getElem?_eq_none (by rw [RingQueue.length_window]; omega)]
    rfl

theorem Counts.rdataOdd :
    q.rdataOdd = if (p + 1) / 2 < (t + 1) / 2 then q.odd (ringIndex ((p + 1) / 2)) else {} := by
  have hlt : q.headOdd ≠ q.tailOdd ↔ (p + 1) / 2 < (t + 1) / 2 := by
    have := h.le
    rw [ne_eq, h.odd_empty]
    omega
  rw [IssueQueue.rdataOdd, h.headOdd.symm]
  simp only [bne_iff_ne, hlt]

theorem Counts.rdataEven :
    q.rdataEven = if p / 2 < t / 2 then q.even (ringIndex (p / 2)) else {} := by
  have hlt : q.headEven ≠ q.tailEven ↔ p / 2 < t / 2 := by
    have := h.le
    rw [ne_eq, h.even_empty]
    omega
  rw [IssueQueue.rdataEven, h.headEven.symm]
  simp only [bne_iff_ne, hlt]

theorem Counts.candidate1 : q.candidate1 = q.contents[0]?.getD {} := by
  have hle := h.le
  rw [h.getElem?, Nat.add_zero, IssueQueue.candidate1, h.oddFirst, h.rdataOdd, h.rdataEven]
  rcases Nat.mod_two_eq_zero_or_one p with hp | hp
  · have hodd : (p + 1) / 2 = p / 2 := by omega
    have hlt : p / 2 < (t + 1) / 2 ↔ p < t := by omega
    simp only [cell, ringAddr, hp, hlt, hodd, beq_self_eq_true, if_true]
  · have hlt : p / 2 < t / 2 ↔ p < t := by omega
    simp only [cell, ringAddr, hp, hlt]
    rfl

theorem Counts.candidate2 : q.candidate2 = q.contents[1]?.getD {} := by
  have hle := h.le
  rw [h.getElem?, IssueQueue.candidate2, h.oddFirst, h.rdataOdd, h.rdataEven]
  rcases Nat.mod_two_eq_zero_or_one p with hp | hp
  · have heven : (p + 1) / 2 = p / 2 := by omega
    have hpar : (p + 1) % 2 = 1 := by omega
    have hlt : p / 2 < t / 2 ↔ p + 1 < t := by omega
    simp only [cell, ringAddr, hp, hpar, hlt, heven]
    rfl
  · have hpar : (p + 1) % 2 = 0 := by omega
    have hlt : (p + 1) / 2 < (t + 1) / 2 ↔ p + 1 < t := by omega
    simp only [cell, ringAddr, hp, hpar, hlt, beq_self_eq_true, if_true]
    rfl

/-- Only entries leave. -/
theorem Counts.departures_le (i : IssueInput) : p + q.departures i ≤ t := by
  have hle := h.le
  have h1 : issueEn1 q.candidate1 q.candidate2 i.bypass = true → p < t := by
    intro he
    by_contra hn
    have hv : q.candidate1.valid = true := by
      simp only [issueEn1, Bool.and_eq_true] at he
      exact he.1.1
    rw [h.candidate1, h.getElem?, if_neg (by omega)] at hv
    cases hv
  have h2 : issueEn2 q.candidate1 q.candidate2 i.bypass = true → p + 1 < t := by
    intro he
    by_contra hn
    have hv : q.candidate2.valid = true := (issueEn2_together he).valid2
    rw [h.candidate2, h.getElem?, if_neg (by omega)] at hv
    cases hv
  rw [departures]
  split
  · split
    · split
      · have := h2 ‹_›
        omega
      · have := h1 ‹_›
        omega
    · split
      · have := h2 ‹_›
        omega
      · omega
  · omega

end Counts

section Step

variable {i : IssueInput}

theorem counts_flushed (hf : i.flushQue = true) : (q.step i).Counts 0 0 := by
  constructor <;> simp [IssueQueue.step, hf, ringIndex]

variable (h : q.Counts p t)

include h

/-- The heads after the departures. -/
theorem Counts.heads_step (hf : i.flushQue = false) :
    (q.step i).headOdd = ringIndex ((p + q.departures i + 1) / 2) ∧
      (q.step i).headEven = ringIndex ((p + q.departures i) / 2) := by
  simp only [IssueQueue.step, hf, Bool.false_eq_true, if_false, popOdd, popEven, departures,
    h.oddFirst, h.headOdd, h.headEven, ringIndex_step]
  have h21 : issueEn2 q.candidate1 q.candidate2 i.bypass = true →
      issueEn1 q.candidate1 q.candidate2 i.bypass = true := issueEn1_of_issueEn2
  generalize issueEn1 q.candidate1 q.candidate2 i.bypass = e1 at h21 ⊢
  generalize issueEn2 q.candidate1 q.candidate2 i.bypass = e2 at h21 ⊢
  constructor <;> apply congrArg ringIndex <;>
    rcases Nat.mod_two_eq_zero_or_one p with hp | hp <;>
    cases q.popping i <;> cases e1 <;> cases e2 <;> simp [hp] at h21 ⊢ <;> omega

/-- The tails after the arrivals, which come in order. -/
theorem Counts.tails_step (hf : i.flushQue = false)
    (ho : (decode i.dataF2).slot0.valid = true → (decode i.dataF2).slot1.valid = true) :
    (q.step i).tailOdd = ringIndex ((t + (arrivals i).length + 1) / 2) ∧
      (q.step i).tailEven = ringIndex ((t + (arrivals i).length) / 2) := by
  simp only [IssueQueue.step, hf, Bool.false_eq_true, if_false, oddEn, evenEn, wdataOdd, wdataEven,
    arrivals, h.oddNext, h.tailOdd, h.tailEven, ringIndex_step]
  constructor <;> apply congrArg ringIndex <;>
    rcases Nat.mod_two_eq_zero_or_one t with ht | ht <;>
    cases i.stallI <;> cases h1 : (decode i.dataF2).slot1.valid <;>
    cases h0 : (decode i.dataF2).slot0.valid <;> simp [ht, h1, h0] at ho ⊢ <;> omega

/-- The pointers stay those of the numbers, as long as nothing arrives in a full ring. -/
theorem Counts.step (hf : i.flushQue = false)
    (ho : (decode i.dataF2).slot0.valid = true → (decode i.dataF2).slot1.valid = true)
    (hg : q.overflow = true → i.stallI = true) :
    (q.step i).Counts (p + q.departures i) (t + (arrivals i).length) := by
  obtain ⟨hho, hhe⟩ := h.heads_step hf
  obtain ⟨hto, hte⟩ := h.tails_step hf ho
  have hleave := h.departures_le i
  have hroom : (arrivals i).length ≤ 2 ∧ ((arrivals i).length = 0 ∨
      ((t + 1) / 2 ≤ (p + 1) / 2 + 14 ∧ t / 2 ≤ p / 2 + 14)) := by
    have hodd := h.oddRoom
    have heven := h.evenRoom
    cases hs : i.stallI with
    | true => simp [arrivals, hs]
    | false =>
        have hno : ¬ q.overflow = true := fun hov => by
          rw [hg hov] at hs
          cases hs
        rw [IssueQueue.overflow, Bool.or_eq_true, beq_iff_eq, beq_iff_eq, h.odd_full,
          h.even_full] at hno
        exact ⟨length_arrivals_le i, Or.inr (by omega)⟩
  have hodd := h.oddRoom
  have heven := h.evenRoom
  exact ⟨hho, hhe, hto, hte, by omega, by omega, by omega⟩

/-- The arrivals are written behind the entries. -/
theorem Counts.cell_step
    (ho : (decode i.dataF2).slot0.valid = true → (decode i.dataF2).slot1.valid = true) :
    (q.step i).cell = RingQueue.writes ringAddr t q.cell (arrivals i) := by
  rw [cell_step_eq, h.tailOdd, h.tailEven, oddEn, evenEn, wdataOdd, wdataEven, h.oddNext,
    arrivals]
  generalize (decode i.dataF2).slot1 = d1 at ho ⊢
  generalize (decode i.dataF2).slot0 = d0 at ho ⊢
  cases i.stallI with
  | true => rfl
  | false =>
      rcases Nat.mod_two_eq_zero_or_one t with ht | ht
      · have h0 : ringAddr t = (true, ringIndex ((t + 1) / 2)) := by
          rw [ringAddr, ht, show (t + 1) / 2 = t / 2 by omega]
          rfl
        have h1 : ringAddr (t + 1) = (false, ringIndex (t / 2)) := by
          rw [ringAddr, show (t + 1) % 2 = 1 by omega, show (t + 1) / 2 = t / 2 by omega]
          rfl
        rw [ht]
        cases hv1 : d1.valid <;> cases hv0 : d0.valid <;>
          simp [writeCells, RingQueue.writes, h0, h1, hv1, hv0] at ho ⊢
      · have h0 : ringAddr t = (false, ringIndex (t / 2)) := by
          rw [ringAddr, ht]
          rfl
        have h1 : ringAddr (t + 1) = (true, ringIndex ((t + 1) / 2)) := by
          rw [ringAddr, show (t + 1) % 2 = 0 by omega]
          rfl
        have hne : ringAddr t ≠ ringAddr (t + 1) := by
          rw [h0, h1]
          simp
        rw [ht]
        cases hv1 : d1.valid <;> cases hv0 : d0.valid <;>
          simp [writeCells, RingQueue.writes, ← h0, ← h1, hv1, hv0, Function.update_comm hne] at ho ⊢

/-- What leaves is taken from the front, and what arrives is put behind. -/
theorem Counts.contents_step (hf : i.flushQue = false)
    (ho : (decode i.dataF2).slot0.valid = true → (decode i.dataF2).slot1.valid = true)
    (hg : q.overflow = true → i.stallI = true) :
    (q.step i).contents = q.contents.drop (q.departures i) ++ arrivals i := by
  have hnext := h.step hf ho hg
  have hwin : RingQueue.window (q.step i).cell ringAddr p (t - p + (arrivals i).length) =
      q.contents ++ arrivals i := by
    have ht : t = p + (t - p) := by
      have := h.le
      omega
    rw [h.cell_step ho, h.contents]
    exact RingQueue.window_writes ringAddr_separates _ ht
      (Nat.add_le_add h.size_le (length_arrivals_le i))
  have hlen : q.departures i ≤ q.contents.length := by
    rw [h.contents, RingQueue.length_window]
    exact Nat.le_sub_of_add_le' (h.departures_le i)
  have hsub : ∀ a n : ℕ, t - p + a - n = t + a - (p + n) := by
    have := h.le
    omega
  rw [hnext.contents, ← List.drop_append_of_le_length hlen, ← hwin, RingQueue.drop_window, hsub]

end Step

end IssueQueue

/-- What the queue and the hazard unit read in a cycle; slot 1 of the arrivals is filled
first. -/
structure QueueInput where
  dataF2 : Pair FetchData := ⟨{}, {}⟩
  ordered : dataF2.slot0.valid = true → dataF2.slot1.valid = true := by simp
  bypass : Pair PortBypass := ⟨{}, {}⟩
  hazard : HazardIn := {}

/-- The inputs of `issue.sv`: the stalls and the flush come from `hazard.sv`, which is told
of the overflow. -/
def QueueInput.issueInput (i : QueueInput) (q : IssueQueue) : IssueInput :=
  let h := { i.hazard with overflowI := q.overflow }.front false
  { dataF2 := i.dataF2
    bypass := i.bypass
    flushQue := h.flushQue
    stallI := h.stallI
    stallIDe := h.stallIDe }

/-- The queue and the sequence of what has arrived and has neither left nor been flushed. -/
structure TrackedQueue where
  queue : IssueQueue := {}
  pending : List DecodeData := []

namespace TrackedQueue

variable (s : TrackedQueue) (i : QueueInput)

/-- A clock edge. -/
def step : TrackedQueue :=
  let j := i.issueInput s.queue
  { queue := s.queue.step j
    pending :=
      if j.flushQue then []
      else s.pending.drop (s.queue.departures j) ++ IssueQueue.arrivals j }

/-- The banks hold the pending entries, the candidates are the first two of them, and the
queue is taken for empty only when there is none. Whatever comes next, an entry is written
only to a ring that keeps a free cell, unless the queue is flushed. -/
structure IsFifo : Prop where
  contents : s.queue.contents = s.pending
  candidate1 : s.queue.candidate1 = s.pending[0]?.getD {}
  candidate2 : s.queue.candidate2 = s.pending[1]?.getD {}
  valid : ∀ d ∈ s.pending, d.valid = true
  bounded : s.pending.length ≤ 30
  queEmpty : s.queue.queEmpty = true ↔ s.pending = []
  overflow : ∀ i : QueueInput, s.queue.overflow = true →
    (i.issueInput s.queue).stallI = true ∨ (i.issueInput s.queue).flushQue = true
  oddRoom : ∀ i : QueueInput, s.queue.oddEn (i.issueInput s.queue) = true →
    (i.issueInput s.queue).flushQue = true ∨ s.queue.tailOdd.next ≠ s.queue.headOdd
  evenRoom : ∀ i : QueueInput, s.queue.evenEn (i.issueInput s.queue) = true →
    (i.issueInput s.queue).flushQue = true ∨ s.queue.tailEven.next ≠ s.queue.headEven

/-- The pending entries are those between the pointers of some numbers. -/
structure Holds : Prop where
  counts : ∃ p t, s.queue.Counts p t
  contents : s.queue.contents = s.pending
  valid : ∀ d ∈ s.pending, d.valid = true

variable {s i}

theorem holds_reset : Holds {} where
  counts := ⟨0, 0, IssueQueue.counts_reset⟩
  contents := rfl
  valid := by simp

theorem overflow_stalls (h : s.queue.overflow = true) :
    (i.issueInput s.queue).stallI = true ∨ (i.issueInput s.queue).flushQue = true :=
  HazardIn.overflow_stalls (h := { i.hazard with overflowI := s.queue.overflow }) h

theorem valid_of_mem_arrivals {j : IssueInput} {d : DecodeData}
    (h : d ∈ IssueQueue.arrivals j) : d.valid = true := by
  rw [IssueQueue.arrivals] at h
  split at h
  · cases h
  · rw [List.mem_append] at h
    rcases h with h | h <;> split at h <;> simp_all

theorem Holds.step (h : s.Holds) : (s.step i).Holds := by
  obtain ⟨p, t, hc⟩ := h.counts
  cases hf : (i.issueInput s.queue).flushQue with
  | true =>
      have hreset : (s.step i).queue.Counts 0 0 := IssueQueue.counts_flushed hf
      have hp : (s.step i).pending = [] := by simp [TrackedQueue.step, hf]
      exact ⟨⟨0, 0, hreset⟩, by rw [hreset.contents, hp]; rfl, by simp [hp]⟩
  | false =>
      have hg : s.queue.overflow = true → (i.issueInput s.queue).stallI = true := fun ho =>
        (overflow_stalls ho).resolve_right (by simp [hf])
      have hp : (s.step i).pending = s.pending.drop (s.queue.departures (i.issueInput s.queue)) ++
          IssueQueue.arrivals (i.issueInput s.queue) := by
        simp [TrackedQueue.step, hf]
      refine ⟨⟨_, _, hc.step hf i.ordered hg⟩, ?_, ?_⟩
      · rw [hp, ← h.contents]
        exact hc.contents_step hf i.ordered hg
      · intro d hd
        rw [hp, List.mem_append] at hd
        rcases hd with hd | hd
        · exact h.valid d (List.mem_of_mem_drop hd)
        · exact valid_of_mem_arrivals hd

theorem Holds.isFifo (h : s.Holds) : s.IsFifo := by
  obtain ⟨p, t, hc⟩ := h.counts
  have hlen : s.pending.length = t - p := by
    rw [← h.contents, hc.contents, RingQueue.length_window]
  have hwrites : ∀ i : QueueInput, (i.issueInput s.queue).stallI = false →
      (i.issueInput s.queue).flushQue = true ∨ s.queue.overflow = false := by
    intro i hs
    cases ho : s.queue.overflow with
    | false => exact Or.inr rfl
    | true => exact Or.inl ((overflow_stalls ho).resolve_left (by simp [hs]))
  exact
    { contents := h.contents
      candidate1 := by rw [hc.candidate1, h.contents]
      candidate2 := by rw [hc.candidate2, h.contents]
      valid := h.valid
      bounded := by rw [hlen]; exact hc.size_le
      queEmpty := by
        have := hc.le
        rw [hc.queEmpty, List.eq_nil_iff_length_eq_zero, hlen]
        omega
      overflow := fun i ho => overflow_stalls ho
      oddRoom := fun i he => by
        rw [IssueQueue.oddEn, Bool.and_eq_true, Bool.not_eq_true'] at he
        refine (hwrites i he.1).imp_right fun ho => ?_
        simp only [IssueQueue.overflow, Bool.or_eq_false_iff, beq_eq_false_iff_ne] at ho
        exact ho.1
      evenRoom := fun i he => by
        rw [IssueQueue.evenEn, Bool.and_eq_true, Bool.not_eq_true'] at he
        refine (hwrites i he.1).imp_right fun ho => ?_
        simp only [IssueQueue.overflow, Bool.or_eq_false_iff, beq_eq_false_iff_ne] at ho
        exact ho.2 }

/-- In every run from reset the two rings are a bounded FIFO. -/
theorem queue_fifo (is : List QueueInput) :
    (ClockedMachine.run TrackedQueue.step {} is).IsFifo :=
  (ClockedMachine.run_invariant (fun _ _ hs => hs.step) holds_reset is).isFifo

end TrackedQueue

end FrailCPU
