import FrailCPU.DCache.Cache

/-!
# The memory behind a cache

A memory that answers the bursts on a cache bus. It decides in every cycle whether it takes a
beat, and it takes as many as the burst is declared to have; what is on the data lines of a
cycle without a beat is not determined.
-/

namespace FrailCPU

/-- The number of the word that an address lies in. -/
def wordAddr (a : Word) : BitVec 30 := a.extractLsb' 2 30

structure BusMemory where
  mem : BitVec 30 → Word
  beat : MLen := 0#4

/-- What the memory decides in one cycle. -/
structure Beat where
  ready : Bool
  junk : Word := 0#32

namespace BusMemory

variable (m : BusMemory) (r : CBusReq) (b : Beat)

/-- The word of the current beat. -/
def word : BitVec 30 := wordAddr r.addr + m.beat.setWidth 30

def resp : CBusResp where
  ready := r.valid && b.ready
  last := r.valid && b.ready && m.beat == r.len
  data := if r.valid && b.ready then m.mem (m.word r) else b.junk

def next : BusMemory where
  mem :=
    if r.valid && b.ready && r.isWrite then
      Function.update m.mem (m.word r)
        (Lanes.maskedWrite (DCache.getMask r.strobe) (m.mem (m.word r)) r.data)
    else m.mem
  beat :=
    if r.valid && b.ready then (if m.beat == r.len then 0#4 else m.beat + 1#4) else m.beat

variable {m r b}

theorem next_of_idle (h : (r.valid && b.ready) = false) : m.next r b = m := by
  rw [next, h]
  rfl

theorem next_mem_of_read (h : r.isWrite = false) : (m.next r b).mem = m.mem := by
  simp [next, h]

theorem last_imp_ready (h : (m.resp r b).last = true) : (m.resp r b).ready = true := by
  rw [resp, Bool.and_eq_true] at h
  exact h.1

end BusMemory

namespace DCache

open State (lineAddr)

/-- The words of a line in memory. -/
def lineWords (mem : BitVec 30 → Word) (l : Tag × Index) (o : Offset) : Word :=
  mem (l.1 ++ l.2 ++ o)

theorem wordAddr_append (l : BitVec 26) : wordAddr (l ++ 0#6) = l ++ 0#4 := by
  apply BitVec.eq_of_getLsbD_eq
  intro j hj
  rw [wordAddr, BitVec.getLsbD_extractLsb', BitVec.getLsbD_append, BitVec.getLsbD_append]
  by_cases hj4 : j < 4
  · rw [if_pos (by omega), if_pos hj4]
    simp
  · have hsub : 2 + j - 6 = j - 4 := by omega
    rw [if_neg (by omega), if_neg hj4, hsub]
    simp [hj]

theorem append_add (l : BitVec 26) (o : Offset) : l ++ 0#4 + o.setWidth 30 = l ++ o := by
  have hdisjoint : (l ++ 0#4) &&& o.setWidth 30 = 0#30 := by
    apply BitVec.eq_of_getLsbD_eq
    intro j hj
    rw [BitVec.getLsbD_and, BitVec.getLsbD_append, BitVec.getLsbD_setWidth]
    by_cases hj4 : j < 4
    · rw [if_pos hj4]
      simp
    · rw [BitVec.getLsbD_of_ge o j (by omega)]
      simp
  rw [BitVec.add_eq_or_of_and_eq_zero _ _ hdisjoint]
  apply BitVec.eq_of_getLsbD_eq
  intro j hj
  rw [BitVec.getLsbD_or, BitVec.getLsbD_append, BitVec.getLsbD_append, BitVec.getLsbD_setWidth]
  by_cases hj4 : j < 4
  · rw [if_pos hj4, if_pos hj4]
    simp [hj]
  · rw [if_neg hj4, if_neg hj4, BitVec.getLsbD_of_ge o j (by omega)]
    simp

/-- The words of a burst are those of its line. -/
theorem word_lineAddr (tag : Tag) (k : Index) (o : Offset) :
    wordAddr (lineAddr tag k) + o.setWidth 30 = tag ++ k ++ o := by
  rw [lineAddr, wordAddr_append, append_add]

end DCache

end FrailCPU
