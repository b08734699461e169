import FrailCPU.DCache.Tags
import FrailCPU.ICache.Cache
import FrailCPU.Library.LineStore
import FrailCPU.Memory.Bus

/-!
# The instruction cache returns memory

Fetch pairs against a memory that does not change. The pair lies at the translations of `pc`
and `pc+4`, so its words are in one set only when they are in one line; with this the way that
a refill fills is the one that is named at its end, although the way is computed again.
-/

namespace FrailCPU.ICache

open ClockedMachine LineStore
open DCache (Port Tag Index Offset Way Slot DataAddr UniqueTags tagOf indexOf offsetOf lineWords
  word_lineAddr)
open DCache.State (lineAddr)

/-- The cache, the memory, and the pair that waits for its answer. -/
structure Fetching where
  cache : State := {}
  bus : BusMemory
  pending : Option (Port → Word) := none

/-- The fetch pair of one cycle, if there is one, and what the memory does. -/
structure Ask where
  valid : Bool
  addr : Port → Word
  beat : Beat

def Ask.input (a : Ask) (resp : CBusResp) : Input where
  ireq p := ⟨a.valid, a.addr p⟩
  icresp := resp

namespace Fetching

variable (t : Fetching) (a : Ask)

def req : CBusReq := t.cache.icreq (a.input default)

def input : Input := a.input (t.bus.resp (t.req a) a.beat)

/-- A clock edge. -/
def step : Fetching where
  cache := t.cache.next (t.input a)
  bus := t.bus.next (t.req a) a.beat
  pending := if a.valid && !t.cache.addrOk (t.input a) then some a.addr else none

/-- The pair is that of `pc` and `pc+4` under some translation, and it is held until it is
accepted. -/
def Asks : Prop :=
  (a.valid = true → ∃ (m : MmuState) (pc : Word),
    a.addr .one = m.paddr pc ∧ a.addr .two = m.paddr (pc + 4#32)) ∧
  ∀ addr, t.pending = some addr → a.valid = true ∧ a.addr = addr

end Fetching

namespace State

variable (s : State)

/-- Nothing is cached and no operation is under way. -/
structure Fresh : Prop where
  idle : s.state = .idle
  unsaved : s.instSaved = false
  clear : ∀ k w, (s.metaRam k w).valid = false

/-- The line that a slot of the data RAM holds. The slot of a refill holds none. -/
def names (k : Slot) : Option (Tag × Index) :=
  if s.state ≠ .idle ∧ k = s.missAddr.slot then none
  else if (s.metaRam k.index k.line).valid then some ((s.metaRam k.index k.line).tag, k.index)
  else none

def words (k : Slot) (o : Offset) : Word := s.dataRam ⟨k, o⟩

end State

section Translation

/-- The translation keeps the offset in the page. -/
theorem getLsbD_paddr (m : MmuState) (v : Word) {j : ℕ} (hj : j < 12) :
    (m.paddr v).getLsbD j = v.getLsbD j := by
  rw [MmuState.paddr]
  split
  · rw [MmuState.search, tlbSearch, BitVec.getLsbD_append, if_pos hj, VAddr.pageOffset,
      BitVec.getLsbD_extractLsb']
    simp [hj]
  · rw [unmappedTranslator, BitVec.getLsbD_append, if_pos (by omega), BitVec.getLsbD_extractLsb']
    simp
    omega

theorem indexOf_paddr (m : MmuState) (v : Word) : indexOf (m.paddr v) = indexOf v := by
  apply BitVec.eq_of_getLsbD_eq
  intro j hj
  rw [indexOf, indexOf, BitVec.getLsbD_extractLsb', BitVec.getLsbD_extractLsb',
    getLsbD_paddr m v (by omega)]

/-- The page decides the tag. -/
theorem tagOf_paddr_congr (m : MmuState) {v v' : Word}
    (h : v.extractLsb' 12 20 = v'.extractLsb' 12 20) :
    tagOf (m.paddr v) = tagOf (m.paddr v') := by
  have hbit : ∀ j, v.getLsbD (12 + j) = v'.getLsbD (12 + j) := by
    intro j
    by_cases hj : j < 20
    · have hj' := congrArg (fun x : BitVec 20 => x.getLsbD j) h
      simpa [hj] using hj'
    · rw [BitVec.getLsbD_of_ge _ _ (by omega), BitVec.getLsbD_of_ge _ _ (by omega)]
  have hfield : ∀ n w, v.extractLsb' (12 + n) w = v'.extractLsb' (12 + n) w := by
    intro n w
    apply BitVec.eq_of_getLsbD_eq
    intro j hj
    rw [BitVec.getLsbD_extractLsb', BitVec.getLsbD_extractLsb', Nat.add_assoc, hbit]
  have hmapped : isMapped v = isMapped v' := by
    rw [isMapped, isMapped, hfield 18 2, hbit 19]
  have hsearch : (m.search v).paddr.extractLsb' 12 20 = (m.search v').paddr.extractLsb' 12 20 := by
    have hmatch : searchMatch m.tlbRam v m.asid = searchMatch m.tlbRam v' m.asid := by
      funext i
      rw [searchMatch, searchMatch, VAddr.vpn2, VAddr.vpn2, hfield 1 19]
    rw [MmuState.search, MmuState.search, tlbSearch, tlbSearch]
    dsimp only
    rw [BitVec.extractLsb'_append_eq_left, BitVec.extractLsb'_append_eq_left, chooseIndex,
      chooseIndex, hmatch, VAddr.oddPage, VAddr.oddPage, hbit 0]
  rw [tagOf, tagOf, MmuState.paddr, MmuState.paddr, hmapped]
  split
  · exact hsearch
  · apply BitVec.eq_of_getLsbD_eq
    intro j hj
    rw [BitVec.getLsbD_extractLsb', BitVec.getLsbD_extractLsb', unmappedTranslator,
      unmappedTranslator, BitVec.getLsbD_append, BitVec.getLsbD_append,
      BitVec.getLsbD_extractLsb', BitVec.getLsbD_extractLsb', Nat.zero_add, hbit]

/-- Two words that follow each other are in one set only if they are in one page. -/
theorem page_eq_of_index_eq {pc : Word} (h : indexOf pc = indexOf (pc + 4#32)) :
    pc.extractLsb' 12 20 = (pc + 4#32).extractLsb' 12 20 := by
  have hn := congrArg BitVec.toNat h
  simp only [indexOf, BitVec.extractLsb'_toNat, BitVec.toNat_add, BitVec.toNat_ofNat,
    Nat.shiftRight_eq_div_pow] at hn
  apply BitVec.eq_of_toNat_eq
  simp only [BitVec.extractLsb'_toNat, BitVec.toNat_add, BitVec.toNat_ofNat,
    Nat.shiftRight_eq_div_pow]
  omega

end Translation

/-- Words in one set are in one line. -/
def Aligned (addr : Port → Word) : Prop :=
  indexOf (addr .one) = indexOf (addr .two) → tagOf (addr .one) = tagOf (addr .two)

theorem aligned_of_paddr {m : MmuState} {pc : Word} {addr : Port → Word}
    (h1 : addr .one = m.paddr pc) (h2 : addr .two = m.paddr (pc + 4#32)) : Aligned addr := by
  intro hi
  rw [h1, h2, indexOf_paddr, indexOf_paddr] at hi
  rw [h1, h2, tagOf_paddr_congr m (page_eq_of_index_eq hi)]

namespace Fetching

variable {t : Fetching} {a : Ask}

/-- The line at an address is in the tag array. -/
def Has (t : Fetching) (x : Word) : Bool := DCache.hit (t.cache.metaRam (indexOf x)) (tagOf x)

/-- A refill for `p`: the words before the current beat have arrived, and the way that was
chosen at the start is still the one to be replaced. -/
structure Filling (t : Fetching) (p : Port) (addr : Port → Word) : Prop where
  state : t.cache.state = .fetch p
  pending : t.pending = some addr
  aligned : Aligned addr
  miss : t.Has (addr p) = false
  first : p = .two → t.Has (addr .one) = true
  slot : t.cache.missAddr.slot = ⟨t.cache.plru (indexOf (addr p)), indexOf (addr p)⟩
  offset : t.cache.missAddr.offset = t.bus.beat
  filled : ∀ o, o < t.bus.beat →
    t.cache.words t.cache.missAddr.slot o =
      lineWords t.bus.mem (tagOf (addr p), indexOf (addr p)) o

/-- Every line that is named is in place. -/
structure Good (t : Fetching) : Prop where
  saved : t.cache.instSaved = true → t.cache.instSave = .unknown
  unique : ∀ k, UniqueTags (t.cache.metaRam k)
  copies : Copies t.cache.names t.cache.words (lineWords t.bus.mem)
  phase : (t.cache.state = .idle ∧ t.bus.beat = 0#4) ∨ ∃ p addr, t.Filling p addr

theorem validInst_input (hs : t.cache.instSaved = true → t.cache.instSave = .unknown) :
    t.cache.validInst (t.input a) = .unknown := by
  rw [State.validInst]
  split
  · exact hs (by assumption)
  · rfl

theorem cacheOper_input (hs : t.cache.instSaved = true → t.cache.instSave = .unknown) :
    t.cache.cacheOper (t.input a) = if a.valid then .req else .null := by
  rw [State.cacheOper, validInst_input hs]
  cases hv : a.valid with
  | true =>
      change (if (false && a.valid) = true then _ else if (true && a.valid) = true then _ else _) = _
      rw [hv]
      rfl
  | false =>
      change (if (false && a.valid) = true then _ else if (true && a.valid) = true then _ else _) = _
      rw [hv]
      rfl

theorem saved_step (hs : t.cache.instSaved = true → t.cache.instSave = .unknown) :
    (t.step a).cache.instSaved = true → (t.step a).cache.instSave = .unknown := by
  intro h
  change (if !t.cache.en (t.input a) && !t.cache.instSaved then .unknown else t.cache.instSave) = _
  change (if !t.cache.en (t.input a) && !t.cache.instSaved then true
    else if t.cache.en (t.input a) then false else t.cache.instSaved) = true at h
  split
  · rfl
  · rename_i hn
    rw [if_neg hn] at h
    split at h
    · cases h
    · exact hs h

/-- Outside a refill of the older word every port reads the set of its own word. -/
theorem hit_two : t.cache.hit (t.input a) .two = t.Has (a.addr .two) := rfl

theorem hit_one_of_idle (h : t.cache.state = .idle) :
    t.cache.hit (t.input a) .one = t.Has (a.addr .one) := by
  rw [State.hit, State.metaR, State.metaAddr, h]
  rfl

theorem hit_one_of_first (h : t.cache.state = .fetch .one) :
    t.cache.hit (t.input a) .one = t.Has (a.addr .one) := by
  rw [State.hit, State.metaR, State.metaAddr, h]
  rfl

/-- The replacement bit of a set moves only when a word of the set hits. -/
theorem plruNew_eq {k : Index}
    (h1 : t.cache.hit (t.input a) .one = true → indexOf (a.addr .one) ≠ k)
    (h2 : t.cache.hit (t.input a) .two = true → indexOf (a.addr .two) ≠ k) :
    t.cache.plruNew (t.input a) k = t.cache.plru k := by
  have hne {p : Port} (h : indexOf (a.addr p) ≠ k) :
      (State.index (t.input a) p == k) = false := beq_eq_false_iff_ne.mpr h
  rw [State.plruNew]
  split
  · rw [hne (h2 (by assumption)), if_neg Bool.false_ne_true]
  · split
    · rw [hne (h1 (by assumption)), if_neg Bool.false_ne_true]
    · rfl

theorem plru_step_eq {k : Index}
    (h1 : t.cache.hit (t.input a) .one = true → indexOf (a.addr .one) ≠ k)
    (h2 : t.cache.hit (t.input a) .two = true → indexOf (a.addr .two) ≠ k) :
    (t.step a).cache.plru k = t.cache.plru k := by
  change (if t.cache.cacheOper (t.input a) == .req then t.cache.plruNew (t.input a)
    else t.cache.plru) k = _
  split
  · exact plruNew_eq h1 h2
  · rfl

/-- Two words of one set hit together. -/
theorem has_congr {addr : Port → Word} (ha : Aligned addr)
    (hi : indexOf (addr .one) = indexOf (addr .two)) :
    t.Has (addr .one) = t.Has (addr .two) := by
  rw [Has, Has, hi, ha hi]

/-! ### An edge without a refill -/

section Idle

variable (h : t.cache.state = .idle)
include h

theorem bus_step_of_idle : (t.step a).bus = t.bus := by
  apply BusMemory.next_of_idle
  rw [req, State.icreq, h]
  rfl

theorem metaRam_step_of_idle
    (hs : t.cache.instSaved = true → t.cache.instSave = .unknown) :
    (t.step a).cache.metaRam = t.cache.metaRam := by
  change t.cache.metaRamNext (t.input a) = _
  have hen : t.cache.metaEn (t.input a) = false := by
    rw [State.metaEn, h, cacheOper_input hs]
    cases a.valid <;> rfl
  rw [State.metaRamNext, hen, if_neg Bool.false_ne_true]

theorem words_step_of_idle : (t.step a).cache.words = t.cache.words := by
  funext k o
  change t.cache.dataRamNext (t.input a) _ = _
  rw [State.dataRamNext, h]
  rfl

/-- A slot loses its name when a refill starts there, and no slot gets one. -/
theorem names_step_of_idle (hs : t.cache.instSaved = true → t.cache.instSave = .unknown)
    {k : Slot} {l : Tag × Index} (hk : (t.step a).cache.names k = some l) :
    t.cache.names k = some l := by
  rw [State.names, metaRam_step_of_idle h hs] at hk
  rw [State.names, if_neg fun hn => hn.1 h]
  split at hk
  · cases hk
  · exact hk

theorem fsmNext_of_silent (hs : t.cache.instSaved = true → t.cache.instSave = .unknown)
    (hv : a.valid = false) : t.cache.fsmNext (t.input a) = t.cache := by
  rw [State.fsmNext, h]
  dsimp only
  rw [cacheOper_input hs, hv]
  rfl

theorem fsmNext_of_asked (hs : t.cache.instSaved = true → t.cache.instSave = .unknown)
    (hv : a.valid = true) : t.cache.fsmNext (t.input a) =
      if t.Has (a.addr .one) = false then t.cache.startMiss (t.input a) .one
      else if t.Has (a.addr .two) = false then t.cache.startMiss (t.input a) .two
      else t.cache := by
  have hv' (p : Port) : ((t.input a).ireq p).valid = true := hv
  rw [State.fsmNext, h]
  dsimp only
  rw [cacheOper_input hs, hv, if_pos rfl]
  dsimp only
  rw [hv', hv', hit_one_of_idle h, hit_two]
  cases t.Has (a.addr .one) <;> cases t.Has (a.addr .two) <;> rfl

end Idle

/-- A refill starts in the way that the replacement bit names, and the bit stays. -/
theorem filling_of_startMiss {p : Port} (hg : t.Good) (h : t.cache.state = .idle)
    (hb : t.bus.beat = 0#4) (hv : a.valid = true) (ha : Aligned a.addr)
    (hmiss : t.Has (a.addr p) = false) (hfirst : p = .two → t.Has (a.addr .one) = true)
    (hf : t.cache.fsmNext (t.input a) = t.cache.startMiss (t.input a) p) :
    (t.step a).Filling p a.addr := by
  have hmeta := metaRam_step_of_idle (a := a) h hg.saved
  have hbus := bus_step_of_idle (a := a) h
  have hhas (x : Word) : (t.step a).Has x = t.Has x := by
    rw [Has, Has, hmeta]
  have hne : p = .two → indexOf (a.addr .one) ≠ indexOf (a.addr .two) := by
    rintro rfl hi
    rw [← has_congr ha hi, hfirst rfl] at hmiss
    cases hmiss
  have hplru : (t.step a).cache.plru (indexOf (a.addr p)) = t.cache.plru (indexOf (a.addr p)) := by
    apply plru_step_eq
    · intro h1
      rw [hit_one_of_idle h] at h1
      cases p with
      | one => rw [hmiss] at h1; cases h1
      | two => exact hne rfl
    · intro h2 hi
      rw [hit_two] at h2
      cases p with
      | one => rw [← has_congr ha hi.symm, hmiss] at h2; cases h2
      | two => rw [hmiss] at h2; cases h2
  have hreplace : t.cache.replaceLine (t.input a) p = t.cache.plru (indexOf (a.addr p)) := by
    cases p with
    | one => rfl
    | two =>
        have hi : (State.index (t.input a) .one == State.index (t.input a) .two) = false :=
          beq_eq_false_iff_ne.mpr (hne rfl)
        rw [State.replaceLine, hi]
        rfl
  have hen : t.cache.addrOk (t.input a) = false := by
    have hno : t.cache.ireqHit (t.input a) = false := by
      rw [State.ireqHit, hit_one_of_idle h, hit_two]
      cases p with
      | one => rw [hmiss, Bool.and_false, Bool.false_and]
      | two => rw [hmiss, Bool.and_false]
    rw [State.addrOk, State.en, hno, h, Bool.and_false, Bool.false_and]
    rfl
  refine ⟨?_, ?_, ha, ?_, ?_, ?_, ?_, ?_⟩
  · change (t.cache.fsmNext (t.input a)).state = _
    rw [hf]
    rfl
  · change (if a.valid && !t.cache.addrOk (t.input a) then some a.addr else none) = _
    rw [hv, hen]
    rfl
  · rw [hhas, hmiss]
  · exact fun hp => (hhas _).trans (hfirst hp)
  · rw [hplru]
    change (t.cache.fsmNext (t.input a)).missAddr.slot = _
    rw [hf, ← hreplace]
    rfl
  · rw [hbus, hb]
    change (t.cache.fsmNext (t.input a)).missAddr.offset = _
    rw [hf]
    rfl
  · intro o ho
    rw [hbus, hb] at ho
    exact absurd ho (by simp)

theorem Good.step_idle (hg : t.Good) (hask : t.Asks a) (h : t.cache.state = .idle)
    (hb : t.bus.beat = 0#4) : (t.step a).Good := by
  have hbus := bus_step_of_idle (a := a) h
  refine ⟨saved_step hg.saved, ?_, ?_, ?_⟩
  · rw [metaRam_step_of_idle h hg.saved]
    exact hg.unique
  · rw [words_step_of_idle h, hbus]
    exact hg.copies.mono fun k l hk => names_step_of_idle h hg.saved hk
  · have hrest (hf : t.cache.fsmNext (t.input a) = t.cache) :
        (t.step a).cache.state = .idle ∧ (t.step a).bus.beat = 0#4 := by
      refine ⟨?_, by rw [hbus, hb]⟩
      change (t.cache.fsmNext (t.input a)).state = _
      rw [hf, h]
    cases hv : a.valid with
    | false => exact Or.inl (hrest (fsmNext_of_silent h hg.saved hv))
    | true =>
        obtain ⟨m, pc, h1, h2⟩ := hask.1 hv
        have ha := aligned_of_paddr h1 h2
        have hf := fsmNext_of_asked h hg.saved hv
        cases hm1 : t.Has (a.addr .one) with
        | false =>
            rw [if_pos hm1] at hf
            exact Or.inr ⟨.one, a.addr, filling_of_startMiss hg h hb hv ha hm1
              (fun hp => by cases hp) hf⟩
        | true =>
            rw [if_neg (by rw [hm1]; decide)] at hf
            cases hm2 : t.Has (a.addr .two) with
            | false =>
                rw [if_pos hm2] at hf
                exact Or.inr ⟨.two, a.addr, filling_of_startMiss hg h hb hv ha hm2
                  (fun _ => hm1) hf⟩
            | true =>
                rw [if_neg (by rw [hm2]; decide)] at hf
                exact Or.inl (hrest hf)

/-! ### An edge of a refill -/

namespace Filling

variable {p : Port} {addr : Port → Word}

theorem en_eq (h : t.Filling p addr) : t.cache.addrOk (t.input a) = false := by
  rw [State.addrOk, State.en, h.state]
  simp

theorem req_eq (h : t.Filling p addr) (ha : a.addr = addr) : t.req a =
    { valid := true, isWrite := false, size := .size4,
      addr := lineAddr (tagOf (addr p)) (indexOf (addr p)), strobe := 0#4, data := 0#32,
      len := mlen16 } := by
  subst ha
  rw [req, State.icreq, h.state]
  cases p <;> rfl

theorem resp_data (h : t.Filling p addr) (ha : a.addr = addr) (hr : a.beat.ready = true) :
    (t.bus.resp (t.req a) a.beat).data =
      lineWords t.bus.mem (tagOf (addr p), indexOf (addr p)) t.bus.beat := by
  rw [h.req_eq ha, BusMemory.resp, hr]
  change t.bus.mem (t.bus.word _) = _
  rw [BusMemory.word, word_lineAddr]
  rfl

theorem bus_step (h : t.Filling p addr) (ha : a.addr = addr) : (t.step a).bus =
    { t.bus with beat :=
      if a.beat.ready then (if t.bus.beat == 15#4 then 0#4 else t.bus.beat + 1#4)
      else t.bus.beat } := by
  change t.bus.next (t.req a) a.beat = _
  rw [h.req_eq ha, BusMemory.next]
  simp [mlen16]

theorem index_ne (h : t.Filling .two addr) : indexOf (addr .one) ≠ indexOf (addr .two) := by
  intro hi
  have hc := has_congr (t := t) h.aligned hi
  rw [h.miss, h.first rfl] at hc
  cases hc

theorem plru_step (h : t.Filling p addr) (ha : a.addr = addr) :
    (t.step a).cache.plru (indexOf (addr p)) = t.cache.plru (indexOf (addr p)) := by
  subst ha
  have hmiss := h.miss
  apply plru_step_eq
  · intro h1 hi
    cases p with
    | one =>
        rw [hit_one_of_first h.state, hmiss] at h1
        cases h1
    | two => exact h.index_ne hi
  · intro h2 hi
    rw [hit_two] at h2
    cases p with
    | one =>
        rw [← has_congr h.aligned hi.symm, hmiss] at h2
        cases h2
    | two =>
        rw [hmiss] at h2
        cases h2

theorem replaceLine_eq (h : t.Filling p addr) (ha : a.addr = addr) :
    t.cache.replaceLine (t.input a) p = t.cache.missAddr.slot.line := by
  subst ha
  rw [h.slot]
  cases p with
  | one => rfl
  | two =>
      have hi : (State.index (t.input a) .one == State.index (t.input a) .two) = false :=
        beq_eq_false_iff_ne.mpr h.index_ne
      rw [State.replaceLine, hi]
      rfl

theorem metaAddr_eq (h : t.Filling p addr) (ha : a.addr = addr) :
    t.cache.metaAddr (t.input a) .one = indexOf (addr p) := by
  subst ha
  rw [State.metaAddr, h.state]
  cases p <;> rfl

/-- The last beat names the way that was filled. -/
theorem metaRam_step (h : t.Filling p addr) (ha : a.addr = addr) :
    (t.step a).cache.metaRam =
      if (t.bus.resp (t.req a) a.beat).last then
        Function.update t.cache.metaRam (indexOf (addr p))
          (Function.update (t.cache.metaRam (indexOf (addr p))) t.cache.missAddr.slot.line
            ⟨true, tagOf (addr p)⟩)
      else t.cache.metaRam := by
  change t.cache.metaRamNext (t.input a) = _
  have hen : t.cache.metaEn (t.input a) = (t.bus.resp (t.req a) a.beat).last := by
    rw [State.metaEn, h.state]
    rfl
  have hw : t.cache.metaW (t.input a) =
      Function.update (t.cache.metaRam (indexOf (addr p))) t.cache.missAddr.slot.line
        ⟨true, tagOf (addr p)⟩ := by
    rw [State.metaW, State.metaR, h.metaAddr_eq ha, h.state, ← h.replaceLine_eq ha]
    subst ha
    rfl
  rw [State.metaRamNext, hen, h.metaAddr_eq ha, hw]

theorem words_step (h : t.Filling p addr) (k : Slot) (o : Offset) :
    (t.step a).cache.words k o =
      if k = t.cache.missAddr.slot ∧ o = t.cache.missAddr.offset then
        (t.bus.resp (t.req a) a.beat).data
      else t.cache.words k o := by
  change t.cache.dataRamNext (t.input a) _ = _
  rw [State.dataRamNext, h.state]
  dsimp only
  rw [Function.update_apply]
  have hiff : (⟨k, o⟩ : DataAddr) = t.cache.missAddr ↔
      k = t.cache.missAddr.slot ∧ o = t.cache.missAddr.offset := by
    cases t.cache.missAddr
    exact DataAddr.mk.injEq _ _ _ _ ▸ Iff.rfl
  by_cases hk : (⟨k, o⟩ : DataAddr) = t.cache.missAddr
  · rw [if_pos hk, if_pos (hiff.mp hk)]
    rfl
  · rw [if_neg hk, if_neg fun hn => hk (hiff.mpr hn)]
    rfl

theorem fsm_step (h : t.Filling p addr) : t.cache.fsmNext (t.input a) =
    if (t.bus.resp (t.req a) a.beat).ready then
      { t.cache with
        state := if (t.bus.resp (t.req a) a.beat).last then .idle else .fetch p
        missAddr := ⟨t.cache.missAddr.slot, t.cache.missAddr.offset + 1#4⟩ }
    else t.cache := by
  rw [State.fsmNext, h.state]
  rfl

theorem resp_last (h : t.Filling p addr) (ha : a.addr = addr) :
    (t.bus.resp (t.req a) a.beat).last = (a.beat.ready && t.bus.beat == 15#4) := by
  rw [h.req_eq ha]
  rfl

theorem resp_ready (h : t.Filling p addr) (ha : a.addr = addr) :
    (t.bus.resp (t.req a) a.beat).ready = a.beat.ready := by
  rw [h.req_eq ha]
  rfl

theorem pending_step (h : t.Filling p addr) (hv : a.valid = true) (ha : a.addr = addr) :
    (t.step a).pending = some addr := by
  change (if a.valid && !t.cache.addrOk (t.input a) then some a.addr else none) = _
  rw [hv, h.en_eq, ha]
  rfl

theorem names_slot (h : t.Filling p addr) :
    t.cache.names t.cache.missAddr.slot = none := by
  rw [State.names, if_pos]
  exact ⟨by rw [h.state]; simp, rfl⟩

/-- The words of the named slots stay, whatever is on the bus. -/
theorem copies_step (h : t.Filling p addr) (hg : t.Good) (ha : a.addr = addr) :
    Copies t.cache.names (t.step a).cache.words (lineWords (t.step a).bus.mem) := by
  rw [h.bus_step ha]
  apply hg.copies.scratch
  intro k hk
  funext o
  rw [h.words_step, if_neg]
  rintro ⟨rfl, -⟩
  exact hk h.names_slot

/-- A beat that arrives goes to its place. -/
theorem arrived (h : t.Filling p addr) (ha : a.addr = addr) (hr : a.beat.ready = true)
    {o : Offset} (ho : o ≤ t.bus.beat) :
    (t.step a).cache.words t.cache.missAddr.slot o =
      lineWords t.bus.mem (tagOf (addr p), indexOf (addr p)) o := by
  rw [h.words_step]
  by_cases hlast : o = t.bus.beat
  · rw [if_pos ⟨rfl, hlast.trans h.offset.symm⟩, h.resp_data ha hr, hlast]
  · rw [if_neg fun hn => hlast (hn.2.trans h.offset)]
    exact h.filled o (BitVec.lt_of_le_ne ho hlast)

/-- A cycle without a beat, or with one that is not the last. -/
theorem step_more (h : t.Filling p addr) (hg : t.Good) (hv : a.valid = true)
    (ha : a.addr = addr) (hlast : (a.beat.ready && t.bus.beat == 15#4) = false) :
    (t.step a).Good := by
  have hmeta := h.metaRam_step ha
  rw [h.resp_last ha, hlast, if_neg Bool.false_ne_true] at hmeta
  have hf := h.fsm_step (a := a)
  rw [h.resp_last ha, hlast, h.resp_ready ha] at hf
  have hstate : (t.step a).cache.state = .fetch p := by
    change (t.cache.fsmNext (t.input a)).state = _
    rw [hf]
    split
    · rfl
    · exact h.state
  have hslot : (t.step a).cache.missAddr.slot = t.cache.missAddr.slot := by
    change (t.cache.fsmNext (t.input a)).missAddr.slot = _
    rw [hf]
    split <;> rfl
  have hhas (x : Word) : (t.step a).Has x = t.Has x := by
    rw [Has, Has, hmeta]
  have hnames : (t.step a).cache.names = t.cache.names := by
    funext k
    rw [State.names, State.names, hstate, hslot, hmeta, h.state]
  have hbus := h.bus_step (a := a) ha
  refine ⟨saved_step hg.saved, ?_, ?_, Or.inr ⟨p, addr, hstate, h.pending_step hv ha, h.aligned,
    ?_, ?_, ?_, ?_, ?_⟩⟩
  · rw [hmeta]
    exact hg.unique
  · rw [hnames]
    exact h.copies_step hg ha
  · rw [hhas, h.miss]
  · exact fun hp => (hhas _).trans (h.first hp)
  · rw [hslot, h.slot, h.plru_step ha]
  · change (t.cache.fsmNext (t.input a)).missAddr.offset = _
    rw [hf, hbus]
    cases hr : a.beat.ready with
    | false => exact h.offset
    | true =>
        rw [hr, Bool.true_and] at hlast
        rw [if_pos rfl, if_pos rfl, hlast, if_neg Bool.false_ne_true, h.offset]
        rfl
  · rw [hbus, hslot]
    intro o ho
    cases hr : a.beat.ready with
    | false =>
        rw [hr, if_neg Bool.false_ne_true] at ho
        rw [h.words_step, if_neg]
        · exact h.filled o ho
        · rintro ⟨-, rfl⟩
          rw [h.offset] at ho
          exact absurd ho (BitVec.lt_irrefl _)
    | true =>
        rw [hr, Bool.true_and] at hlast
        rw [hr, if_pos rfl, hlast, if_neg Bool.false_ne_true] at ho
        have hne : t.bus.beat ≠ 15#4 := beq_eq_false_iff_ne.mp hlast
        exact h.arrived ha hr (by bv_omega)

/-- The last beat. -/
theorem step_last (h : t.Filling p addr) (hg : t.Good)
    (ha : a.addr = addr) (hr : a.beat.ready = true) (hb : t.bus.beat = 15#4) :
    (t.step a).Good := by
  have hlast : (a.beat.ready && t.bus.beat == 15#4) = true := by
    rw [hr, hb]
    rfl
  have hmeta := h.metaRam_step ha
  rw [h.resp_last ha, hlast, if_pos rfl] at hmeta
  have hf := h.fsm_step (a := a)
  rw [h.resp_last ha, hlast, h.resp_ready ha, hr, if_pos rfl, if_pos rfl] at hf
  have hstate : (t.step a).cache.state = .idle := by
    change (t.cache.fsmNext (t.input a)).state = _
    rw [hf]
  have hbus := h.bus_step (a := a) ha
  rw [hr, if_pos rfl, hb, if_pos (beq_self_eq_true _)] at hbus
  have hindex : t.cache.missAddr.slot.index = indexOf (addr p) := by
    rw [h.slot]
  have hentry (k : Slot) : (t.step a).cache.metaRam k.index k.line =
      if k = t.cache.missAddr.slot then ⟨true, tagOf (addr p)⟩
      else t.cache.metaRam k.index k.line := by
    rw [hmeta, ← hindex]
    by_cases hk : k = t.cache.missAddr.slot
    · rw [if_pos hk, hk, Function.update_self, Function.update_self]
    · rw [if_neg hk]
      by_cases hi : k.index = t.cache.missAddr.slot.index
      · rw [hi, Function.update_self, Function.update_of_ne]
        intro hl
        exact hk (by cases k; cases hs : t.cache.missAddr.slot; simp_all)
      · rw [Function.update_of_ne hi]
  refine ⟨saved_step hg.saved, ?_, ?_, Or.inl ⟨hstate, by rw [hbus]⟩⟩
  · rw [hmeta]
    intro k
    by_cases hk : k = indexOf (addr p)
    · rw [hk, Function.update_self]
      exact (hg.unique _).update h.miss
    · rw [Function.update_of_ne hk]
      exact hg.unique k
  · refine (h.copies_step hg ha).install (s := t.cache.missAddr.slot)
      (l := (tagOf (addr p), indexOf (addr p))) ?_ ?_ ?_
    · intro k hk l hl
      rw [State.names, if_neg fun hn => hn.1 hstate, hentry, if_neg hk] at hl
      rw [State.names, if_neg fun hn => hk hn.2]
      exact hl
    · rw [State.names, if_neg fun hn => hn.1 hstate, hentry, if_pos rfl, if_pos rfl, hindex]
    · intro o
      rw [hbus]
      exact h.arrived ha hr (by rw [hb]; bv_omega)

end Filling

theorem Good.step (hg : t.Good) (hask : t.Asks a) : (t.step a).Good := by
  obtain ⟨h, hb⟩ | ⟨p, addr, h⟩ := hg.phase
  · exact hg.step_idle hask h hb
  · obtain ⟨hv, ha⟩ := hask.2 addr h.pending
    cases hlast : a.beat.ready && t.bus.beat == 15#4 with
    | false => exact h.step_more hg hv ha hlast
    | true =>
        rw [Bool.and_eq_true, beq_iff_eq] at hlast
        exact h.step_last hg ha hlast.1 hlast.2

theorem good_of_fresh {s : State} (h : s.Fresh) (mem : BitVec 30 → Word) :
    Good { cache := s, bus := { mem } } := by
  refine ⟨?_, ?_, ?_, Or.inl ⟨h.idle, rfl⟩⟩
  · intro hs
    rw [h.unsaved] at hs
    cases hs
  · intro k w v hw
    rw [h.clear] at hw
    cases hw
  · apply Copies.of_none
    intro k
    rw [State.names, h.clear]
    split <;> rfl

/-- A pair that is accepted is read from its lines. -/
theorem Good.respData (hg : t.Good) (hok : t.cache.addrOk (t.input a) = true) (p : Port) :
    (t.step a).cache.respData p = t.bus.mem (wordAddr (a.addr p)) := by
  obtain ⟨h, -⟩ | ⟨q, addr, h⟩ := hg.phase
  swap
  · rw [h.en_eq] at hok
    cases hok
  have hhit : t.cache.hit (t.input a) p = true := by
    rw [State.addrOk, State.en, h, State.ireqHit] at hok
    simp only [Bool.and_eq_true, Bool.or_eq_true] at hok
    rcases hok with hok | hok
    · cases p with
      | one => exact hok.1.2.1.2
      | two => exact hok.1.2.2
    · exact absurd hok.1 (by decide)
  have hmeta : t.cache.metaR (t.input a) p = t.cache.metaRam (indexOf (a.addr p)) := by
    cases p with
    | one =>
        rw [State.metaR, State.metaAddr, h]
        rfl
    | two => rfl
  have hentry := DCache.hitLine_spec hhit
  rw [hmeta] at hentry
  have hnames : t.cache.names ⟨t.cache.hitLine (t.input a) p, indexOf (a.addr p)⟩ =
      some (tagOf (a.addr p), indexOf (a.addr p)) := by
    rw [State.names, if_neg fun hn => hn.1 h, State.hitLine, hmeta, hentry]
    rfl
  have hword := hg.copies _ _ hnames (offsetOf (a.addr p))
  have haddr : t.cache.portAddr (t.input a) p =
      ⟨⟨t.cache.hitLine (t.input a) p, indexOf (a.addr p)⟩, offsetOf (a.addr p)⟩ := by
    cases p with
    | one => rfl
    | two =>
        rw [State.portAddr, if_pos h]
        rfl
  change t.cache.dataRam (t.cache.portAddr (t.input a) p) = _
  rw [haddr, wordAddr, DCache.word_eq_append]
  exact hword

theorem mem_step : (t.step a).bus.mem = t.bus.mem := BusMemory.next_mem_of_read rfl

/-- From a cache that holds nothing on, both words of every accepted pair are those of the
memory. -/
theorem fetch_returns_memory (s : State) (hs : s.Fresh) (mem : BitVec 30 → Word)
    (as : List Ask) (a : Ask)
    (hasks : Along step Asks { cache := s, bus := { mem } } (as ++ [a]))
    (hok : (run step { cache := s, bus := { mem } } as).cache.addrOk
      ((run step { cache := s, bus := { mem } } as).input a) = true) (p : Port) :
    (run step { cache := s, bus := { mem } } (as ++ [a])).cache.respData p =
      mem (wordAddr (a.addr p)) := by
  rw [along_append] at hasks
  have hg : (run step { cache := s, bus := { mem } } as).Good :=
    hasks.1.invariant (fun t a hg hask => hg.step hask) (good_of_fresh hs mem)
  have hmem : (run step { cache := s, bus := { mem } } as).bus.mem = mem :=
    run_invariant (P := fun t : Fetching => t.bus.mem = mem)
      (fun t a h => mem_step.trans h) rfl as
  rw [run_append, run_cons, run_nil, hg.respData hok p, hmem]

/-- One pair that is asked for again and again. -/
theorem asks_replicate (ht : ∀ addr, t.pending = some addr → addr = a.addr) (hv : a.valid = true)
    (ha : ∃ (m : MmuState) (pc : Word),
      a.addr .one = m.paddr pc ∧ a.addr .two = m.paddr (pc + 4#32)) (n : ℕ) :
    Along step Asks t (List.replicate n a) := by
  induction n generalizing t with
  | zero => trivial
  | succ n ih =>
      refine ⟨⟨fun _ => ha, fun addr h => ⟨hv, (ht addr h).symm⟩⟩, ih ?_⟩
      intro addr h
      change (if a.valid && !t.cache.addrOk (t.input a) then some a.addr else none) = _ at h
      split at h
      · exact (Option.some_inj.mp h).symm
      · cases h

/-- The first two words of memory. -/
def firstPair : Ask where
  valid := true
  addr
    | .one => 0#32
    | .two => 4#32
  beat := { ready := true }

theorem fetch_returns_memory_first :
    (run step { bus := { mem := fun w => w.setWidth 32 } }
      (List.replicate 17 firstPair ++ [firstPair])).cache.respData .two = 1#32 :=
  fetch_returns_memory {} ⟨rfl, rfl, fun _ _ => rfl⟩ (fun w => w.setWidth 32)
    (List.replicate 17 firstPair) firstPair
    (asks_replicate (n := 18) (fun _ h => by cases h) rfl
      ⟨⟨fun _ => {}, 0#8, 3#3⟩, 0x80000000#32, by decide, by decide⟩)
    (by decide +kernel) .two

end Fetching

namespace State

theorem fresh_reset : Fresh {} := ⟨rfl, rfl, fun _ _ => rfl⟩

/-- A sweep has cleared the sets below its counter. -/
def Swept (s : State) : Prop :=
  s.state = .invalidAll → ∀ k < s.metaIndex, ∀ w, (s.metaRam k w).valid = false

variable {s : State} {i : Input}

/-- A cycle of the sweep. -/
theorem clear_next (hs : s.Swept) (h : s.state = .invalidAll) {k : Index}
    (hk : k ≤ s.metaIndex) (w : Way) : ((s.next i).metaRam k w).valid = false := by
  change (s.metaRamNext i k w).valid = false
  rw [metaRamNext, metaEn, metaAddr, metaW, h]
  dsimp only
  rw [if_pos rfl]
  by_cases he : k = s.metaIndex
  · rw [he, Function.update_self]
    rfl
  · rw [Function.update_of_ne he]
    exact hs h k (BitVec.lt_of_le_ne hk he) w

theorem Swept.next (hs : s.Swept) (i : Input) : (s.next i).Swept := by
  intro h k hk w
  change (s.fsmNext i).state = _ at h
  change k < (s.fsmNext i).metaIndex at hk
  rw [fsmNext] at h hk
  cases hst : s.state with
  | idle =>
      rw [hst] at h hk
      dsimp only at h hk
      cases ho : s.cacheOper i with
      | invalid =>
          rw [ho] at hk
          exact absurd hk (by simp)
      | req =>
          rw [ho] at h
          dsimp only at h
          split at h
          · cases h
          · split at h
            · cases h
            · rw [hst] at h
              cases h
      | null | writebackInvalid | indexStore =>
          rw [ho] at h
          exact absurd (hst.symm.trans h) (by decide)
  | fetch p =>
      rw [hst] at h
      dsimp only at h
      split at h
      · dsimp only at h
        split at h <;> cases h
      · rw [hst] at h
        cases h
  | invalidAll =>
      rw [hst] at h hk
      dsimp only at h hk
      split at h
      · cases h
      · rename_i hne
        rw [beq_iff_eq] at hne
        exact clear_next hs hst (by bv_omega) w

/-- A sweep that is over leaves nothing in the cache and no operation saved. -/
theorem fresh_of_sweep (is : List Input) (i : Input)
    (h : (run next {} is).state = .invalidAll) (hk : (run next {} is).metaIndex = 63#6) :
    ((run next {} is).next i).Fresh := by
  have hs : (run next {} is).Swept :=
    run_invariant (fun s i hs => hs.next i) (fun h => by cases h) is
  generalize run next {} is = s at h hk hs
  refine ⟨?_, ?_, ?_⟩
  · change (s.fsmNext i).state = _
    rw [fsmNext, h]
    dsimp only
    rw [hk]
    rfl
  · have hen : s.en i = true := by
      rw [en, h, hk]
      simp
    change (if !s.en i && !s.instSaved then true else if s.en i then false else s.instSaved) = _
    rw [hen]
    rfl
  · intro k w
    exact clear_next hs h (by rw [hk]; bv_omega) w

end State

end FrailCPU.ICache
