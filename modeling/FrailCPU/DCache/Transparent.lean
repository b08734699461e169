import FrailCPU.DCache.SameWord
import FrailCPU.DCache.Writeback

/-!
# The data cache in front of its memory

Beside the cache and its memory stands a flat memory, to which the stores of every pair are
applied when the pair has its access. A line that a slot names is in that slot as it is in the
flat memory, and any other line is in the memory behind the cache. Every load is answered with
the word of the flat memory.
-/

namespace FrailCPU.DCache

open ClockedMachine LineStore

/-- The flat memory after a request. -/
def applied (r : DBusReq) (mem : BitVec 30 → Word) : BitVec 30 → Word :=
  if r.valid then storeWord mem r else mem

/-- The cache and its memory beside a flat memory. `pair` is the pair that was accepted last,
`flat` has the stores of all pairs before it, and `asked` says that a request was on the bus in
the cycle before. -/
structure Mirror where
  sys : System
  pair : Port → DBusReq := fun _ => default
  flat : BitVec 30 → Word
  asked : Bool := false

/-- Cached requests as the load and store unit sends them, invalid ones without byte enables. -/
structure Access.Plain (a : Access) : Prop where
  lanes : ∀ p, CleanLanes (a.dreq p)
  silent : ∀ p, (a.dreq p).valid = false → (a.dreq p).strobe = 0#4
  cached : ∀ p, a.isUncached p = false

namespace State

variable {s : State} {p : Port} {l : Tag × Index} {ref ref' : BitVec 30 → Word}

/-- What a line is after a store depends on what it was. -/
theorem lineWords_storedBy_congr (h : lineWords ref l = lineWords ref' l) :
    lineWords (s.storedBy p ref) l = lineWords (s.storedBy p ref') l := by
  rw [storedBy, storedBy]
  split
  · funext o
    rw [lineWords_storeWord, lineWords_storeWord]
    split
    · rename_i hl
      rw [← hl.1, h]
    · rw [h]
  · exact h

/-- A store to another line, or a load. -/
theorem lineWords_storedBy_of_ne
    (h : s.performs p = true → (s.req p).strobe ≠ 0#4 → l ≠ s.lineOf p) :
    lineWords (s.storedBy p ref) l = lineWords ref l := by
  cases hp : s.performs p with
  | false => rw [storedBy, hp, if_neg Bool.false_ne_true]
  | true =>
      funext o
      rw [storedBy, hp, if_pos rfl, lineWords_storeWord]
      by_cases hs : (s.req p).strobe = 0#4
      · rw [hs, getMask_zero, Lanes.maskedWrite_zero]
        split
        · rename_i hl
          rw [hl.1, hl.2]
        · rfl
      · rw [if_neg fun hn => h hp hs hn.1]

/-- A refill takes the name of the older request's slot, and of no other one, when it restores
the entry. -/
theorem unnamed_of_fetch {i : Input} {before : Index → Meta} {k : Slot} (h : s.Sound before)
    (hs : s.fsm.state = .fetch p) (hk : s.names k = some l)
    (hn : (s.next i).metaRam k.index k.line ≠ ⟨true, l.1⟩) :
    p = .two ∧ s.ends.fetch .one = true ∧ l = s.lineOf .one := by
  obtain ⟨hm, -, hb⟩ := h.phase.misses_of_fetch hs
  have hslot := h.snapshot.missAddr p (Or.inl hs)
  obtain ⟨hfill, he, hi⟩ := names_eq_some_iff.mp hk
  rw [filling_of_fetch hs, hslot, beq_eq_false_iff_ne] at hfill
  rw [metaRam_fetch hb hs] at hn
  have hindex : k.index = s.index p := by
    by_contra hne
    rw [Function.update_of_ne hne] at hn
    exact hn he
  have hway : k.line ≠ s.missWay p := by
    intro hl
    obtain ⟨kl, ki⟩ := k
    exact hfill (Slot.mk.injEq .. ▸ ⟨hl, hindex⟩)
  have hentry : (s.cacheHandle.side p).metaR k.line ≠ s.metaRam k.index k.line := by
    intro heq
    rw [hindex, Function.update_self, fetchedSet, Function.update_of_ne hway, heq] at hn
    exact hn he
  rw [h.snapshot.metaR, ← hindex] at hentry
  -- the entry is one that a refill of the pair has written
  have hfetched : ∃ q, s.ends.fetch q = true ∧ k = s.missSlot q := by
    by_contra hno
    refine hentry (entry_of_kept h.snapshot fun q hq hkq => hno ⟨q, hq, hkq⟩).symm
  obtain ⟨q, hq, hkq⟩ := hfetched
  have hpq : p = .two ∧ q = .one := by
    cases p <;> cases q
    · exact absurd hkq hfill
    · rw [h.phase.untouched_of_one hs] at hq
      cases hq
    · exact ⟨rfl, rfl⟩
    · exact absurd hkq hfill
  obtain ⟨rfl, rfl⟩ := hpq
  have hindex1 : k.index = s.index .one := congrArg Slot.index hkq
  have hie : s.indexEqual = true := beq_iff_eq.mpr (hindex1.symm.trans hindex)
  refine ⟨rfl, hq, ?_⟩
  rw [hkq] at he hentry
  change s.metaRam (s.index .one) (s.missWay .one) = _ at he
  cases h2 : s.ends.fetch .two with
  | true =>
      refine absurd ?_ hentry
      have hundone := entry_of_undone h.snapshot h2 hie (missWay_ne h hq h2 hie)
      rw [h.snapshot.metaR] at hundone
      exact hundone.symm
  | false =>
      rw [entry_of_fetch h.snapshot hq fun _ hn => by rw [h2] at hn; cases hn] at he
      exact Prod.ext (congrArg Info.tag he).symm (hi.symm.trans hindex1)

end State

namespace Mirror

variable (m : Mirror) (a : Access)

abbrev cache : State := m.sys.cache

/-- A clock edge. With the access of a pair the next one is accepted. -/
def step : Mirror where
  sys := m.sys.step a
  pair := if m.cache.en then a.dreq else m.pair
  flat := if m.cache.en then applied (m.pair .two) (applied (m.pair .one) m.flat) else m.flat
  asked := m.cache.dcreq.valid

def reset (mem : BitVec 30 → Word) : Mirror := { sys := System.reset mem, flat := mem }

/-- The word of the flat memory for a request of the pair. -/
def expected : Port → Word
  | .one => m.flat (wordAddr (m.pair .one).addr)
  | .two => applied (m.pair .one) m.flat (wordAddr (m.pair .two).addr)

/-- With the access of a pair its loads are answered, each with the word of the flat memory. -/
def LoadsSeeFlat : Prop :=
  m.cache.en = true → ∀ p, (m.pair p).valid = true → (m.pair p).strobe = 0#4 →
    (m.step a).cache.dataOk = true ∧ (m.step a).cache.respData p = m.expected p

/-- No line and no store is lost: the refill of the younger request in the set of the older one's
restores no valid entry and follows no store, every store leaves its mark, and no beat of a
write-back is taken in the first cycle of its request. -/
structure Spared : Prop where
  undone : m.cache.fsm.state = .fetch .two → m.cache.misses .one = true →
    m.cache.indexEqual = true →
    ((m.cache.cacheHandle.side .one).metaR (m.cache.replaceLineReg .one)).valid = false ∧
      (m.cache.req .one).strobe = 0#4
  marks : m.cache.en = true → m.cache.Marks
  late : m.cache.fsm.state.writesBack = true → m.asked = false → (m.sys.resp a).ready = false

/-- The line that a write-back sends. -/
def victimLine (p : Port) : Tag × Index :=
  (((m.cache.cacheHandle.side p).metaR (m.cache.processReplaceLine p)).tag, m.cache.index p)

/-- The cache and the memory behind it are the flat memory. -/
structure Transparent : Prop where
  clean : m.sys.Clean
  cached : ∀ p, (m.cache.cacheHandle.side p).isUncached = false
  pair : m.pair = m.cache.req
  unaliased : ∀ w, m.sys.aliased w = false
  /-- The buffer of a write-back is filled ahead of the bus. -/
  watched : ∃ w : Watch, w.Watched ∧ w.cache = m.cache ∧ w.service.beat = m.sys.bus.beat ∧
    w.asked = m.asked
  named : ∀ k l, m.cache.names k = some l → lineWords m.sys.held l = lineWords m.flat l
  backed : Backed m.cache.names (lineWords m.sys.bus.mem) (lineWords m.flat)
  sent : ∀ p, m.cache.fsm.state = .writeback p → ∀ o < m.sys.bus.beat,
    lineWords m.sys.bus.mem (m.victimLine p) o = lineWords m.flat (m.victimLine p) o
  refilled : ∀ p, m.cache.ends.fetch p = true → m.cache.fsm.state ≠ .fetch p →
    m.cache.words (m.cache.missSlot p) = lineWords m.flat (m.cache.lineOf p) ∧
      lineWords m.sys.bus.mem (m.cache.lineOf p) = lineWords m.flat (m.cache.lineOf p)
  undone : m.cache.ends.fetch .one = true → m.cache.ends.fetch .two = true →
    m.cache.indexEqual = true → (m.cache.req .one).strobe = 0#4

variable {m a}

theorem tracked (hp : a.Plain) (hs : m.Spared a) : m.sys.Tracked a where
  orderly :=
    { lanes := hp.lanes
      silent := fun p hv _ => hp.silent p hv
      kept := fun hf hm hi => (hs.undone hf hm hi).1 }
  marks := hs.marks

/-- The bus shows the record of the write-back what it shows the cache. -/
def offer (m : Mirror) (a : Access) : Offer :=
  ⟨a.dreq, a.isUncached, .unknown, 0#32, a.beat.ready, (m.sys.resp a).data⟩

theorem resp_offer {w : Watch} (hc : w.cache = m.cache)
    (hb : w.service.beat = m.sys.bus.beat) : w.service.resp (m.offer a) = m.sys.resp a := by
  have hc' : w.service.cache = m.sys.cache := hc
  rw [Service.resp, hc', hb]
  rfl

theorem cache_offer {w : Watch} (hc : w.cache = m.cache)
    (hb : w.service.beat = m.sys.bus.beat) : (w.step (m.offer a)).cache = (m.step a).cache := by
  change w.cache.next ⟨a.dreq, a.isUncached, w.service.resp (m.offer a), .unknown, 0#32⟩ = _
  rw [resp_offer hc hb, hc]
  rfl

theorem careful_offer {w : Watch} (h : m.Transparent) (hs : m.Spared a) (hc : w.cache = m.cache)
    (hb : w.service.beat = m.sys.bus.beat) (hk : w.asked = m.asked) : w.Careful (m.offer a) where
  late hw hn := by
    rw [resp_offer hc hb]
    exact hs.late (hc ▸ hw) (hk ▸ hn)
  alone he ho := by
    rw [hc] at he ho
    rcases (h.clean.agreed.sound.phase.accepts he).oper with hn | hn <;>
      change m.cache.cacheHandle.cacheOper = _ at hn <;> rw [hn] at ho <;>
      rcases ho with ho | ho <;> cases ho

theorem watched_step (h : m.Transparent) (hs : m.Spared a) :
    ∃ w : Watch, w.Watched ∧ w.cache = (m.step a).cache ∧
      w.service.beat = (m.step a).sys.bus.beat ∧ w.asked = (m.step a).asked := by
  obtain ⟨w, hw, hc, hb, hk⟩ := h.watched
  refine ⟨w.step (m.offer a), hw.step (careful_offer h hs hc hb hk), cache_offer hc hb, ?_, ?_⟩
  · change (w.service.step (m.offer a)).beat = (m.sys.step a).bus.beat
    rw [Service.beat_step, System.beat_step, resp_offer hc hb, hb]
  · change w.cache.dcreq.valid = _
    rw [hc]
    rfl

/-- No request goes past the cache. -/
theorem not_uncache (h : m.Transparent) (p : Port) : m.cache.fsm.state ≠ .uncache p := by
  intro hs
  have hb : m.cache.bypasses p = true := by
    cases h.clean.agreed.sound.phase with
    | uncache q _ hq hu _ =>
        rw [hs] at hq
        cases hq
        exact hu
    | ready _ hi _ _ _ => rw [hs] at hi; cases hi
    | finished _ hi _ _ _ _ => rw [hs] at hi; cases hi
    | think _ hi _ _ => rw [hs] at hi; cases hi
    | writeback _ _ hw _ _ _ => rw [hs] at hw; cases hw
    | fetch _ _ hf _ _ => rw [hs] at hf; cases hf
  rw [State.bypasses, h.cached p, Bool.and_false] at hb
  cases hb

/-! ### The memory behind the cache -/

/-- A beat of a write-back that is taken carries the word of the flat memory. -/
theorem data_of_beat (h : m.Transparent) (hs : m.Spared a) {p : Port}
    (hw : m.cache.fsm.state = .writeback p) (hr : (m.sys.resp a).ready = true) :
    m.cache.dcreq.data = lineWords m.flat (m.victimLine p) m.sys.bus.beat := by
  obtain ⟨w, hwatch, hc, hb, hk⟩ := h.watched
  have hback : w.cache.fsm.state.writesBack = true := by
    rw [hc, hw]
    rfl
  have hdata := hwatch.data_of_beat hback (careful_offer h hs hc hb hk)
    (by rw [resp_offer hc hb, hr])
  rw [← hwatch.slot_eq_victim hback, ← hwatch.ram_of_victim hback, hb, hc] at hdata
  obtain ⟨hvictim, -⟩ := State.names_victim h.clean.agreed.sound hw (h.clean.evicts p hw)
  have hslot : m.cache.fsm.missAddr.slot = m.cache.missSlot p :=
    h.clean.agreed.sound.snapshot.missAddr p (Or.inr hw)
  rw [hdata, hslot]
  exact (h.clean.agreed.copies _ _ hvictim _).trans (congrFun (h.named _ _ hvictim) _)

theorem mem_step_of_writeback (h : m.Transparent) (hs : m.Spared a) {p : Port}
    (hw : m.cache.fsm.state = .writeback p) (l : Tag × Index) (o : Offset) :
    lineWords (m.step a).sys.bus.mem l o =
      if (m.sys.resp a).ready = true ∧ l = m.victimLine p ∧ o = m.sys.bus.beat then
        lineWords m.flat l o
      else lineWords m.sys.bus.mem l o := by
  obtain ⟨-, hwrite, -, hstrobe, -, -⟩ := System.dcreq_writeback hw
  have hmask : getMask 15#4 = BitVec.allOnes 32 := by decide
  have hword : m.sys.bus.word m.cache.dcreq =
      (m.victimLine p).1 ++ (m.victimLine p).2 ++ m.sys.bus.beat := System.word_writeback hw
  change lineWords (m.sys.step a).bus.mem l o = _
  rw [System.mem_step, hwrite, Bool.and_true, hstrobe, hmask, Lanes.maskedWrite_allOnes, hword]
  cases hr : (m.sys.resp a).ready with
  | false => rw [if_neg Bool.false_ne_true, if_neg fun hn => Bool.false_ne_true hn.1]
  | true =>
      rw [if_pos rfl, lineWords_update]
      by_cases hl : l = m.victimLine p ∧ o = m.sys.bus.beat
      · rw [if_pos hl, if_pos ⟨rfl, hl⟩, hl.1, hl.2]
        exact data_of_beat h hs hw hr
      · rw [if_neg hl, if_neg fun hn => hl hn.2]

/-- Memory is written only with the words of the flat memory. -/
theorem mem_step_of_waiting (h : m.Transparent) (hs : m.Spared a) (hb : m.cache.Busy)
    (hf : ∀ p, m.cache.fsm.state ≠ .fetch p) (l : Tag × Index) (o : Offset) :
    lineWords (m.step a).sys.bus.mem l o = lineWords m.sys.bus.mem l o ∨
      lineWords (m.step a).sys.bus.mem l o = lineWords m.flat l o := by
  cases h.clean.agreed.sound.phase with
  | ready en _ _ _ _ => rw [hb.en] at en; cases en
  | finished en _ _ _ _ _ => rw [hb.en] at en; cases en
  | fetch p _ hp _ _ => exact absurd hp (hf p)
  | think _ hi _ _ =>
      left
      change lineWords (m.sys.step a).bus.mem l o = _
      rw [System.bus_step_of_quiet (State.dcreq_valid_of_idle hi)]
  | writeback p _ hw _ _ _ =>
      rw [mem_step_of_writeback h hs hw]
      split
      · exact Or.inr rfl
      · exact Or.inl rfl
  | uncache p _ hu _ _ => exact absurd hu (not_uncache h p)

/-! ### The edge of an access -/

theorem storedBy_eq (h : m.Transparent) (p : Port) (mem : BitVec 30 → Word) :
    m.cache.storedBy p mem = applied (m.pair p) mem := by
  rw [State.storedBy, State.performs, h.cached p, Bool.not_false, Bool.and_true, h.pair]
  rfl

section Access

variable (h : m.Transparent) (he : m.cache.en = true)
include h he

theorem flat_step_of_access :
    (m.step a).flat = m.cache.storedBy .two (m.cache.storedBy .one m.flat) := by
  rw [storedBy_eq h, storedBy_eq h]
  exact if_pos he

/-- A store finds its line in a slot. -/
theorem names_of_store {p : Port} (hp : m.cache.performs p = true)
    (hst : (m.cache.req p).strobe ≠ 0#4) :
    m.cache.names (m.cache.accessAddr p).slot = some (m.cache.lineOf p) := by
  have hsound := h.clean.agreed.sound
  have hi := (hsound.phase.accepts he).idle
  have hvalid : (m.cache.req p).valid = true := by
    simp only [State.performs, Bool.and_eq_true] at hp
    exact hp.1
  cases hh : (m.cache.cacheHandle.side p).hit with
  | true =>
      rw [State.accessAddr_of_hit hh]
      exact State.names_hitSlot hsound.snapshot hi hh
  | false =>
      rw [State.accessAddr_of_miss hh]
      cases hm : m.cache.misses p with
      | true =>
          have hf := ((hsound.phase.served_of_miss he hvalid hh).2 p).fetch hm
          rw [← State.missWay_of_idle hi hf]
          refine State.names_missSlot hsound.snapshot hi hf fun hone h2 => ?_
          -- behind a store the older refill is not undone
          subst hone
          rw [Bool.eq_false_iff]
          exact fun hie => hst (h.undone hf h2 hie)
      | false =>
          obtain ⟨rfl, hsl⟩ := State.sameLine_of_performs hp hh hm
          obtain ⟨hf, htwin⟩ := State.twin_slot hsound he hp hsl hh
          have hline := State.line_of_sameLine hsl
          have hindex : m.cache.index .one = m.cache.index .two := congrArg Prod.snd hline
          rw [htwin, ← State.missWay_of_idle hi hf, ← hline, ← hindex]
          refine State.names_missSlot hsound.snapshot hi hf fun _ h2 => ?_
          have hmiss := hsound.snapshot.fetched .two h2
          rw [State.misses, hsl] at hmiss
          simp at hmiss

theorem backed_step_of_access :
    Backed (m.step a).cache.names (lineWords (m.step a).sys.bus.mem)
      (lineWords (m.step a).flat) := by
  have hi := (h.clean.agreed.sound.phase.accepts he).idle
  have hbus : (m.step a).sys.bus = m.sys.bus :=
    System.bus_step_of_quiet (State.dcreq_valid_of_idle hi)
  have hnames : (m.step a).cache.names = m.cache.names :=
    System.names_step_of_access h.clean.agreed he
  rw [hbus, hnames, flat_step_of_access h he]
  refine h.backed.store fun l hl => ?_
  have hport (p : Port) (ref : BitVec 30 → Word) :
      lineWords (m.cache.storedBy p ref) l = lineWords ref l := by
    refine State.lineWords_storedBy_of_ne fun hp hst => ?_
    rintro rfl
    exact hl _ (names_of_store h he hp hst)
  rw [hport, hport]

theorem Transparent.step_access (hp : a.Plain) (hs : m.Spared a) : (m.step a).Transparent := by
  have ha := h.clean.agreed.sound.phase.accepts he
  have hstate : (m.step a).cache.fsm.state = .idle := by
    change (m.sys.step a).cache.fsm.state = _
    rw [System.fsm_of_accept he, ha.idle]
  have hhandle : (m.step a).cache.cacheHandle = m.cache.handleNext (m.sys.input a) :=
    ha.cacheHandle
  have hends (p : Port) : (m.step a).cache.ends.fetch p = false := (ha.untouched p).fetch
  refine
    { clean := h.clean.step (tracked hp hs)
      cached := fun p => by rw [hhandle]; exact hp.cached p
      pair := ?_
      unaliased := fun w => ?_
      watched := watched_step h hs
      named := fun k l hk => ?_
      backed := backed_step_of_access h he
      sent := fun p hw => by rw [hstate] at hw; cases hw
      refilled := fun p hf => by rw [hends] at hf; cases hf
      undone := fun hf => by rw [hends] at hf; cases hf }
  · funext p
    rw [State.req, hhandle, step, if_pos he]
    rfl
  · change m.sys.aliasedNext a w = false
    rw [System.aliasedNext, ha.idle]
    exact h.unaliased w
  · have hnames : (m.step a).cache.names = m.cache.names :=
      System.names_step_of_access h.clean.agreed he
    rw [hnames] at hk
    change lineWords (m.sys.heldNext a) l = _
    rw [System.heldNext_of_access h.clean.agreed he, flat_step_of_access h he]
    exact State.lineWords_storedBy_congr (State.lineWords_storedBy_congr (h.named k l hk))

end Access

/-! ### The edges of a service -/

theorem flat_of_waits (hen : m.cache.en = false) : (m.step a).flat = m.flat :=
  if_neg (by rw [hen]; exact Bool.false_ne_true)

theorem Transparent.cached_of_waits (h : m.Transparent) (hen : m.cache.en = false) (p : Port) :
    ((m.step a).cache.cacheHandle.side p).isUncached = false := by
  have hhandle : (m.step a).cache.cacheHandle = m.cache.cacheHandle := State.next_cacheHandle hen
  rw [hhandle]
  exact h.cached p

theorem Transparent.pair_of_waits (h : m.Transparent) (hen : m.cache.en = false) :
    (m.step a).pair = (m.step a).cache.req := by
  have hpair : (m.step a).pair = m.pair := if_neg (by rw [hen]; exact Bool.false_ne_true)
  rw [hpair, h.pair]
  funext p
  exact (State.req_congr (State.next_cacheHandle hen) p).symm

section Waiting

variable (h : m.Transparent) (hb : m.cache.Busy) (hf : ∀ p, m.cache.fsm.state ≠ .fetch p)
include h hb hf

/-- A refill begins in the slot of its miss. -/
theorem missAddr_of_refill {p : Port} (hs' : (m.step a).cache.fsm.state = .fetch p) :
    (m.step a).cache.fsm.missAddr.slot = m.cache.missSlot p := by
  have hsound := h.clean.agreed.sound
  have hnext := System.sound_step (a := a) hsound
  have hh := State.next_cacheHandle (i := m.sys.input a) hb.en
  have hm : m.cache.misses p = true :=
    (State.misses_congr hh p).symm.trans (hnext.phase.misses_of_fetch hs').1
  have hway : (m.step a).cache.missWay p = m.cache.missWay p :=
    State.missWay_next hsound.phase hb System.polite_input hm fun _ ho => absurd ho (hf _)
  have hindex : (m.step a).cache.index p = m.cache.index p := State.index_congr hh p
  rw [State.missSlot, ← hway, ← hindex]
  exact hnext.snapshot.missAddr p (Or.inl hs')

variable (hs : m.Spared a)
include hs

/-- A line that is in memory stays there. -/
theorem lineWords_step_of_waiting {l : Tag × Index}
    (hl : lineWords m.sys.bus.mem l = lineWords m.flat l) :
    lineWords (m.step a).sys.bus.mem l = lineWords m.flat l := by
  funext o
  rcases mem_step_of_waiting h hs hb hf l o with hw | hw
  · rw [hw, hl]
  · exact hw

/-- The victim of a refill is in memory when its slot loses the name. -/
theorem lineWords_of_victim {p : Port} {l : Tag × Index}
    (hs' : (m.step a).cache.fsm.state = .fetch p)
    (hk : m.cache.names (m.cache.missSlot p) = some l) :
    lineWords (m.step a).sys.bus.mem l = lineWords m.flat l := by
  have hsound := h.clean.agreed.sound
  cases hsound.phase with
  | ready en _ _ _ _ => rw [hb.en] at en; cases en
  | finished en _ _ _ _ _ => rw [hb.en] at en; cases en
  | fetch q _ hq _ _ => exact absurd hq (hf q)
  | uncache q _ hu _ _ => exact absurd hu (not_uncache h q)
  | think _ hi _ _ =>
      -- it has not been written since it was fetched
      refine lineWords_step_of_waiting h hb hf hs ?_
      funext o
      rw [h.clean.synced_victim hi hs' hk o (h.unaliased _), h.named _ _ hk]
  | writeback q _ hw _ _ _ =>
      -- its last word goes to memory in this cycle
      have hq : q = p ∧ (m.sys.resp a).last = true := by
        have hnext : (m.step a).cache.fsm.state = _ := hb.writeback_next hw System.polite_input
        rw [hs'] at hnext
        split at hnext
        · rename_i hl
          cases hnext
          exact ⟨rfl, hl⟩
        · cases hnext
      obtain ⟨rfl, hl⟩ := hq
      have hvictim := (State.names_victim hsound hw (h.clean.evicts q hw)).1
      have hline : l = m.victimLine q := Option.some_inj.mp (hk.symm.trans hvictim)
      funext o
      rw [mem_step_of_writeback h hs hw]
      split
      · rfl
      · rename_i hn
        have hlen := (System.dcreq_writeback hw).2.2.1
        rcases System.arrived_of_last hlen hl o with ho | ⟨hr, ho⟩
        · rw [hline]
          exact h.sent q hw o ho
        · exact absurd ⟨hr, hline, ho⟩ hn

theorem backed_step_of_waiting :
    Backed (m.step a).cache.names (lineWords (m.step a).sys.bus.mem) (lineWords m.flat) := by
  refine (h.backed.write (mem_step_of_waiting h hs hb hf)).unname fun k l hk hl => ?_
  have hmeta : (m.step a).cache.metaRam = m.cache.metaRam :=
    State.metaRam_same (Or.inl hb.oper) hf h.clean.agreed.sound.phase.not_store
  obtain ⟨-, he, hi⟩ := State.names_eq_some_iff.mp hk
  -- the slot is filled from now on
  have hfill : (m.step a).cache.filling k = true := by
    by_contra hn
    exact hl k (State.names_eq_some_iff.mpr ⟨by simpa using hn, hmeta ▸ he, hi⟩)
  rw [State.filling] at hfill
  split at hfill
  · rename_i p hs'
    rw [beq_iff_eq.mp hfill, missAddr_of_refill h hb hf hs'] at hk
    exact lineWords_of_victim h hb hf hs hs' hk
  · cases hfill

omit hs in
/-- A write-back sends one line. -/
theorem victimLine_step {p : Port} (hw : m.cache.fsm.state = .writeback p)
    (hs' : (m.step a).cache.fsm.state = .writeback p) :
    (m.step a).victimLine p = m.victimLine p := by
  have hsound := h.clean.agreed.sound
  have hnext := System.sound_step (a := a) hsound
  have hh := State.next_cacheHandle (i := m.sys.input a) hb.en
  obtain ⟨hm, -, -, hfe⟩ := hsound.phase.misses_of_writeback hw
  obtain ⟨-, -, -, hfe'⟩ := hnext.phase.misses_of_writeback hs'
  have hway : (m.step a).cache.missWay p = m.cache.missWay p :=
    State.missWay_next hsound.phase hb System.polite_input hm fun _ ho => absurd ho (hf _)
  have hline : (m.step a).cache.processReplaceLine p = m.cache.processReplaceLine p :=
    (State.missWay_eq (Or.inl hfe')).symm.trans (hway.trans (State.missWay_eq (Or.inl hfe)))
  have hindex : (m.step a).cache.index p = m.cache.index p := State.index_congr hh p
  have hhandle : (m.step a).cache.cacheHandle = m.cache.cacheHandle := hh
  rw [victimLine, victimLine, hline, hindex, hhandle]

theorem sent_step_of_waiting {p : Port} (hs' : (m.step a).cache.fsm.state = .writeback p)
    {o : Offset} (ho : o < (m.step a).sys.bus.beat) :
    lineWords (m.step a).sys.bus.mem ((m.step a).victimLine p) o =
      lineWords m.flat ((m.step a).victimLine p) o := by
  have hsound := h.clean.agreed.sound
  cases hsound.phase with
  | ready en _ _ _ _ => rw [hb.en] at en; cases en
  | finished en _ _ _ _ _ => rw [hb.en] at en; cases en
  | fetch q _ hq _ _ => exact absurd hq (hf q)
  | uncache q _ hu _ _ => exact absurd hu (not_uncache h q)
  | think _ hi _ _ =>
      have hbus : (m.step a).sys.bus = m.sys.bus :=
        System.bus_step_of_quiet (State.dcreq_valid_of_idle hi)
      have hzero := h.clean.agreed.paced.single hf (by rw [hi]; simp)
      rw [hbus, hzero] at ho
      exact absurd ho (by simp)
  | writeback q _ hw _ _ _ =>
      have hq : q = p ∧ (m.sys.resp a).last = false := by
        have hnext : (m.step a).cache.fsm.state = _ := hb.writeback_next hw System.polite_input
        rw [hs'] at hnext
        split at hnext
        · cases hnext
        · rename_i hl
          cases hnext
          exact ⟨rfl, Bool.eq_false_iff.mpr hl⟩
      obtain ⟨rfl, hl⟩ := hq
      rw [victimLine_step h hb hf hw hs', mem_step_of_writeback h hs hw]
      split
      · rfl
      · rename_i hn
        have hlen := (System.dcreq_writeback hw).2.2.1
        rcases System.arrived_of_lt hlen hl ho with ho | ⟨hr, ho⟩
        · exact h.sent q hw o ho
        · exact absurd ⟨hr, rfl, ho⟩ hn

theorem Transparent.step_waiting (hp : a.Plain) : (m.step a).Transparent := by
  have hsound := h.clean.agreed.sound
  have hh := State.next_cacheHandle (i := m.sys.input a) hb.en
  have hflat : (m.step a).flat = m.flat := flat_of_waits hb.en
  have hends (p : Port) : (m.step a).cache.ends.fetch p = m.cache.ends.fetch p := by
    change (m.cache.next (m.sys.input a)).ends.fetch p = _
    rw [hb.ends_fetch, beq_eq_false_iff_ne.mpr (hf p), Bool.false_or]
  refine
    { clean := h.clean.step (tracked hp hs)
      cached := h.cached_of_waits hb.en
      pair := h.pair_of_waits hb.en
      unaliased := fun w => ?_
      watched := watched_step h hs
      named := fun k l hk => ?_
      backed := hflat ▸ backed_step_of_waiting h hb hf hs
      sent := fun p hs' o ho => hflat ▸ sent_step_of_waiting h hb hf hs hs' ho
      refilled := fun p hfe _ => ?_
      undone := fun hf1 hf2 hie => ?_ }
  · change m.sys.aliasedNext a w = false
    rw [System.aliasedNext]
    cases hst : m.sys.cache.fsm.state with
    | fetch p => exact absurd hst (hf p)
    | uncache p => exact absurd hst (not_uncache h p)
    | _ => exact h.unaliased w
  · change lineWords (m.sys.heldNext a) l = _
    rw [System.heldNext_of_waiting hb hf, hflat]
    exact h.named k l (System.names_step_of_waiting h.clean.agreed hb hf hk)
  · rw [hends] at hfe
    obtain ⟨hwords, hmem⟩ := h.refilled p hfe (hf p)
    have hslot : (m.step a).cache.missSlot p = m.cache.missSlot p :=
      State.missSlot_next hsound hb System.polite_input (Or.inr hfe)
    have hline : (m.step a).cache.lineOf p = m.cache.lineOf p := State.lineOf_congr hh p
    have hram : (m.step a).cache.words = m.cache.words :=
      System.words_step_of_waiting h.clean.agreed hb hf
    rw [hslot, hline, hram, hflat]
    exact ⟨hwords, lineWords_step_of_waiting h hb hf hs hmem⟩
  · rw [hends] at hf1 hf2
    have hie' : m.cache.indexEqual = true := (State.indexEqual_congr hh).symm.trans hie
    have hreq : (m.step a).cache.req .one = m.cache.req .one := State.req_congr hh .one
    rw [hreq]
    exact h.undone hf1 hf2 hie'

end Waiting

section Refill

variable {p : Port} (h : m.Transparent) (hf : m.cache.fsm.state = .fetch p)
include h hf

omit h in
theorem mem_step_of_refill : (m.step a).sys.bus.mem = m.sys.bus.mem :=
  System.mem_step_of_read (System.dcreq_fetch hf).2.1

/-- The line that is fetched is in memory. -/
theorem lineWords_of_fetched :
    lineWords m.sys.bus.mem (m.cache.lineOf p) = lineWords m.flat (m.cache.lineOf p) :=
  h.backed _ (State.names_ne_fetched h.clean.agreed.sound hf)

/-- What has arrived is what the line is. -/
theorem lineWords_of_arrived (hl : (m.sys.resp a).last = true) :
    lineWords (m.sys.heldNext a) (m.cache.lineOf p) = lineWords m.flat (m.cache.lineOf p) := by
  rw [← lineWords_of_fetched h hf]
  funext o
  exact (System.fresh_of_refill h.clean hf
    (System.arrived_of_last (System.dcreq_fetch hf).2.2.1 hl o)).symm

theorem missAddr_step_of_refill :
    (m.step a).cache.fsm.missAddr.slot = m.cache.fsm.missAddr.slot := by
  obtain ⟨-, -, hb⟩ := h.clean.agreed.sound.phase.misses_of_fetch hf
  change (m.cache.next (m.sys.input a)).fsm.missAddr.slot = _
  rw [hb.fsm_fetch hf, State.fsmFetch]
  split <;> rfl

/-- No other slot is being filled. -/
theorem filling_step_of_refill {k : Slot} (hk : k ≠ m.cache.fsm.missAddr.slot) :
    (m.step a).cache.filling k = false := by
  obtain ⟨-, -, hb⟩ := h.clean.agreed.sound.phase.misses_of_fetch hf
  cases hl : (m.sys.resp a).last with
  | true =>
      have hs' : (m.step a).cache.fsm.state = .idle := hb.fetch_last hf hl System.polite_input
      exact State.filling_of_ne (by rw [hs']; simp)
  | false =>
      have hs' : (m.step a).cache.fsm.state = .fetch p := hb.fetch_more hf hl
      rw [State.filling_of_fetch hs', missAddr_step_of_refill h hf, beq_eq_false_iff_ne]
      exact hk

theorem backed_step_of_refill :
    Backed (m.step a).cache.names (lineWords (m.step a).sys.bus.mem) (lineWords m.flat) := by
  rw [mem_step_of_refill hf]
  refine h.backed.unname fun k l hk hl => ?_
  have hsound := h.clean.agreed.sound
  have hslot : k ≠ m.cache.fsm.missAddr.slot := by
    have hfill := (State.names_eq_some_iff.mp hk).1
    rwa [State.filling_of_fetch hf, beq_eq_false_iff_ne] at hfill
  obtain ⟨rfl, hone, rfl⟩ := State.unnamed_of_fetch (i := m.sys.input a) hsound hf hk fun he =>
    hl k (State.names_eq_some_iff.mpr ⟨filling_step_of_refill h hf hslot, he,
      (State.names_eq_some_iff.mp hk).2.2⟩)
  exact (h.refilled .one hone (by rw [hf]; simp)).2

variable (hp : a.Plain) (hs : m.Spared a)
include hp hs

theorem named_step_of_refill {k : Slot} {l : Tag × Index}
    (hk : (m.step a).cache.names k = some l) :
    lineWords (m.sys.heldNext a) l = lineWords m.flat l := by
  by_cases hslot : k = m.cache.fsm.missAddr.slot
  · subst hslot
    obtain ⟨rfl, hl⟩ := System.name_of_refill h.clean hf hk
    exact lineWords_of_arrived h hf hl
  · have hnames :=
      System.names_step_of_refill h.clean.agreed hf (tracked hp hs).orderly hslot hk
    have hline : l ≠ m.cache.lineOf p := by
      rintro rfl
      exact State.names_ne_fetched h.clean.agreed.sound hf k hnames
    funext o
    rw [System.lineWords_step_of_refill hf, if_neg fun hn => hline hn.2.1, h.named k l hnames]

omit hp hs in
theorem refilled_step_of_refill {q : Port} (hfe : (m.step a).cache.ends.fetch q = true)
    (hs' : (m.step a).cache.fsm.state ≠ .fetch q) :
    (m.step a).cache.words (m.cache.missSlot q) = lineWords m.flat (m.cache.lineOf q) ∧
      lineWords m.sys.bus.mem (m.cache.lineOf q) = lineWords m.flat (m.cache.lineOf q) := by
  have hsound := h.clean.agreed.sound
  obtain ⟨hm, -, hb⟩ := hsound.phase.misses_of_fetch hf
  have hslot : m.cache.fsm.missAddr.slot = m.cache.missSlot p :=
    hsound.snapshot.missAddr p (Or.inl hf)
  by_cases hqp : q = p
  · subst hqp
    have hl : (m.sys.resp a).last = true := by
      by_contra hn
      exact hs' (hb.fetch_more hf (Bool.eq_false_iff.mpr hn))
    refine ⟨?_, lineWords_of_fetched h hf⟩
    rw [← lineWords_of_arrived h hf hl, ← hslot]
    funext o
    exact System.filled_of_refill h.clean.agreed hf hb
      (System.arrived_of_last (System.dcreq_fetch hf).2.2.1 hl o)
  · have hne : m.cache.fsm.state ≠ .fetch q := by
      rw [hf]
      exact fun hn => hqp (FsmState.fetch.inj hn).symm
    change (m.cache.next (m.sys.input a)).ends.fetch q = true at hfe
    rw [hb.ends_fetch, beq_eq_false_iff_ne.mpr hne, Bool.false_or] at hfe
    obtain ⟨hwords, hmem⟩ := h.refilled q hfe hne
    refine ⟨?_, hmem⟩
    have hpq : p = .two ∧ q = .one := by
      cases p <;> cases q
      · exact absurd rfl hqp
      · rw [hsound.phase.untouched_of_one hf] at hfe
        cases hfe
      · exact ⟨rfl, rfl⟩
      · exact absurd rfl hqp
    obtain ⟨rfl, rfl⟩ := hpq
    have hslots := State.missSlot_ne hsound hfe hne hm
    rw [← hwords]
    funext o
    exact (System.words_step_of_refill hf hb _ o).trans (if_neg fun hn => hslots (hn.1.trans hslot))

theorem Transparent.step_refill : (m.step a).Transparent := by
  have hsound := h.clean.agreed.sound
  obtain ⟨-, -, hb⟩ := hsound.phase.misses_of_fetch hf
  have hh := State.next_cacheHandle (i := m.sys.input a) hb.en
  have hflat : (m.step a).flat = m.flat := flat_of_waits hb.en
  have hs' : ∀ q, (m.step a).cache.fsm.state ≠ .writeback q := by
    intro q hw
    cases hl : (m.sys.resp a).last with
    | true =>
        have hi : (m.step a).cache.fsm.state = .idle := hb.fetch_last hf hl System.polite_input
        rw [hi] at hw
        cases hw
    | false =>
        have hi : (m.step a).cache.fsm.state = .fetch p := hb.fetch_more hf hl
        rw [hi] at hw
        cases hw
  refine
    { clean := h.clean.step (tracked hp hs)
      cached := h.cached_of_waits hb.en
      pair := h.pair_of_waits hb.en
      unaliased := fun w => ?_
      watched := watched_step h hs
      named := fun k l hk => hflat ▸ named_step_of_refill h hf hp hs hk
      backed := hflat ▸ backed_step_of_refill h hf
      sent := fun q hw => absurd hw (hs' q)
      refilled := fun q hfe hq => ?_
      undone := fun hf1 hf2 hie => ?_ }
  · change m.sys.aliasedNext a w = false
    rw [System.aliasedNext, hf]
    dsimp only
    split
    · rw [Function.update_apply, h.unaliased w, ite_self]
    · exact h.unaliased w
  · have hslot : (m.step a).cache.missSlot q = m.cache.missSlot q := by
      refine State.missSlot_next hsound hb System.polite_input ?_
      change (m.cache.next (m.sys.input a)).ends.fetch q = true at hfe
      rwa [hb.ends_fetch, Bool.or_eq_true, beq_iff_eq] at hfe
    have hline : (m.step a).cache.lineOf q = m.cache.lineOf q := State.lineOf_congr hh q
    rw [hslot, hline, hflat, mem_step_of_refill hf]
    exact refilled_step_of_refill h hf hfe hq
  · have hreq : (m.step a).cache.req .one = m.cache.req .one := State.req_congr hh .one
    have hie' : m.cache.indexEqual = true := (State.indexEqual_congr hh).symm.trans hie
    change (m.cache.next (m.sys.input a)).ends.fetch .one = true at hf1
    change (m.cache.next (m.sys.input a)).ends.fetch .two = true at hf2
    rw [hb.ends_fetch] at hf1 hf2
    rw [hreq]
    cases p with
    | one =>
        rw [hf, hsound.phase.untouched_of_one hf] at hf2
        cases hf2
    | two =>
        rw [hf] at hf1
        exact (hs.undone hf (hsound.snapshot.fetched .one hf1) hie').2

end Refill

theorem Transparent.step (h : m.Transparent) (hp : a.Plain) (hs : m.Spared a) :
    (m.step a).Transparent := by
  cases he : m.cache.en with
  | true => exact step_access h he hp hs
  | false =>
      have hb := h.clean.agreed.sound.phase.busy he
      by_cases hf : ∃ p, m.cache.fsm.state = .fetch p
      · obtain ⟨p, hf⟩ := hf
        exact step_refill h hf hp hs
      · exact step_waiting h hb (fun p hp => hf ⟨p, hp⟩) hs hp

theorem transparent_reset (mem : BitVec 30 → Word) : (reset mem).Transparent where
  clean := System.clean_reset mem
  cached _ := rfl
  pair := rfl
  unaliased _ := rfl
  watched := ⟨{}, Watch.watched_reset, rfl, rfl, rfl⟩
  named _ _ h := by cases h
  backed _ _ := rfl
  sent _ h := by cases h
  refilled _ h := by cases h
  undone h := by cases h

/-! ### The answers -/

section Answer

variable (h : m.Transparent) (he : m.cache.en = true)
include h he

/-- The word that a request accesses is the one of the flat memory. -/
theorem dataRam_of_access {p : Port} (hv : (m.pair p).valid = true) :
    m.cache.dataRam (m.cache.accessAddr p) = m.flat (wordAddr (m.pair p).addr) := by
  have hsound := h.clean.agreed.sound
  have hi := (hsound.phase.accepts he).idle
  rw [h.pair] at hv ⊢
  have hp : m.cache.performs p = true := by
    rw [State.performs, hv, h.cached p]
    rfl
  rw [State.wordAddr_req]
  cases hh : (m.cache.cacheHandle.side p).hit with
  | true =>
      rw [State.accessAddr_of_hit hh]
      have hk := State.names_hitSlot hsound.snapshot hi hh
      exact (h.clean.agreed.copies _ _ hk _).trans (congrFun (h.named _ _ hk) _)
  | false =>
      rw [State.accessAddr_of_miss hh]
      have hrefill (q : Port) (hf : m.cache.ends.fetch q = true) (o : Offset) :
          m.cache.dataRam ⟨⟨m.cache.replaceLineReg q, m.cache.index q⟩, o⟩ =
            lineWords m.flat (m.cache.lineOf q) o := by
        have hwords := (h.refilled q hf (by rw [hi]; simp)).1
        rw [State.missSlot, State.missWay_of_idle hi hf] at hwords
        exact congrFun hwords o
      cases hm : m.cache.misses p with
      | true => exact hrefill p (((hsound.phase.served_of_miss he hv hh).2 p).fetch hm) _
      | false =>
          obtain ⟨rfl, hsl⟩ := State.sameLine_of_performs hp hh hm
          obtain ⟨hf, htwin⟩ := State.twin_slot hsound he hp hsl hh
          have hline := State.line_of_sameLine hsl
          have hindex : m.cache.index .one = m.cache.index .two := congrArg Prod.snd hline
          rw [htwin, ← hline, ← hindex]
          exact hrefill .one hf _

omit he in
theorem addrSame_iff : m.cache.addrSame = true ↔
    wordAddr (m.pair .one).addr = wordAddr (m.pair .two).addr ∧
      (m.pair .one).valid = true ∧ (m.pair .two).valid = true := by
  rw [State.addrSame, h.cached .one, h.cached .two, h.pair]
  simp only [wordAddr, Bool.and_eq_true, beq_iff_eq, Bool.not_false, and_true]

/-- A load behind a store takes the stored bytes from it. -/
theorem ramAnswer_two (hv : (m.pair .two).valid = true) (hld : (m.pair .two).strobe = 0#4) :
    m.cache.ramAnswer .two = m.expected .two := by
  have hr : m.cache.wToR = (m.cache.addrSame && (m.pair .one).strobe != 0#4) := by
    rw [State.wToR, ← h.pair, hld, beq_self_eq_true, Bool.and_true]
  rw [expected, State.ramAnswer, applied]
  cases hw : m.cache.wToR with
  | true =>
      rw [hw, eq_comm, Bool.and_eq_true] at hr
      obtain ⟨hword, hv1, -⟩ := (addrSame_iff h).mp hr.1
      rw [if_pos rfl, if_pos hv1, storeWord, ← hword, Function.update_self,
        ← dataRam_of_access h he hv1, h.pair]
      exact (State.perform_eq_merge _ _).symm
  | false =>
      rw [if_neg Bool.false_ne_true, dataRam_of_access h he hv]
      split
      · rename_i hv1
        rw [storeWord, Function.update_apply]
        split
        · rename_i hword
          -- the older request is a load
          rw [hw, (addrSame_iff h).mpr ⟨hword.symm, hv1, hv⟩, Bool.true_and] at hr
          have hst : (m.pair .one).strobe = 0#4 := by simpa using hr.symm
          rw [hst, State.getMask_zero, Lanes.maskedWrite_zero, hword]
        · rfl
      · rfl

theorem respData_of_load {p : Port} (hv : (m.pair p).valid = true)
    (hld : (m.pair p).strobe = 0#4) : (m.step a).cache.respData p = m.expected p := by
  have hi := (h.clean.agreed.sound.phase.accepts he).idle
  have hresp : (m.step a).cache.respData p = m.cache.ramAnswer p :=
    Service.respData_of_cached hi (h.cached p)
  rw [hresp]
  cases p with
  | one => exact dataRam_of_access h he hv
  | two => exact ramAnswer_two h he hv hld

end Answer

/-- Transparency. In every run that spares its lines, each load of an accepted pair is answered
with the word of the flat memory to which all earlier stores have been applied. -/
theorem loads_see_flat (mem : BitVec 30 → Word) (as : List Access) (a : Access)
    (hp : ∀ x ∈ as, x.Plain) (hs : Along step Spared (reset mem) as) :
    (run step (reset mem) as).LoadsSeeFlat a := by
  have hrun : Along step (fun _ x => x.Plain) (reset mem) as := along_of_forall hp
  have ht : (run step (reset mem) as).Transparent :=
    (hrun.and hs).invariant (fun _ _ h hg => h.step hg.1 hg.2) (transparent_reset mem)
  exact fun he p hv hld => ⟨he, respData_of_load ht he hv hld⟩

instance (a : Access) : Decidable a.Plain :=
  decidable_of_iff
    ((CleanLanes (a.dreq .one) ∧ CleanLanes (a.dreq .two)) ∧
      (((a.dreq .one).valid = false → (a.dreq .one).strobe = 0#4) ∧
        ((a.dreq .two).valid = false → (a.dreq .two).strobe = 0#4)) ∧
      (a.isUncached .one = false ∧ a.isUncached .two = false))
    ⟨fun ⟨hl, hs, hc⟩ =>
        ⟨fun p => by cases p with
          | one => exact hl.1
          | two => exact hl.2,
        fun p => by cases p with
          | one => exact hs.1
          | two => exact hs.2,
        fun p => by cases p with
          | one => exact hc.1
          | two => exact hc.2⟩,
      fun h => ⟨⟨h.lanes .one, h.lanes .two⟩, ⟨h.silent .one, h.silent .two⟩,
        ⟨h.cached .one, h.cached .two⟩⟩⟩

instance (m : Mirror) (a : Access) : Decidable (m.Spared a) :=
  decidable_of_iff
    ((m.cache.fsm.state = .fetch .two → m.cache.misses .one = true →
        m.cache.indexEqual = true →
        ((m.cache.cacheHandle.side .one).metaR (m.cache.replaceLineReg .one)).valid = false ∧
          (m.cache.req .one).strobe = 0#4) ∧
      (m.cache.en = true → m.cache.Marks) ∧
      (m.cache.fsm.state.writesBack = true → m.asked = false → (m.sys.resp a).ready = false))
    ⟨fun ⟨hu, hm, hl⟩ => ⟨hu, hm, hl⟩, fun h => ⟨h.undone, h.marks, h.late⟩⟩

/-- A store fills a line, and a load follows it. -/
def storeLoadRun : List Access :=
  System.accessOf ⟨true, 0x40#32, .size4, 15#4, 0xabcd#32⟩ default ::
    List.replicate 17 (System.accessOf default default) ++
      [System.accessOf (System.loadOf 0x40#32) (System.loadOf 0x44#32)]

theorem loads_see_flat_store :
    (run step (reset fun w => w.setWidth 32) storeLoadRun).cache.en = true ∧
      (run step (reset fun w => w.setWidth 32) storeLoadRun).LoadsSeeFlat
        (System.accessOf default default) :=
  ⟨by decide +kernel,
    loads_see_flat (fun w => w.setWidth 32) storeLoadRun (System.accessOf default default)
      (by decide +kernel) (by decide +kernel)⟩

/-- A clock edge with the data RAM written out, so that a run can be evaluated. -/
theorem step_eq_stepEval :
    step = fun m a => { m.step a with sys := m.sys.stepEval a } := by
  funext m a
  rw [← System.step_eq_stepEval]
  rfl

/-- Two loads miss in a full set, and a load of the line that is in no way any more follows. -/
def staleRun : List Access :=
  System.conflictRun ++ [System.accessOf (System.loadOf 4#32) default]

/-- It hits, and is answered with a word of another line. -/
theorem not_loads_see_flat :
    ¬ ∀ (mem : BitVec 30 → Word) (as : List Access) (a : Access),
      (∀ x ∈ as, x.Plain) → (run step (reset mem) as).LoadsSeeFlat a := by
  intro h
  have hload := (h (fun w => w.setWidth 32) staleRun (System.accessOf default default)
    (by decide +kernel) (by decide +kernel) .one (by decide +kernel) (by decide +kernel)).2
  rw [step_eq_stepEval] at hload
  exact absurd hload (by decide +kernel)

end Mirror

end FrailCPU.DCache
