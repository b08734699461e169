import FrailCPU.DCache.Tags
import FrailCPU.Library.Machine

/-!
# The bus transactions of a pair

What a pair needs from the bus is known when it is accepted: a single access for an uncached
request, and for a miss the write-back of the victim, if it is dirty, and the refill. The
machine presents these transactions one after the other and nothing else, and takes the next
pair when the last of them is over.
-/

namespace FrailCPU.DCache

open ClockedMachine
open State (lineAddr)

/-- A transaction on the cache bus. The data is that of a single beat. -/
structure Transaction where
  isWrite : Bool
  addr : Word
  size : MSize
  strobe : Strobe
  len : MLen
  data : Word
  deriving DecidableEq

def Transaction.of (r : CBusReq) : Transaction where
  isWrite := r.isWrite
  addr := r.addr
  size := r.size
  strobe := r.strobe
  len := r.len
  data := if r.len = mlen1 then r.data else 0#32

def singleAccess (r : DBusReq) : Transaction :=
  ⟨r.strobe != 0#4, r.addr, r.size, r.strobe, mlen1, r.data⟩

def lineRead (t : Tag) (k : Index) : Transaction :=
  ⟨false, lineAddr t k, .size4, 0#4, mlen16, 0#32⟩

def lineWrite (t : Tag) (k : Index) : Transaction :=
  ⟨true, lineAddr t k, .size4, 15#4, mlen16, 0#32⟩

namespace State

variable (s : State) (i : Input)

/-- A miss that replaces the way `w`. -/
def missNeeds (p : Port) (w : Way) : List Transaction :=
  let entry := (s.cacheHandle.side p).metaR w
  (if s.cacheDirty ⟨w, s.index p⟩ && entry.valid then [lineWrite entry.tag (s.index p)] else []) ++
    [lineRead (tagOf (s.req p).addr) (s.index p)]

def portNeeds (p : Port) (w : Way) : List Transaction :=
  if s.bypasses p then [singleAccess (s.req p)]
  else if s.misses p then s.missNeeds p w
  else []

/-- The way that a miss of the pair replaces, in the cycle after its acceptance. When both
requests miss in one set the younger one is left with the other way. -/
def victimWay : Port → Way
  | .one => s.processReplaceLine .one
  | .two =>
    if s.indexEqual && s.misses .one then !s.processReplaceLine .one
    else s.processReplaceLine .two

/-- The transactions of the pair, in the cycle after its acceptance. -/
def needs : List Transaction :=
  s.portNeeds .one (s.victimWay .one) ++ s.portNeeds .two (s.victimWay .two)

/-- The bus answers what is presented. -/
def Answers : Prop :=
  Polite i ∧ (i.dcresp.ready = true → s.dcreq.valid = true)

end State

/-- The cache with the transactions that are over since the pair was accepted, and all that
the pair needs. -/
structure Traced where
  cache : State := {}
  log : List Transaction := []
  needs : List Transaction := []

/-- A clock edge. -/
def Traced.step (t : Traced) (i : Input) : Traced where
  cache := t.cache.next i
  log :=
    if t.cache.en then []
    else if i.dcresp.last then t.log ++ [.of t.cache.dcreq]
    else t.log
  needs := if t.cache.en then (t.cache.next i).needs else t.needs

namespace State

variable {s : State} {i : Input} {before : Index → Meta}

/-! ### The way of a miss -/

/-- The way of a miss, told in every phase of the service. -/
def turnWay (s : State) : Port → Way
  | .one => s.missWay .one
  | .two => if s.indexEqual && s.misses .one then !s.missWay .one else s.missWay .two

theorem indexEqual_congr {t : State} (h : t.cacheHandle = s.cacheHandle) :
    t.indexEqual = s.indexEqual := by
  rw [indexEqual, indexEqual, index_congr h, index_congr h]

theorem req_congr {t : State} (h : t.cacheHandle = s.cacheHandle) (p : Port) :
    t.req p = s.req p := by
  rw [req, req, h]

theorem Phase.turn_of_fetch {p : Port} (h : s.Phase) (hs : s.fsm.state = .fetch p) : s.Turn p :=
  (h.misses_of_fetch hs).2.1

theorem turnWay_next {p : Port} (h : s.Sound before) (hb : s.Busy) (hpol : Polite i)
    (hm : s.misses p = true) : (s.next i).turnWay p = s.turnWay p := by
  have hh := next_cacheHandle (i := i) hb.en
  have hone (h1 : s.misses .one = true) : (s.next i).missWay .one = s.missWay .one := by
    refine missWay_next h.phase hb hpol h1 fun he hs _ => ?_
    have hserved : s.Served .one := h.phase.turn_of_fetch hs
    rw [hserved.fetch h1] at he
    cases he
  cases p with
  | one => exact hone hm
  | two =>
      rw [turnWay, turnWay, indexEqual_congr hh, misses_congr hh]
      cases hx : s.indexEqual && s.misses .one with
      | true =>
          rw [Bool.and_eq_true] at hx
          rw [if_pos rfl, if_pos rfl, hone hx.2]
      | false =>
          rw [if_neg Bool.false_ne_true, if_neg Bool.false_ne_true]
          refine missWay_next h.phase hb hpol hm fun _ hs _ hk => ?_
          have hie : s.indexEqual = true := beq_iff_eq.mpr hk
          have hm1 : s.misses .one = true := (h.phase.misses_of_fetch hs).1
          rw [hie, hm1] at hx
          cases hx

theorem missWay_eq {p : Port} (h : s.ends.fetch p = false ∨ s.fsm.state = .fetch p) :
    s.missWay p = s.processReplaceLine p := by
  rw [missWay, if_neg]
  rcases h with h | h
  · rw [h, Bool.false_and]
    exact Bool.false_ne_true
  · rw [h, bne, beq_self_eq_true, Bool.not_true, Bool.and_false]
    exact Bool.false_ne_true

/-- In its turn a miss replaces the way that the machine names. -/
theorem turnWay_of_turn {p : Port} (h : s.Sound before) (ht : s.Turn p) (hm : s.misses p = true)
    (hs : s.fsm.state ≠ .fetch p.other)
    (hf : s.ends.fetch p = false ∨ s.fsm.state = .fetch p) :
    s.turnWay p = s.processReplaceLine p := by
  rw [← missWay_eq hf]
  cases p with
  | one => rfl
  | two =>
      have hserved : s.Served .one := ht
      rw [turnWay]
      split
      · rename_i hx
        rw [Bool.and_eq_true] at hx
        exact (h.snapshot.distinct (hserved.fetch hx.2) hs hm hx.1).symm
      · rfl

/-- A miss does not replace the line that the other request hits. -/
theorem turnWay_ne_hitLine {p : Port} (h : s.Sound before) (hie : s.indexEqual = true)
    (hh : (s.cacheHandle.side p.other).hit = true) (hm : s.misses p = true) :
    s.turnWay p = !(s.cacheHandle.side p.other).hitLine := by
  have hway : s.missWay p = !(s.cacheHandle.side p.other).hitLine := by
    cases he : s.ends.fetch p with
    | true => exact h.snapshot.avoids p he hie hh
    | false =>
        rw [missWay_eq (Or.inl he), processReplaceLine, hie, hh]
        rfl
  cases p with
  | one => exact hway
  | two =>
      have h1 : s.misses .one = false := by
        cases hm1 : s.misses .one with
        | false => rfl
        | true =>
            have hno := hit_of_misses hm1
            rw [show (s.cacheHandle.side .one).hit = true from hh] at hno
            cases hno
      rw [turnWay, h1, Bool.and_false, if_neg Bool.false_ne_true, hway]

/-! ### The victim -/

/-- The line that the miss of `p` replaces has to be written back. -/
def evicts (s : State) (p : Port) : Bool :=
  s.cacheDirty ⟨s.turnWay p, s.index p⟩ &&
    ((s.cacheHandle.side p).metaR (s.turnWay p)).valid

/-- Until its own refill the victim of a miss keeps its dirty bit. -/
theorem cacheDirty_turnWay {p : Port} (h : s.Sound before) (hb : s.Busy) (hm : s.misses p = true)
    (hs : s.fsm.state ≠ .fetch p) (hf : s.ends.fetch p = false) :
    (s.next i).cacheDirty ⟨s.turnWay p, s.index p⟩ = s.cacheDirty ⟨s.turnWay p, s.index p⟩ := by
  have hnext : (s.next i).cacheDirty = s.cacheDirtyNew := by simp [next, hb.oper]
  -- no request of the pair hits the victim
  have hhit (q : Port) (hq : s.processCacheHit q = true) :
      (s.hitSlot q == (⟨s.turnWay p, s.index p⟩ : Slot)) = false := by
    rw [beq_eq_false_iff_ne]
    intro heq
    simp only [processCacheHit, Bool.and_eq_true] at hq
    have hqp : q = p.other := by
      cases p <;> cases q <;> first | rfl | (rw [hit_of_misses hm] at hq; cases hq.1.1)
    subst hqp
    have hindex : s.index p.other = s.index p := congrArg Slot.index heq
    have hie : s.indexEqual = true := by
      cases p with
      | one => exact beq_iff_eq.mpr hindex.symm
      | two => exact beq_iff_eq.mpr hindex
    have hline : (s.cacheHandle.side p.other).hitLine = s.turnWay p := congrArg Slot.line heq
    rw [turnWay_ne_hitLine h hie hq.1.1 hm] at hline
    exact absurd hline (by simp)
  rw [hnext, cacheDirtyNew]
  split
  · have hsame (q : Port) : (s.processCacheHit q && (s.req q).strobe != 0#4) = true →
        (s.hitSlot q == (⟨s.turnWay p, s.index p⟩ : Slot)) = false := by
      intro hq
      rw [Bool.and_eq_true] at hq
      exact hhit q hq.1
    dsimp only
    split
    · rw [hsame .two (by assumption), if_neg Bool.false_ne_true]
    · split
      · rw [hsame .one (by assumption), if_neg Bool.false_ne_true]
      · rfl
  · rename_i q hq
    have hqp : q = p.other := by
      cases p <;> cases q <;> first | rfl | exact absurd hq hs
    subst hqp
    rw [if_neg]
    rw [beq_iff_eq]
    intro heq
    have hindex : s.index p.other = s.index p := congrArg Slot.index heq
    have hline : s.processReplaceLine p.other = s.turnWay p := congrArg Slot.line heq
    cases p with
    | one =>
        have hserved : s.Served .one := h.phase.turn_of_fetch hq
        rw [hserved.fetch hm] at hf
        cases hf
    | two =>
        have hm1 : s.misses .one = true := (h.phase.misses_of_fetch hq).1
        have hie : s.indexEqual = true := beq_iff_eq.mpr hindex
        have hw : s.missWay .one = s.processReplaceLine .one := missWay_eq (Or.inr hq)
        rw [turnWay, hie, hm1, Bool.and_true, if_pos rfl, hw] at hline
        exact absurd hline (by simp [Port.other])
  · rfl

theorem evicts_next {p : Port} (h : s.Sound before) (hb : s.Busy) (hpol : Polite i)
    (hm : s.misses p = true) (hs : s.fsm.state ≠ .fetch p) (hf : s.ends.fetch p = false) :
    (s.next i).evicts p = s.evicts p := by
  have hh := next_cacheHandle (i := i) hb.en
  rw [evicts, evicts, turnWay_next h hb hpol hm, index_congr hh, cacheDirty_turnWay h hb hm hs hf,
    hh]

theorem missNeeds_next {p : Port} (h : s.Sound before) (hb : s.Busy) (hpol : Polite i)
    (hm : s.misses p = true) (hs : s.fsm.state ≠ .fetch p) (hf : s.ends.fetch p = false) :
    (s.next i).missNeeds p ((s.next i).turnWay p) = s.missNeeds p (s.turnWay p) := by
  have hh := next_cacheHandle (i := i) hb.en
  rw [missNeeds, missNeeds, turnWay_next h hb hpol hm, index_congr hh,
    cacheDirty_turnWay h hb hm hs hf, hh, req_congr hh]

theorem missNeeds_eq (p : Port) : s.missNeeds p (s.turnWay p) =
    (if s.evicts p then
      [lineWrite ((s.cacheHandle.side p).metaR (s.turnWay p)).tag (s.index p)] else []) ++
      [lineRead (tagOf (s.req p).addr) (s.index p)] := rfl

/-! ### What is left to do -/

/-- The transactions of `p` that are not over. -/
def todo (s : State) (p : Port) : List Transaction :=
  if s.bypasses p then
    if s.ends.uncache p ∧ s.fsm.state ≠ .uncache p then [] else [singleAccess (s.req p)]
  else if s.misses p then
    if s.fsm.state = .fetch p then [lineRead (tagOf (s.req p).addr) (s.index p)]
    else if s.ends.fetch p then []
    else s.missNeeds p (s.turnWay p)
  else []

theorem todo_of_served {p : Port} (h : s.Served p) (hf : s.fsm.state ≠ .fetch p)
    (hu : s.fsm.state ≠ .uncache p) : s.todo p = [] := by
  rw [todo]
  split
  · rw [if_pos ⟨h.uncache (by assumption), hu⟩]
  · split
    · rw [if_pos (h.fetch (by assumption))]
    · rfl

theorem todo_of_untouched {p : Port} (h : s.Untouched p) (hf : s.fsm.state ≠ .fetch p) :
    s.todo p = s.portNeeds p (s.turnWay p) := by
  rw [todo, portNeeds, h.uncache, h.fetch, if_neg hf, if_neg Bool.false_ne_true]
  simp only [Bool.false_eq_true, false_and, if_false]

theorem todo_of_bypasses {p : Port} (h : s.bypasses p = true)
    (hu : s.fsm.state = .uncache p ∨ s.ends.uncache p = false) :
    s.todo p = [singleAccess (s.req p)] := by
  rw [todo, if_pos h, if_neg]
  rintro ⟨he, hs⟩
  rcases hu with hu | hu
  · exact hs hu
  · rw [hu] at he
    cases he

theorem todo_of_misses {p : Port} (h : s.misses p = true) (hf : s.fsm.state ≠ .fetch p)
    (he : s.ends.fetch p = false) : s.todo p = s.missNeeds p (s.turnWay p) := by
  rw [todo, not_bypasses_of_misses h, if_neg Bool.false_ne_true, if_pos h, if_neg hf, he,
    if_neg Bool.false_ne_true]

theorem todo_of_fetch {p : Port} (h : s.misses p = true) (hf : s.fsm.state = .fetch p) :
    s.todo p = [lineRead (tagOf (s.req p).addr) (s.index p)] := by
  rw [todo, not_bypasses_of_misses h, if_neg Bool.false_ne_true, if_pos h, if_pos hf]

/-! ### What an edge does -/

/-- The transaction that is over with this edge. -/
def done (s : State) (i : Input) : List Transaction :=
  if i.dcresp.last then [.of s.dcreq] else []

theorem dcreq_valid_of_idle (h : s.fsm.state = .idle) : s.dcreq.valid = false := by
  simp [dcreq, h]

theorem not_last_of_idle (ha : s.Answers i) (h : s.fsm.state = .idle) :
    i.dcresp.last = false := by
  rw [Bool.eq_false_iff]
  intro hl
  have hv := ha.2 (ha.1 hl)
  rw [dcreq_valid_of_idle h] at hv
  cases hv

theorem of_dcreq_fetch {p : Port} (h : s.fsm.state = .fetch p) :
    Transaction.of s.dcreq = lineRead (tagOf (s.req p).addr) (s.index p) := by
  rw [Transaction.of, dcreq, cbusAddr, h]
  rfl

theorem of_dcreq_writeback {p : Port} (h : s.fsm.state = .writeback p) :
    Transaction.of s.dcreq =
      lineWrite ((s.cacheHandle.side p).metaR (s.processReplaceLine p)).tag (s.index p) := by
  rw [Transaction.of, dcreq, cbusAddr, h]
  rfl

theorem of_dcreq_uncache {p : Port} (h : s.fsm.state = .uncache p) :
    Transaction.of s.dcreq = singleAccess (s.req p) := by
  rw [Transaction.of, dcreq, cbusAddr, h]
  rfl

/-- The state belongs to the turn of `p`. -/
def InTurn (s : State) (p : Port) : Prop :=
  s.fsm.state = .idle ∨ s.fsm.state = .fetch p ∨ s.fsm.state = .writeback p ∨
    s.fsm.state = .uncache p

theorem InTurn.ne_other {p : Port} (h : s.InTurn p) :
    s.fsm.state ≠ .fetch p.other ∧ s.fsm.state ≠ .writeback p.other ∧
      s.fsm.state ≠ .uncache p.other := by
  rcases h with h | h | h | h <;> rw [h] <;> cases p <;> simp [Port.other]

/-- A turn changes nothing for the other request. -/
theorem todo_other {p : Port} (h : s.Sound before) (hb : s.Busy) (hpol : Polite i)
    (ht : s.Turn p) (hs : s.InTurn p) (hn : (s.next i).InTurn p) :
    (s.next i).todo p.other = s.todo p.other := by
  have hh := next_cacheHandle (i := i) hb.en
  cases p with
  | two =>
      have hserved : s.Served .one := ht
      have hs1 := hs.ne_other
      have hn1 := hn.ne_other
      rw [Port.other, todo_of_served hserved hs1.1 hs1.2.2,
        todo_of_served (hserved.next hb) hn1.1 hn1.2.2]
  | one =>
      have hu : s.Untouched .two := ht
      have hs2 := hs.ne_other
      have hn2 := hn.ne_other
      have hu' : (s.next i).Untouched .two := hu.next hs2.1 hs2.2.1 hs2.2.2
      rw [Port.other, todo_of_untouched hu hs2.1, todo_of_untouched hu' hn2.1, portNeeds, portNeeds,
        bypasses_congr hh, misses_congr hh, req_congr hh]
      split
      · rfl
      · split
        · exact missNeeds_next h hb hpol (by assumption) hs2.1 hu.fetch
        · rfl

/-- An edge of the turn of `p`: what is over is the first thing `p` had to do. -/
structure Advances (s : State) (i : Input) (p : Port) : Prop where
  turn : s.Turn p
  inTurn : s.InTurn p
  inTurn' : (s.next i).InTurn p
  own : s.todo p = s.done i ++ (s.next i).todo p
  victim : (s.next i).fsm.state = .writeback p → (s.next i).evicts p = true

section Advances

variable (h : s.Sound before) (hb : s.Busy) (ha : s.Answers i)
include h hb ha

theorem advances_of_think (hi : s.fsm.state = .idle) (hu : s.Untouched .two)
    (hd : (s.Untouched .one ∧ (s.misses .one || s.bypasses .one) = true) ∨
      (s.Served .one ∧ (s.misses .two || s.bypasses .two) = true)) :
    ∃ p, s.Advances i p := by
  have hh := next_cacheHandle (i := i) hb.en
  have hdone : s.done i = [] := by
    rw [done, not_last_of_idle ha hi]
    rfl
  obtain ⟨p, ht, hup, ⟨hm, hfsm⟩ | ⟨hm, hfsm⟩⟩ := fsm_of_due (i := i) hb hi hd hu
  · have hs' : (s.next i).fsm.state = .uncache p := by rw [hfsm]
    have hm' : (s.next i).bypasses p = true := by rw [bypasses_congr hh, hm]
    refine ⟨p, ht, Or.inl hi, Or.inr (Or.inr (Or.inr hs')), ?_, fun hw => ?_⟩
    · rw [hdone, todo_of_bypasses hm (Or.inr hup.uncache), todo_of_bypasses hm' (Or.inl hs'),
        req_congr hh]
      rfl
    · rw [hs'] at hw
      cases hw
  · have hm' : (s.next i).misses p = true := by rw [misses_congr hh, hm]
    have hne : s.fsm.state ≠ .fetch p := by
      rw [hi]
      simp
    have hends : (s.next i).ends.fetch p = false := by
      rw [hb.ends_fetch, hi, hup.fetch]
      rfl
    have hdirty : s.cacheDirtyOf p = s.evicts p := by
      have hway := turnWay_of_turn h ht hm (by rw [hi]; simp) (Or.inl hup.fetch)
      rw [evicts, hway]
      rfl
    have htodo := todo_of_misses hm hne hup.fetch
    cases hx : s.cacheDirtyOf p with
    | true =>
        have hs' : (s.next i).fsm.state = .writeback p := by
          rw [hfsm, startMiss, hx, hup.writeback]
          rfl
        refine ⟨p, ht, Or.inl hi, Or.inr (Or.inr (Or.inl hs')), ?_, fun _ => ?_⟩
        · rw [hdone, htodo, todo_of_misses hm' (by rw [hs']; simp) hends,
            missNeeds_next h hb ha.1 hm hne hup.fetch]
          rfl
        · rw [evicts_next h hb ha.1 hm hne hup.fetch, ← hdirty, hx]
    | false =>
        have hs' : (s.next i).fsm.state = .fetch p := by
          rw [hfsm, startMiss, hx]
          rfl
        refine ⟨p, ht, Or.inl hi, Or.inr (Or.inl hs'), ?_, fun hw => ?_⟩
        · rw [hdone, htodo, missNeeds_eq, ← hdirty, hx, todo_of_fetch hm' hs', req_congr hh,
            index_congr hh]
          rfl
        · rw [hs'] at hw
          cases hw

theorem advances_of_writeback {p : Port} (hs : s.fsm.state = .writeback p)
    (hm : s.misses p = true) (hf : s.ends.fetch p = false) (ht : s.Turn p)
    (hw : s.evicts p = true) : s.Advances i p := by
  have hh := next_cacheHandle (i := i) hb.en
  have hfsm := hb.fsm_writeback (i := i) hs
  have hm' : (s.next i).misses p = true := by rw [misses_congr hh, hm]
  have hne : s.fsm.state ≠ .fetch p := by
    rw [hs]
    simp
  have hends : (s.next i).ends.fetch p = false := by
    rw [hb.ends_fetch, hs, hf]
    rfl
  have htodo := todo_of_misses hm hne hf
  cases hl : i.dcresp.last with
  | true =>
      have hs' : (s.next i).fsm.state = .fetch p := by
        rw [hfsm, fsmWriteback, hl, ha.1 hl]
        rfl
      have hway := turnWay_of_turn h ht hm (by rw [hs]; simp) (Or.inl hf)
      refine ⟨ht, Or.inr (Or.inr (Or.inl hs)), Or.inr (Or.inl hs'), ?_, fun hw' => ?_⟩
      · rw [htodo, missNeeds_eq, hw, done, hl, of_dcreq_writeback hs, ← hway,
          todo_of_fetch hm' hs', req_congr hh, index_congr hh]
      · rw [hs'] at hw'
        cases hw'
  | false =>
      have hs' : (s.next i).fsm.state = .writeback p := by
        rw [hfsm, fsmWriteback, hl, hs]
        exact ite_self _
      refine ⟨ht, Or.inr (Or.inr (Or.inl hs)), Or.inr (Or.inr (Or.inl hs')), ?_, fun _ => ?_⟩
      · rw [htodo, todo_of_misses hm' (by rw [hs']; simp) hends, done, hl,
          missNeeds_next h hb ha.1 hm hne hf]
        rfl
      · rw [evicts_next h hb ha.1 hm hne hf, hw]

omit h in
theorem advances_of_fetch {p : Port} (hs : s.fsm.state = .fetch p) (hm : s.misses p = true)
    (ht : s.Turn p) : s.Advances i p := by
  have hh := next_cacheHandle (i := i) hb.en
  have hm' : (s.next i).misses p = true := by rw [misses_congr hh, hm]
  cases hl : i.dcresp.last with
  | true =>
      have hs' := hb.fetch_last hs hl ha.1
      have hserved := served_of_fetch (i := i) hb hs hm
      refine ⟨ht, Or.inr (Or.inl hs), Or.inl hs', ?_, fun hw => ?_⟩
      · rw [todo_of_fetch hm hs, todo_of_served hserved (by rw [hs']; simp) (by rw [hs']; simp),
          done, hl, of_dcreq_fetch hs]
        rfl
      · rw [hs'] at hw
        cases hw
  | false =>
      have hs' := hb.fetch_more hs hl
      refine ⟨ht, Or.inr (Or.inl hs), Or.inr (Or.inl hs'), ?_, fun hw => ?_⟩
      · rw [todo_of_fetch hm hs, todo_of_fetch hm' hs', done, hl, req_congr hh, index_congr hh]
        rfl
      · rw [hs'] at hw
        cases hw

omit h ha in
theorem advances_of_uncache {p : Port} (hs : s.fsm.state = .uncache p) (hm : s.bypasses p = true)
    (ht : s.Turn p) : s.Advances i p := by
  have hh := next_cacheHandle (i := i) hb.en
  have hm' : (s.next i).bypasses p = true := by rw [bypasses_congr hh, hm]
  have hfsm := hb.fsm_uncache (i := i) hs
  cases hl : i.dcresp.last with
  | true =>
      have hs' : (s.next i).fsm.state = .idle := by
        rw [hfsm, hl]
        rfl
      have hserved := served_of_uncache (i := i) hb hs hm
      refine ⟨ht, Or.inr (Or.inr (Or.inr hs)), Or.inl hs', ?_, fun hw => ?_⟩
      · rw [todo_of_bypasses hm (Or.inl hs), todo_of_served hserved (by rw [hs']; simp)
          (by rw [hs']; simp), done, hl, of_dcreq_uncache hs]
        rfl
      · rw [hs'] at hw
        cases hw
  | false =>
      have hs' : (s.next i).fsm.state = .uncache p := by
        rw [hfsm, hl]
        rfl
      refine ⟨ht, Or.inr (Or.inr (Or.inr hs)), Or.inr (Or.inr (Or.inr hs')), ?_, fun hw => ?_⟩
      · rw [todo_of_bypasses hm (Or.inl hs), todo_of_bypasses hm' (Or.inl hs'), done, hl,
          req_congr hh]
        rfl
      · rw [hs'] at hw
        cases hw

theorem advances (hw : ∀ p, s.fsm.state = .writeback p → s.evicts p = true) :
    ∃ p, s.Advances i p := by
  cases h.phase with
  | ready en _ _ _ _ => rw [hb.en] at en; cases en
  | finished en _ _ _ _ _ => rw [hb.en] at en; cases en
  | think _ hi hu hd => exact advances_of_think h hb ha hi hu hd
  | writeback p _ hs hm hf ht => exact ⟨p, advances_of_writeback h hb ha hs hm hf ht (hw p hs)⟩
  | fetch p _ hs hm ht => exact ⟨p, advances_of_fetch hb ha hs hm ht⟩
  | uncache p _ hs hm ht => exact ⟨p, advances_of_uncache hb hs hm ht⟩

/-- What an edge finishes is the first thing the pair had to do. -/
theorem Advances.todo {p : Port} (hp : s.Advances i p) :
    s.todo .one ++ s.todo .two = s.done i ++ ((s.next i).todo .one ++ (s.next i).todo .two) := by
  have hother := todo_other h hb ha.1 hp.turn hp.inTurn hp.inTurn'
  have hown := hp.own
  cases p with
  | one =>
      rw [hown, show (s.next i).todo .two = s.todo .two from hother, List.append_assoc]
  | two =>
      have hserved : s.Served .one := hp.turn
      have hne := hp.inTurn.ne_other
      have hnil : s.todo .one = [] := todo_of_served hserved hne.1 hne.2.2
      have hnil' : (s.next i).todo .one = [] := hother.trans hnil
      rw [hnil, hnil', List.nil_append, List.nil_append, hown]

end Advances

/-- What a pair has to do when it has been accepted is what it needs. -/
theorem todo_of_accepts (ha : s.Accepts) :
    (s.next i).todo .one ++ (s.next i).todo .two = (s.next i).needs := by
  have hidle : (s.next i).fsm.state = .idle := by rw [ha.fsm, ha.idle]
  have hone (p : Port) : (s.next i).missWay p = (s.next i).processReplaceLine p :=
    missWay_eq (Or.inl (ha.untouched p).fetch)
  have hway (p : Port) : (s.next i).turnWay p = (s.next i).victimWay p := by
    cases p with
    | one => exact hone .one
    | two => rw [turnWay, victimWay, hone, hone]
  have htodo (p : Port) :
      (s.next i).todo p = (s.next i).portNeeds p ((s.next i).victimWay p) := by
    rw [todo_of_untouched (ha.untouched p) (by rw [hidle]; simp), hway]
  rw [htodo, htodo, needs]

theorem Phase.busy (h : s.Phase) (hen : s.en = false) : s.Busy := by
  cases h with
  | ready en _ _ _ _ => rw [hen] at en; cases en
  | finished en _ _ _ _ _ => rw [hen] at en; cases en
  | think hb _ _ _ => exact hb
  | writeback _ hb _ _ _ _ => exact hb
  | fetch _ hb _ _ _ => exact hb
  | uncache _ hb _ _ _ => exact hb

/-- A pair that is over has nothing to do, and one that is not has. -/
theorem todo_eq_nil_iff (h : s.Sound before) :
    s.todo .one ++ s.todo .two = [] ↔ s.en = true := by
  rw [List.append_eq_nil_iff]
  have hmiss (p : Port) : s.missNeeds p (s.turnWay p) ≠ [] := by
    rw [missNeeds_eq]
    simp
  -- the port whose turn it is
  have hdue (p : Port) (hn : s.todo p ≠ []) (he : s.en = false) :
      (s.todo .one = [] ∧ s.todo .two = []) ↔ s.en = true := by
    rw [he]
    constructor
    · rintro ⟨h1, h2⟩
      cases p with
      | one => exact absurd h1 hn
      | two => exact absurd h2 hn
    · intro hx
      cases hx
  cases h.phase with
  | ready en hi _ hu hd =>
      have hnil (p : Port) : s.todo p = [] := by
        rw [todo_of_untouched (hu p) (by rw [hi]; simp), portNeeds, hd.not_misses, hd.not_bypasses]
        rfl
      simp [hnil, en]
  | finished en hi _ _ _ hserved =>
      have hnil (p : Port) : s.todo p = [] :=
        todo_of_served (hserved p) (by rw [hi]; simp) (by rw [hi]; simp)
      simp [hnil, en]
  | think hb hi hu hd =>
      have hne (p : Port) (hup : s.Untouched p) (hp : (s.misses p || s.bypasses p) = true) :
          s.todo p ≠ [] := by
        cases hx : s.bypasses p with
        | true =>
            rw [todo_of_bypasses hx (Or.inr hup.uncache)]
            simp
        | false =>
            rw [hx, Bool.or_false] at hp
            rw [todo_of_misses hp (by rw [hi]; simp) hup.fetch]
            exact hmiss p
      rcases hd with ⟨hu1, hp⟩ | ⟨-, hp⟩
      · exact hdue .one (hne .one hu1 hp) hb.en
      · exact hdue .two (hne .two hu hp) hb.en
  | writeback p hb hs hm hf _ =>
      refine hdue p ?_ hb.en
      rw [todo_of_misses hm (by rw [hs]; simp) hf]
      exact hmiss p
  | fetch p hb hs hm _ =>
      refine hdue p ?_ hb.en
      rw [todo_of_fetch hm hs]
      simp
  | uncache p hb hs hm _ =>
      refine hdue p ?_ hb.en
      rw [todo_of_bypasses hm (Or.inl hs)]
      simp

/-- What is on the bus is the first thing the pair has to do. -/
theorem todo_of_valid (h : s.Sound before)
    (hw : ∀ p, s.fsm.state = .writeback p → s.evicts p = true) (hv : s.dcreq.valid = true) :
    ∃ rest, s.todo .one ++ s.todo .two = .of s.dcreq :: rest := by
  -- with a last beat the edge would finish it
  have hne : s.en = false := by
    cases hen : s.en with
    | false => rfl
    | true =>
        rw [dcreq_valid_of_idle (h.phase.accepts hen).idle] at hv
        cases hv
  let i : Input := ⟨fun _ => default, fun _ => false, ⟨true, true, 0#32⟩, .unknown, 0#32⟩
  have ha : s.Answers i := ⟨fun _ => rfl, fun _ => hv⟩
  have hb := h.phase.busy hne
  obtain ⟨p, hp⟩ := advances h hb ha hw
  exact ⟨_, hp.todo h hb ha⟩

/-! ### The machine does not wait for itself -/

theorem dcreq_valid_of_fetch {p : Port} (h : s.fsm.state = .fetch p) : s.dcreq.valid = true := by
  simp [dcreq, h]

theorem dcreq_valid_of_uncache {p : Port} (h : s.fsm.state = .uncache p) :
    s.dcreq.valid = true := by
  simp [dcreq, h]

/-- The second cycle of a write-back presents the burst. -/
theorem valid_of_writeback {p : Port} (hb : s.Busy) (ha : s.Answers i)
    (hs : s.fsm.state = .writeback p) :
    s.dcreq.valid = true ∨ (s.next i).dcreq.valid = true := by
  cases hv : s.dcreq.valid with
  | true => exact Or.inl rfl
  | false =>
      right
      have hr : i.dcresp.ready = false := by
        rw [Bool.eq_false_iff]
        intro hr
        rw [ha.2 hr] at hv
        cases hv
      have hfsm := hb.fsm_writeback (i := i) hs
      have hs' : (s.next i).fsm.state = .writeback p := by
        rw [hfsm, fsmWriteback, hr, hs]
        rfl
      rw [dcreq, hs', hfsm]
      rfl

/-- A pair that is not over is on the bus in one of the next cycles. -/
theorem presents_soon {i' : Input} (h : s.Sound before) (hen : s.en = false)
    (ha : s.Answers i) (ha' : (s.next i).Answers i') :
    s.dcreq.valid = true ∨ (s.next i).dcreq.valid = true ∨
      ((s.next i).next i').dcreq.valid = true := by
  have hb := h.phase.busy hen
  cases h.phase with
  | ready en _ _ _ _ => rw [hb.en] at en; cases en
  | finished en _ _ _ _ _ => rw [hb.en] at en; cases en
  | think _ hi hu hd =>
      have hb' : (s.next i).Busy := hb.next (finish_of_idle hi (Or.inl hb.oper))
      obtain ⟨p, -, -, ⟨-, hfsm⟩ | ⟨-, hfsm⟩⟩ := fsm_of_due (i := i) hb hi hd hu
      · exact Or.inr (Or.inl (dcreq_valid_of_uncache (p := p) (by rw [hfsm])))
      · cases hx : s.cacheDirtyOf p && !s.ends.writeback p with
        | true =>
            have hs' : (s.next i).fsm.state = .writeback p := by
              rw [hfsm, startMiss, hx]
              rfl
            exact Or.inr (valid_of_writeback hb' ha' hs')
        | false =>
            have hs' : (s.next i).fsm.state = .fetch p := by
              rw [hfsm, startMiss, hx]
              rfl
            exact Or.inr (Or.inl (dcreq_valid_of_fetch hs'))
  | writeback p _ hs _ _ _ =>
      rcases valid_of_writeback hb ha hs with hv | hv
      · exact Or.inl hv
      · exact Or.inr (Or.inl hv)
  | fetch p _ hs _ _ => exact Or.inl (dcreq_valid_of_fetch hs)
  | uncache p _ hs _ _ => exact Or.inl (dcreq_valid_of_uncache hs)

/-- What is written back is dirty. -/
theorem evicts_of_next (h : s.Sound before) (ha : s.Answers i)
    (hw : ∀ p, s.fsm.state = .writeback p → s.evicts p = true) (p : Port)
    (hp : (s.next i).fsm.state = .writeback p) : (s.next i).evicts p = true := by
  cases hen : s.en with
  | true =>
      have hacc := h.phase.accepts hen
      have hidle : (s.next i).fsm.state = .idle := by rw [hacc.fsm, hacc.idle]
      exact absurd (hidle.symm.trans hp) (by simp)
  | false =>
      obtain ⟨q, hq⟩ := advances h (h.phase.busy hen) ha hw
      have hpq : p = q := by
        have hne := hq.inTurn'.ne_other
        by_contra hne'
        have hother : p = q.other := by
          cases p <;> cases q <;> first | rfl | exact absurd rfl hne'
        exact hne.2.1 (hother ▸ hp)
      subst hpq
      exact hq.victim hp

end State

namespace Traced

variable {t : Traced} {i : Input} {before : Index → Meta}

/-- The rules of a cycle without CACHE instructions. -/
def Served (t : Traced) (i : Input) : Prop :=
  i.cacheInst = .unknown ∧ t.cache.Answers i

/-- What is over and what is left make up what the pair needs. -/
structure Good (t : Traced) (before : Index → Meta) : Prop where
  sound : t.cache.Sound before
  log : t.log ++ (t.cache.todo .one ++ t.cache.todo .two) = t.needs
  victim : ∀ p, t.cache.fsm.state = .writeback p → t.cache.evicts p = true

theorem good_reset : Good {} fun _ _ => default :=
  ⟨State.sound_reset, rfl, fun p h => by cases h⟩

theorem Good.step (h : t.Good before) (hs : t.Served i) :
    (t.step i).Good (t.cache.beforeNext before) := by
  refine ⟨h.sound.next hs.1 hs.2.1, ?_, ?_⟩
  · cases hen : t.cache.en with
    | true =>
        change (if t.cache.en then [] else _) ++ _ = if t.cache.en then (t.cache.next i).needs else _
        rw [hen, if_pos rfl, if_pos rfl, List.nil_append]
        exact State.todo_of_accepts (h.sound.phase.accepts hen)
    | false =>
        have hb := h.sound.phase.busy hen
        obtain ⟨p, hp⟩ := State.advances h.sound hb hs.2 h.victim
        have hlog : (t.step i).log = t.log ++ t.cache.done i := by
          change (if t.cache.en then [] else if i.dcresp.last then
            t.log ++ [Transaction.of t.cache.dcreq] else t.log) = _
          rw [hen, if_neg Bool.false_ne_true, State.done]
          split
          · rfl
          · rw [List.append_nil]
        have hneeds : (t.step i).needs = t.needs := by
          change (if t.cache.en then _ else t.needs) = _
          rw [hen, if_neg Bool.false_ne_true]
        rw [hlog, hneeds, ← h.log, hp.todo h.sound hb hs.2, List.append_assoc]
        rfl
  · exact State.evicts_of_next h.sound hs.2 h.victim

theorem good_of_run {is : List Input} (h : Along step Served {} is) :
    ∃ before, (run step {} is).Good before :=
  h.invariant (P := fun t => ∃ before, t.Good before)
    (fun _ _ ⟨_, hg⟩ hs => ⟨_, hg.step hs⟩) ⟨_, good_reset⟩

/-- What is presented is the next transaction of the pair, `addr_ok` stands for the end of the
last one, and the cache presents one at the latest two cycles after the one before. -/
structure OnTime (t : Traced) : Prop where
  presents : t.cache.dcreq.valid = true → ∃ rest, t.needs = t.log ++ .of t.cache.dcreq :: rest
  addrOk : t.cache.addrOk = true ↔ t.log = t.needs
  soon : t.cache.addrOk = false → ∀ i i', t.cache.Answers i → (t.cache.next i).Answers i' →
    t.cache.dcreq.valid = true ∨ (t.cache.next i).dcreq.valid = true ∨
      ((t.cache.next i).next i').dcreq.valid = true

theorem transactions_exact (is : List Input) (h : Along step Served {} is) :
    (run step {} is).OnTime := by
  obtain ⟨before, hg⟩ := good_of_run h
  refine ⟨fun hv => ?_, ?_, fun hen i i' ha ha' => State.presents_soon hg.sound hen ha ha'⟩
  · obtain ⟨rest, hrest⟩ := State.todo_of_valid hg.sound hg.victim hv
    exact ⟨rest, by rw [← hg.log, hrest]⟩
  · rw [State.addrOk, ← State.todo_eq_nil_iff hg.sound, ← hg.log]
    constructor
    · intro hnil
      rw [hnil, List.append_nil]
    · intro hlog
      exact List.append_cancel_left (hlog.symm.trans (List.append_nil _).symm)

/-- A bus that does nothing keeps to the rules. -/
theorem answers_of_quiet (s : State) (h : i.dcresp = default) : s.Answers i := by
  constructor
  · intro hl
    rw [h] at hl
    cases hl
  · intro hr
    rw [h] at hr
    cases hr

def deviceLoad : DBusReq := ⟨true, 0x1f000000#32, .size4, 0#4, 0#32⟩

/-- An uncached load, and a cycle of waiting. -/
def deviceRun : List Input :=
  [⟨fun p => if p = .one then deviceLoad else default, fun _ => true, default, .unknown, 0#32⟩,
    ⟨fun _ => default, fun _ => false, default, .unknown, 0#32⟩]

theorem transactions_exact_device :
    ∃ rest, (run step {} deviceRun).needs =
      (run step {} deviceRun).log ++ .of (run step {} deviceRun).cache.dcreq :: rest :=
  (transactions_exact deviceRun
    ⟨⟨rfl, answers_of_quiet _ rfl⟩, ⟨rfl, answers_of_quiet _ rfl⟩, trivial⟩).presents
    (by decide)

end Traced

end FrailCPU.DCache
