import FrailCPU.DCache.OneWay
import FrailCPU.DCache.Writeback

/-!
# The way of a miss

The way that a miss replaces is computed from the replacement bits in every cycle, and is
latched in the address of the line and in `replace_line_reg` at different moments. Beside the
cache stands the way that was chosen in the cycle after the pair was accepted: every use of a
way in the service of the pair is a use of that one.
-/

namespace FrailCPU.DCache

open ClockedMachine

namespace State

variable (s : State) (i : Input)

/-- The uses of a way in the service of the miss of `p`, all of the way `w`. -/
structure UsesWay (p : Port) (w : Way) : Prop where
  /-- The victim whose dirty bit decides about a write-back. -/
  judged : s.fsm.state = .idle →
    (s.next i).fsm.state = .writeback p ∨ (s.next i).fsm.state = .fetch p →
    s.victim p = ⟨w, s.index p⟩
  /-- What is written back is read at the way and goes to the address of its tag. -/
  writeback : s.fsm.state = .writeback p → s.port2Addr.slot = ⟨w, s.index p⟩ ∧
    s.dcreq.addr = lineAddr ((s.cacheHandle.side p).metaR w).tag (s.index p)
  refill : s.fsm.state = .fetch p → s.port2Addr.slot = ⟨w, s.index p⟩
  tag : s.fsm.state = .fetch p → (s.next i).metaRam = Function.update s.metaRam (s.index p)
    (Function.update (s.cacheHandle.side p).metaR w ⟨true, tagOf (s.req p).addr⟩)
  dirty : s.fsm.state = .fetch p → (s.next i).cacheDirty =
    Function.update s.cacheDirty ⟨w, s.index p⟩ ((s.req p).strobe != 0#4)
  access : s.en = true → (s.accessAddr p).slot = ⟨w, s.index p⟩
  /-- The other request does not hit the way. -/
  avoids : s.indexEqual = true → (s.cacheHandle.side p.other).hit = true →
    hitBits (s.cacheHandle.side p.other).metaR (tagOf (s.req p.other).addr) w = false

/-- The pair in `cache_handle` with the ways of its misses. -/
structure UsesWays (way : Port → Way) : Prop where
  one : ∀ p, s.misses p = true → s.UsesWay i p (way p)
  /-- Two misses in one set are of different lines, and use different ways. -/
  apart : s.misses .one = true → s.misses .two = true → s.indexEqual = true →
    way .one ≠ way .two
  /-- A younger request for the line that the older one misses uses the way of that miss. -/
  shared : s.en = true → s.misses .one = true → s.sameLine = true → s.performs .two = true →
    (s.accessAddr .two).slot = ⟨way .one, s.index .one⟩

variable {s i} {before : Index → Meta} {p : Port}

/-- Where a miss has its way from in the course of its turn. -/
theorem turnWay_of_refill (h : s.Sound before) (hs : s.Refills p) :
    s.turnWay p = s.processReplaceLine p ∧ s.fsm.missAddr.slot = ⟨s.turnWay p, s.index p⟩ := by
  have hturn : s.turnWay p = s.processReplaceLine p ∧ s.missWay p = s.processReplaceLine p := by
    rcases hs with hs | hs
    · obtain ⟨hm, ht, -⟩ := h.phase.misses_of_fetch hs
      refine ⟨turnWay_of_turn h ht hm ?_ (Or.inr hs), missWay_eq (Or.inr hs)⟩
      rw [hs]
      cases p <;> exact fun hx => by cases hx
    · obtain ⟨hm, ht, -, hf⟩ := h.phase.misses_of_writeback hs
      refine ⟨turnWay_of_turn h ht hm ?_ (Or.inl hf), missWay_eq (Or.inl hf)⟩
      rw [hs]
      exact fun hx => by cases hx
  refine ⟨hturn.1, ?_⟩
  rw [h.snapshot.missAddr p hs, missSlot, hturn.1, hturn.2]

/-- The access of a miss uses the way of its turn. -/
theorem turnWay_of_access (h : s.Sound before) (hen : s.en = true) (hm : s.misses p = true) :
    s.turnWay p = s.replaceLineReg p := by
  have hi := (h.phase.accepts hen).idle
  have hserved (q : Port) : s.Served q := by
    have hv : (s.req p).valid = true := by
      simp only [misses, Bool.and_eq_true] at hm
      exact hm.1.1.1
    exact (h.phase.served_of_miss hen hv (hit_of_misses hm)).2 q
  have hway (q : Port) (hq : s.misses q = true) : s.missWay q = s.replaceLineReg q :=
    missWay_of_idle hi ((hserved q).fetch hq)
  cases p with
  | one => exact hway .one hm
  | two =>
      rw [turnWay]
      split
      · rename_i hx
        rw [Bool.and_eq_true] at hx
        have hne : s.fsm.state ≠ .fetch .one := by
          rw [hi]
          exact fun hx => by cases hx
        rw [← h.snapshot.distinct ((hserved .one).fetch hx.2) hne hm hx.1, hway .two hm]
      · exact hway .two hm

theorem Sound.usesWay (h : s.Sound before) (hm : s.misses p = true) :
    s.UsesWay i p (s.turnWay p) where
  judged hi hn := by
    have hway (hb : s.Busy) (hu : s.Untouched .two)
        (hd : (s.Untouched .one ∧ (s.misses .one || s.bypasses .one) = true) ∨
          (s.Served .one ∧ (s.misses .two || s.bypasses .two) = true)) :
        s.turnWay p = s.processReplaceLine p := by
      obtain ⟨q, ht, hq, ⟨-, hfsm⟩ | ⟨-, hfsm⟩⟩ := fsm_of_due (i := i) hb hi hd hu
      · rw [hfsm] at hn
        rcases hn with hn | hn <;> cases hn
      · have hpq : p = q := by
          rw [hfsm, startMiss] at hn
          dsimp only at hn
          split at hn <;> rcases hn with hn | hn <;> cases hn <;> rfl
        subst hpq
        refine turnWay_of_turn h ht hm ?_ (Or.inl hq.fetch)
        rw [hi]
        exact fun hx => by cases hx
    have hstay (hen : s.en = true) : (s.next i).fsm.state = .idle := by
      rw [next_fsm, fsmNext, if_pos hen, hi]
    rw [victim]
    cases h.phase with
    | ready en _ _ _ _ =>
        rw [hstay en] at hn
        rcases hn with hn | hn <;> cases hn
    | finished en _ _ _ _ _ =>
        rw [hstay en] at hn
        rcases hn with hn | hn <;> cases hn
    | think hb _ hu hd => rw [hway hb hu hd]
    | writeback q _ hs _ _ _ => rw [hs] at hi; cases hi
    | fetch q _ hs _ _ => rw [hs] at hi; cases hi
    | uncache q _ hs _ _ => rw [hs] at hi; cases hi
  writeback hs := by
    obtain ⟨hw, hslot⟩ := turnWay_of_refill h (Or.inr hs)
    constructor
    · rw [port2Addr, hs, ← hslot]
      rfl
    · rw [hw, dcreq, cbusAddr, hs]
  refill hs := by
    rw [port2Addr, hs, ← (turnWay_of_refill h (Or.inl hs)).2]
    rfl
  tag hs := by
    rw [metaRam_fetch (h.phase.misses_of_fetch hs).2.2 hs, (turnWay_of_refill h (Or.inl hs)).1,
      fetchedSet, missWay_eq (Or.inr hs)]
  dirty hs := by
    have hb := (h.phase.misses_of_fetch hs).2.2
    have hnext : (s.next i).cacheDirty = s.cacheDirtyNew := by simp [State.next, hb.oper]
    funext k
    rw [hnext, cacheDirtyNew_of_fetch hs, missSlot, missWay_eq (Or.inr hs),
      (turnWay_of_refill h (Or.inl hs)).1, Function.update_apply]
  access hen := by
    rw [accessAddr_of_miss (hit_of_misses hm), turnWay_of_access h hen hm]
  avoids hie hh := by
    have hu : UniqueTags (s.cacheHandle.side p.other).metaR := by
      rw [h.snapshot.metaR]
      exact h.snapshot.unique _
    have hline : (s.cacheHandle.side p.other).hitLine =
        DCache.hitLine (s.cacheHandle.side p.other).metaR (tagOf (s.req p.other).addr) := by
      rw [h.snapshot.hitLine, h.snapshot.metaR]
    rw [h.snapshot.hit, ← h.snapshot.metaR] at hh
    have hhit := hu.hitBits_iff hh
    rw [Bool.eq_false_iff]
    intro hx
    have hne := turnWay_ne_hitLine h hie (by rw [h.snapshot.hit, ← h.snapshot.metaR]; exact hh) hm
    rw [(hhit _).mp hx, hline] at hne
    exact (Bool.eq_not_self _).mp hne

/-- The uses of the ways in every cycle of the service. -/
theorem usesWays_of_sound {way : Port → Way} (h : ∀ p, s.misses p = true →
    (∃ before, s.Sound before) ∧ s.turnWay p = way p) : s.UsesWays i way where
  one p hm := by
    obtain ⟨⟨_, hs⟩, hw⟩ := h p hm
    rw [← hw]
    exact hs.usesWay hm
  apart h1 h2 hie hx := by
    rw [← (h .one h1).2, ← (h .two h2).2, turnWay, turnWay, hie, h1,
      if_pos (Bool.and_self true)] at hx
    exact (Bool.eq_not_self _).mp hx
  shared hen h1 hsl h2 := by
    obtain ⟨⟨_, hs⟩, hw⟩ := h .one h1
    have hline := line_of_sameLine hsl
    have hh2 : (s.cacheHandle.side .two).hit = false := by
      rw [← (hit_of_line_eq hs.snapshot hline).1, hit_of_misses h1]
    have hindex : s.index .one = s.index .two := congrArg Prod.snd hline
    rw [accessAddr_of_miss hh2, (twin_slot hs hen h2 hsl hh2).2, ← hw,
      turnWay_of_access hs hen h1, hindex]

end State

/-- The cache with the ways that were chosen for the pair in `cache_handle`. -/
structure Choice where
  watch : Watch := {}
  way : Port → Way := fun _ => false

namespace Choice

variable (c : Choice) (o : Offer)

def cache : State := c.watch.cache

/-- A clock edge. -/
def step : Choice where
  watch := c.watch.step o
  way := if c.cache.en then (c.watch.step o).cache.victimWay else c.way

/-- A pair is being served, or has its access after it. -/
def Serves : Prop :=
  c.cache.cacheHandle.cacheOper = .req ∧ (c.cache.en = false ∨ c.cache.finishReg = true)

/-- The choice is the one that the machine keeps to. -/
structure Kept : Prop where
  guarded : c.watch.Guarded
  sound : c.Serves → ∀ p, c.cache.misses p = true →
    (∃ before, c.cache.Sound before) ∧ c.cache.turnWay p = c.way p

theorem kept_reset : ({} : Choice).Kept where
  guarded := Watch.guarded_reset
  sound _ _ h := by cases h

variable {c} {o}

/-- In the cycle after the acceptance the choice is that of the replacement bits. -/
theorem turnWay_of_untouched {s : State} (h : ∀ p, s.Untouched p) : s.turnWay = s.victimWay := by
  funext p
  have hway (q : Port) : s.missWay q = s.processReplaceLine q := State.missWay_eq (Or.inl (h q).fetch)
  cases p with
  | one => exact hway .one
  | two => rw [State.turnWay, State.victimWay, hway, hway]

theorem Kept.step_accept (h : c.Kept) (hc : c.watch.Alone o) (he : c.cache.en = true) :
    (c.step o).Kept where
  guarded := h.guarded.step hc
  sound hs p hm := by
    have hv : (o.dreq p).valid = true := by
      have hcache : (c.step o).cache.cacheHandle =
          c.cache.handleNext (c.watch.service.input o) := if_pos he
      simp only [State.misses, Bool.and_eq_true] at hm
      have hv := hm.1.1.1
      rw [State.req, hcache] at hv
      exact hv
    have hl := h.guarded.latches he hc hv
    have hen : (c.step o).cache.en = false := by
      refine hs.2.resolve_right ?_
      rw [show (c.step o).cache.finishReg = false from hl.finish]
      exact Bool.false_ne_true
    refine ⟨⟨_, ((h.guarded.step hc).serving hen hs.1).sound⟩, ?_⟩
    have hway : (c.step o).way = (c.watch.step o).cache.victimWay := if_pos he
    rw [hway]
    exact congrFun (turnWay_of_untouched hl.untouched) p

theorem Kept.step_waits (h : c.Kept) (hc : c.watch.Alone o) (he : c.cache.en = false) :
    (c.step o).Kept where
  guarded := h.guarded.step hc
  sound hs p hm := by
    have hcache : (c.step o).cache.cacheHandle = c.cache.cacheHandle :=
      State.next_cacheHandle he
    have ho : c.cache.cacheHandle.cacheOper = .req := by
      rw [← hcache]
      exact hs.1
    rw [State.misses_congr hcache] at hm
    obtain ⟨⟨_, hsound⟩, hway⟩ := h.sound ⟨ho, Or.inl he⟩ p hm
    refine ⟨⟨_, h.guarded.sound_step he ho⟩, ?_⟩
    have hstay : (c.step o).way = c.way := if_neg (by rw [he]; exact Bool.false_ne_true)
    rw [hstay, ← hway]
    exact State.turnWay_next hsound (h.guarded.busy he ho)
      (Watch.polite_input (w := c.watch) (o := o)) hm

theorem Kept.step (h : c.Kept) (hc : c.watch.Alone o) : (c.step o).Kept := by
  cases he : c.cache.en with
  | true => exact h.step_accept hc he
  | false => exact h.step_waits hc he

/-- Every use of a way while a pair with a miss is served is a use of the way that was chosen in
the cycle after its acceptance. -/
theorem one_way_through_miss (os : List Offer) (o : Offer)
    (h : Along step (fun c o => c.watch.Alone o) {} os) (hs : (run step {} os : Choice).Serves) :
    (run step {} os).cache.UsesWays ((run step {} os).watch.service.input o)
      (run step {} os).way := by
  have hk : (run step {} os : Choice).Kept :=
    h.invariant (fun _ _ hk hc => hk.step hc) kept_reset
  exact State.usesWays_of_sound fun p hm => hk.sound hs p hm

/-- Two loads that miss in one set. -/
def twoMisses : Offer :=
  let load (a : Word) : DBusReq := ⟨true, a, .size4, 0#4, 0#32⟩
  ⟨fun | .one => load 0x1040#32 | .two => load 0x2040#32, fun _ => false, .unknown, 0#32, true,
    7#32⟩

theorem one_way_through_miss_pair :
    (run step {} [twoMisses, twoMisses, twoMisses]).cache.fsm.state = .fetch .one ∧
      (run step {} [twoMisses, twoMisses, twoMisses]).cache.UsesWays
        ((run step {} [twoMisses, twoMisses, twoMisses]).watch.service.input twoMisses)
        (run step {} [twoMisses, twoMisses, twoMisses]).way :=
  ⟨by decide, one_way_through_miss [twoMisses, twoMisses, twoMisses] twoMisses
    ⟨fun _ h => absurd h (by decide), fun _ h => absurd h (by decide),
      fun _ h => absurd h (by decide), trivial⟩ ⟨by decide, Or.inl (by decide)⟩⟩

end Choice

end FrailCPU.DCache
