import FrailCPU.DCache.Victim
import FrailCPU.Library.Recency

/-!
# The replaced way and the order of accesses

Beside the cache stands the log of the accesses of all pairs so far, the older request of a
pair first. The replacement bit of a set is meant to name the way that was not used last. It
is written for a hit in every cycle in which the pair is held and for a miss with the last
beat of the refill, and the update for the younger request replaces the one for the older
request in the same cycle.
-/

namespace FrailCPU.DCache

open ClockedMachine Recency

/-- The ways of a set. -/
def ways (k : Index) : Set Slot := {x | x.index = k}

instance (k : Index) : DecidablePred (· ∈ ways k) := fun x =>
  inferInstanceAs (Decidable (x.index = k))

/-- A set has two ways. -/
theorem leastRecent_other {log : List Slot} (k : Index) (w : Way) :
    LeastRecent (log ++ [⟨w, k⟩]) (ways k) ⟨!w, k⟩ := by
  refine leastRecent_of_pair rfl (fun y hy => ?_) (fun h => ?_)
  · obtain ⟨v, j⟩ := y
    obtain rfl : j = k := hy
    cases v <;> cases w <;> simp
  · have hw : (!w) = w := congrArg Slot.line h
    exact Bool.not_eq_self w |>.mp hw

namespace State

variable (s : State) (i : Input)

/-- The line of the data RAM that the request of `p` uses. -/
def uses (p : Port) : Option Slot :=
  if s.cacheHandle.cacheOper = .req ∧ s.performs p = true then some (s.accessAddr p).slot
  else none

/-- The accesses of the pair. -/
def accesses : List Slot := (s.uses .one).toList ++ (s.uses .two).toList

/-- The accesses of the pair in front of that of `p`. -/
def earlier : Port → List Slot
  | .one => []
  | .two => (s.uses .one).toList

/-- The other request of the pair hits the set in which `p` misses. -/
def HitsBeside (p : Port) : Prop := s.indexEqual = true ∧ s.processCacheHit p.other = true

/-- A miss replaces the way of its set whose last access is older, or one that was never
accessed. -/
def ReplacesOldest (log : List Slot) : Prop :=
  ∀ p, s.Refills p → ¬ s.HitsBeside p →
    LeastRecent (log ++ s.earlier p) (ways (s.index p)) (s.victim p)

/-- The pair in the latch does not lose an update of the replacement bits, and no request that
does not access the cache decides about a victim. -/
structure Fair : Prop where
  /-- Of two hits in different sets only the younger one writes its bit. -/
  both : s.processCacheHit .one = true → s.processCacheHit .two = true →
    s.index .one ≠ s.index .two → s.plru (s.index .one) = !(s.cacheHandle.side .one).hitLine
  /-- The bit of a hit is written again after the refill of the younger request. -/
  beside : s.processCacheHit .one = true → s.misses .two = true → s.index .one ≠ s.index .two
  /-- The end of the refill of the older request is lost when the younger one hits. -/
  across : s.misses .one = true → s.processCacheHit .two = true → s.index .one = s.index .two
  /-- The address of a request that is not valid or not cached hits the set of a miss. -/
  foreign : ∀ p, s.Refills p → s.indexEqual = true → (s.cacheHandle.side p.other).hit = true →
    s.processCacheHit p.other = false →
    s.plru (s.index p) = !(s.cacheHandle.side p.other).hitLine

/-- No request of the pair hits in the set. -/
def Quiet (k : Index) : Prop := ∀ p, s.processCacheHit p = true → s.index p ≠ k

/-- The line of a refill that is over. -/
def refilled (p : Port) : Option Slot :=
  if s.misses p = true ∧ s.ends.fetch p = true ∧ s.fsm.state ≠ .fetch p then some (s.missSlot p)
  else none

/-- The bits of the sets in which the pair does not hit are right, with the refills of the pair
that are over. -/
def Recalls (log : List Slot) : Prop :=
  ∀ k, s.Quiet k →
    LeastRecent (log ++ (s.refilled .one).toList ++ (s.refilled .two).toList) (ways k)
      ⟨s.plru k, k⟩

section Bits

variable {s i} {k : Index} {p : Port}

theorem performs_of_hit (h : s.processCacheHit p = true) :
    s.performs p = true ∧ (s.cacheHandle.side p).hit = true := by
  simp only [processCacheHit, Bool.and_eq_true] at h
  rw [performs, h.1.2, h.2]
  exact ⟨rfl, h.1.1⟩

theorem performs_of_misses (h : s.misses p = true) :
    s.performs p = true ∧ (s.cacheHandle.side p).hit = false := by
  refine ⟨?_, hit_of_misses h⟩
  simp only [misses, Bool.and_eq_true] at h
  rw [performs, h.1.1.1, h.1.2]
  rfl

theorem hit_iff_of_performs (h : s.performs p = true) :
    s.processCacheHit p = (s.cacheHandle.side p).hit := by
  rw [performs, Bool.and_eq_true] at h
  rw [processCacheHit, h.1, h.2, Bool.and_true, Bool.and_true]

/-- Without the end of a refill the bits of the other sets stay. -/
theorem plruNew_of_quiet (hq : s.Quiet k)
    (hl : ∀ p, ¬ (s.fsm.state = .fetch p ∧ i.dcresp.last = true)) :
    s.plruNew i k = s.plru k := by
  have hne (p : Port) (h : s.processCacheHit p = true) : (s.index p == k) = false :=
    beq_eq_false_iff_ne.mpr (hq p h)
  simp only [plruNew, if_neg (hl .one), if_neg (hl .two)]
  split
  · rw [hne .two (by assumption)]
    rfl
  · split
    · rw [hne .one (by assumption)]
      rfl
    · rfl

/-- The end of a refill writes the bit of its set. -/
theorem plruNew_of_refill (hf : s.Fair) (hq : s.Quiet k) (hm : s.misses p = true)
    (hs : s.fsm.state = .fetch p) (hl : i.dcresp.last = true) :
    s.plruNew i k = if s.index p = k then !s.processReplaceLine p else s.plru k := by
  have hp := not_processCacheHit hm
  cases p with
  | two => simp [plruNew, hp, hs, hl]
  | one =>
      simp only [plruNew, hp, hs, hl]
      split
      · -- the update is lost, but in the set of the hit
        rename_i h2
        have hne := hq .two h2
        rw [hf.across hm h2, if_neg hne, if_neg (by rwa [beq_iff_eq])]
      · simp

/-- In the cycle of the accesses the bits are written for hits only. -/
theorem plruNew_of_idle (hi : s.fsm.state = .idle) :
    s.plruNew i k =
      if s.processCacheHit .two then
        if s.index .two = k then !(s.cacheHandle.side .two).hitLine else s.plru k
      else if s.processCacheHit .one then
        if s.index .one = k then !(s.cacheHandle.side .one).hitLine else s.plru k
      else s.plru k := by
  simp [plruNew, hi]

end Bits

section Waits

variable {s i} {before : Index → Meta} {p : Port} {log : List Slot}

theorem refilled_eq_some (hm : s.misses p = true) (hf : s.ends.fetch p = true)
    (hs : s.fsm.state ≠ .fetch p) : s.refilled p = some (s.missSlot p) := if_pos ⟨hm, hf, hs⟩

theorem refilled_eq_none (h : s.ends.fetch p = false ∨ s.fsm.state = .fetch p) :
    s.refilled p = none := by
  refine if_neg fun hx => ?_
  rcases h with h | h
  · rw [hx.2.1] at h
    cases h
  · exact hx.2.2 h

/-- A refill that ends joins those that are over. -/
theorem refilled_of_last (h : s.Sound before) (hb : s.Busy) (hp : Polite i)
    (hs : s.fsm.state = .fetch p) (hl : i.dcresp.last = true) :
    (s.next i).refilled p = some ⟨s.processReplaceLine p, s.index p⟩ := by
  obtain ⟨hm, -, -⟩ := h.phase.misses_of_fetch hs
  have hh := next_cacheHandle (i := i) hb.en
  have hidle := hb.fetch_last hs hl hp
  have hends : (s.next i).ends.fetch p = true := by rw [hb.ends_fetch, hs, beq_self_eq_true]; rfl
  have hway : (s.next i).missWay p = s.processReplaceLine p := by
    rw [missWay_next h.phase hb hp hm fun _ hx => ?_, missWay_eq (Or.inr hs)]
    rw [hs] at hx
    cases p <;> cases hx
  rw [refilled_eq_some (by rw [misses_congr hh, hm]) hends ?_, missSlot, hway, index_congr hh]
  rw [hidle]
  exact fun hx => by cases hx

theorem refilled_of_more (h : s.Sound before) (hb : s.Busy) (hp : Polite i)
    (hn : ¬ (s.fsm.state = .fetch p ∧ i.dcresp.last = true)) :
    (s.next i).refilled p = s.refilled p := by
  have hh := next_cacheHandle (i := i) hb.en
  have hends := hb.ends_fetch (i := i) p
  by_cases hs : s.fsm.state = .fetch p
  · have hl : i.dcresp.last = false := by simpa [hs] using hn
    rw [refilled_eq_none (Or.inr hs), refilled_eq_none (Or.inr (hb.fetch_more hs hl))]
  · rw [show (s.fsm.state == .fetch p) = false by simpa using hs, Bool.false_or] at hends
    cases hf : s.ends.fetch p with
    | false => rw [refilled_eq_none (Or.inl hf), refilled_eq_none (Or.inl (hends.trans hf))]
    | true =>
        have hm := h.snapshot.fetched p hf
        have hne : (s.next i).fsm.state ≠ .fetch p := by
          intro hn
          rcases h.phase.fetch_next hb hn with hn | hn
          · exact hs hn
          · rw [hf] at hn
            cases hn
        have hway := missWay_next (i := i) h.phase hb hp hm fun hx => by rw [hf] at hx; cases hx
        rw [refilled_eq_some hm hf hs, refilled_eq_some (by rw [misses_congr hh, hm])
          (hends.trans hf) hne, missSlot, missSlot, hway, index_congr hh]

theorem quiet_next (hen : s.en = false) {k : Index} (hq : (s.next i).Quiet k) : s.Quiet k := by
  intro p hp
  have hh := next_cacheHandle (i := i) hen
  have hp' : (s.next i).processCacheHit p = true := by
    rw [processCacheHit, req, hh]
    exact hp
  rw [← index_congr hh]
  exact hq p hp'

/-- A cycle in which the pair is held. -/
theorem Recalls.next_waits (hr : s.Recalls log) (h : s.Sound before) (hb : s.Busy)
    (hp : Polite i) (hf : s.Fair) : (s.next i).Recalls log := by
  intro k hq'
  have hq : s.Quiet k := quiet_next hb.en hq'
  have hplru : (s.next i).plru k = s.plruNew i k := by simp [State.next, hb.oper]
  have hr' := hr k hq
  rw [hplru]
  by_cases hl : ∃ p, s.fsm.state = .fetch p ∧ i.dcresp.last = true
  · obtain ⟨p, hs, hl⟩ := hl
    obtain ⟨hm, ht, -⟩ := h.phase.misses_of_fetch hs
    have hself := refilled_of_last h hb hp hs hl
    have h2 : s.refilled .two = none := by
      cases p with
      | one => exact refilled_eq_none (Or.inl (Untouched.fetch ht))
      | two => exact refilled_eq_none (Or.inr hs)
    -- the refill is the last access of its set so far
    have hlast (log : List Slot) (hold : LeastRecent log (ways k) ⟨s.plru k, k⟩) :
        LeastRecent (log ++ [⟨s.processReplaceLine p, s.index p⟩]) (ways k)
          ⟨if s.index p = k then !s.processReplaceLine p else s.plru k, k⟩ := by
      split
      · rename_i hk
        rw [hk]
        exact leastRecent_other k _
      · rename_i hk
        exact hold.congr (by simp [ways, hk])
    rw [plruNew_of_refill hf hq hm hs hl]
    rw [h2, Option.toList_none, List.append_nil] at hr'
    cases p with
    | one =>
        rw [refilled_eq_none (Or.inr hs), Option.toList_none, List.append_nil] at hr'
        rw [hself, refilled_of_more (p := .two) h hb hp (by simp [hs]), h2]
        exact (hlast _ hr').congr (by simp)
    | two =>
        rw [hself, refilled_of_more (p := .one) h hb hp (by simp [hs])]
        exact hlast _ hr'
  · rw [plruNew_of_quiet hq fun p hx => hl ⟨p, hx⟩, refilled_of_more h hb hp fun hx => hl ⟨_, hx⟩,
      refilled_of_more h hb hp fun hx => hl ⟨_, hx⟩]
    exact hr'

end Waits

section Accesses

variable {s i} {before : Index → Meta} {p : Port} {k : Index} {log : List Slot}

theorem uses_of_hit (ho : s.cacheHandle.cacheOper = .req) (h : s.processCacheHit p = true) :
    s.uses p = some (s.hitSlot p) := by
  obtain ⟨hv, hh⟩ := performs_of_hit h
  rw [uses, if_pos ⟨ho, hv⟩, accessAddr_of_hit hh]

theorem uses_of_misses (ho : s.cacheHandle.cacheOper = .req) (h : s.misses p = true) :
    s.uses p = some ⟨s.replaceLineReg p, s.index p⟩ := by
  obtain ⟨hv, hh⟩ := performs_of_misses h
  rw [uses, if_pos ⟨ho, hv⟩, accessAddr_of_miss hh]

theorem refilled_of_over (hm : s.misses p = true) (hf : s.ends.fetch p = true)
    (hs : s.fsm.state ≠ .fetch p) : s.refilled p = some ⟨s.replaceLineReg p, s.index p⟩ := by
  have hway : s.missWay p = s.replaceLineReg p := by
    rw [missWay, hf, Bool.true_and, if_pos (by simpa using hs)]
  rw [refilled_eq_some hm hf hs, missSlot, hway]

/-- In a set without hits the accesses are the refills, except for a request that shares the
line of the other one. -/
theorem uses_of_quiet (ho : s.cacheHandle.cacheOper = .req) (hq : s.Quiet k)
    (hm : s.misses p = true → s.ends.fetch p = true ∧ s.fsm.state ≠ .fetch p)
    (hs : s.performs p = true → (s.cacheHandle.side p).hit = false → s.misses p = true) :
    (s.uses p).toList.filter (· ∈ ways k) = (s.refilled p).toList.filter (· ∈ ways k) := by
  cases hx : s.misses p with
  | true => rw [uses_of_misses ho hx, refilled_of_over hx (hm hx).1 (hm hx).2]
  | false =>
      have hr : s.refilled p = none := if_neg fun h => by rw [hx] at h; cases h.1
      rw [hr]
      cases hh : s.processCacheHit p with
      | true =>
          have hne := hq p hh
          rw [uses_of_hit ho hh]
          simp [ways, hitSlot, hne]
      | false =>
          have hn : s.uses p = none := by
            refine if_neg fun h => ?_
            rw [hit_iff_of_performs h.2] at hh
            rw [hs h.2 hh] at hx
            cases hx
          rw [hn]

theorem uses_of_ne (h : s.index p ≠ k) : (s.uses p).toList.filter (· ∈ ways k) = [] := by
  have hi : (s.accessAddr p).slot.index = s.index p := by
    rw [accessAddr]
    dsimp only
    split <;> rfl
  rw [uses]
  split
  · simp [ways, hi, h]
  · rfl

/-- A younger request beside a hit does not share its line and miss. -/
theorem misses_of_hit_one (h : s.Sound before) (h1 : s.processCacheHit .one = true)
    (hv : s.performs .two = true) (hh : (s.cacheHandle.side .two).hit = false) :
    s.misses .two = true := by
  by_contra hm
  obtain ⟨-, hsl⟩ := sameLine_of_performs hv hh (Bool.eq_false_iff.mpr hm)
  have hline := (hit_of_line_eq h.snapshot (line_of_sameLine hsl)).1
  rw [(performs_of_hit h1).2, hh] at hline
  cases hline

/-- A younger request that shares the line of a miss uses it again. -/
theorem uses_of_shared (h : s.Sound before) (hen : s.en = true)
    (ho : s.cacheHandle.cacheOper = .req) (hv : s.performs .two = true)
    (hh : (s.cacheHandle.side .two).hit = false) (hm : s.misses .two = false) :
    s.misses .one = true ∧ s.uses .two = s.uses .one := by
  obtain ⟨-, hsl⟩ := sameLine_of_performs hv hh hm
  have hline := line_of_sameLine hsl
  have hindex : s.index .one = s.index .two := congrArg Prod.snd hline
  have hm1 : s.misses .one = true := by
    have hh1 : (s.cacheHandle.side .one).hit = false := by
      rw [(hit_of_line_eq h.snapshot hline).1, hh]
    simp only [sameLine, Bool.and_eq_true, Bool.not_eq_true'] at hsl
    rw [misses, hsl.1.2, hsl.2, hh1]
    rfl
  refine ⟨hm1, ?_⟩
  rw [uses_of_misses ho hm1, uses, if_pos ⟨ho, hv⟩, accessAddr_of_miss hh,
    (twin_slot h hen hv hsl hh).2, hindex]

/-- In the cycle of the accesses every refill is over. -/
theorem over_of_misses (h : s.Sound before) (hen : s.en = true) (hm : s.misses p = true) :
    s.ends.fetch p = true ∧ s.fsm.state ≠ .fetch p := by
  obtain ⟨hv, hh⟩ := performs_of_misses hm
  rw [performs, Bool.and_eq_true] at hv
  refine ⟨((h.phase.served_of_miss hen hv.1 hh).2 p).fetch hm, ?_⟩
  rw [(h.phase.accepts hen).idle]
  exact fun hx => by cases hx

/-- Beside a hit of the older request the younger one uses another set, unless it hits. -/
theorem uses_two_of_hit_one (h : s.Sound before) (hf : s.Fair)
    (h1 : s.processCacheHit .one = true)
    (h2 : s.processCacheHit .two = true → s.index .two ≠ s.index .one) :
    (s.uses .two).toList.filter (· ∈ ways (s.index .one)) = [] := by
  by_cases hk : s.index .two = s.index .one
  · rw [uses, if_neg]
    · rfl
    · rintro ⟨-, hv⟩
      have hh : (s.cacheHandle.side .two).hit = false := by
        rw [← hit_iff_of_performs hv]
        exact Bool.eq_false_iff.mpr fun hx => h2 hx hk
      exact hf.beside h1 (misses_of_hit_one h h1 hv hh) hk.symm
  · exact uses_of_ne hk

/-- The bit of a hit of the older request is written, or is right already. -/
theorem plruNew_of_hit_one (hf : s.Fair) (hi : s.fsm.state = .idle)
    (h1 : s.processCacheHit .one = true)
    (h2 : s.processCacheHit .two = true → s.index .two ≠ s.index .one) :
    s.plruNew i (s.index .one) = !(s.cacheHandle.side .one).hitLine := by
  rw [plruNew_of_idle hi, h1, if_pos rfl, if_pos rfl]
  split
  · rename_i hx
    rw [if_neg (h2 hx)]
    exact hf.both h1 hx (h2 hx).symm
  · rfl

/-- In a set without hits the accesses leave the order that the refills have made. -/
theorem Recalls.accesses_of_quiet (hr : s.Recalls log) (h : s.Sound before) (hen : s.en = true)
    (ho : s.cacheHandle.cacheOper = .req) (hq : s.Quiet k) :
    LeastRecent (log ++ (s.uses .one).toList ++ (s.uses .two).toList) (ways k)
      ⟨s.plru k, k⟩ := by
  have hone := uses_of_quiet (p := .one) ho hq (over_of_misses h hen) fun hv hh => by
    by_contra hm
    cases (sameLine_of_performs hv hh (Bool.eq_false_iff.mpr hm)).1
  by_cases hs : s.performs .two = true ∧ (s.cacheHandle.side .two).hit = false ∧
      s.misses .two = false
  · obtain ⟨hm1, huses⟩ := uses_of_shared h hen ho hs.1 hs.2.1 hs.2.2
    obtain ⟨hf1, hs1⟩ := over_of_misses h hen hm1
    have hnone : s.refilled .two = none := if_neg fun hx => by
      rw [hs.2.2] at hx
      cases hx.1
    have hr' := hr k hq
    rw [hnone, refilled_of_over hm1 hf1 hs1, Option.toList_none, List.append_nil] at hr'
    rw [huses, uses_of_misses ho hm1]
    exact hr'.again
  · have htwo := uses_of_quiet (p := .two) ho hq (over_of_misses h hen) fun hv hh => by
      by_contra hm
      exact hs ⟨hv, hh, Bool.eq_false_iff.mpr hm⟩
    refine (hr k hq).congr ?_
    simp only [List.filter_append, hone, htwo]

/-- The bits are right for the log with the accesses of the pair. -/
theorem Recalls.accesses (hr : s.Recalls log) (h : s.Sound before) (hen : s.en = true)
    (ho : s.cacheHandle.cacheOper = .req) (hf : s.Fair) (k : Index) :
    LeastRecent (log ++ s.accesses) (ways k) ⟨s.plruNew i k, k⟩ := by
  have hi := (h.phase.accepts hen).idle
  rw [State.accesses, ← List.append_assoc]
  by_cases h2 : s.processCacheHit .two = true ∧ s.index .two = k
  · -- the younger request hits last
    rw [plruNew_of_idle hi, if_pos h2.1, if_pos h2.2, uses_of_hit ho h2.1, hitSlot, h2.2]
    exact leastRecent_other k _
  by_cases h1 : s.processCacheHit .one = true ∧ s.index .one = k
  · -- the older request hits, and the younger one is in another set
    obtain ⟨h1, rfl⟩ := h1
    have h2' : s.processCacheHit .two = true → s.index .two ≠ s.index .one :=
      fun hx hk => h2 ⟨hx, hk⟩
    have hlast : LeastRecent (log ++ [s.hitSlot .one]) (ways (s.index .one))
        ⟨!(s.cacheHandle.side .one).hitLine, s.index .one⟩ := leastRecent_other _ _
    rw [plruNew_of_hit_one hf hi h1 h2', uses_of_hit ho h1]
    refine hlast.congr ?_
    rw [List.filter_append, uses_two_of_hit_one h hf h1 h2', List.append_nil]
    rfl
  · have hq : s.Quiet k := by
      intro p hp hk
      cases p with
      | one => exact h1 ⟨hp, hk⟩
      | two => exact h2 ⟨hp, hk⟩
    rw [plruNew_of_quiet hq fun p hx => by rw [hi] at hx; cases hx.1]
    exact hr.accesses_of_quiet h hen ho hq

/-- Where the machine stands in a miss of `p`. -/
theorem turn_of_refills (h : s.Sound before) (hs : s.Refills p) :
    s.misses p = true ∧ s.Turn p ∧ (s.ends.fetch p = false ∨ s.fsm.state = .fetch p) ∧
      ∀ q, q ≠ p → s.fsm.state ≠ .fetch q := by
  rcases hs with hs | hs
  · obtain ⟨hm, ht, -⟩ := h.phase.misses_of_fetch hs
    refine ⟨hm, ht, Or.inr hs, fun q hq hx => ?_⟩
    rw [hs] at hx
    cases hx
    exact hq rfl
  · obtain ⟨hm, ht, -, hx⟩ := h.phase.misses_of_writeback hs
    refine ⟨hm, ht, Or.inl hx, fun q _ hx => ?_⟩
    rw [hs] at hx
    cases hx

/-- What a refill replaces. -/
theorem Recalls.replacesOldest (hr : s.Recalls log) (h : s.Sound before)
    (ho : s.cacheHandle.cacheOper = .req) (hf : s.Fair) : s.ReplacesOldest log := by
  intro p hs hb
  obtain ⟨hm, ht, hown, hother⟩ := turn_of_refills h hs
  have hq : s.Quiet (s.index p) := by
    intro q hq hk
    by_cases hqp : q = p
    · rw [hqp, not_processCacheHit hm] at hq
      cases hq
    · have hqo : q = p.other := by
        cases p <;> cases q <;> first | rfl | exact absurd rfl hqp
      rw [hqo] at hq hk
      refine hb ⟨?_, hq⟩
      rw [indexEqual, beq_iff_eq]
      cases p with
      | one => exact hk.symm
      | two => exact hk
  have hway : s.victim p = ⟨s.plru (s.index p), s.index p⟩ := by
    rw [victim, processReplaceLine]
    split
    · rename_i hx
      rw [Bool.and_eq_true] at hx
      rw [hf.foreign p hs hx.1 hx.2]
      exact Bool.eq_false_iff.mpr fun hy => hb ⟨hx.1, hy⟩
    · rfl
  have hr' := hr _ hq
  rw [hway]
  cases p with
  | one =>
      rw [refilled_eq_none hown, refilled_eq_none (Or.inl (Untouched.fetch ht)),
        Option.toList_none, List.append_nil, List.append_nil] at hr'
      exact hr'.congr (by simp [earlier])
  | two =>
      rw [refilled_eq_none hown, Option.toList_none, List.append_nil] at hr'
      have hone := uses_of_quiet (p := .one) ho hq
        (fun hm1 => ⟨Served.fetch ht hm1, hother .one (by simp)⟩) fun hv hh => by
          by_contra hm1
          cases (sameLine_of_performs hv hh (Bool.eq_false_iff.mpr hm1)).1
      refine hr'.congr ?_
      rw [earlier, List.filter_append, List.filter_append, hone]

end Accesses

end State

/-- The cache on its bus, with the accesses of the pairs that it has done with. -/
structure Usage where
  watch : Watch := {}
  log : List Slot := []

namespace Usage

variable (u : Usage) (o : Offer)

def cache : State := u.watch.cache

/-- A clock edge. The pair in the latch has its accesses in the cycle in which the next one is
taken. -/
def step : Usage where
  watch := u.watch.step o
  log := if u.cache.en then u.log ++ u.cache.accesses else u.log

/-- The pair in the latch is fair to the replacement bits. -/
structure Heeds : Prop where
  alone : u.watch.Alone o
  fair : u.cache.cacheHandle.cacheOper = .req → u.cache.Fair

/-- What every clock edge keeps. -/
structure Ordered : Prop where
  guarded : u.watch.Guarded
  sound : u.cache.cacheHandle.cacheOper = .req → ∀ p, (u.cache.req p).valid = true →
    ∃ before, u.cache.Sound before
  recalls : u.cache.cacheHandle.cacheOper = .req → u.cache.Recalls u.log
  rest : u.cache.cacheHandle.cacheOper ≠ .req → ∀ k,
    LeastRecent u.log (ways k) ⟨u.cache.plru k, k⟩

theorem ordered_reset : ({} : Usage).Ordered where
  guarded := Watch.guarded_reset
  sound h := by cases h
  recalls h := by cases h
  rest _ _ := leastRecent_nil rfl

variable {u o}

/-- A pair without a request has no access, and the bits stay. -/
theorem Ordered.done_of_none (h : u.Ordered) (he : u.cache.en = true)
    (ho : u.cache.cacheHandle.cacheOper = .req) (hv : ∀ p, (u.cache.req p).valid = false)
    {i : Input} (k : Index) :
    LeastRecent (u.log ++ u.cache.accesses) (ways k) ⟨u.cache.plruNew i k, k⟩ := by
  have hi : u.cache.fsm.state = .idle := h.guarded.idle he
  have hq : u.cache.Quiet k := by
    intro p hp
    simp only [State.processCacheHit, hv p, Bool.and_false, Bool.false_and] at hp
    cases hp
  have huses (p : Port) : u.cache.uses p = none := if_neg fun hx => by
    rw [State.performs, hv p] at hx
    cases hx.2
  have hrefilled (p : Port) : u.cache.refilled p = none := if_neg fun hx => by
    rw [State.misses, hv p] at hx
    cases hx.1
  have hr := h.recalls ho k hq
  rw [hrefilled, hrefilled, Option.toList_none, List.append_nil, List.append_nil] at hr
  have hfetch (p : Port) (hx : u.cache.fsm.state = .fetch p ∧ i.dcresp.last = true) : False := by
    rw [hi] at hx
    cases hx.1
  rw [State.accesses, huses, huses, Option.toList_none, List.append_nil, List.append_nil,
    State.plruNew_of_quiet hq hfetch]
  exact hr

/-- The bits after the accesses of what is in the latch. -/
theorem Ordered.done (h : u.Ordered) (hc : u.Heeds o) (he : u.cache.en = true) (k : Index) :
    LeastRecent (u.log ++ u.cache.accesses) (ways k) ⟨(u.step o).cache.plru k, k⟩ := by
  by_cases ho : u.cache.cacheHandle.cacheOper = .req
  · have hplru : (u.step o).cache.plru = u.cache.plruNew (u.watch.service.input o) :=
      if_pos (beq_iff_eq.mpr ho)
    rw [hplru]
    by_cases hv : ∃ p, (u.cache.req p).valid = true
    · obtain ⟨p, hv⟩ := hv
      obtain ⟨_, hs⟩ := h.sound ho p hv
      exact (h.recalls ho).accesses hs he ho (hc.fair ho) k
    · exact h.done_of_none he ho (fun p => Bool.eq_false_iff.mpr fun hx => hv ⟨p, hx⟩) k
  · have hplru : (u.step o).cache.plru = u.cache.plru := if_neg fun hx => ho (beq_iff_eq.mp hx)
    have huses (p : Port) : u.cache.uses p = none := if_neg fun hx => ho hx.1
    rw [hplru, State.accesses, huses, huses, Option.toList_none, List.append_nil, List.append_nil]
    exact h.rest ho k

/-- A request that is taken. -/
theorem Ordered.sound_of_accept (h : u.Ordered) (hc : u.Heeds o) (he : u.cache.en = true)
    (ho : (u.step o).cache.cacheHandle.cacheOper = .req) {p : Port}
    (hv : ((u.step o).cache.req p).valid = true) :
    ∃ before, (u.step o).cache.Sound before := by
  have hcache : (u.step o).cache.cacheHandle = u.cache.handleNext (u.watch.service.input o) :=
    if_pos he
  rw [State.req, hcache] at hv
  exact ⟨_, h.guarded.sound_of_accept he hc.alone ho hv⟩

theorem Ordered.step_accept (h : u.Ordered) (hc : u.Heeds o) (he : u.cache.en = true) :
    (u.step o).Ordered := by
  have hlog : (u.step o).log = u.log ++ u.cache.accesses := if_pos he
  refine ⟨h.guarded.step hc.alone, fun ho p hv => h.sound_of_accept hc he ho hv, fun _ k _ => ?_,
    fun _ k => ?_⟩
  · have hnone (p : Port) : (u.step o).cache.refilled p = none :=
      State.refilled_eq_none
        (Or.inl (State.untouched_next (h.guarded.idle he) (h.guarded.marks he) p).fetch)
    rw [hlog, hnone, hnone, Option.toList_none, List.append_nil, List.append_nil]
    exact h.done hc he k
  · rw [hlog]
    exact h.done hc he k

theorem Ordered.step_waits (h : u.Ordered) (hc : u.Heeds o) (he : u.cache.en = false) :
    (u.step o).Ordered where
  guarded := h.guarded.step hc.alone
  sound ho p _ := by
    have hh : (u.step o).cache.cacheHandle = u.cache.cacheHandle := State.next_cacheHandle he
    rw [hh] at ho
    exact ⟨_, h.guarded.sound_step he ho⟩
  recalls ho := by
    have hh : (u.step o).cache.cacheHandle = u.cache.cacheHandle := State.next_cacheHandle he
    rw [hh] at ho
    have hlog : (u.step o).log = u.log := if_neg (by rw [he]; exact Bool.false_ne_true)
    rw [hlog]
    exact (h.recalls ho).next_waits (h.guarded.serving he ho).sound (h.guarded.busy he ho)
      (Watch.polite_input (w := u.watch) (o := o)) (hc.fair ho)
  rest ho k := by
    have hh : (u.step o).cache.cacheHandle = u.cache.cacheHandle := State.next_cacheHandle he
    rw [hh] at ho
    have hlog : (u.step o).log = u.log := if_neg (by rw [he]; exact Bool.false_ne_true)
    have hplru : (u.step o).cache.plru = u.cache.plru := if_neg fun hx => ho (beq_iff_eq.mp hx)
    rw [hlog, hplru]
    exact h.rest ho k

theorem Ordered.step (h : u.Ordered) (hc : u.Heeds o) : (u.step o).Ordered := by
  cases he : u.cache.en with
  | true => exact h.step_accept hc he
  | false => exact h.step_waits hc he

/-- A miss is served as a request of a pair. -/
theorem serving_of_refills {w : Watch} (h : w.Guarded) {p : Port} (hs : w.cache.Refills p) :
    w.cache.cacheHandle.cacheOper = .req ∧ w.Serving := by
  have ha := h.attentive.attends
  rw [State.Attends] at ha
  rcases hs with hs | hs
  all_goals
    rw [show w.service.cache.fsm.state = _ from hs] at ha
    exact ⟨ha.2, h.serving ha.1 ha.2⟩

/-- In every run whose pairs are fair to the replacement bits, a miss in a set that the other
request does not hit replaces the way whose last access is older. -/
theorem oldest_replaced (os : List Offer) (o : Offer) (h : Along step Heeds {} (os ++ [o])) :
    (run step {} os).cache.ReplacesOldest (run step {} os).log := by
  obtain ⟨hos, ho, -⟩ := (along_append _ _ _ _ _).mp h
  have hu : (run step {} os : Usage).Ordered :=
    hos.invariant (fun _ _ hu hc => hu.step hc) ordered_reset
  intro p hs
  obtain ⟨hoper, hserving⟩ := serving_of_refills hu.guarded hs
  exact (hu.recalls hoper).replacesOldest hserving.sound hoper (ho.fair hoper) p hs

/-! Two loads of different lines in one set, and what a hit beside a miss leads to. -/

def loadOf (x : Word) : DBusReq := ⟨true, x, .size4, 0#4, 0#32⟩

def offerPair (one two : DBusReq) : Offer where
  dreq
    | .one => one
    | .two => two
  isUncached _ := false
  cacheInst := .unknown
  tagLo := 0#32
  ready := true
  data := 0#32

/-- A pair, and the cycles of one refill. -/
def missOf (one two : DBusReq) : List Offer :=
  offerPair one two :: List.replicate 17 (offerPair default default)

/-- A line goes to the first way of its set, and another one to the second way. -/
def twoLines : List Offer :=
  missOf (loadOf 0x1040#32) default ++ [offerPair (loadOf 0x2040#32) default]

instance (s : State) : Decidable s.Fair :=
  decidable_of_iff
    ((s.processCacheHit .one = true → s.processCacheHit .two = true →
        s.index .one ≠ s.index .two →
        s.plru (s.index .one) = !(s.cacheHandle.side .one).hitLine) ∧
      (s.processCacheHit .one = true → s.misses .two = true → s.index .one ≠ s.index .two) ∧
      (s.misses .one = true → s.processCacheHit .two = true → s.index .one = s.index .two) ∧
      ∀ p ∈ [Port.one, Port.two], (s.fsm.state = .fetch p ∨ s.fsm.state = .writeback p) →
        s.indexEqual = true → (s.cacheHandle.side p.other).hit = true →
        s.processCacheHit p.other = false →
        s.plru (s.index p) = !(s.cacheHandle.side p.other).hitLine)
    ⟨fun h => ⟨h.1, h.2.1, h.2.2.1, fun p => h.2.2.2 p (by cases p <;> simp)⟩,
      fun h => ⟨h.both, h.beside, h.across, fun p _ => h.foreign p⟩⟩

instance (u : Usage) (o : Offer) : Decidable (u.Heeds o) :=
  decidable_of_iff (u.watch.Alone o ∧ (u.cache.cacheHandle.cacheOper = .req → u.cache.Fair))
    ⟨fun h => ⟨h.1, h.2⟩, fun h => ⟨h.alone, h.fair⟩⟩

theorem oldest_replaced_second :
    (run step {} (twoLines ++ [offerPair default default])).cache.fsm.state = .fetch .one ∧
      (run step {} (twoLines ++ [offerPair default default])).cache.ReplacesOldest
        (run step {} (twoLines ++ [offerPair default default])).log :=
  ⟨by decide +kernel, oldest_replaced (twoLines ++ [offerPair default default])
    (offerPair default default) (by decide +kernel)⟩

/-- Two lines in one set and one in another set. A pair hits the line that was filled first and
the one of the other set, and then a load misses in the first set. -/
def lostUpdate : List Offer :=
  missOf (loadOf 0x1040#32) default ++ missOf (loadOf 0x2040#32) default ++
    missOf (loadOf 0x80#32) default ++
    [offerPair (loadOf 0x1040#32) (loadOf 0x80#32), offerPair (loadOf 0x3040#32) default,
      offerPair default default]

/-- The line that was hit just before is replaced, and not the one that was filled second. -/
theorem not_oldest_replaced :
    ¬ (run step {} lostUpdate).cache.ReplacesOldest (run step {} lostUpdate).log := by
  intro h
  have hl := h .one (Or.inl (by decide +kernel)) (fun hb => absurd hb.2 (by decide +kernel))
  have ho : Older _ _ _ := hl.oldest ⟨true, 1#6⟩ (by decide +kernel)
  exact absurd ho (by decide +kernel)

end Usage

end FrailCPU.DCache
