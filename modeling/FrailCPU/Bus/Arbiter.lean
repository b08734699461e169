import FrailCPU.Bus.View
import FrailCPU.Library.Machine

/-!
# The arbiter of the cache bus

`MyArbiter.sv`, for any number of clients: the client with the smallest number that asks is
chosen in the states `IDLE` and `JUDGE`, and keeps the bus until the device says `last`. In
`JUDGE` its request goes out in the cycle of the choice itself, before the choice is in the
register. The arbiter is observed together with the buses of all clients and the bus of the
device.
-/

namespace FrailCPU

open ClockedMachine

/-- `state_t` of the arbiter. -/
inductive ArbiterState
  | idle | busy | judge
  deriving DecidableEq

/-- The registers of `MyArbiter` with `n + 1` inputs. -/
structure Arbiter (n : ℕ) where
  state : ArbiterState := .idle
  index : Fin (n + 1) := 0

structure ArbiterInput (n : ℕ) where
  ireqs : Fin (n + 1) → CBusReq
  oresp : CBusResp

namespace Arbiter

variable {n : ℕ} (s : Arbiter n) (i : ArbiterInput n)

def select : Fin (n + 1) :=
  ((List.finRange (n + 1)).find? fun k => (i.ireqs k).valid).getD 0

/-- The client whose request is let through. -/
def granted : Option (Fin (n + 1)) :=
  match s.state with
  | .busy => some s.index
  | .judge => some (select i)
  | .idle => none

def oreq : CBusReq :=
  match s.state with
  | .busy => i.ireqs s.index
  | .judge => i.ireqs (select i)
  | .idle => default

def iresps (k : Fin (n + 1)) : CBusResp :=
  match s.state with
  | .busy => if s.index = k then i.oresp else default
  | .judge => if select i = k then i.oresp else default
  | .idle => default

/-- A clock edge. -/
def next : Arbiter n :=
  match s.state with
  | .busy => if i.oresp.last then { s with state := .judge } else s
  | .idle | .judge =>
    { state := if (i.ireqs (select i)).valid then .busy else .idle
      index := select i }

/-- The bus of the device is that of client `k`, and no other client hears of the answer. -/
def Connects (k : Fin (n + 1)) : Prop :=
  s.oreq i = i.ireqs k ∧ s.iresps i k = i.oresp ∧ ∀ j, j ≠ k → s.iresps i j = default

variable {s i}

theorem connects_of_granted {k : Fin (n + 1)} (h : s.granted i = some k) : s.Connects i k := by
  cases hs : s.state with
  | idle => simp [granted, hs] at h
  | busy =>
      rw [granted, hs] at h
      obtain rfl := Option.some.inj h
      refine ⟨by rw [oreq, hs], by simp [iresps, hs], fun j hj => ?_⟩
      simp [iresps, hs, Ne.symm hj]
  | judge =>
      rw [granted, hs] at h
      obtain rfl := Option.some.inj h
      refine ⟨by rw [oreq, hs], by simp [iresps, hs], fun j hj => ?_⟩
      simp [iresps, hs, Ne.symm hj]

/-- Whoever asks, somebody who asks is chosen. -/
theorem select_valid {k : Fin (n + 1)} (h : (i.ireqs k).valid = true) :
    (i.ireqs (select i)).valid = true := by
  rw [select]
  cases hf : (List.finRange (n + 1)).find? fun k => (i.ireqs k).valid with
  | some j => exact List.find?_some (p := fun k => (i.ireqs k).valid) hf
  | none => exact absurd h (List.find?_eq_none.mp hf k (List.mem_finRange k))

end Arbiter

/-- The arbiter, what is seen on the buses of its clients and on that of the device, and whether
the device said `last` in the cycle before. -/
structure Arbitrated (n : ℕ) where
  arbiter : Arbiter n := {}
  client : Fin (n + 1) → BusView := fun _ => {}
  device : BusView := {}
  ended : Bool := false

namespace Arbitrated

variable {n : ℕ} (s : Arbitrated n) (i : ArbiterInput n)

/-- A clock edge. -/
def step : Arbitrated n where
  arbiter := s.arbiter.next i
  client k := (s.client k).next (i.ireqs k) (s.arbiter.iresps i k)
  device := s.device.next (s.arbiter.oreq i) i.oresp
  ended := i.oresp.last

/-- Every client holds its request. The device answers what is presented, the last beat is a
beat, and in the cycle right after it there is none. -/
structure Lawful : Prop where
  holds : ∀ k, (s.client k).Holds (i.ireqs k)
  presented : i.oresp.ready = true → (s.arbiter.oreq i).valid = true
  polite : i.oresp.last = true → i.oresp.ready = true
  pause : s.ended = true → i.oresp.ready = false

instance : Decidable (s.Lawful i) :=
  decidable_of_iff ((∀ k, (s.client k).Holds (i.ireqs k)) ∧
      (i.oresp.ready = true → (s.arbiter.oreq i).valid = true) ∧
      (i.oresp.last = true → i.oresp.ready = true) ∧ (s.ended = true → i.oresp.ready = false))
    ⟨fun h => ⟨h.1, h.2.1, h.2.2.1, h.2.2.2⟩, fun h => ⟨h.1, h.2, h.3, h.4⟩⟩

/-- The transactions of the device are those of the clients, each one once and whole, and those
of one client in its order. -/
def Interleaves : Prop :=
  ∃ log : List (Fin (n + 1) × Transaction), log.map Prod.snd = s.device.done ∧
    ∀ k, (log.filter fun e => e.1 = k).map Prod.snd = (s.client k).done

/-- What holds between the arbiter and the buses. -/
structure Consistent : Prop where
  log : s.Interleaves
  owner : s.arbiter.state = .busy → ∃ t, (s.client s.arbiter.index).now = some t ∧
    (s.device.now = some t ∨ s.device.now = none ∧ t.beats = [])
  free : s.arbiter.state ≠ .busy → s.device.now = none
  judge : s.arbiter.state = .judge → s.ended = true
  waits : ∀ k, (s.arbiter.state = .busy → s.arbiter.index ≠ k) → (s.client k).Waits

/-- The service of the clients, in a state and in the cycle that follows it. -/
structure Serves : Prop where
  log : s.Interleaves
  /-- The transaction on the bus of the device is that of one client, which stays connected. -/
  owner : ∀ t ∈ s.device.now, ∃ k, (s.client k).now = some t ∧
    (∀ j, j ≠ k → (s.client j).Waits) ∧ ∀ i, s.Lawful i → s.arbiter.Connects i k
  /-- Between two transactions no request has had a beat. -/
  between : s.device.now = none → ∀ k, (s.client k).Waits
  /-- A new transaction is that of a client that asks. -/
  begins : ∀ i, s.Lawful i → s.device.now = none → (s.arbiter.oreq i).valid = true →
    ∃ k, (i.ireqs k).valid = true ∧ s.arbiter.Connects i k
  /-- Without a transaction nobody is answered. -/
  silent : ∀ i, s.Lawful i → (s.arbiter.oreq i).valid = false →
    ∀ k, (s.arbiter.iresps i k).ready = false ∧ (s.arbiter.iresps i k).last = false
  /-- When somebody asks, a transaction is on the bus in this cycle or in the next one. -/
  prompt : ∀ i i', s.Lawful i → (s.step i).Lawful i' → (∃ k, (i.ireqs k).valid = true) →
    (s.arbiter.oreq i).valid = true ∨ ((s.step i).arbiter.oreq i').valid = true

variable {s i}

theorem consistent_reset : ({} : Arbitrated n).Consistent where
  log := ⟨[], rfl, fun _ => rfl⟩
  owner h := by cases h
  free _ := rfl
  judge h := by cases h
  waits _ _ := BusView.waits_of_none rfl

/-- The client that is let through sees what the device sees, and the others see nothing. -/
theorem step_of_granted {k : Fin (n + 1)} (hg : s.arbiter.granted i = some k) :
    (s.step i).device = s.device.next (i.ireqs k) i.oresp ∧
      (s.step i).client k = (s.client k).next (i.ireqs k) i.oresp ∧
      ∀ j, j ≠ k → (s.step i).client j = (s.client j).next (i.ireqs j) default := by
  obtain ⟨ho, hk, hj⟩ := Arbiter.connects_of_granted hg
  refine ⟨?_, ?_, fun j hne => ?_⟩
  · change s.device.next _ _ = _
    rw [ho]
  · change (s.client k).next _ _ = _
    rw [hk]
  · change (s.client j).next _ _ = _
    rw [hj j hne]

theorem step_of_not_granted (hg : s.arbiter.granted i = none) :
    s.arbiter.state = .idle ∧ ∀ j, (s.step i).client j = (s.client j).next (i.ireqs j) default := by
  have hs : s.arbiter.state = .idle := by
    cases hs : s.arbiter.state with
    | idle => rfl
    | busy => simp [Arbiter.granted, hs] at hg
    | judge => simp [Arbiter.granted, hs] at hg
  refine ⟨hs, fun j => ?_⟩
  change (s.client j).next _ _ = _
  rw [Arbiter.iresps, hs]

theorem Lawful.last_eq_false (hl : s.Lawful i) (hr : i.oresp.ready = false) :
    i.oresp.last = false := by
  rw [Bool.eq_false_iff]
  intro hlast
  rw [hl.polite hlast] at hr
  cases hr

theorem Lawful.silent_of_invalid (hl : s.Lawful i) (hv : (s.arbiter.oreq i).valid = false) :
    i.oresp.ready = false ∧ i.oresp.last = false := by
  have hr : i.oresp.ready = false := by
    rw [Bool.eq_false_iff]
    intro hr
    rw [hl.presented hr] at hv
    cases hv
  exact ⟨hr, hl.last_eq_false hr⟩

theorem silent_of_idle (hl : s.Lawful i) (hs : s.arbiter.state = .idle) :
    i.oresp.ready = false ∧ i.oresp.last = false := by
  apply hl.silent_of_invalid
  rw [Arbiter.oreq, hs]
  rfl

/-- When the device is silent, so is the arbiter. -/
theorem iresps_silent (hr : i.oresp.ready = false) (hl : i.oresp.last = false)
    (k : Fin (n + 1)) :
    (s.arbiter.iresps i k).ready = false ∧ (s.arbiter.iresps i k).last = false := by
  rw [Arbiter.iresps]
  split
  · split
    · exact ⟨hr, hl⟩
    · exact ⟨rfl, rfl⟩
  · split
    · exact ⟨hr, hl⟩
    · exact ⟨rfl, rfl⟩
  · exact ⟨rfl, rfl⟩

section Step

variable (h : s.Consistent) (hl : s.Lawful i)

include h hl

/-- In `JUDGE` the device is silent. -/
theorem Consistent.silent_of_judge (hs : s.arbiter.state = .judge) :
    i.oresp.ready = false ∧ i.oresp.last = false :=
  ⟨hl.pause (h.judge hs), hl.last_eq_false (hl.pause (h.judge hs))⟩

/-- The connected client and the device see the same transaction. -/
theorem Consistent.opened_eq {k : Fin (n + 1)} (hg : s.arbiter.granted i = some k) :
    (s.client k).opened (i.ireqs k) = s.device.opened (i.ireqs k) := by
  have fresh (hd : s.device.now = none) (hw : (s.client k).Waits) :
      (s.client k).opened (i.ireqs k) = s.device.opened (i.ireqs k) := by
    cases hv : (i.ireqs k).valid with
    | true =>
        rw [BusView.opened_of_waits (hl.holds k) hw hv,
          BusView.opened_of_waits (fun t ht => by rw [hd] at ht; cases ht)
            (BusView.waits_of_none hd) hv]
    | false =>
        have hn : (s.client k).now = none := by
          cases hn : (s.client k).now with
          | none => rfl
          | some t =>
              rw [(hl.holds k t hn).1] at hv
              cases hv
        rw [BusView.opened, BusView.opened, hn, hd]
  cases hs : s.arbiter.state with
  | idle => simp [Arbiter.granted, hs] at hg
  | judge =>
      exact fresh (h.free (by rw [hs]; decide)) (h.waits k fun hb => by rw [hs] at hb; cases hb)
  | busy =>
      rw [Arbiter.granted, hs] at hg
      obtain rfl := Option.some.inj hg
      obtain ⟨t, hc, hd | ⟨hd, hb⟩⟩ := h.owner hs
      · rw [BusView.opened_of_now hc, BusView.opened_of_now hd]
      · refine fresh hd fun u hu => ?_
        rw [hc] at hu
        obtain rfl := Option.some.inj hu
        exact hb

omit hl in
/-- Nothing is presented in `IDLE`. -/
theorem Consistent.device_of_idle (hs : s.arbiter.state = .idle) :
    (s.step i).device = s.device := by
  have hn := h.free (by rw [hs]; decide)
  have ho : s.device.opened (s.arbiter.oreq i) = none := by
    rw [BusView.opened, hn, Arbiter.oreq, hs]
    rfl
  exact BusView.next_of_not_opened ho

theorem Consistent.interleaves_step : (s.step i).Interleaves := by
  obtain ⟨log, hdev, hcl⟩ := h.log
  have silent (v : BusView) (r : CBusReq) : (v.next r default).done = v.done :=
    (BusView.next_silent rfl rfl).1
  cases hg : s.arbiter.granted i with
  | none =>
      obtain ⟨hs, hc⟩ := step_of_not_granted hg
      refine ⟨log, by rw [h.device_of_idle hs, hdev], fun j => ?_⟩
      rw [hc j, silent, hcl]
  | some k =>
      obtain ⟨hd, hk, hj⟩ := step_of_granted hg
      have ho := h.opened_eq hl hg
      -- the log grows when the transaction is over
      by_cases hend : ∃ t, s.device.opened (i.ireqs k) = some t ∧ i.oresp.last = true
      · obtain ⟨t, hopen, hlast⟩ := hend
        refine ⟨log ++ [(k, t.add (i.ireqs k) i.oresp)], ?_, fun j => ?_⟩
        · rw [List.map_append, hdev, hd, BusView.next_of_opened hopen, if_pos hlast]
          rfl
        · rw [List.filter_append, List.map_append, hcl]
          by_cases hjk : j = k
          · subst hjk
            rw [hk, BusView.next_of_opened (ho.trans hopen), if_pos hlast]
            simp
          · rw [hj j hjk, silent]
            simp [Ne.symm hjk]
      · have keep (v : BusView) (hv : v.opened (i.ireqs k) = s.device.opened (i.ireqs k)) :
            (v.next (i.ireqs k) i.oresp).done = v.done := by
          cases hopen : s.device.opened (i.ireqs k) with
          | none => rw [BusView.next_of_not_opened (hv.trans hopen)]
          | some t =>
              rw [BusView.next_of_opened (hv.trans hopen), if_neg fun hx => hend ⟨t, hopen, hx⟩]
        refine ⟨log, by rw [hd, keep _ rfl, hdev], fun j => ?_⟩
        by_cases hjk : j = k
        · subst hjk
          rw [hk, keep _ ho, hcl]
        · rw [hj j hjk, silent, hcl]

/-- The chosen client, when it asks, has its transaction open from the cycle of the choice on. -/
theorem Consistent.chosen (hs : s.arbiter.state ≠ .busy)
    (hv : (i.ireqs (Arbiter.select i)).valid = true) :
    ∃ t, ((s.step i).client (Arbiter.select i)).now = some t ∧
      ((s.step i).device.now = some t ∨ (s.step i).device.now = none ∧ t.beats = []) := by
  have hfree := h.free hs
  have hwaits := h.waits (Arbiter.select i) fun hb => absurd hb hs
  have hopen := BusView.opened_of_waits (hl.holds _) hwaits hv
  cases hst : s.arbiter.state with
  | busy => exact absurd hst hs
  | idle =>
      have hg : s.arbiter.granted i = none := by rw [Arbiter.granted, hst]
      obtain ⟨-, hc⟩ := step_of_not_granted hg
      refine ⟨{ request := (i.ireqs (Arbiter.select i)).attributes }, ?_, Or.inr ⟨?_, rfl⟩⟩
      · rw [hc, (BusView.next_silent rfl rfl).2, hopen]
      · rw [h.device_of_idle hst, hfree]
  | judge =>
      have hg : s.arbiter.granted i = some (Arbiter.select i) := by rw [Arbiter.granted, hst]
      obtain ⟨hd, hk, -⟩ := step_of_granted hg
      obtain ⟨hr, hlast⟩ := h.silent_of_judge hl hst
      refine ⟨{ request := (i.ireqs (Arbiter.select i)).attributes }, ?_, Or.inl ?_⟩
      · rw [hk, (BusView.next_silent hr hlast).2, hopen]
      · rw [hd, (BusView.next_silent hr hlast).2, ← h.opened_eq hl hg, hopen]

/-- The cycle of a choice. -/
theorem Consistent.step_of_choice (hs : s.arbiter.state ≠ .busy) : (s.step i).Consistent := by
  have hnext : (s.step i).arbiter =
      { state := if (i.ireqs (Arbiter.select i)).valid then .busy else .idle
        index := Arbiter.select i } := by
    change s.arbiter.next i = _
    rw [Arbiter.next]
    cases hst : s.arbiter.state with
    | busy => exact absurd hst hs
    | idle => rfl
    | judge => rfl
  have hquiet : i.oresp.ready = false ∧ i.oresp.last = false := by
    cases hst : s.arbiter.state with
    | busy => exact absurd hst hs
    | idle => exact silent_of_idle hl hst
    | judge => exact h.silent_of_judge hl hst
  refine ⟨h.interleaves_step hl, fun hb => ?_, fun hb => ?_, fun hj => ?_, fun k _ => ?_⟩
  · rw [hnext] at hb ⊢
    refine h.chosen hl hs ?_
    by_contra hv
    rw [if_neg hv] at hb
    cases hb
  · have hv : (i.ireqs (Arbiter.select i)).valid = false := by
      rw [Bool.eq_false_iff]
      intro hv
      rw [hnext, if_pos hv] at hb
      exact hb rfl
    have ho : s.device.opened (s.arbiter.oreq i) = none := by
      rw [BusView.opened, h.free hs, Arbiter.oreq]
      cases hst : s.arbiter.state with
      | busy => exact absurd hst hs
      | idle => rfl
      | judge => exact if_neg (Bool.eq_false_iff.mp hv)
    change (s.device.next _ _).now = none
    rw [BusView.next_of_not_opened ho, h.free hs]
  · rw [hnext] at hj
    dsimp only at hj
    split at hj <;> cases hj
  · have hsil := iresps_silent (s := s) hquiet.1 hquiet.2 k
    exact (h.waits k fun hb => absurd hb hs).next_silent hsil.1 hsil.2

/-- A cycle of a transaction. -/
theorem Consistent.step_of_busy (hs : s.arbiter.state = .busy) : (s.step i).Consistent := by
  have hg : s.arbiter.granted i = some s.arbiter.index := by rw [Arbiter.granted, hs]
  obtain ⟨hd, hk, hj⟩ := step_of_granted hg
  obtain ⟨t, hc, -⟩ := h.owner hs
  have hopen : (s.client s.arbiter.index).opened (i.ireqs s.arbiter.index) = some t :=
    BusView.opened_of_now hc
  have hopen' := (h.opened_eq hl hg).symm.trans hopen
  have hothers (j : Fin (n + 1)) (hne : j ≠ s.arbiter.index) : ((s.step i).client j).Waits := by
    rw [hj j hne]
    exact (h.waits j fun _ => Ne.symm hne).next_silent rfl rfl
  have hnext : (s.step i).arbiter =
      if i.oresp.last then { s.arbiter with state := .judge } else s.arbiter := by
    change s.arbiter.next i = _
    rw [Arbiter.next, hs]
  rw [BusView.next_of_opened hopen'] at hd
  rw [BusView.next_of_opened hopen] at hk
  cases hlast : i.oresp.last with
  | true =>
      rw [hlast, if_pos rfl] at hd hk hnext
      refine ⟨h.interleaves_step hl, fun hb => ?_, fun _ => by rw [hd], fun _ => hlast,
        fun j _ => ?_⟩
      · rw [hnext] at hb
        cases hb
      · by_cases hne : j = s.arbiter.index
        · subst hne
          exact BusView.waits_of_none (by rw [hk])
        · exact hothers j hne
  | false =>
      rw [hlast, if_neg Bool.false_ne_true] at hd hk hnext
      refine ⟨h.interleaves_step hl, fun _ => ?_, fun hb => ?_, fun hb => ?_, fun j hne => ?_⟩
      · rw [hnext]
        exact ⟨_, by rw [hk], Or.inl (by rw [hd])⟩
      · rw [hnext] at hb
        exact absurd hs hb
      · rw [hnext, hs] at hb
        cases hb
      · rw [hnext] at hne
        exact hothers j (Ne.symm (hne hs))

theorem Consistent.step : (s.step i).Consistent := by
  by_cases hs : s.arbiter.state = .busy
  · exact h.step_of_busy hl hs
  · exact h.step_of_choice hl hs

end Step

/-- A client that has the bus asks for it. -/
theorem Consistent.valid_of_busy (h : s.Consistent) (hl : s.Lawful i)
    (hs : s.arbiter.state = .busy) : (s.arbiter.oreq i).valid = true := by
  obtain ⟨t, hc, -⟩ := h.owner hs
  rw [Arbiter.oreq, hs]
  exact (hl.holds _ t hc).1

theorem Consistent.serves (h : s.Consistent) : s.Serves where
  log := h.log
  owner t ht := by
    have hs : s.arbiter.state = .busy := by
      by_contra hs
      rw [h.free hs] at ht
      cases ht
    obtain ⟨u, hc, hd⟩ := h.owner hs
    have hu : s.device.now = some u := by
      rcases hd with hd | ⟨hd, -⟩
      · exact hd
      · rw [hd] at ht
        cases ht
    rw [hu] at ht
    obtain rfl := Option.some.inj ht
    refine ⟨s.arbiter.index, hc, fun j hne => h.waits j fun _ => Ne.symm hne, fun i _ => ?_⟩
    exact Arbiter.connects_of_granted (by rw [Arbiter.granted, hs])
  between hn k := by
    by_cases hk : s.arbiter.state = .busy ∧ s.arbiter.index = k
    · obtain ⟨hs, rfl⟩ := hk
      obtain ⟨t, hc, hd | ⟨-, hb⟩⟩ := h.owner hs
      · rw [hn] at hd
        cases hd
      · intro u hu
        rw [hc] at hu
        obtain rfl := Option.some.inj hu
        exact hb
    · exact h.waits k fun hs hx => hk ⟨hs, hx⟩
  begins i hl _ hv := by
    cases hg : s.arbiter.granted i with
    | none =>
        obtain ⟨hs, -⟩ := step_of_not_granted hg
        rw [Arbiter.oreq, hs] at hv
        cases hv
    | some k =>
        have hc := Arbiter.connects_of_granted hg
        rw [hc.1] at hv
        exact ⟨k, hv, hc⟩
  silent i hl hv k := by
    have hq := hl.silent_of_invalid hv
    exact iresps_silent hq.1 hq.2 k
  prompt i i' hl hl' := by
    rintro ⟨k, hk⟩
    have hv := Arbiter.select_valid hk
    cases hs : s.arbiter.state with
    | busy => exact Or.inl (h.valid_of_busy hl hs)
    | judge =>
        left
        rw [Arbiter.oreq, hs]
        exact hv
    | idle =>
        right
        refine (h.step hl).valid_of_busy hl' ?_
        change (s.arbiter.next i).state = _
        rw [Arbiter.next, hs, if_pos hv]

/-- The arbiter serves every client's transaction whole and once, whatever the clients ask for
and whenever the device answers. -/
theorem arbiter_serves (is : List (ArbiterInput n)) (h : Along step Lawful {} is) :
    (run step {} is : Arbitrated n).Serves := by
  have hc : (run step {} is : Arbitrated n).Consistent :=
    h.invariant (fun _ _ hc hl => hc.step hl) consistent_reset
  exact hc.serves

/-- A read of one word at `a`. -/
def readWord (a : Word) : CBusReq := ⟨true, false, .size4, a, 0#4, 0#32, mlen1⟩

/-- Two clients ask together, the first one is answered, and the second one has a request on the
bus in the next cycle. -/
def twoReads : List (ArbiterInput 1) :=
  [⟨![readWord 0x40#32, readWord 0x80#32], default⟩,
    ⟨![readWord 0x40#32, readWord 0x80#32], ⟨true, true, 7#32⟩⟩,
    ⟨![default, readWord 0x80#32], default⟩]

theorem arbiter_serves_two :
    (run step {} twoReads : Arbitrated 1).device.done.length = 1 ∧
      (run step {} twoReads : Arbitrated 1).Serves :=
  ⟨by decide, arbiter_serves twoReads (by decide)⟩

end Arbitrated

end FrailCPU
