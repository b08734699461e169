import FrailCPU.Bus.CBusArbiter
import FrailCPU.RefCpu.Port
import FrailCPU.Verilate.CBusDevice

/-!
# The bus that the clients of `VTop` share

The arbiter, `AddressTranslator` behind it, and the device of the test bench. A client that holds
its request, and has the greatest number of those that ask while the arbiter is free, is served
beat by beat and the others hear nothing.
-/

namespace FrailCPU.RefCpu

open Verilate

/-- The request behind `AddressTranslator`. -/
def translated (req : CBusReq) : CBusReq := { req with addr := translate req.addr }

structure SharedBus (n : ℕ) where
  arbiter : CBusArbiter n := {}
  device : CBusDevice

namespace SharedBus

variable {n : ℕ} (b : SharedBus n) (ireqs : Fin (n + 1) → CBusReq) (enable : Bool)

def input : ArbiterInput n := ⟨ireqs, b.device.evalResp enable⟩

def treq : CBusReq := b.arbiter.oreq (b.input ireqs enable)

def iresps (k : Fin (n + 1)) : CBusResp := b.arbiter.iresps (b.input ireqs enable) k

def next : SharedBus n where
  arbiter := b.arbiter.next (b.input ireqs enable)
  device := b.device.next enable (translated (b.treq ireqs enable))

/-- Client `k` has the bus, for a request that is at a beat. -/
structure Held (k : Fin (n + 1)) (req : CBusReq) (j : ℕ) : Prop where
  busy : b.arbiter.busy = true
  index : b.arbiter.index = k
  under : b.device.Under (translated req) j

structure Free : Prop where
  arbiter : b.arbiter.busy = false
  device : b.device.tx.busy = false

/-- The request has the bus, or the bus is free for it. -/
def Open (k : Fin (n + 1)) (req : CBusReq) (j : ℕ) : Prop :=
  b.Held k req j ∨ b.Free ∧ j = 0

/-- What a cycle of the bus does for a request of client `k`. -/
structure Serves (b' : SharedBus n) (k : Fin (n + 1)) (req : CBusReq) (j : ℕ)
    (resp : CBusResp) : Prop where
  beats : CBusDevice.Beats b.device.mem (AxiTransaction.beat (translated req) j).addr
    (translated req) j resp b'.device.mem
  silent : resp.ready = false → b'.Held k req j
  beat : resp.ready = true → j < req.len.toNat → b'.Held k req (j + 1)
  last : resp.ready = true → j = req.len.toNat → b'.Free
  others : ∀ l, l ≠ k → b.iresps ireqs enable l = default

variable {b ireqs enable} {k : Fin (n + 1)} {req req' : CBusReq} {j : ℕ}

theorem translated_attributes (ha : req'.attributes = req.attributes) :
    (translated req').attributes = (translated req).attributes := by
  simp only [CBusReq.attributes, Attributes.mk.injEq] at ha
  simp only [CBusReq.attributes, translated, ha.1, ha.2.1, ha.2.2.1, ha.2.2.2]

theorem Held.congr (h : b.Held k req j) (ha : req'.attributes = req.attributes) :
    b.Held k req' j where
  busy := h.busy
  index := h.index
  under := h.under.congr (translated_attributes ha)

theorem Open.congr (h : b.Open k req j) (ha : req'.attributes = req.attributes) :
    b.Open k req' j :=
  h.imp (fun h => h.congr ha) id

theorem Free.iresps (h : b.Free) (l : Fin (n + 1)) : b.iresps ireqs enable l = default :=
  CBusArbiter.iresps_of_free h.arbiter l

/-- A bus that is free hands no request on. -/
theorem Free.device_next (h : b.Free) : (b.next ireqs enable).device = b.device := by
  refine CBusDevice.next_of_free h.device ?_
  rw [translated, treq, CBusArbiter.oreq, h.arbiter]
  rfl

theorem Free.next (h : b.Free) (hs : ∀ l, (ireqs l).valid = false) :
    (b.next ireqs enable).Free where
  arbiter := by
    change (b.arbiter.next (b.input ireqs enable)).busy = false
    rw [CBusArbiter.next_of_free _ h.arbiter]
    exact hs _
  device := by rw [h.device_next, h.device]

theorem Held.iresps (h : b.Held k req j) :
    b.iresps ireqs enable k = b.device.evalResp enable := by
  rw [SharedBus.iresps, CBusArbiter.iresps_of_busy h.busy, if_pos h.index]
  rfl

theorem Held.treq (h : b.Held k req j) (hk : ireqs k = req) : b.treq ireqs enable = req := by
  rw [SharedBus.treq, CBusArbiter.oreq, h.busy, h.index]
  exact hk

theorem Held.device_next (h : b.Held k req j) (hk : ireqs k = req) :
    (b.next ireqs enable).device = b.device.next enable (translated req) := by
  rw [← h.treq hk]
  rfl

/-- The client that has the bus is served. -/
theorem Held.serves (h : b.Held k req j) (hk : ireqs k = req) (hv : req.valid = true)
    (hb : j ≤ req.len.toNat) :
    b.Serves ireqs enable (b.next ireqs enable) k req j (b.iresps ireqs enable k) := by
  have hbeats := h.under.beats enable hb
  have hd : (b.next ireqs enable).device = _ := h.device_next hk
  have ha : (b.next ireqs enable).arbiter =
      if (b.device.evalResp enable).last then { b.arbiter with busy := false }
      else b.arbiter := CBusArbiter.next_of_busy _ h.busy
  rw [h.iresps]
  refine ⟨hd ▸ hbeats, fun hr => ?_, fun hr hlt => ?_, fun hr heq => ?_, fun l hl => ?_⟩
  · rw [(hbeats.silent hr).1] at ha
    refine ⟨ha ▸ h.busy, ha ▸ h.index, ?_⟩
    rw [hd]
    exact h.under.next_silent hv hr
  · rw [hbeats.last hr, decide_eq_false (show j ≠ (translated req).len.toNat from hlt.ne)] at ha
    refine ⟨ha ▸ h.busy, ha ▸ h.index, ?_⟩
    rw [hd]
    exact h.under.next_beat hlt hr
  · rw [hbeats.last hr, decide_eq_true (show j = (translated req).len.toNat from heq)] at ha
    refine ⟨by rw [ha]; rfl, ?_⟩
    rw [hd]
    have hu : b.device.Under (translated req) (translated req).len.toNat := heq ▸ h.under
    exact hu.next_last hr
  · rw [SharedBus.iresps, CBusArbiter.iresps_of_busy h.busy, if_neg]
    rw [h.index]
    exact Ne.symm hl

/-- The device finds nothing to object to. -/
theorem Held.sane (h : b.Held k req j) (hk : ireqs k = req) (hv : req.valid = true)
    (hb : b.device.tx.busy = true) :
    b.device.Sane (translated (b.treq ireqs enable)) := by
  rw [h.treq hk]
  exact h.under.sane hv hb

/-- A free bus takes the request that has the greatest number. -/
theorem Free.serves (h : b.Free) (hk : ireqs k = req) (hv : req.valid = true)
    (ho : ∀ l, k < l → (ireqs l).valid = false) :
    b.Serves ireqs enable (b.next ireqs enable) k req 0 (b.iresps ireqs enable k) := by
  have hresp : b.iresps ireqs enable k = default := h.iresps k
  have hsel : CBusArbiter.select (b.input ireqs enable) = k :=
    CBusArbiter.select_eq ((congrArg _ hk).trans hv) ho
  rw [hresp]
  have hready : (default : CBusResp).ready = false := rfl
  refine ⟨?_, fun _ => ⟨?_, ?_, ?_⟩, fun hr => ?_, fun hr => ?_, fun l _ => h.iresps l⟩
  · rw [h.device_next]
    exact ⟨fun _ => ⟨rfl, rfl⟩, fun hr => absurd hr Bool.false_ne_true,
      fun hr => absurd hr Bool.false_ne_true, fun hr => absurd hr Bool.false_ne_true⟩
  · change (b.arbiter.next (b.input ireqs enable)).busy = true
    rw [CBusArbiter.next_of_free _ h.arbiter, hsel]
    exact (congrArg _ hk).trans hv
  · change (b.arbiter.next (b.input ireqs enable)).index = k
    rw [CBusArbiter.next_of_free _ h.arbiter, hsel]
  · rw [h.device_next]
    exact CBusDevice.under_of_not_busy h.device
  · exact absurd hr Bool.false_ne_true
  · exact absurd hr Bool.false_ne_true

theorem Open.sane (h : b.Open k req j) (hk : ireqs k = req) (hv : req.valid = true)
    (hb : b.device.tx.busy = true) : b.device.Sane (translated (b.treq ireqs enable)) := by
  rcases h with h | ⟨h, -⟩
  · exact h.sane hk hv hb
  · rw [h.device] at hb
    cases hb

variable (enable) in
theorem Open.serves (h : b.Open k req j) (hk : ireqs k = req) (hv : req.valid = true)
    (hb : j ≤ req.len.toNat)
    (ho : b.arbiter.busy = false → ∀ l, k < l → (ireqs l).valid = false) :
    b.Serves ireqs enable (b.next ireqs enable) k req j (b.iresps ireqs enable k) := by
  rcases h with h | ⟨h, rfl⟩
  · exact h.serves hk hv hb
  · exact h.serves hk hv (ho h.arbiter)

/-- The enabled cycles that a burst of a line still takes. -/
def burst (b : SharedBus n) : ℕ := if b.arbiter.busy then b.device.burst else 18

theorem Free.burst (h : b.Free) : b.burst = 18 := by
  rw [SharedBus.burst, h.arbiter]
  rfl

theorem Held.burst (h : b.Held k req j) : b.burst = b.device.burst := if_pos h.busy

variable (enable) in
/-- The last beat of a burst takes one enabled cycle, and any other enabled cycle counts. -/
theorem Open.burst_next (h : b.Open k req j) (hk : ireqs k = req) (hv : req.valid = true)
    (hj : j ≤ 15) (hl : req.len = 15#4)
    (ho : b.arbiter.busy = false → ∀ l, k < l → (ireqs l).valid = false) :
    if (b.iresps ireqs enable k).ready = true ∧ j = 15 then b.burst = 1
    else (b.next ireqs enable).burst + (if enable then 1 else 0) ≤ b.burst := by
  have hlen : req.len.toNat = 15 := by
    rw [hl]
    rfl
  have hs := h.serves enable hk hv (hlen.symm ▸ hj) ho
  rcases h with h | ⟨h, rfl⟩
  · have hb : ¬ ((b.iresps ireqs enable k).ready = true ∧ j = 15) →
        (b.next ireqs enable).burst = (b.next ireqs enable).device.burst := by
      intro hc
      cases hr : (b.iresps ireqs enable k).ready with
      | false => exact (hs.silent hr).burst
      | true =>
        have hne : j ≠ 15 := fun hj => hc ⟨hr, hj⟩
        exact (hs.beat hr (by omega)).burst
    rw [h.burst]
    cases enable with
    | false =>
      have hr : (b.iresps ireqs false k).ready = false := by
        rw [h.iresps]
        rfl
      have hc : ¬ ((b.iresps ireqs false k).ready = true ∧ j = 15) := by simp [hr]
      rw [if_neg hc, hb hc, h.device_next hk]
      exact le_rfl
    | true =>
      have hd := h.under.burst_next hv hj hl
      rw [← h.device_next hk, ← h.iresps] at hd
      split
      case isTrue hc =>
        rw [if_pos hc] at hd
        exact hd
      case isFalse hc =>
        rw [if_neg hc] at hd
        rw [hb hc]
        exact hd.le
  · have hr : (b.iresps ireqs enable k).ready = false := by
      rw [h.iresps]
      rfl
    have hb : (b.next ireqs enable).burst = 17 := by
      rw [(hs.silent hr).burst, h.device_next, CBusDevice.burst_of_free h.device]
    rw [if_neg (by simp [hr]), hb, h.burst]
    cases enable <;> decide

end SharedBus

end FrailCPU.RefCpu
