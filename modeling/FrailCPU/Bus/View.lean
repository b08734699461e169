import FrailCPU.Include.Common

/-!
# One side of a cache bus

What an observer of a cache bus sees: a transaction is open from the cycle in which its request
appears until the response says `last`, and every `ready` in between is a beat. The attributes
of a request are held while it is open; the data of a write may change from beat to beat.
-/

namespace FrailCPU

/-- What a request asks for, without the data of its current beat. -/
structure Attributes where
  isWrite : Bool
  size : MSize
  addr : Word
  len : MLen
  deriving DecidableEq

def CBusReq.attributes (r : CBusReq) : Attributes := ⟨r.isWrite, r.size, r.addr, r.len⟩

/-- A beat, with the data of both directions. -/
structure Transfer where
  strobe : Strobe
  wdata : Word
  rdata : Word
  deriving DecidableEq

structure Transaction where
  request : Attributes
  beats : List Transfer := []
  deriving DecidableEq

/-- The transaction after a cycle. -/
def Transaction.add (t : Transaction) (req : CBusReq) (resp : CBusResp) : Transaction :=
  if resp.ready then { t with beats := t.beats ++ [⟨req.strobe, req.data, resp.data⟩] } else t

/-- The transaction that is open, and those that are over. -/
structure BusView where
  now : Option Transaction := none
  done : List Transaction := []

namespace BusView

variable (v : BusView) (req : CBusReq) (resp : CBusResp)

/-- The transaction that is open in a cycle. -/
def opened : Option Transaction :=
  match v.now with
  | some t => some t
  | none => if req.valid then some { request := req.attributes } else none

/-- What has been seen at the end of a cycle. -/
def next : BusView :=
  match v.opened req with
  | none => v
  | some t =>
    if resp.last then { now := none, done := v.done ++ [t.add req resp] }
    else { v with now := some (t.add req resp) }

/-- An open request stays as it is. -/
def Holds : Prop := ∀ t ∈ v.now, req.valid = true ∧ req.attributes = t.request

instance : Decidable (v.Holds req) := inferInstanceAs (Decidable (∀ t ∈ v.now, _))

/-- No beat of the open transaction has come yet. -/
def Waits : Prop := ∀ t ∈ v.now, t.beats = []

variable {v req resp}

theorem waits_of_none (h : v.now = none) : v.Waits := by
  intro t ht
  rw [h] at ht
  cases ht

theorem opened_of_now {t : Transaction} (h : v.now = some t) : v.opened req = some t := by
  rw [opened, h]

/-- A request that is held and has had no beat looks like a new one. -/
theorem opened_of_waits (h : v.Holds req) (hw : v.Waits) (hv : req.valid = true) :
    v.opened req = some { request := req.attributes } := by
  cases hn : v.now with
  | none => rw [opened, hn, if_pos hv]
  | some t =>
      have ht : t = { request := req.attributes } := by
        have hb := hw t hn
        have hr := (h t hn).2
        cases t
        simp only at hb hr
        rw [hb, hr]
      rw [opened_of_now hn, ht]

theorem next_of_opened {t : Transaction} (h : v.opened req = some t) :
    v.next req resp = if resp.last then { now := none, done := v.done ++ [t.add req resp] }
      else { v with now := some (t.add req resp) } := by
  rw [next, h]

theorem next_of_not_opened (h : v.opened req = none) : v.next req resp = v := by
  rw [next, h]

/-- A side that gets no answer goes on waiting. -/
theorem next_silent (hr : resp.ready = false) (hl : resp.last = false) :
    (v.next req resp).done = v.done ∧ (v.next req resp).now = v.opened req := by
  cases ho : v.opened req with
  | none =>
      rw [next_of_not_opened ho]
      refine ⟨rfl, ?_⟩
      rw [opened] at ho
      cases hn : v.now with
      | none => rfl
      | some t =>
          rw [hn] at ho
          cases ho
  | some t =>
      rw [next_of_opened ho, hl, Transaction.add, hr]
      exact ⟨rfl, rfl⟩

theorem Waits.next_silent (h : v.Waits) (hr : resp.ready = false) (hl : resp.last = false) :
    (v.next req resp).Waits := by
  intro t ht
  rw [Option.mem_def, (BusView.next_silent hr hl).2, opened] at ht
  cases hn : v.now with
  | none =>
      rw [hn] at ht
      dsimp only at ht
      split at ht
      · cases ht
        rfl
      · cases ht
  | some u =>
      rw [hn] at ht
      exact h t (hn.trans ht)

end BusView

end FrailCPU
