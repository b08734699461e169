import FrailCPU.Library.Machine

/-!
# The pipe register

`Pipe.sv`: a register between two handshakes, with a buffer behind it, so that `ready_in` comes
from a register and not from `ready_out`. A value goes to the output register, to the buffer, or
from the buffer to the output register, and what is taken in is handed on in order.
-/

namespace FrailCPU

open ClockedMachine

/-- `pack_t`. -/
structure Pack (α : Type) where
  valid : Bool
  data : α

/-- The registers of `Pipe`, as reset leaves them. -/
structure Pipe (α : Type) [Zero α] where
  empty : Bool := true
  buffer : Pack α := ⟨false, 0⟩
  validOut : Bool := false
  dataOut : α := 0

structure PipeInput (α : Type) where
  validIn : Bool
  dataIn : α
  readyOut : Bool

namespace Pipe

variable {α : Type} [Zero α] (s : Pipe α) (i : PipeInput α)

/-- `ready_in`. -/
def readyIn (s : Pipe α) (_ : PipeInput α) : Bool := s.empty

/-- `in`. -/
def packIn (i : PipeInput α) : Pack α := ⟨i.validIn, if i.validIn then i.dataIn else 0⟩

/-- `out`. -/
def packOut : Pack α := if s.empty then packIn i else s.buffer

/-- A clock edge with `resetn` high. -/
def step : Pipe α :=
  if !s.validOut || i.readyOut then
    { s with
      validOut := (s.packOut i).valid
      dataOut := (s.packOut i).data
      empty := true }
  else if i.validIn && s.empty then
    { s with
      buffer := packIn i
      empty := false }
  else s

/-- The value accepted at the input in this cycle. -/
def accepted : List α := if i.validIn && s.readyIn i then [i.dataIn] else []

/-- The value handed over at the output in this cycle. -/
def handedOver : List α := if s.validOut && i.readyOut then [s.dataOut] else []

/-- The values in flight, oldest first. -/
def inFlight : List α :=
  (if s.validOut then [s.dataOut] else []) ++ (if s.empty then [] else [s.buffer.data])

/-- The buffer is in use only behind a value that waits. -/
structure Behind : Prop where
  validOut : s.empty = false → s.validOut = true
  buffer : s.empty = false → s.buffer.valid = true

variable {s i}

theorem behind_reset : ({} : Pipe α).Behind := ⟨fun h => (by cases h), fun h => (by cases h)⟩

/-- A cycle in which the output register is free or is emptied. -/
theorem step_moves (h : (!s.validOut || i.readyOut) = true) :
    s.step i = { s with
      validOut := (s.packOut i).valid
      dataOut := (s.packOut i).data
      empty := true } := if_pos h

/-- A cycle in which the output waits. -/
theorem step_waits (hv : s.validOut = true) (hr : i.readyOut = false) :
    s.step i = if i.validIn && s.empty then
      { s with
        buffer := packIn i
        empty := false } else s := by
  rw [step, hv, hr]
  rfl

theorem Behind.step (h : s.Behind) : (s.step i).Behind := by
  cases hm : !s.validOut || i.readyOut with
  | true =>
    rw [step_moves hm]
    exact ⟨fun he => (by cases he), fun he => (by cases he)⟩
  | false =>
    rw [Bool.or_eq_false_iff, Bool.not_eq_false'] at hm
    rw [step_waits hm.1 hm.2]
    cases ha : i.validIn && s.empty with
    | true =>
      rw [Bool.and_eq_true] at ha
      exact ⟨fun _ => hm.1, fun _ => ha.1⟩
    | false => exact h

/-- A value that waits at the output stays there as it is. -/
theorem output_stable (hv : s.validOut = true) (hr : i.readyOut = false) :
    (s.step i).validOut = true ∧ (s.step i).dataOut = s.dataOut := by
  rw [step_waits hv hr]
  split <;> exact ⟨hv, rfl⟩

/-- What a cycle takes in goes to the end of what is in flight, and what it hands over was in
front. -/
theorem Behind.conserves (h : s.Behind) :
    s.inFlight ++ s.accepted i = s.handedOver i ++ (s.step i).inFlight := by
  cases hm : !s.validOut || i.readyOut with
  | true =>
    rw [step_moves hm]
    cases he : s.empty with
    | true =>
      -- the value goes through to the output register
      cases hv : s.validOut with
      | true =>
        have hr : i.readyOut = true := by rwa [hv, Bool.not_true, Bool.false_or] at hm
        cases hi : i.validIn <;>
          simp [inFlight, accepted, handedOver, readyIn, packOut, packIn, he, hv, hr, hi]
      | false =>
        cases hi : i.validIn <;>
          simp [inFlight, accepted, handedOver, readyIn, packOut, packIn, he, hv, hi]
    | false =>
      -- the buffer follows, and nothing is accepted
      have hv := h.validOut he
      have hb := h.buffer he
      have hr : i.readyOut = true := by rwa [hv, Bool.not_true, Bool.false_or] at hm
      simp [inFlight, accepted, handedOver, readyIn, packOut, he, hv, hr, hb]
  | false =>
    rw [Bool.or_eq_false_iff, Bool.not_eq_false'] at hm
    rw [step_waits hm.1 hm.2]
    cases he : s.empty <;> cases hi : i.validIn <;>
      simp [inFlight, accepted, handedOver, readyIn, packIn, he, hi, hm.1, hm.2]

theorem length_inFlight : s.inFlight.length ≤ 2 := by
  rw [inFlight, List.length_append]
  split <;> split <;> simp

variable (is : List (PipeInput α))

/-- What `Pipe` promises in a state that it reaches, with `done` handed over of what was
`taken`. -/
structure Faithful (s : Pipe α) (taken done : List α) : Prop where
  inOrder : taken = done ++ s.inFlight
  bounded : s.inFlight.length ≤ 2
  stable : ∀ i : PipeInput α, s.validOut = true → i.readyOut = false →
    (s.step i).validOut = true ∧ (s.step i).dataOut = s.dataOut
  independent : ∀ (i : PipeInput α) (b : Bool), s.readyIn { i with readyOut := b } = s.readyIn i

/-- Nothing is lost, doubled or overtaken on the way through the pipe register. -/
theorem pipe_faithful : (run step {} is : Pipe α).Faithful
    (collect step accepted {} is) (collect step handedOver {} is) where
  inOrder := by
    change ({} : Pipe α).inFlight ++ _ = _
    exact collect_conserved (fun _ _ h => Behind.step h) (fun _ _ h => h.conserves)
      behind_reset is
  bounded := length_inFlight
  stable _ := output_stable
  independent _ _ := rfl

end Pipe

end FrailCPU
