import FrailCPU.Bp.Bht
import FrailCPU.Library.Machine

/-!
# Learning a constant branch

A branch is predicted by its entry, executed, and the entry is trained with `branch_taken`, which
is raised when the prediction was wrong. So the closed loop does not feed back the outcome: a
correct prediction is trained as not taken, whatever the branch does. A branch that is always
taken is never learned, and one that is never taken is learned from the entries that are found
here.
-/

namespace FrailCPU

open ClockedMachine

/-- `branch_taken` of a branch tells that the prediction was wrong. -/
theorem branchTakenOf_of_branch {d : IssueData} (h : d.ctl.Coherent) (hb : d.ctl.branch = true)
    (rd : Operands) : branchTakenOf d rd = (d.preB ^^ branchConditionOf d rd) := by
  have hr : d.ctl.refetches = false := by
    refine (h.transfers_plain ?_).2.2.2.1
    rw [Control.transfers, hb, Bool.true_or]
  rw [Control.refetches, Bool.or_eq_false_iff] at hr
  rw [branchTakenOf, h.branch_jump hb, hb, hr.1, hr.2]
  cases d.preB <;> cases branchConditionOf d rd <;> rfl

namespace History

/-- An execution with the outcome `taken`. -/
def train (taken : Bool) (h : History) : History := h.write (h.predicts ^^ taken) true

/-- The entries from which a constant branch is learned: those of a branch that is never taken,
with the counter 0 low enough, or the counter 1 low enough while the counter 0 falls. -/
def Settles (h : History) (taken : Bool) : Prop :=
  taken = false ∧
    ((h.bhr = false ∧ (h.counter0 < 2#2 ∨ h.counter0 = 2#2 ∧ h.counter1 = 0#2)) ∨
      (h.bhr = true ∧ h.counter1 < 2#2 ∧ (h.counter0 ≤ 2#2 ∨ h.counter1 = 0#2)))

/-- The entry predicts not taken, and goes on. -/
def Quiet (h : History) : Prop := h.bhr = false ∧ h.counter0 < 2#2

/-- The entry predicts taken, and goes on. -/
def Stuck (h : History) : Prop := h.bhr = true ∧ 2#2 ≤ h.counter1

instance (h : History) (taken : Bool) : Decidable (h.Settles taken) := by
  unfold Settles
  infer_instance

instance (h : History) : Decidable h.Quiet := by
  unfold Quiet
  infer_instance

instance (h : History) : Decidable h.Stuck := by
  unfold Stuck
  infer_instance

variable {h : History}

/-- A statement about all entries. -/
theorem forall_of_fields {P : History → Prop} (hp : ∀ b c d, P ⟨b, c, d⟩) (h : History) : P h :=
  hp h.bhr h.counter0 h.counter1

theorem Quiet.train : h.Quiet → (train false h).Quiet ∧ h.predicts = false := by
  refine forall_of_fields (P := fun h => h.Quiet → (History.train false h).Quiet ∧ h.predicts = false)
    ?_ h
  decide

theorem Stuck.train : h.Stuck → (train false h).Stuck ∧ h.predicts = true := by
  refine forall_of_fields (P := fun h => h.Stuck → (History.train false h).Stuck ∧ h.predicts = true)
    ?_ h
  decide

theorem quiet_of_settles : h.Settles false → ((train false)^[3] h).Quiet := by
  refine forall_of_fields (P := fun h => h.Settles false → ((History.train false)^[3] h).Quiet) ?_ h
  decide

theorem stuck_of_not_settles : ¬ h.Settles false → ((train false)^[3] h).Stuck := by
  refine forall_of_fields (P := fun h => ¬ h.Settles false → ((History.train false)^[3] h).Stuck) ?_ h
  decide

/-- A branch that is always taken is predicted wrongly again and again. -/
theorem exists_not_predicts (h : History) : ∃ n < 5, ((train true)^[n] h).predicts = false := by
  refine forall_of_fields (P := fun h => ∃ n < 5, ((History.train true)^[n] h).predicts = false) ?_ h
  decide

theorem Quiet.iterate (hq : h.Quiet) (n : ℕ) : ((History.train false)^[n] h).Quiet := by
  induction n with
  | zero => exact hq
  | succ n ih =>
      rw [Function.iterate_succ_apply']
      exact ih.train.1

theorem Stuck.iterate (hs : h.Stuck) (n : ℕ) : ((History.train false)^[n] h).Stuck := by
  induction n with
  | zero => exact hs
  | succ n ih =>
      rw [Function.iterate_succ_apply']
      exact ih.train.1

/-- After three executions the prediction is the outcome for good. -/
theorem predicts_of_settles {taken : Bool} (hs : h.Settles taken) {n : ℕ} (hn : 3 ≤ n) :
    ((train taken)^[n] h).predicts = taken := by
  obtain rfl := hs.1
  obtain ⟨m, rfl⟩ := Nat.exists_eq_add_of_le' hn
  rw [Function.iterate_add_apply]
  exact (((quiet_of_settles hs).iterate m).train).2

/-- Without it there is no number of executions from which on the prediction is the outcome. -/
theorem exists_ne_of_not_settles {taken : Bool} (hs : ¬ h.Settles taken) (n : ℕ) :
    ∃ m, n ≤ m ∧ ((train taken)^[m] h).predicts ≠ taken := by
  cases taken with
  | true =>
      obtain ⟨m, -, hm⟩ := exists_not_predicts ((train true)^[n] h)
      rw [← Function.iterate_add_apply] at hm
      exact ⟨m + n, Nat.le_add_left n m, by rw [hm]; exact Bool.false_ne_true⟩
  | false =>
      refine ⟨n + 3, Nat.le_add_right n 3, ?_⟩
      rw [Function.iterate_add_apply, (((stuck_of_not_settles hs).iterate n).train).2]
      exact Bool.noConfusion

end History

namespace Bht

variable (s : Bht) (pc : Word) (taken : Bool)

/-- The branch at `pc` stands in M1, with its outcome and with the prediction of its entry. -/
structure Executes (c : BhtCycle) : Prop where
  stands : c.dataI.pc = pc
  branch : c.dataI.ctl.branch = true
  outcome : branchConditionOf c.dataI c.operands = taken
  predicted : c.dataI.preB = preBOf s {} {} pc

/-- A cycle of the loop: the branch is executed, or an instruction is in M1 that neither takes its
entry nor has its tag. -/
def Iterates (c : BhtCycle) : Prop :=
  s.Executes pc taken c ∨ ∀ w, s.pcHitLine pc = some w → s.Spares pc w c.input

/-- The number of executions of the branch. -/
def executions (cs : List BhtCycle) : ℕ := cs.countP fun c => c.dataI.pc == pc

/-- After at most eight executions the branch is predicted with its outcome, and so it goes on. -/
def Learns : Prop :=
  ∀ cs, Along cycle (fun s c => s.Iterates pc taken c) s cs → 8 ≤ executions pc cs →
    preBOf (run cycle s cs) {} {} pc = taken

variable {s pc taken} {w : BhtWay} {e : BhtData} {c : BhtCycle}

theorem executions_append (cs ds : List BhtCycle) :
    executions pc (cs ++ ds) = executions pc cs + executions pc ds :=
  List.countP_append

/-- An entry after a cycle of the loop. -/
theorem entry_cycle (h : s.entry pc = some (w, e)) (hc : s.Iterates pc taken c) :
    (s.cycle c).entry pc =
      some (w, { e with history := (History.train taken)^[executions pc [c]] e.history }) := by
  rcases hc with hc | hc
  · have hone : executions pc [c] = 1 := by
      rw [executions, List.countP_cons, hc.stands, beq_self_eq_true]
      rfl
    have htaken : c.input.isTaken = (e.history.predicts ^^ taken) := by
      change branchTakenOf c.dataI c.operands = _
      rw [branchTakenOf_of_branch c.coherent hc.branch, hc.predicted, hc.outcome, preBOf_entry h]
    rw [hone, cycle, entry_of_trained h hc.stands, htaken]
    rfl
  · have hs := hc w (entry_eq_some.mp h).1
    have hzero : executions pc [c] = 0 := by
      have hne : (c.dataI.pc == pc) = false := by
        rw [beq_eq_false_iff_ne]
        rintro rfl
        exact hs.1 rfl
      rw [executions, List.countP_cons, hne]
      rfl
    rw [hzero, cycle, entry_of_spared h hs]
    rfl

/-- The entry has been trained as often as the branch was executed. -/
theorem entry_run (h : s.entry pc = some (w, e)) {cs : List BhtCycle}
    (hc : Along cycle (fun s c => s.Iterates pc taken c) s cs) :
    (run cycle s cs).entry pc =
      some (w, { e with history := (History.train taken)^[executions pc cs] e.history }) := by
  induction cs generalizing s e with
  | nil => exact h
  | cons c cs ih =>
      have hsum : executions pc (c :: cs) = executions pc cs + executions pc [c] := by
        rw [← List.singleton_append, executions_append, Nat.add_comm]
      rw [run_cons, ih (entry_cycle h hc.1) hc.2, hsum, Function.iterate_add_apply]

theorem learns_of_settles (h : s.entry pc = some (w, e)) (hs : e.history.Settles taken) :
    s.Learns pc taken := by
  intro cs hc hn
  rw [preBOf_entry (entry_run h hc)]
  exact History.predicts_of_settles hs (le_trans (by decide) hn)

/-! ### Runs of executions alone -/

theorem coherent_beq : ({ branch := true, branchType := .beq } : Control).Coherent := by
  constructor <;> decide

/-- The branch in M1 with its outcome, in the state `s` of the table. -/
def execution (s : Bht) (pc : Word) (taken : Bool) : BhtCycle where
  f1Pc := pc
  dataI := {
    pc := pc
    ctl := { branch := true, branchType := .beq }
    preB := preBOf s {} {} pc }
  operands := { rd1 := 0#32, rd2 := if taken then 0#32 else 1#32 }
  coherent := coherent_beq

theorem executes_execution : s.Executes pc taken (execution s pc taken) := by
  refine ⟨rfl, rfl, ?_, rfl⟩
  cases taken <;> rfl

/-- The branch can be executed any number of times. -/
theorem exists_executions (s : Bht) (pc : Word) (taken : Bool) (n : ℕ) :
    ∃ cs, Along cycle (fun s c => s.Iterates pc taken c) s cs ∧ executions pc cs = n := by
  induction n generalizing s with
  | zero => exact ⟨[], trivial, rfl⟩
  | succ n ih =>
      obtain ⟨cs, hc, hn⟩ := ih (s.cycle (execution s pc taken))
      refine ⟨execution s pc taken :: cs, ⟨Or.inl executes_execution, hc⟩, ?_⟩
      rw [executions, List.countP_cons, ← executions, hn]
      simp [execution]

theorem settles_of_learns (h : s.entry pc = some (w, e)) (hl : s.Learns pc taken) :
    e.history.Settles taken := by
  by_contra hs
  obtain ⟨n, hn, hne⟩ := History.exists_ne_of_not_settles hs 8
  obtain ⟨cs, hc, hcn⟩ := exists_executions s pc taken n
  have hp := hl cs hc (by rw [hcn]; exact hn)
  rw [preBOf_entry (entry_run h hc), hcn] at hp
  exact hne hp

/-- A branch with one outcome is learned from an entry if and only if it is never taken and the
entry settles. -/
theorem learns_iff (s : Bht) (pc : Word) (taken : Bool) (w : BhtWay) (e : BhtData)
    (h : s.entry pc = some (w, e)) : s.Learns pc taken ↔ e.history.Settles taken :=
  ⟨settles_of_learns h, learns_of_settles h⟩

/-- The table after the first execution of a branch. -/
def met (pc : Word) (taken : Bool) : Bht := run cycle {} [execution {} pc taken]

theorem learns_iff_met : (met 0xbfc00100#32 false).Learns 0xbfc00100#32 false ∧
    (met 0xbfc00100#32 false).entry 0xbfc00100#32 =
      some (false, ⟨0xbfc00104#32, ⟨true, 3#2, 0#2⟩⟩) :=
  ⟨(learns_iff _ _ _ false ⟨0xbfc00104#32, ⟨true, 3#2, 0#2⟩⟩ (by decide)).mpr (by decide),
    by decide⟩

/-- A branch that is always taken is not learned from the entry of its first execution. -/
theorem not_learns_taken :
    ¬ ∀ (cs : List BhtCycle) (pc : Word) (taken : Bool) (w : BhtWay) (e : BhtData),
      (run cycle {} cs).entry pc = some (w, e) → (run cycle {} cs).Learns pc taken := by
  intro h
  have he : (met 0xbfc00100#32 true).entry 0xbfc00100#32 =
      some (false, ⟨0xbfc00104#32, ⟨true, 0#2, 3#2⟩⟩) := by decide
  have hl := h [execution {} 0xbfc00100#32 true] 0xbfc00100#32 true false _ he
  exact absurd (settles_of_learns he hl) (by decide)

end Bht

end FrailCPU
