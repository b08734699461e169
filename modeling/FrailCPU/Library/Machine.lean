import Mathlib.Tactic

/-!
# Clocked machines and their runs

A clocked machine is a step function on a state type: every clock edge reads one
input. `run` folds a list of inputs, so a run is a prefix of an execution and
nothing is assumed about how long it lasts. A condition that is asked of every
step of a run is carried by `Along`, which reads it at the state the step starts
from. The induction over a run is made once, in `Along.invariant`: a predicate
that holds at the start and is kept by every step that meets the condition holds
at the end. `collect` is what the cycles of a run put out, in order.
-/

namespace ClockedMachine

variable {σ τ ι κ α : Type*}

/-- The state after the inputs of the list, read from the left. -/
def run (step : σ → ι → σ) (s : σ) (is : List ι) : σ :=
  is.foldl step s

@[simp] theorem run_nil (step : σ → ι → σ) (s : σ) :
    run step s [] = s := rfl

@[simp] theorem run_cons (step : σ → ι → σ) (s : σ) (i : ι) (is : List ι) :
    run step s (i :: is) = run step (step s i) is := rfl

theorem run_append (step : σ → ι → σ) (s : σ) (is js : List ι) :
    run step s (is ++ js) = run step (run step s is) js := by
  simp [run]

/-- A predicate that every step keeps holds at the end of every run. -/
theorem run_invariant {step : σ → ι → σ} {P : σ → Prop} (hstep : ∀ s i, P s → P (step s i))
    {s : σ} (hs : P s) (is : List ι) : P (run step s is) := by
  induction is generalizing s with
  | nil => exact hs
  | cons i is ih => exact ih (hstep s i hs)

/-- Two machines that read the same inputs, and a relation that every step keeps. -/
theorem run_related {step : σ → ι → σ} {step' : τ → ι → τ} {R : σ → τ → Prop}
    (hstep : ∀ s t i, R s t → R (step s i) (step' t i)) {s : σ} {t : τ} (h : R s t)
    (is : List ι) : R (run step s is) (run step' t is) := by
  induction is generalizing s t with
  | nil => exact h
  | cons i is ih => exact ih (hstep s t i h)

/-- Every step of the run meets `G`, which is read at the state the step starts
from together with the input it consumes. -/
def Along (step : σ → ι → σ) (G : σ → ι → Prop) : σ → List ι → Prop
  | _, [] => True
  | s, i :: is => G s i ∧ Along step G (step s i) is

@[simp] theorem along_nil (step : σ → ι → σ) (G : σ → ι → Prop) (s : σ) :
    Along step G s [] := trivial

theorem along_cons (step : σ → ι → σ) (G : σ → ι → Prop) (s : σ) (i : ι)
    (is : List ι) :
    Along step G s (i :: is) ↔ G s i ∧ Along step G (step s i) is :=
  Iff.rfl

theorem along_append (step : σ → ι → σ) (G : σ → ι → Prop) (s : σ)
    (is js : List ι) :
    Along step G s (is ++ js) ↔
      Along step G s is ∧ Along step G (run step s is) js := by
  induction is generalizing s with
  | nil => simp
  | cons i is ih =>
      rw [List.cons_append, along_cons, along_cons, ih, run_cons, and_assoc]

instance Along.decidable (step : σ → ι → σ) (G : σ → ι → Prop)
    [∀ s i, Decidable (G s i)] : ∀ (s : σ) (is : List ι), Decidable (Along step G s is)
  | _, [] => isTrue trivial
  | s, i :: is =>
      have := Along.decidable step G (step s i) is
      inferInstanceAs (Decidable (G s i ∧ Along step G (step s i) is))

/-- The run form of an invariant: the induction on the inputs, with the condition
read along the way. -/
theorem Along.invariant {step : σ → ι → σ} {G : σ → ι → Prop} {P : σ → Prop}
    (hstep : ∀ s i, P s → G s i → P (step s i)) {s : σ} {is : List ι}
    (hG : Along step G s is) (hP : P s) : P (run step s is) := by
  induction is generalizing s with
  | nil => exact hP
  | cons i is ih => exact ih hG.2 (hstep s i hP hG.1)

/-- A condition on the inputs alone. -/
theorem along_of_forall {step : σ → ι → σ} {Q : ι → Prop} {s : σ} {is : List ι}
    (h : ∀ i ∈ is, Q i) : Along step (fun _ i => Q i) s is := by
  induction is generalizing s with
  | nil => trivial
  | cons i is ih => exact ⟨h i List.mem_cons_self, ih fun j hj => h j (List.mem_cons_of_mem i hj)⟩

theorem Along.mono {step : σ → ι → σ} {G H : σ → ι → Prop}
    (hGH : ∀ s i, G s i → H s i) {s : σ} {is : List ι}
    (hG : Along step G s is) : Along step H s is := by
  induction is generalizing s with
  | nil => trivial
  | cons i is ih => exact ⟨hGH s i hG.1, ih hG.2⟩

/-- A condition that keeps an invariant and, with it, implies another one, at every step
of a run. -/
theorem Along.imp_of_kept {step : σ → ι → σ} {G H : σ → ι → Prop} {P : σ → Prop}
    (hP : ∀ s i, P s → G s i → P (step s i)) (hGH : ∀ s i, P s → G s i → H s i) {s : σ}
    {is : List ι} (hG : Along step G s is) (hs : P s) : Along step H s is := by
  induction is generalizing s with
  | nil => trivial
  | cons i is ih => exact ⟨hGH s i hs hG.1, ih hG.2 (hP s i hs hG.1)⟩

/-- A condition that an invariant turns into another one, at every step of a run. -/
theorem Along.imp_of_invariant {step : σ → ι → σ} {G H : σ → ι → Prop} {P : σ → Prop}
    (hP : ∀ s i, P s → P (step s i)) (hGH : ∀ s i, P s → G s i → H s i) {s : σ} {is : List ι}
    (hG : Along step G s is) (hs : P s) : Along step H s is :=
  hG.imp_of_kept (fun s i hs _ => hP s i hs) hGH hs

/-- A machine that reads more in a cycle, and agrees with the first one wherever the condition
holds, runs like it. -/
theorem Along.run_map {step : σ → ι → σ} {step' : σ → κ → σ} {G : σ → κ → Prop} {f : κ → ι}
    (h : ∀ s k, G s k → step s (f k) = step' s k) {s : σ} {ks : List κ}
    (hG : Along step' G s ks) : run step s (ks.map f) = run step' s ks := by
  induction ks generalizing s with
  | nil => rfl
  | cons k ks ih =>
      rw [List.map_cons, run_cons, run_cons, h s k hG.1]
      exact ih hG.2

theorem Along.map {step : σ → ι → σ} {step' : σ → κ → σ} {G : σ → κ → Prop}
    {H : σ → ι → Prop} {f : κ → ι} (h : ∀ s k, G s k → step s (f k) = step' s k)
    (hGH : ∀ s k, G s k → H s (f k)) {s : σ} {ks : List κ} (hG : Along step' G s ks) :
    Along step H s (ks.map f) := by
  induction ks generalizing s with
  | nil => trivial
  | cons k ks ih =>
      refine ⟨hGH s k hG.1, ?_⟩
      rw [h s k hG.1]
      exact ih hG.2

theorem Along.and {step : σ → ι → σ} {G H : σ → ι → Prop} {s : σ} {is : List ι}
    (hG : Along step G s is) (hH : Along step H s is) :
    Along step (fun s i => G s i ∧ H s i) s is := by
  induction is generalizing s with
  | nil => trivial
  | cons i is ih => exact ⟨⟨hG.1, hH.1⟩, ih hG.2 hH.2⟩

/-- What the cycles of a run put out, in order. -/
def collect (step : σ → ι → σ) (out : σ → ι → List α) : σ → List ι → List α
  | _, [] => []
  | s, i :: is => out s i ++ collect step out (step s i) is

theorem collect_cons (step : σ → ι → σ) (out : σ → ι → List α) (s : σ) (i : ι) (is : List ι) :
    collect step out s (i :: is) = out s i ++ collect step out (step s i) is := rfl

/-- A machine in which every cycle keeps its contents in order hands on what it takes in, in
order: what is missing at the end is what it still holds. -/
theorem collect_conserved {step : σ → ι → σ} {P : σ → Prop} {contents : σ → List α}
    {taken given : σ → ι → List α} (hP : ∀ s i, P s → P (step s i))
    (hstep : ∀ s i, P s → contents s ++ taken s i = given s i ++ contents (step s i)) {s : σ}
    (hs : P s) (is : List ι) :
    contents s ++ collect step taken s is =
      collect step given s is ++ contents (run step s is) := by
  induction is generalizing s with
  | nil => exact List.append_nil _
  | cons i is ih =>
      calc contents s ++ collect step taken s (i :: is)
          = (contents s ++ taken s i) ++ collect step taken (step s i) is := by
            rw [collect_cons, List.append_assoc]
        _ = given s i ++ (contents (step s i) ++ collect step taken (step s i) is) := by
            rw [hstep s i hs, List.append_assoc]
        _ = collect step given s (i :: is) ++ contents (run step s (i :: is)) := by
            rw [ih (hP s i hs), ← List.append_assoc, collect_cons, run_cons]

end ClockedMachine
