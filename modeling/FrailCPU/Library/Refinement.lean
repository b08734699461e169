import FrailCPU.Library.Machine

/-!
# Refinement of a specification that can get stuck

A specification is a partial step function on events: it is `none` where it leaves the
behaviour undefined. A clocked machine refines it under an abstraction into `Option τ` when
every cycle puts out the events, of any number, that take the abstraction of its state to that
of the next one. The induction over the cycles is made once, in `refines_run`: a run is a run of
the specification over the events it has put out, and is undefined exactly when that one is.
-/

namespace ClockedMachine

variable {σ ι τ ε : Type*}

/-- The specification over a list of events; what is undefined stays so. -/
def follow (spec : τ → ε → Option τ) (t : Option τ) (es : List ε) : Option τ :=
  es.foldl (fun t e => t.bind fun t => spec t e) t

section Follow

variable (spec : τ → ε → Option τ) (t : Option τ)

@[simp] theorem follow_nil : follow spec t [] = t := rfl

@[simp] theorem follow_cons (e : ε) (es : List ε) :
    follow spec t (e :: es) = follow spec (t.bind fun t => spec t e) es := rfl

theorem follow_append (es fs : List ε) :
    follow spec t (es ++ fs) = follow spec (follow spec t es) fs :=
  List.foldl_append

@[simp] theorem follow_none (es : List ε) : follow spec none es = none := by
  induction es with
  | nil => rfl
  | cons e es ih => exact ih

/-- A property that every step of the specification keeps holds of what it reaches. -/
theorem follow_invariant {spec : τ → ε → Option τ} {P : τ → Prop}
    (hstep : ∀ t e t', P t → spec t e = some t' → P t') {t t' : τ} {es : List ε} (ht : P t)
    (h : follow spec (some t) es = some t') : P t' := by
  induction es generalizing t with
  | nil =>
    obtain rfl := Option.some.inj h
    exact ht
  | cons e es ih =>
    rw [follow_cons, Option.bind_some] at h
    cases hs : spec t e with
    | none =>
      rw [hs, follow_none] at h
      cases h
    | some u =>
      rw [hs] at h
      exact ih (hstep t e u ht hs) h

end Follow

/-- What one cycle has to keep: the invariant, and the abstraction up to the events. -/
structure RefinesStep (step : σ → ι → σ) (events : σ → ι → List ε) (abs : σ → Option τ)
    (spec : τ → ε → Option τ) (P : σ → Prop) (s : σ) (i : ι) : Prop where
  kept : P (step s i)
  simulates : abs (step s i) = follow spec (abs s) (events s i)

/-- The run of the machine is the run of the specification over its events. -/
theorem refines_run {step : σ → ι → σ} {events : σ → ι → List ε} {abs : σ → Option τ}
    {spec : τ → ε → Option τ} {P : σ → Prop} {G : σ → ι → Prop}
    (h : ∀ s i, P s → G s i → RefinesStep step events abs spec P s i) {s : σ} {is : List ι}
    (hG : Along step G s is) (hs : P s) :
    P (run step s is) ∧
      abs (run step s is) = follow spec (abs s) (collect step events s is) := by
  induction is generalizing s with
  | nil => exact ⟨hs, rfl⟩
  | cons i is ih =>
    have h1 := h s i hs hG.1
    obtain ⟨hP, ha⟩ := ih hG.2 h1.kept
    refine ⟨hP, ?_⟩
    rw [run_cons, ha, h1.simulates, collect_cons, follow_append]

variable {κ α β : Type*}

/-- A machine that drives another one: its cycle is a cycle of the other one, on an input that it
works out itself and that meets the condition `G` of the other one. -/
structure Drives (step : σ → ι → σ) (step' : τ → κ → τ) (abs : σ → τ) (input : σ → ι → κ)
    (P : σ → Prop) (G : τ → κ → Prop) (s : σ) (i : ι) : Prop where
  kept : P (step s i)
  simulates : abs (step s i) = step' (abs s) (input s i)
  condition : G (abs s) (input s i)

/-- A run of the driver is a run of what it drives. -/
theorem drives_run {step : σ → ι → σ} {step' : τ → κ → τ} {abs : σ → τ} {input : σ → ι → κ}
    {P : σ → Prop} {G : τ → κ → Prop} {H : σ → ι → Prop}
    (h : ∀ s i, P s → H s i → Drives step step' abs input P G s i) {s : σ} {is : List ι}
    (hH : Along step H s is) (hs : P s) :
    P (run step s is) ∧
      Along step' G (abs s) (collect step (fun s i => [input s i]) s is) ∧
      abs (run step s is) = run step' (abs s) (collect step (fun s i => [input s i]) s is) := by
  induction is generalizing s with
  | nil => exact ⟨hs, trivial, rfl⟩
  | cons i is ih =>
    have h1 := h s i hs hH.1
    obtain ⟨hP, hG, ha⟩ := ih hH.2 h1.kept
    rw [h1.simulates] at hG ha
    exact ⟨hP, ⟨h1.condition, hG⟩, ha⟩

/-- What the driven machine puts out in the run, read off the driver. -/
theorem drives_collect {step : σ → ι → σ} {step' : τ → κ → τ} {abs : σ → τ} {input : σ → ι → κ}
    {P : σ → Prop} {G : τ → κ → Prop} {H : σ → ι → Prop}
    (h : ∀ s i, P s → H s i → Drives step step' abs input P G s i) (out : τ → κ → List α) {s : σ}
    {is : List ι} (hH : Along step H s is) (hs : P s) :
    collect step' out (abs s) (collect step (fun s i => [input s i]) s is) =
      collect step (fun s i => out (abs s) (input s i)) s is := by
  induction is generalizing s with
  | nil => rfl
  | cons i is ih =>
    have h1 := h s i hs hH.1
    have h2 := ih hH.2 h1.kept
    rw [h1.simulates] at h2
    rw [collect_cons, collect_cons, ← h2]
    rfl

theorem collect_filter (step : σ → ι → σ) (out : σ → ι → List α) (p : α → Bool) (s : σ)
    (is : List ι) :
    (collect step out s is).filter p = collect step (fun s i => (out s i).filter p) s is := by
  induction is generalizing s with
  | nil => rfl
  | cons i is ih => rw [collect_cons, List.filter_append, ih, collect_cons]

/-- What a cycle costs is paid by what it earns, `k` for each piece, or by the potential. -/
theorem collect_bounded {step : σ → ι → σ} {P : σ → Prop} {G : σ → ι → Prop}
    {cost : σ → ι → List α} {earned : σ → ι → List β} (potential : σ → ℕ) {k : ℕ}
    (hP : ∀ s i, P s → G s i → P (step s i))
    (h : ∀ s i, P s → G s i → (cost s i).length + potential (step s i) ≤
      k * (earned s i).length + potential s) {s : σ} {is : List ι} (hG : Along step G s is)
    (hs : P s) :
    (collect step cost s is).length + potential (run step s is) ≤
      k * (collect step earned s is).length + potential s := by
  induction is generalizing s with
  | nil => exact (Nat.zero_add _).trans_le (Nat.le_add_left _ _)
  | cons i is ih =>
    have h1 := h s i hs hG.1
    have h2 := ih hG.2 (hP s i hs hG.1)
    rw [collect_cons, collect_cons, List.length_append, List.length_append, run_cons, Nat.mul_add]
    omega

end ClockedMachine
