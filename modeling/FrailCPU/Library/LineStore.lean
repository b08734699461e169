import Mathlib.Data.Set.Function
import Mathlib.Logic.Function.Basic

/-!
# Slots that hold copies of lines

A store keeps copies of lines in slots. `names` says which line a slot holds, if any, `data`
what is in the slots, and `ref` what the words of a line are. `Copies` says that every named
slot holds its line. A slot without a name may hold anything, so a slot is filled under no name
and named when it is complete.
-/

namespace LineStore

variable {S L O W : Type*} {names : S → Option L} {data : S → O → W} {ref : L → O → W}

/-- Every named slot holds the words of its line. -/
def Copies (names : S → Option L) (data : S → O → W) (ref : L → O → W) : Prop :=
  ∀ s l, names s = some l → ∀ o, data s o = ref l o

/-- No line has two slots. -/
def Distinct (names : S → Option L) : Prop :=
  ∀ s s' l, names s = some l → names s' = some l → s = s'

theorem Copies.of_none (h : ∀ s, names s = none) : Copies names data ref := by
  intro s l hl
  rw [h s] at hl
  cases hl

/-- Names may be taken away. -/
theorem Copies.mono {names' : S → Option L} (hc : Copies names data ref)
    (h : ∀ s l, names' s = some l → names s = some l) :
    Copies names' data ref :=
  fun s l hl => hc s l (h s l hl)

/-- What is in a slot without a name does not matter. -/
theorem Copies.scratch {data' : S → O → W} (hc : Copies names data ref)
    (h : ∀ s, names s ≠ none → data' s = data s) :
    Copies names data' ref := by
  intro s l hl o
  rw [h s (by rw [hl]; exact Option.some_ne_none l)]
  exact hc s l hl o

/-- A slot that is complete may be named. -/
theorem Copies.install {names' : S → Option L} {s : S} {l : L} (hc : Copies names data ref)
    (h : ∀ s' ≠ s, ∀ l', names' s' = some l' → names s' = some l')
    (hs : names' s = some l) (hfull : ∀ o, data s o = ref l o) :
    Copies names' data ref := by
  intro s' l' hl' o
  by_cases hne : s' = s
  · subst hne
    rw [hs, Option.some_inj] at hl'
    rw [← hl']
    exact hfull o
  · exact hc s' l' (h s' hne l' hl') o

/-- A word of a line changes in its slot. -/
theorem Copies.store {data' : S → O → W} {ref' : L → O → W} {s : S} {l : L} {o : O}
    (hc : Copies names data ref) (hd : Distinct names) (h : names s = some l)
    (hself : data' s o = ref' l o)
    (hdata : ∀ s' o', ¬ (s' = s ∧ o' = o) → data' s' o' = data s' o')
    (href : ∀ l' o', ¬ (l' = l ∧ o' = o) → ref' l' o' = ref l' o') :
    Copies names data' ref' := by
  intro s' l' hl' o'
  by_cases hs : s' = s
  · have hl : l' = l := by
      rw [hs, h, Option.some_inj] at hl'
      exact hl'.symm
    by_cases ho : o' = o
    · rw [hs, hl, ho, hself]
    · rw [hdata s' o' fun hn => ho hn.2, href l' o' fun hn => ho hn.2]
      exact hc s' l' hl' o'
  · have hl : l' ≠ l := by
      rintro rfl
      exact hs (hd s' s l' hl' h)
    rw [hdata s' o' fun hn => hs hn.1, href l' o' fun hn => hl hn.1]
    exact hc s' l' hl' o'

/-- A word of a line without a slot changes, and one in a slot without a name. -/
theorem Copies.stray {data' : S → O → W} {ref' : L → O → W} {s : S} {l : L}
    (hc : Copies names data ref) (hs : names s = none) (hl : ∀ s', names s' ≠ some l)
    (hdata : ∀ s' ≠ s, ∀ o', data' s' o' = data s' o')
    (href : ∀ l' ≠ l, ∀ o', ref' l' o' = ref l' o') :
    Copies names data' ref' := by
  intro s' l' hl' o'
  have hs' : s' ≠ s := by
    rintro rfl
    rw [hs] at hl'
    cases hl'
  have hne : l' ≠ l := by
    rintro rfl
    exact hl s' hl'
  rw [hdata s' hs' o', href l' hne o']
  exact hc s' l' hl' o'

variable {mem : L → O → W}

/-- The memory behind the slots has every line that no slot names. -/
def Backed (names : S → Option L) (mem ref : L → O → W) : Prop :=
  ∀ l, (∀ s, names s ≠ some l) → mem l = ref l

/-- A line that loses its slot has to be in memory. -/
theorem Backed.unname {names' : S → Option L} (hb : Backed names mem ref)
    (h : ∀ s l, names s = some l → (∀ s', names' s' ≠ some l) → mem l = ref l) :
    Backed names' mem ref := by
  intro l hl
  by_cases hs : ∃ s, names s = some l
  · obtain ⟨s, hs⟩ := hs
    exact h s l hs hl
  · exact hb l fun s hn => hs ⟨s, hn⟩

/-- What is written to memory is what the words are. -/
theorem Backed.write {mem' : L → O → W} (hb : Backed names mem ref)
    (h : ∀ l o, mem' l o = mem l o ∨ mem' l o = ref l o) : Backed names mem' ref := by
  intro l hl
  funext o
  rcases h l o with h | h
  · rw [h, hb l hl]
  · exact h

/-- The words of a line change only in its slot. -/
theorem Backed.store {ref' : L → O → W} (hb : Backed names mem ref)
    (h : ∀ l, (∀ s, names s ≠ some l) → ref' l = ref l) : Backed names mem ref' :=
  fun l hl => (hb l hl).trans (h l hl).symm

end LineStore
