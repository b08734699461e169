import Mathlib.Tactic

/-!
# Words over a memory of bytes

A memory with a byte at every 32-bit address, and the aligned little-endian words in it.
An access is described by the places of the register's bytes: `put` stores the bytes that
have a place, and `get` fetches them, with a filling for the others.
-/

namespace ByteMemory

abbrev Byte := BitVec 8

abbrev Address := BitVec 32

abbrev Memory := Address → Byte

/-- Byte `j` of a word, counted from the least significant one. -/
def byteOf (w : BitVec 32) (j : ℕ) : Byte := w.extractLsb' (8 * j) 8

/-- The word with the given bytes. -/
def ofBytes (b : ℕ → Byte) : BitVec 32 := (b 3 ++ b 2 ++ b 1 ++ b 0 : BitVec 32)

theorem getLsbD_byteOf (w : BitVec 32) (j i : ℕ) (hi : i < 8) :
    (byteOf w j).getLsbD i = w.getLsbD (8 * j + i) := by
  simp [byteOf, hi]

theorem byteOf_ofBytes (b : ℕ → Byte) {j : ℕ} (hj : j < 4) : byteOf (ofBytes b) j = b j := by
  apply BitVec.eq_of_getLsbD_eq
  intro i hi
  rw [getLsbD_byteOf _ _ _ hi]
  simp only [ofBytes, BitVec.getLsbD_append]
  interval_cases j
  · simp [hi]
  · simp [hi]
  · rw [if_neg (by omega), if_neg (by omega), if_pos (by omega)]
    congr 1
    omega
  · rw [if_neg (by omega), if_neg (by omega), if_neg (by omega)]
    congr 1
    omega

/-- A word is known by its four bytes. -/
theorem eq_of_byteOf {v w : BitVec 32} (h : ∀ j, j < 4 → byteOf v j = byteOf w j) : v = w := by
  apply BitVec.eq_of_getLsbD_eq
  intro i hi
  have hb := congrArg (fun b : Byte => b.getLsbD (i % 8)) (h (i / 8) (by omega))
  simp only [getLsbD_byteOf _ _ _ (Nat.mod_lt i (by omega : 0 < 8)), Nat.div_add_mod] at hb
  exact hb

/-- The position of an address in its aligned word. -/
def offset (a : Address) : ℕ := a.toNat % 4

/-- The address of the aligned word around an address. -/
def base (a : Address) : Address := BitVec.ofNat 32 (a.toNat - offset a)

theorem offset_lt (a : Address) : offset a < 4 := Nat.mod_lt _ (by omega)

theorem toNat_base (a : Address) : (base a).toNat = a.toNat - a.toNat % 4 := by
  have := a.isLt
  simp only [base, offset, BitVec.toNat_ofNat]
  omega

theorem toNat_base_add (a : Address) {l : ℕ} (hl : l < 4) :
    (base a + BitVec.ofNat 32 l).toNat = a.toNat - a.toNat % 4 + l := by
  have := a.isLt
  rw [BitVec.toNat_add, toNat_base, BitVec.toNat_ofNat]
  omega

/-- An address is given by its word and its position there. -/
theorem base_add_offset (a : Address) : base a + BitVec.ofNat 32 (offset a) = a := by
  apply BitVec.eq_of_toNat_eq
  rw [toNat_base_add a (offset_lt a), offset]
  omega

@[simp] theorem offset_base_add (a : Address) {l : ℕ} (hl : l < 4) :
    offset (base a + BitVec.ofNat 32 l) = l := by
  rw [offset, toNat_base_add a hl]
  omega

@[simp] theorem base_base_add (a : Address) {l : ℕ} (hl : l < 4) :
    base (base a + BitVec.ofNat 32 l) = base a := by
  apply BitVec.eq_of_toNat_eq
  rw [toNat_base, toNat_base_add a hl, toNat_base]
  omega

@[simp] theorem base_base (a : Address) : base (base a) = base a := by
  apply BitVec.eq_of_toNat_eq
  rw [toNat_base, toNat_base]
  omega

theorem base_add_eq_iff {a x : Address} {l : ℕ} (hl : l < 4) :
    base a + BitVec.ofNat 32 l = x ↔ base x = base a ∧ offset x = l := by
  constructor
  · rintro rfl
    exact ⟨base_base_add a hl, offset_base_add a hl⟩
  · rintro ⟨hb, rfl⟩
    rw [← hb, base_add_offset]

/-- The aligned word around an address. -/
def word (m : Memory) (a : Address) : BitVec 32 :=
  ofBytes fun j => m (base a + BitVec.ofNat 32 j)

/-- The memory with the aligned word around `a` replaced. -/
def setWord (m : Memory) (a : Address) (w : BitVec 32) : Memory := fun x =>
  if base x = base a then byteOf w (offset x) else m x

theorem byteOf_word (m : Memory) (a : Address) {l : ℕ} (hl : l < 4) :
    byteOf (word m a) l = m (base a + BitVec.ofNat 32 l) :=
  byteOf_ofBytes _ hl

section Words

variable {m : Memory} {a b : Address} {w : BitVec 32}

theorem word_congr (h : base a = base b) : word m a = word m b := by rw [word, word, h]

theorem setWord_congr (h : base a = base b) : setWord m a w = setWord m b w := by
  funext x
  rw [setWord, setWord, h]

theorem word_setWord (h : base b = base a) : word (setWord m a w) b = w := by
  apply eq_of_byteOf
  intro j hj
  rw [byteOf_word _ _ hj, setWord, base_base_add _ hj, if_pos h, offset_base_add _ hj]

theorem word_setWord_of_ne (h : base b ≠ base a) : word (setWord m a w) b = word m b := by
  apply eq_of_byteOf
  intro j hj
  rw [byteOf_word _ _ hj, byteOf_word _ _ hj, setWord, base_base_add _ hj, if_neg h]

/-- A word that is written back as it was read. -/
theorem setWord_word (m : Memory) (a : Address) : setWord m a (word m a) = m := by
  funext x
  rw [setWord]
  split
  case isTrue h => rw [byteOf_word _ _ (offset_lt x), ← h, base_add_offset]
  case isFalse => rfl

end Words

/-- The places of the four bytes of a register. -/
abbrev Places := ℕ → Option Address

/-- The register byte that is stored at an address. -/
def sourceOf (p : Places) (x : Address) : Option ℕ :=
  (List.range 4).find? fun j => p j == some x

/-- The bytes of the register that have a place are stored there. -/
def put (p : Places) (v : BitVec 32) (m : Memory) : Memory := fun x =>
  match sourceOf p x with
  | some j => byteOf v j
  | none => m x

/-- The register with the bytes at its places, and the filling where a byte has none. -/
def get (p : Places) (m : Memory) (fill : ℕ → Byte) : BitVec 32 :=
  ofBytes fun j =>
    match p j with
    | some x => m x
    | none => fill j

section Places

variable {p : Places} {v : BitVec 32} {m : Memory} {x : Address} {j : ℕ}

theorem sourceOf_eq_none : sourceOf p x = none ↔ ∀ j, j < 4 → p j ≠ some x := by
  simp [sourceOf]

theorem put_of_not_mem (h : ∀ j, j < 4 → p j ≠ some x) : put p v m x = m x := by
  simp only [put, sourceOf_eq_none.2 h]

/-- Where only byte `j` has its place, it is stored. -/
theorem put_of_mem (hj : j < 4) (hp : p j = some x)
    (hu : ∀ j', j' < 4 → p j' = some x → j' = j) : put p v m x = byteOf v j := by
  simp only [put]
  cases hs : sourceOf p x with
  | none => exact absurd hp (sourceOf_eq_none.1 hs j hj)
  | some j' =>
    have hmem := List.mem_of_find?_eq_some hs
    have hpj := List.find?_some hs
    rw [hu j' (List.mem_range.1 hmem) (by simpa using hpj)]

theorem byteOf_get_of_mem {fill : ℕ → Byte} (hj : j < 4) (hp : p j = some x) :
    byteOf (get p m fill) j = m x := by
  rw [get, byteOf_ofBytes _ hj, hp]

theorem byteOf_get_of_none {fill : ℕ → Byte} (hj : j < 4) (hp : p j = none) :
    byteOf (get p m fill) j = fill j := by
  rw [get, byteOf_ofBytes _ hj, hp]

end Places

/-- Every byte that has a place has that of the unaligned word at `a`. -/
def Within (p : Places) (a : Address) : Prop :=
  ∀ j, j < 4 → p j = none ∨ p j = some (a + BitVec.ofNat 32 j)

theorem add_ofNat_inj {a : Address} {i j : ℕ} (hi : i < 4) (hj : j < 4)
    (h : a + BitVec.ofNat 32 i = a + BitVec.ofNat 32 j) : i = j := by
  have hn := congrArg BitVec.toNat ((BitVec.add_right_inj a).1 h)
  simp only [BitVec.toNat_ofNat] at hn
  omega

section Within

variable {p q : Places} {a : Address} {v : BitVec 32} {m : Memory} {j : ℕ}

theorem put_within (h : Within p a) (hj : j < 4) :
    put p v m (a + BitVec.ofNat 32 j) =
      if p j = none then m (a + BitVec.ofNat 32 j) else byteOf v j := by
  split
  case isTrue hn =>
    apply put_of_not_mem
    intro i hi hp
    rcases h i hi with h' | h'
    · rw [h'] at hp
      exact absurd hp (by simp)
    · rw [h', Option.some.injEq] at hp
      obtain rfl := add_ofNat_inj hi hj hp
      rw [hn] at h'
      exact absurd h' (by simp)
  case isFalse hn =>
    have hp := (h j hj).resolve_left hn
    apply put_of_mem hj hp
    intro i hi hi'
    rcases h i hi with h' | h'
    · rw [h'] at hi'
      exact absurd hi' (by simp)
    · rw [h', Option.some.injEq] at hi'
      exact add_ofNat_inj hi hj hi'

theorem put_outside (h : Within p a) {x : Address}
    (hx : ∀ j, j < 4 → x ≠ a + BitVec.ofNat 32 j) : put p v m x = m x := by
  apply put_of_not_mem
  intro j hj hp
  rcases h j hj with h' | h'
  · rw [h'] at hp
    exact absurd hp (by simp)
  · rw [h', Option.some.injEq] at hp
    exact hx j hj hp.symm

/-- Two stores whose places cover the unaligned word store all of it. -/
theorem put_put_within (hp : Within p a) (hq : Within q a)
    (hc : ∀ j, j < 4 → p j = none → q j ≠ none) (hj : j < 4) :
    put q v (put p v m) (a + BitVec.ofNat 32 j) = byteOf v j := by
  rw [put_within hq hj, put_within hp hj]
  split
  · rw [if_neg fun hn => hc j hj hn ‹_›]
  · rfl

/-- Two loads whose places cover the unaligned word load all of it. -/
theorem get_get_within (hp : Within p a) (hq : Within q a)
    (hc : ∀ j, j < 4 → p j = none → q j ≠ none)
    (hm : ∀ j, j < 4 → m (a + BitVec.ofNat 32 j) = byteOf v j) (old : ℕ → Byte) :
    get q m (byteOf (get p m old)) = v := by
  apply eq_of_byteOf
  intro j hj
  rcases hq j hj with h | h
  · have hpj := (hp j hj).resolve_left fun hn => hc j hj hn h
    rw [byteOf_get_of_none hj h, byteOf_get_of_mem hj hpj, hm j hj]
  · rw [byteOf_get_of_mem hj h, hm j hj]

end Within

end ByteMemory
