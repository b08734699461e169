import FrailCPU.Memory.Memory
import FrailCPU.DCache.Cache
import FrailCPU.Library.ByteMemory

/-!
# The bytes of loads and stores

The little-endian definition of the accesses says for each byte of the register where in
the memory its place is. The tables of `writedata.sv` and `readdata.sv` are compared with
it lane by lane. A pair of a right and a left access has a place for every byte, at any
address.
-/

namespace FrailCPU

open ByteMemory DCache

/-- How an access maps the register to the memory. -/
inductive AccessKind
  | byte | half | word | left | right
  deriving DecidableEq, Repr

namespace AccessKind

variable (k : AccessKind)

/-- The place of byte `j` of the register, for an access at `a`. A left access takes the most
significant bytes down from `a` to the start of the word, a right one the least significant
bytes from `a` up to its end. -/
def place (a : Address) : Places := fun j =>
  match k with
  | byte => if j = 0 then some a else none
  | half => if j < 2 then some (a + BitVec.ofNat 32 j) else none
  | word => some (a + BitVec.ofNat 32 j)
  | left => if 3 - j ≤ offset a then some (a - BitVec.ofNat 32 (3 - j)) else none
  | right => if j ≤ 3 - offset a then some (a + BitVec.ofNat 32 j) else none

/-- The address is not a multiple of the width. -/
def Misaligned (a : Address) : Prop :=
  match k with
  | half => a.toNat % 2 ≠ 0
  | word => a.toNat % 4 ≠ 0
  | _ => False

instance (a : Address) : Decidable (k.Misaligned a) := by
  unfold Misaligned
  split <;> infer_instance

/-- The same mapping inside the aligned word: the lane of byte `j`, for an access at offset
`o`. -/
def lane (o j : ℕ) : Option ℕ :=
  match k with
  | byte => if j = 0 then some o else none
  | half => if j < 2 then some (o + j) else none
  | word => some (o + j)
  | left => if 3 - j ≤ o then some (o - (3 - j)) else none
  | right => if j ≤ 3 - o then some (o + j) else none

variable {k} {a : Address} {j : ℕ}

theorem lane_lt (ok : ¬ k.Misaligned a) (hj : j < 4) {l : ℕ}
    (hl : k.lane (offset a) j = some l) : l < 4 := by
  have := offset_lt a
  cases k with
  | byte =>
    simp only [lane, Option.ite_none_right_eq_some, Option.some.injEq] at hl
    omega
  | half =>
    simp only [lane, Option.ite_none_right_eq_some, Option.some.injEq] at hl
    simp only [Misaligned, offset] at *
    omega
  | word =>
    simp only [lane, Option.some.injEq] at hl
    simp only [Misaligned, offset] at *
    omega
  | left =>
    simp only [lane, Option.ite_none_right_eq_some, Option.some.injEq] at hl
    omega
  | right =>
    simp only [lane, Option.ite_none_right_eq_some, Option.some.injEq] at hl
    omega

/-- The address of a lane above the one of the access. -/
theorem add_eq_base_add (h : offset a + j < 4) :
    a + BitVec.ofNat 32 j = base a + BitVec.ofNat 32 (offset a + j) := by
  apply BitVec.eq_of_toNat_eq
  have := a.isLt
  rw [toNat_base_add a h, BitVec.toNat_add, BitVec.toNat_ofNat]
  simp only [offset] at *
  omega

theorem sub_eq_base_add (h : j ≤ offset a) :
    a - BitVec.ofNat 32 j = base a + BitVec.ofNat 32 (offset a - j) := by
  apply BitVec.eq_of_toNat_eq
  have := a.isLt
  have := offset_lt a
  rw [toNat_base_add a (by omega), BitVec.toNat_sub, BitVec.toNat_ofNat]
  simp only [offset] at *
  omega

/-- An aligned access stays inside its word. -/
theorem place_eq (ok : ¬ k.Misaligned a) (hj : j < 4) :
    k.place a j = (k.lane (offset a) j).map fun l => base a + BitVec.ofNat 32 l := by
  have ho := offset_lt a
  cases k with
  | byte =>
    simp only [place, lane]
    split
    · rw [Option.map_some, base_add_offset]
    · rfl
  | half =>
    simp only [place, lane]
    split
    · rw [Option.map_some, add_eq_base_add]
      simp only [Misaligned, offset] at *
      omega
    · rfl
  | word =>
    simp only [place, lane]
    rw [Option.map_some, add_eq_base_add]
    simp only [Misaligned, offset] at *
    omega
  | left =>
    simp only [place, lane]
    split
    · rw [Option.map_some, sub_eq_base_add (by assumption)]
    · rfl
  | right =>
    simp only [place, lane]
    split
    · rw [Option.map_some, add_eq_base_add (by omega)]
    · rfl

theorem place_eq_some_iff (ok : ¬ k.Misaligned a) (hj : j < 4) {x : Address} :
    k.place a j = some x ↔ base x = base a ∧ k.lane (offset a) j = some (offset x) := by
  rw [place_eq ok hj]
  cases hl : k.lane (offset a) j with
  | none => simp
  | some l =>
    simp only [Option.map_some, Option.some.injEq]
    rw [base_add_eq_iff (lane_lt ok hj hl), eq_comm (a := l)]

/-- The register byte in a lane of the word. -/
def source (k : AccessKind) (o l : ℕ) : Option ℕ :=
  (List.range 4).find? fun j => k.lane o j == some l

theorem sourceOf_place (ok : ¬ k.Misaligned a) {x : Address} (hx : base x = base a) :
    sourceOf (k.place a) x = k.source (offset a) (offset x) := by
  unfold sourceOf source
  apply List.find?_congr
  intro j hj
  rw [Bool.eq_iff_iff, beq_iff_eq, beq_iff_eq,
    place_eq_some_iff ok (List.mem_range.1 hj)]
  exact and_iff_right hx

/-- A store at byte level is a change of lanes of one aligned word. -/
theorem put_place (ok : ¬ k.Misaligned a) (v w : Word) (m : Memory)
    (hw : ∀ l, l < 4 → byteOf w l = match k.source (offset a) l with
      | some j => byteOf v j
      | none => byteOf (ByteMemory.word m a) l) :
    setWord m a w = put (k.place a) v m := by
  funext x
  simp only [setWord, put]
  split
  case isTrue hx =>
    rw [hw _ (offset_lt x), sourceOf_place ok hx]
    cases k.source (offset a) (offset x) with
    | none => rw [byteOf_word _ _ (offset_lt x), ← hx, base_add_offset]
    | some j => rfl
  case isFalse hx =>
    have hn : sourceOf (k.place a) x = none := by
      rw [sourceOf_eq_none]
      intro j hj hp
      exact hx ((place_eq_some_iff ok hj).1 hp).1
    rw [hn]

/-- A load at byte level picks lanes of one aligned word. -/
theorem get_place (ok : ¬ k.Misaligned a) (w : Word) (m : Memory) (fill : ℕ → Byte)
    (hw : ∀ j, j < 4 → byteOf w j = match k.lane (offset a) j with
      | some l => byteOf (ByteMemory.word m a) l
      | none => fill j) :
    w = get (k.place a) m fill := by
  apply eq_of_byteOf
  intro j hj
  rw [hw j hj, ByteMemory.get, byteOf_ofBytes _ hj, place_eq ok hj]
  cases hl : k.lane (offset a) j with
  | none => rfl
  | some l => exact byteOf_word m a (lane_lt ok hj hl)

end AccessKind

section Lanes

theorem getLsbD_getMask (strobe : Strobe) {l i : ℕ} (hl : l < 4) (hi : i < 8) :
    (getMask strobe).getLsbD (8 * l + i) = strobe.getLsbD l := by
  simp only [getMask, BitVec.getLsbD_append]
  interval_cases l
  · rw [if_pos (by omega)]
    simp [hi]
  · rw [if_neg (by omega), if_pos (by omega)]
    simp [hi, show 8 * 1 + i - 8 = i by omega]
  · rw [if_neg (by omega), if_neg (by omega), if_pos (by omega)]
    simp [hi, show 8 * 2 + i - 8 - 8 = i by omega]
  · rw [if_neg (by omega), if_neg (by omega), if_neg (by omega)]
    simp [hi, show 8 * 3 + i - 8 - 8 - 8 = i by omega]

/-- A lane of a word written under a strobe. -/
theorem byteOf_maskedWrite (strobe : Strobe) (old new : Word) {l : ℕ} (hl : l < 4) :
    byteOf (Lanes.maskedWrite (getMask strobe) old new) l =
      if strobe.getLsbD l then byteOf new l else byteOf old l := by
  apply BitVec.eq_of_getLsbD_eq
  intro i hi
  rw [getLsbD_byteOf _ _ _ hi, Lanes.getLsbD_maskedWrite _ _ _ _ (by omega),
    getLsbD_getMask strobe hl hi]
  split
  · rw [getLsbD_byteOf _ _ _ hi]
  · rw [getLsbD_byteOf _ _ _ hi]

end Lanes

namespace AccessKind

variable (k : AccessKind)

/-- The size and the kind under which the memory stages know the access. -/
def msize : MSize :=
  match k with
  | byte => .size1
  | half => .size2
  | _ => .size4

def memtype : MisalignMem :=
  match k with
  | left => .memL
  | right => .memR
  | _ => .noMisalign

/-- The offset is a multiple of the width. -/
def Fits (o : ℕ) : Prop :=
  match k with
  | half => o % 2 = 0
  | word => o = 0
  | _ => True

variable {k} {o l j : ℕ}

theorem fits_iff {a : Address} : k.Fits (offset a) ↔ ¬ k.Misaligned a := by
  cases k with
  | half =>
    simp only [Fits, Misaligned, offset]
    omega
  | word =>
    simp only [Fits, Misaligned, offset]
    omega
  | _ => simp [Fits, Misaligned]

theorem addrBits (a : Address) : a.extractLsb' 0 2 = BitVec.ofNat 2 (offset a) := by
  apply BitVec.eq_of_toNat_eq
  simp [offset]

/-- The strobes are raised for the lanes that get a byte of the register. -/
theorem writedata_strobe (ho : o < 4) (hl : l < 4) (ok : k.Fits o) (v : Word) :
    (writedata (BitVec.ofNat 2 o) v k.msize k.memtype).2.getLsbD l =
      (k.source o l).isSome := by
  cases k with
  | byte =>
    interval_cases o <;> interval_cases l <;> simp [writedata, msize] <;> rfl
  | half =>
    have hoe : o = 0 ∨ o = 2 := by
      simp only [Fits] at ok
      omega
    rcases hoe with rfl | rfl <;> interval_cases l <;> simp [writedata, msize] <;> rfl
  | word =>
    obtain rfl : o = 0 := ok
    interval_cases l <;> simp [writedata, msize, memtype] <;> rfl
  | left =>
    interval_cases o <;> interval_cases l <;> simp [writedata, msize, memtype] <;> rfl
  | right =>
    interval_cases o <;> interval_cases l <;> simp [writedata, msize, memtype] <;> rfl

/-- A byte of the register is moved to its lane. -/
theorem writedata_byte (ho : o < 4) (hj : j < 4) (ok : k.Fits o) (v : Word)
    (h : k.lane o j = some l) :
    byteOf (writedata (BitVec.ofNat 2 o) v k.msize k.memtype).1 l = byteOf v j := by
  apply BitVec.eq_of_getLsbD_eq
  intro i hi
  rw [getLsbD_byteOf _ _ _ hi, getLsbD_byteOf _ _ _ hi]
  cases k with
  | byte =>
    simp only [lane, Option.ite_none_right_eq_some, Option.some.injEq] at h
    obtain ⟨rfl, rfl⟩ := h
    interval_cases o <;> simp only [writedata, msize, BitVec.getLsbD_append,
      BitVec.getLsbD_setWidth, BitVec.getLsbD_extractLsb', BitVec.getLsbD_zero]
    all_goals grind
  | half =>
    simp only [lane, Option.ite_none_right_eq_some, Option.some.injEq] at h
    obtain ⟨hj', rfl⟩ := h
    simp only [Fits] at ok
    interval_cases o <;> simp only [writedata, msize, BitVec.getLsbD_append,
      BitVec.getLsbD_setWidth, BitVec.getLsbD_extractLsb', BitVec.getLsbD_zero]
    all_goals grind
  | word =>
    obtain rfl : o = 0 := ok
    simp only [lane, Option.some.injEq, Nat.zero_add] at h
    subst h
    rfl
  | left =>
    simp only [lane, Option.ite_none_right_eq_some, Option.some.injEq] at h
    obtain ⟨hjo, rfl⟩ := h
    interval_cases o <;> simp only [writedata, msize, memtype, BitVec.getLsbD_append,
      BitVec.getLsbD_extractLsb', BitVec.getLsbD_zero]
    all_goals grind
  | right =>
    simp only [lane, Option.ite_none_right_eq_some, Option.some.injEq] at h
    obtain ⟨hjo, rfl⟩ := h
    interval_cases o <;> simp only [writedata, msize, memtype, BitVec.getLsbD_append,
      BitVec.getLsbD_extractLsb', BitVec.getLsbD_zero]
    all_goals grind

/-- A load has the byte of its lane where there is one. -/
theorem readdata_byte (ho : o < 4) (hj : j < 4) (ok : k.Fits o) (w old : Word)
    (memUnsigned : Bool) (h : k.lane o j = some l) :
    byteOf (readdata w (BitVec.ofNat 2 o) k.msize memUnsigned k.memtype old) j =
      byteOf w l := by
  apply BitVec.eq_of_getLsbD_eq
  intro i hi
  rw [getLsbD_byteOf _ _ _ hi, getLsbD_byteOf _ _ _ hi]
  cases k with
  | byte =>
    simp only [lane, Option.ite_none_right_eq_some, Option.some.injEq] at h
    obtain ⟨rfl, rfl⟩ := h
    interval_cases o <;> simp only [readdata, msize, BitVec.getLsbD_append,
      BitVec.getLsbD_extractLsb']
    all_goals grind
  | half =>
    simp only [lane, Option.ite_none_right_eq_some, Option.some.injEq] at h
    obtain ⟨hj', rfl⟩ := h
    simp only [Fits] at ok
    interval_cases o <;> simp only [readdata, msize, BitVec.getLsbD_append,
      BitVec.getLsbD_extractLsb']
    all_goals grind
  | word =>
    obtain rfl : o = 0 := ok
    simp only [lane, Option.some.injEq, Nat.zero_add] at h
    subst h
    rfl
  | left =>
    simp only [lane, Option.ite_none_right_eq_some, Option.some.injEq] at h
    obtain ⟨hjo, rfl⟩ := h
    interval_cases o <;> interval_cases j <;> simp only [readdata, msize, memtype,
      BitVec.getLsbD_append, BitVec.getLsbD_extractLsb']
    all_goals grind
  | right =>
    simp only [lane, Option.ite_none_right_eq_some, Option.some.injEq] at h
    obtain ⟨hjo, rfl⟩ := h
    interval_cases o <;> simp only [readdata, msize, memtype, BitVec.getLsbD_append,
      BitVec.getLsbD_extractLsb']
    all_goals grind

/-- The byte that extends a value. -/
def extension (memUnsigned : Bool) (top : Byte) : Byte :=
  if !memUnsigned && top.msb then 0xff#8 else 0#8

/-- The bytes of a loaded register that have no place: the extension of the value, or the old
contents. -/
def filling (k : AccessKind) (memUnsigned : Bool) (m : Memory) (a : Address) (old : Word)
    (j : ℕ) : Byte :=
  match k with
  | byte => extension memUnsigned (m a)
  | half => extension memUnsigned (m (a + 1#32))
  | _ => byteOf old j

theorem getLsbD_extension (memUnsigned : Bool) (top : Byte) {i : ℕ} (hi : i < 8) :
    (extension memUnsigned top).getLsbD i = signBit memUnsigned top.msb := by
  unfold extension signBit
  interval_cases i <;> cases memUnsigned <;> cases top.msb <;> rfl

/-- The part of a byte load above the byte. -/
theorem byteOf_fill_byte (s : Bool) (b : Byte) (hj : j < 4) (h0 : j ≠ 0) {i : ℕ}
    (hi : i < 8) : (byteOf (BitVec.fill 24 s ++ b : BitVec 32) j).getLsbD i = s := by
  rw [getLsbD_byteOf _ _ _ hi, BitVec.getLsbD_append, if_neg (by omega), BitVec.getLsbD_fill,
    decide_eq_true (by omega), Bool.and_true]

/-- The part of a halfword load above the halfword. -/
theorem byteOf_fill_half (s : Bool) (h : BitVec 16) (hj : j < 4) (h2 : ¬ j < 2) {i : ℕ}
    (hi : i < 8) : (byteOf (BitVec.fill 16 s ++ h : BitVec 32) j).getLsbD i = s := by
  rw [getLsbD_byteOf _ _ _ hi, BitVec.getLsbD_append, if_neg (by omega), BitVec.getLsbD_fill,
    decide_eq_true (by omega), Bool.and_true]

/-- A byte of the register without a place is extended, or kept. -/
theorem readdata_filling {a : Address} (hj : j < 4) (ok : k.Fits (offset a)) (m : Memory)
    (old : Word) (memUnsigned : Bool) (h : k.lane (offset a) j = none) :
    byteOf (readdata (ByteMemory.word m a) (BitVec.ofNat 2 (offset a)) k.msize memUnsigned
      k.memtype old) j = k.filling memUnsigned m a old j := by
  have ho := offset_lt a
  apply BitVec.eq_of_getLsbD_eq
  intro i hi
  cases k with
  | byte =>
    have hj0 : j ≠ 0 := by
      rintro rfl
      simp [lane] at h
    have htop : m a = byteOf (ByteMemory.word m a) (offset a) := by
      rw [byteOf_word _ _ ho, base_add_offset]
    rw [filling, getLsbD_extension _ _ hi, htop]
    generalize offset a = o at ho
    interval_cases o
    all_goals exact byteOf_fill_byte _ _ hj hj0 hi
  | half =>
    have hj2 : ¬ j < 2 := by
      intro hj2
      simp [lane, hj2] at h
    have hlt : offset a + 1 < 4 := by
      simp only [Fits] at ok
      omega
    have htop : m (a + 1#32) = byteOf (ByteMemory.word m a) (offset a + 1) := by
      rw [byteOf_word _ _ hlt, ← add_eq_base_add hlt]
    have hmsb : ∀ (w : Word) (l : ℕ), l < 4 → (byteOf w l).msb = w.getLsbD (8 * l + 7) :=
      fun w l _ => by
        rw [BitVec.msb_eq_getLsbD_last, getLsbD_byteOf _ _ _ (by omega)]
    rw [filling, getLsbD_extension _ _ hi, htop, hmsb _ _ hlt]
    simp only [Fits] at ok
    generalize offset a = o at ho hlt ok
    have hoe : o = 0 ∨ o = 2 := by omega
    rcases hoe with rfl | rfl
    all_goals exact byteOf_fill_half _ _ hj hj2 hi
  | word => simp [lane] at h
  | left =>
    simp only [lane, ite_eq_right_iff, reduceCtorEq, imp_false] at h
    rw [filling, getLsbD_byteOf _ _ _ hi, getLsbD_byteOf _ _ _ hi]
    generalize offset a = o at ho h
    interval_cases o <;> interval_cases j <;> simp only [readdata, msize, memtype,
      BitVec.getLsbD_append, BitVec.getLsbD_extractLsb']
    all_goals grind
  | right =>
    simp only [lane, ite_eq_right_iff, reduceCtorEq, imp_false] at h
    rw [filling, getLsbD_byteOf _ _ _ hi, getLsbD_byteOf _ _ _ hi]
    generalize offset a = o at ho h
    interval_cases o <;> interval_cases j <;> simp only [readdata, msize, memtype,
      BitVec.getLsbD_append, BitVec.getLsbD_extractLsb']
    all_goals grind

/-- What `readdata` makes of the aligned word is the access at byte level. -/
theorem readdata_eq_get {a : Address} (ok : ¬ k.Misaligned a) (m : Memory) (old : Word)
    (memUnsigned : Bool) :
    readdata (ByteMemory.word m a) (a.extractLsb' 0 2) k.msize memUnsigned k.memtype old =
      get (k.place a) m (k.filling memUnsigned m a old) := by
  rw [addrBits]
  apply get_place ok
  intro j hj
  cases hl : k.lane (offset a) j with
  | none => exact readdata_filling hj (fits_iff.2 ok) m old memUnsigned hl
  | some l => exact readdata_byte (offset_lt a) hj (fits_iff.2 ok) _ old memUnsigned hl

/-- What `writedata` makes of the aligned word is the access at byte level. -/
theorem writedata_eq_put {a : Address} (ok : ¬ k.Misaligned a) (m : Memory) (v : Word) :
    setWord m a
      (Lanes.maskedWrite (getMask (writedata (a.extractLsb' 0 2) v k.msize k.memtype).2)
        (ByteMemory.word m a) (writedata (a.extractLsb' 0 2) v k.msize k.memtype).1) =
      put (k.place a) v m := by
  rw [addrBits]
  apply put_place ok
  intro l hl
  rw [byteOf_maskedWrite _ _ _ hl, writedata_strobe (offset_lt a) hl (fits_iff.2 ok)]
  cases hs : k.source (offset a) l with
  | none => rfl
  | some j =>
    have hj := List.mem_range.1 (List.mem_of_find?_eq_some hs)
    have hlane := List.find?_some hs
    rw [Option.isSome_some, if_pos rfl]
    exact writedata_byte (offset_lt a) hj (fits_iff.2 ok) v (by simpa using hlane)

/-- The places of a right access at `a` are bytes of the unaligned word there. -/
theorem right_within (a : Address) : Within (right.place a) a := by
  intro j hj
  simp only [place]
  split
  · exact Or.inr rfl
  · exact Or.inl rfl

/-- So are those of a left access at its last byte. -/
theorem left_within (a : Address) : Within (left.place (a + 3#32)) a := by
  intro j hj
  simp only [place]
  split
  · refine Or.inr (congrArg some ?_)
    interval_cases j <;> bv_omega
  · exact Or.inl rfl

/-- Between them they have a place for every byte. -/
theorem pair_covers (a : Address) :
    ∀ j, j < 4 → right.place a j = none → left.place (a + 3#32) j ≠ none := by
  intro j hj h
  have ho : offset (a + 3#32) = (offset a + 3) % 4 := by
    simp only [offset, BitVec.toNat_add, BitVec.toNat_ofNat]
    omega
  have hlt := offset_lt a
  simp only [place, ite_eq_right_iff, reduceCtorEq, imp_false] at h
  simp only [place, ho]
  rw [if_pos (by omega)]
  simp

end AccessKind

end FrailCPU
