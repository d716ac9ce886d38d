import SeKernel.Lib.Masks
import SeKernel.Memory.Word

/-!
# Frames of the bus

Every address falls into one of the 256-byte frames of the 24-bit bus (`busFrame`), and the four
bytes of its word fall into the same one. So reading a word depends on its frame only, and writing
one changes its frame only; a word that was written reads back. `AgreeOn F` says that two memories
have the same bytes in the frames of `F`.
-/

namespace SeKernel

/-- The frame of the bus that an address falls into. -/
def busFrame (a : Word) : Nat := a.toNat % 2 ^ 24 / 256

/-- Two memories with the same bytes in the frames of `F`. -/
def AgreeOn (F : Set Nat) (m m' : Memory) : Prop := ∀ x, busFrame x ∈ F → m x = m' x

variable {F G : Set Nat} {m m' m'' : Memory} {a w : Word}

theorem AgreeOn.refl (F : Set Nat) (m : Memory) : AgreeOn F m m := fun _ _ => rfl

theorem AgreeOn.symm (h : AgreeOn F m m') : AgreeOn F m' m := fun x hx => (h x hx).symm

theorem AgreeOn.trans (h : AgreeOn F m m') (h' : AgreeOn F m' m'') : AgreeOn F m m'' :=
  fun x hx => (h x hx).trans (h' x hx)

theorem AgreeOn.mono (h : AgreeOn F m m') (hGF : G ⊆ F) : AgreeOn G m m' :=
  fun x hx => h x (hGF hx)

/-! ## The bytes of a word -/

theorem wordStartAddress_toNat (a : Word) :
    (wordStartAddress a).toNat = a.toNat % 2 ^ 24 / 4 * 4 :=
  Masks.toNat_and_mask (k := 2) (m := 24) a (by decide) (by decide)

/-- The bytes of a word lie in the frame of its address. -/
theorem busFrame_byte (a : Word) {i : Nat} (hi : i < 4) :
    busFrame (wordStartAddress a + BitVec.ofNat 32 i) = busFrame a := by
  have hstart := wordStartAddress_toNat a
  have hbyte : (wordStartAddress a + BitVec.ofNat 32 i).toNat = a.toNat % 2 ^ 24 / 4 * 4 + i := by
    rw [BitVec.toNat_add, hstart, BitVec.toNat_ofNat]
    omega
  unfold busFrame
  rw [hbyte]
  omega

theorem pmReadWord_eq (m : Memory) (a : Word) :
    pmReadWord m a =
      ((((0 : Word) <<< 8 ||| (m (wordStartAddress a + .ofNat 32 0)).setWidth 32) <<< 8 |||
        (m (wordStartAddress a + .ofNat 32 1)).setWidth 32) <<< 8 |||
        (m (wordStartAddress a + .ofNat 32 2)).setWidth 32) <<< 8 |||
        (m (wordStartAddress a + .ofNat 32 3)).setWidth 32 := rfl

theorem pmWriteWord_eq (m : Memory) (a w : Word) :
    pmWriteWord m a w =
      Function.update (Function.update (Function.update (Function.update m
        (wordStartAddress a + .ofNat 32 3) (w.setWidth 8))
        (wordStartAddress a + .ofNat 32 2) ((w >>> 8).setWidth 8))
        (wordStartAddress a + .ofNat 32 1) ((w >>> 8 >>> 8).setWidth 8))
        (wordStartAddress a + .ofNat 32 0) ((w >>> 8 >>> 8 >>> 8).setWidth 8) := rfl

/-- A byte outside a written word is not changed. -/
theorem pmWriteWord_of_ne (m : Memory) (a w : Word) {x : Word}
    (hx : ∀ i < busDataBytesSize, x ≠ wordStartAddress a + BitVec.ofNat 32 i) :
    pmWriteWord m a w x = m x := by
  rw [pmWriteWord_eq, Function.update_of_ne (hx 0 (by decide)),
    Function.update_of_ne (hx 1 (by decide)), Function.update_of_ne (hx 2 (by decide)),
    Function.update_of_ne (hx 3 (by decide))]

/-- Reading a word depends on the bytes of its frame only. -/
theorem pmReadWord_congr (h : AgreeOn F m m') (ha : busFrame a ∈ F) :
    pmReadWord m a = pmReadWord m' a := by
  have hbyte (i : Nat) (hi : i < 4) : m (wordStartAddress a + BitVec.ofNat 32 i) =
      m' (wordStartAddress a + BitVec.ofNat 32 i) :=
    h _ (by rw [busFrame_byte a hi]; exact ha)
  rw [pmReadWord_eq, pmReadWord_eq]
  rw [hbyte 0 (by decide), hbyte 1 (by decide), hbyte 2 (by decide), hbyte 3 (by decide)]

/-- Writing a word changes bytes of its frame only. -/
theorem pmWriteWord_agree (ha : busFrame a ∉ F) : AgreeOn F m (pmWriteWord m a w) := by
  intro x hx
  have hne (i : Nat) (hi : i < 4) : x ≠ wordStartAddress a + BitVec.ofNat 32 i := by
    intro he
    rw [he, busFrame_byte a hi] at hx
    exact ha hx
  rw [pmWriteWord_eq, Function.update_of_ne (hne 0 (by decide)),
    Function.update_of_ne (hne 1 (by decide)), Function.update_of_ne (hne 2 (by decide)),
    Function.update_of_ne (hne 3 (by decide))]

theorem AgreeOn.update (h : AgreeOn F m m') (x : Word) (b : BitVec 8) :
    AgreeOn F (Function.update m x b) (Function.update m' x b) := by
  intro y hy
  by_cases hyx : y = x
  · subst hyx
    simp
  · rw [Function.update_of_ne hyx, Function.update_of_ne hyx]
    exact h y hy

/-- Writing the same word keeps an agreement. -/
theorem AgreeOn.pmWriteWord (h : AgreeOn F m m') (a w : Word) :
    AgreeOn F (pmWriteWord m a w) (pmWriteWord m' a w) := by
  rw [pmWriteWord_eq, pmWriteWord_eq]
  exact (((h.update _ _).update _ _).update _ _).update _ _

/-! ## Reading back a word -/

/-- The bytes that a word is written as, joined again. -/
theorem join_bytes (w : Word) :
    ((((0 : Word) <<< 8 ||| ((w >>> 8 >>> 8 >>> 8).setWidth 8).setWidth 32) <<< 8 |||
      ((w >>> 8 >>> 8).setWidth 8).setWidth 32) <<< 8 |||
      ((w >>> 8).setWidth 8).setWidth 32) <<< 8 |||
      (w.setWidth 8).setWidth 32 = w := by
  ext i hi
  simp only [BitVec.getElem_or, BitVec.getElem_shiftLeft, BitVec.getElem_setWidth,
    BitVec.getLsbD_setWidth, BitVec.getLsbD_ushiftRight]
  by_cases h1 : i < 8
  · simp [h1]
    grind
  · by_cases h2 : i < 16
    · simp [h1]
      grind
    · by_cases h3 : i < 24 <;> grind

/-- Reference: `pm_read_word` (`src/memory_s.c:8`) after `pm_write_word` (`src/memory_s.c:20`). -/
theorem pmReadWord_pmWriteWord (m : Memory) (a w : Word) :
    pmReadWord (pmWriteWord m a w) a = w := by
  have hne {i j : Nat} (hi : i < 4) (hj : j < 4) (hij : i ≠ j) :
      wordStartAddress a + BitVec.ofNat 32 i ≠ wordStartAddress a + BitVec.ofNat 32 j := by
    intro h
    have hij' := congrArg BitVec.toNat ((BitVec.add_right_inj _).1 h)
    rw [BitVec.toNat_ofNat, BitVec.toNat_ofNat] at hij'
    omega
  rw [pmReadWord_eq, pmWriteWord_eq]
  simp only [Function.update_apply, hne (i := 1) (j := 0) (by decide) (by decide) (by decide),
    hne (i := 2) (j := 0) (by decide) (by decide) (by decide),
    hne (i := 2) (j := 1) (by decide) (by decide) (by decide),
    hne (i := 3) (j := 0) (by decide) (by decide) (by decide),
    hne (i := 3) (j := 1) (by decide) (by decide) (by decide),
    hne (i := 3) (j := 2) (by decide) (by decide) (by decide), if_true, if_false]
  exact join_bytes w

/-- Two addresses of one word read alike. -/
theorem pmReadWord_congr_word (m : Memory) {a b : Word}
    (hab : wordStartAddress a = wordStartAddress b) :
    pmReadWord m a = pmReadWord m b := by
  unfold pmReadWord
  rw [hab]

/-- Writing a word leaves the other words alone. -/
theorem pmReadWord_pmWriteWord_of_ne (m : Memory) (w : Word) {a b : Word}
    (hab : wordStartAddress a ≠ wordStartAddress b) :
    pmReadWord (pmWriteWord m a w) b = pmReadWord m b := by
  have hne {i j : Nat} (hi : i < 4) (hj : j < 4) :
      wordStartAddress b + BitVec.ofNat 32 j ≠ wordStartAddress a + BitVec.ofNat 32 i := by
    intro h
    have hsum := congrArg BitVec.toNat h
    have ha := wordStartAddress_toNat a
    have hb := wordStartAddress_toNat b
    rw [BitVec.toNat_add, BitVec.toNat_add, BitVec.toNat_ofNat, BitVec.toNat_ofNat] at hsum
    exact hab (BitVec.eq_of_toNat_eq (by omega))
  have hbyte (j : Nat) (hj : j < 4) : pmWriteWord m a w (wordStartAddress b + BitVec.ofNat 32 j) =
      m (wordStartAddress b + BitVec.ofNat 32 j) := by
    rw [pmWriteWord_eq, Function.update_of_ne (hne (by decide) hj),
      Function.update_of_ne (hne (by decide) hj), Function.update_of_ne (hne (by decide) hj),
      Function.update_of_ne (hne (by decide) hj)]
  rw [pmReadWord_eq, pmReadWord_eq, hbyte 0 (by decide), hbyte 1 (by decide), hbyte 2 (by decide),
    hbyte 3 (by decide)]

end SeKernel
