import SeKernel.Memory.Frame

/-!
# The laws of the store

What a word access does at one byte: a write puts byte `i` of the word at the `i`-th address of the
word and leaves every other address alone (`pmWriteWord_apply`), and byte `i` of the word that is
read is the byte at that address (`wordByte_pmReadWord`). The laws of a store follow at every
address, masked or not (`storeLaws`). A cell is a `char`; it is converted to `uint8_t` when it is
read, so its sign does not matter.
-/

namespace SeKernel

/-- Byte `i` of a word, counted from the most significant one. -/
def wordByte (w : Word) (i : Nat) : BitVec 8 := (w >>> (8 * (3 - i))).setWidth 8

/-- The address `x` lies in the word of `a`. -/
def InWord (a x : Word) : Prop :=
  (wordStartAddress a).toNat ≤ x.toNat ∧ x.toNat ≤ (wordStartAddress a).toNat + 3

instance (a x : Word) : Decidable (InWord a x) := inferInstanceAs (Decidable (_ ∧ _))

variable {m m' : Memory} {a b x w w₂ : Word}

/-! ## One byte -/

theorem wordStartAddress_lt (a : Word) :
    (wordStartAddress a).toNat % 4 = 0 ∧ (wordStartAddress a).toNat + 3 < 2 ^ 24 := by
  rw [wordStartAddress_toNat]
  omega

/-- The indices that an access uses. -/
theorem wordStartAddress_add_toNat (a : Word) {i : Nat} (hi : i < busDataBytesSize) :
    (wordStartAddress a + BitVec.ofNat 32 i).toNat = (wordStartAddress a).toNat + i := by
  have hlt := (wordStartAddress_lt a).2
  rw [show busDataBytesSize = 4 from rfl] at hi
  rw [BitVec.toNat_add, BitVec.toNat_ofNat]
  omega

theorem eq_wordStartAddress_add (h : InWord a x) :
    x.toNat - (wordStartAddress a).toNat < busDataBytesSize ∧
      x = wordStartAddress a + BitVec.ofNat 32 (x.toNat - (wordStartAddress a).toNat) := by
  obtain ⟨hle, hge⟩ := h
  have hi : x.toNat - (wordStartAddress a).toNat < busDataBytesSize := by
    rw [show busDataBytesSize = 4 from rfl]
    omega
  refine ⟨hi, BitVec.eq_of_toNat_eq ?_⟩
  rw [wordStartAddress_add_toNat a hi]
  omega

/-- Reference: `pm_write_word` (`src/memory_s.c:25`). -/
theorem pmWriteWord_byte (m : Memory) (a w : Word) {i : Nat} (hi : i < busDataBytesSize) :
    pmWriteWord m a w (wordStartAddress a + BitVec.ofNat 32 i) = wordByte w i := by
  have hne {j k : Nat} (hj : j < busDataBytesSize) (hk : k < busDataBytesSize) (hjk : j ≠ k) :
      wordStartAddress a + BitVec.ofNat 32 j ≠ wordStartAddress a + BitVec.ofNat 32 k := by
    intro h
    have hsum := congrArg BitVec.toNat h
    rw [wordStartAddress_add_toNat a hj, wordStartAddress_add_toNat a hk] at hsum
    omega
  rw [pmWriteWord_eq]
  match i, hi with
  | 0, _ =>
    rw [Function.update_self]
    simp [wordByte, ← BitVec.shiftRight_add]
  | 1, h =>
    rw [Function.update_of_ne (hne h (by decide) (by decide)), Function.update_self]
    simp [wordByte, ← BitVec.shiftRight_add]
  | 2, h =>
    rw [Function.update_of_ne (hne h (by decide) (by decide)),
      Function.update_of_ne (hne h (by decide) (by decide)), Function.update_self]
    simp [wordByte]
  | 3, h =>
    rw [Function.update_of_ne (hne h (by decide) (by decide)),
      Function.update_of_ne (hne h (by decide) (by decide)),
      Function.update_of_ne (hne h (by decide) (by decide)), Function.update_self]
    simp [wordByte]

/-- A written memory at any address. Reference: `pm_write_word` (`src/memory_s.c:20`). -/
theorem pmWriteWord_apply (m : Memory) (a w x : Word) :
    pmWriteWord m a w x =
      if InWord a x then wordByte w (x.toNat - (wordStartAddress a).toNat) else m x := by
  by_cases h : InWord a x
  · obtain ⟨hi, hx⟩ := eq_wordStartAddress_add h
    rw [if_pos h]
    conv_lhs => rw [hx]
    exact pmWriteWord_byte m a w hi
  · rw [if_neg h]
    refine pmWriteWord_of_ne m a w fun i hi hx => h ?_
    rw [InWord, hx, wordStartAddress_add_toNat a hi]
    rw [show busDataBytesSize = 4 from rfl] at hi
    omega

/-- The bytes of the word that is read. Reference: `pm_read_word` (`src/memory_s.c:8`). -/
theorem wordByte_pmReadWord (m : Memory) (h : InWord a x) :
    wordByte (pmReadWord m a) (x.toNat - (wordStartAddress a).toNat) = m x := by
  obtain ⟨hi, hx⟩ := eq_wordStartAddress_add h
  rw [pmReadWord_eq, wordByte]
  conv_rhs => rw [hx]
  generalize x.toNat - (wordStartAddress a).toNat = i at hi
  match i, hi with
  | 0, _ =>
    ext k hk
    simp
    grind
  | 1, _ =>
    ext k hk
    simp
    grind
  | 2, _ =>
    ext k hk
    simp [hk]
    grind
  | 3, _ =>
    ext k hk
    simp

/-! ## The laws -/

/-- Writing back the word that is there changes nothing. -/
theorem pmWriteWord_pmReadWord (m : Memory) (a : Word) : pmWriteWord m a (pmReadWord m a) = m := by
  funext x
  rw [pmWriteWord_apply]
  by_cases h : InWord a x
  · rw [if_pos h]
    exact wordByte_pmReadWord m h
  · rw [if_neg h]

/-- The last write to a word counts. -/
theorem pmWriteWord_pmWriteWord (m : Memory) (w w₂ : Word)
    (hab : wordStartAddress a = wordStartAddress b) :
    pmWriteWord (pmWriteWord m a w) b w₂ = pmWriteWord m b w₂ := by
  funext x
  have hword : InWord a x ↔ InWord b x := by rw [InWord, InWord, hab]
  rw [pmWriteWord_apply _ b, pmWriteWord_apply _ b]
  by_cases h : InWord b x
  · rw [if_pos h, if_pos h]
  · rw [if_neg h, if_neg h, pmWriteWord_apply, if_neg fun ha => h (hword.1 ha)]

/-- Writes to two words commute: an address lies in one of them at most. -/
theorem pmWriteWord_comm (m : Memory) (w w₂ : Word)
    (hab : wordStartAddress a ≠ wordStartAddress b) :
    pmWriteWord (pmWriteWord m a w) b w₂ = pmWriteWord (pmWriteWord m b w₂) a w := by
  funext x
  have hapart : ¬ (InWord a x ∧ InWord b x) := by
    intro h
    have ha := (wordStartAddress_lt a).1
    have hb := (wordStartAddress_lt b).1
    unfold InWord at h
    exact hab (BitVec.eq_of_toNat_eq (by omega))
  rw [pmWriteWord_apply _ b, pmWriteWord_apply _ a, pmWriteWord_apply _ a, pmWriteWord_apply _ b]
  by_cases ha : InWord a x
  · have hb : ¬ InWord b x := fun hb => hapart ⟨ha, hb⟩
    rw [if_neg hb, if_pos ha, if_pos ha]
  · rw [if_neg ha, if_neg ha]

/-- Reading uses the bytes of the bus only. -/
theorem pmReadWord_congr_bus (hbus : ∀ x, x.toNat < 2 ^ 24 → m x = m' x) (a : Word) :
    pmReadWord m a = pmReadWord m' a := by
  have hbyte (i : Nat) (hi : i < busDataBytesSize) :
      m (wordStartAddress a + BitVec.ofNat 32 i) = m' (wordStartAddress a + BitVec.ofNat 32 i) := by
    have hlt := (wordStartAddress_lt a).2
    refine hbus _ ?_
    rw [wordStartAddress_add_toNat a hi]
    rw [show busDataBytesSize = 4 from rfl] at hi
    omega
  rw [pmReadWord_eq, pmReadWord_eq, hbyte 0 (by decide), hbyte 1 (by decide), hbyte 2 (by decide),
    hbyte 3 (by decide)]

/-- The store laws, for every memory, all addresses and all words: read after write, the frame of a
write, write after read, write after write on one word and on two, and the range of the indices.
Reference: `pm_read_word` (`src/memory_s.c:8`), `pm_write_word` (`src/memory_s.c:20`). -/
theorem storeLaws (m : Memory) (a b w w₂ : Word) :
    wordStartAddress a = a &&& 0xFFFFFC ∧ wordStartAddress b = b &&& 0xFFFFFC ∧
    pmReadWord (pmWriteWord m a w) b =
      (if wordStartAddress a = wordStartAddress b then w else pmReadWord m b) ∧
    (∀ x : Word, ¬ ((wordStartAddress a).toNat ≤ x.toNat ∧
        x.toNat ≤ (wordStartAddress a).toNat + 3) → pmWriteWord m a w x = m x) ∧
    pmWriteWord m a (pmReadWord m a) = m ∧
    (wordStartAddress a = wordStartAddress b →
      pmWriteWord (pmWriteWord m a w) b w₂ = pmWriteWord m b w₂) ∧
    (wordStartAddress a ≠ wordStartAddress b →
      pmWriteWord (pmWriteWord m a w) b w₂ = pmWriteWord (pmWriteWord m b w₂) a w) ∧
    (∀ i < busDataBytesSize, (wordStartAddress a + BitVec.ofNat 32 i).toNat < 2 ^ 24) ∧
    ∀ m' : Memory, (∀ x, x.toNat < 2 ^ 24 → m x = m' x) → pmReadWord m a = pmReadWord m' a := by
  refine ⟨rfl, rfl, ?_, ?_, pmWriteWord_pmReadWord m a, pmWriteWord_pmWriteWord m w w₂,
    pmWriteWord_comm m w w₂, ?_, fun m' hbus => pmReadWord_congr_bus hbus a⟩
  · by_cases hab : wordStartAddress a = wordStartAddress b
    · rw [if_pos hab, ← pmReadWord_congr_word _ hab, pmReadWord_pmWriteWord]
    · rw [if_neg hab, pmReadWord_pmWriteWord_of_ne m w hab]
  · intro x hx
    rw [pmWriteWord_apply]
    exact if_neg hx
  · intro i hi
    have hlt := (wordStartAddress_lt a).2
    rw [wordStartAddress_add_toNat a hi]
    rw [show busDataBytesSize = 4 from rfl] at hi
    omega

end SeKernel
