import Mathlib.Data.List.Induction
import SeKernel.Loader.Text

/-!
# Hexadecimal words

`__hex_string_to_int32` reads exactly the strings that begin with eight hexadecimal digits, as the
number these write in base 16, and leaves `*result` alone otherwise (`hexStringToInt32_exact`).
Digits and their values are stated here without the code: a character is looked up in the list of
the sixteen digits. A `char` above 127 is negative in the source and in none of the three ranges,
as it is here.
-/

namespace SeKernel

/-- The loop of `__hex_string_to_int32` with its out-parameter: what it returns and what `*result`
holds then. Reference: `__hex_string_to_int32` (`src/loader_s.c:145`). -/
def hexStringLoopResult (result : Word) (currentNibble : Nat) (currentData : Word) :
    List Char → Int × Word
  | [] => (0, result)
  | hexChar :: rest =>
    match hexCharToInt4 hexChar with
    | none => (0, result)
    | some currentNibbleValue =>
      let currentData :=
        currentData ||| BitVec.ofNat 32 currentNibbleValue <<< (28 - currentNibble * 4)
      if currentNibble + 1 = 8 then
        (1, currentData)
      else
        hexStringLoopResult result (currentNibble + 1) currentData rest

/-- Reference: `__hex_string_to_int32` (`src/loader_s.c:142`). -/
def hexStringToInt32Result (hexString : List Char) (result : Word) : Int × Word :=
  hexStringLoopResult result 0 0 hexString

/-! ## Hexadecimal -/

/-- The digits of base 16 in lower case. -/
def hexDigits : List Char :=
  ['0', '1', '2', '3', '4', '5', '6', '7', '8', '9', 'a', 'b', 'c', 'd', 'e', 'f']

/-- The digits that have an upper case. -/
def upperHexDigits : List Char := ['A', 'B', 'C', 'D', 'E', 'F']

def IsHexDigit (ch : Char) : Prop := ch ∈ hexDigits ∨ ch ∈ upperHexDigits

instance (ch : Char) : Decidable (IsHexDigit ch) :=
  inferInstanceAs (Decidable (ch ∈ hexDigits ∨ ch ∈ upperHexDigits))

/-- The value of a digit of either case. -/
def digitValue (ch : Char) : Nat := hexDigits.idxOf ch.toLower

/-- The number that digits write, the first one the most significant. -/
def base16 (digits : List Char) : Nat :=
  digits.foldl (fun value ch => 16 * value + digitValue ch) 0

/-- The eight digits of a word in lower case. -/
def spelling (w : Word) : List Char :=
  (List.range 8).map fun i => hexDigits.getD (w.toNat / 16 ^ (7 - i) % 16) '0'

/-- The string begins with eight hexadecimal digits. -/
def BeginsWithWord (s : List Char) : Prop := 8 ≤ s.length ∧ ∀ ch ∈ s.take 8, IsHexDigit ch

variable {ch : Char} {s rest : List Char} {result data : Word} {i : Nat}

/-! ## One character -/

theorem mem_of_toNat_between {lo n : Nat} (hlo : lo ≤ ch.toNat) (hhi : ch.toNat < lo + n) :
    ch ∈ (List.range' lo n).map Char.ofNat := by
  refine List.mem_map.2 ⟨ch.toNat, List.mem_range'_1.2 ⟨hlo, hhi⟩, Char.ofNat_toNat ch⟩

/-- A character that the code takes for a digit is one. -/
theorem isHexDigit_of_hexCharToInt4 {value : Nat} (h : hexCharToInt4 ch = some value) :
    IsHexDigit ch := by
  have hranges : (List.range' 48 10).map Char.ofNat ⊆ hexDigits ∧
      (List.range' 65 6).map Char.ofNat ⊆ upperHexDigits ∧
      (List.range' 97 6).map Char.ofNat ⊆ hexDigits := by decide
  rcases hexCharToInt4_cases h with ⟨hlo, hhi, -⟩ | ⟨hlo, hhi, -⟩ | ⟨hlo, hhi, -⟩
  · exact .inl (hranges.1 (mem_of_toNat_between hlo (Nat.lt_succ_of_le hhi)))
  · exact .inr (hranges.2.1 (mem_of_toNat_between hlo (Nat.lt_succ_of_le hhi)))
  · exact .inl (hranges.2.2 (mem_of_toNat_between hlo (Nat.lt_succ_of_le hhi)))

/-- Reference: `__hex_char_to_int4` (`src/loader_s.c:160`). -/
theorem hexCharToInt4_eq (ch : Char) :
    hexCharToInt4 ch = if IsHexDigit ch then some (digitValue ch) else none := by
  by_cases h : IsHexDigit ch
  · have hdigits : ((hexDigits ++ upperHexDigits).all fun ch =>
        hexCharToInt4 ch = some (digitValue ch)) = true := by decide
    rw [if_pos h]
    exact of_decide_eq_true (List.all_eq_true.1 hdigits ch (List.mem_append.2 h))
  · rw [if_neg h]
    cases hvalue : hexCharToInt4 ch with
    | none => rfl
    | some value => exact absurd (isHexDigit_of_hexCharToInt4 hvalue) h

theorem isSome_hexCharToInt4 : (hexCharToInt4 ch).isSome ↔ IsHexDigit ch := by
  rw [hexCharToInt4_eq]
  by_cases h : IsHexDigit ch <;> simp [h]

/-! ## The loop -/

/-- `*result` is written when the function returns 1, and not otherwise. -/
theorem hexStringLoopResult_eq (result : Word) (s : List Char) (i : Nat) (data : Word) :
    hexStringLoopResult result i data s =
      match hexStringLoop i data s with
      | none => (0, result)
      | some w => (1, w) := by
  induction s generalizing i data with
  | nil => rfl
  | cons ch s ih =>
    unfold hexStringLoopResult hexStringLoop
    cases hexCharToInt4 ch with
    | none => rfl
    | some value =>
      dsimp only
      by_cases hlast : i + 1 = 8
      · rw [if_pos hlast, if_pos hlast]
      · rw [if_neg hlast, if_neg hlast]
        exact ih _ _

/-- The loop comes to the eighth digit only through digits. -/
theorem beginsWith_of_hexStringLoop {w : Word} (hi : i < 8)
    (h : hexStringLoop i data s = some w) :
    8 - i ≤ s.length ∧ ∀ ch ∈ s.take (8 - i), IsHexDigit ch := by
  induction s generalizing i data with
  | nil => cases h
  | cons ch s ih =>
    unfold hexStringLoop at h
    cases hvalue : hexCharToInt4 ch with
    | none =>
      rw [hvalue] at h
      cases h
    | some value =>
      have hdigit := isHexDigit_of_hexCharToInt4 hvalue
      rw [hvalue] at h
      dsimp only at h
      rw [show 8 - i = (7 - i) + 1 by omega, List.take_succ_cons, List.length_cons]
      by_cases hlast : i + 1 = 8
      · rw [show 7 - i = 0 by omega]
        exact ⟨by omega, by simpa using hdigit⟩
      · rw [if_neg hlast] at h
        obtain ⟨hlength, hrest⟩ := ih (by omega) h
        rw [show 8 - (i + 1) = 7 - i by omega] at hlength hrest
        exact ⟨by omega, List.forall_mem_cons.2 ⟨hdigit, hrest⟩⟩

theorem foldl_hexCharToInt4 (hs : ∀ ch ∈ s, IsHexDigit ch) (value : Nat) :
    s.foldl (fun value ch => 16 * value + (hexCharToInt4 ch).getD 0) value =
      s.foldl (fun value ch => 16 * value + digitValue ch) value := by
  refine List.foldl_ext _ _ _ fun value ch hch => ?_
  rw [hexCharToInt4_eq, if_pos (hs ch hch), Option.getD_some]

/-- A string that begins with a word is read. -/
theorem BeginsWithWord.hexStringToInt32 (h : BeginsWithWord s) :
    hexStringToInt32 s = some (BitVec.ofNat 32 (base16 (s.take 8))) := by
  obtain ⟨hlength, hdigits⟩ := h
  have htake : (s.take 8).length = 8 := by
    rw [List.length_take]
    omega
  have hloop : hexStringLoop 0 0 (s.take 8 ++ s.drop 8) = some (BitVec.ofNat 32
      ((s.take 8).foldl (fun value ch => 16 * value + (hexCharToInt4 ch).getD 0) 0)) :=
    hexStringLoop_eq (s.drop 8) (by rintro hnil; simp [hnil] at htake)
      (fun ch hch => isSome_hexCharToInt4.2 (hdigits ch hch)) (by omega) (by simp)
  rw [List.take_append_drop, foldl_hexCharToInt4 hdigits] at hloop
  exact hloop

/-! ## Spellings -/

theorem digitValue_lt (h : IsHexDigit ch) : digitValue ch < 16 := by
  have hall : ((hexDigits ++ upperHexDigits).all fun ch => digitValue ch < 16) = true := by decide
  exact of_decide_eq_true (List.all_eq_true.1 hall ch (List.mem_append.2 h))

/-- Eight digits write a number of 32 bits. -/
theorem base16_lt (hs : ∀ ch ∈ s, IsHexDigit ch) : base16 s < 16 ^ s.length := by
  induction s using List.reverseRecOn with
  | nil => decide
  | append_singleton s ch ih =>
    have hvalue := digitValue_lt (hs ch (by simp))
    have hinit := ih fun ch hch => hs ch (by simp [hch])
    unfold base16 at hinit ⊢
    rw [List.foldl_append, List.length_append, List.length_singleton, Nat.pow_succ]
    simp only [List.foldl_cons, List.foldl_nil]
    omega

/-- A character whose lower case is a digit is a digit. -/
theorem isHexDigit_of_toLower (h : ch.toLower ∈ hexDigits) : IsHexDigit ch := by
  by_cases hupper : 65 ≤ ch.toNat ∧ ch.toNat ≤ 90
  · have hrange : (((List.range' 65 26).map Char.ofNat).all fun ch =>
        ch.toLower ∈ hexDigits → IsHexDigit ch) = true := by decide
    exact of_decide_eq_true
      (List.all_eq_true.1 hrange ch (mem_of_toNat_between (by omega) (by omega))) h
  · have hsame : ch.toLower = ch := by
      unfold Char.toLower
      refine dif_neg fun h => hupper ?_
      simpa [UInt32.le_iff_toNat_le] using h
    rw [hsame] at h
    exact .inl h

theorem getD_mem_hexDigits (k : Nat) : hexDigits.getD (k % 16) '0' ∈ hexDigits := by
  have hall : ∀ k < 16, hexDigits.getD k '0' ∈ hexDigits := by decide
  exact hall _ (Nat.mod_lt k (by decide))

/-- A digit of either case is worth its place. -/
theorem idxOf_getD (k : Nat) : hexDigits.idxOf (hexDigits.getD (k % 16) '0') = k % 16 := by
  have hall : ∀ k < 16, hexDigits.idxOf (hexDigits.getD k '0') = k := by decide
  exact hall _ (Nat.mod_lt k (by decide))

/-- The first digits of a number with eight of them write what the others leave. -/
theorem foldl_digits {v k : Nat} (hv : v < 16 ^ 8) (hk : k ≤ 8) :
    (List.range k).foldl (fun value i => 16 * value + v / 16 ^ (7 - i) % 16) 0 =
      v / 16 ^ (8 - k) := by
  induction k with
  | zero => exact (Nat.div_eq_of_lt hv).symm
  | succ k ih =>
    rw [List.range_succ, List.foldl_append, ih (by omega), show 8 - k = (7 - k) + 1 by omega,
      show 8 - (k + 1) = 7 - k by omega, Nat.pow_succ, ← Nat.div_div_eq_div_mul]
    exact Nat.div_add_mod _ 16

/-- A spelling of a word in any mix of cases writes the word. -/
theorem base16_spelling {w : Word} (h : s.map Char.toLower = spelling w) : base16 s = w.toNat := by
  have hfold : base16 s =
      (s.map Char.toLower).foldl (fun value ch => 16 * value + hexDigits.idxOf ch) 0 := by
    rw [List.foldl_map]
    rfl
  rw [hfold, h, spelling, List.foldl_map]
  simp only [idxOf_getD]
  exact (foldl_digits w.isLt (le_refl 8)).trans (Nat.div_one _)

theorem beginsWithWord_spelling {w : Word} (h : s.map Char.toLower = spelling w)
    (rest : List Char) : (s ++ rest).take 8 = s ∧ BeginsWithWord (s ++ rest) := by
  have hlength : s.length = 8 := by
    have hmap := congrArg List.length h
    simpa [spelling] using hmap
  have htake : (s ++ rest).take 8 = s := by rw [← hlength, List.take_left]
  refine ⟨htake, by rw [List.length_append]; omega, ?_⟩
  rw [htake]
  intro ch hch
  refine isHexDigit_of_toLower ?_
  have hmem : ch.toLower ∈ spelling w := h ▸ List.mem_map_of_mem hch
  obtain ⟨i, -, hi⟩ := List.mem_map.1 hmem
  rw [← hi]
  exact getD_mem_hexDigits _

/-- For every string: the function returns 1 if and only if it begins with eight hexadecimal digits,
and `*result` is then the number they write in base 16; else it returns 0 and leaves `*result` as it
is. Every spelling of a word is read as the word. Reference: `__hex_string_to_int32`
(`src/loader_s.c:142`). -/
theorem hexStringToInt32_exact (s : List Char) (result : Word) :
    ((hexStringToInt32Result s result).1 = 1 ↔ BeginsWithWord s) ∧
    (BeginsWithWord s → (hexStringToInt32Result s result).2.toNat = base16 (s.take 8)) ∧
    (¬ BeginsWithWord s → hexStringToInt32Result s result = (0, result)) ∧
    ∀ (w : Word) (digits rest : List Char), digits.map Char.toLower = spelling w →
      hexStringToInt32Result (digits ++ rest) result = (1, w) := by
  have hread (s : List Char) (h : BeginsWithWord s) :
      hexStringToInt32Result s result = (1, BitVec.ofNat 32 (base16 (s.take 8))) := by
    have hloop := hexStringLoopResult_eq result s 0 0
    rw [show hexStringLoop 0 0 s = _ from h.hexStringToInt32] at hloop
    exact hloop
  have hskip (h : ¬ BeginsWithWord s) : hexStringToInt32Result s result = (0, result) := by
    have hloop := hexStringLoopResult_eq result s 0 0
    cases hword : hexStringLoop 0 0 s with
    | none =>
      rw [hword] at hloop
      exact hloop
    | some w => exact absurd (beginsWith_of_hexStringLoop (by decide) hword) h
  refine ⟨⟨fun hone => ?_, fun h => by rw [hread s h]⟩, fun h => ?_, hskip, ?_⟩
  · by_contra h
    rw [hskip h] at hone
    cases hone
  · have hlt := base16_lt h.2
    rw [hread s h, BitVec.toNat_ofNat, Nat.mod_eq_of_lt]
    have hlength : (s.take 8).length = 8 := List.length_take_of_le h.1
    rwa [hlength] at hlt
  · intro w digits rest h
    obtain ⟨htake, hbegins⟩ := beginsWithWord_spelling h rest
    rw [hread _ hbegins, htake, base16_spelling h, BitVec.ofNat_toNat, BitVec.setWidth_eq]

end SeKernel
