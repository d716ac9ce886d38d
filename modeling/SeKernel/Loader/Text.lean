import Mathlib.Data.List.TakeWhile
import SeKernel.Fault
import SeKernel.Lib.Masks
import SeKernel.Memory.Word

/-!
# The text of a program file

The string functions that `__load_file` applies to a line, and the numbers they find there. A line
is the list of its characters as `getline` yields them; a C string ends before the first NUL.
-/

namespace SeKernel

/-- A file: the lines that `getline` yields, in order, and the size of the block that it has
allocated for them when it has read the last one, which is large enough for each line with a NUL
behind it. -/
structure ProgramFile where
  lines : List (List Char)
  block : Nat
  room : ∀ line ∈ lines, line.length < block

/-- `getline` once the block is as large as it gets: it takes the pointer for the start of the block
and does not ask for more, so a line that does not fit into the `left` bytes behind the pointer is
written past the end. Reference: `__load_file` (`src/loader_s.c:97`). -/
def getline (left : Nat) (line : List Char) : Outcome Unit :=
  if line.length < left then return () else throw .outOfBounds

/-- The characters that end the text of a line: NUL, and what `strcspn` looks for. -/
def lineEnds : List Char := ['\x00', '\r', '\n']

/-- `line[strcspn(line, "\r\n")] = 0`. Reference: `__load_file` (`src/loader_s.c:98`). -/
def cutLine (line : List Char) : List Char := line.takeWhile (· ∉ lineEnds)

/-- The characters that `isspace` accepts. -/
def isSpace (ch : Char) : Bool := ch ∈ [' ', '\t', '\n', '\x0B', '\x0C', '\r']

/-- The number that decimal digits write. -/
def decimalValue (digits : List Char) : Nat :=
  digits.foldl (fun value ch => 10 * value + (ch.toNat - '0'.toNat)) 0

/-- The number at the start of a text: blanks, a sign and digits; what follows does not matter. -/
def leadingNumber (s : List Char) : Int :=
  match s.dropWhile isSpace with
  | '-' :: s => -(decimalValue (s.takeWhile Char.isDigit) : Int)
  | '+' :: s => decimalValue (s.takeWhile Char.isDigit)
  | s => decimalValue (s.takeWhile Char.isDigit)

/-- `atoi` of `<stdlib.h>`, which is undefined when the number is no `int`. -/
def atoi (s : List Char) : Outcome Int := asInt (leadingNumber s)

/-- `atoi(strpbrk(line, " ") + 1)`; when there is no space, `strpbrk` returns `NULL`, and the
pointer after it leads nowhere. Reference: `__load_file` (`src/loader_s.c:99`). -/
def headerNumber (line : List Char) : Outcome Int :=
  match (cutLine line).dropWhile (· ≠ ' ') with
  | [] => throw .wildPointer
  | _ :: rest => atoi rest

/-- The distance that `line = strpbrk(line, " ") + 1` moves the pointer. Reference: `__load_file`
(`src/loader_s.c:99`). -/
def headerSkip (line : List Char) : Nat := ((cutLine line).takeWhile (· ≠ ' ')).length + 1

/-- Reference: `__hex_char_to_int4` (`src/loader_s.c:161`). -/
def hexCharToInt4 (hexChar : Char) : Option Nat :=
  if '0' ≤ hexChar ∧ hexChar ≤ '9' then
    some (hexChar.toNat - '0'.toNat)
  else if 'A' ≤ hexChar ∧ hexChar ≤ 'F' then
    some (hexChar.toNat - 'A'.toNat + 10)
  else if 'a' ≤ hexChar ∧ hexChar ≤ 'f' then
    some (hexChar.toNat - 'a'.toNat + 10)
  else
    none

/-- The loop of `__hex_string_to_int32`, with what is left of the string. Reference:
`__hex_string_to_int32` (`src/loader_s.c:145`). -/
def hexStringLoop (currentNibble : Nat) (currentData : Word) : List Char → Option Word
  | [] => none
  | hexChar :: rest =>
    match hexCharToInt4 hexChar with
    | none => none
    | some currentNibbleValue =>
      let currentData :=
        currentData ||| BitVec.ofNat 32 currentNibbleValue <<< (28 - currentNibble * 4)
      if currentNibble + 1 = 8 then
        some currentData
      else
        hexStringLoop (currentNibble + 1) currentData rest

/-- `none` when the function returns 0. Reference: `__hex_string_to_int32`
(`src/loader_s.c:142`). -/
def hexStringToInt32 (hexString : List Char) : Option Word := hexStringLoop 0 0 hexString

/-- The number that hexadecimal digits write. -/
def hexValue (digits : List Char) : Nat :=
  digits.foldl (fun value ch => 16 * value + (hexCharToInt4 ch).getD 0) 0

/-! ## What a well-formed line is -/

/-- A word, a space and the decimal number `c`. -/
def HeaderLine (line : List Char) (c : Nat) : Prop :=
  ∃ word blanks digits rest, line = word ++ ' ' :: (blanks ++ (digits ++ rest)) ∧
    (∀ ch ∈ word, ch ≠ ' ' ∧ ch ∉ lineEnds) ∧ (∀ ch ∈ blanks, ch = ' ') ∧ digits ≠ [] ∧
    (∀ ch ∈ digits, ch.isDigit) ∧ (∀ ch ∈ rest.head?, ¬ ch.isDigit) ∧ decimalValue digits = c

/-- Eight hexadecimal digits that write `w`, and anything after them. -/
def DataLine (line : List Char) (w : Word) : Prop :=
  ∃ digits rest, line = digits ++ rest ∧ digits.length = 8 ∧
    (∀ ch ∈ digits, (hexCharToInt4 ch).isSome) ∧ BitVec.ofNat 32 (hexValue digits) = w

/-! ## Reading a header line -/

/-- Characters that do not end the line are kept. -/
theorem cutLine_append {s : List Char} (t : List Char) (h : ∀ ch ∈ s, ch ∉ lineEnds) :
    cutLine (s ++ t) = s ++ cutLine t :=
  List.takeWhile_append_of_pos fun ch hch => by simpa using h ch hch

theorem isDigit_notMem_lineEnds {ch : Char} (h : ch.isDigit) : ch ∉ lineEnds := by
  intro hmem
  simp only [lineEnds, List.mem_cons, List.not_mem_nil, or_false] at hmem
  rcases hmem with rfl | rfl | rfl <;> exact absurd h (by decide)

/-- A prefix of digits, then something else. -/
theorem takeWhile_isDigit {digits rest : List Char} (hdigits : ∀ ch ∈ digits, ch.isDigit)
    (hrest : ∀ ch ∈ rest.head?, ¬ ch.isDigit) :
    (digits ++ rest).takeWhile Char.isDigit = digits := by
  rw [List.takeWhile_append_of_pos hdigits]
  cases rest with
  | nil => simp
  | cons ch rest => rw [List.takeWhile_cons_of_neg (hrest ch rfl), List.append_nil]

/-- Digits start with the number they write. -/
theorem leadingNumber_digits {digits rest : List Char} (hne : digits ≠ [])
    (hdigits : ∀ ch ∈ digits, ch.isDigit) (hrest : ∀ ch ∈ rest.head?, ¬ ch.isDigit) :
    leadingNumber (digits ++ rest) = decimalValue digits := by
  have htake := takeWhile_isDigit hdigits hrest
  obtain ⟨d, ds, rfl⟩ := List.exists_cons_of_ne_nil hne
  have hd := hdigits d (by simp)
  have hspace : ¬ isSpace d = true := by
    intro h
    simp only [isSpace, List.mem_cons, List.not_mem_nil, or_false, decide_eq_true_eq] at h
    rcases h with rfl | rfl | rfl | rfl | rfl | rfl <;> exact absurd hd (by decide)
  unfold leadingNumber
  rw [List.cons_append, List.dropWhile_cons_of_neg hspace]
  split
  · next heq => cases heq; exact absurd hd (by decide)
  · next heq => cases heq; exact absurd hd (by decide)
  · rw [← List.cons_append, htake]

/-- Blanks before a number do not matter. -/
theorem leadingNumber_blanks {blanks s : List Char} (h : ∀ ch ∈ blanks, ch = ' ') :
    leadingNumber (blanks ++ s) = leadingNumber s := by
  unfold leadingNumber
  rw [List.dropWhile_append_of_pos fun ch hch => by rw [h ch hch]; rfl]

/-- What `__load_file` finds in a well-formed header line. -/
theorem HeaderLine.headerNumber {line : List Char} {c : Nat} (h : HeaderLine line c) :
    headerNumber line = asInt c := by
  obtain ⟨word, blanks, digits, rest, rfl, hword, hblanks, hne, hdigits, hrest, hvalue⟩ := h
  have hcut : cutLine (word ++ ' ' :: (blanks ++ (digits ++ rest))) =
      word ++ ' ' :: (blanks ++ (digits ++ cutLine rest)) := by
    have hspace : ∀ ch ∈ ' ' :: blanks, ch ∉ lineEnds := by
      intro ch hch
      have hch' : ch = ' ' := (List.mem_cons.1 hch).elim id (hblanks ch)
      rw [hch']
      decide
    rw [cutLine_append _ fun ch hch => (hword ch hch).2, ← List.cons_append,
      cutLine_append _ hspace,
      cutLine_append _ fun ch hch => isDigit_notMem_lineEnds (hdigits ch hch), List.cons_append]
  have hrest' : ∀ ch ∈ (cutLine rest).head?, ¬ ch.isDigit := by
    intro ch hch
    cases rest with
    | nil => cases hch
    | cons r rest =>
      by_cases hr : r ∈ lineEnds
      · simp [cutLine, hr] at hch
      · simp only [cutLine, List.takeWhile_cons, hr, not_false_eq_true, decide_true, if_true] at hch
        exact hrest ch hch
  unfold SeKernel.headerNumber
  rw [hcut, List.dropWhile_append_of_pos fun ch hch => by simpa using (hword ch hch).1,
    List.dropWhile_cons_of_neg (by simp)]
  simp [atoi, leadingNumber_blanks hblanks, leadingNumber_digits hne hdigits hrest', hvalue]

/-- A header line without a space makes `__load_file` follow a pointer that leads nowhere. -/
theorem headerNumber_of_no_space {line : List Char} (h : ' ' ∉ line) :
    headerNumber line = .error .wildPointer := by
  have hcut : ∀ ch ∈ cutLine line, ch ≠ ' ' := by
    intro ch hch heq
    exact h (heq ▸ (List.takeWhile_sublist _).subset hch)
  have hnone : (cutLine line).dropWhile (· ≠ ' ') = [] := by
    simpa [List.dropWhile_eq_nil_iff] using hcut
  unfold headerNumber
  rw [hnone]
  rfl

/-! ## Reading a data line -/

/-- The three ranges of characters and the values of their digits. Reference:
`__hex_char_to_int4` (`src/loader_s.c:160`). -/
theorem hexCharToInt4_cases {hexChar : Char} {value : Nat}
    (h : hexCharToInt4 hexChar = some value) :
    (48 ≤ hexChar.toNat ∧ hexChar.toNat ≤ 57 ∧ value = hexChar.toNat - 48) ∨
    (65 ≤ hexChar.toNat ∧ hexChar.toNat ≤ 70 ∧ value = hexChar.toNat - 65 + 10) ∨
    (97 ≤ hexChar.toNat ∧ hexChar.toNat ≤ 102 ∧ value = hexChar.toNat - 97 + 10) := by
  unfold hexCharToInt4 at h
  simp only [Char.le_def, UInt32.le_iff_toNat_le, Char.toNat_val] at h
  split at h
  · next hrange =>
    cases h
    exact .inl ⟨hrange.1, hrange.2, rfl⟩
  · split at h
    · next hrange =>
      cases h
      exact .inr (.inl ⟨hrange.1, hrange.2, rfl⟩)
    · split at h
      · next hrange =>
        cases h
        exact .inr (.inr ⟨hrange.1, hrange.2, rfl⟩)
      · cases h

theorem hexCharToInt4_lt {hexChar : Char} {value : Nat} (h : hexCharToInt4 hexChar = some value) :
    value < 16 := by
  have hranges := hexCharToInt4_cases h
  omega

theorem hexDigit_notMem_lineEnds {ch : Char} (h : (hexCharToInt4 ch).isSome) : ch ∉ lineEnds := by
  intro hmem
  simp only [lineEnds, List.mem_cons, List.not_mem_nil, or_false] at hmem
  rcases hmem with rfl | rfl | rfl <;> exact absurd h (by decide)

/-- One more nibble. -/
theorem toNat_or_nibble {data : Word} {value prefixValue i : Nat} (hi : i < 8) (hvalue : value < 16)
    (hdata : data.toNat = prefixValue * 2 ^ (32 - 4 * i)) :
    (data ||| BitVec.ofNat 32 value <<< (28 - i * 4)).toNat =
      (16 * prefixValue + value) * 2 ^ (28 - 4 * i) := by
  have hpow : 2 ^ (32 - 4 * i) = 16 * 2 ^ (28 - 4 * i) := by
    rw [show 32 - 4 * i = 4 + (28 - 4 * i) by omega, Nat.pow_add]
  have hbound : value * 2 ^ (28 - 4 * i) < 2 ^ (32 - 4 * i) := by
    rw [hpow]
    exact Nat.mul_lt_mul_of_pos_right hvalue (Nat.two_pow_pos _)
  have hle : 2 ^ (32 - 4 * i) ≤ 2 ^ 32 := Nat.pow_le_pow_right (by decide) (by omega)
  have hshift : (BitVec.ofNat 32 value <<< (28 - i * 4)).toNat = value * 2 ^ (28 - 4 * i) := by
    rw [BitVec.toNat_shiftLeft, BitVec.toNat_ofNat, Nat.shiftLeft_eq,
      Nat.mod_eq_of_lt (show value < 2 ^ 32 by omega), Nat.mul_comm i 4, Nat.mod_eq_of_lt]
    omega
  rw [Masks.toNat_or_offset (k := 32 - 4 * i) (hdata ▸ Dvd.intro_left _ rfl) (hshift ▸ hbound),
    hdata, hshift, hpow, Nat.add_mul, ← Nat.mul_assoc, Nat.mul_comm prefixValue 16]

/-- The loop reads the digits that are left. -/
theorem hexStringLoop_eq {digits : List Char} (rest : List Char) (hne : digits ≠ [])
    (hdigits : ∀ ch ∈ digits, (hexCharToInt4 ch).isSome) {i prefixValue : Nat} {data : Word}
    (hi : i + digits.length = 8) (hdata : data.toNat = prefixValue * 2 ^ (32 - 4 * i)) :
    hexStringLoop i data (digits ++ rest) = some (BitVec.ofNat 32
      (digits.foldl (fun value ch => 16 * value + (hexCharToInt4 ch).getD 0) prefixValue)) := by
  induction digits generalizing i prefixValue data with
  | nil => exact absurd rfl hne
  | cons ch digits ih =>
    obtain ⟨value, hvalue⟩ := Option.isSome_iff_exists.1 (hdigits ch (by simp))
    simp only [List.length_cons] at hi
    have hnext := toNat_or_nibble (by omega : i < 8) (hexCharToInt4_lt hvalue) hdata
    simp only [List.cons_append, hexStringLoop, hvalue, List.foldl_cons, Option.getD_some]
    cases digits with
    | nil =>
      have hlast : i = 7 := by simpa using hi
      subst hlast
      rw [if_pos rfl, List.foldl_nil]
      refine congrArg some (BitVec.eq_of_toNat_eq ?_)
      rw [BitVec.toNat_ofNat, hnext, Nat.mod_eq_of_lt]
      · simp
      · have hlt := (data ||| BitVec.ofNat 32 value <<< (28 - 7 * 4)).isLt
        rw [hnext] at hlt
        simpa using hlt
    | cons ch' digits =>
      rw [if_neg (by simp at hi; omega)]
      refine ih (by simp) (fun d hd => hdigits d (by simp [hd])) (by omega) ?_
      rw [hnext, show 28 - 4 * i = 32 - 4 * (i + 1) by omega]

/-- What `__load_file` finds in a well-formed data line. -/
theorem DataLine.hexStringToInt32 {line : List Char} {w : Word} (h : DataLine line w) :
    hexStringToInt32 (cutLine line) = some w := by
  obtain ⟨digits, rest, rfl, hlength, hdigits, rfl⟩ := h
  rw [cutLine_append _ fun ch hch => hexDigit_notMem_lineEnds (hdigits ch hch)]
  exact hexStringLoop_eq _ (by rintro rfl; simp at hlength) hdigits (by omega) (by simp)

end SeKernel
