import Mathlib.Data.Nat.Digits.Defs
import PPServer.Text.Bytes

/-!
# Numerals and `std::stoul`

`strtoul` divides its argument into optional white space, an optional sign, in base
16 an optional `0x`, the longest run of digits, and a tail it never looks at.
`std::stoul` adds two exceptions: no digits, and a run of digits whose value does
not fit `unsigned long`.  A minus sign negates in `unsigned long` arithmetic.

`IsNumeral` is the much smaller language of plain digit strings that a length field
is meant to be written in, and `writeNumeral` writes it.
-/

namespace PPServer

/-- The value of a digit or letter; 36 for every other byte. -/
def digitValue (byte : Byte) : Nat :=
  if 48 ≤ byte && byte ≤ 57 then byte.toNat - 48
  else if 97 ≤ byte && byte ≤ 122 then byte.toNat - 87
  else if 65 ≤ byte && byte ≤ 90 then byte.toNat - 55
  else 36

def isDigit (base : Nat) (byte : Byte) : Bool := digitValue byte < base

/-- The number denoted by a digit string, most significant digit first. -/
def numeralValue (base : Nat) (digits : Bytes) : Nat :=
  digits.foldl (fun value digit => value * base + digitValue digit) 0

/-- A non-empty string of digits of the base that denotes `value`. -/
structure IsNumeral (base : Nat) (digits : Bytes) (value : Nat) : Prop where
  nonempty : digits ≠ []
  isDigit : ∀ byte ∈ digits, isDigit base byte = true
  denotes : numeralValue base digits = value

/-! ## The subject of a conversion -/

def signLength (text : Bytes) : Nat :=
  match text with
  | first :: _ => if first = 43 ∨ first = 45 then 1 else 0
  | [] => 0

/-- In base 16 the two bytes `0x` or `0X` are skipped when a digit follows. -/
def hexPrefixLength (base : Nat) (text : Bytes) : Nat :=
  match text with
  | zero :: x :: digit :: _ =>
      if base = 16 ∧ zero = 48 ∧ (x = 120 ∨ x = 88) ∧ isDigit 16 digit then 2 else 0
  | _ => 0

/-- The parts into which `strtoul` divides its argument. -/
structure Subject where
  blanks : Bytes
  sign : Bytes
  hexPrefix : Bytes
  digits : Bytes
  tail : Bytes
  deriving DecidableEq, Repr

def subject (base : Nat) (text : Bytes) : Subject :=
  let unsigned := text.dropWhile isSpace
  let number := unsigned.drop (signLength unsigned)
  let digits := number.drop (hexPrefixLength base number)
  { blanks := text.takeWhile isSpace
    sign := unsigned.take (signLength unsigned)
    hexPrefix := number.take (hexPrefixLength base number)
    digits := digits.takeWhile (isDigit base)
    tail := digits.dropWhile (isDigit base) }

/-- The exceptions of `std::stoul`. -/
inductive StoulError where
  | invalidArgument
  | outOfRange
  deriving DecidableEq, Repr

/-- `std::stoul(text, nullptr, base)`. -/
def stoul (text : Bytes) (base : Nat) : Except StoulError Nat :=
  let parts := subject base text
  let value := numeralValue base parts.digits
  if parts.digits = [] then .error .invalidArgument
  else if sizeModulus ≤ value then .error .outOfRange
  else if parts.sign = [45] then .ok ((sizeModulus - value) % sizeModulus)
  else .ok value

/-- The conversion succeeds exactly on a text with digits whose value fits. -/
theorem stoul_isOk_iff (text : Bytes) (base : Nat) :
    (∃ value, stoul text base = .ok value) ↔
      (subject base text).digits ≠ [] ∧
        numeralValue base (subject base text).digits < sizeModulus := by
  by_cases empty : (subject base text).digits = []
  · simp [stoul, empty]
  · by_cases large : sizeModulus ≤ numeralValue base (subject base text).digits
    · simp [stoul, empty, large, Nat.not_lt.mpr large]
    · by_cases minus : (subject base text).sign = [45] <;>
        simp [stoul, empty, large, minus, Nat.lt_of_not_le large]

/-- The result is an `unsigned long`. -/
theorem stoul_lt {text : Bytes} {base value : Nat} (read : stoul text base = .ok value) :
    value < sizeModulus := by
  have positive : 0 < sizeModulus := by simp [sizeModulus]
  unfold stoul at read
  dsimp only at read
  split at read
  next => cases read
  next =>
      split at read
      next => cases read
      next small =>
          split at read
          next =>
              cases read
              exact Nat.mod_lt _ positive
          next =>
              cases read
              omega

/-! ## Plain digit strings -/

theorem isDigit_not_space {base : Nat} {byte : Byte} (small : base ≤ 36)
    (digit : isDigit base byte = true) : isSpace byte = false := by
  simp only [isDigit, decide_eq_true_eq] at digit
  by_contra space
  simp only [isSpace, Bool.not_eq_false, Bool.or_eq_true, beq_iff_eq,
    Bool.and_eq_true, decide_eq_true_eq] at space
  have letter : ¬(48 ≤ byte) ∧ ¬(97 ≤ byte) ∧ ¬(65 ≤ byte) := by
    rcases space with rfl | ⟨low, high⟩
    · decide
    · simp only [UInt8.le_iff_toNat_le, UInt8.reduceToNat] at *
      omega
  simp [digitValue, letter] at digit
  omega

theorem signLength_of_digit {base : Nat} {digit : Byte} {text : Bytes}
    (small : base ≤ 36) (isDigit_digit : isDigit base digit = true) :
    signLength (digit :: text) = 0 := by
  have plus : digit ≠ 43 := by
    intro equal
    subst equal
    simp [isDigit, digitValue] at isDigit_digit
    omega
  have minus : digit ≠ 45 := by
    intro equal
    subst equal
    simp [isDigit, digitValue] at isDigit_digit
    omega
  simp [signLength, plus, minus]

/-- A digit string followed by something that is neither a digit nor the `x` of a
base prefix is the whole subject. -/
theorem subject_of_digits {base : Nat} {digits tail : Bytes} (small : base ≤ 36)
    (nonempty : digits ≠ []) (isDigit_digits : ∀ byte ∈ digits, isDigit base byte = true)
    (stops : ∀ byte ∈ tail.head?, isDigit base byte = false ∧ byte ≠ 120 ∧ byte ≠ 88) :
    subject base (digits ++ tail) = ⟨[], [], [], digits, tail⟩ := by
  rcases List.exists_cons_of_ne_nil nonempty with ⟨first, more, rfl⟩
  have firstDigit : isDigit base first = true := isDigit_digits first (by simp)
  have firstNotSpace := isDigit_not_space small firstDigit
  have noSign : signLength (first :: (more ++ tail)) = 0 :=
    signLength_of_digit small firstDigit
  have noPrefix : hexPrefixLength base (first :: (more ++ tail)) = 0 := by
    have notX : ∀ byte ∈ (more ++ tail).head?, base = 16 → byte ≠ 120 ∧ byte ≠ 88 := by
      intro byte isHead hex
      cases more with
      | nil => exact (stops byte (by simpa using isHead)).2
      | cons second more =>
          have digit := isDigit_digits second (by simp)
          obtain rfl : second = byte := by simpa using isHead
          subst hex
          constructor <;> rintro rfl <;> simp [isDigit, digitValue] at digit
    simp only [hexPrefixLength]
    split
    next zero x digit rest equal =>
        simp only [List.cons.injEq] at equal
        have headX := notX x (by simp [equal.2])
        rw [if_neg]
        intro isPrefixed
        rcases isPrefixed with ⟨hex, -, lower | upper, -⟩
        · exact (headX hex).1 lower
        · exact (headX hex).2 upper
    next => rfl
  have takeTail : tail.takeWhile (isDigit base) = [] := by
    cases tail with
    | nil => rfl
    | cons head tail => simp [(stops head rfl).1]
  have dropTail : tail.dropWhile (isDigit base) = tail := by
    cases tail with
    | nil => rfl
    | cons head tail => simp [(stops head rfl).1]
  have takeDigits : (first :: (more ++ tail)).takeWhile (isDigit base) = first :: more := by
    rw [← List.cons_append, List.takeWhile_append_of_pos isDigit_digits, takeTail,
      List.append_nil]
  have dropDigits : (first :: (more ++ tail)).dropWhile (isDigit base) = tail := by
    rw [← List.cons_append, List.dropWhile_append_of_pos isDigit_digits, dropTail]
  simp only [subject, List.cons_append, List.takeWhile_cons_of_neg (show ¬isSpace first = true by
      simp [firstNotSpace]), List.dropWhile_cons_of_neg (show ¬isSpace first = true by
      simp [firstNotSpace]), noSign, List.drop_zero, List.take_zero, noPrefix, takeDigits,
    dropDigits]

/-- `std::stoul` reads a plain numeral, and ignores a tail that cannot be taken for
more digits or a base prefix. -/
theorem stoul_of_numeral {base value : Nat} {digits tail : Bytes} (small : base ≤ 36)
    (numeral : IsNumeral base digits value) (fits : value < sizeModulus)
    (stops : ∀ byte ∈ tail.head?, isDigit base byte = false ∧ byte ≠ 120 ∧ byte ≠ 88) :
    stoul (digits ++ tail) base = .ok value := by
  have parts := subject_of_digits small numeral.nonempty numeral.isDigit stops
  simp [stoul, parts, numeral.nonempty, numeral.denotes, Nat.not_le.mpr fits]

theorem stoul_numeral {base value : Nat} {digits : Bytes} (small : base ≤ 36)
    (numeral : IsNumeral base digits value) (fits : value < sizeModulus) :
    stoul digits base = .ok value := by
  rw [← List.append_nil digits]
  exact stoul_of_numeral small numeral fits (by simp)

/-! ## Writing a numeral -/

/-- The digit, or lower-case letter, of a value below 36. -/
def digitByte (value : Nat) : Byte := .ofNat (if value < 10 then 48 + value else 87 + value)

def writeNumeral (base value : Nat) : Bytes :=
  if value = 0 then [48] else (Nat.digits base value).reverse.map digitByte

theorem digitValue_digitByte {value : Nat} (small : value < 36) :
    digitValue (digitByte value) = value := by
  have every : ∀ value < 36, digitValue (digitByte value) = value := by decide
  exact every value small

theorem numeralValue_digits {base : Nat} (digits : List Nat)
    (small : ∀ digit ∈ digits, digit < 36) :
    numeralValue base (digits.reverse.map digitByte) = Nat.ofDigits base digits := by
  induction digits with
  | nil => rfl
  | cons digit digits ih =>
      have others := ih fun other member => small other (by simp [member])
      rw [numeralValue] at others
      rw [Nat.ofDigits_cons, ← others, numeralValue, List.reverse_cons, List.map_append,
        List.foldl_append]
      simp only [List.map_cons, List.map_nil, List.foldl_cons, List.foldl_nil,
        digitValue_digitByte (small digit (by simp))]
      ring

/-- What is written is a numeral for the value. -/
theorem isNumeral_writeNumeral {base : Nat} (several : 1 < base) (small : base ≤ 36)
    (value : Nat) : IsNumeral base (writeNumeral base value) value := by
  by_cases zero : value = 0
  · subst zero
    have zeroDigit : digitValue 48 = 0 := by decide
    refine ⟨by simp [writeNumeral], ?_, by simp [writeNumeral, numeralValue, zeroDigit]⟩
    intro byte member
    obtain rfl : byte = 48 := by simpa [writeNumeral] using member
    simp only [isDigit, zeroDigit, decide_eq_true_eq]
    omega
  · have below : ∀ digit ∈ Nat.digits base value, digit < base :=
      fun digit member => Nat.digits_lt_base several member
    rw [writeNumeral, if_neg zero]
    constructor
    · simpa using Nat.digits_ne_nil_iff_ne_zero.mpr zero
    · intro byte member
      rcases List.mem_map.mp member with ⟨digit, isDigit_digit, rfl⟩
      have fits := below digit (by simpa using isDigit_digit)
      rw [isDigit, digitValue_digitByte (by omega)]
      simpa using fits
    · have fits : ∀ digit ∈ Nat.digits base value, digit < 36 :=
        fun digit member => (below digit member).trans_le small
      rw [numeralValue_digits _ fits, Nat.ofDigits_digits]

end PPServer
