import Mathlib.Data.List.DropRight
import Mathlib.Tactic.Common
import PPServer.Library.Delimiter

/-!
# Byte strings

`std::string` as the list of its bytes, with the operations of the C++ library that
the parser calls: the character classes of the C locale, `find_first_not_of` and
`find_last_not_of` as they are used for trimming, formatted extraction of a word
from a stream, and the search for CRLF.
-/

namespace PPServer

abbrev Byte := UInt8

abbrev Bytes := List UInt8

/-- What holds of every byte of a string is decided along the string, not over all bytes. -/
instance (priority := 2000) decidableForallByte {property : Byte → Prop}
    [DecidablePred property] (text : Bytes) : Decidable (∀ byte ∈ text, property byte) :=
  List.decidableBAll property text

/-- The bytes of a string literal of the source. -/
def bytes (text : String) : Bytes := text.toUTF8.data.toList

/-- `2 ^ 64`; values of `size_t` and `unsigned long` are taken modulo this. -/
def sizeModulus : Nat := 18446744073709551616

abbrev cr : Byte := 13

abbrev lf : Byte := 10

/-- The line terminator of the protocol. -/
abbrev crlf : Bytes := [cr, lf]

/-- No CRLF occurs in the bytes. -/
abbrev CRLFFree (text : Bytes) : Prop := Delimiter.Free cr lf text

theorem cr_ne_lf : cr ≠ lf := by decide

/-- `isspace` in the C locale. -/
def isSpace (byte : Byte) : Bool := byte == 32 || (9 ≤ byte && byte ≤ 13)

/-- The characters of `" \t"`. -/
def isBlank (byte : Byte) : Bool := byte == 32 || byte == 9

/-- `std::tolower` in the C locale. -/
def toLowerByte (byte : Byte) : Byte :=
  if 65 ≤ byte && byte ≤ 90 then byte + 32 else byte

@[simp] theorem isSpace_cr : isSpace cr = true := by decide

/-! ## Trimming -/

/-- `text.erase(0, text.find_first_not_of(" \t"))`. -/
def eraseLeadingBlanks (text : Bytes) : Bytes := text.dropWhile isBlank

/-- `text.erase(text.find_last_not_of(" \t") + 1)`. -/
def eraseTrailingBlanks (text : Bytes) : Bytes := text.rdropWhile isBlank

def trim (text : Bytes) : Bytes := eraseTrailingBlanks (eraseLeadingBlanks text)

/-- The text neither starts nor ends with a space or tab. -/
structure Trimmed (text : Bytes) : Prop where
  head : ∀ byte ∈ text.head?, isBlank byte = false
  last : ∀ byte ∈ text.getLast?, isBlank byte = false

theorem eraseLeadingBlanks_of_head {text : Bytes}
    (head : ∀ byte ∈ text.head?, isBlank byte = false) :
    eraseLeadingBlanks text = text := by
  cases text with
  | nil => rfl
  | cons first rest => simp [eraseLeadingBlanks, head first rfl]

theorem eraseTrailingBlanks_of_last {text : Bytes}
    (last : ∀ byte ∈ text.getLast?, isBlank byte = false) :
    eraseTrailingBlanks text = text := by
  rw [eraseTrailingBlanks, List.rdropWhile_eq_self_iff]
  intro nonempty
  simp [last _ (List.getLast?_eq_some_getLast nonempty)]

theorem trim_of_trimmed {text : Bytes} (trimmed : Trimmed text) :
    trim text = text := by
  rw [trim, eraseLeadingBlanks_of_head trimmed.head,
    eraseTrailingBlanks_of_last trimmed.last]

/-- Blanks put before a trimmed text are taken away again. -/
theorem trim_blank_cons {text : Bytes} {blank : Byte} (isBlank_blank : isBlank blank)
    (trimmed : Trimmed text) : trim (blank :: text) = text := by
  have leading : eraseLeadingBlanks (blank :: text) = eraseLeadingBlanks text := by
    simp [eraseLeadingBlanks, isBlank_blank]
  rw [trim, leading]
  exact trim_of_trimmed trimmed

theorem trim_isInfix (text : Bytes) : trim text <:+: text := by
  have ends : eraseLeadingBlanks text <:+ text := List.dropWhile_suffix isBlank
  have begins : trim text <+: eraseLeadingBlanks text := List.rdropWhile_prefix isBlank _
  exact begins.isInfix.trans ends.isInfix

theorem trimmed_trim (text : Bytes) : Trimmed (trim text) where
  head byte isHead := by
    have begins : trim text <+: text.dropWhile isBlank := List.rdropWhile_prefix isBlank _
    have isFirst : (text.dropWhile isBlank).head? = some byte := by
      rcases begins with ⟨rest, together⟩
      rw [← together, List.head?_append, isHead, Option.some_or]
    have notBlank := List.head?_dropWhile_not isBlank text
    rw [isFirst] at notBlank
    exact notBlank
  last byte isLast := by
    have nonempty : trim text ≠ [] := by
      intro empty
      rw [empty] at isLast
      cases isLast
    have notBlank := List.rdropWhile_last_not isBlank (text.dropWhile isBlank) nonempty
    rw [List.getLast?_eq_some_getLast nonempty] at isLast
    cases isLast
    exact Bool.eq_false_iff.mpr notBlank

/-! ## Words of a stream -/

/-- `stream >> word`: skip white space and take the bytes up to the next white
space; it fails when none is left. -/
def extractWord (stream : Bytes) : Option (Bytes × Bytes) :=
  let text := stream.dropWhile isSpace
  let word := text.takeWhile fun byte => !isSpace byte
  if word.isEmpty then none
  else some (word, text.dropWhile fun byte => !isSpace byte)

/-- A non-empty byte string without white space. -/
def IsWord (word : Bytes) : Prop :=
  word ≠ [] ∧ ∀ byte ∈ word, isSpace byte = false

instance (word : Bytes) : Decidable (IsWord word) := inferInstanceAs (Decidable (_ ∧ _))

/-- A word that ends at white space, or where the stream ends, is extracted
whole. -/
theorem extractWord_append {word rest : Bytes} (isWord : IsWord word)
    (stops : ∀ byte ∈ rest.head?, isSpace byte = true) :
    extractWord (word ++ rest) = some (word, rest) := by
  rcases isWord with ⟨nonempty, noSpace⟩
  have skip : (word ++ rest).dropWhile isSpace = word ++ rest := by
    cases word with
    | nil => exact absurd rfl nonempty
    | cons first word => simp [noSpace first (by simp)]
  have noSpace' : ∀ byte ∈ word, (!isSpace byte) = true := by
    simpa using noSpace
  have takeRest : rest.takeWhile (fun byte => !isSpace byte) = [] := by
    cases rest with
    | nil => rfl
    | cons first rest => simp [stops first rfl]
  have dropRest : rest.dropWhile (fun byte => !isSpace byte) = rest := by
    cases rest with
    | nil => rfl
    | cons first rest => simp [stops first rfl]
  simp [extractWord, skip, List.takeWhile_append_of_pos noSpace',
    List.dropWhile_append_of_pos noSpace', takeRest, dropRest, nonempty]

theorem extractWord_space_cons {space : Byte} (isSpace_space : isSpace space)
    (stream : Bytes) : extractWord (space :: stream) = extractWord stream := by
  simp [extractWord, isSpace_space]

/-! ## Searching for CRLF -/

/-- The position of the first CRLF from `startPos` on. -/
def findCRLF (data : Bytes) (startPos : Nat) : Option Nat :=
  (List.range' startPos (data.length - 1 - startPos)).find? fun i =>
    data[i]? == some cr && data[i + 1]? == some lf

theorem findCRLF_step {data : Bytes} {startPos : Nat} (inside : startPos + 1 < data.length) :
    findCRLF data startPos =
      if data[startPos]? = some cr ∧ data[startPos + 1]? = some lf then some startPos
      else findCRLF data (startPos + 1) := by
  have count : data.length - 1 - startPos = (data.length - 1 - (startPos + 1)) + 1 := by
    omega
  rw [findCRLF, findCRLF, count, List.range'_succ]
  split
  next here => exact List.find?_cons_of_pos (by simpa using here)
  next absent => exact List.find?_cons_of_neg (by simpa using absent)

/-- The search by positions finds the first terminator of the unread bytes. -/
theorem findCRLF_eq (data : Bytes) (startPos : Nat) :
    findCRLF data startPos =
      (Delimiter.cut cr lf (data.drop startPos)).map fun parts =>
        startPos + parts.1.length := by
  induction remaining : data.length - startPos generalizing startPos with
  | zero =>
      have past : data.length ≤ startPos := by omega
      simp [findCRLF, Delimiter.cut, List.drop_eq_nil_of_le past,
        show data.length - 1 - startPos = 0 by omega]
  | succ remaining ih =>
      have inside : startPos < data.length := by omega
      rw [List.drop_eq_getElem_cons inside, Delimiter.cut, List.head?_drop]
      by_cases last : startPos + 1 = data.length
      · have stops : data[startPos + 1]? = none :=
          List.getElem?_eq_none (Nat.le_of_eq last.symm)
        simp [findCRLF, Delimiter.cut, stops, List.drop_eq_nil_of_le (Nat.le_of_eq last.symm),
          show data.length - 1 - startPos = 0 by omega]
      · simp only [findCRLF_step (show startPos + 1 < data.length by omega),
          List.getElem?_eq_getElem inside, Option.some.injEq]
        split
        next here => simp
        next absent =>
            rw [ih (startPos + 1) (by omega), Option.map_map]
            congr 1
            funext parts
            simp only [Function.comp_apply, List.length_cons]
            omega

end PPServer
