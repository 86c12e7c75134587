import Mathlib.Data.List.Infix
import Mathlib.Tactic.Common

/-!
# Two-symbol terminators

Lists over an arbitrary alphabet that are divided by a terminator of two different
symbols.  `Free` says that the terminator does not occur, `cut` divides a list at
its first occurrence, and `free_concat_iff` says when one more symbol completes a
terminator: the fact a reader that sees one symbol at a time relies on.  A proof about
all lists goes along their lines (`lines_induction`).
-/

namespace PPServer.Delimiter

universe u

variable {α : Type u} {first second symbol : α} {line rest symbols : List α}

/-- The terminator `first second` does not occur in `symbols`. -/
def Free (first second : α) (symbols : List α) : Prop :=
  ¬[first, second] <:+: symbols

instance [DecidableEq α] (first second : α) (symbols : List α) :
    Decidable (Free first second symbols) :=
  inferInstanceAs (Decidable (¬_))

@[simp] theorem free_nil : Free first second ([] : List α) := by
  simp [Free]

theorem Free.of_infix {inner : List α} (free : Free first second symbols)
    (part : inner <:+: symbols) : Free first second inner :=
  fun occurs => free (occurs.trans part)

theorem Free.left (free : Free first second (line ++ rest)) :
    Free first second line :=
  free.of_infix (List.prefix_append line rest).isInfix

theorem suffix_pair_iff :
    [first, second] <:+ line ++ [symbol] ↔
      line.getLast? = some first ∧ symbol = second := by
  constructor
  · intro isInfix
    rcases isInfix with ⟨front, equal⟩
    have split : front ++ [first] ++ [second] = line ++ [symbol] := by
      simpa using equal
    rcases List.append_inj' split rfl with ⟨rfl, last⟩
    simp_all
  · intro ends
    rcases ends with ⟨last, rfl⟩
    rcases List.getLast?_eq_some_iff.mp last with ⟨front, rfl⟩
    exact ⟨front, by simp⟩

/-- One more symbol keeps the list free of the terminator unless it completes
one. -/
theorem free_concat_iff :
    Free first second (line ++ [symbol]) ↔
      Free first second line ∧ ¬(line.getLast? = some first ∧ symbol = second) := by
  simp only [Free]
  rw [List.infix_concat_iff, suffix_pair_iff]
  tauto

/-- Free of the terminator up to a first half of one. -/
theorem free_concat_first (distinct : first ≠ second) :
    Free first second (line ++ [first]) ↔ Free first second line := by
  rw [free_concat_iff]
  simp [distinct]

theorem free_cons_iff :
    Free first second (symbol :: symbols) ↔
      ¬(symbol = first ∧ symbols.head? = some second) ∧ Free first second symbols := by
  have starts : [first, second] <+: symbol :: symbols ↔
      symbol = first ∧ symbols.head? = some second := by
    cases symbols with
    | nil => simp
    | cons head tail => simp [List.cons_prefix_cons, eq_comm]
  simp only [Free]
  rw [List.infix_cons_iff, starts]
  tauto

/-- Two parts with a symbol between them that is no part of the terminator. -/
theorem Free.append_cons (left : Free first second line) (right : Free first second rest)
    (notFirst : symbol ≠ first) (notSecond : symbol ≠ second) :
    Free first second (line ++ symbol :: rest) := by
  induction line with
  | nil => exact free_cons_iff.mpr ⟨fun both => notFirst both.1, right⟩
  | cons head line ih =>
      rw [free_cons_iff] at left
      rw [List.cons_append, free_cons_iff]
      refine ⟨fun both => left.1 ⟨both.1, ?_⟩, ih left.2⟩
      cases line with
      | nil => exact absurd (Option.some.inj both.2) notSecond
      | cons next line => exact both.2

/-- A beginning of a line and what follows it either has no terminator in it or has
the whole line. -/
theorem free_or_exists_of_append_eq {front back : List α} (distinct : first ≠ second)
    (free : Free first second line)
    (equal : front ++ back = line ++ first :: second :: rest) :
    Free first second front ∨
      ∃ more, front = line ++ first :: second :: more ∧ more ++ back = rest := by
  have split : line ++ first :: second :: rest = (line ++ [first, second]) ++ rest := by simp
  rw [split, List.append_eq_append_iff] at equal
  rcases equal with ⟨missing, whole, after⟩ | ⟨more, rfl, rfl⟩
  · rcases List.eq_nil_or_concat missing with rfl | ⟨begun, last, rfl⟩
    · rw [List.append_nil] at whole
      exact .inr ⟨[], whole.symm, after⟩
    · left
      have cutOff : (line ++ [first]) ++ [second] = (front ++ begun) ++ [last] := by
        simpa using whole
      have openLine := (List.append_inj' cutOff rfl).1
      have freeWhole : Free first second (front ++ begun) := by
        rw [← openLine]
        exact (free_concat_first distinct).mpr free
      exact freeWhole.left
  · exact .inr ⟨more, by simp, rfl⟩

variable [DecidableEq α]

/-- Divide a list at the first terminator: what stands before it and what follows
it. -/
def cut (first second : α) : List α → Option (List α × List α)
  | [] => none
  | symbol :: symbols =>
      if symbol = first ∧ symbols.head? = some second then
        some ([], symbols.tail)
      else
        (cut first second symbols).map fun parts => (symbol :: parts.1, parts.2)

theorem cut_eq_none_iff :
    cut first second symbols = none ↔ Free first second symbols := by
  induction symbols with
  | nil => simp [cut]
  | cons symbol symbols ih =>
      rw [cut, free_cons_iff]
      split
      next here => simp [here]
      next absent => rw [Option.map_eq_none_iff, ih]; tauto

/-- The division is the one at the first occurrence. -/
theorem cut_eq_some_iff (distinct : first ≠ second) :
    cut first second symbols = some (line, rest) ↔
      symbols = line ++ first :: second :: rest ∧ Free first second line := by
  induction symbols generalizing line with
  | nil => simp [cut]
  | cons symbol symbols ih =>
      rw [cut]
      split
      next here =>
          rcases here with ⟨rfl, next⟩
          rcases List.head?_eq_some_iff.mp next with ⟨tail, rfl⟩
          constructor
          · intro equal
            cases equal
            simp
          · intro division
            rcases division with ⟨equal, free⟩
            cases line with
            | nil => simp_all
            | cons head line =>
                -- A later occurrence would leave this one inside the line.
                rw [free_cons_iff] at free
                cases line with
                | nil => simp_all
                | cons mid line => simp_all
      next absent =>
          rw [Option.map_eq_some_iff]
          constructor
          · intro division
            rcases division with ⟨⟨tailLine, tailRest⟩, parts, equal⟩
            cases equal
            rcases ih.mp parts with ⟨rfl, free⟩
            refine ⟨rfl, free_cons_iff.mpr ⟨?_, free⟩⟩
            intro isPair
            rcases isPair with ⟨rfl, next⟩
            refine absent ⟨rfl, ?_⟩
            cases tailLine with
            | nil => simp at next
            | cons head tailLine => simpa using next
          · intro division
            rcases division with ⟨equal, free⟩
            cases line with
            | nil => simp_all
            | cons head line =>
                simp only [List.cons_append, List.cons.injEq] at equal
                rcases equal with ⟨rfl, equal⟩
                exact ⟨(line, rest), ih.mpr ⟨equal, (free_cons_iff.mp free).2⟩, rfl⟩

theorem line_unique {other otherRest : List α} (distinct : first ≠ second)
    (free : Free first second line) (otherFree : Free first second other)
    (equal : line ++ first :: second :: rest = other ++ first :: second :: otherRest) :
    line = other ∧ rest = otherRest := by
  have division := (cut_eq_some_iff distinct).mpr ⟨equal, otherFree⟩
  rw [(cut_eq_some_iff distinct).mpr ⟨rfl, free⟩] at division
  simpa using division

/-- A list has no terminator in it, or begins with a line. -/
inductive Begins (first second : α) : List α → Prop where
  | unended {symbols : List α} (free : Free first second symbols) : Begins first second symbols
  | line {line : List α} (rest : List α) (free : Free first second line) :
      Begins first second (line ++ first :: second :: rest)

theorem begins (distinct : first ≠ second) (symbols : List α) : Begins first second symbols := by
  cases division : cut first second symbols with
  | none => exact .unended (cut_eq_none_iff.mp division)
  | some parts =>
      rcases parts with ⟨line, rest⟩
      rcases (cut_eq_some_iff distinct).mp division with ⟨rfl, free⟩
      exact .line rest free

/-- Induction along the lines of a list. -/
theorem lines_induction {motive : List α → Prop} (distinct : first ≠ second)
    (unended : ∀ symbols, Free first second symbols → motive symbols)
    (line : ∀ line rest, Free first second line →
      (∀ shorter : List α, shorter.length ≤ rest.length → motive shorter) →
      motive (line ++ first :: second :: rest))
    (symbols : List α) : motive symbols := by
  induction size : symbols.length using Nat.strongRecOn generalizing symbols with
  | _ size ih =>
      subst size
      cases begins distinct symbols with
      | unended free => exact unended symbols free
      | line rest free =>
          apply line _ rest free
          intro shorter fewer
          exact ih shorter.length (by simp; omega) shorter rfl

end PPServer.Delimiter
