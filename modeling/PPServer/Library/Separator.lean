import Mathlib.Data.List.TakeWhile
import Mathlib.Tactic.Common

/-!
# One-symbol separators

Lists over an arbitrary alphabet that are divided at a single symbol.  `before` and `after` are the
two sides of the first occurrence, and `afterLast` is what follows the last one.  A program finds
them by positions (`findFrom`, `findLast`), and a list with several separators is taken apart from
the front (`splitOn_of_mem`).
-/

namespace PPServer.Separator

universe u v

variable {α : Type u}

/-! ## Words -/

/-- The non-empty parts between separators of a class. -/
def words (isSeparator : α → Bool) (symbols : List α) : List (List α) :=
  (symbols.splitOnP isSeparator).filter fun part => !part.isEmpty

variable {isSeparator : α → Bool} {symbols word rest : List α} {symbol : α}

@[simp] theorem words_nil : words isSeparator ([] : List α) = [] := rfl

theorem words_cons (separates : isSeparator symbol = true) :
    words isSeparator (symbol :: symbols) = words isSeparator symbols := by
  rw [words, List.splitOnP_cons_eq_if_modifyHead, if_pos separates]
  rfl

theorem words_dropWhile (symbols : List α) :
    words isSeparator (symbols.dropWhile isSeparator) = words isSeparator symbols := by
  induction symbols with
  | nil => rfl
  | cons symbol symbols ih =>
      rw [List.dropWhile_cons]
      split
      next separates => rw [ih, words_cons separates]
      next => rfl

/-- A word ends at the next separator, or where the list ends. -/
theorem words_append (nonempty : word ≠ []) (whole : ∀ symbol ∈ word, isSeparator symbol = false)
    (stops : ∀ symbol ∈ rest.head?, isSeparator symbol = true) :
    words isSeparator (word ++ rest) = word :: words isSeparator rest := by
  cases rest with
  | nil =>
      rw [List.append_nil, words, List.splitOnP_eq_singleton whole]
      simp [nonempty]
  | cons symbol rest =>
      have separates := stops symbol rfl
      rw [words_cons separates, words,
        List.splitOnP_append_cons_of_forall_mem whole symbol separates, List.filter_cons]
      simp [nonempty, words]

/-- There are no separators in a word. -/
theorem isSeparator_of_mem_words (member : word ∈ words isSeparator symbols) :
    word ≠ [] ∧ ∀ symbol ∈ word, isSeparator symbol = false := by
  have parts (symbols : List α) : ∀ part ∈ symbols.splitOnP isSeparator,
      ∀ symbol ∈ part, isSeparator symbol = false := by
    induction symbols with
    | nil => simp
    | cons symbol symbols ih =>
        rw [List.splitOnP_cons_eq_if_modifyHead]
        split
        next => simpa using ih
        next passes =>
            rcases List.exists_cons_of_ne_nil (List.splitOnP_ne_nil isSeparator symbols) with
              ⟨first, others, equal⟩
            rw [equal, List.forall_mem_cons] at ih
            rw [equal, List.modifyHead_cons, List.forall_mem_cons, List.forall_mem_cons]
            exact ⟨⟨by simpa using passes, ih.1⟩, ih.2⟩
  rcases List.mem_filter.mp member with ⟨isPart, nonempty⟩
  exact ⟨by simpa using nonempty, parts symbols word isPart⟩

/-! ## The first separator -/

variable [DecidableEq α] {separator : α} {front back : List α}

/-- What stands before the first separator; the whole list if there is none. -/
def before (separator : α) (symbols : List α) : List α :=
  symbols.takeWhile fun symbol => symbol != separator

/-- What stands after the first separator; nothing if there is none. -/
def after (separator : α) (symbols : List α) : List α :=
  (symbols.dropWhile fun symbol => symbol != separator).tail

theorem notMem_before (separator : α) (symbols : List α) :
    separator ∉ before separator symbols := by
  intro member
  have differs := List.mem_takeWhile_imp member
  simp at differs

theorem before_of_notMem (absent : separator ∉ symbols) : before separator symbols = symbols := by
  rw [before, List.takeWhile_eq_self_iff]
  intro symbol member
  exact bne_iff_ne.mpr fun same => absent (same ▸ member)

theorem after_of_notMem (absent : separator ∉ symbols) : after separator symbols = [] := by
  have nothing : symbols.dropWhile (fun symbol => symbol != separator) = [] := by
    rw [List.dropWhile_eq_nil_iff]
    intro symbol member
    exact bne_iff_ne.mpr fun same => absent (same ▸ member)
  rw [after, nothing, List.tail_nil]

theorem before_append_of_notMem (absent : separator ∉ front) (back : List α) :
    before separator (front ++ back) = front ++ before separator back := by
  have passes : ∀ symbol ∈ front, (symbol != separator) = true :=
    fun symbol member => bne_iff_ne.mpr fun same => absent (same ▸ member)
  exact List.takeWhile_append_of_pos passes

theorem before_append_cons (absent : separator ∉ front) :
    before separator (front ++ separator :: back) = front := by
  rw [before_append_of_notMem absent, before]
  simp

theorem after_append_cons (absent : separator ∉ front) :
    after separator (front ++ separator :: back) = back := by
  have passes : ∀ symbol ∈ front, (symbol != separator) = true :=
    fun symbol member => bne_iff_ne.mpr fun same => absent (same ▸ member)
  rw [after, List.dropWhile_append_of_pos passes]
  simp

/-- A list with a separator is what stands before the first one, the separator, and the rest. -/
theorem eq_append_of_mem (member : separator ∈ symbols) :
    symbols = before separator symbols ++ separator :: after separator symbols := by
  rcases List.eq_append_cons_of_mem member with ⟨front, back, rfl, absent⟩
  rw [before_append_cons absent, after_append_cons absent]

/-- Of a list with a separator in its first part only this part matters for what stands before
it. -/
theorem before_append_of_mem (member : separator ∈ front) :
    before separator (front ++ back) = before separator front := by
  rcases List.eq_append_cons_of_mem member with ⟨start, tail, rfl, absent⟩
  rw [List.append_assoc, List.cons_append, before_append_cons absent, before_append_cons absent]

theorem isPrefix_before (separator : α) (symbols : List α) :
    before separator symbols <+: symbols :=
  List.takeWhile_prefix _

/-! ## Positions -/

/-- The first position from `start` on where the separator stands. -/
def findFrom (separator : α) (symbols : List α) (start : Nat) : Option Nat :=
  ((symbols.drop start).findIdx? (· == separator)).map (start + ·)

theorem findIdx?_eq (separator : α) (symbols : List α) :
    symbols.findIdx? (· == separator) =
      if separator ∈ symbols then some (before separator symbols).length else none := by
  split
  next member =>
      rcases List.eq_append_cons_of_mem member with ⟨front, back, rfl, absent⟩
      have skips : front.findIdx? (· == separator) = none := by
        rw [List.findIdx?_eq_none_iff]
        intro symbol isIn
        exact beq_eq_false_iff_ne.mpr fun same => absent (same ▸ isIn)
      rw [List.findIdx?_append, skips, before_append_cons absent, List.findIdx?_cons]
      simp
  next absent =>
      rw [List.findIdx?_eq_none_iff]
      intro symbol isIn
      exact beq_eq_false_iff_ne.mpr fun same => absent (same ▸ isIn)

theorem findFrom_eq (separator : α) (symbols : List α) (start : Nat) :
    findFrom separator symbols start =
      if separator ∈ symbols.drop start then
        some (start + (before separator (symbols.drop start)).length)
      else none := by
  rw [findFrom, findIdx?_eq]
  split <;> rfl

theorem take_length_before (separator : α) (symbols : List α) :
    symbols.take (before separator symbols).length = before separator symbols :=
  (List.prefix_iff_eq_take.mp (isPrefix_before separator symbols)).symm

theorem drop_length_before (separator : α) (symbols : List α) :
    symbols.drop ((before separator symbols).length + 1) = after separator symbols := by
  by_cases member : separator ∈ symbols
  · rcases List.eq_append_cons_of_mem member with ⟨front, back, rfl, absent⟩
    rw [before_append_cons absent, after_append_cons absent, ← List.drop_drop, List.drop_left]
    rfl
  · rw [before_of_notMem member, after_of_notMem member]
    exact List.drop_eq_nil_of_le (Nat.le_succ _)

/-! ## The last separator -/

/-- The position of the last separator. -/
def findLast (separator : α) (symbols : List α) : Option Nat :=
  (symbols.reverse.findIdx? (· == separator)).map (symbols.length - 1 - ·)

/-- What stands after the last separator; the whole list if there is none. -/
def afterLast (separator : α) (symbols : List α) : List α :=
  (before separator symbols.reverse).reverse

omit [DecidableEq α] in
theorem reverse_append_cons (front back : List α) (separator : α) :
    (front ++ separator :: back).reverse = back.reverse ++ separator :: front.reverse := by
  simp

theorem findLast_append_cons (absent : separator ∉ back) :
    findLast separator (front ++ separator :: back) = some front.length := by
  have absentBack : separator ∉ back.reverse := by simpa
  have member : separator ∈ back.reverse ++ separator :: front.reverse := by simp
  rw [findLast, reverse_append_cons, findIdx?_eq, if_pos member, before_append_cons absentBack,
    Option.map_some, List.length_append, List.length_cons, List.length_reverse]
  congr 1
  omega

theorem findLast_of_notMem (absent : separator ∉ symbols) : findLast separator symbols = none := by
  have absentReverse : separator ∉ symbols.reverse := by simpa
  rw [findLast, findIdx?_eq, if_neg absentReverse, Option.map_none]

theorem afterLast_append_cons (absent : separator ∉ back) :
    afterLast separator (front ++ separator :: back) = back := by
  have absentBack : separator ∉ back.reverse := by simpa
  rw [afterLast, reverse_append_cons, before_append_cons absentBack, List.reverse_reverse]

theorem afterLast_of_notMem (absent : separator ∉ symbols) :
    afterLast separator symbols = symbols := by
  rw [afterLast, before_of_notMem (by simpa), List.reverse_reverse]

omit [DecidableEq α] in
/-- A list with a separator, divided at the last one. -/
theorem eq_append_cons_of_mem_last (member : separator ∈ symbols) :
    ∃ front back, symbols = front ++ separator :: back ∧ separator ∉ back := by
  have memberReverse : separator ∈ symbols.reverse := by simpa
  rcases List.eq_append_cons_of_mem memberReverse with ⟨back, front, equal, absent⟩
  refine ⟨front.reverse, back.reverse, ?_, by simpa⟩
  rw [← List.reverse_inj, equal, reverse_append_cons, List.reverse_reverse, List.reverse_reverse]

theorem notMem_afterLast (separator : α) (symbols : List α) :
    separator ∉ afterLast separator symbols := by
  rw [afterLast, List.mem_reverse]
  exact notMem_before separator symbols.reverse

/-- Where the second part has a separator, only this part matters for what stands after the last
one. -/
theorem afterLast_append_of_mem (member : separator ∈ back) :
    afterLast separator (front ++ back) = afterLast separator back := by
  rcases eq_append_cons_of_mem_last member with ⟨start, tail, rfl, absent⟩
  rw [← List.append_assoc, afterLast_append_cons absent, afterLast_append_cons absent]

theorem afterLast_append_of_notMem (absent : separator ∉ back) :
    afterLast separator (front ++ back) = afterLast separator front ++ back := by
  by_cases member : separator ∈ front
  · rcases eq_append_cons_of_mem_last member with ⟨start, tail, rfl, absentTail⟩
    rw [List.append_assoc, List.cons_append, afterLast_append_cons (by simp [absentTail, absent]),
      afterLast_append_cons absentTail]
  · rw [afterLast_of_notMem (by simp [member, absent]), afterLast_of_notMem member]

/-! ## Several separators -/

theorem splitOn_of_mem (member : separator ∈ symbols) :
    symbols.splitOn separator =
      before separator symbols :: (after separator symbols).splitOn separator := by
  rcases List.eq_append_cons_of_mem member with ⟨front, back, rfl, absent⟩
  rw [before_append_cons absent, after_append_cons absent]
  exact List.splitOn_append_cons_self_of_not_mem absent back

/-- Going through the parts of a list, the first one can be taken off.  Where there is no
separator the parts end with it, and an empty one more makes no difference to a `step` that
ignores empty parts. -/
theorem foldl_splitOn {β : Type v} {step : β → List α → β}
    (ignores : ∀ state, step state [] = state) (separator : α) (symbols : List α) (state : β) :
    (symbols.splitOn separator).foldl step state =
      ((after separator symbols).splitOn separator).foldl step
        (step state (before separator symbols)) := by
  by_cases member : separator ∈ symbols
  · rw [splitOn_of_mem member, List.foldl_cons]
  · rw [List.splitOn_eq_singleton member, before_of_notMem member, after_of_notMem member]
    simp [ignores]

end PPServer.Separator
