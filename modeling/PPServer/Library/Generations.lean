import PPServer.Library.FiniteMap

/-!
# Tables with numbered entries

Entries of a table come and go under the same keys, so a key that is looked up again may lead to
another entry than before.  Entries are numbered here in the order in which they are made, and
`same_entry_iff` says when a key still leads to the entry that it led to.
-/

namespace PPServer.Generations

universe u v

/-- A value with the number of the entry that holds it. -/
structure Numbered (β : Type v) where
  number : Nat
  value : β
  deriving DecidableEq

/-- A table, and how many entries have been made. -/
structure Table (α : Type u) (β : Type v) [DecidableEq α] where
  entries : Finmap fun _ : α => Numbered β
  made : Nat
  earlier : ∀ key entry, entries.lookup key = some entry → entry.number < made

inductive Change (α : Type u) (β : Type v) where
  | insert (key : α) (value : β)
  | erase (key : α)

variable {α : Type u} {β : Type v} [DecidableEq α] {table : Table α β} {key other : α}
variable {value : β} {changes : List (Change α β)}

namespace Table

def apply (table : Table α β) : Change α β → Table α β
  | .insert key value =>
      { entries := table.entries.insert key ⟨table.made, value⟩
        made := table.made + 1
        earlier := by
          intro other entry found
          rcases FiniteMap.lookup_insert_eq_some_iff.mp found with ⟨-, rfl⟩ | ⟨-, found⟩
          · exact Nat.lt_succ_self _
          · exact (table.earlier other entry found).trans (Nat.lt_succ_self _) }
  | .erase key =>
      { entries := table.entries.erase key
        made := table.made
        earlier := by
          intro other entry found
          exact table.earlier other entry (FiniteMap.lookup_erase_eq_some_iff.mp found).2 }

def after (table : Table α β) (changes : List (Change α β)) : Table α β :=
  changes.foldl apply table

@[simp] theorem after_nil (table : Table α β) : table.after [] = table := rfl

theorem after_append (table : Table α β) (first second : List (Change α β)) :
    table.after (first ++ second) = (table.after first).after second := by
  rw [after, List.foldl_append]
  rfl

theorem after_concat (table : Table α β) (changes : List (Change α β)) (change : Change α β) :
    table.after (changes ++ [change]) = (table.after changes).apply change :=
  after_append table changes [change]

theorem made_le_after (table : Table α β) (changes : List (Change α β)) :
    table.made ≤ (table.after changes).made := by
  induction changes using List.reverseRecOn with
  | nil => exact Nat.le_refl _
  | append_singleton changes change ih =>
      rw [after_concat]
      cases change with
      | insert key value => exact ih.trans (Nat.le_succ _)
      | erase key => exact ih

end Table

/-! ## The last change of a key -/

/-- An entry has been made under the key that no later change erases. -/
def Renewed (key : α) (changes : List (Change α β)) : Prop :=
  ∃ early value late, changes = early ++ .insert key value :: late ∧ .erase key ∉ late

omit [DecidableEq α] in
theorem not_renewed_nil (key : α) : ¬Renewed key ([] : List (Change α β)) := by
  rintro ⟨early, value, late, whole, -⟩
  exact List.append_ne_nil_of_right_ne_nil _ (List.cons_ne_nil _ _) whole.symm

omit [DecidableEq α] in
theorem renewed_insert (key : α) (value : β) (changes : List (Change α β)) :
    Renewed key (changes ++ [.insert key value]) :=
  ⟨changes, value, [], rfl, List.not_mem_nil⟩

omit [DecidableEq α] in
/-- Only a change of the key makes a difference. -/
theorem renewed_concat_iff {change : Change α β} (notMade : ∀ value, change ≠ .insert key value) :
    Renewed key (changes ++ [change]) ↔ change ≠ .erase key ∧ Renewed key changes := by
  constructor
  · rintro ⟨early, value, late, whole, kept⟩
    rcases List.eq_nil_or_concat late with rfl | ⟨late, last, rfl⟩
    · exact absurd (List.append_inj_right' whole rfl) (by simpa using notMade value)
    · rw [List.concat_eq_append] at whole kept
      rw [← List.cons_append, ← List.append_assoc] at whole
      obtain ⟨rfl, same⟩ := List.append_inj' whole rfl
      obtain rfl : change = last := by simpa using same
      rw [List.mem_append, List.mem_singleton, not_or] at kept
      exact ⟨Ne.symm kept.2, early, value, late, rfl, kept.1⟩
  · rintro ⟨notErased, early, value, late, rfl, kept⟩
    refine ⟨early, value, late ++ [change], by simp, ?_⟩
    rw [List.mem_append, List.mem_singleton, not_or]
    exact ⟨kept, Ne.symm notErased⟩

/-! ## What a key leads to later -/

/-- A key with a new entry leads to it. -/
theorem lookup_of_renewed (table : Table α β) (renewed : Renewed key changes) :
    ∃ entry, (table.after changes).entries.lookup key = some entry ∧
      table.made ≤ entry.number := by
  induction changes using List.reverseRecOn with
  | nil => exact absurd renewed (not_renewed_nil key)
  | append_singleton changes change ih =>
      rw [Table.after_concat]
      by_cases isInsert : ∃ value, change = .insert key value
      · rcases isInsert with ⟨value, rfl⟩
        exact ⟨_, Finmap.lookup_insert _, table.made_le_after changes⟩
      · rw [renewed_concat_iff (not_exists.mp isInsert)] at renewed
        rcases renewed with ⟨notErased, renewed⟩
        rcases ih renewed with ⟨entry, found, recent⟩
        refine ⟨entry, ?_, recent⟩
        cases change with
        | insert other value =>
            have differs : key ≠ other := by
              rintro rfl
              exact isInsert ⟨value, rfl⟩
            exact (Finmap.lookup_insert_of_ne _ differs).trans found
        | erase other =>
            have differs : key ≠ other := by
              rintro rfl
              exact notErased rfl
            exact (Finmap.lookup_erase_ne differs).trans found

/-- A key without a new entry leads where it led, or nowhere if its entry has been erased. -/
theorem lookup_of_not_renewed (table : Table α β) (notRenewed : ¬Renewed key changes) :
    (.erase key ∈ changes → (table.after changes).entries.lookup key = none) ∧
      (.erase key ∉ changes →
        (table.after changes).entries.lookup key = table.entries.lookup key) := by
  induction changes using List.reverseRecOn with
  | nil => exact ⟨fun erased => absurd erased List.not_mem_nil, fun _ => rfl⟩
  | append_singleton changes change ih =>
      rw [Table.after_concat, List.mem_append, List.mem_singleton]
      have notMade : ∀ value, change ≠ .insert key value := by
        rintro value rfl
        exact notRenewed (renewed_insert key value changes)
      rw [renewed_concat_iff notMade] at notRenewed
      cases change with
      | insert other value =>
          have differs : key ≠ other := by
            rintro rfl
            exact notMade value rfl
          have same : ((table.after changes).apply (.insert other value)).entries.lookup key =
              (table.after changes).entries.lookup key := Finmap.lookup_insert_of_ne _ differs
          rw [same]
          simpa using ih fun renewed => notRenewed ⟨by simp, renewed⟩
      | erase other =>
          by_cases isKey : key = other
          · subst isKey
            exact ⟨fun _ => Finmap.lookup_erase key _, fun kept => absurd (.inr rfl) kept⟩
          · have same : ((table.after changes).apply (.erase other)).entries.lookup key =
                (table.after changes).entries.lookup key := Finmap.lookup_erase_ne isKey
            rw [same]
            have ne : Change.erase other ≠ (Change.erase key : Change α β) := by
              simpa using Ne.symm isKey
            simpa [isKey] using ih fun renewed => notRenewed ⟨ne, renewed⟩

/-- **A key leads to no other entry than before** exactly if no entry has been made under it that
is still there. -/
theorem same_entry_iff (table : Table α β) :
    (∀ entry, (table.after changes).entries.lookup key = some entry →
        table.entries.lookup key = some entry) ↔
      ¬Renewed key changes := by
  constructor
  · intro same renewed
    rcases lookup_of_renewed table renewed with ⟨entry, found, recent⟩
    exact absurd (table.earlier key entry (same entry found)) (Nat.not_lt.mpr recent)
  · intro notRenewed entry found
    rcases lookup_of_not_renewed table notRenewed with ⟨gone, stays⟩
    by_cases erased : .erase key ∈ changes
    · rw [gone erased] at found
      cases found
    · rwa [← stays erased]

end PPServer.Generations
