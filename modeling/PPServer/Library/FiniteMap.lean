import Mathlib.Data.Finmap
import Mathlib.Data.List.Induction

/-!
# Finite maps

What `Finmap` says about single lookups, as equivalences, the orders in which the entries of a map
can be visited, and a second map that finds the entries of a first one by a coarser key.
-/

namespace PPServer.FiniteMap

universe u v

variable {α : Type u} {β : Type v} [DecidableEq α] {map : Finmap fun _ : α => β}
variable {key other : α} {value found : β}

theorem lookup_erase_eq_some_iff :
    (map.erase key).lookup other = some found ↔ other ≠ key ∧ map.lookup other = some found := by
  by_cases same : other = key
  · subst same
    simp
  · rw [Finmap.lookup_erase_ne same]
    simp [same]

theorem erase_of_notMem (absent : key ∉ map) : map.erase key = map := by
  apply Finmap.ext_lookup
  intro other
  by_cases same : other = key
  · rw [same, Finmap.lookup_erase, Finmap.lookup_eq_none.mpr absent]
  · exact Finmap.lookup_erase_ne same

theorem lookup_insert_eq_some_iff :
    (map.insert key value).lookup other = some found ↔
      other = key ∧ value = found ∨ other ≠ key ∧ map.lookup other = some found := by
  by_cases same : other = key
  · subst same
    simp
  · rw [Finmap.lookup_insert_of_ne _ same]
    simp [same]

/-- After entries have been put in one after the other, the last one for a key is there. -/
theorem lookup_foldl_insert (entries : List (α × β)) (map : Finmap fun _ : α => β) (key : α) :
    (entries.foldl (fun map entry => map.insert entry.1 entry.2) map).lookup key =
      ((entries.filter fun entry => entry.1 = key).map Prod.snd).getLast?.or (map.lookup key) := by
  induction entries using List.reverseRecOn with
  | nil => rfl
  | append_singleton entries last ih =>
      rw [List.foldl_append, List.foldl_cons, List.foldl_nil, List.filter_append, List.map_append]
      by_cases same : last.1 = key
      · rw [same, Finmap.lookup_insert]
        simp [same]
      · rw [Finmap.lookup_insert_of_ne _ (Ne.symm same), ih]
        simp [same]

/-! ## Orders of the entries -/

/-- One order in which the entries of a map can be visited. -/
def IsOrder (map : Finmap fun _ : α => β) (order : List (Σ _ : α, β)) : Prop :=
  (order : Multiset (Σ _ : α, β)) = map.entries

instance [DecidableEq β] (map : Finmap fun _ : α => β) (order : List (Σ _ : α, β)) :
    Decidable (IsOrder map order) :=
  inferInstanceAs (Decidable (_ = _))

variable {order : List (Σ _ : α, β)}

omit [DecidableEq α] in
theorem IsOrder.nodupKeys (isOrder : IsOrder map order) : order.NodupKeys := by
  have nodup : map.entries.NodupKeys := map.nodupKeys
  rwa [← isOrder, Multiset.coe_nodupKeys] at nodup

theorem IsOrder.lookup (isOrder : IsOrder map order) (key : α) :
    map.lookup key = order.dlookup key := by
  have equal : map = AList.toFinmap ⟨order, isOrder.nodupKeys⟩ := Finmap.ext isOrder.symm
  rw [equal, Finmap.lookup_toFinmap]
  rfl

/-- Exactly the entries of the map are visited. -/
theorem IsOrder.mem_iff (isOrder : IsOrder map order) (entry : Σ _ : α, β) :
    entry ∈ order ↔ map.lookup entry.1 = some entry.2 := by
  rw [isOrder.lookup]
  exact (List.mem_dlookup_iff isOrder.nodupKeys).symm

/-! ## Indexes by a coarser key -/

universe w

variable {γ : Type w} [DecidableEq γ] {fold : α → γ} {index : Finmap fun _ : γ => β}

/-- Looked up by `fold key`, the index has the value under one key that folds to this, whenever
there is such a key. -/
structure Indexes (fold : α → γ) (map : Finmap fun _ : α => β) (index : Finmap fun _ : γ => β) :
    Prop where
  backed : ∀ folded value, index.lookup folded = some value →
    ∃ key, map.lookup key = some value ∧ fold key = folded
  covers : ∀ key ∈ map, fold key ∈ index

theorem indexes_empty (fold : α → γ) :
    Indexes fold (∅ : Finmap fun _ : α => β) (∅ : Finmap fun _ : γ => β) where
  backed folded value found := by simp at found
  covers _ member := absurd member Finmap.notMem_empty

/-- Whatever is found in the index is the value under a key that folds to what was asked for. -/
def Backed (fold : α → γ) (map : Finmap fun _ : α => β) (index : Finmap fun _ : γ => β) : Prop :=
  ∀ folded value, index.lookup folded = some value →
    ∃ key, map.lookup key = some value ∧ fold key = folded

theorem Backed.insert (isBacked : Backed fold map index) (key : α) (value : β) :
    Backed fold (map.insert key value) (index.insert (fold key) value) := by
  intro folded found lookup
  rcases lookup_insert_eq_some_iff.mp lookup with ⟨rfl, rfl⟩ | ⟨differs, lookup⟩
  · exact ⟨key, Finmap.lookup_insert map, rfl⟩
  · rcases isBacked folded found lookup with ⟨other, stored, rfl⟩
    have otherKey : other ≠ key := fun same => differs (congrArg fold same)
    exact ⟨other, lookup_insert_eq_some_iff.mpr (.inr ⟨otherKey, stored⟩), rfl⟩

theorem Backed.erase (isBacked : Backed fold map index) (key : α) :
    Backed fold (map.erase key) (index.erase (fold key)) := by
  intro folded found lookup
  rcases lookup_erase_eq_some_iff.mp lookup with ⟨differs, lookup⟩
  rcases isBacked folded found lookup with ⟨other, stored, rfl⟩
  have otherKey : other ≠ key := fun same => differs (congrArg fold same)
  exact ⟨other, lookup_erase_eq_some_iff.mpr ⟨otherKey, stored⟩, rfl⟩

theorem Indexes.insert (indexes : Indexes fold map index) (key : α) (value : β) :
    Indexes fold (map.insert key value) (index.insert (fold key) value) where
  backed := Backed.insert indexes.backed key value
  covers other member := by
    rw [Finmap.mem_insert] at member ⊢
    exact member.imp (congrArg fold) (indexes.covers other)

/-- Erasing one key and its fold keeps the index exactly if no other key folds to the same. -/
theorem Indexes.erase_iff (indexes : Indexes fold map index) :
    Indexes fold (map.erase key) (index.erase (fold key)) ↔
      ∀ other ∈ map, fold other = fold key → other = key := by
  constructor
  · intro kept other member same
    by_contra differs
    have covered := kept.covers other (Finmap.mem_erase.mpr ⟨differs, member⟩)
    rw [same] at covered
    exact Finmap.notMem_erase_self covered
  · intro single
    constructor
    case backed => exact Backed.erase indexes.backed key
    case covers =>
      intro other member
      rw [Finmap.mem_erase] at member ⊢
      exact ⟨fun same => member.1 (single other member.2 same), indexes.covers other member.2⟩

/-- Entering the entries of a map one after another, in any order, makes an index of it. -/
theorem IsOrder.indexes (isOrder : IsOrder map order) (fold : α → γ) :
    Indexes fold map
      (order.foldl (fun index entry => index.insert (fold entry.1) entry.2) ∅) := by
  have entered (entries : List (Σ _ : α, β)) :
      (∀ folded value, (entries.foldl (fun index entry => index.insert (fold entry.1) entry.2)
          (∅ : Finmap fun _ : γ => β)).lookup folded = some value →
        ∃ entry ∈ entries, entry.2 = value ∧ fold entry.1 = folded) ∧
      ∀ entry ∈ entries, fold entry.1 ∈
        entries.foldl (fun index entry => index.insert (fold entry.1) entry.2)
          (∅ : Finmap fun _ : γ => β) := by
    induction entries using List.reverseRecOn with
    | nil => simp
    | append_singleton entries last ih =>
        simp only [List.foldl_append, List.foldl_cons, List.foldl_nil]
        constructor
        · intro folded value lookup
          rcases lookup_insert_eq_some_iff.mp lookup with ⟨rfl, rfl⟩ | ⟨-, lookup⟩
          · exact ⟨last, by simp, rfl, rfl⟩
          · rcases ih.1 folded value lookup with ⟨entry, member, stored⟩
            exact ⟨entry, List.mem_append_left _ member, stored⟩
        · intro entry member
          rw [Finmap.mem_insert]
          rcases List.mem_append.mp member with earlier | isLast
          · exact .inr (ih.2 entry earlier)
          · rw [List.mem_singleton.mp isLast]
            exact .inl rfl
  constructor
  case backed =>
    intro folded value lookup
    rcases (entered order).1 folded value lookup with ⟨entry, member, rfl, rfl⟩
    exact ⟨entry.1, (isOrder.mem_iff entry).mp member, rfl⟩
  case covers =>
    intro key member
    rcases Finmap.mem_iff.mp member with ⟨value, stored⟩
    exact (entered order).2 ⟨key, value⟩ ((isOrder.mem_iff ⟨key, value⟩).mpr stored)

/-- The entry is the last one of the list with a key that folds as its key does. -/
def IsLast (fold : α → γ) (entries : List (Σ _ : α, β)) (entry : Σ _ : α, β) : Prop :=
  ∃ front back, entries = front ++ entry :: back ∧ ∀ later ∈ back, fold later.1 ≠ fold entry.1

omit [DecidableEq α] [DecidableEq γ] in
theorem isLast_concat_iff {entries : List (Σ _ : α, β)} {last entry : Σ _ : α, β} :
    IsLast fold (entries ++ [last]) entry ↔
      last = entry ∨ fold last.1 ≠ fold entry.1 ∧ IsLast fold entries entry := by
  constructor
  · intro isLast
    rcases isLast with ⟨front, back, split, none⟩
    rcases List.eq_nil_or_concat back with rfl | ⟨others, other, rfl⟩
    · exact .inl (List.append_inj_right' split rfl |> List.singleton_inj.mp)
    · rw [List.concat_eq_append, ← List.cons_append, ← List.append_assoc] at split
      rcases List.append_inj' split rfl with ⟨rfl, same⟩
      obtain rfl := List.singleton_inj.mp same
      exact .inr ⟨none _ (by simp), front, others, rfl,
        fun later member => none _ (by simp [member])⟩
  · intro either
    rcases either with rfl | ⟨differs, front, back, rfl, none⟩
    · exact ⟨entries, [], rfl, by simp⟩
    · refine ⟨front, back ++ [last], by simp, ?_⟩
      simpa [or_imp, forall_and] using ⟨none, differs⟩

omit [DecidableEq α] in
/-- Of the entries that are entered under one key the last one stays. -/
theorem lookup_foldl_fold_iff {entries : List (Σ _ : α, β)} {folded : γ} :
    (entries.foldl (fun index entry => index.insert (fold entry.1) entry.2)
        (∅ : Finmap fun _ : γ => β)).lookup folded = some value ↔
      ∃ entry, IsLast fold entries entry ∧ fold entry.1 = folded ∧ entry.2 = value := by
  induction entries using List.reverseRecOn with
  | nil => simp [IsLast]
  | append_singleton entries last ih =>
      simp only [List.foldl_append, List.foldl_cons, List.foldl_nil, lookup_insert_eq_some_iff, ih,
        isLast_concat_iff]
      constructor
      · intro either
        rcases either with ⟨rfl, rfl⟩ | ⟨differs, entry, isLast, rfl, rfl⟩
        · exact ⟨last, .inl rfl, rfl, rfl⟩
        · exact ⟨entry, .inr ⟨differs.symm, isLast⟩, rfl, rfl⟩
      · intro either
        rcases either with ⟨entry, rfl | ⟨differs, isLast⟩, rfl, rfl⟩
        · exact .inl ⟨rfl, rfl⟩
        · exact .inr ⟨differs.symm, entry, isLast, rfl, rfl⟩

/-- Entering the entries in this order gives an index again exactly if it has their last values. -/
theorem Indexes.foldl_eq_iff (indexes : Indexes fold map index) (isOrder : IsOrder map order) :
    order.foldl (fun index entry => index.insert (fold entry.1) entry.2) ∅ = index ↔
      ∀ entry, IsLast fold order entry → index.lookup (fold entry.1) = some entry.2 := by
  constructor
  · intro same entry isLast
    rw [← same]
    exact lookup_foldl_fold_iff.mpr ⟨entry, isLast, rfl, rfl⟩
  · intro latest
    refine Finmap.ext_lookup fun folded => Option.ext fun value => ?_
    rw [lookup_foldl_fold_iff]
    constructor
    · intro last
      rcases last with ⟨entry, isLast, rfl, rfl⟩
      exact latest entry isLast
    · intro lookup
      rcases indexes.backed folded value lookup with ⟨key, stored, rfl⟩
      have entered := (isOrder.indexes fold).covers key (Finmap.mem_iff.mpr ⟨value, stored⟩)
      rcases Finmap.mem_iff.mp entered with ⟨other, found⟩
      rcases lookup_foldl_fold_iff.mp found with ⟨entry, isLast, same, rfl⟩
      have agrees := latest entry isLast
      rw [same, lookup] at agrees
      exact ⟨entry, isLast, same, (Option.some.inj agrees).symm⟩

end PPServer.FiniteMap
