import Mathlib.Data.List.Sort

/-!
# Binary heaps in a sequence

The children of the element at `i` stand at `2 * i + 1` and `2 * i + 2`.  A sequence is a
heap for an ordering when no element has to stand above its parent.

The heap algorithms of the standard library are taken with what the standard says of them
(`HeapAlgorithms`): each rearranges its sequence, and makes a heap of it provided it is
given what it asks for.  Which of the possible heaps results is left open.
-/

namespace PPServer.Heap

universe u

variable {α : Type u} {ordered : α → α → Prop}

/-- Every element is ordered after its parent; `ordered` is to be reflexive, so that
nothing is asked of the front. -/
def IsHeap (ordered : α → α → Prop) (items : List α) : Prop :=
  ∀ index parent child, items[(index - 1) / 2]? = some parent → items[index]? = some child →
    ordered parent child

theorem isHeap_nil : IsHeap ordered [] := by
  intro index parent child atParent
  simp at atParent

/-- The front of a heap is ordered before every element. -/
theorem IsHeap.front [Std.Total ordered] [IsTrans α ordered] {first item : α} {rest : List α}
    (isHeap : IsHeap ordered (first :: rest)) (member : item ∈ first :: rest) :
    ordered first item := by
  rcases List.mem_iff_getElem?.mp member with ⟨index, atIndex⟩
  induction index using Nat.strongRecOn generalizing item with
  | ind index ih =>
      rcases Nat.eq_zero_or_pos index with rfl | positive
      · cases atIndex
        exact (Std.Total.total first first).elim id id
      · have parentBefore : (index - 1) / 2 < index := by omega
        have inside : (index - 1) / 2 < (first :: rest).length :=
          parentBefore.trans (List.getElem?_eq_some_iff.mp atIndex).1
        have atParent := List.getElem?_eq_getElem inside
        exact Trans.trans (ih _ parentBefore (List.getElem_mem inside) atParent)
          (isHeap index _ item atParent atIndex)

/-- A sorted sequence is a heap. -/
theorem isHeap_of_pairwise [Std.Total ordered] {items : List α}
    (sorted : items.Pairwise ordered) : IsHeap ordered items := by
  intro index parent child atParent atChild
  rcases List.getElem?_eq_some_iff.mp atParent with ⟨parentInside, rfl⟩
  rcases List.getElem?_eq_some_iff.mp atChild with ⟨childInside, rfl⟩
  rcases Nat.eq_zero_or_pos index with rfl | positive
  · exact (Std.Total.total _ _).elim id id
  · exact List.pairwise_iff_getElem.mp sorted _ _ parentInside childInside (by omega)

/-- `std::push_heap`, `std::pop_heap` and `std::make_heap` for one ordering. -/
structure HeapAlgorithms (ordered : α → α → Prop) where
  pushHeap : List α → List α
  popHeap : List α → List α
  makeHeap : List α → List α
  /-- `push_heap` takes the last element into the heap that the others form. -/
  pushHeap_spec : ∀ items item, IsHeap ordered items →
    (pushHeap (items ++ [item])).Perm (items ++ [item]) ∧
      IsHeap ordered (pushHeap (items ++ [item]))
  /-- `pop_heap` moves the front of a heap to the end and makes a heap of the others. -/
  popHeap_spec : ∀ first rest, IsHeap ordered (first :: rest) →
    ∃ others, popHeap (first :: rest) = others ++ [first] ∧ others.Perm rest ∧
      IsHeap ordered others
  /-- `make_heap` makes a heap of any sequence. -/
  makeHeap_spec : ∀ items, (makeHeap items).Perm items ∧ IsHeap ordered (makeHeap items)

/-- The algorithms that keep their heap sorted. -/
def HeapAlgorithms.sorting (ordered : α → α → Prop) [DecidableRel ordered] [Std.Total ordered]
    [IsTrans α ordered] : HeapAlgorithms ordered where
  pushHeap items := items.insertionSort ordered
  popHeap
    | [] => []
    | first :: rest => rest.insertionSort ordered ++ [first]
  makeHeap items := items.insertionSort ordered
  pushHeap_spec _ _ _ :=
    ⟨List.perm_insertionSort ordered _,
      isHeap_of_pairwise (List.pairwise_insertionSort ordered _)⟩
  popHeap_spec _ rest _ :=
    ⟨rest.insertionSort ordered, rfl, List.perm_insertionSort ordered rest,
      isHeap_of_pairwise (List.pairwise_insertionSort ordered rest)⟩
  makeHeap_spec items :=
    ⟨List.perm_insertionSort ordered items,
      isHeap_of_pairwise (List.pairwise_insertionSort ordered items)⟩

end PPServer.Heap
