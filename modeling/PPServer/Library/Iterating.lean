import PPServer.Library.Locking

/-!
# Erasing at an iterator

A loop that goes through a container and may erase the element that it has come to: after an
erasure the iterator is at the element that followed, so it is not moved on.  The container is the
list of what an iterator passes, and the iterator a position in it.

What the loop does to the state is what a loop over the elements does that were there at the
beginning: none is skipped, and none is visited twice.
-/

namespace PPServer.Iterating

open Locking

variable {ε σ β : Type}

/-- The loop from the position on, with a body that says whether it erases the element. -/
def eraseFrom (body : β → Call ε σ Bool) (values : List β) (it : Nat) : Call ε σ (List β) :=
  if inside : it < values.length then do
    let isErased ← body values[it]
    if isErased then eraseFrom body (values.eraseIdx it) it
    else eraseFrom body values (it + 1)
  else pure values
termination_by values.length - it
decreasing_by
  · rw [List.length_eraseIdx_of_lt inside]
    omega
  · omega

variable {body : β → Call ε σ Bool}

theorem eraseFrom_end (kept : List β) : eraseFrom body kept kept.length = pure kept := by
  rw [eraseFrom, dif_neg (Nat.lt_irrefl _)]

/-- One pass, once the elements before the iterator have been kept. -/
theorem eraseFrom_cons (kept : List β) (value : β) (rest : List β) :
    eraseFrom body (kept ++ value :: rest) kept.length =
      body value >>= fun isErased =>
        if isErased then eraseFrom body (kept ++ rest) kept.length
        else eraseFrom body (kept ++ [value] ++ rest) (kept ++ [value]).length := by
  have inside : kept.length < (kept ++ value :: rest).length := by simp
  have element : (kept ++ value :: rest)[kept.length] = value := by simp
  have erased : (kept ++ value :: rest).eraseIdx kept.length = kept ++ rest := by
    rw [List.eraseIdx_append_of_length_le (Nat.le_refl _), Nat.sub_self, List.eraseIdx_zero,
      List.tail_cons]
  rw [eraseFrom, dif_pos inside, element, erased, List.append_assoc, List.singleton_append,
    List.length_append, List.length_singleton]

/-- Every element is visited once, in the order of the container. -/
theorem map_eraseFrom (body : β → Call ε σ Bool) (kept rest : List β) :
    (fun _ => ⟨⟩) <$> eraseFrom body (kept ++ rest) kept.length =
      rest.forM fun value => (fun _ => PUnit.unit) <$> body value := by
  induction rest generalizing kept with
  | nil =>
      rw [List.append_nil, eraseFrom_end, map_pure]
      rfl
  | cons value rest ih =>
      have passes : (value :: rest).forM (fun value => (fun _ => PUnit.unit) <$> body value) =
          body value >>= fun _ => rest.forM fun value => (fun _ => PUnit.unit) <$> body value :=
        bind_map_left _ _ _
      rw [eraseFrom_cons, map_bind, passes]
      apply bind_congr
      intro isErased
      cases isErased with
      | true => exact ih kept
      | false => exact ih (kept ++ [value])

/-- The elements that are left are those that were not erased, if it is settled beforehand which
ones are. -/
theorem eraseFrom_of_returned {property : List β → σ → Prop} {erases : β → Bool}
    {pass : σ → β → σ}
    (returns : ∀ visited state value, property visited state →
      body value state = .returned (erases value) (pass state value))
    (keeps : ∀ visited state value, property visited state →
      property (visited ++ [value]) (pass state value))
    (kept rest : List β) {visited : List β} {state : σ} (holds : property visited state) :
    eraseFrom body (kept ++ rest) kept.length state =
        .returned (kept ++ rest.filter fun value => !erases value) (rest.foldl pass state) ∧
      property (visited ++ rest) (rest.foldl pass state) := by
  induction rest generalizing visited kept state with
  | nil =>
      rw [List.append_nil, List.append_nil, eraseFrom_end]
      exact ⟨by simp, holds⟩
  | cons value rest ih =>
      have holdsNext := keeps visited state value holds
      rw [eraseFrom_cons, Call.bind_of_returned (returns visited state value holds),
        List.foldl_cons]
      cases isErased : erases value with
      | true => simpa [isErased] using ih kept holdsNext
      | false => simpa [isErased] using ih (kept ++ [value]) holdsNext

end PPServer.Iterating
