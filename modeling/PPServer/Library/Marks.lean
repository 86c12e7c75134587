import Mathlib.Data.List.Chain
import Mathlib.Tactic.Common

/-!
# Marks that are looked for at cuts

A tape with marks of a certain width goes by and is cut now and then.  At each cut it is seen
whether a whole mark has gone by since the last cut at which one was seen.  So of two marks
between which there is no cut only one is seen.  `found_eq_iff` says that nothing else is missed:
one sees as many marks as can be chosen with a cut between each and the next one.  Marks are given
by where they end.
-/

namespace PPServer.Marks

variable {width start cut mark count : Nat} {marks cuts chain : List Nat}

/-- A whole mark lies between the two points. -/
def Shows (width : Nat) (marks : List Nat) (start cut : Nat) : Prop :=
  ∃ mark ∈ marks, start + width ≤ mark ∧ mark ≤ cut

instance : Decidable (Shows width marks start cut) := inferInstanceAs (Decidable (∃ _ ∈ _, _))

/-- At how many cuts a mark is seen. -/
def found (width : Nat) (marks : List Nat) : Nat → List Nat → Nat
  | _, [] => 0
  | start, cut :: cuts =>
      if Shows width marks start cut then found width marks cut cuts + 1
      else found width marks start cuts

/-- There is a cut between two marks. -/
def Parted (width : Nat) (cuts : List Nat) (first second : Nat) : Prop :=
  ∃ cut ∈ cuts, first ≤ cut ∧ cut + width ≤ second

theorem found_cons_of_shows (shows : Shows width marks start cut) :
    found width marks start (cut :: cuts) = found width marks cut cuts + 1 := if_pos shows

theorem found_cons_of_not_shows (none : ¬Shows width marks start cut) :
    found width marks start (cut :: cuts) = found width marks start cuts := if_neg none

/-- Marks that are parted do not overlap. -/
theorem add_le_of_parted (parted : (mark :: chain).IsChain (Parted width cuts)) :
    ∀ other ∈ chain, mark + width ≤ other := by
  induction chain generalizing mark with
  | nil => exact List.forall_mem_nil _
  | cons next chain ih =>
      rw [List.isChain_cons_cons] at parted
      rcases parted with ⟨⟨cut, -, before, behind⟩, parted⟩
      refine List.forall_mem_cons.mpr ⟨by omega, fun other member => ?_⟩
      have further := ih parted other member
      omega

/-- A cut before all marks parts none of them. -/
theorem isChain_parted_cons_iff (beyond : ∀ mark ∈ marks, cut < mark) :
    marks.IsChain (Parted width (cut :: cuts)) ↔ marks.IsChain (Parted width cuts) := by
  refine List.IsChain.iff_of_mem_imp fun first second isFirst _ => ?_
  simp only [Parted, List.exists_mem_cons_iff]
  exact or_iff_right fun parted => absurd parted.1 (Nat.not_le.mpr (beyond first isFirst))

/-- After a mark all others that are parted are behind the first cut. -/
theorem behind_of_parted (later : ∀ other ∈ cuts, cut ≤ other)
    (parted : (mark :: chain).IsChain (Parted width (cut :: cuts))) :
    ∀ other ∈ chain, cut + width ≤ other := by
  induction chain generalizing mark with
  | nil => exact List.forall_mem_nil _
  | cons next chain ih =>
      rw [List.isChain_cons_cons] at parted
      rcases parted with ⟨⟨point, isCut, -, behind⟩, parted⟩
      refine List.forall_mem_cons.mpr ⟨?_, ih parted⟩
      rcases List.mem_cons.mp isCut with rfl | isLater
      · exact behind
      · exact (Nat.add_le_add_right (later point isLater) width).trans behind

/-- The marks that are seen are parted. -/
theorem exists_chain (width : Nat) (marks : List Nat) (start : Nat) (cuts : List Nat) :
    ∃ chain : List Nat, chain.length = found width marks start cuts ∧
      (∀ mark ∈ chain, mark ∈ marks ∧ start + width ≤ mark) ∧
      chain.IsChain (Parted width cuts) := by
  induction cuts generalizing start with
  | nil => exact ⟨[], rfl, List.forall_mem_nil _, .nil⟩
  | cons cut cuts ih =>
      have keeps {first second : Nat} :
          Parted width cuts first second → Parted width (cut :: cuts) first second :=
        fun ⟨point, isCut, parts⟩ => ⟨point, List.mem_cons_of_mem _ isCut, parts⟩
      by_cases shows : Shows width marks start cut
      case neg =>
        rw [found_cons_of_not_shows shows]
        rcases ih start with ⟨chain, seen, members, parted⟩
        exact ⟨chain, seen, members, parted.imp fun _ _ => keeps⟩
      case pos =>
        rw [found_cons_of_shows shows]
        rcases shows with ⟨mark, member, begins, ends⟩
        rcases ih cut with ⟨chain, seen, members, parted⟩
        refine ⟨mark :: chain, congrArg (· + 1) seen, ?_, ?_⟩
        · refine List.forall_mem_cons.mpr ⟨⟨member, begins⟩, fun other isOther => ?_⟩
          have behind := (members other isOther).2
          exact ⟨(members other isOther).1, by omega⟩
        · refine List.isChain_cons.mpr ⟨fun next isNext => ?_, parted.imp fun _ _ => keeps⟩
          have behind := (members next (List.mem_of_mem_head? isNext)).2
          exact ⟨cut, List.mem_cons_self, ends, behind⟩

/-- No more marks are parted than are seen. -/
theorem length_le_found (positive : 0 < width) (ascending : cuts.Pairwise (· ≤ ·))
    (members : ∀ mark ∈ chain, mark ∈ marks ∧ start + width ≤ mark)
    (covered : ∀ mark ∈ chain, ∃ cut ∈ cuts, mark ≤ cut)
    (parted : chain.IsChain (Parted width cuts)) :
    chain.length ≤ found width marks start cuts := by
  induction cuts generalizing start chain with
  | nil =>
      cases chain with
      | nil => exact Nat.le_refl 0
      | cons mark chain => simpa using covered mark List.mem_cons_self
  | cons cut cuts ih =>
      rw [List.pairwise_cons] at ascending
      rcases ascending with ⟨later, ascending⟩
      have rest {start : Nat} {chain : List Nat} (beyond : ∀ mark ∈ chain, cut < mark)
          (members : ∀ mark ∈ chain, mark ∈ marks ∧ start + width ≤ mark)
          (covered : ∀ mark ∈ chain, ∃ point ∈ cut :: cuts, mark ≤ point)
          (parted : chain.IsChain (Parted width (cut :: cuts))) :
          chain.length ≤ found width marks start cuts := by
        refine ih ascending members (fun mark member => ?_)
          ((isChain_parted_cons_iff beyond).mp parted)
        rcases covered mark member with ⟨point, isCut, ended⟩
        rcases List.mem_cons.mp isCut with rfl | isLater
        · exact absurd (beyond mark member) (Nat.not_lt.mpr ended)
        · exact ⟨point, isLater, ended⟩
      by_cases shows : Shows width marks start cut
      case neg =>
        -- No mark is over yet.
        rw [found_cons_of_not_shows shows]
        refine rest (fun mark member => Nat.lt_of_not_le fun ended => shows ?_) members covered
          parted
        exact ⟨mark, (members mark member).1, (members mark member).2, ended⟩
      case pos =>
        rw [found_cons_of_shows shows]
        cases chain with
        | nil => exact Nat.zero_le _
        | cons mark chain =>
            -- The first mark of the chain may be the one that is seen; the others are not begun.
            have behind := behind_of_parted later parted
            rw [List.forall_mem_cons] at members covered
            apply Nat.succ_le_succ
            refine rest (fun other member => ?_) (fun other member => ?_) covered.2 parted.tail
            · have further := behind other member
              omega
            · exact ⟨(members.2 other member).1, behind other member⟩

/-- **As many marks are seen** as can be chosen so that a cut parts each from the next one. -/
theorem found_eq_iff (positive : 0 < width) (ascending : cuts.Pairwise (· ≤ ·))
    (ahead : ∀ mark ∈ marks, start + width ≤ mark)
    (covered : ∀ mark ∈ marks, ∃ cut ∈ cuts, mark ≤ cut)
    (bounded : ∀ chain : List Nat, (∀ mark ∈ chain, mark ∈ marks) →
      chain.IsChain (Parted width cuts) → chain.length ≤ count) :
    found width marks start cuts = count ↔
      ∃ chain : List Nat, chain.length = count ∧ (∀ mark ∈ chain, mark ∈ marks) ∧
        chain.IsChain (Parted width cuts) := by
  rcases exists_chain width marks start cuts with ⟨seen, length, members, parted⟩
  have isMark : ∀ mark ∈ seen, mark ∈ marks := fun mark member => (members mark member).1
  constructor
  · rintro rfl
    exact ⟨seen, length, isMark, parted⟩
  · rintro ⟨chain, rfl, chosen, partedChain⟩
    refine Nat.le_antisymm (length ▸ bounded seen isMark parted) ?_
    refine length_le_found positive ascending (fun mark member => ?_) (fun mark member => ?_)
      partedChain
    · exact ⟨chosen mark member, ahead mark (chosen mark member)⟩
    · exact covered mark (chosen mark member)

end PPServer.Marks
