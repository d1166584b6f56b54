import ClassBackend.Proofs.Ty.Widening
import Mathlib.Order.Bounds.Basic

/-!
# Linearised ancestors

The ancestors of a type are what comes out of a queue of its parents: the type at
the front is listed, and its superclass and interfaces join the queue behind what
waits there. In a hierarchy without cycles the queue runs empty, every type above
is listed, and what is fewer steps away is listed first (`after_linearised`).
-/

namespace ClassBackend.Registry

open Relation

variable {r : Registry} {t u v : Ty} {n k : Nat} {frontier : List Ty}

/-! ## The queue -/

/-- What is listed until a queue is empty. The root is passed over. -/
inductive Drains (r : Registry) : (queue found : List Ty) → Prop
  | empty : Drains r [] []
  | skip {t queue found} : t.same Ty.rootClass = true → Drains r queue found →
    Drains r (t :: queue) found
  | visit {t queue found} : t.same Ty.rootClass = false →
    Drains r (queue ++ r.parents t) found → Drains r (t :: queue) (t :: found)

/-- While a level is worked off, the parents of its types wait behind it. -/
theorem Drains.level {level waiting found : List Ty}
    (h : r.Drains (waiting ++ (level.filter fun t => !t.same Ty.rootClass).flatMap r.parents)
      found) :
    r.Drains (level ++ waiting) ((level.filter fun t => !t.same Ty.rootClass) ++ found) := by
  induction level generalizing waiting with
  | nil => simpa using h
  | cons t level ih =>
    cases hroot : t.same Ty.rootClass with
    | true =>
      rw [List.filter_cons_of_neg (by simp [hroot])] at h ⊢
      exact .skip hroot (ih h)
    | false =>
      rw [List.filter_cons_of_pos (by simp [hroot])] at h ⊢
      have hrest := @ih (waiting ++ r.parents t) (by simpa using h)
      exact .visit hroot (by simpa using hrest)

theorem drains_levelsAbove (hends : ∀ t ∈ frontier, r.EndsWithin n t) :
    r.Drains frontier (r.levelsAbove n frontier) := by
  induction n generalizing frontier with
  | zero =>
    obtain rfl := List.eq_nil_iff_forall_not_mem.2 hends
    exact .empty
  | succ n ih =>
    have habove : ∀ u ∈ (frontier.filter fun t => !t.same Ty.rootClass).flatMap r.parents,
        r.EndsWithin n u := by
      intro u hu
      obtain ⟨t, ht, hparent⟩ := List.mem_flatMap.1 hu
      exact hends t (List.mem_of_mem_filter ht) u hparent
    rw [levelsAbove_succ]
    simpa using @Drains.level r frontier [] _ (ih habove)

theorem parents_eq (r : Registry) (t : Ty) : r.parents t =
    (r.superclass t).toOption.join.toList ++ (r.interfaces t).toOption.getD [] := by
  cases t with
  | object name =>
    rw [parents, superclass, interfaces]
    cases r.info? (.object name) <;> rfl
  | _ => rfl

/-! ## Steps -/

/-- The second type is so many steps above the first. -/
def Climbs (r : Registry) : Nat → Ty → Ty → Prop
  | 0, t, u => t = u
  | n + 1, t, u => ∃ parent ∈ r.parents t, r.Climbs n parent u

/-- What is not listed yet is at least as far away as what is listed next. -/
theorem Formed.nearest_levelsAbove (hr : r.Formed) (hspells : ∀ t ∈ frontier, r.spells t = true)
    {before rest : List Ty} (hlist : r.levelsAbove n frontier = before ++ u :: rest)
    (hroot : v ≠ Ty.rootClass) (hv : v ∉ before) (hclimbs : ∃ t ∈ frontier, r.Climbs k t v) :
    ∃ j ≤ k, ∃ t ∈ frontier, r.Climbs j t u := by
  induction n generalizing frontier before k with
  | zero => simp [levelsAbove] at hlist
  | succ n ih =>
    have hlevel := fun t => hr.mem_level (t := t) hspells
    rw [levelsAbove_succ] at hlist
    have hplace : u ∈ frontier.filter (fun t => !t.same Ty.rootClass) ∨
        ∃ more, before = frontier.filter (fun t => !t.same Ty.rootClass) ++ more ∧
          r.levelsAbove n ((frontier.filter fun t => !t.same Ty.rootClass).flatMap r.parents) =
            more ++ u :: rest := by
      rcases List.append_eq_append_iff.1 hlist with ⟨more, hbefore, habove⟩ | ⟨later, hhere, hlater⟩
      · exact .inr ⟨more, hbefore, habove⟩
      · cases later with
        | nil => exact .inr ⟨[], by simpa using hhere.symm, by simpa using hlater.symm⟩
        | cons w later =>
          rw [List.cons_append, List.cons.injEq] at hlater
          exact .inl (by simp [hhere, hlater.1])
    rcases hplace with hu | ⟨more, rfl, habove⟩
    · exact ⟨0, Nat.zero_le k, u, ((hlevel u).1 hu).1, rfl⟩
    -- The whole level stands before, so what is left is further up than this level.
    obtain ⟨hhere, hmore⟩ := not_or.1 (mt List.mem_append.2 hv)
    obtain ⟨t, ht, hclimbs⟩ := hclimbs
    cases k with
    | zero =>
      obtain rfl : t = v := hclimbs
      exact absurd ((hlevel t).2 ⟨ht, hroot⟩) hhere
    | succ k =>
      obtain ⟨parent, hparent, hclimbs⟩ := hclimbs
      have hne : t ≠ Ty.rootClass := by
        rintro rfl
        rw [hr.parents_rootClass] at hparent
        cases hparent
      obtain ⟨j, hj, w, hw, hclimbs⟩ := ih
        (fun w hw => by
          obtain ⟨t, _, hparent⟩ := List.mem_flatMap.1 hw
          exact hr.parents t w hparent) habove hmore
        ⟨parent, List.mem_flatMap.2 ⟨t, (hlevel t).2 ⟨ht, hne⟩, hparent⟩, hclimbs⟩
      obtain ⟨t, ht, hparent⟩ := List.mem_flatMap.1 hw
      exact ⟨j + 1, Nat.succ_le_succ hj, t, ((hlevel t).1 ht).1, w, hparent, hclimbs⟩

/-- In a hierarchy without cycles, the ancestors of a type that is no primitive and
not `void` are what the queue of its parents yields, with the root behind it. Other
than the root, these are the types that links lead up to; and wherever a type stands
in the list, those not listed before it are no fewer steps away. -/
theorem after_linearised {calls : List Call} (h : (after calls).Acyclic)
    (hprim : t.isPrimitive = false) (hvoid : t.isVoid = false) :
    ∃ found, (after calls).ancestors t = found ++ [Ty.rootClass] ∧
      (after calls).Drains ((after calls).parents t) found ∧
      (∀ u, (after calls).parents u = ((after calls).superclass u).toOption.join.toList ++
        ((after calls).interfaces u).toOption.getD []) ∧
      Ty.rootClass ∉ found ∧
      (∀ u, u ≠ Ty.rootClass → (u ∈ found ↔ TransGen (after calls).Parent t u)) ∧
      ∀ before u rest v j k, found = before ++ u :: rest → v ≠ Ty.rootClass → v ∉ before →
        IsLeast {n | 0 < n ∧ (after calls).Climbs n t u} j →
        IsLeast {n | 0 < n ∧ (after calls).Climbs n t v} k → j ≤ k := by
  have hr := after_formed calls
  have hspells : ∀ u ∈ (after calls).parents t, (after calls).spells u = true := hr.parents t
  have hends : ∀ u ∈ (after calls).parents t,
      (after calls).EndsWithin (after calls).heightBound u := fun u _ => h.endsWithin u
  have hmem := fun u => hr.mem_levelsAbove (v := u) hends hspells
  refine ⟨_, by rw [ancestors, hprim, hvoid]; rfl, drains_levelsAbove hends, parents_eq _,
    fun hroot => ((hmem _).1 hroot).1 rfl, fun u hu => ?_, ?_⟩
  · rw [hmem u, TransGen.head'_iff]
    exact and_iff_right hu
  · rintro before u rest v j k hlist hroot hv ⟨-, hj⟩ ⟨⟨hk, hclimbs⟩, -⟩
    obtain ⟨k, rfl⟩ := Nat.exists_eq_succ_of_ne_zero hk.ne'
    obtain ⟨i, hi, hclimbs⟩ := hr.nearest_levelsAbove hspells hlist hroot hv hclimbs
    exact (hj ⟨Nat.succ_pos i, hclimbs⟩).trans (Nat.succ_le_succ hi)

theorem arrayList_linearised : ∃ found,
    core.ancestors (.object "java.util.ArrayList") = found ++ [Ty.rootClass] ∧
      core.Drains (core.parents (.object "java.util.ArrayList")) found :=
  let ⟨found, heq, hdrains, _⟩ :=
    @after_linearised (.object "java.util.ArrayList") [] core_acyclic rfl rfl
  ⟨found, heq, hdrains⟩

end ClassBackend.Registry
