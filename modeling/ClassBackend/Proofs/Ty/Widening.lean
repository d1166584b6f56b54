import ClassBackend.Proofs.Ty.Atomic
import ClassBackend.Proofs.Ty.Descriptor

/-!
# Ancestors and widening

In a hierarchy without cycles, assignability to a class and the list of ancestors
both come down to the links that lead up from a type, except that the root is
listed above every class, whether or not links lead to it
(`after_assignable_iff`). So widening gives a common bound of two classes that
lead up to the root, and where nothing but superclasses is above them it gives
the nearest one (`after_widen`). On internal names it is the same for classes,
while the internal names of arrays are not understood (`after_widenNames`).
-/

namespace ClassBackend

theorem Ty.isPrimitive_of_isReference {t : Ty} (h : t.isReference = true) :
    t.isPrimitive = false := by
  cases t with
  | prim => cases h
  | _ => rfl

theorem Ty.isError_of_isPlain {t : Ty} (h : t.isPlain = true) : t.isError = false := by
  cases t with
  | error => cases h
  | _ => rfl

namespace Registry

open Relation

variable {name : String} {r : Registry} {t u v : Ty} {n : Nat}

/-- Links lead up from the first type to the second, or both are one. -/
abbrev LeadsTo (r : Registry) : Ty → Ty → Prop := ReflTransGen r.Parent

/-! ## Assignability -/

theorem assignableWithin_of_parent (hu : u.isPrimitive = false)
    (harray : t.isArray = false ∨ u.isArray = false) (hparent : r.Parent t v)
    (h : r.assignableWithin n u v = true) : r.assignableWithin (n + 1) u t = true := by
  have habove : (r.parents t).any (r.assignableWithin n u) = true :=
    List.any_eq_true.2 ⟨v, hparent, h⟩
  have hprim : t.isPrimitive = false ∧ t.isBlock = false := by
    cases t <;> first | exact ⟨rfl, rfl⟩ | cases hparent
  unfold assignableWithin
  cases t with
  | array component =>
    cases u with
    | array => rcases harray with harray | harray <;> cases harray
    | _ => simp [habove, hu, hprim]
  | _ => simp [habove, hu, hprim]

theorem Formed.assignable_of_leads (hr : r.Formed) (hends : r.EndsWithin n t)
    (hu : u.isPrimitive = false) (h : r.LeadsTo t u) {m : Nat} (hm : n ≤ m) :
    r.assignableWithin m u t = true := by
  induction n generalizing t m with
  | zero => exact hends.elim
  | succ n ih =>
    obtain ⟨m, rfl⟩ : ∃ k, m = k + 1 := ⟨m - 1, by omega⟩
    rcases ReflTransGen.cases_head h with rfl | ⟨parent, hparent, h⟩
    · unfold assignableWithin
      simp [Ty.same]
    refine assignableWithin_of_parent hu ?_ hparent (ih (hends _ hparent) h (by omega))
    cases t with
    | array component =>
      obtain rfl := eq_rootClass_of_parent_array hparent
      rw [hr.eq_rootClass_of_leads h]
      exact .inr rfl
    | _ => exact .inl rfl

theorem Formed.assignable_iff_leads (hr : r.Formed) (h : r.Acyclic) (hname : validName name = true)
    (ht : r.spells t = true) :
    r.assignable (.object name) t = true ↔ r.LeadsTo t (.object name) :=
  ⟨hr.leads_of_assignable hname ht, fun hleads =>
    hr.assignable_of_leads (h.endsWithin t) rfl hleads (by simp [Ty.arrayDepth])⟩

/-! ## Ancestors -/

theorem levelsAbove_succ (frontier : List Ty) :
    r.levelsAbove (n + 1) frontier = (frontier.filter fun t => !t.same Ty.rootClass) ++
      r.levelsAbove n ((frontier.filter fun t => !t.same Ty.rootClass).flatMap r.parents) := by
  rw [levelsAbove]
  cases hlevel : frontier.filter fun t => !t.same Ty.rootClass with
  | nil => cases n <;> rfl
  | cons => rfl

theorem Formed.spells_of_leads (hr : r.Formed) (ht : r.spells t = true)
    (h : r.LeadsTo t u) : r.spells u = true := by
  cases h with
  | refl => exact ht
  | tail _ hparent => exact hr.parents _ _ hparent

theorem Formed.mem_level (hr : r.Formed) {frontier : List Ty}
    (hspells : ∀ t ∈ frontier, r.spells t = true) :
    t ∈ frontier.filter (fun t => !t.same Ty.rootClass) ↔ t ∈ frontier ∧ t ≠ Ty.rootClass := by
  rw [List.mem_filter, Bool.not_eq_true', ← Bool.not_eq_true]
  refine and_congr_right fun ht => not_congr (Ty.same_iff ?_ (by decide))
  exact hr.isPlain_of_spells (hspells t ht)

theorem Formed.mem_levelsAbove (hr : r.Formed) {frontier : List Ty}
    (hends : ∀ t ∈ frontier, r.EndsWithin n t) (hspells : ∀ t ∈ frontier, r.spells t = true) :
    v ∈ r.levelsAbove n frontier ↔
      v ≠ Ty.rootClass ∧ ∃ t ∈ frontier, r.LeadsTo t v := by
  induction n generalizing frontier with
  | zero =>
    obtain rfl := List.eq_nil_iff_forall_not_mem.2 hends
    simp [levelsAbove]
  | succ n ih =>
    have hlevel := fun t => hr.mem_level (t := t) hspells
    have habove : ∀ u ∈ (frontier.filter fun t => !t.same Ty.rootClass).flatMap r.parents,
        ∃ t ∈ frontier, r.Parent t u := by
      intro u hu
      obtain ⟨t, ht, hparent⟩ := List.mem_flatMap.1 hu
      exact ⟨t, List.mem_of_mem_filter ht, hparent⟩
    rw [levelsAbove_succ, List.mem_append, hlevel, ih
      (fun u hu => (habove u hu).elim fun t ht => hends t ht.1 u ht.2)
      (fun u hu => (habove u hu).elim fun t ht => hr.parents t u ht.2)]
    constructor
    · rintro (⟨hmem, hne⟩ | ⟨hne, u, hu, hleads⟩)
      · exact ⟨hne, v, hmem, .refl⟩
      · obtain ⟨t, ht, hparent⟩ := habove u hu
        exact ⟨hne, t, ht, .head hparent hleads⟩
    · rintro ⟨hne, t, ht, hleads⟩
      rcases ReflTransGen.cases_head hleads with rfl | ⟨parent, hparent, hleads⟩
      · exact .inl ⟨ht, hne⟩
      · have hroot : t ≠ Ty.rootClass := by
          rintro rfl
          rw [Parent, hr.parents_rootClass] at hparent
          cases hparent
        exact .inr ⟨hne, parent, List.mem_flatMap.2 ⟨t, (hlevel t).2 ⟨ht, hroot⟩, hparent⟩, hleads⟩

theorem Formed.mem_ancestors (hr : r.Formed) (h : r.Acyclic) :
    v ∈ r.ancestors (.object name) ↔ v = Ty.rootClass ∨ TransGen r.Parent (.object name) v := by
  have hlevels := fun v => hr.mem_levelsAbove (v := v)
    (fun u (_ : u ∈ r.parents (.object name)) => h.endsWithin u) (fun u hu => hr.parents _ u hu)
  rw [ancestors, if_neg (by simp [Ty.isPrimitive, Ty.primitive?, Ty.isVoid]), List.mem_append,
    hlevels v, List.mem_singleton]
  constructor
  · rintro (⟨-, parent, hparent, hleads⟩ | rfl)
    · exact .inr (.head' hparent hleads)
    · exact .inl rfl
  · rintro (rfl | hleads)
    · exact .inr rfl
    · by_cases hroot : v = Ty.rootClass
      · exact .inr hroot
      · exact .inl ⟨hroot, TransGen.head'_iff.1 hleads⟩

/-- In a hierarchy without cycles, a complete class is assignable from itself and
from the classes that have it among their ancestors, with one exception: the root
is listed above every class, and it is assignable from those only from which links
lead up to it. -/
theorem after_assignable_iff {calls : List Call} (h : (after calls).Acyclic)
    {target source : String} (htarget : ((after calls).classInfo? target).isSome = true)
    (hsource : ((after calls).classInfo? source).isSome = true) :
    ((after calls).assignable (.object target) (.object source) = true ↔
      Ty.object target = .object source ∨
        Ty.object target ∈ (after calls).ancestors (.object source) ∧
          (Ty.object target = Ty.rootClass →
            TransGen (after calls).Parent (.object source) Ty.rootClass)) ∧
    Ty.rootClass ∈ (after calls).ancestors (.object source) := by
  have hr := after_formed calls
  obtain ⟨_, htarget⟩ := Option.isSome_iff_exists.1 htarget
  obtain ⟨_, hsource⟩ := Option.isSome_iff_exists.1 hsource
  refine ⟨?_, (hr.mem_ancestors h).2 (.inl rfl)⟩
  rw [hr.assignable_iff_leads h (hr.valid _ (declares_of_classInfo? htarget))
    (t := .object source) (declares_of_classInfo? hsource), LeadsTo,
      reflTransGen_iff_eq_or_transGen, hr.mem_ancestors h]
  refine or_congr_right ⟨fun hleads => ⟨.inr hleads, fun heq => heq ▸ hleads⟩, ?_⟩
  rintro ⟨heq | hleads, hroot⟩
  · rw [heq]
    exact hroot heq
  · exact hleads

theorem arrayList_assignable :
    (core.assignable (.object "java.lang.Iterable") (.object "java.util.ArrayList") = true ↔
      Ty.object "java.lang.Iterable" = .object "java.util.ArrayList" ∨
        Ty.object "java.lang.Iterable" ∈ core.ancestors (.object "java.util.ArrayList") ∧
          (Ty.object "java.lang.Iterable" = Ty.rootClass →
            TransGen core.Parent (.object "java.util.ArrayList") Ty.rootClass)) ∧
    Ty.rootClass ∈ core.ancestors (.object "java.util.ArrayList") :=
  @after_assignable_iff [] core_acyclic _ _ (rfl) (rfl)

/-- The root is an ancestor of every interface, and assignable from none that
extends interfaces only. -/
theorem interface_not_assignable :
    Ty.rootClass ∈ core.ancestors (.object "java.util.List") ∧
      core.assignable Ty.rootClass (.object "java.util.List") = false :=
  ⟨List.contains_iff_mem.1 rfl, rfl⟩

/-! ## Widening -/

theorem Acyclic.eq_of_leads (h : r.Acyclic) (htu : r.LeadsTo t u)
    (hut : r.LeadsTo u t) : t = u := by
  rcases reflTransGen_iff_eq_or_transGen.1 htu with rfl | htu
  · rfl
  · exact absurd (htu.trans_left hut) (h t)

theorem memberOf_iff (hr : r.Formed) {types : List Ty} (ht : r.spells t = true)
    (htypes : ∀ u ∈ types, r.spells u = true) : t.memberOf types = true ↔ t ∈ types := by
  rw [Ty.memberOf, List.any_eq_true]
  constructor
  · rintro ⟨u, hu, hsame⟩
    rwa [(Ty.same_iff (hr.isPlain_of_spells ht) (hr.isPlain_of_spells (htypes u hu))).1 hsame]
  · exact fun hmem => ⟨t, hmem, by simp [Ty.same]⟩

/-- A complete class whose superclasses end in the root. -/
structure Rooted (r : Registry) (name : String) : Prop where
  complete : (r.classInfo? name).isSome = true
  ends : (r.superclassChain (.object name)).getLast? = some Ty.rootClass

theorem leads_of_mem_chainWithin (h : u ∈ r.chainWithin n t) : r.LeadsTo t u := by
  induction n generalizing t with
  | zero => cases h
  | succ n ih =>
    rw [chainWithin] at h
    split at h
    · rename_i parent hparent
      rcases List.mem_cons.1 h with rfl | h
      · exact .refl
      · exact .head (mem_parents_of_superclass hparent) (ih h)
    · rw [List.mem_singleton.1 h]

theorem Rooted.spells (h : r.Rooted name) : r.spells (.object name) = true := by
  obtain ⟨info, hinfo⟩ := Option.isSome_iff_exists.1 h.complete
  exact declares_of_classInfo? hinfo

theorem Rooted.leads (h : r.Rooted name) : r.LeadsTo (.object name) Ty.rootClass :=
  leads_of_mem_chainWithin (List.mem_of_getLast? h.ends)

section Bounds

variable (hr : r.Formed) (h : r.Acyclic) {a b : String}
  (ha : r.spells (.object a) = true) (hb : r.spells (.object b) = true)
include hr h ha hb

/-- One of two classes if the other leads to it, and otherwise the first common
ancestor. -/
theorem widen_cases :
    (r.widen (.object a) (.object b) = .object a ∧ r.LeadsTo (.object b) (.object a)) ∨
    (r.widen (.object a) (.object b) = .object b ∧ r.LeadsTo (.object a) (.object b)) ∨
    (¬ r.LeadsTo (.object b) (.object a) ∧
      ¬ r.LeadsTo (.object a) (.object b)) ∧
      (r.ancestors (.object a)).find? (·.memberOf (r.ancestors (.object b))) =
        some (r.widen (.object a) (.object b)) := by
  rw [← hr.assignable_iff_leads h (hr.valid a ha) hb,
    ← hr.assignable_iff_leads h (hr.valid b hb) ha]
  have hfind : ((r.ancestors (.object a)).find?
      (·.memberOf (r.ancestors (.object b)))).isSome = true := by
    have hroot : ∀ name, Ty.rootClass ∈ r.ancestors (.object name) :=
      fun name => (hr.mem_ancestors h).2 (.inl rfl)
    rw [List.find?_isSome]
    exact ⟨_, hroot a, List.any_eq_true.2 ⟨_, hroot b, by decide⟩⟩
  obtain ⟨common, hcommon⟩ := Option.isSome_iff_exists.1 hfind
  unfold widen
  by_cases hab : a = b
  · subst hab
    have hself := (hr.assignable_iff_leads h (hr.valid a ha) ha).2 .refl
    simp [Ty.isError, Ty.same, hself]
  · have hsame : (Ty.object a).same (.object b) = false := by simp [Ty.same, Ty.name, hab]
    cases hba : r.assignable (.object a) (.object b) with
    | true => simp [Ty.isError, hsame]
    | false =>
      cases hleft : r.assignable (.object b) (.object a) with
      | true => simp [Ty.isError, hsame]
      | false => simp [Ty.isError, hsame, hcommon]

/-- Both classes lead up to the type that they are widened to, if they lead up to
the root. It is the nearest such type if the ancestors of the first stand in a
row. -/
theorem widen_bound (hroot : r.LeadsTo (.object a) Ty.rootClass)
    (hroot' : r.LeadsTo (.object b) Ty.rootClass) :
    r.LeadsTo (.object a) (r.widen (.object a) (.object b)) ∧
    r.LeadsTo (.object b) (r.widen (.object a) (.object b)) ∧
    ((r.ancestors (.object a)).Pairwise (r.LeadsTo) → ∀ u,
      r.LeadsTo (.object a) u → r.LeadsTo (.object b) u →
      r.LeadsTo (r.widen (.object a) (.object b)) u) := by
  have hleads : ∀ {name u}, r.LeadsTo (.object name) Ty.rootClass →
      u ∈ r.ancestors (.object name) → r.LeadsTo (.object name) u := by
    intro name u hroot hu
    rcases (hr.mem_ancestors h).1 hu with rfl | hu
    · exact hroot
    · exact hu.to_reflTransGen
  have hspells : ∀ {name u}, r.spells (.object name) = true →
      u ∈ r.ancestors (.object name) → r.spells u = true := by
    intro name u hname hu
    rcases (hr.mem_ancestors h).1 hu with rfl | hu
    · exact hr.spells_rootClass
    · exact hr.spells_of_leads hname hu.to_reflTransGen
  rcases widen_cases hr h ha hb with ⟨heq, hba⟩ | ⟨heq, hab⟩ | ⟨⟨hba, hab⟩, hfind⟩
  · rw [heq]
    exact ⟨.refl, hba, fun _ u hu _ => hu⟩
  · rw [heq]
    exact ⟨hab, .refl, fun _ u _ hu => hu⟩
  · obtain ⟨hmember, before, later, heq, hbefore⟩ := List.find?_eq_some_iff_append.1 hfind
    have hmem : r.widen (.object a) (.object b) ∈ r.ancestors (.object a) := by simp [heq]
    have hmem' : r.widen (.object a) (.object b) ∈ r.ancestors (.object b) :=
      (memberOf_iff hr (hspells ha hmem) fun u hu => hspells hb hu).1 hmember
    refine ⟨hleads hroot hmem, hleads hroot' hmem', fun hrow u hau hbu => ?_⟩
    -- a common ancestor is not one of the two, and does not stand before the first one found
    have hau' : u ∈ r.ancestors (.object a) :=
      (hr.mem_ancestors h).2 (.inr ((reflTransGen_iff_eq_or_transGen.1 hau).resolve_left
        fun hsame => hba (hsame ▸ hbu)))
    have hbu' : u ∈ r.ancestors (.object b) :=
      (hr.mem_ancestors h).2 (.inr ((reflTransGen_iff_eq_or_transGen.1 hbu).resolve_left
        fun hsame => hab (hsame ▸ hau)))
    have hfound := (memberOf_iff hr (hspells ha hau') fun u hu => hspells hb hu).2 hbu'
    rw [heq] at hau' hrow
    rcases List.mem_append.1 hau' with hu | hu
    · have hnot := hbefore u hu
      rw [hfound] at hnot
      cases hnot
    · rcases List.mem_cons.1 hu with rfl | hu
      · exact .refl
      · exact (List.pairwise_cons.1 (List.pairwise_append.1 hrow).2.1).1 u hu

end Bounds

/-! ## Superclasses in a row -/

/-- Nothing but superclasses is above the type, up to the root. -/
inductive Straight (r : Registry) : Ty → Prop
  | root : Straight r Ty.rootClass
  | step {t parent : Ty} : r.superclass t = .ok (some parent) → r.interfaces t = .ok [] →
    Straight r parent → Straight r t

theorem parents_of_superclass {parent : Ty} (hparent : r.superclass t = .ok (some parent))
    (hnone : r.interfaces t = .ok []) : r.parents t = [parent] := by
  cases t with
  | object name =>
    rw [superclass] at hparent
    rw [interfaces] at hnone
    rw [parents]
    cases hinfo : r.info? (.object name) with
    | none => rw [hinfo] at hparent; cases hparent
    | some info =>
      rw [hinfo] at hparent hnone
      simp [Except.ok.inj hparent, Except.ok.inj hnone]
  | array component =>
    cases hparent
    rfl
  | _ => cases hparent

namespace Straight

theorem isReference (hs : r.Straight t) : t.isReference = true := by
  cases hs with
  | root => rfl
  | step hparent => cases t <;> first | rfl | cases hparent

theorem leads (hs : r.Straight t) : r.LeadsTo t Ty.rootClass := by
  induction hs with
  | root => exact .refl
  | step hparent _ _ ih => exact .head (mem_parents_of_superclass hparent) ih

theorem of_leads (hr : r.Formed) (hs : r.Straight t) (h : r.LeadsTo t u) :
    r.Straight u := by
  induction hs with
  | root => exact hr.eq_rootClass_of_leads h ▸ .root
  | step hparent hnone hs ih =>
    rcases ReflTransGen.cases_head h with rfl | ⟨other, hother, h⟩
    · exact .step hparent hnone hs
    · rw [Parent, parents_of_superclass hparent hnone, List.mem_singleton] at hother
      exact ih (hother ▸ h)

theorem mem_chainWithin (hr : r.Formed) (hs : r.Straight t) (hends : r.EndsWithin n t)
    (h : r.LeadsTo t u) : u ∈ r.chainWithin n t := by
  obtain ⟨n, rfl⟩ : ∃ k, n = k + 1 := Nat.exists_eq_succ_of_ne_zero fun hzero => by
    subst hzero
    exact hends
  have hself : ∀ {n t}, t ∈ r.chainWithin (n + 1) t := by
    intro n t
    rw [chainWithin]
    split <;> exact List.mem_cons_self
  induction hs generalizing n with
  | root => exact hr.eq_rootClass_of_leads h ▸ hself
  | @step t parent hparent hnone hs ih =>
    rcases ReflTransGen.cases_head h with rfl | ⟨other, hother, h⟩
    · exact hself
    · have hends := hends other hother
      rw [Parent, parents_of_superclass hparent hnone, List.mem_singleton] at hother
      subst hother
      cases n with
      | zero => exact hends.elim
      | succ n =>
        rw [chainWithin, hparent]
        exact List.mem_cons_of_mem _ (ih h n hends)

theorem ancestors_row (hr : r.Formed) (hs : r.Straight t) (hends : r.EndsWithin (n + 1) t) :
    (r.levelsAbove n (r.parents t) ++ [Ty.rootClass]).Pairwise (r.LeadsTo) := by
  have hnil : ∀ n, r.levelsAbove n [] = [] := fun n => by cases n <;> rfl
  induction hs generalizing n with
  | root => simp [hr.parents_rootClass, hnil]
  | @step t parent hparent hnone hs ih =>
    have hends := hends parent (mem_parents_of_superclass hparent)
    rw [parents_of_superclass hparent hnone]
    cases n with
    | zero => exact hends.elim
    | succ n =>
      rw [levelsAbove_succ]
      cases hroot : parent.same Ty.rootClass with
      | true => simp [hroot, hnil]
      | false =>
        simp only [List.filter_cons, hroot, Bool.not_false, if_true, List.filter_nil,
          List.flatMap_cons, List.flatMap_nil, List.append_nil, List.cons_append, List.nil_append]
        refine List.pairwise_cons.2 ⟨fun u hu => ?_, ih hends⟩
        rcases List.mem_append.1 hu with hu | hu
        · obtain ⟨-, above, habove, hleads⟩ := (hr.mem_levelsAbove hends
            fun u hu => hr.parents parent u hu).1 hu
          exact .head habove hleads
        · rw [List.mem_singleton.1 hu]
          exact hs.leads

end Straight

theorem straight_of_chainWithin (hlast : (r.chainWithin n t).getLast? = some Ty.rootClass)
    (hnone : ∀ u ∈ r.chainWithin n t, r.interfaces u = .ok []) : r.Straight t := by
  induction n generalizing t with
  | zero => cases hlast
  | succ n ih =>
    rw [chainWithin] at hlast hnone
    split at hlast
    · rename_i parent hparent
      rw [hparent] at hnone
      obtain ⟨hself, habove⟩ := List.forall_mem_cons.1 hnone
      cases hchain : r.chainWithin n parent with
      | nil =>
        rw [hchain] at hlast
        cases hlast
        exact .root
      | cons first rest =>
        rw [hchain, List.getLast?_cons_cons, ← hchain] at hlast
        exact .step hparent hself (ih hlast habove)
    · cases hlast
      exact .root

/-- Neither the class nor a superclass of it implements an interface. -/
def Unmixed (r : Registry) (name : String) : Prop :=
  ∀ u ∈ r.superclassChain (.object name), r.interfaces u = .ok []

section Row

variable (hr : r.Formed) (h : r.Acyclic) {a b c : String} (ha : r.Straight (.object a))
  (hb : r.Straight (.object b))

theorem Straight.spells (hr : r.Formed) (hs : r.Straight (.object a)) :
    r.spells (.object a) = true := by
  cases hs with
  | root => exact hr.spells_rootClass
  | step hparent =>
    rw [superclass] at hparent
    split at hparent
    · rename_i info hinfo
      exact declares_of_classInfo? hinfo
    · cases hparent

include hr h ha hb

theorem Straight.widen_bound :
    r.LeadsTo (.object a) (r.widen (.object a) (.object b)) ∧
    r.LeadsTo (.object b) (r.widen (.object a) (.object b)) ∧
    ∀ u, r.LeadsTo (.object a) u → r.LeadsTo (.object b) u →
      r.LeadsTo (r.widen (.object a) (.object b)) u := by
  obtain ⟨hleft, hright, hleast⟩ :=
    Registry.widen_bound hr h (ha.spells hr) (hb.spells hr) ha.leads hb.leads
  refine ⟨hleft, hright, hleast ?_⟩
  rw [ancestors, if_neg (by simp [Ty.isPrimitive, Ty.primitive?, Ty.isVoid])]
  exact ha.ancestors_row hr fun u _ => h.endsWithin u

theorem Straight.widen_comm : r.widen (.object b) (.object a) =
    r.widen (.object a) (.object b) := by
  obtain ⟨hleft, hright, hleast⟩ := Straight.widen_bound hr h ha hb
  obtain ⟨hleft', hright', hleast'⟩ := Straight.widen_bound hr h hb ha
  exact h.eq_of_leads (hleast' _ hright hleft) (hleast _ hright' hleft')

theorem Straight.widen_assoc (hc : r.Straight (.object c))
    (hclass : ∀ u, r.LeadsTo (.object b) u → u.isArray = false) :
    r.widen (r.widen (.object a) (.object b)) (.object c) =
      r.widen (.object a) (r.widen (.object b) (.object c)) := by
  have hname : ∀ u, r.LeadsTo (.object b) u → ∃ name, u = .object name := by
    intro u hu
    have href := (hb.of_leads hr hu).isReference
    cases u with
    | object name => exact ⟨name, rfl⟩
    | array => cases hclass _ hu
    | _ => cases href
  obtain ⟨hab, hba, hleast⟩ := Straight.widen_bound hr h ha hb
  obtain ⟨hbc, hcb, hleast'⟩ := Straight.widen_bound hr h hb hc
  obtain ⟨left, hleft⟩ := hname _ hba
  obtain ⟨right, hright⟩ := hname _ hbc
  rw [hleft] at hab hba hleast ⊢
  rw [hright] at hbc hcb hleast' ⊢
  obtain ⟨hl, hlc, hl'⟩ := Straight.widen_bound hr h (ha.of_leads hr hab) hc
  obtain ⟨hra, hrr, hr'⟩ := Straight.widen_bound hr h ha (hb.of_leads hr hbc)
  exact h.eq_of_leads
    (hl' _ (hleast _ hra (hbc.trans hrr)) (hcb.trans hrr))
    (hr' _ (hab.trans hl) (hleast' _ (hba.trans hl) hlc))

end Row

theorem assignable_of_leads (hr : r.Formed) (h : r.Acyclic) (hu : u.isPrimitive = false)
    (hleads : r.LeadsTo t u) : r.assignable u t = true :=
  hr.assignable_of_leads (h.endsWithin t) hu hleads (Nat.le_mul_of_pos_right _ (Nat.succ_pos _))

/-- In a hierarchy without cycles, two classes whose superclasses end in the root are
widened to a type above both, which is assignable from both unless it is a
primitive. If no interfaces are involved, it is the nearest superclass of both, and
widening is commutative; without array types among the superclasses it is
associative, too. -/
theorem after_widen {calls : List Call} (h : (after calls).Acyclic) {a b : String}
    (ha : (after calls).Rooted a) (hb : (after calls).Rooted b) :
    let r := after calls
    let w := r.widen (.object a) (.object b)
    (w.isError = false ∧ r.LeadsTo (.object a) w ∧ r.LeadsTo (.object b) w ∧
      (w.isPrimitive = false →
        r.assignable w (.object a) = true ∧ r.assignable w (.object b) = true)) ∧
    (r.Unmixed a → r.Unmixed b →
      (w.isPrimitive = false ∧ w ∈ r.superclassChain (.object a) ∧
        w ∈ r.superclassChain (.object b) ∧
        ∀ u ∈ r.superclassChain (.object a), u ∈ r.superclassChain (.object b) →
          r.assignable u w = true) ∧
      r.widen (.object b) (.object a) = w ∧
      ∀ c, r.Rooted c → r.Unmixed c →
        (∀ name ∈ [a, b, c], ∀ u ∈ r.superclassChain (.object name), u.isArray = false) →
        r.widen w (.object c) = r.widen (.object a) (r.widen (.object b) (.object c))) := by
  extract_lets r w
  have hr : r.Formed := after_formed calls
  obtain ⟨hleft, hright, -⟩ := widen_bound hr h ha.spells hb.spells ha.leads hb.leads
  have hplain := hr.isPlain_of_spells (hr.spells_of_leads ha.spells hleft)
  refine ⟨⟨?_, hleft, hright, fun hprim => ⟨assignable_of_leads hr h hprim hleft,
    assignable_of_leads hr h hprim hright⟩⟩, fun hma hmb => ?_⟩
  · exact Ty.isError_of_isPlain hplain
  have hsa := straight_of_chainWithin ha.ends hma
  have hsb := straight_of_chainWithin hb.ends hmb
  obtain ⟨-, -, hleast⟩ := Straight.widen_bound hr h hsa hsb
  have hchain : ∀ {name u}, r.Straight (.object name) → r.LeadsTo (.object name) u →
      u ∈ r.superclassChain (.object name) :=
    fun hs hu => hs.mem_chainWithin hr (h.endsWithin _) hu
  have hprim : ∀ {u}, r.LeadsTo (.object a) u → u.isPrimitive = false :=
    fun hu => Ty.isPrimitive_of_isReference (hsa.of_leads hr hu).isReference
  refine ⟨⟨hprim hleft, hchain hsa hleft, hchain hsb hright, fun u hua hub => ?_⟩,
    Straight.widen_comm hr h hsa hsb, fun c hc hmc hclass => ?_⟩
  · have hua := leads_of_mem_chainWithin hua
    exact assignable_of_leads hr h (hprim hua) (hleast u hua (leads_of_mem_chainWithin hub))
  · exact Straight.widen_assoc hr h hsa hsb (straight_of_chainWithin hc.ends hmc)
      fun u hu => hclass b (by simp) u (hchain hsb hu)

def shapeCalls : List Call :=
  [.define "Shape" none [] false, .define "Circle" (some "Shape") [] false,
    .define "Square" (some "Shape") [] false]

theorem Formed.acyclic_define (hr : r.Formed) (h : r.Acyclic) (hnew : r.declares name = false)
    (superclass : Option String) (interfaces : List String) (isInterface : Bool) :
    ((Call.define name superclass interfaces isInterface).apply r).Acyclic := by
  refine (acyclic_apply_iff r _).2 ⟨h, ?_⟩
  rintro ⟨defined, t, hdefined, parent, hparent, hleads⟩
  obtain ⟨rfl, -, -, info, hresolved, hlookup⟩ := define_eq_ok hdefined
  rw [parents_object, classInfo?, hlookup, if_pos rfl] at hparent
  have hspells := hr.spells_of_leads (hr.spells_of_resolveParents hresolved parent hparent) hleads
  rw [spells, hnew] at hspells
  cases hspells

theorem shapeCalls_acyclic : (after shapeCalls).Acyclic := by
  have hadd : ∀ calls name superclass, (after calls).Acyclic → (after calls).declares name = false →
      (after (calls ++ [.define name superclass [] false])).Acyclic := fun calls name _ h hnew =>
    after_concat calls _ ▸ (after_formed calls).acyclic_define h hnew _ _ _
  have hshape := hadd [] "Shape" none core_acyclic (rfl)
  have hcircle := hadd _ "Circle" (some "Shape") hshape (rfl)
  exact hadd _ "Square" (some "Shape") hcircle (rfl)

theorem shapes_widen :
    (after shapeCalls).Rooted "Circle" ∧ (after shapeCalls).Rooted "Square" ∧
    (after shapeCalls).widen (.object "Circle") (.object "Square") = .object "Shape" ∧
    (after shapeCalls).assignable (.object "Shape") (.object "Circle") = true ∧
    (after shapeCalls).assignable (.object "Shape") (.object "Square") = true := by
  have hcircle : (after shapeCalls).Rooted "Circle" := ⟨rfl, rfl⟩
  have hsquare : (after shapeCalls).Rooted "Square" := ⟨rfl, rfl⟩
  have hwiden :
      (after shapeCalls).widen (.object "Circle") (.object "Square") = .object "Shape" := by
    rfl
  obtain ⟨⟨-, -, -, hassign⟩, -⟩ := after_widen shapeCalls_acyclic hcircle hsquare
  rw [hwiden] at hassign
  exact ⟨hcircle, hsquare, hwiden, hassign rfl⟩

/-- Two classes may have a primitive above them. -/
theorem primitive_not_assignable :
    let r := after [.define "P" none ["int"] false, .define "Q" none ["int"] false]
    r.widen (.object "P") (.object "Q") = Ty.int ∧ r.assignable Ty.int (.object "P") = false :=
  ⟨rfl, rfl⟩

/-! ## Internal names -/

theorem Formed.getInternal_object (hr : r.Formed) (h : r.declares name = true) :
    r.getInternal (Ty.object name).internalName = .ok (.object name) := by
  rw [getInternal, Ty.internalName_object,
    Naming.toDotted_toInternal (notMem_of_validName (hr.valid name h) (by decide) (by decide))]
  exact hr.get_name (t := .object name) h

theorem Formed.getInternal_array (hr : r.Formed) (ht : (Ty.array t).hasValidNames = true) :
    ∃ fault, r.getInternal (Ty.array t).internalName = .error fault := by
  -- the bracket stays in front, and no name that is found has one
  obtain ⟨rest, hrest, hend⟩ : ∃ rest,
      (Naming.toDotted (Ty.array t).internalName).toList = '[' :: rest ∧ ']' ∉ rest := by
    rw [Naming.toDotted, Naming.replaceChar, String.toList_ofList, Ty.internalName_array,
      Ty.toList_descriptor_array]
    refine ⟨_, rfl, fun hmem => ?_⟩
    obtain ⟨c, hc, heq⟩ := List.mem_map.1 hmem
    split at heq
    · cases heq
    · exact Ty.notMem_descriptor (t := t) ht (by decide) (by decide) (heq ▸ hc)
  cases hget : r.getInternal (Ty.array t).internalName with
  | error fault => exact ⟨fault, rfl⟩
  | ok found =>
    have hgoes := goesBy_of_get (fun hlast => ?_) hget
    · have hplain := hr.isPlain_of_spells (spells_of_get hget)
      have harray : found.isArray = false := by
        rw [← Bool.not_eq_true, ← Ty.bracket_mem_name_iff hplain, hgoes.name, hrest]
        simpa using hend
      refine absurd ?_ (Ty.notMem_name hplain harray (c := '[') (by decide) (by decide))
      rw [hgoes.name, hrest]
      exact List.mem_cons_self
    · have hmem := List.mem_of_getLast? hlast
      rw [hrest] at hmem
      exact hend (by simpa using hmem)

/-- On the internal names of two classes, widening gives the internal name of what
they are widened to. The internal name of an array is not understood: it is widened
to the root class with whatever other name, its own included. -/
theorem after_widenNames {calls : List Call} {a b : Ty}
    (ha : (after calls).spells a = true ∧ a.isReference = true)
    (hb : (after calls).spells b = true ∧ b.isReference = true) :
    (after calls).widenNames a.internalName b.internalName =
        (if a.isArray || b.isArray || ((after calls).widen a b).isError then "java/lang/Object"
          else ((after calls).widen a b).internalName) ∧
      (a.isArray = false →
        (after calls).widenNames a.internalName a.internalName = a.internalName) := by
  have hr := after_formed calls
  have harray : ∀ {t}, (after calls).spells (.array t) = true →
      ∃ fault, (after calls).getInternal (Ty.array t).internalName = .error fault :=
    fun ht => hr.getInternal_array (hasValidNames_of_yields (yields_of_spells ht))
  cases a with
  | object name =>
    have hleft := hr.getInternal_object ha.1
    have hself : (after calls).widen (.object name) (.object name) = .object name := by
      simp [widen, Ty.isError, Ty.same]
    refine ⟨?_, fun _ => by simp [widenNames, hleft, hself, Ty.isError]⟩
    cases b with
    | object other => simp [widenNames, hleft, hr.getInternal_object hb.1, Ty.isArray]
    | array component =>
      obtain ⟨fault, hfault⟩ := harray hb.1
      simp [widenNames, hleft, hfault, Ty.isArray]
    | _ => cases hb.2
  | array component =>
    obtain ⟨fault, hfault⟩ := harray ha.1
    exact ⟨by simp [widenNames, hfault, Ty.isArray], fun h => by cases h⟩
  | _ => cases ha.2

theorem collections_widenNames :
    core.widenNames "java/util/ArrayList" "java/util/AbstractList" = "java/util/AbstractList" ∧
      core.widenNames "java/util/ArrayList" "java/util/ArrayList" = "java/util/ArrayList" := by
  have hwiden := @after_widenNames [] (.object "java.util.ArrayList")
    (.object "java.util.AbstractList") ⟨rfl, rfl⟩ ⟨rfl, rfl⟩
  have hresult : core.widen (.object "java.util.ArrayList") (.object "java.util.AbstractList") =
      .object "java.util.AbstractList" := rfl
  exact ⟨hwiden.1.trans (by rw [show after [] = core from rfl, hresult]; decide), hwiden.2 rfl⟩

theorem array_widenNames : core.widenNames "[I" "[I" = "java/lang/Object" := rfl

end Registry

end ClassBackend
