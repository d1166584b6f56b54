import ClassBackend.Ty.Hierarchy
import Mathlib.Logic.Relation
import Mathlib.Data.List.Chain
import Mathlib.Data.List.Nodup

/-!
# Cycles in the class hierarchy

A declared class may be named as a parent before its own parents are known, so a
later definition can close a cycle: nothing checks that it does not. This file
says exactly which definitions do, and what a hierarchy without cycles is worth.

A definition adds edges out of one class that had none before, so a new cycle
goes through that class, and it does so exactly when one of the parents named
is the class itself or already leads to it (`acyclic_apply_iff`). In an acyclic
registry no chain of parents is longer than the list of classes plus one array
type (`Acyclic.length_le`), so every walk ends and the bounds that the walks
carry are never reached.
-/

namespace ClassBackend.Registry

open Relation

variable {name : String} {u v : Ty}

/-! ## What a call records -/

theorem lookup_setInfo {entries : List (String × Option ClassInfo)} (info : ClassInfo)
    (h : (entries.lookup name).isSome) (other : String) : (setInfo name info entries).lookup other =
      if other = name then some (some info) else entries.lookup other := by
  induction entries with
  | nil => cases h
  | cons entry rest ih =>
    by_cases hentry : entry.1 = name
    · subst hentry
      rw [setInfo, if_pos (beq_self_eq_true _), List.lookup_cons, List.lookup_cons]
      by_cases hother : other = entry.1
      · simp [hother]
      · simp [hother, beq_eq_false_iff_ne.2 hother]
    · have hne : (name == entry.1) = false := beq_eq_false_iff_ne.2 (Ne.symm hentry)
      rw [List.lookup_cons, hne] at h
      rw [setInfo, if_neg (by simpa using hentry), List.lookup_cons, List.lookup_cons, ih h]
      by_cases hother : other = entry.1
      · simp [hother, hentry]
      · simp [beq_eq_false_iff_ne.2 hother]

variable {r : Registry} {t : Ty}

/-- A class that is declared is listed, and nothing is recorded of it. -/
theorem declare_eq_ok {declared : Registry} (h : r.declare name = .ok declared) :
    validName name = true ∧ (declared.classes.lookup name).isSome ∧
      declared.classInfo? name = r.classInfo? name ∧
      ∀ other, other ≠ name → declared.classes.lookup other = r.classes.lookup other := by
  unfold declare at h
  split at h
  · cases h
  rename_i hvalid
  refine ⟨by simpa using hvalid, ?_⟩
  split at h
  · rename_i hdeclares
    cases h
    exact ⟨hdeclares, rfl, fun _ _ => rfl⟩
  · rename_i hnew
    cases h
    have hnone : r.classes.lookup name = none := by
      rw [declares] at hnew
      exact Option.not_isSome_iff_eq_none.1 hnew
    refine ⟨by simp [List.lookup_append, hnone],
      by simp [classInfo?, List.lookup_append, hnone], fun other hother => ?_⟩
    simp [List.lookup_append, List.lookup_cons, beq_eq_false_iff_ne.2 hother]

theorem classInfo?_of_declare {declared : Registry} (h : r.declare name = .ok declared)
    (other : String) : declared.classInfo? other = r.classInfo? other := by
  obtain ⟨-, -, hsame, hothers⟩ := declare_eq_ok h
  by_cases hother : other = name
  · rw [hother, hsame]
  · exact congrArg Option.join (hothers other hother)

/-- A definition that is accepted records the resolved parents of a class that
had none, and nothing else. -/
theorem define_eq_ok {defined : Registry} {superclass : Option String} {interfaces : List String}
    {isInterface : Bool} (h : r.define name superclass interfaces isInterface = .ok (defined, t)) :
    t = .object name ∧ validName name = true ∧ r.classInfo? name = none ∧
      ∃ info, r.resolveParents name superclass interfaces isInterface = .ok info ∧
        ∀ other, defined.classes.lookup other =
          if other = name then some (some info) else r.classes.lookup other := by
  unfold define at h
  split at h
  · cases h
  cases hinfo : r.resolveParents name superclass interfaces isInterface with
  | error fault => rw [hinfo] at h; cases h
  | ok info =>
    cases hdeclared : r.declare name with
    | error fault => rw [hinfo, hdeclared] at h; cases h
    | ok declared =>
      rw [hinfo, hdeclared] at h
      obtain ⟨hvalid, hlisted, hsame, hothers⟩ := declare_eq_ok hdeclared
      change (if _ then _ else _) = _ at h
      split at h
      · cases h
      · rename_i hnew
        cases h
        refine ⟨rfl, hvalid, by simpa [hsame] using hnew, info, rfl, fun other => ?_⟩
        rw [lookup_setInfo info hlisted]
        split
        · rfl
        · rename_i hother
          exact hothers other hother

/-! ## Cycles -/

/-- One step up: to the superclass or to a direct interface. -/
def Parent (r : Registry) (t u : Ty) : Prop := u ∈ r.parents t

/-- No walk up leads back to where it began. -/
def Acyclic (r : Registry) : Prop := ∀ t, ¬ TransGen r.Parent t t

/-- A call that may add to a registry. -/
inductive Call where
  | declare (name : String)
  | define (name : String) (superclass : Option String) (interfaces : List String)
    (isInterface : Bool)

/-- The registry after a call. A refused call leaves it as it was. -/
def Call.apply (r : Registry) : Call → Registry
  | .declare name => (r.declare name).toOption.getD r
  | .define name superclass interfaces isInterface =>
    ((r.define name superclass interfaces isInterface).toOption.map Prod.fst).getD r

def after (calls : List Call) : Registry := calls.foldl Call.apply core

/-- The call is an accepted definition that names a parent which is the class
itself or already leads up to it. -/
def Call.Closes (r : Registry) : Call → Prop
  | .declare _ => False
  | .define name superclass interfaces isInterface =>
    ∃ defined t, r.define name superclass interfaces isInterface = .ok (defined, t) ∧
      ∃ parent ∈ defined.parents t, ReflTransGen r.Parent parent t

theorem parents_object (r : Registry) (name : String) : r.parents (.object name) =
      (r.classInfo? name).elim [] fun info => info.superclass.toList ++ info.interfaces := by
  rw [parents, info?]
  cases r.classInfo? name <;> rfl

theorem parents_congr {s : Registry}
    (h : ∀ name, t = .object name → s.classInfo? name = r.classInfo? name) :
    s.parents t = r.parents t := by
  cases t with
  | object name => rw [parents_object, parents_object, h name rfl]
  | _ => rfl

/-- Edges are added out of one type, which had none. -/
structure Sprouts (r s : Registry) (t : Ty) : Prop where
  bare : r.parents t = []
  same : ∀ u, u ≠ t → s.parents u = r.parents u

theorem sprouts_of_define {defined : Registry} {superclass : Option String}
    {interfaces : List String} {isInterface : Bool}
    (h : r.define name superclass interfaces isInterface = .ok (defined, t)) :
    Sprouts r defined t := by
  obtain ⟨rfl, -, hnone, info, -, hlookup⟩ := define_eq_ok h
  refine ⟨by rw [parents_object, hnone]; rfl, fun u hu => parents_congr fun other hother => ?_⟩
  rw [classInfo?, hlookup, if_neg, classInfo?]
  rintro rfl
  exact hu hother

section Sprout

variable {r s : Registry} {t : Ty}

theorem Sprouts.parent (h : Sprouts r s t) (huv : r.Parent u v) : s.Parent u v := by
  have hne : u ≠ t := by
    rintro rfl
    rw [Parent, h.bare] at huv
    cases huv
  rwa [Parent, h.same u hne]

theorem Sprouts.leads (h : Sprouts r s t) (hut : ReflTransGen s.Parent u t) :
    ReflTransGen r.Parent u t := by
  induction hut using ReflTransGen.head_induction_on with
  | refl => exact .refl
  | @head u v huv _ ih =>
    by_cases hu : u = t
    · rw [hu]
    · exact .head (by rwa [Parent, ← h.same u hu]) ih

theorem Sprouts.passes (h : Sprouts r s t) (huv : TransGen s.Parent u v) :
    TransGen r.Parent u v ∨ ReflTransGen s.Parent u t ∧ TransGen s.Parent t v := by
  induction huv with
  | single huv =>
    by_cases hu : u = t
    · subst hu
      exact .inr ⟨.refl, .single huv⟩
    · exact .inl (.single (by rwa [Parent, ← h.same u hu]))
  | tail huv hvw ih =>
    rename_i v w
    by_cases hv : v = t
    · subst hv
      exact .inr ⟨huv.to_reflTransGen, .single hvw⟩
    · refine ih.imp (fun hold => hold.tail ?_) fun hnew => ⟨hnew.1, hnew.2.tail hvw⟩
      rwa [Parent, ← h.same v hv]

theorem Sprouts.acyclic_iff (h : Sprouts r s t) :
    s.Acyclic ↔ r.Acyclic ∧ ¬ ∃ parent ∈ s.parents t, ReflTransGen r.Parent parent t := by
  have hmono : ∀ {u v}, ReflTransGen r.Parent u v → ReflTransGen s.Parent u v :=
    fun huv => ReflTransGen.mono (fun _ _ => h.parent) _ _ huv
  constructor
  · intro hs
    refine ⟨fun u hu => hs u (TransGen.mono (fun _ _ => h.parent) _ _ hu), fun hback => ?_⟩
    obtain ⟨parent, hparent, hleads⟩ := hback
    exact hs t (.head' hparent (hmono hleads))
  · rintro ⟨hr, hback⟩ u hu
    rcases h.passes hu with hold | ⟨hto, hfrom⟩
    · exact hr u hold
    · have hcycle : TransGen s.Parent t t := hfrom.trans_left hto
      obtain ⟨parent, hparent, hleads⟩ := TransGen.head'_iff.1 hcycle
      exact hback ⟨parent, hparent, h.leads hleads⟩

end Sprout

theorem acyclic_congr {s : Registry} (h : ∀ t, s.parents t = r.parents t) :
    s.Acyclic ↔ r.Acyclic := by
  have hparent : s.Parent = r.Parent := by
    funext t u
    rw [Parent, Parent, h]
  rw [Acyclic, Acyclic, hparent]

theorem acyclic_apply_iff (r : Registry) (call : Call) :
    (call.apply r).Acyclic ↔ r.Acyclic ∧ ¬ call.Closes r := by
  cases call with
  | declare name =>
    have hsame : ∀ t, ((Call.declare name).apply r).parents t = r.parents t := by
      intro t
      cases hdeclared : r.declare name with
      | error fault => rw [Call.apply, hdeclared]; rfl
      | ok declared =>
        rw [Call.apply, hdeclared]
        exact parents_congr fun other _ => classInfo?_of_declare hdeclared other
    simp [acyclic_congr hsame, Call.Closes]
  | define name superclass interfaces isInterface =>
    cases hdefined : r.define name superclass interfaces isInterface with
    | error fault => simp [Call.apply, Call.Closes, hdefined, Except.toOption]
    | ok result =>
      obtain ⟨defined, t⟩ := result
      simpa [Call.apply, Call.Closes, hdefined, Except.toOption] using
        (sprouts_of_define hdefined).acyclic_iff

theorem after_concat (calls : List Call) (call : Call) :
    after (calls ++ [call]) = call.apply (after calls) := by
  simp [after]

/-! ## The library classes -/

/-- The place of a type in the library table. Arrays stand behind all classes. -/
def coreRank : Ty → Nat
  | .object name => coreClasses.findIdx (·.name == name)
  | .array _ => coreClasses.length
  | _ => 0

theorem coreRank_lt_of_parent (h : core.Parent t u) : coreRank u < coreRank t := by
  cases t with
  | object name =>
    rw [Parent, parents_object] at h
    cases hinfo : core.classInfo? name with
    | none => rw [hinfo] at h; cases h
    | some info =>
      rw [hinfo] at h
      have hlisted : (name, some info) ∈ core.classes := by
        obtain ⟨before, later, heq, -⟩ :=
          List.lookup_eq_some_iff.1 (Option.join_eq_some_iff.1 hinfo)
        simp [heq]
      have hrows : core.classes.all (fun entry => (entry.2.elim [] fun info =>
          info.superclass.toList ++ info.interfaces).all fun parent =>
            decide (coreRank parent < coreRank (.object entry.1))) = true := rfl
      have hrow := List.all_eq_true.1 hrows _ hlisted
      exact of_decide_eq_true (List.all_eq_true.1 hrow u h)
  | array component =>
    obtain rfl : u = Ty.rootClass := by simpa [Parent, parents, info?] using h
    exact of_decide_eq_true (rfl : decide (coreRank Ty.rootClass < coreClasses.length) = true)
  | _ => cases h

theorem core_acyclic : core.Acyclic := by
  have hrank : ∀ {t u}, TransGen core.Parent t u → coreRank u < coreRank t := by
    intro t u h
    induction h with
    | single h => exact coreRank_lt_of_parent h
    | tail _ h ih => exact (coreRank_lt_of_parent h).trans ih
  exact fun t h => lt_irrefl _ (hrank h)

theorem after_acyclic_iff (calls : List Call) : (after calls).Acyclic ↔
      ∀ earlier call, earlier ++ [call] <+: calls → ¬ call.Closes (after earlier) := by
  induction calls using List.reverseRecOn with
  | nil => simp [after, core_acyclic]
  | append_singleton calls last ih =>
    rw [after_concat, acyclic_apply_iff, ih]
    simp only [List.prefix_concat_iff]
    constructor
    · rintro ⟨hcalls, hlast⟩ earlier call (heq | hearlier)
      · obtain ⟨rfl, hcall⟩ := List.append_inj' heq rfl
        rwa [List.singleton_inj.1 hcall]
      · exact hcalls earlier call hearlier
    · exact fun h => ⟨fun earlier call hearlier => h earlier call (.inr hearlier),
        h calls last (.inl rfl)⟩

/-! ## Chains of parents -/

theorem eq_rootClass_of_parent_array {component : Ty} (h : r.Parent (.array component) u) :
    u = Ty.rootClass := by
  simpa [Parent, parents, info?] using h

/-- Above an array stands the root alone, and a second array would lead back
to it. -/
theorem Acyclic.not_array_array (h : r.Acyclic) (t u : Ty) :
    ¬ TransGen r.Parent (.array t) (.array u) := by
  intro hwalk
  obtain ⟨parent, hparent, hleads⟩ := TransGen.head'_iff.1 hwalk
  obtain rfl := eq_rootClass_of_parent_array hparent
  exact h Ty.rootClass (.tail' hleads (by simp [Parent, parents, info?]))

/-- What tells apart the types that can have parents: the name of a class, and
nothing for arrays. -/
def className? : Ty → Option String
  | .object name => some name
  | _ => none

theorem className?_mem_of_parent (h : r.Parent t u) :
    className? t ∈ none :: r.classes.map (some ·.1) := by
  cases t with
  | object name =>
    rw [Parent, parents_object] at h
    cases hinfo : r.classInfo? name with
    | none => rw [hinfo] at h; cases h
    | some info =>
      obtain ⟨before, later, heq, -⟩ :=
        List.lookup_eq_some_iff.1 (Option.join_eq_some_iff.1 hinfo)
      simp [className?, heq]
  | _ => exact List.mem_cons_self

theorem Acyclic.className?_ne (h : r.Acyclic) {w : Ty} (hwalk : TransGen r.Parent t u)
    (ht : r.Parent t v) (hu : r.Parent u w) : className? t ≠ className? u := by
  cases t with
  | object name =>
    rintro heq
    cases u with
    | object other =>
      cases heq
      exact h _ hwalk
    | _ => cases heq
  | array component =>
    cases u with
    | object other => exact fun heq => by cases heq
    | array other => exact absurd hwalk (h.not_array_array component other)
    | _ => cases hu
  | _ => cases ht

theorem exists_parent_of_mem_dropLast {types : List Ty} (h : types.IsChain r.Parent) :
    ∀ t ∈ types.dropLast, ∃ u, r.Parent t u := by
  induction h with
  | nil | singleton => simp
  | cons_cons hparent _ ih =>
    rw [List.dropLast_cons_cons]
    exact List.forall_mem_cons.2 ⟨⟨_, hparent⟩, ih⟩

theorem Acyclic.length_le (h : r.Acyclic) {walk : List Ty} (hwalk : (t :: walk).IsChain r.Parent) :
    walk.length ≤ r.classes.length + 1 := by
  have hparent := exists_parent_of_mem_dropLast hwalk
  have hpairs : (t :: walk).dropLast.Pairwise (TransGen r.Parent) :=
    (hwalk.imp fun _ _ => TransGen.single).pairwise.sublist (List.dropLast_sublist _)
  have hnodup : ((t :: walk).dropLast.map className?).Nodup := by
    refine List.pairwise_map.2 (hpairs.imp_of_mem fun ht hu hleads => ?_)
    obtain ⟨_, ht⟩ := hparent _ ht
    obtain ⟨_, hu⟩ := hparent _ hu
    exact h.className?_ne hleads ht hu
  have hsub : (t :: walk).dropLast.map className? ⊆ none :: r.classes.map (some ·.1) := by
    intro name hname
    obtain ⟨u, hu, rfl⟩ := List.mem_map.1 hname
    exact className?_mem_of_parent (hparent u hu).choose_spec
  simpa using hnodup.length_le_of_subset hsub

/-! ## Walks -/

/-- Every walk up from the type ends in fewer than this many steps. -/
def EndsWithin (r : Registry) : Nat → Ty → Prop
  | 0, _ => False
  | n + 1, t => ∀ u ∈ r.parents t, r.EndsWithin n u

theorem endsWithin_of_length_lt {n : Nat}
    (h : ∀ walk, (t :: walk).IsChain r.Parent → walk.length < n) : r.EndsWithin n t := by
  induction n generalizing t with
  | zero => exact absurd (h [] (.singleton t)) (Nat.not_lt_zero _)
  | succ n ih =>
    refine fun u hu => ih fun walk hwalk => ?_
    have hlonger := h (u :: walk) (.cons_cons hu hwalk)
    rw [List.length_cons] at hlonger
    omega

theorem Acyclic.endsWithin (h : r.Acyclic) (t : Ty) : r.EndsWithin r.heightBound t :=
  endsWithin_of_length_lt fun walk hwalk => by
    have hlength := h.length_le hwalk
    rw [heightBound]
    omega

section Bounds

variable {r : Registry} {n m : Nat} {t : Ty}

theorem mem_parents_of_superclass {parent : Ty} (h : r.superclass t = .ok (some parent)) :
    parent ∈ r.parents t := by
  cases t with
  | object name =>
    rw [superclass] at h
    rw [parents]
    cases hinfo : r.info? (.object name) with
    | none => rw [hinfo] at h; cases h
    | some info =>
      rw [hinfo] at h
      have hparent : info.superclass = some parent := Except.ok.inj h
      simp [hparent]
  | array component =>
    cases h
    simp [parents, info?]
  | _ => cases h

theorem allInterfacesWithin_eq (h : r.EndsWithin n t) (hm : n ≤ m) :
    r.allInterfacesWithin m t = r.allInterfacesWithin n t := by
  induction n generalizing t m with
  | zero => exact h.elim
  | succ n ih =>
    obtain ⟨k, rfl⟩ := Nat.exists_eq_add_of_le hm
    rw [Nat.add_right_comm, allInterfacesWithin, allInterfacesWithin]
    rcases hparent : r.superclass t with _ | _ | parent
    · rfl
    · rfl
    · have hsame := ih (h parent (mem_parents_of_superclass hparent)) (Nat.le_add_right n k)
      simp only [bind, Except.bind, hsame]

theorem chainWithin_eq (h : r.EndsWithin n t) (hm : n ≤ m) :
    r.chainWithin m t = r.chainWithin n t := by
  induction n generalizing t m with
  | zero => exact h.elim
  | succ n ih =>
    obtain ⟨k, rfl⟩ := Nat.exists_eq_add_of_le hm
    rw [Nat.add_right_comm, chainWithin, chainWithin]
    rcases hparent : r.superclass t with _ | _ | parent
    · rfl
    · rfl
    · have hsame := ih (h parent (mem_parents_of_superclass hparent)) (Nat.le_add_right n k)
      simp only [hsame]

theorem levelsAbove_eq {frontier : List Ty} (h : ∀ t ∈ frontier, r.EndsWithin n t) (hm : n ≤ m) :
    r.levelsAbove m frontier = r.levelsAbove n frontier := by
  induction n generalizing frontier m with
  | zero =>
    obtain rfl := List.eq_nil_iff_forall_not_mem.2 h
    cases m <;> rfl
  | succ n ih =>
    obtain ⟨k, rfl⟩ := Nat.exists_eq_add_of_le hm
    have habove : ∀ u ∈ (frontier.filter fun t => !t.same Ty.rootClass).flatMap r.parents,
        r.EndsWithin n u := by
      intro u hu
      obtain ⟨t, ht, hu⟩ := List.mem_flatMap.1 hu
      exact h t (List.mem_of_mem_filter ht) u hu
    rw [Nat.add_right_comm, levelsAbove, levelsAbove, ih habove (Nat.le_add_right n k)]

/-- A comparison of arrays may go on with their components, from where the walk
begins anew: each bracket of the target is worth one more walk. -/
theorem assignableWithin_eq {bound : Nat} (hall : ∀ t, r.EndsWithin bound t) {target source : Ty}
    {m' : Nat} (h : r.EndsWithin n source) (hm : bound * target.arrayDepth + n ≤ m)
    (hm' : bound * target.arrayDepth + n ≤ m') :
    r.assignableWithin m target source = r.assignableWithin m' target source := by
  induction m generalizing target source n m' with
  | zero =>
    obtain rfl : n = 0 := by omega
    exact h.elim
  | succ m ih =>
    obtain ⟨n, rfl⟩ : ∃ k, n = k + 1 := Nat.exists_eq_succ_of_ne_zero fun hzero => by
      subst hzero
      exact h
    obtain ⟨m', rfl⟩ : ∃ k, m' = k + 1 := ⟨m' - 1, by omega⟩
    have habove : (r.parents source).any (r.assignableWithin m target) =
        (r.parents source).any (r.assignableWithin m' target) := by
      rw [Bool.eq_iff_iff, List.any_eq_true, List.any_eq_true]
      refine exists_congr fun u => and_congr_right fun hu => ?_
      rw [ih (h u hu) (Nat.le_of_succ_le_succ hm) (Nat.le_of_succ_le_succ hm')]
    unfold assignableWithin
    rw [habove]
    cases target with
    | array wanted =>
      cases source with
      | array given =>
        rw [Ty.arrayDepth, Nat.mul_succ] at hm hm'
        have hcomponents := @ih bound wanted given m' (hall given) (by omega) (by omega)
        simp only [hcomponents]
      | _ => rfl
    | _ => rfl

end Bounds

/-- The comparison of a target with a source goes on with a parent of the source
or, between arrays, with the components. -/
def Compares (r : Registry) (now next : Ty × Ty) : Prop :=
  next.1 = now.1 ∧ r.Parent now.2 next.2 ∨ now = (.array next.1, .array next.2)

/-- All walks of the hierarchy end: there is no infinite way up, no infinite
comparison, and the bounds that the walks carry do not show in their answers. -/
structure WalksEnd (r : Registry) : Prop where
  climb : WellFounded fun u t => r.Parent t u
  compare : WellFounded fun next now => r.Compares now next
  allInterfaces : ∀ n t, r.heightBound ≤ n → r.allInterfacesWithin n t = r.allInterfaces t
  levels : ∀ n t, r.heightBound ≤ n →
    r.levelsAbove n (r.parents t) = r.levelsAbove r.heightBound (r.parents t)
  chain : ∀ n t, r.heightBound ≤ n → r.chainWithin n t = r.superclassChain t
  assignable : ∀ n target source, r.heightBound * (target.arrayDepth + 1) ≤ n →
    r.assignableWithin n target source = r.assignable target source

theorem acc_of_endsWithin {n : Nat} (h : r.EndsWithin n t) : Acc (fun u t => r.Parent t u) t := by
  induction n generalizing t with
  | zero => exact h.elim
  | succ n ih => exact ⟨t, fun u hu => ih (h u hu)⟩

theorem compares_wellFounded (h : WellFounded fun u t => r.Parent t u) :
    WellFounded fun next now => r.Compares now next := by
  refine ⟨fun pair => ?_⟩
  obtain ⟨target, source⟩ := pair
  induction hdepth : target.arrayDepth using Nat.strong_induction_on generalizing target source with
  | _ depth ihdepth =>
    induction source using h.induction with
    | _ source ih =>
      refine ⟨_, fun next hnext => ?_⟩
      obtain ⟨rfl, hparent⟩ | harrays := hnext
      · exact ih next.2 hparent
      · rw [(Prod.mk.inj harrays).1] at hdepth
        exact ihdepth _ (hdepth ▸ Nat.lt_succ_self _) next.1 next.2 rfl

theorem Acyclic.walksEnd (h : r.Acyclic) : r.WalksEnd where
  climb := ⟨fun t => acc_of_endsWithin (h.endsWithin t)⟩
  compare := compares_wellFounded ⟨fun t => acc_of_endsWithin (h.endsWithin t)⟩
  allInterfaces _ t hn := allInterfacesWithin_eq (h.endsWithin t) hn
  levels _ _ hn := levelsAbove_eq (fun u _ => h.endsWithin u) hn
  chain _ t hn := chainWithin_eq (h.endsWithin t) hn
  assignable _ _ source hn := assignableWithin_eq h.endsWithin (h.endsWithin source) hn le_rfl

theorem WalksEnd.acyclic (h : r.WalksEnd) : r.Acyclic := by
  intro t ht
  have hback := transGen_swap.2 ht
  exact h.climb.transGen.asymmetric t t hback hback

/-- After any calls, accepted or refused, the hierarchy is free of cycles exactly
when no definition among them named a parent that led back to its class, and
exactly then all walks end. -/
theorem after_hierarchy (calls : List Call) : ((after calls).Acyclic ↔
      ∀ earlier call, earlier ++ [call] <+: calls → ¬ call.Closes (after earlier)) ∧
    ((after calls).WalksEnd ↔ (after calls).Acyclic) :=
  ⟨after_acyclic_iff calls, WalksEnd.acyclic, Acyclic.walksEnd⟩

/-- A class that is declared first may be defined as its own superclass. -/
theorem own_superclass_cycle :
    ¬ (after [.declare "A", .define "A" (some "A") [] false]).Acyclic := by
  intro h
  have hparents : Ty.object "A" ∈
      (after [.declare "A", .define "A" (some "A") [] false]).parents (.object "A") :=
    List.contains_iff_mem.1 rfl
  exact h (.object "A") (.single hparents)

end ClassBackend.Registry
