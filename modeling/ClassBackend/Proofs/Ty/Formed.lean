import ClassBackend.Proofs.Emission.Action
import ClassBackend.Proofs.Machine.Subtype
import ClassBackend.Proofs.Ty.Acyclic
import ClassBackend.Proofs.Ty.Names

/-!
# Names in a registry

Whatever has been declared and defined, and in whatever order: only classes with
valid names are known, every recorded parent can be spelled with known classes,
and the library classes are as they were (`after_formed`).
-/

namespace ClassBackend.Registry

variable {name : String} {r : Registry} {t : Ty}

structure Formed (r : Registry) : Prop where
  valid : ∀ name, r.declares name = true → validName name = true
  parents : ∀ t u, r.Parent t u → r.spells u = true
  library : ∀ row ∈ coreClasses, r.classInfo? row.name = some row.info

/-! ## The library classes -/

theorem isAscii_of_mem_coreClasses {row : CoreClass} (h : row ∈ coreClasses) :
    Naming.isAscii row.name = true :=
  List.all_eq_true.1 (rfl : coreClasses.all (fun row => Naming.isAscii row.name) = true)
    row h

theorem validName_of_mem_coreClasses {row : CoreClass} (h : row ∈ coreClasses) :
    validName row.name = true := by
  have hrows : coreClasses.all (fun row => Naming.isDotted true (Naming.asciiChars row.name) &&
      (Primitive.ofName? row.name).isNone && row.name != "void") = true := rfl
  rw [validName, Naming.isQualified, Naming.toList_of_isAscii (isAscii_of_mem_coreClasses h)]
  exact List.all_eq_true.1 hrows row h

theorem exists_row_of_declares (h : core.declares name = true) :
    ∃ row ∈ coreClasses, row.name = name := by
  obtain ⟨info, hlookup⟩ := Option.isSome_iff_exists.1 h
  obtain ⟨row, hrow, hentry⟩ := List.mem_map.1 (Machine.mem_of_lookup hlookup)
  exact ⟨row, hrow, (Prod.mk.inj hentry).1⟩

theorem declares_of_classInfo? {info : ClassInfo} (h : r.classInfo? name = some info) :
    r.declares name = true := by
  rw [declares, Option.join_eq_some_iff.1 h]
  rfl

theorem core_formed : core.Formed := by
  have hrows : coreClasses.all (fun row =>
      decide (core.classInfo? row.name = some row.info) &&
      (core.parents (.object row.name)).all core.spells) = true := rfl
  have hrow : ∀ row ∈ coreClasses, core.classInfo? row.name = some row.info ∧
      ∀ u ∈ core.parents (.object row.name), core.spells u = true := by
    intro row hrow
    simpa using List.all_eq_true.1 hrows row hrow
  refine ⟨fun name hname => ?_, fun t u hparent => ?_, fun row hmem => (hrow row hmem).1⟩
  · obtain ⟨row, hmem, rfl⟩ := exists_row_of_declares hname
    exact validName_of_mem_coreClasses hmem
  · cases t with
    | object name =>
      cases hinfo : core.classInfo? name with
      | none => rw [Parent, parents_object, hinfo] at hparent; cases hparent
      | some info =>
        obtain ⟨row, hmem, rfl⟩ := exists_row_of_declares (declares_of_classInfo? hinfo)
        exact (hrow row hmem).2 u hparent
    | array component =>
      rw [eq_rootClass_of_parent_array hparent]
      rfl
    | _ => cases hparent

theorem Formed.root_info (hr : r.Formed) :
    r.classInfo? "java.lang.Object" = some ⟨none, [], false⟩ :=
  hr.library { name := "java.lang.Object", superclass := none } List.mem_cons_self

theorem Formed.spells_rootClass (hr : r.Formed) : r.spells Ty.rootClass = true :=
  declares_of_classInfo? hr.root_info

theorem Formed.parents_rootClass (hr : r.Formed) : r.parents Ty.rootClass = [] := by
  rw [Ty.rootClass, parents_object, hr.root_info]
  rfl

theorem Formed.isPlain_of_spells (hr : r.Formed) (h : r.spells t = true) : t.isPlain = true := by
  induction t with
  | object name => exact hr.valid name h
  | array component ih => exact ih h
  | void | prim => rfl
  | _ => cases h

/-! ## Calls -/

theorem Formed.spells_of_resolveParents (hr : r.Formed) {superclass : Option String}
    {interfaces : List String} {isInterface : Bool} {info : ClassInfo}
    (h : r.resolveParents name superclass interfaces isInterface = .ok info) :
    ∀ u ∈ info.superclass.toList ++ info.interfaces, r.spells u = true := by
  have hrest : ∀ parent : Option Ty, (∀ u ∈ parent.toList, r.spells u = true) →
      (do let interfaces ← interfaces.mapM r.get
          return { superclass := parent, interfaces, isInterface : ClassInfo }) = .ok info →
      ∀ u ∈ info.superclass.toList ++ info.interfaces, r.spells u = true := by
    intro parent hparent h
    cases hresolved : interfaces.mapM r.get with
    | error fault => rw [hresolved] at h; cases h
    | ok resolved =>
      rw [hresolved] at h
      cases h
      refine fun u hu => (List.mem_append.1 hu).elim (hparent u) fun hinterface => ?_
      obtain ⟨_, -, hget⟩ := exists_of_mem_mapM hresolved u hinterface
      exact spells_of_get hget
  cases superclass with
  | none =>
    refine hrest _ (fun u hu => ?_) h
    split at hu
    · cases hu
    · rw [List.mem_singleton.1 hu]
      exact hr.spells_rootClass
  | some s =>
    rw [resolveParents] at h
    cases hget : r.get s with
    | error fault => rw [hget] at h; cases h
    | ok parent =>
      rw [hget] at h
      refine hrest (some parent) (fun u hu => ?_) h
      rw [List.mem_singleton.1 hu]
      exact spells_of_get hget

theorem Formed.extend (hr : r.Formed) {s : Registry} (hname : validName name = true)
    (hothers : ∀ other, other ≠ name → s.classes.lookup other = r.classes.lookup other)
    (hlisted : s.declares name = true)
    (hinfo : s.classInfo? name = r.classInfo? name ∨ r.classInfo? name = none ∧
      ∀ u ∈ s.parents (.object name), r.spells u = true) : s.Formed := by
  have hkept : ∀ other, other ≠ name → s.classInfo? other = r.classInfo? other :=
    fun other hother => congrArg Option.join (hothers other hother)
  have hspells : ∀ u, r.spells u = true → s.spells u = true := by
    intro u hu
    induction u with
    | object other =>
      by_cases hother : other = name
      · exact hother ▸ hlisted
      · rw [spells, declares, hothers other hother]
        exact hu
    | array component ih => exact ih hu
    | _ => exact hu
  refine ⟨fun other hother => ?_, fun t u hparent => hspells u ?_, fun row hrow => ?_⟩
  · by_cases hsame : other = name
    · exact hsame ▸ hname
    · rw [declares, hothers other hsame] at hother
      exact hr.valid other hother
  · by_cases ht : t = .object name
    · rcases hinfo with hsame | ⟨-, hparents⟩
      · rw [Parent, ht, parents_object, hsame, ← parents_object] at hparent
        exact hr.parents _ u hparent
      · exact hparents u (ht ▸ hparent)
    · rw [Parent, parents_congr fun other hother => hkept other fun hsame => ht (hsame ▸ hother)]
        at hparent
      exact hr.parents t u hparent
  · have hknown := hr.library row hrow
    by_cases hsame : row.name = name
    · rcases hinfo with hinfo | ⟨hnone, -⟩
      · rw [hsame, hinfo, ← hsame, hknown]
      · rw [hsame, hnone] at hknown
        cases hknown
    · rw [hkept _ hsame, hknown]

theorem after_formed (calls : List Call) : (after calls).Formed := by
  induction calls using List.reverseRecOn with
  | nil => exact core_formed
  | append_singleton calls call hr =>
    rw [after_concat]
    cases call with
    | declare name =>
      rw [Call.apply]
      cases hdeclared : (after calls).declare name with
      | error fault => exact hr
      | ok declared =>
        obtain ⟨hvalid, hlisted, hsame, hothers⟩ := declare_eq_ok hdeclared
        exact hr.extend hvalid hothers hlisted (.inl hsame)
    | define name superclass interfaces isInterface =>
      rw [Call.apply]
      cases hdefined : (after calls).define name superclass interfaces isInterface with
      | error fault => exact hr
      | ok result =>
        obtain ⟨-, hvalid, hnone, info, hresolved, hlookup⟩ := define_eq_ok hdefined
        refine hr.extend hvalid (fun other hother => ?_) ?_ (.inr ⟨hnone, ?_⟩)
        · exact (hlookup other).trans (if_neg hother)
        · show (result.1.classes.lookup name).isSome = true
          rw [hlookup, if_pos rfl]
          rfl
        · show ∀ u ∈ result.1.parents (.object name), _
          rw [parents_object, classInfo?, hlookup, if_pos rfl]
          exact hr.spells_of_resolveParents hresolved

end ClassBackend.Registry
