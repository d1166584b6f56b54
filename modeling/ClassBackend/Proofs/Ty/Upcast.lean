import ClassBackend.Proofs.Machine.Action
import ClassBackend.Proofs.Ty.Formed

/-!
# Upcasts at run time

Assignability is decided on the registry, casts on the class files and the
library tables of the machine. The two hierarchies agree on user classes, but the
machine does not know all links between library classes, and it does not look
into an array that is the parent of a class. `Upcast` is what is left:
`isSubtype_iff_upcast` says that of the assignments that the registry allows, the
machine accepts exactly these.
-/

namespace ClassBackend.Registry

open Relation

variable {name : String} {u : Ty}

/-! ## Registries made by definitions -/

def Call.isDefinition : Call → Bool
  | .declare _ => false
  | .define .. => true

/-- Made of `void`, primitives and classes with recorded parents by array
brackets. -/
def holds (r : Registry) : Ty → Bool
  | .void | .prim _ => true
  | .object name => (r.classInfo? name).isSome
  | .array component => r.holds component
  | _ => false

/-- Every known class has its parents recorded. -/
structure Founded (r : Registry) : Prop extends r.Formed where
  complete : ∀ name, r.declares name = true → (r.classInfo? name).isSome = true

section Founded

variable {r : Registry}

theorem after_founded {calls : List Call} (h : ∀ call ∈ calls, call.isDefinition = true) :
    (after calls).Founded := by
  refine ⟨after_formed calls, ?_⟩
  induction calls using List.reverseRecOn with
  | nil =>
    intro name hname
    obtain ⟨row, hrow, rfl⟩ := exists_row_of_declares hname
    exact Option.isSome_of_eq_some (core_formed.library row hrow)
  | append_singleton calls call ih =>
    have hr := ih fun earlier hearlier => h earlier (List.mem_append_left _ hearlier)
    rw [after_concat]
    cases call with
    | declare name => cases h (.declare name) (by simp)
    | define name superclass interfaces isInterface =>
      rw [Call.apply]
      cases hdefined : (after calls).define name superclass interfaces isInterface with
      | error fault => exact hr
      | ok result =>
        obtain ⟨-, -, -, info, -, hlookup⟩ := define_eq_ok hdefined
        intro other hother
        show (result.1.classInfo? other).isSome = true
        replace hother : (result.1.classes.lookup other).isSome = true := hother
        rw [hlookup] at hother
        rw [classInfo?, hlookup]
        split at hother
        · rename_i hsame
          rw [if_pos hsame]
          rfl
        · rename_i hdiffers
          rw [if_neg hdiffers]
          exact hr other hother

theorem spells_of_holds {t : Ty} (h : r.holds t = true) : r.spells t = true := by
  induction t with
  | object name =>
    obtain ⟨info, hinfo⟩ := Option.isSome_iff_exists.1 h
    exact declares_of_classInfo? hinfo
  | array component ih => exact ih h
  | void | prim => rfl
  | _ => cases h

theorem Founded.holds_of_spells (hr : r.Founded) {t : Ty} (ht : r.spells t = true) :
    r.holds t = true := by
  induction t with
  | object name => exact hr.complete name ht
  | array component ih => exact ih ht
  | void | prim => rfl
  | _ => cases ht

theorem Founded.isPlain (hr : r.Founded) {t : Ty} (ht : r.holds t = true) : t.isPlain = true :=
  hr.isPlain_of_spells (spells_of_holds ht)

theorem Founded.holds_rootClass (hr : r.Founded) : r.holds Ty.rootClass = true :=
  hr.holds_of_spells hr.spells_rootClass

end Founded

/-! ## The two hierarchies -/

def isUserClass : Ty → Bool
  | .object name => !coreClasses.any (·.name == name)
  | _ => false

/-- The machine has a class file for every user class that the registry knows,
with the same parents, and none for the other types. -/
structure Mirrors (m : Machine) (r : Registry) : Prop where
  user : ∀ name info, r.classInfo? name = some info → isUserClass (.object name) = true →
    ∃ c, m.class? (Ty.object name).internalName = some c ∧
      c.superclass = info.superclass.map Ty.internalName ∧
      c.interfaces = info.interfaces.map Ty.internalName
  other : ∀ t, r.holds t = true → isUserClass t = false → m.class? t.internalName = none

/-- A link of the registry that the machine has as well: those of a user class
are in its class file, all others have to be in the tables of the library. -/
def Shared (r : Registry) (t u : Ty) : Prop :=
  r.Parent t u ∧ (isUserClass t = false → u.internalName ∈ Machine.libraryLinks t.internalName)

/-- The target is above the source in both hierarchies: it is the root, or shared
links lead to it, or both are arrays of such references. -/
inductive Upcast (r : Registry) : (target source : Ty) → Prop
  | root (source : Ty) : Upcast r Ty.rootClass source
  | climb {target source : Ty} : ReflTransGen r.Shared source target → Upcast r target source
  | arrays {wanted given : Ty} : wanted.isReference = true → given.isReference = true →
    Upcast r wanted given → Upcast r (.array wanted) (.array given)

section Mirrors

variable {m : Machine} {r : Registry} {t : Ty}

theorem Mirrors.links_user (hm : Mirrors m r) (ht : r.holds t = true)
    (huser : isUserClass t = true) :
    m.links t.internalName = (r.parents t).map Ty.internalName := by
  cases t with
  | object name =>
    obtain ⟨info, hinfo⟩ := Option.isSome_iff_exists.1 ht
    obtain ⟨c, hclass, hsuper, hinterfaces⟩ := hm.user name info hinfo huser
    rw [Machine.links, hclass, parents_object, hinfo]
    cases hparent : info.superclass <;> simp [hsuper, hinterfaces, hparent]
  | _ => cases huser

theorem Mirrors.links_other (hm : Mirrors m r) (ht : r.holds t = true)
    (huser : isUserClass t = false) :
    m.links t.internalName = Machine.libraryLinks t.internalName := by
  rw [Machine.links, hm.other t ht huser]

theorem Mirrors.link_of_shared (hm : Mirrors m r) (ht : r.holds t = true) (h : r.Shared t u) :
    m.Link t.internalName u.internalName := by
  rw [Machine.Link]
  cases huser : isUserClass t with
  | true =>
    rw [hm.links_user ht huser]
    exact List.mem_map_of_mem h.1
  | false =>
    rw [hm.links_other ht huser]
    exact h.2 huser

/-- The names of library classes that links of both hierarchies reach in at most
`n` steps. -/
def libraryAbove : Nat → String → List String
  | 0, name => [name]
  | n + 1, name =>
    let rows := coreClasses.filter (·.name == name)
    let parents := rows.flatMap fun row => row.superclass.toList ++ row.interfaces
    let shared := parents.filter fun parent =>
      Naming.isAscii parent &&
        (Machine.libraryLinks (Naming.asciiInternal name)).contains (Naming.asciiInternal parent)
    name :: shared.flatMap (libraryAbove n)

theorem Founded.shared_of_mem_libraryAbove (hr : r.Founded) {n : Nat} {above : String}
    (h : above ∈ libraryAbove n name) : ReflTransGen r.Shared (.object name) (.object above) := by
  induction n generalizing name with
  | zero => rw [List.mem_singleton.1 h]
  | succ n ih =>
    rcases List.mem_cons.1 h with rfl | h
    · exact .refl
    obtain ⟨parent, hmem, habove⟩ := List.mem_flatMap.1 h
    obtain ⟨hmem, hlink⟩ := List.mem_filter.1 hmem
    obtain ⟨row, hnamed, hparent⟩ := List.mem_flatMap.1 hmem
    obtain ⟨hrow, hname⟩ := List.mem_filter.1 hnamed
    obtain rfl := eq_of_beq hname
    obtain ⟨hascii, hlink⟩ := Bool.and_eq_true _ _ ▸ hlink
    have hshared : (Ty.object parent).internalName ∈
        Machine.libraryLinks (Ty.object row.name).internalName := by
      rw [Ty.internalName_object, Ty.internalName_object, Naming.toInternal_of_isAscii hascii,
        Naming.toInternal_of_isAscii (isAscii_of_mem_coreClasses hrow)]
      exact List.contains_iff_mem.1 hlink
    refine .head ⟨?_, fun _ => hshared⟩ (ih habove)
    rw [Parent, parents_object, hr.library row hrow]
    have hmapped := List.mem_map_of_mem (f := Ty.object) hparent
    rw [List.map_append] at hmapped
    cases hsuper : row.superclass <;> simpa [CoreClass.info, hsuper] using hmapped

theorem libraryLinks_of_bracket (h : name.toList.head? = some '[') :
    Machine.libraryLinks name = [Machine.rootClass] := by
  have hnone : ∀ {α : Type} (entries : List (String × α)),
      entries.all (fun entry => Naming.isAscii entry.1 &&
        (Naming.asciiChars entry.1).head? != some '[') = true → entries.lookup name = none := by
    intro α entries hall
    refine List.lookup_eq_none_iff.2 fun entry hentry => bne_iff_ne.2 fun hsame => ?_
    obtain ⟨hascii, hhead⟩ := Bool.and_eq_true _ _ ▸ List.all_eq_true.1 hall entry hentry
    rw [← Naming.toList_of_isAscii hascii, ← hsame, h] at hhead
    exact absurd hhead (by decide)
  have hroot : (name == Machine.rootClass) = false := by
    refine beq_eq_false_iff_ne.2 fun hsame => ?_
    rw [hsame] at h
    exact absurd h (by decide)
  rw [Machine.libraryLinks, Machine.librarySuperclass?, hroot,
    hnone _ (rfl), hnone _ (rfl)]
  rfl

/-- A link of the machine leads to the root, or shared links lead to the same
class. -/
theorem Mirrors.shared_of_link (hm : Mirrors m r) (hr : r.Founded) (ht : r.holds t = true)
    {above : String} (h : m.Link t.internalName above) : above = Machine.rootClass ∨
      ∃ u, u.internalName = above ∧ ReflTransGen r.Shared t u := by
  rw [Machine.Link] at h
  cases huser : isUserClass t with
  | true =>
    rw [hm.links_user ht huser] at h
    obtain ⟨u, hu, rfl⟩ := List.mem_map.1 h
    exact .inr ⟨u, rfl, .single ⟨hu, fun hother => by rw [huser] at hother; cases hother⟩⟩
  | false =>
    rw [hm.links_other ht huser] at h
    cases t with
    | object name =>
      have hlibrary : coreClasses.all (fun row =>
          (Machine.libraryLinks (Naming.asciiInternal row.name)).all fun link =>
            link == Machine.rootClass || (libraryAbove 3 row.name).any fun above =>
              Naming.isAscii above && Naming.asciiInternal above == link) = true := rfl
      rw [isUserClass, Bool.not_eq_false'] at huser
      obtain ⟨row, hrow, hname⟩ := List.any_eq_true.1 huser
      obtain rfl := eq_of_beq hname
      rw [Ty.internalName_object,
        Naming.toInternal_of_isAscii (isAscii_of_mem_coreClasses hrow)] at h
      have hlink := List.all_eq_true.1 (List.all_eq_true.1 hlibrary row hrow) above h
      rcases Bool.or_eq_true _ _ ▸ hlink with hroot | hlink
      · exact .inl (eq_of_beq hroot)
      · obtain ⟨name, hname, hlink⟩ := List.any_eq_true.1 hlink
        obtain ⟨hascii, hlink⟩ := Bool.and_eq_true _ _ ▸ hlink
        refine .inr ⟨.object name, ?_, hr.shared_of_mem_libraryAbove hname⟩
        rw [Ty.internalName_object, Naming.toInternal_of_isAscii hascii, eq_of_beq hlink]
    | array component =>
      have hbracket : (Ty.array component).internalName.toList.head? = some '[' := by
        rw [Ty.internalName_array, Ty.toList_descriptor_array]
        rfl
      rw [libraryLinks_of_bracket hbracket] at h
      exact .inl (List.mem_singleton.1 h)
    | void => exact .inl (List.mem_singleton.1 h)
    | prim p => cases p <;> exact .inl (List.mem_singleton.1 h)
    | _ => cases ht

theorem Founded.holds_of_shared (hr : r.Founded) (ht : r.holds t = true)
    (h : ReflTransGen r.Shared t u) : r.holds u = true := by
  induction h with
  | refl => exact ht
  | tail _ hstep _ => exact hr.holds_of_spells (hr.parents _ _ hstep.1)

theorem Mirrors.leads_iff (hm : Mirrors m r) (hr : r.Founded) (ht : r.holds t = true)
    (hu : r.holds u = true) (hroot : u ≠ Ty.rootClass) :
    ReflTransGen m.Link t.internalName u.internalName ↔ ReflTransGen r.Shared t u := by
  constructor
  · intro h
    have hreached : ∀ {above}, ReflTransGen m.Link t.internalName above →
        above = Machine.rootClass ∨ ∃ v, v.internalName = above ∧ ReflTransGen r.Shared t v := by
      intro above h
      induction h with
      | refl => exact .inr ⟨t, rfl, .refl⟩
      | tail _ hlink ih =>
        rcases ih with rfl | ⟨v, rfl, hv⟩
        · -- the root has no links
          have hnone : m.links Machine.rootClass = [] :=
            hm.links_other hr.holds_rootClass (rfl)
          rw [Machine.Link, hnone] at hlink
          cases hlink
        · refine (hm.shared_of_link hr (hr.holds_of_shared ht hv) hlink).imp_right ?_
          rintro ⟨w, hw, hshared⟩
          exact ⟨w, hw, hv.trans hshared⟩
    rcases hreached h with hname | ⟨v, hname, hv⟩
    · exact absurd (Ty.internalName_injective (hr.isPlain hu) (hr.isPlain hr.holds_rootClass)
        (hname.trans (by decide))) hroot
    · rwa [← Ty.internalName_injective (hr.isPlain (hr.holds_of_shared ht hv))
        (hr.isPlain hu) hname]
  · intro h
    clear hu hroot
    induction h with
    | refl => exact .refl
    | tail hleads hstep ih =>
      exact .tail ih (hm.link_of_shared (hr.holds_of_shared ht hleads) hstep)

end Mirrors

/-! ## What the registry assigns to arrays -/

section Arrays

variable {r : Registry} {component : Ty} {n : Nat}

theorem Founded.eq_rootClass_of_shared_array (hr : r.Founded)
    (h : ReflTransGen r.Shared (.array component) u) : u = .array component ∨ u = Ty.rootClass := by
  induction h with
  | refl => exact .inl rfl
  | tail _ hstep ih =>
    rcases ih with rfl | rfl
    · exact .inr (eq_rootClass_of_parent_array hstep.1)
    · rw [Shared, Parent, hr.parents_rootClass] at hstep
      cases hstep.1

theorem assignableWithin_object {source : Ty} (h : source.isPlain = true) :
    r.assignableWithin (n + 1) (.object name) source =
      (source.same (.object name) || (r.parents source).any
        (r.assignableWithin n (.object name))) := by
  cases source with
  | object | array | void | prim =>
    unfold assignableWithin
    simp [Ty.isPrimitive, Ty.primitive?, Ty.isNull, Ty.isError, Ty.isUnreachable, Ty.isBlock,
      parents, info?]
  | _ => cases h

theorem Formed.leads_of_assignable (hr : r.Formed) (hname : validName name = true) {source : Ty}
    (hsource : r.spells source = true) (h : r.assignableWithin n (.object name) source = true) :
    ReflTransGen r.Parent source (.object name) := by
  induction n generalizing source with
  | zero => cases h
  | succ n ih =>
    have hplain := hr.isPlain_of_spells hsource
    rw [assignableWithin_object hplain, Bool.or_eq_true, List.any_eq_true,
      Ty.same_iff hplain (u := .object name) hname] at h
    rcases h with rfl | ⟨parent, hparent, h⟩
    · exact .refl
    · exact .head hparent (ih (hr.parents _ _ hparent) h)

theorem Formed.eq_rootClass_of_leads (hr : r.Formed) (h : ReflTransGen r.Parent Ty.rootClass u) :
    u = Ty.rootClass := by
  rcases ReflTransGen.cases_head h with heq | ⟨parent, hparent, -⟩
  · exact heq.symm
  · rw [Parent, hr.parents_rootClass] at hparent
    cases hparent

theorem Founded.eq_rootClass_of_assignable_array (hr : r.Founded)
    (hname : r.holds (.object name) = true) (hcomponent : r.holds (.array component) = true)
    (h : r.assignableWithin n (.object name) (.array component) = true) :
    Ty.object name = Ty.rootClass := by
  have hleads := hr.leads_of_assignable (hr.isPlain hname) (spells_of_holds hcomponent) h
  rcases ReflTransGen.cases_head hleads with heq | ⟨parent, hparent, hleads⟩
  · cases heq
  · exact hr.eq_rootClass_of_leads (eq_rootClass_of_parent_array hparent ▸ hleads)

theorem Founded.assignable_components (hr : r.Founded) {wanted : Ty}
    (hwanted : r.holds (.array wanted) = true) (hcomponent : r.holds (.array component) = true)
    (hrefs : wanted.isReference = true ∧ component.isReference = true) (hne : component ≠ wanted)
    (h : r.assignableWithin n (.array wanted) (.array component) = true) :
    ∃ k, r.assignableWithin k wanted component = true := by
  have hdiffers : (Ty.array component).same (.array wanted) = false := by
    rw [Bool.eq_false_iff, Ne, Ty.same_iff (hr.isPlain hcomponent) (hr.isPlain hwanted)]
    exact fun heq => hne (Ty.array.inj heq)
  have hprim : wanted.isPrimitive = false ∧ component.isPrimitive = false := by
    constructor
    · cases wanted <;> first | rfl | cases hrefs.1
    · cases component <;> first | rfl | cases hrefs.2
  cases n with
  | zero => cases h
  | succ n =>
    refine ⟨n, ?_⟩
    have harray : ∀ t : Ty, t.array.isPrimitive = false := fun _ => rfl
    unfold assignableWithin at h
    simpa [hdiffers, hprim, harray, Ty.isNull, Ty.isError, Ty.isUnreachable, Ty.isBlock] using h

theorem Founded.upcast_arrays_iff (hr : r.Founded) {wanted : Ty} :
    r.Upcast (.array wanted) (.array component) ↔ component = wanted ∨
      component.isReference = true ∧ wanted.isReference = true ∧ r.Upcast wanted component := by
  constructor
  · intro h
    cases h with
    | climb hleads =>
      rcases hr.eq_rootClass_of_shared_array hleads with h | h
      · exact .inl (Ty.array.inj h).symm
      · cases h
    | arrays hwanted hcomponent h => exact .inr ⟨hcomponent, hwanted, h⟩
  · rintro (rfl | ⟨hcomponent, hwanted, h⟩)
    · exact .climb .refl
    · exact .arrays hwanted hcomponent h

theorem upcast_object_iff {target : Ty} : r.Upcast target (.object name) ↔
      target = Ty.rootClass ∨ ReflTransGen r.Shared (.object name) target := by
  constructor
  · intro h
    cases h with
    | root => exact .inl rfl
    | climb hleads => exact .inr hleads
  · rintro (rfl | hleads)
    · exact .root _
    · exact .climb hleads

theorem elementClass?_descriptor {t : Ty} (ht : t.isPlain = true) :
    Machine.elementClass? t.descriptor.toList =
      if t.isReference then some t.internalName.toList else none := by
  cases t with
  | void => rfl
  | prim p => cases p <;> rfl
  | object name =>
    rw [Ty.toList_descriptor_object]
    simp [Machine.elementClass?, Ty.isReference, Ty.internalName_object]
  | array component =>
    rw [Ty.toList_descriptor_array]
    simp [Machine.elementClass?, Ty.isReference, Ty.internalName_array,
      Ty.toList_descriptor_array]
  | _ => cases ht

end Arrays

section Casts

variable {m : Machine} {r : Registry} {target source : Ty}

theorem Mirrors.isSubtypeWithin_iff (hm : Mirrors m r) (hr : r.Founded)
    (htarget : r.holds target = true) (hsource : r.holds source = true)
    (htref : target.isReference = true) (hsref : source.isReference = true) {k n : Nat}
    (h : r.assignableWithin k target source = true) (hn : source.internalName.toList.length < n) :
    m.isSubtypeWithin n source.internalName.toList target.internalName.toList = true ↔
      r.Upcast target source := by
  induction source generalizing target k n with
  | object name =>
    obtain ⟨n, rfl⟩ : ∃ j, n = j + 1 := ⟨n - 1, by omega⟩
    have hclass : (Ty.object name).internalName.toList.head? ≠ some '[' := by
      rw [Ne, Ty.head?_internalName (hr.isPlain hsource)]
      exact Bool.false_ne_true
    rw [Machine.isSubtypeWithin_class hclass, String.ofList_toList, String.ofList_toList,
      upcast_object_iff]
    by_cases hroot : target = Ty.rootClass
    · subst hroot
      exact ⟨fun _ => .inl rfl, fun _ => .inl (by decide)⟩
    · rw [hm.leads_iff hr hsource htarget hroot]
      refine or_congr_left ⟨fun hname => ?_, fun h => absurd h hroot⟩
      exact Ty.internalName_injective (hr.isPlain htarget) (hr.isPlain hr.holds_rootClass)
        ((String.toList_inj.1 hname).trans (by decide))
  | array component ih =>
    obtain ⟨n, rfl⟩ : ∃ j, n = j + 1 := ⟨n - 1, by omega⟩
    rw [Ty.internalName_array, Ty.toList_descriptor_array] at hn ⊢
    cases target with
    | object name =>
      have hroot := hr.eq_rootClass_of_assignable_array htarget hsource h
      rw [hroot]
      refine ⟨fun _ => .root _, fun _ => ?_⟩
      exact (Machine.isSubtypeWithin_array_class (by decide)).2 (.inl (by decide))
    | array wanted =>
      have hcomponent : component.isPlain = true := hr.isPlain hsource
      have hwanted : wanted.isPlain = true := hr.isPlain htarget
      rw [Ty.internalName_array, Ty.toList_descriptor_array,
        Machine.isSubtypeWithin_array_array, hr.upcast_arrays_iff,
        elementClass?_descriptor hcomponent, elementClass?_descriptor hwanted]
      by_cases hsame : component = wanted
      · exact ⟨fun _ => .inl hsame, fun _ => .inl (by rw [hsame])⟩
      have hchars : component.descriptor.toList ≠ wanted.descriptor.toList :=
        fun heq => hsame (Ty.descriptor_injective hcomponent hwanted heq)
      cases hcref : component.isReference with
      | false => simp [hsame, hchars]
      | true =>
        cases hwref : wanted.isReference with
        | false => simp [hsame, hchars]
        | true =>
          obtain ⟨k, hk⟩ := hr.assignable_components htarget hsource ⟨hwref, hcref⟩ hsame h
          have hlength : component.internalName.toList.length ≤
              component.descriptor.toList.length :=
            Machine.length_elementClass? (by
              rw [elementClass?_descriptor hcomponent, hcref]
              rfl)
          have hcomponents := @ih wanted htarget hsource hwref hcref k n hk
            (by rw [List.length_cons] at hn; omega)
          simp [hsame, hchars, hcomponents]
    | _ => cases htref
  | _ => cases hsref

end Casts

end ClassBackend.Registry

namespace ClassBackend.Machine

open Registry

theorem step_checkcast {m : Machine} {a : Activation} {address : Address} {rest : Stack}
    {target : String} (hstack : a.stack = .ref address :: rest)
    (hinstance : m.instanceOf address target = true) (call : MethodCall) (depth : Nat) :
    step call depth (.checkcast target) a m = .ok (.next, a) m := by
  have hback : { { a with stack := rest } with stack := Value.ref address :: rest } = a := by
    rw [← hstack]
  have hcast : checkCast target a m = .ok ((), a) m := by
    refine Act.then_ok (Act.pop_ok hstack) (Act.then_ok rfl (Act.then_ok rfl ?_))
    simp only [hinstance, if_true]
    exact congrArg (fun b => EStateM.Result.ok ((), b) m) hback
  exact Act.then_ok hcast rfl

/-- In a registry made by definitions and a machine with the class files of its user
classes: of the assignments that the registry allows, the machine accepts exactly
the upcasts, and a cast lets every object of the source through. -/
theorem isSubtype_iff_upcast {calls : List Call} (hcalls : ∀ call ∈ calls, call.isDefinition = true)
    {m : Machine} (hm : Mirrors m (after calls)) {target source : Ty}
    (htarget : (after calls).holds target = true ∧ target.isReference = true)
    (hsource : (after calls).holds source = true ∧ source.isReference = true)
    (h : (after calls).assignable target source = true) :
    (m.isSubtype source.internalName target.internalName = true ↔
        (after calls).Upcast target source) ∧
      ((after calls).Upcast target source →
        ∀ (call : MethodCall) (depth : Nat) (a : Activation) (address : Address) (object : Object)
          (rest : Stack), a.stack = .ref address :: rest → m.heap[address]? = some object →
          object.className = source.internalName → ∀ instruction ∈ source.castCode target,
            step call depth instruction a m = .ok (.next, a) m) := by
  have hiff := hm.isSubtypeWithin_iff (after_founded hcalls) htarget.1 hsource.1 htarget.2
    hsource.2 h (Nat.lt_succ_self _)
  refine ⟨hiff, fun hup call depth a address object rest hstack hobject hclass
    instruction hmem => ?_⟩
  have hcode : instruction = .checkcast target.internalName := by
    have hnone : source.primitive? = none := by
      cases source <;> first | rfl | cases hsource.2
    rw [Ty.castCode, hnone] at hmem
    dsimp only at hmem
    split at hmem
    · exact List.mem_singleton.1 hmem
    · cases hmem
  rw [hcode]
  refine step_checkcast hstack ?_ call depth
  rw [instanceOf, hobject, Option.any_some, hclass]
  exact hiff.2 hup

/-- A library class need not be a subtype of an interface that its values may be
assigned to. -/
theorem text_not_serializable : core.assignable (.object "java.io.Serializable") Ty.text = true ∧
      Machine.isSubtype {} Ty.text.internalName (Ty.object "java.io.Serializable").internalName =
        false :=
  ⟨rfl, rfl⟩

/-- The definition of an error that can be run. -/
def failureCall : Call :=
  .define "Failure" (some "java.lang.RuntimeException") ["java.lang.Runnable"] false

def failureMachine : Machine :=
  Machine.load {}
    { name := "Failure", superclass := some "java/lang/RuntimeException"
      interfaces := ["java/lang/Runnable"], access := Access.publicFlag }

theorem failure_mirrors : Mirrors failureMachine (after [failureCall]) := by
  have hclasses : (after [failureCall]).classes = core.classes ++ [("Failure", some
      ⟨some (.object "java.lang.RuntimeException"), [.object "java.lang.Runnable"], false⟩)] := by
    rfl
  refine ⟨fun name info hinfo huser => ?_, fun t ht huser => ?_⟩
  · have hlisted := mem_of_lookup (Option.join_eq_some_iff.1 hinfo)
    rcases List.mem_append.1 (hclasses ▸ hlisted) with hcore | hentry
    · obtain ⟨row, hrow, hentry⟩ := List.mem_map.1 hcore
      cases hentry
      rw [isUserClass, List.any_eq_true.2 ⟨row, hrow, beq_self_eq_true row.name⟩] at huser
      cases huser
    · obtain ⟨rfl, hinfo⟩ := Prod.mk.inj (List.mem_singleton.1 hentry)
      cases hinfo
      exact ⟨_, rfl, by decide, by decide⟩
  · have hr : (after [failureCall]).Founded :=
      after_founded (by simp [failureCall, Call.isDefinition])
    refine List.lookup_eq_none_iff.2 fun entry hentry => bne_iff_ne.2 fun hname => ?_
    rw [List.mem_singleton.1 hentry] at hname
    have hsame : t = .object "Failure" :=
      Ty.internalName_injective (hr.isPlain ht) (by decide) (hname.trans (by decide))
    rw [hsame] at huser
    cases huser.symm.trans (rfl : isUserClass (.object "Failure") = true)

theorem failure_upcast :
    (Machine.isSubtype failureMachine (Ty.array (.object "Failure")).internalName
        (Ty.array (.object "java.lang.Throwable")).internalName = true ↔
      (after [failureCall]).Upcast (.array (.object "java.lang.Throwable"))
        (.array (.object "Failure"))) ∧
      (after [failureCall]).holds (.array (.object "Failure")) = true ∧
      (after [failureCall]).assignable (.array (.object "java.lang.Throwable"))
        (.array (.object "Failure")) = true := by
  have hassign : (after [failureCall]).assignable (.array (.object "java.lang.Throwable"))
      (.array (.object "Failure")) = true := rfl
  have hsource : (after [failureCall]).holds (.array (.object "Failure")) = true := rfl
  exact ⟨(isSubtype_iff_upcast (by simp [failureCall, Call.isDefinition]) failure_mirrors
    ⟨rfl, rfl⟩ ⟨hsource, rfl⟩ hassign).1, hsource, hassign⟩

end ClassBackend.Machine
