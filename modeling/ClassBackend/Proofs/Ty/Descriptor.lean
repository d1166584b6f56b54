import ClassBackend.Proofs.Ty.Upcast

/-!
# Reading descriptors back

A method descriptor is the plain concatenation of the descriptors of its
parameters and its result, and the machine takes it apart again by scanning. That
this gives the parts back rests on the characters that class names have: the scan
ends a class at the first `;` and the parameters at the first `)`, and no valid
name has either. `after_descriptors` says so of every type that can be had with a
registry, whatever has been declared and defined in it.
-/

namespace ClassBackend

open Machine

variable {t : Ty}

/-! ## The characters of a descriptor -/

namespace Ty

def hasValidNames : Ty → Bool
  | .object name => Registry.validName name
  | .array component => component.hasValidNames
  | .metaOf base => base.hasValidNames
  | _ => true

def isInternalChar (c : Char) : Bool := Naming.isIdentRest c || c == '/'

theorem isInternalChar_of_mem_toInternal {name : String} (h : Registry.validName name = true) :
    ∀ c ∈ (Naming.toInternal name).toList, isInternalChar c = true := by
  intro c hc
  rw [Naming.toInternal, Naming.replaceChar, String.toList_ofList] at hc
  obtain ⟨d, hd, rfl⟩ := List.mem_map.1 hc
  by_cases hdot : d = '.'
  · simp [hdot, isInternalChar]
  · cases hrest : Naming.isIdentRest d with
    | true => simp [hdot, hrest, isInternalChar]
    | false => exact absurd hd (Registry.notMem_of_validName h hrest hdot)

/-- A descriptor is that of `void`, of a primitive or of an array, or a class name
between its marks. -/
theorem descriptor_cases (ht : t.hasValidNames = true) :
    (∃ c, t.descriptor.toList = [c] ∧ c ≠ '[' ∧ c ≠ 'L' ∧ isInternalChar c = true ∧
      c.utf8Size = 1) ∨
    (∃ component, t = .array component) ∨
    ∃ name : List Char, t.descriptor.toList = 'L' :: name ++ [';'] ∧
      ∀ c ∈ name, isInternalChar c = true := by
  have hclass : ∀ name : String, (∀ c ∈ name.toList, isInternalChar c = true) →
      t.descriptor = "L" ++ name ++ ";" →
      ∃ name : List Char, t.descriptor.toList = 'L' :: name ++ [';'] ∧
        ∀ c ∈ name, isInternalChar c = true := by
    intro name hname heq
    exact ⟨name.toList, by simp [heq], hname⟩
  cases t with
  | void => exact .inl ⟨'V', by decide⟩
  | prim p => exact .inl ⟨p.descriptor, toList_descriptor_prim p, by cases p <;> decide⟩
  | array component => exact .inr (.inl ⟨component, rfl⟩)
  | object name => exact .inr (.inr (hclass _ (isInternalChar_of_mem_toInternal ht) rfl))
  | metaOf base => exact .inr (.inr (hclass "java/lang/Class" (List.all_eq_true.1 (by decide)) rfl))
  | null | error | unreachable | block =>
    exact .inr (.inr (hclass "java/lang/Object" (List.all_eq_true.1 (by decide)) rfl))

theorem notMem_descriptor (ht : t.hasValidNames = true) {c : Char}
    (hc : isInternalChar c = false) (hmarks : c ≠ '[' ∧ c ≠ ';') : c ∉ t.descriptor.toList := by
  induction t with
  | array component ih =>
    rw [toList_descriptor_array]
    exact List.not_mem_cons_of_ne_of_not_mem hmarks.1 (ih ht)
  | _ =>
    obtain ⟨d, hd, -, -, hinternal, -⟩ | ⟨component, heq⟩ | ⟨name, hname, hchars⟩ :=
      descriptor_cases ht
    · rw [hd, List.mem_singleton]
      rintro rfl
      rw [hc] at hinternal
      cases hinternal
    · cases heq
    · rw [hname]
      intro hmem
      have hletter : c ≠ 'L' := by
        rintro rfl
        cases hc
      have hinner : c ∈ name := by simpa [hletter, hmarks.2] using hmem
      rw [hchars _ hinner] at hc
      cases hc

end Ty

/-! ## Scanning -/

namespace Machine

variable {d : String}

theorem splitParams_name {name : List Char} (hname : ';' ∉ name) (current rest : List Char) :
    splitParams d current true (name ++ ';' :: rest) =
      (splitParams d [] false rest).map (String.ofList (current ++ (name ++ [';'])) :: ·) := by
  induction name generalizing current with
  | nil => simp [splitParams]
  | cons c name ih =>
    rw [List.mem_cons, not_or] at hname
    rw [List.cons_append, splitParams, if_neg (by simpa using Ne.symm hname.1), ih hname.2]
    simp

theorem splitParams_descriptor (ht : t.hasValidNames = true) (current rest : List Char) :
    splitParams d current false (t.descriptor.toList ++ rest) =
      (splitParams d [] false rest).map (String.ofList (current ++ t.descriptor.toList) :: ·) := by
  induction t generalizing current with
  | array component ih =>
    rw [Ty.toList_descriptor_array, List.cons_append, splitParams, if_pos (by decide), ih ht]
    simp
  | _ =>
    obtain ⟨c, hc, hbracket, hmark, -, hsize⟩ | ⟨component, heq⟩ | ⟨name, hname, hchars⟩ :=
      Ty.descriptor_cases ht
    · rw [hc, List.singleton_append, splitParams, if_neg (by simpa using hbracket),
        if_neg (by simpa using hmark), if_pos (by simpa using hsize)]
    · cases heq
    · have hend : ';' ∉ name := fun hmem => absurd (hchars _ hmem) (by decide)
      rw [hname, List.cons_append, List.cons_append, List.append_assoc, List.singleton_append,
        splitParams, if_neg (by decide), if_pos (by decide), splitParams_name hend]
      simp

theorem splitParams_descriptors {params : List Ty} (h : ∀ t ∈ params, t.hasValidNames = true) :
    splitParams d [] false (params.flatMap (·.descriptor.toList)) =
      .ok (params.map Ty.descriptor) := by
  induction params with
  | nil => rfl
  | cons t params ih =>
    rw [List.flatMap_cons, splitParams_descriptor (h t (by simp)),
      ih fun u hu => h u (List.mem_cons_of_mem t hu)]
    simp [Except.map]

end Machine

theorem toList_methodDescriptor (params : List Ty) (result : Ty) :
    (methodDescriptor params result).toList =
      '(' :: (params.flatMap (·.descriptor.toList) ++ ')' :: result.descriptor.toList) := by
  simp [methodDescriptor, String.toList_join, List.flatMap_map]

namespace Machine

variable {params : List Ty} {result : Ty}

theorem paramDescriptors_methodDescriptor (h : ∀ t ∈ params, t.hasValidNames = true) :
    paramDescriptors (methodDescriptor params result) = .ok (params.map Ty.descriptor) := by
  have hparen : ∀ c ∈ params.flatMap (·.descriptor.toList), (c != ')') = true := by
    intro c hc
    obtain ⟨t, ht, hmem⟩ := List.mem_flatMap.1 hc
    rw [bne_iff_ne]
    rintro rfl
    exact Ty.notMem_descriptor (h t ht) (by decide) (by decide) hmem
  have htext : paramText? (methodDescriptor params result) =
      some (params.flatMap (·.descriptor.toList)) := by
    rw [paramText?, toList_methodDescriptor]
    simp [List.takeWhile_append_of_pos hparen]
  rw [paramDescriptors, htext]
  exact splitParams_descriptors h

theorem resultDescriptor_methodDescriptor (h : result.hasValidNames = true) :
    resultDescriptor (methodDescriptor params result) = .ok result.descriptor := by
  have hparen : ∀ c ∈ result.descriptor.toList.reverse, (c != ')') = true := by
    intro c hc
    rw [bne_iff_ne]
    rintro rfl
    exact Ty.notMem_descriptor h (by decide) (by decide) (List.mem_reverse.1 hc)
  rw [resultDescriptor, toList_methodDescriptor]
  simp [List.takeWhile_append_of_pos hparen]

end Machine

/-! ## Types of a registry -/

namespace Registry

/-- A type that can be had with the registry: one of the built-in types and
sentinels, a class that is declared, or the array type or class object of one. -/
def yields (r : Registry) : Ty → Bool
  | .object name => r.declares name
  | .array component => r.yields component
  | .metaOf base => r.yields base
  | _ => true

variable {calls : List Call}

theorem hasValidNames_of_yields (h : (after calls).yields t = true) : t.hasValidNames = true := by
  induction t with
  | object name => exact (after_formed calls).valid name h
  | array _ ih | metaOf _ ih => exact ih h
  | _ => rfl

theorem yields_of_spells (h : (after calls).spells t = true) : (after calls).yields t = true := by
  induction t with
  | object name => exact h
  | array component ih => exact ih h
  | void | prim => rfl
  | _ => cases h

theorem descriptor_injective_of_spells {u : Ty} (ht : (after calls).spells t = true)
    (hu : (after calls).spells u = true) (h : t.descriptor = u.descriptor) : t = u :=
  Ty.descriptor_injective ((after_formed calls).isPlain_of_spells ht)
    ((after_formed calls).isPlain_of_spells hu) (congrArg String.toList h)

theorem eq_of_map_descriptor {params others : List Ty}
    (hall : ∀ t ∈ params ++ others, (after calls).spells t = true)
    (h : params.map Ty.descriptor = others.map Ty.descriptor) : params = others := by
  induction params generalizing others with
  | nil => exact (List.map_eq_nil_iff.1 h.symm).symm
  | cons t params ih =>
    cases others with
    | nil => cases h
    | cons u others =>
      obtain ⟨hhead, htail⟩ := List.cons.inj h
      rw [descriptor_injective_of_spells (hall t (by simp)) (hall u (by simp)) hhead,
        ih (fun v hv => hall v (by grind)) htail]

/-- Whatever has been declared and defined, the machine reads the parameters and
the result of a method off its descriptor, and a descriptor stands for one
signature of plain types only. -/
theorem after_descriptors (calls : List Call) :
    (∀ params result, (∀ t ∈ params, (after calls).yields t = true) →
        (after calls).yields result = true →
      paramDescriptors (methodDescriptor params result) = .ok (params.map Ty.descriptor) ∧
      resultDescriptor (methodDescriptor params result) = .ok result.descriptor) ∧
    (∀ t u, (after calls).spells t = true → (after calls).spells u = true →
      t.descriptor = u.descriptor → t = u) ∧
    ∀ params others result other,
      (∀ t ∈ params ++ others, (after calls).spells t = true) →
      (after calls).spells result = true → (after calls).spells other = true →
      methodDescriptor params result = methodDescriptor others other →
      params = others ∧ result = other := by
  refine ⟨fun params result hparams hresult => ?_, fun t u => descriptor_injective_of_spells,
    fun params others result other hall hresult hother heq => ?_⟩
  · exact ⟨paramDescriptors_methodDescriptor fun t ht => hasValidNames_of_yields (hparams t ht),
      resultDescriptor_methodDescriptor (hasValidNames_of_yields hresult)⟩
  · have hvalid : ∀ t ∈ params ++ others, t.hasValidNames = true := fun t ht =>
      hasValidNames_of_yields (yields_of_spells (hall t ht))
    have hparams : params.map Ty.descriptor = others.map Ty.descriptor := by
      have hread := congrArg paramDescriptors heq
      rw [paramDescriptors_methodDescriptor fun t ht => hvalid t (List.mem_append_left _ ht),
        paramDescriptors_methodDescriptor fun t ht =>
          hvalid t (List.mem_append_right _ ht)] at hread
      exact Except.ok.inj hread
    have hresults : result.descriptor = other.descriptor := by
      have hread := congrArg resultDescriptor heq
      rw [resultDescriptor_methodDescriptor (hasValidNames_of_yields (yields_of_spells hresult)),
        resultDescriptor_methodDescriptor (hasValidNames_of_yields (yields_of_spells hother))]
        at hread
      exact Except.ok.inj hread
    exact ⟨eq_of_map_descriptor hall hparams,
      descriptor_injective_of_spells hresult hother hresults⟩

/-- A signature with every sort of type, over a class that is only declared. -/
theorem after_descriptors_declared :
    let params := [Ty.prim .long, .array (.array (.object "a.B")), .metaOf Ty.text, .null, .block]
    (∀ t ∈ params, (after [.declare "a.B"]).yields t = true) ∧
    (after [.declare "a.B"]).yields .unreachable = true ∧
    paramDescriptors (methodDescriptor params .unreachable) = .ok (params.map Ty.descriptor) ∧
    resultDescriptor (methodDescriptor params .unreachable) =
      .ok (Ty.descriptor .unreachable) := by
  have hyields : ∀ t ∈ [Ty.prim .long, .array (.array (.object "a.B")), .metaOf Ty.text, .null,
      .block], (after [.declare "a.B"]).yields t = true :=
    List.all_eq_true.1 rfl
  exact ⟨hyields, rfl, (after_descriptors [.declare "a.B"]).1 _ _ hyields rfl⟩

end Registry

end ClassBackend
