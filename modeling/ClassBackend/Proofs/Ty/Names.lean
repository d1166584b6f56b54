import ClassBackend.Ty.Registry

/-!
# Spellings of types

A type made of primitives, `void` and classes of valid names by array brackets is
known by any of its three spellings: its name, its descriptor and, if it is a
class or an array, its internal name.
-/

namespace ClassBackend

namespace Naming

variable {name : String}

theorem toDotted_toInternal (h : '/' ∉ name.toList) : toDotted (toInternal name) = name := by
  rw [toDotted, toInternal, replaceChar, replaceChar, String.toList_ofList, List.map_map]
  have hsame : ∀ c ∈ name.toList,
      ((fun c => if c == '/' then '.' else c) ∘ fun c => if c == '.' then '/' else c) c = id c := by
    intro c hc
    have hslash : c ≠ '/' := fun heq => h (heq ▸ hc)
    by_cases hdot : c = '.'
    · simp [hdot]
    · simp [hdot, hslash]
  rw [List.map_congr_left hsame, List.map_id, String.ofList_toList]

/-- The characters of an ASCII text, one for each byte: unlike `toList`, this
evaluates fast. -/
def asciiChars (text : String) : List Char :=
  text.toByteArray.data.toList.map fun byte => Char.ofNat byte.toNat

def isAscii (text : String) : Bool :=
  text == String.ofList (asciiChars text)

theorem toList_of_isAscii {text : String} (h : isAscii text = true) :
    text.toList = asciiChars text := by
  rw [← String.toList_ofList (l := asciiChars text), ← eq_of_beq h]

def asciiInternal (name : String) : String :=
  String.ofList ((asciiChars name).map fun c => if c == '.' then '/' else c)

theorem toInternal_of_isAscii (h : isAscii name = true) : toInternal name = asciiInternal name := by
  rw [toInternal, replaceChar, toList_of_isAscii h]
  rfl

theorem toInternal_injective {other : String} (h : '/' ∉ name.toList) (hother : '/' ∉ other.toList)
    (heq : toInternal name = toInternal other) : name = other := by
  have hdotted := congrArg toDotted heq
  rwa [toDotted_toInternal h, toDotted_toInternal hother] at hdotted

theorem isIdentRest_of_mem_isDotted {atStart : Bool} {chars : List Char}
    (h : isDotted atStart chars = true) : ∀ c ∈ chars, isIdentRest c = true ∨ c = '.' := by
  induction chars generalizing atStart with
  | nil => simp
  | cons c rest ih =>
    cases atStart with
    | true =>
      rw [isDotted, Bool.and_eq_true] at h
      exact List.forall_mem_cons.2 ⟨.inl (by simp [isIdentRest, h.1]), ih h.2⟩
    | false =>
      rw [isDotted] at h
      split at h
      · rename_i hdot
        exact List.forall_mem_cons.2 ⟨.inr (eq_of_beq hdot), ih h⟩
      · rw [Bool.and_eq_true] at h
        exact List.forall_mem_cons.2 ⟨.inl h.1, ih h.2⟩

theorem stripPairs_of_getLast? {name : List Char} (h : name.getLast? ≠ some ']') :
    stripPairs name.reverse = (0, name.reverse) := by
  rw [← List.head?_reverse] at h
  cases hlast : name.reverse with
  | nil => rfl
  | cons c rest =>
    rw [hlast] at h
    unfold stripPairs
    split
    · rename_i heq
      rw [heq] at h
      exact absurd rfl h
    · rfl

theorem arraySuffix?_eq_none (h : name.toList.getLast? ≠ some ']') :
    arraySuffix? name = none := by
  rw [arraySuffix?, stripPairs_of_getLast? h]
  rfl

end Naming

/-- The type is a class of this name, or is spelled like one. -/
structure Ty.GoesBy (t : Ty) (spelling : String) : Prop where
  name : t.name = spelling
  isMeta : t.isMeta = false
  internalName : t.internalName = Naming.toInternal spelling

namespace Registry

variable {name : String} {r : Registry} {t : Ty}

/-- Made of `void`, primitives and declared classes by array brackets. -/
def spells (r : Registry) : Ty → Bool
  | .void | .prim _ => true
  | .object name => r.declares name
  | .array component => r.spells component
  | _ => false

theorem goesBy_of_getPlain (h : r.getPlain name = .ok t) : t.GoesBy name ∧ r.spells t = true := by
  unfold getPlain at h
  split at h
  · rename_i hvoid
    cases h
    obtain rfl := beq_iff_eq.1 hvoid
    exact ⟨⟨rfl, rfl, rfl⟩, rfl⟩
  split at h
  · rename_i p hp
    cases h
    have hname := List.find?_some hp
    obtain rfl := beq_iff_eq.1 hname
    exact ⟨⟨rfl, rfl, rfl⟩, rfl⟩
  split at h
  · rename_i hdeclares
    cases h
    exact ⟨⟨rfl, rfl, rfl⟩, hdeclares⟩
  · cases h

theorem goesBy_of_get (hlast : name.toList.getLast? ≠ some ']') (h : r.get name = .ok t) :
    t.GoesBy name := by
  rw [get, Naming.arraySuffix?_eq_none hlast] at h
  exact (goesBy_of_getPlain h).1

theorem spells_of_get (h : r.get name = .ok t) : r.spells t = true := by
  have hdepth : ∀ depth t, r.spells t = true → r.spells (t.arrayOfDepth depth) = true := by
    intro depth t ht
    induction depth with
    | zero => exact ht
    | succ depth ih => exact ih
  unfold get at h
  split at h
  · rename_i base depth _
    cases hbase : r.getPlain base with
    | error fault => rw [hbase] at h; cases h
    | ok t =>
      rw [hbase] at h
      cases h
      exact hdepth depth t (goesBy_of_getPlain hbase).2
  · exact (goesBy_of_getPlain h).2

theorem notMem_of_validName {c : Char} (h : validName name = true)
    (hc : Naming.isIdentRest c = false) (hdot : c ≠ '.') : c ∉ name.toList := by
  rw [validName, Bool.and_eq_true, Bool.and_eq_true] at h
  intro hmem
  rcases Naming.isIdentRest_of_mem_isDotted h.1.1 c hmem with hrest | hdotted
  · rw [hc] at hrest
    cases hrest
  · exact hdot hdotted

end Registry

namespace Ty

variable {t u : Ty}

/-- Made of primitives, `void` and classes of valid names by array brackets. -/
def isPlain : Ty → Bool
  | .void | .prim _ => true
  | .object name => Registry.validName name
  | .array component => component.isPlain
  | _ => false

def isReference : Ty → Bool
  | .object _ | .array _ => true
  | _ => false

theorem toList_descriptor_object (name : String) :
    (Ty.object name).descriptor.toList = 'L' :: (Naming.toInternal name).toList ++ [';'] := by
  simp [descriptor, plainInternal, Ty.name]

theorem toList_descriptor_array (component : Ty) :
    (Ty.array component).descriptor.toList = '[' :: component.descriptor.toList := by
  simp [descriptor]

theorem toList_descriptor_prim (p : Primitive) :
    (Ty.prim p).descriptor.toList = [p.descriptor] := by
  simp [descriptor]

theorem descriptor_injective (ht : t.isPlain = true) (hu : u.isPlain = true)
    (h : t.descriptor.toList = u.descriptor.toList) : t = u := by
  induction t generalizing u with
  | void =>
    cases u with
    | void => rfl
    | prim q => cases q <;> cases h
    | object name => rw [toList_descriptor_object] at h; cases h
    | array component => rw [toList_descriptor_array] at h; cases h
    | _ => cases hu
  | prim p =>
    cases u with
    | void => cases p <;> cases h
    | prim q => cases p <;> cases q <;> first | rfl | cases h
    | object name => rw [toList_descriptor_object] at h; cases p <;> cases h
    | array component => rw [toList_descriptor_array] at h; cases p <;> cases h
    | _ => cases hu
  | object name =>
    rw [toList_descriptor_object] at h
    cases u with
    | void => cases h
    | prim q => cases q <;> cases h
    | object other =>
      rw [toList_descriptor_object] at h
      have hchars := List.append_cancel_right (List.cons.inj h).2
      rw [Naming.toInternal_injective (Registry.notMem_of_validName ht (by decide) (by decide))
        (Registry.notMem_of_validName hu (by decide) (by decide)) (String.toList_inj.1 hchars)]
    | array component => rw [toList_descriptor_array] at h; cases h
    | _ => cases hu
  | array component ih =>
    rw [toList_descriptor_array] at h
    cases u with
    | void => cases h
    | prim q => cases q <;> cases h
    | object other => rw [toList_descriptor_object] at h; cases h
    | array other =>
      rw [toList_descriptor_array] at h
      rw [ih ht (u := other) hu (List.cons.inj h).2]
    | _ => cases hu
  | _ => cases ht

theorem notMem_name (ht : t.isPlain = true) (harray : t.isArray = false) {c : Char}
    (hc : Naming.isIdentRest c = false) (hdot : c ≠ '.') : c ∉ t.name.toList := by
  have hbuiltin : ∀ {chars : List Char}, chars.all Naming.isIdentRest = true → c ∉ chars := by
    intro chars hall hmem
    rw [List.all_eq_true.1 hall c hmem] at hc
    cases hc
  cases t with
  | void => exact hbuiltin (by decide)
  | prim p => cases p <;> exact hbuiltin (by decide)
  | object name => exact Registry.notMem_of_validName ht hc hdot
  | array component => cases harray
  | _ => cases ht

theorem bracket_mem_name_iff (ht : t.isPlain = true) : ']' ∈ t.name.toList ↔ t.isArray = true := by
  cases harray : t.isArray with
  | false => simpa using notMem_name ht harray (by decide) (by decide)
  | true =>
    cases t with
    | array component => simp [Ty.name]
    | _ => cases harray

/-- No valid class name is that of a primitive or `void`. -/
theorem name_ne_of_validName {name : String} (h : Registry.validName name = true)
    (ht : t.isPrimitive = true ∨ t.isVoid = true) : t.name ≠ name := by
  rw [Registry.validName, Bool.and_eq_true, Bool.and_eq_true] at h
  rintro rfl
  cases t with
  | void => exact absurd h.2 (by decide)
  | prim p => cases p <;> exact absurd h.1.2 (by decide)
  | _ => simp [isPrimitive, isVoid, primitive?] at ht

theorem name_injective (ht : t.isPlain = true) (hu : u.isPlain = true) (h : t.name = u.name) :
    t = u := by
  have harrays : t.isArray = true ↔ u.isArray = true := by
    rw [← bracket_mem_name_iff ht, ← bracket_mem_name_iff hu, h]
  induction t generalizing u with
  | void =>
    cases u with
    | void => rfl
    | prim q => cases q <;> exact absurd h (by decide)
    | object name => exact absurd h (name_ne_of_validName hu (.inr rfl))
    | array component => cases harrays.2 rfl
    | _ => cases hu
  | prim p =>
    cases u with
    | void => cases p <;> exact absurd h (by decide)
    | prim q => cases p <;> cases q <;> first | rfl | exact absurd h (by decide)
    | object name => exact absurd h (name_ne_of_validName hu (.inl rfl))
    | array component => cases harrays.2 rfl
    | _ => cases hu
  | object name =>
    cases u with
    | void => exact absurd h.symm (name_ne_of_validName ht (.inr rfl))
    | prim q => exact absurd h.symm (name_ne_of_validName ht (.inl rfl))
    | object other => exact congrArg Ty.object h
    | array component => cases harrays.2 rfl
    | _ => cases hu
  | array component ih =>
    cases u with
    | array other =>
      have hcomponent : component.name = other.name :=
        String.append_left_inj _ |>.1 h
      refine congrArg Ty.array (ih ht hu hcomponent ?_)
      rw [← bracket_mem_name_iff (t := component) ht, ← bracket_mem_name_iff (t := other) hu,
        hcomponent]
    | void | prim | object => cases harrays.1 rfl
    | _ => cases hu
  | _ => cases ht

theorem same_iff (ht : t.isPlain = true) (hu : u.isPlain = true) : t.same u = true ↔ t = u := by
  rw [same, Bool.and_eq_true, beq_iff_eq, beq_iff_eq]
  exact ⟨fun h => name_injective ht hu h.1, fun h => ⟨congrArg name h, congrArg isMeta h⟩⟩

theorem internalName_array (component : Ty) :
    (Ty.array component).internalName = (Ty.array component).descriptor := rfl

theorem internalName_object (name : String) :
    (Ty.object name).internalName = Naming.toInternal name := rfl

theorem internalName_eq_toInternal (ht : t.isPlain = true) (harray : t.isArray = false) :
    t.internalName = Naming.toInternal t.name := by
  cases t with
  | array component => cases harray
  | void | prim | object => rfl
  | _ => cases ht

theorem head?_internalName (ht : t.isPlain = true) :
    t.internalName.toList.head? = some '[' ↔ t.isArray = true := by
  cases harray : t.isArray with
  | false =>
    rw [internalName_eq_toInternal ht harray, Naming.toInternal, Naming.replaceChar,
      String.toList_ofList]
    refine ⟨fun h => ?_, fun h => by cases h⟩
    obtain ⟨c, hc, heq⟩ := List.mem_map.1 (List.mem_of_head? h)
    split at heq
    · cases heq
    · exact absurd (heq ▸ hc) (notMem_name ht harray (by decide) (by decide))
  | true =>
    cases t with
    | array component => simp [internalName_array, toList_descriptor_array]
    | _ => cases harray

theorem internalName_injective (ht : t.isPlain = true) (hu : u.isPlain = true)
    (h : t.internalName = u.internalName) : t = u := by
  have harrays : t.isArray = u.isArray := by
    rw [Bool.eq_iff_iff, ← head?_internalName ht, ← head?_internalName hu, h]
  cases harray : t.isArray with
  | false =>
    have harray' := harrays.symm.trans harray
    rw [internalName_eq_toInternal ht harray, internalName_eq_toInternal hu harray'] at h
    exact name_injective ht hu (Naming.toInternal_injective
      (notMem_name ht harray (by decide) (by decide))
      (notMem_name hu harray' (by decide) (by decide)) h)
  | true =>
    rw [internalName, internalName, if_pos harray, if_pos (harrays.symm.trans harray)] at h
    exact descriptor_injective ht hu (congrArg String.toList h)

end Ty

end ClassBackend
