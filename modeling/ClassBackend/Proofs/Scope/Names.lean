import ClassBackend.Proofs.Scope.Consistency

/-!
# The names of generated classes

The class of a script and the binding classes are the only ones that a script
does not name itself. Binding classes are numbered, so that no two of them have
one name (`ScopeTable.eq_of_internalName_eq`), and none of them has the name of
a script class.
-/

namespace ClassBackend

namespace Naming

def binding (className : String) (number : Nat) : String :=
  className ++ "$Binding" ++ toString number

variable (className : String) (number : Nat)

theorem toList_binding : (binding className number).toList =
      className.toList ++ "$Bindin".toList ++ 'g' :: Nat.toDigits 10 number := by
  simp [binding]

theorem toList_toInternal (name : String) :
    (toInternal name).toList = name.toList.map fun c => if c == '.' then '/' else c := by
  rw [toInternal, replaceChar, String.toList_ofList]

theorem isDigit_of_mem_toDigits {c : Char} {n : Nat} (h : c ∈ Nat.toDigits 10 n) :
    c.isDigit = true := Nat.isDigit_of_mem_toDigits (by decide) (by decide) h

theorem getLast?_binding : (binding className number).toList.getLast? ≠ some ']' := by
  intro h
  rw [toList_binding, List.getLast?_append, List.getLast?_cons, Option.some_or,
    Option.some_inj] at h
  cases hlast : (Nat.toDigits 10 number).getLast? with
  | none =>
    rw [hlast] at h
    exact absurd h (by decide)
  | some c =>
    rw [hlast] at h
    have hdigit := isDigit_of_mem_toDigits (List.mem_of_getLast? hlast)
    rw [show c = ']' from h] at hdigit
    cases hdigit

theorem toList_toInternal_binding : (toInternal (binding className number)).toList =
      (toInternal (className ++ "$Bindin")).toList ++ 'g' :: Nat.toDigits 10 number := by
  have hdigits : (Nat.toDigits 10 number).map (fun c => if c == '.' then '/' else c) =
      Nat.toDigits 10 number := by
    refine (List.map_congr_left fun c hc => if_neg fun hdot => ?_).trans (List.map_id _)
    rw [beq_iff_eq.1 hdot] at hc
    cases isDigit_of_mem_toDigits hc
  rw [toList_toInternal, toList_toInternal, toList_binding, List.map_append, List.map_cons,
    hdigits, String.toList_append]
  rfl

theorem number_eq_of_toInternal_eq {c d : String} {m n : Nat}
    (h : toInternal (binding c m) = toInternal (binding d n)) : m = n := by
  have hletter : ∀ k : Nat, 'g' ∉ Nat.toDigits 10 k := fun k hmem => by
    cases isDigit_of_mem_toDigits hmem
  have hlist := congrArg String.toList h
  rw [toList_toInternal_binding, toList_toInternal_binding] at hlist
  obtain ⟨-, hnumber⟩ := eq_of_append_cons_eq hlist (hletter m) (hletter n)
  simpa [Nat.ofDigitChars_toDigits] using congrArg (Nat.ofDigitChars 10 · 0) hnumber

theorem toInternal_scriptClass (file : String) :
    toInternal (scriptClass file) = scriptClass file := by
  rw [← String.toList_inj, toList_toInternal]
  refine (List.map_congr_left fun c hc => if_neg fun hdot => ?_).trans (List.map_id _)
  rw [beq_iff_eq.1 hdot] at hc
  cases isAlphanum_of_mem_scriptClass hc

theorem toInternal_binding_ne_scriptClass (c file : String) (n : Nat) :
    toInternal (binding c n) ≠ scriptClass file := by
  intro h
  have hmem : '$' ∈ (toInternal (binding c n)).toList := by
    rw [toList_toInternal, toList_binding]
    exact List.mem_map.2 ⟨'$', by simp, rfl⟩
  rw [h] at hmem
  cases isAlphanum_of_mem_scriptClass hmem

end Naming

namespace ScopeTable

/-- A binding class that a scope was given is numbered by the place of the scope
among those that are to get one. -/
theorem exists_goesBy_of_assignBindings {table later : ScopeTable} {registry registry' : Registry}
    (h : table.assignBindings registry = .ok (registry', later)) {id : ScopeId} {scope : Scope}
    {t : Ty} (hscope : later.scope? id = some scope) (hbinding : scope.binding = some t) :
    (∃ known, table.scope? id = some known ∧ known.binding = some t) ∨
      ∃ index className, (id, index) ∈ table.capturingRoots.zipIdx ∧
        t.GoesBy (Naming.binding className (index + 1)) := by
  revert id scope t
  refine assignBindings_induction (motive := fun roots table later => ∀ {id scope t},
    later.scope? id = some scope → scope.binding = some t →
    (∃ known, table.scope? id = some known ∧ known.binding = some t) ∨
      ∃ index className, (id, index) ∈ roots ∧ t.GoesBy (Naming.binding className (index + 1)))
    (fun _ {id scope t} hscope hbinding => .inl ⟨scope, hscope, hbinding⟩)
    (fun {root index roots table later className _ _ binding} hfound ih
      {id scope t} hscope hbinding => ?_) h
  rcases ih hscope hbinding with ⟨known, hknown, hsome⟩ | ⟨i, name, hmem, hname⟩
  · rw [scope?, ScopeTable.modify, Array.getElem?_modify] at hknown
    split at hknown
    · rename_i heq
      obtain ⟨old, -, rfl⟩ := Option.map_eq_some_iff.1 hknown
      cases hsome
      exact .inr ⟨index, className, heq ▸ List.mem_cons_self,
        goesBy_of_lookedUp (Naming.getLast?_binding _ _) hfound⟩
    · exact .inl ⟨known, hknown, hsome⟩
  · exact .inr ⟨i, name, List.mem_cons_of_mem _ hmem, hname⟩

variable {mainClass : String} {script : Node} {statements : List Node} {types : TypeMap}
  {registry registry' : Registry} {table : ScopeTable}

/-- The binding classes of a script are numbered by the scopes that have them. -/
theorem exists_goesBy_of_analyze (hkind : script.kind = .script statements)
    (h : analyze mainClass script types registry = .ok (registry', table)) :
    ∃ roots : List ScopeId, ∀ {id scope t}, table.scope? id = some scope →
      scope.binding = some t → ∃ index className, roots[index]? = some id ∧
        t.GoesBy (Naming.binding className (index + 1)) := by
  obtain ⟨⟨_, walk⟩, hvisit, hassign⟩ := WalkM.orFault_bind_eq_ok.1 h
  have hunassigned : walk.table.Unassigned :=
    (((complaining_rules types).visitScript hkind 0 _ nofun).2 _ _ hvisit).2 (by simp [Unassigned])
  refine ⟨walk.table.capturingRoots, fun {id scope t} hscope hbinding => ?_⟩
  rcases exists_goesBy_of_assignBindings hassign hscope hbinding with
    ⟨known, hknown, hsome⟩ | ⟨index, className, hmem, hname⟩
  · rw [hunassigned known (Array.mem_of_getElem? hknown)] at hsome
    cases hsome
  · exact ⟨index, className, List.mk_mem_zipIdx_iff_getElem?.1 hmem, hname⟩

theorem eq_of_internalName_eq (hkind : script.kind = .script statements)
    (h : analyze mainClass script types registry = .ok (registry', table)) {t u : Ty}
    (ht : t ∈ table.bindingTypes) (hu : u ∈ table.bindingTypes)
    (heq : t.internalName = u.internalName) : t = u := by
  obtain ⟨roots, hroots⟩ := exists_goesBy_of_analyze hkind h
  obtain ⟨id, scope, hscope, hbinding⟩ := mem_bindingTypes.1 ht
  obtain ⟨id', scope', hscope', hbinding'⟩ := mem_bindingTypes.1 hu
  obtain ⟨index, className, hindex, hname⟩ := hroots hscope hbinding
  obtain ⟨index', className', hindex', hname'⟩ := hroots hscope' hbinding'
  rw [hname.internalName, hname'.internalName] at heq
  obtain rfl : index = index' := by
    have hnumber := Naming.number_eq_of_toInternal_eq heq
    omega
  cases hindex.symm.trans hindex'
  cases hscope.symm.trans hscope'
  exact Option.some.inj (hbinding.symm.trans hbinding')

theorem internalName_ne_scriptClass (hkind : script.kind = .script statements)
    (h : analyze mainClass script types registry = .ok (registry', table)) {t : Ty}
    (ht : t ∈ table.bindingTypes) (file : String) : t.internalName ≠ Naming.scriptClass file := by
  obtain ⟨roots, hroots⟩ := exists_goesBy_of_analyze hkind h
  obtain ⟨id, scope, hscope, hbinding⟩ := mem_bindingTypes.1 ht
  obtain ⟨index, className, -, hname⟩ := hroots hscope hbinding
  rw [hname.internalName]
  exact Naming.toInternal_binding_ne_scriptClass _ _ _

end ScopeTable

theorem Program.internalName_of_defineMain {program : Program} {file : String} {registry : Registry}
    {mainType : Ty} (h : program.defineMain (Naming.scriptClass file) = .ok (registry, mainType)) :
    mainType.internalName = Naming.scriptClass file := by
  rw [(goesBy_of_defineMain h).internalName, Naming.toInternal_scriptClass]

end ClassBackend
