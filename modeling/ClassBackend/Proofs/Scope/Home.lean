import ClassBackend.Proofs.Scope.Walk

/-!
# The frame a node is at home in

A frame holds the slots of one scope and of the blocks in it. A node *fits* a
frame if it stands in the frame's scope or in such a block; definitions make
frames of their own and fit every frame. The parts of a node fit the frame that
they are emitted in, and a reference to an uncaptured local fits no frame but
the one of the scope that defines the local (`Node.Fits.home_eq`).
-/

namespace ClassBackend

/-- The node may be emitted in a frame of the scope `home`; outside of all
frames that is `none`. -/
def Node.Fits (table : ScopeTable) (items : List Item) (home : Option (Option ScopeId))
    (node : Node) : Prop :=
  ∃ around, node.outline around ⊆ items ∧ (node.kind.isDefinition = true ∨
    ∃ scope, table.scopeFor? around = some scope ∧
      home = some (some (table.definitionScope scope)))

section

variable {table : ScopeTable} {items : List Item} {home : Option (Option ScopeId)}
  {node part : Node}

namespace ScopeTable.Records

variable (hrecords : table.Records items)
include hrecords

theorem kindOf_scopeFor? {o : Opening} {id : ScopeId} (ho : .opening o ∈ items)
    (hid : table.scopeFor? o.owner = some id) :
    table.kindOf id = o.kind ∧ table.parent? id = o.around.bind table.scopeFor? := by
  obtain ⟨index, hindex⟩ := List.mem_iff_getElem?.1 (mem_openings.2 ho)
  obtain rfl := Option.some.inj
    (hid.symm.trans (hrecords.scopeFor?_eq_some.2 ⟨o, hindex, rfl⟩))
  obtain ⟨hkind, hparent, -⟩ := hrecords.shape hindex
  exact ⟨hkind, hparent⟩

theorem exists_frame {o : Opening} (ho : .opening o ∈ items) (hkind : o.kind ≠ .block) :
    ∃ id, table.scopeFor? o.owner = some id ∧ table.definitionScope id = id := by
  obtain ⟨id, hid⟩ := hrecords.exists_scopeFor? ho
  have hkindOf := (hrecords.kindOf_scopeFor? ho hid).1
  exact ⟨id, hid, definitionScope_eq_self (hkindOf.symm ▸ hkind)⟩

theorem definitionScope_block {owner around : NodeId} {names : List String}
    {outer : ScopeId} (ho : .opening ⟨owner, .block, some around, names⟩ ∈ items)
    (houter : table.scopeFor? around = some outer) :
    ∃ id, table.scopeFor? owner = some id ∧
      table.definitionScope id = table.definitionScope outer := by
  obtain ⟨id, hid⟩ := hrecords.exists_scopeFor? ho
  obtain ⟨hkind, hparent⟩ := hrecords.kindOf_scopeFor? ho hid
  refine ⟨id, hid, definitionScope_eq_of_climbs hrecords.nested (hrecords.scopeFor?_lt hid)
    (.up (hparent.trans houter) (.here outer)) fun k hk => ?_⟩
  obtain rfl := List.mem_singleton.1 hk
  exact hkind

end ScopeTable.Records

namespace Node.Fits

variable {name : String} {scope : ScopeId}

theorem of_isDefinition (h : node.Fits table items home) (hkind : node.kind.isDefinition = true)
    (other : Option (Option ScopeId)) : node.Fits table items other := by
  obtain ⟨around, hsub, -⟩ := h
  exact ⟨around, hsub, .inl hkind⟩

theorem exists_opening {main : Node} {clauses : List RescueClause} {elseClause : Option Node}
    {clause : RescueClause} (h : node.Fits table items home)
    (hkind : node.kind = .rescue main clauses elseClause) (hclause : clause ∈ clauses) :
    ∃ around, .opening ⟨clause.id, .block, some around, clause.name.toList⟩ ∈ items ∧
      ∃ outer, table.scopeFor? around = some outer ∧
        home = some (some (table.definitionScope outer)) := by
  obtain ⟨around, hsub, hstands⟩ := h
  obtain ⟨id, span, kind⟩ := node
  obtain rfl := hkind
  obtain hdefinition | houter := hstands
  · cases hdefinition
  rw [Node.outline, NodeKind.outline] at hsub
  exact ⟨around, hsub (List.mem_append_left _ (List.mem_append_right _
    (outline_subset_clauses hclause List.mem_cons_self))), houter⟩

variable (hrecords : table.Records items)
include hrecords

theorem of_mem_children (h : node.Fits table items home) (hplain : node.kind.isPlain = true)
    (hpart : part ∈ node.children) : part.Fits table items home := by
  obtain ⟨around, hsub, hstands⟩ := h
  obtain ⟨inner, hinner, hplace⟩ := exists_outline_of_mem_children hplain hsub hpart
  rcases hstands with hkind | ⟨scope, hscope, rfl⟩
  · -- of the definitions only fields are plain, and these have no parts
    obtain ⟨id, span, kind⟩ := node
    cases kind <;> simp [NodeKind.isDefinition, NodeKind.isPlain] at hkind hplain
    cases hpart
  · refine ⟨inner, hinner, .inr ?_⟩
    rcases hplace with rfl | ⟨names, hopening⟩
    · exact ⟨scope, hscope, rfl⟩
    · obtain ⟨id, hid, heq⟩ := hrecords.definitionScope_block hopening hscope
      exact ⟨id, hid, by rw [heq]⟩

/-- What stands in a scope that is no block fits the frame of the scope. -/
theorem of_opening {owner : NodeId} {kind : ScopeKind} {around : Option NodeId}
    {names : List String} (hopening : .opening ⟨owner, kind, around, names⟩ ∈ items)
    (hkind : kind ≠ .block) (hsub : part.outline owner ⊆ items) :
    part.Fits table items (some (table.scopeFor? owner)) := by
  obtain ⟨id, hid, heq⟩ := hrecords.exists_frame hopening hkind
  refine ⟨owner, hsub, .inr ⟨id, hid, ?_⟩⟩
  rw [heq]
  exact congrArg some hid

theorem of_definition (h : node.Fits table items home) (hplain : node.kind.isPlain = false)
    (hclosure : ∀ definition, node.kind ≠ .closureDef definition) (hpart : part ∈ node.children) :
    part.Fits table items (some (table.scopeFor? node.id)) := by
  obtain ⟨around, hsub, -⟩ := h
  obtain ⟨⟨names, hopening⟩, hparts⟩ := outline_subset_of_definition hplain hclosure hsub
  exact of_opening hrecords hopening (by decide) (hparts part hpart)

omit hrecords in
theorem of_script {script : Node} {statements : List Node}
    (hkind : script.kind = .script statements)
    (hrecords : table.Records (script.outline script.id)) : ∀ part ∈ statements,
      part.Fits table (script.outline script.id) (some (table.scopeFor? script.id)) := by
  intro part hpart
  obtain ⟨⟨names, hopening⟩, hparts⟩ := outline_subset_of_definition (by rw [hkind]; rfl)
    (by rw [hkind]; nofun) (List.Subset.refl (script.outline script.id))
  refine of_opening hrecords hopening (by decide) (hparts part ?_)
  rwa [Node.children, hkind]

/-- The parts of the methods of a closure fit the frames of these methods. -/
theorem of_closure {definition : ClosureDef} {method : Node} {inner : MethodDef}
    (h : node.Fits table items home) (hkind : node.kind = .closureDef definition)
    (hmethod : method ∈ definition.methods) (hinner : method.kind = .methodDef inner)
    (hpart : part ∈ Argument.defaults inner.args ++ inner.body.toList) :
    part.Fits table items (some (table.scopeFor? method.id)) := by
  obtain ⟨around, hsub, -⟩ := h
  obtain ⟨id, span, kind⟩ := node
  obtain rfl := hkind
  obtain ⟨name, interfaces, methods⟩ := definition
  rw [Node.outline, NodeKind.outline] at hsub
  obtain ⟨hopening, hparts⟩ := List.cons_subset.1
    (List.Subset.trans (outline_subset_closure hinner hmethod) hsub)
  exact of_opening hrecords hopening (by decide) (MethodDef.outline_subset_of_mem hparts hpart)

/-- A reference fits the frame of the scope that it stands in. From there no
method is left on the way to the scope of the local, and a closure only if the
local is captured. -/
theorem exists_climbs (h : node.Fits table items home) (hname : node.localName? = some name)
    (hscope : table.definingScope? node.id = some scope) :
    ∃ start left, home = some (some (table.definitionScope start)) ∧
      start < table.scopes.size ∧ table.Climbs start left scope ∧
      ∀ k ∈ left, table.kindOf k ≠ .method ∧
        (table.kindOf k = .closure → table.isCaptured scope name = true) := by
  obtain ⟨around, hsub, hstands⟩ := h
  obtain ⟨hdefinition, hmem⟩ := reference_mem_outline hname around
  obtain hkind | ⟨start, hstart, rfl⟩ := hstands
  · exact absurd (hdefinition.symm.trans hkind) Bool.false_ne_true
  obtain ⟨before, after, heq⟩ := List.append_of_mem (hsub hmem)
  obtain ⟨start', left, scope', hstart', hscope', hclimbs, -, hpasses, -⟩ := hrecords.resolves heq
  cases hstart.symm.trans hstart'
  cases hscope.symm.trans hscope'
  refine ⟨start, left, rfl, hrecords.scopeFor?_lt hstart, hclimbs, fun k hk =>
    ⟨(hpasses k hk).1, fun hclosure => hrecords.captures.2 ?_⟩⟩
  exact ⟨_, start, left, hsub hmem, rfl, hscope, hstart, hclimbs, k, hk, hclosure⟩

/-- A reference to an uncaptured local only fits the frame of the scope that
defines the local. -/
theorem home_eq (h : node.Fits table items home) (hname : node.localName? = some name)
    (hscope : table.definingScope? node.id = some scope)
    (huncaptured : table.isCaptured scope name = false) :
    home = some (some (table.definitionScope scope)) := by
  obtain ⟨start, left, rfl, hstart, hclimbs, hleft⟩ := h.exists_climbs hrecords hname hscope
  -- no closure is left on the way to the scope, so only blocks are
  rw [ScopeTable.definitionScope_eq_of_climbs hrecords.nested hstart hclimbs fun k hk => ?_]
  cases hkind : table.kindOf k with
  | block => rfl
  | method => exact absurd hkind (hleft k hk).1
  | closure => exact absurd ((hleft k hk).2 hkind) (Bool.eq_false_iff.1 huncaptured)

/-- A reference only fits the frames of the activation that the local belongs
to. -/
theorem rootOf_eq {frame : ScopeId} (h : node.Fits table items (some (some frame)))
    (hname : node.localName? = some name) (hscope : table.definingScope? node.id = some scope) :
    table.rootOf frame = table.rootOf scope := by
  obtain ⟨start, left, hhome, hstart, hclimbs, hleft⟩ := h.exists_climbs hrecords hname hscope
  cases hhome
  rw [ScopeTable.rootOf_definitionScope hrecords.nested hstart,
    ScopeTable.rootOf_eq_of_climbs hrecords.nested hstart hclimbs fun k hk => (hleft k hk).1]

/-- A rescue only fits the frame that its clauses share with the scope around
them. -/
theorem clause_home_eq {main : Node} {clauses : List RescueClause} {elseClause : Option Node}
    {clause : RescueClause} (h : node.Fits table items home)
    (hkind : node.kind = .rescue main clauses elseClause) (hclause : clause ∈ clauses)
    (hscope : table.scopeFor? clause.id = some scope) :
    home = some (some (table.definitionScope scope)) := by
  obtain ⟨around, hopening, outer, houter, rfl⟩ := h.exists_opening hkind hclause
  obtain ⟨id, hid, heq⟩ := hrecords.definitionScope_block hopening houter
  cases hscope.symm.trans hid
  rw [heq]

end Node.Fits

end

end ClassBackend
