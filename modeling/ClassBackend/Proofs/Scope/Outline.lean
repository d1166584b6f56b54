import ClassBackend.Proofs.Tree.Size
import ClassBackend.Scope.Analysis

/-!
# The outline of a script

What scope analysis can see of a tree: the nodes that open scopes and the nodes
that refer to locals, in the order in which they are visited, each with the
node whose scope it stands in. The outline is computed from the tree alone; no
scope table is involved.
-/

namespace ClassBackend

variable {definition : MethodDef}

structure Opening where
  owner : NodeId
  kind : ScopeKind
  around : Option NodeId
  /-- The locals that the scope starts with. -/
  names : List String
  deriving DecidableEq

/-- A declaration of, access to or assignment of a local. -/
structure Reference where
  node : NodeId
  name : String
  around : NodeId
  deriving DecidableEq

inductive Item where
  | opening (o : Opening)
  | reference (r : Reference)
  deriving DecidableEq

mutual

/-- The outline of a node that stands in the scope of `around`. Definitions of
methods and classes stand on their own. -/
def Node.outline (around : NodeId) : Node → List Item
  | ⟨id, _, kind⟩ => kind.outline around id

def NodeKind.outline (around id : NodeId) : NodeKind → List Item
  | .script statements =>
    .opening { owner := id, kind := .method, around := none, names := ["argv"] } ::
      outlineAll id statements
  | .classDef ⟨_, _, _, _, members⟩ =>
    .opening { owner := id, kind := .method, around := none, names := [] } ::
      outlineAll id members
  | .methodDef ⟨_, args, code, _, _, _⟩ =>
    .opening { owner := id, kind := .method, around := none, names := args.map (·.name) } ::
      (outlineDefaults id args ++ outlineOption id code)
  | .constructorDef ⟨args, code, delegate⟩ =>
    .opening { owner := id, kind := .method, around := none, names := args.map (·.name) } ::
      (outlineDefaults id args ++ outlineDelegation id delegate ++ outlineOption id code)
  | .closureDef ⟨_, _, methods⟩ => outlineClosure around methods
  | .rescue main clauses elseClause =>
    main.outline around ++ outlineClauses around clauses ++ outlineOption around elseClause
  | .localDecl name | .localAccess name => [.reference { node := id, name, around }]
  | .localAssign name value => value.outline around ++ [.reference { node := id, name, around }]
  | .body nodes | .concat nodes | .array nodes => outlineAll around nodes
  | .ifElse condition main elseBody =>
    condition.outline around ++ outlineOption around main ++ outlineOption around elseBody
  | .loop ⟨init, condition, pre, main, post, _, _⟩ =>
    outlineAll around init ++ condition.outline around ++ outlineAll around pre ++
      outlineOption around main ++ outlineAll around post
  | .return value => outlineOption around value
  | .raise value | .cast value | .eval value | .emptyArray value => value.outline around
  | .ensure main clause => main.outline around ++ clause.outline around
  | .call target _ args => target.outline around ++ outlineAll around args
  | .selfCall _ args | .superCall _ args | .print _ args => outlineAll around args
  | .fieldAssign _ value _ _ => value.outline around
  | .fixnum _ | .float _ | .char _ | .text _ | .boolean _ | .null | .regex _ => []
  | .selfRef | .typeRef _ | .bindingRef | .break | .next | .redo => []
  | .fieldDecl _ | .fieldAccess .. => []

def outlineAll (around : NodeId) : List Node → List Item
  | [] => []
  | node :: rest => node.outline around ++ outlineAll around rest

def outlineOption (around : NodeId) : Option Node → List Item
  | none => []
  | some node => node.outline around

def outlineClosure (around : NodeId) : List Node → List Item
  | [] => []
  | ⟨id, _, .methodDef ⟨_, args, code, _, _, _⟩⟩ :: rest =>
    .opening { owner := id, kind := .closure, around, names := args.map (·.name) } ::
      (outlineDefaults id args ++ outlineOption id code ++ outlineClosure around rest)
  | node :: rest => node.outline around ++ outlineClosure around rest

def outlineClauses (around : NodeId) : List RescueClause → List Item
  | [] => []
  | ⟨id, name, _, main⟩ :: rest =>
    .opening { owner := id, kind := .block, around, names := name.toList } ::
      (main.outline id ++ outlineClauses around rest)

def outlineDefaults (around : NodeId) : List Argument → List Item
  | [] => []
  | ⟨_, _, default⟩ :: rest => outlineOption around default ++ outlineDefaults around rest

def outlineDelegation (around : NodeId) : Option Delegation → List Item
  | none => []
  | some ⟨_, args⟩ => outlineAll around args

end

def MethodDef.outline (id : NodeId) (definition : MethodDef) : List Item :=
  outlineDefaults id definition.args ++ outlineOption id definition.body

/-! ## Parts of an outline -/

/-- The kinds that stand in the scope around them. The others open a scope, or
are closures, whose methods do. -/
def NodeKind.isPlain : NodeKind → Bool
  | .script _ | .classDef _ | .methodDef _ | .constructorDef _ | .closureDef _ => false
  | _ => true

/-- Nothing but their parts is of interest to scope analysis. -/
def NodeKind.isSimple : NodeKind → Bool
  | .rescue .. | .localDecl _ | .localAccess _ | .localAssign .. => false
  | kind => kind.isPlain

section

variable {around : NodeId}

theorem outlineAll_append (nodes more : List Node) :
    outlineAll around (nodes ++ more) = outlineAll around nodes ++ outlineAll around more := by
  induction nodes with
  | nil => rfl
  | cons node nodes ih => simp [outlineAll, ih]

theorem outlineOption_eq (node : Option Node) :
    outlineOption around node = outlineAll around node.toList := by
  cases node <;> simp [outlineOption, outlineAll]

theorem outlineDefaults_eq (args : List Argument) :
    outlineDefaults around args = outlineAll around (Argument.defaults args) := by
  induction args with
  | nil => rfl
  | cons arg args ih =>
    obtain ⟨id, name, default⟩ := arg
    rw [Argument.defaults_cons, outlineAll_append, outlineDefaults, outlineOption_eq, ih]

theorem outlineDelegation_eq (delegate : Option Delegation) :
    outlineDelegation around delegate =
      outlineAll around ((delegate.map (·.args)).getD []) := by
  rcases delegate with _ | ⟨callsSuper, args⟩ <;> simp [outlineDelegation, outlineAll]

theorem MethodDef.outline_eq (id : NodeId) (definition : MethodDef) :
    definition.outline id =
      outlineAll id (Argument.defaults definition.args ++ definition.body.toList) := by
  rw [outline, outlineDefaults_eq, outlineOption_eq, outlineAll_append]

theorem outline_of_isSimple {node : Node} (h : node.kind.isSimple = true) :
    node.outline around = outlineAll around node.children := by
  obtain ⟨id, span, kind⟩ := node
  rw [Node.outline]
  cases kind with
  | loop parts =>
    obtain ⟨init, condition, pre, main, post, skipFirstCheck, negative⟩ := parts
    simp [NodeKind.outline, Node.children, outlineAll_append, outlineOption_eq, outlineAll]
  | script | classDef | methodDef | constructorDef | closureDef | rescue | localDecl | localAccess
  | localAssign => cases h
  | _ => simp [NodeKind.outline, Node.children, outlineAll_append, outlineOption_eq, outlineAll]

def NodeKind.args? : NodeKind → Option (List Argument)
  | .methodDef definition => some definition.args
  | .constructorDef definition => some definition.args
  | _ => none

/-- The names that the scope of a definition starts with. -/
def NodeKind.names : NodeKind → List String
  | .script _ => ["argv"]
  | kind => (kind.args?.getD []).map (·.name)

theorem outline_of_definition {node : Node} (hkind : node.kind.isPlain = false)
    (hclosure : ∀ definition, node.kind ≠ .closureDef definition) :
    node.outline around =
      .opening ⟨node.id, .method, none, node.kind.names⟩ :: outlineAll node.id node.children := by
  obtain ⟨id, span, kind⟩ := node
  rw [Node.outline]
  cases kind with
  | script => rw [NodeKind.outline]; rfl
  | classDef definition => cases definition; rw [NodeKind.outline]; rfl
  | methodDef definition =>
    obtain ⟨name, args, code, isStatic, throws, notes⟩ := definition
    rw [NodeKind.outline, outlineDefaults_eq, outlineOption_eq, ← outlineAll_append]
    rfl
  | constructorDef definition =>
    obtain ⟨args, code, delegate⟩ := definition
    rw [NodeKind.outline, outlineDefaults_eq, outlineDelegation_eq, outlineOption_eq,
      ← outlineAll_append, ← outlineAll_append]
    rfl
  | closureDef definition => exact absurd rfl (hclosure definition)
  | _ => cases hkind

theorem outlineClauses_cons (clause : RescueClause) (rest : List RescueClause) :
    outlineClauses around (clause :: rest) =
      .opening { owner := clause.id, kind := .block, around, names := clause.name.toList } ::
        (clause.body.outline clause.id ++ outlineClauses around rest) := by
  obtain ⟨id, name, types, main⟩ := clause
  rw [outlineClauses]

theorem outlineClosure_cons_method {node : Node} {rest : List Node}
    (h : node.kind = .methodDef definition) :
    outlineClosure around (node :: rest) =
      .opening { owner := node.id, kind := .closure, around,
                 names := definition.args.map (·.name) } ::
        (definition.outline node.id ++ outlineClosure around rest) := by
  obtain ⟨id, span, kind⟩ := node
  obtain ⟨name, args, code, isStatic, throws, notes⟩ := definition
  obtain rfl := h
  rw [outlineClosure]
  rfl

theorem outlineClosure_cons_other {node : Node} {rest : List Node}
    (h : ∀ definition, node.kind ≠ .methodDef definition) :
    outlineClosure around (node :: rest) =
      node.outline around ++ outlineClosure around rest := by
  refine outlineClosure.eq_3 around node rest fun id span name args code isStatic throws
    notes hnode => ?_
  exact h _ (congrArg Node.kind hnode)

theorem outline_subset_all {node : Node} {nodes : List Node} (h : node ∈ nodes) :
    node.outline around ⊆ outlineAll around nodes := by
  induction nodes with
  | nil => cases h
  | cons first rest ih =>
    rw [outlineAll]
    rcases List.mem_cons.1 h with rfl | h
    · exact List.subset_append_left _ _
    · exact List.subset_append_of_subset_right _ (ih h)

theorem outline_subset_clauses {clause : RescueClause} {clauses : List RescueClause}
    (h : clause ∈ clauses) :
    .opening { owner := clause.id, kind := .block, around, names := clause.name.toList } ::
      clause.body.outline clause.id ⊆ outlineClauses around clauses := by
  induction clauses with
  | nil => cases h
  | cons first rest ih =>
    rw [outlineClauses_cons]
    rcases List.mem_cons.1 h with rfl | h
    · exact List.cons_subset_cons _ (List.subset_append_left _ _)
    · exact List.subset_cons_of_subset _ (List.subset_append_of_subset_right _ (ih h))

/-- A method of a closure gives its parts to the outline of the closure, and a
scope of another kind than it has on its own. -/
theorem outlineClosure_subset_cons (first : Node) (rest : List Node) :
    outlineClosure around rest ⊆ outlineClosure around (first :: rest) := by
  by_cases hmethod : ∃ definition, first.kind = .methodDef definition
  · obtain ⟨definition, hkind⟩ := hmethod
    rw [outlineClosure_cons_method hkind]
    exact List.subset_cons_of_subset _ (List.subset_append_right _ _)
  · rw [outlineClosure_cons_other fun definition hkind => hmethod ⟨definition, hkind⟩]
    exact List.subset_append_right _ _

theorem outline_subset_closure {node : Node} {methods : List Node}
    (hkind : node.kind = .methodDef definition) (h : node ∈ methods) :
    .opening { owner := node.id, kind := .closure, around,
               names := definition.args.map (·.name) } :: definition.outline node.id ⊆
      outlineClosure around methods := by
  induction methods with
  | nil => cases h
  | cons first rest ih =>
    rcases List.mem_cons.1 h with rfl | h
    · rw [outlineClosure_cons_method hkind]
      exact List.cons_subset_cons _ (List.subset_append_left _ _)
    · exact List.Subset.trans (ih h) (outlineClosure_subset_cons first rest)

theorem outline_subset_closure_other {node : Node} {methods : List Node}
    (hkind : ∀ definition, node.kind ≠ .methodDef definition) (h : node ∈ methods) :
    node.outline around ⊆ outlineClosure around methods := by
  induction methods with
  | nil => cases h
  | cons first rest ih =>
    rcases List.mem_cons.1 h with rfl | h
    · rw [outlineClosure_cons_other hkind]
      exact List.subset_append_left _ _
    · exact List.Subset.trans (ih h) (outlineClosure_subset_cons first rest)

end

/-! ## Every reference is in the outline -/

inductive Node.Below (root : Node) : Node → Prop
  | root : Below root root
  | child {node part : Node} : Below root node → part ∈ node.children → Below root part

def Node.localName? (node : Node) : Option String :=
  match node.kind with
  | .localDecl name | .localAccess name | .localAssign name _ => some name
  | _ => none

/-- The items hold the outline of the node. The methods of a closure are an
exception: of these the items hold the parts. -/
def Node.Listed (items : List Item) (node : Node) : Prop :=
  (∃ definition, node.kind = .methodDef definition ∧ definition.outline node.id ⊆ items) ∨
    ∃ around, node.outline around ⊆ items

section

variable {items : List Item} {node part : Node} {around : NodeId}

/-- The parts of a plain node stand where it stands, or in the scope of one of
its clauses. -/
theorem exists_outline_of_mem_children (hplain : node.kind.isPlain = true)
    (hsub : node.outline around ⊆ items) (hpart : part ∈ node.children) :
    ∃ inner, part.outline inner ⊆ items ∧ (inner = around ∨
      ∃ names, .opening { owner := inner, kind := .block, around, names } ∈ items) := by
  cases hsimple : node.kind.isSimple with
  | true =>
    rw [outline_of_isSimple hsimple] at hsub
    exact ⟨around, List.Subset.trans (outline_subset_all hpart) hsub, .inl rfl⟩
  | false =>
    obtain ⟨id, span, kind⟩ := node
    rw [Node.outline] at hsub
    cases kind with
    | localDecl | localAccess => cases hpart
    | localAssign name value =>
      rw [NodeKind.outline] at hsub
      obtain rfl := List.mem_singleton.1 hpart
      exact ⟨around, (List.append_subset.1 hsub).1, .inl rfl⟩
    | rescue main clauses elseClause =>
      rw [NodeKind.outline, outlineOption_eq] at hsub
      obtain ⟨hfront, helse⟩ := List.append_subset.1 hsub
      obtain ⟨hmain, hclauses⟩ := List.append_subset.1 hfront
      rcases List.mem_cons.1 hpart with rfl | hpart
      · exact ⟨around, hmain, .inl rfl⟩
      · rcases List.mem_append.1 hpart with hpart | hpart
        · obtain ⟨clause, hclause, rfl⟩ := List.mem_map.1 hpart
          obtain ⟨hopening, hbody⟩ :=
            List.cons_subset.1 (List.Subset.trans (outline_subset_clauses hclause) hclauses)
          exact ⟨clause.id, hbody, .inr ⟨_, hopening⟩⟩
        · exact ⟨around, List.Subset.trans (outline_subset_all hpart) helse, .inl rfl⟩
    | script | classDef | methodDef | constructorDef | closureDef => cases hplain
    | _ => cases hsimple

theorem MethodDef.outline_subset_of_mem {id : NodeId} (h : definition.outline id ⊆ items)
    (hpart : part ∈ Argument.defaults definition.args ++ definition.body.toList) :
    part.outline id ⊆ items := by
  rw [outline_eq] at h
  exact List.Subset.trans (outline_subset_all hpart) h

/-- The parts of a definition that opens a scope of its own stand in it. -/
theorem outline_subset_of_definition (hkind : node.kind.isPlain = false)
    (hclosure : ∀ definition, node.kind ≠ .closureDef definition)
    (hsub : node.outline around ⊆ items) :
    (∃ names, .opening { owner := node.id, kind := .method, around := none, names } ∈ items) ∧
      ∀ part ∈ node.children, part.outline node.id ⊆ items := by
  rw [outline_of_definition hkind hclosure] at hsub
  obtain ⟨hopening, hparts⟩ := List.cons_subset.1 hsub
  exact ⟨⟨_, hopening⟩, fun part hpart => List.Subset.trans (outline_subset_all hpart) hparts⟩

theorem Node.Listed.of_mem_children (h : node.Listed items) (hpart : part ∈ node.children) :
    part.Listed items := by
  rcases h with ⟨definition, hkind, hsub⟩ | ⟨around, hsub⟩
  · rw [Node.children, hkind] at hpart
    exact .inr ⟨_, MethodDef.outline_subset_of_mem hsub hpart⟩
  · cases hplain : node.kind.isPlain with
    | true =>
      obtain ⟨inner, hinner, -⟩ := exists_outline_of_mem_children hplain hsub hpart
      exact .inr ⟨inner, hinner⟩
    | false =>
      by_cases hclosure : ∃ definition, node.kind = .closureDef definition
      · obtain ⟨⟨name, interfaces, methods⟩, hkind⟩ := hclosure
        obtain ⟨id, span, kind⟩ := node
        obtain rfl := hkind
        rw [Node.outline, NodeKind.outline] at hsub
        by_cases hmethod : ∃ inner, part.kind = .methodDef inner
        · obtain ⟨inner, hinner⟩ := hmethod
          have hparts := List.Subset.trans (outline_subset_closure hinner hpart) hsub
          exact .inl ⟨inner, hinner, (List.cons_subset.1 hparts).2⟩
        · refine .inr ⟨around, List.Subset.trans (outline_subset_closure_other ?_ hpart) hsub⟩
          exact fun inner hinner => hmethod ⟨inner, hinner⟩
      · have hparts := (outline_subset_of_definition hplain
          (fun definition hkind => hclosure ⟨definition, hkind⟩) hsub).2
        exact .inr ⟨node.id, hparts part hpart⟩

end

theorem reference_mem_outline {node : Node} {name : String} (h : node.localName? = some name)
    (around : NodeId) :
    node.kind.isDefinition = false ∧
      .reference { node := node.id, name, around } ∈ node.outline around := by
  obtain ⟨id, span, kind⟩ := node
  rw [Node.outline]
  cases kind <;> simp only [Node.localName?, reduceCtorEq, Option.some.injEq] at h
  all_goals
    obtain rfl := h
    rw [NodeKind.outline]
    simp [NodeKind.isDefinition]

theorem exists_reference_of_below {root node : Node} {around : NodeId} {name : String}
    (h : root.Below node) (hname : node.localName? = some name) :
    ∃ scope, .reference { node := node.id, name, around := scope } ∈ root.outline around := by
  have hlisted : node.Listed (root.outline around) := by
    clear hname
    induction h with
    | root => exact .inr ⟨around, List.Subset.refl _⟩
    | child _ hpart ih => exact ih.of_mem_children hpart
  rcases hlisted with ⟨definition, hkind, -⟩ | ⟨scope, hsub⟩
  · simp [Node.localName?, hkind] at hname
  · exact ⟨scope, hsub (reference_mem_outline hname scope).2⟩

end ClassBackend
