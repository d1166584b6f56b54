import ClassBackend.Proofs.Emission.Advance
import ClassBackend.Proofs.Scope.Walk

/-!
# What a script registers

Before a script is emitted, the members that it defines are added to the member
table. Each of them is added by one node, for itself or for one of its parts
(`registers_of_membersOf`).
-/

namespace ClassBackend

open ScopeTable.WalkM (orFault_bind_eq_ok)

variable {members : List Member} {m : Member}

namespace TypeMap

variable {node : Node}

variable {types : TypeMap} {owner : Ty} {isStatic : Bool}

/-! ## Lists of nodes -/

theorem membersOfAll_append (nodes more : List Node) :
    types.membersOfAll owner isStatic (nodes ++ more) = (do
      let first ← types.membersOfAll owner isStatic nodes
      let others ← types.membersOfAll owner isStatic more
      return first ++ others) := by
  induction nodes with
  | nil => simp [membersOfAll]
  | cons node nodes ih =>
    simp only [List.cons_append, membersOfAll, ih, bind_assoc, pure_bind, List.append_assoc]

theorem membersOfAll_singleton (node : Node) :
    types.membersOfAll owner isStatic [node] = types.membersOf owner isStatic node := by
  simp [membersOfAll]

theorem membersOfOption_eq (node : Option Node) :
    types.membersOfOption owner isStatic node =
      types.membersOfAll owner isStatic node.toList := by
  cases node with
  | none | some => simp [membersOfOption, membersOfAll]

theorem membersOfClauses_eq (clauses : List RescueClause) :
    types.membersOfClauses owner isStatic clauses =
      types.membersOfAll owner isStatic (clauses.map (·.body)) := by
  induction clauses with
  | nil => simp [membersOfClauses, membersOfAll]
  | cons clause clauses ih =>
    obtain ⟨id, name, exceptions, main⟩ := clause
    simp [membersOfClauses, membersOfAll, ih]

theorem membersOfDefaults_eq (args : List Argument) :
    types.membersOfDefaults owner args =
      types.membersOfAll owner false (Argument.defaults args) := by
  induction args with
  | nil => simp [membersOfDefaults, membersOfAll, Argument.defaults]
  | cons arg args ih =>
    obtain ⟨id, name, default⟩ := arg
    rw [Argument.defaults_cons, membersOfAll_append, membersOfDefaults, membersOfOption_eq, ih]

theorem membersOfDelegation_eq (delegate : Option Delegation) :
    types.membersOfDelegation owner delegate =
      types.membersOfAll owner false ((delegate.map (·.args)).getD []) := by
  cases delegate with
  | none => simp [membersOfDelegation, membersOfAll]
  | some delegation =>
    obtain ⟨callsSuper, args⟩ := delegation
    simp [membersOfDelegation]

theorem exists_of_mem_membersOfAll {nodes : List Node}
    (h : types.membersOfAll owner isStatic nodes = .ok members) (hm : m ∈ members) :
    ∃ node ∈ nodes, ∃ own, types.membersOf owner isStatic node = .ok own ∧ m ∈ own := by
  induction nodes generalizing members with
  | nil =>
    rw [membersOfAll] at h
    cases h
    cases hm
  | cons node nodes ih =>
    rw [membersOfAll] at h
    obtain ⟨first, hfirst, h⟩ := orFault_bind_eq_ok.1 h
    obtain ⟨others, hothers, h⟩ := orFault_bind_eq_ok.1 h
    cases h
    rcases List.mem_append.1 hm with hm | hm
    · exact ⟨node, List.mem_cons_self, first, hfirst, hm⟩
    · obtain ⟨other, hother, own, hown, hm⟩ := ih hothers hm
      exact ⟨other, List.mem_cons_of_mem _ hother, own, hown, hm⟩

/-! ## Nodes -/

theorem membersOf_of_isPlain (h : node.kind.isPlain = true) :
    types.membersOf owner isStatic node = types.membersOfAll owner isStatic node.children := by
  obtain ⟨id, span, kind⟩ := node
  rw [membersOf]
  cases kind with
  | script | classDef | methodDef | constructorDef | closureDef => cases h
  | loop parts =>
    obtain ⟨init, condition, pre, main, post, skipFirst, negative⟩ := parts
    simp [membersOfKind, Node.children, membersOfAll_append, membersOfOption_eq, membersOfAll]
  | _ =>
    simp [membersOfKind, Node.children, membersOfAll_append, membersOfOption_eq, membersOfAll,
      membersOfClauses_eq, membersOfAll_singleton]

/-- What a node is registered with for itself. A class that defines no constructor has one
without arguments. -/
def ownMembers (types : TypeMap) (owner : Ty) (isStatic : Bool) (node : Node) :
    Except Fault (List Member) :=
  match node.kind with
  | .methodDef definition => do
    let result ← types.typeOf node
    return (← types.arities definition.args).map fun params =>
      .method owner definition.name params result (definition.isStatic || isStatic)
  | .constructorDef definition =>
    return (← types.arities definition.args).map (Member.constructor owner)
  | .classDef definition => do
    let t ← types.typeOf node
    return if definition.isInterface || definition.hasConstructor then [] else [.constructor t []]
  | _ => return []

/-- The class that the parts of a node stand in, and whether methods are declared as static
ones there. -/
def partSite (types : TypeMap) (owner : Ty) (isStatic : Bool) (node : Node) :
    Except Fault (Ty × Bool) :=
  match node.kind with
  | .methodDef _ | .constructorDef _ => return (owner, false)
  | .classDef _ | .closureDef _ => return (← types.typeOf node, false)
  | _ => return (owner, isStatic)

/-- A node is registered with its own members and those of its parts, in some order. -/
theorem membersOf_eq (types : TypeMap) (owner : Ty) (isStatic : Bool) (node : Node) :
    ∃ join : List Member → List Member → List Member,
    (∀ own parts m, m ∈ join own parts ↔ m ∈ own ∨ m ∈ parts) ∧
    types.membersOf owner isStatic node = (do
      let own ← types.ownMembers owner isStatic node
      let (t, flag) ← types.partSite owner isStatic node
      let parts ← types.membersOfAll t flag node.children
      return join own parts) := by
  have happend : ∀ own parts (m : Member), m ∈ own ++ parts ↔ m ∈ own ∨ m ∈ parts :=
    fun _ _ _ => List.mem_append
  obtain ⟨id, span, kind⟩ := node
  cases kind with
  | classDef definition =>
    obtain ⟨name, superclass, interfaces, isInterface, body⟩ := definition
    refine ⟨fun own parts => parts ++ own, fun _ _ _ => by simp [or_comm], ?_⟩
    rw [membersOf, membersOfKind]
    cases ht : types.typeOf ⟨id, span, .classDef
      ⟨name, superclass, interfaces, isInterface, body⟩⟩ with
    | error fault => simp [ownMembers, ht, bind, Except.bind]
    | ok t =>
      simp only [ownMembers, partSite, ht]
      rfl
  | methodDef definition =>
    obtain ⟨name, args, body, declaredStatic, throws, notes⟩ := definition
    refine ⟨_, happend, ?_⟩
    simp [membersOf, membersOfKind, membersOfDefaults_eq, membersOfOption_eq, ownMembers,
      partSite, Node.children, membersOfAll_append]
  | constructorDef definition =>
    obtain ⟨args, body, delegate⟩ := definition
    refine ⟨_, happend, ?_⟩
    simp [membersOf, membersOfKind, membersOfDefaults_eq, membersOfDelegation_eq,
      membersOfOption_eq, ownMembers, partSite, Node.children, membersOfAll_append]
  | closureDef definition =>
    obtain ⟨name, interfaces, methods⟩ := definition
    refine ⟨_, happend, ?_⟩
    simp [membersOf, membersOfKind, ownMembers, partSite, Node.children]
  | script statements =>
    refine ⟨_, happend, ?_⟩
    simp [membersOf, membersOfKind, ownMembers, partSite, Node.children]
  | _ =>
    refine ⟨_, happend, ?_⟩
    rw [membersOf_of_isPlain rfl]
    simp [ownMembers, partSite]

/-- A member is registered for a tree that stands in the code of a class. The
flag says that methods are declared as static ones there. -/
inductive Registers (types : TypeMap) : Ty → Bool → Node → Member → Prop
  | method {owner isStatic node definition result arities params}
    (hkind : node.kind = .methodDef definition) (hresult : types.typeOf node = .ok result)
    (harities : types.arities definition.args = .ok arities) (hparams : params ∈ arities) :
    Registers types owner isStatic node
      (.method owner definition.name params result (definition.isStatic || isStatic))
  | constructor {owner isStatic node definition arities params}
    (hkind : node.kind = .constructorDef definition)
    (harities : types.arities definition.args = .ok arities) (hparams : params ∈ arities) :
    Registers types owner isStatic node (.constructor owner params)
  | default {owner isStatic node definition t} (hkind : node.kind = .classDef definition)
    (ht : types.typeOf node = .ok t) (hinterface : definition.isInterface = false)
    (hnone : definition.hasConstructor = false) :
    Registers types owner isStatic node (.constructor t [])
  | part {owner isStatic node t flag part m}
    (hsite : types.partSite owner isStatic node = .ok (t, flag)) (hpart : part ∈ node.children)
    (h : Registers types t flag part m) : Registers types owner isStatic node m

theorem registers_of_ownMembers (h : types.ownMembers owner isStatic node = .ok members)
    (hm : m ∈ members) : types.Registers owner isStatic node m := by
  unfold ownMembers at h
  split at h
  · rename_i definition hkind
    obtain ⟨result, hresult, h⟩ := orFault_bind_eq_ok.1 h
    obtain ⟨arities, harities, h⟩ := orFault_bind_eq_ok.1 h
    cases h
    obtain ⟨params, hparams, rfl⟩ := List.mem_map.1 hm
    exact .method hkind hresult harities hparams
  · rename_i definition hkind
    obtain ⟨arities, harities, h⟩ := orFault_bind_eq_ok.1 h
    cases h
    obtain ⟨params, hparams, rfl⟩ := List.mem_map.1 hm
    exact .constructor hkind harities hparams
  · rename_i definition hkind
    obtain ⟨t, ht, h⟩ := orFault_bind_eq_ok.1 h
    cases h
    split at hm
    · cases hm
    · rename_i hneither
      obtain rfl := List.mem_singleton.1 hm
      rw [Bool.or_eq_true, not_or, Bool.not_eq_true, Bool.not_eq_true] at hneither
      exact .default hkind ht hneither.1 hneither.2
  · cases h
    cases hm

theorem registers_of_membersOf (h : types.membersOf owner isStatic node = .ok members)
    (hm : m ∈ members) : types.Registers owner isStatic node m := by
  induction hsize : node.size using Nat.strong_induction_on generalizing node owner isStatic
    members with
  | _ size ih =>
  obtain ⟨join, hjoin, heq⟩ := membersOf_eq types owner isStatic node
  rw [heq] at h
  obtain ⟨own, hown, h⟩ := orFault_bind_eq_ok.1 h
  obtain ⟨⟨t, flag⟩, hsite, h⟩ := orFault_bind_eq_ok.1 h
  obtain ⟨parts, hparts, h⟩ := orFault_bind_eq_ok.1 h
  cases h
  rcases (hjoin own parts m).1 hm with hm | hm
  · exact registers_of_ownMembers hown hm
  · obtain ⟨part, hpart, members, hmembers, hm⟩ := exists_of_mem_membersOfAll hparts hm
    exact .part hsite hpart
      (ih _ (hsize ▸ Node.size_lt_of_mem_children hpart) hmembers hm rfl)

theorem Registers.exists_callable (h : types.Registers owner isStatic node m) :
    ∃ kind t name params result, m = .callable kind t name params result := by
  induction h with
  | method | constructor | default => exact ⟨_, _, _, _, _, rfl⟩
  | part _ _ _ ih => exact ih

end TypeMap

/-- The members that a script is registered with: those it defines, and the
constructor of its class. -/
def Program.registered (program : Program) : Except Fault (List Member) := do
  let (_, mainType) ← program.defineMain (Naming.scriptClass program.file)
  let declared ← program.types.membersOf mainType true program.script
  return declared ++ [.constructor mainType []]

theorem Program.registered_eq_ok {program : Program} (h : program.registered = .ok members) :
    ∃ registry mainType declared,
      program.defineMain (Naming.scriptClass program.file) = .ok (registry, mainType) ∧
      program.types.membersOf mainType true program.script = .ok declared ∧
      members = declared ++ [.constructor mainType []] := by
  obtain ⟨⟨registry, mainType⟩, hmain, h⟩ := orFault_bind_eq_ok.1 h
  obtain ⟨declared, hdeclared, h⟩ := orFault_bind_eq_ok.1 h
  exact ⟨registry, mainType, declared, hmain, hdeclared, (Except.ok.inj h).symm⟩

/-- Methods and constructors are all that a script is registered with. -/
theorem Program.exists_callable {program : Program} (h : program.registered = .ok members) :
    ∀ m ∈ members, ∃ kind t name params result, m = .callable kind t name params result := by
  obtain ⟨registry, mainType, declared, -, hdeclared, rfl⟩ := registered_eq_ok h
  intro m hm
  rcases List.mem_append.1 hm with hm | hm
  · exact (TypeMap.registers_of_membersOf hdeclared hm).exists_callable
  · obtain rfl := List.mem_singleton.1 hm
    exact ⟨_, _, _, _, _, rfl⟩

theorem MemberTable.mem_declareAll {table : MemberTable}
    (h : m ∈ (table.declareAll members).members) : m ∈ table.members ∨ m ∈ members := by
  induction members generalizing table with
  | nil => exact .inl h
  | cons first members ih =>
    rcases ih h with hmem | hmem
    · rcases List.mem_append.1 hmem with hmem | hmem
      · exact .inl (List.mem_of_mem_filter hmem)
      · exact .inr (List.mem_singleton.1 hmem ▸ List.mem_cons_self)
    · exact .inr (List.mem_cons_of_mem _ hmem)

end ClassBackend
