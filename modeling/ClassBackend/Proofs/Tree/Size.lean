import ClassBackend.Tree.Node

/-!
# The size of a tree

The size of a node is one more than that of its parts together
(`Node.size_eq_children`), whatever the kind of the node.
-/

namespace ClassBackend

@[simp] theorem listSize_nil : listSize [] = 0 := rfl

variable (node : Node)

@[simp] theorem listSize_cons (nodes : List Node) :
    listSize (node :: nodes) = node.size + listSize nodes := rfl

theorem size_le_listSize {node : Node} {nodes : List Node} (h : node ∈ nodes) :
    node.size ≤ listSize nodes := by
  induction h with
  | head => simp
  | tail _ _ ih => exact Nat.le_trans ih (Nat.le_add_left _ _)

theorem listSize_append (nodes more : List Node) :
    listSize (nodes ++ more) = listSize nodes + listSize more := by
  induction nodes with
  | nil => simp
  | cons node rest ih => simp [ih, Nat.add_assoc]

theorem listSize_toList (node : Option Node) : listSize node.toList = optionSize node := by
  cases node <;> rfl

theorem listSize_clauses (clauses : List RescueClause) :
    listSize (clauses.map (·.body)) = clausesSize clauses := by
  induction clauses with
  | nil => rfl
  | cons clause rest ih =>
    obtain ⟨id, types, name, body⟩ := clause
    exact congrArg (body.size + ·) ih

theorem Argument.defaults_cons (arg : Argument) (args : List Argument) :
    defaults (arg :: args) = arg.default.toList ++ defaults args := by
  rw [defaults, List.filterMap_cons]
  cases arg.default <;> rfl

theorem listSize_defaults (args : List Argument) :
    listSize (Argument.defaults args) = argumentsSize args := by
  induction args with
  | nil => rfl
  | cons arg rest ih =>
    obtain ⟨id, name, default⟩ := arg
    rw [Argument.defaults_cons, listSize_append, listSize_toList, ih]
    rfl

theorem listSize_delegate (delegate : Option Delegation) :
    listSize ((delegate.map (·.args)).getD []) = delegationSize delegate := by
  rcases delegate with _ | ⟨callsSuper, args⟩ <;> rfl

theorem Node.size_eq_children : node.size = listSize node.children + 1 := by
  obtain ⟨id, span, kind⟩ := node
  have hkind : kind.size = listSize (Node.children ⟨id, span, kind⟩) := by
    cases kind with
    | loop parts =>
      obtain ⟨init, condition, pre, body, post, skipFirstCheck, negative⟩ := parts
      simp only [NodeKind.size, Node.children, listSize_append, listSize_cons, listSize_toList]
      omega
    | classDef definition =>
      obtain ⟨name, superclass, interfaces, isInterface, body⟩ := definition
      simp only [NodeKind.size, Node.children]
    | closureDef definition =>
      obtain ⟨name, interfaces, methods⟩ := definition
      simp only [NodeKind.size, Node.children]
    | methodDef definition =>
      obtain ⟨name, args, body, isStatic, throws, notes⟩ := definition
      simp only [NodeKind.size, Node.children, listSize_append, listSize_toList,
        listSize_defaults]
    | constructorDef definition =>
      obtain ⟨args, body, delegate⟩ := definition
      simp only [NodeKind.size, Node.children, listSize_append, listSize_toList,
        listSize_defaults, listSize_delegate]
      omega
    | _ =>
      simp [NodeKind.size, Node.children, listSize_append, listSize_toList, listSize_clauses,
        Nat.add_assoc]
  rw [Node.size, hkind]

theorem Node.size_lt_of_mem_children {node part : Node} (h : part ∈ node.children) :
    part.size < node.size := by
  rw [node.size_eq_children]
  exact Nat.lt_succ_of_le (size_le_listSize h)

theorem Node.size_pos : 0 < node.size := by
  rw [node.size_eq_children]
  exact Nat.succ_pos _

end ClassBackend
