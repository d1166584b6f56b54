import Mathlib.Data.List.Basic
import ClassBackend.Proofs.Member.Best

/-!
# What a call can mean

A call means a member of a table that takes as many arguments as are given, or
one of the operators and array members that every program has
(`Registry.serves_of_resolve?`).
-/

namespace ClassBackend

def Member.isOfClass : Member → Bool
  | .callable .. | .getter .. | .setter .. => true
  | _ => false

def ArrayOp.takes : ArrayOp → Nat → Bool
  | .get, count => count == 1
  | .set, count => count == 2
  | .length, count | .empty, count | .first, count | .last, count => count == 0
  | .join, count => count ≤ 1

/-- The member may be what a call with this name and so many arguments
means. -/
inductive MemberTable.Serves (table : MemberTable) (name : String) (count : Nat) : Member → Prop
  | listed {m : Member} : m ∈ table.members → m.name = name ∨ m.isConstructor = true →
    m.params.length = count → Serves table name count m
  | not : name = "!" → count = 0 → Serves table name count .not
  | negate (receiver operand : Ty) : count = 0 → Serves table name count (.negate receiver operand)
  | arith (op : ArithOp) (receiver argument operand : Ty) : count = 1 →
    Serves table name count (.arith op receiver argument operand)
  | compare {cond : Cond} (receiver argument operand : Ty) : Cond.ofSymbol? name = some cond →
    count = 1 → Serves table name count (.compare cond receiver argument operand)
  | classLiteral (receiver : Ty) : name = "class" → count = 0 →
    Serves table name count (.classLiteral receiver)
  | instanceOf (receiver tested : Ty) : name = "kind_of?" → count = 1 →
    Serves table name count (.instanceOf receiver tested)
  | array {op : ArrayOp} (component : Ty) (params : List Ty) (result : Ty) :
    op.takes count = true → (op = .empty → name = "empty?") →
    Serves table name count (.array op name component params result)

namespace Registry

variable {r : Registry} {table : MemberTable} {m : Member} {name : String} {args : List Ty}

theorem length_of_argumentsCost? {params args : List Ty}
    (h : (r.argumentsCost? params args).isSome) : params.length = args.length := by
  induction params generalizing args with
  | nil =>
    cases args with
    | nil => rfl
    | cons arg args => cases h
  | cons param params ih =>
    cases args with
    | nil => cases h
    | cons arg args =>
      obtain ⟨total, htotal⟩ := Option.isSome_iff_exists.1 h
      simp only [argumentsCost?, Option.bind_eq_bind, Option.bind_eq_some_iff] at htotal
      obtain ⟨-, -, rest, hrest, -⟩ := htotal
      rw [List.length_cons, List.length_cons, ih (Option.isSome_of_eq_some hrest)]

theorem of_cheapest? {candidates : List Member} (h : r.cheapest? args candidates = some m) :
    m ∈ candidates ∧ m.params.length = args.length := by
  obtain ⟨before, after, cost, rfl, hcost, -⟩ := cheapest?_eq_some_iff.1 h
  exact ⟨by simp, length_of_argumentsCost? (Option.isSome_of_eq_some hcost)⟩

theorem serves_of_bestOn? {accept : Member → Bool} {owner : Ty}
    (h : r.bestOn? table accept owner name args = some m) :
    table.Serves name args.length m := by
  obtain ⟨hmem, hlength⟩ := of_cheapest? h
  obtain ⟨hmem, -⟩ := List.mem_filter.1 hmem
  obtain ⟨hmem, hname⟩ := List.mem_filter.1 hmem
  exact .listed hmem (.inl (beq_iff_eq.1 (Bool.and_eq_true_iff.1 hname).2)) hlength

theorem serves_of_staticMember? {t : Ty} (h : r.staticMember? table t name args = some m) :
    table.Serves name args.length m := by
  obtain ⟨owner, -, howner⟩ := List.exists_of_findSome?_eq_some h
  exact serves_of_bestOn? howner

theorem serves_of_instanceMember? {receiver : Ty}
    (h : r.instanceMember? table receiver name args = some m) :
    table.Serves name args.length m := by
  unfold instanceMember? at h
  dsimp only at h
  split at h
  · rename_i found hfound
    cases h
    obtain ⟨owner, -, howner⟩ := List.exists_of_findSome?_eq_some hfound
    exact serves_of_bestOn? howner
  · split at h
    · cases h
    · exact serves_of_staticMember? h

theorem serves_of_constructor? {t : Ty} (h : r.constructor? table t args = some m) :
    table.Serves name args.length m ∧ m.isConstructor = true := by
  obtain ⟨hmem, hlength⟩ := of_cheapest? h
  obtain ⟨hmem, haccept⟩ := List.mem_filter.1 hmem
  exact ⟨.listed (List.mem_filter.1 hmem).1 (.inr haccept) hlength, haccept⟩

theorem serves_of_primitiveMember? {p : Primitive} (h : primitiveMember? p name args = some m) :
    table.Serves name args.length m := by
  unfold primitiveMember? at h
  split at h
  · split at h
    · rename_i hname
      cases h
      exact .not (beq_iff_eq.1 (Bool.and_eq_true_iff.1 hname).1) rfl
    · split at h
      · cases h
        exact .negate _ _ rfl
      · cases h
  · rename_i arg
    obtain ⟨q, -, h⟩ := Option.bind_eq_some_iff.1 h
    split at h
    · obtain ⟨operand, -, h⟩ := Option.bind_eq_some_iff.1 h
      cases h
      exact .arith _ _ _ _ rfl
    · obtain ⟨cond, hcond, h⟩ := Option.bind_eq_some_iff.1 h
      obtain ⟨operand, -, h⟩ := Option.bind_eq_some_iff.1 h
      cases h
      exact .compare _ _ _ hcond rfl
  · cases h

theorem serves_of_arrayMember? {component : Ty}
    (h : r.arrayMember? component name args = some m) : table.Serves name args.length m := by
  have hmember : ∀ {op : ArrayOp} {name : String} {count : Nat} {params : List Ty} {result : Ty},
      some (Member.array op name component params result) = some m →
      op.takes count = true → (op = .empty → name = "empty?") → table.Serves name count m := by
    intro op name count params result heq htakes hname
    cases heq
    exact .array _ _ _ htakes hname
  unfold arrayMember? at h
  dsimp only at h
  split at h
  · split at h
    · exact hmember h rfl nofun
    · cases h
  · split at h
    · exact hmember h rfl nofun
    · cases h
  · exact hmember h rfl nofun
  · exact hmember h rfl nofun
  · exact hmember h rfl fun _ => rfl
  · exact hmember h rfl nofun
  · exact hmember h rfl nofun
  · exact hmember h rfl nofun
  · exact hmember h rfl nofun
  · cases h

theorem serves_of_resolve? {receiver : Ty} (h : r.resolve? table receiver name args = some m) :
    table.Serves name args.length m := by
  unfold resolve? at h
  split at h
  · cases h
  · exact serves_of_primitiveMember? h
  · split at h
    · rename_i found hfound
      cases h
      exact serves_of_arrayMember? hfound
    · exact serves_of_instanceMember? h
  · split at h
    · exact (serves_of_constructor? h).1
    · split at h
      · rename_i hname
        obtain ⟨hname, hargs⟩ := Bool.and_eq_true_iff.1 hname
        cases h
        exact .classLiteral _ (beq_iff_eq.1 hname) (by simp [List.isEmpty_iff.1 hargs])
      · exact serves_of_staticMember? h
  · split at h
    · split at h
      · cases h
        exact .instanceOf _ _ rfl rfl
      · exact serves_of_instanceMember? h
    · exact serves_of_instanceMember? h

end Registry

end ClassBackend
