import ClassBackend.Member.Table

/-!
# Resolving members

From a receiver type, a name and argument types to a member. Primitives and
arrays have members of their own; a class is searched together with its
linearised ancestors, and a class object along its superclass chain.
-/

namespace ClassBackend

/-- The type both operands of an operator are converted to, if it applies to
these primitives. -/
def arithOperand? (op : ArithOp) (p q : Primitive) : Option Primitive :=
  let integral (x : Primitive) : Bool := x.isNumeric && (x.isIntLike || x == .long)
  match op with
  | .shl | .shr | .ushr => if integral p && integral q then some p.stackType else none
  | .and | .or | .xor =>
    if p == .boolean && q == .boolean then some .boolean
    else if p.isNumeric && q.isNumeric then some (p.promote q)
    else none
  | _ => if p.isNumeric && q.isNumeric then some (p.promote q) else none

/-- The type both operands of a comparison are converted to, if it applies to
these primitives. Booleans are only compared for equality. -/
def compareOperand? (cond : Cond) (p q : Primitive) : Option Primitive :=
  if p == .boolean && q == .boolean && (cond == .eq || cond == .ne) then some .boolean
  else if p.isNumeric && q.isNumeric then some (p.promote q)
  else none

def primitiveMember? (p : Primitive) (name : String) (args : List Ty) : Option Member :=
  match args with
  | [] =>
    if name == "!" && p == .boolean then some .not
    else if name == "-@" && p.isNumeric then
      some (.negate (.prim p) (.prim p.stackType))
    else none
  | [arg] => do
    let q ← arg.primitive?
    match ArithOp.ofSymbol? name with
    | some op => return .arith op (.prim p) arg (.prim (← arithOperand? op p q))
    | none =>
      let cond ← Cond.ofSymbol? name
      return .compare cond (.prim p) arg (.prim (← compareOperand? cond p q))
  | _ => none

namespace Registry

def arrayMember? (r : Registry) (component : Ty) (name : String) (args : List Ty) :
    Option Member :=
  let indexes (t : Ty) : Bool := t.primitive?.any (·.widensTo .int)
  let member (op : ArrayOp) (params : List Ty) (result : Ty) : Option Member :=
    some (.array op name component params result)
  match name, args with
  | "[]", [index] => if indexes index then member .get [.int] component else none
  | "[]=", [index, value] =>
    if indexes index && (r.conversionCost? component value).isSome then
      member .set [.int, component] component
    else none
  | "length", [] => member .length [] .int
  | "size", [] => member .length [] .int
  | "empty?", [] => member .empty [] .boolean
  | "first!", [] => member .first [] component
  | "last!", [] => member .last [] component
  | "join", [] => member .join [] .text
  | "join", [_] => member .join [.text] .text
  | _, _ => none

def bestOn? (r : Registry) (table : MemberTable) (accept : Member → Bool) (owner : Ty)
    (name : String) (args : List Ty) : Option Member :=
  r.cheapest? args ((table.overloads owner.name name).filter accept)

def staticMember? (r : Registry) (table : MemberTable) (t : Ty) (name : String)
    (args : List Ty) : Option Member :=
  (r.superclassChain t).findSome? fun owner =>
    r.bestOn? table (fun m => m.isStatic && !m.isConstructor) owner name args

/-- An instance member, searched on the type and its ancestors; a static one if
there is none, except on arrays. -/
def instanceMember? (r : Registry) (table : MemberTable) (receiver : Ty) (name : String)
    (args : List Ty) : Option Member :=
  let found := (receiver :: r.ancestors receiver).findSome? fun owner =>
    r.bestOn? table (fun m => !m.isStatic) owner name args
  match found with
  | some m => some m
  | none => if receiver.isArray then none else r.staticMember? table receiver name args

def constructor? (r : Registry) (table : MemberTable) (t : Ty) (args : List Ty) :
    Option Member :=
  r.bestOn? table Member.isConstructor t.unmeta "<init>" args

def resolve? (r : Registry) (table : MemberTable) (receiver : Ty) (name : String)
    (args : List Ty) : Option Member :=
  match receiver with
  | .error _ => none
  | .prim p => primitiveMember? p name args
  | .array component =>
    match r.arrayMember? component name args with
    | some m => some m
    | none => r.instanceMember? table receiver name args
  | .metaOf base =>
    if name == "new" then r.constructor? table base args
    else if name == "class" && args.isEmpty then some (.classLiteral receiver)
    else r.staticMember? table base name args
  | _ =>
    match name, args with
    | "kind_of?", [tested] =>
      if tested.isMeta then some (.instanceOf receiver tested)
      else r.instanceMember? table receiver name args
    | _, _ => r.instanceMember? table receiver name args

end Registry

end ClassBackend
