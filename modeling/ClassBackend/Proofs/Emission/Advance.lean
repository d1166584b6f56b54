import ClassBackend.Proofs.Emission.Method
import ClassBackend.Proofs.Member.Serves

/-!
# Nodes that leave code

A statement may be emitted as nothing at all, such as a literal or a local that
is read for nothing. `Node.leavesCode` holds for nodes that give an instruction
at least, whether or not their value is wanted (`Context.adds_emit`).
-/

namespace ClassBackend

variable {args : List Node} {node : Node} {name : String}

/-! ## Which nodes do -/

/-- A call of the member gives an instruction, whatever its operands are. -/
def Member.leavesCode : Member → Bool
  | .compare .. | .not | .classLiteral _ | .array .empty .. | .getter true .. => false
  | _ => true

/-- The names of the members that every program has and that may give no
instruction. -/
def Member.silentNames : List String :=
  ["==", "!=", "<", ">=", ">", "<=", "!", "class", "empty?"]

/-- A call by this name gives an instruction, whatever member it means. -/
def MemberTable.callLeavesCode (members : MemberTable) (name : String) : Bool :=
  !Member.silentNames.contains name &&
    members.members.all fun m => m.name != name || m.leavesCode

mutual

/-- The node is emitted as an instruction at least. -/
def Node.leavesCode (members : MemberTable) : Node → Bool
  | ⟨_, _, kind⟩ => kind.leavesCode members

/-- A node of this kind is emitted as an instruction at least. -/
def NodeKind.leavesCode (members : MemberTable) : NodeKind → Bool
  | .raise _ | .localAssign .. | .fieldAssign .. => true
  | .print newline args => newline || !args.isEmpty
  | .call _ name _ | .selfCall name _ => members.callLeavesCode name
  | .body nodes => anyLeavesCode members nodes
  | _ => false

/-- One of the nodes is emitted as an instruction at least. -/
def anyLeavesCode (members : MemberTable) : List Node → Bool
  | [] => false
  | node :: rest => node.leavesCode members || anyLeavesCode members rest

end

theorem Assembler.Evolves.offset_le {a b : Assembler} (h : a.Evolves b) : a.offset ≤ b.offset := by
  induction h with
  | refl => exact le_rfl
  | emit i _ ih => exact ih.trans (Grows.emit [] _ i).offset_le
  | label _ ih => exact ih.trans (Grows.label [] _).offset_le
  | place _ _ ih | protect _ _ ih => exact ih
  | line n _ ih => exact ih.trans (Grows.line [] _ n).offset_le
  | visit node _ ih => exact ih.trans (Grows.visit [] _ node).offset_le
  | allocate t _ ih => exact ih.trans (Grows.allocate [] _ t).offset_le
  | named name t _ ih => exact ih.trans (Grows.namedLocal [] _ name t).offset_le

/-! ## Actions that add code -/

namespace Emit

variable {α β : Type} {n m : Nat}

def Adds (n : Nat) (x : Emit α) : Prop :=
  ∀ ⦃σ a τ s⦄, x σ = .ok a τ → σ.draft? = some s →
    ∃ t, τ.draft? = some t ∧ s.offset + n ≤ t.offset

namespace Adds

variable {x : Emit α} {f : α → Emit β}

theorem of_lays {ctx : Context} (h : Lays ctx [] [] [] x) : Adds 0 x := by
  intro σ a τ s hrun hs
  obtain ⟨t, gaps, blocks, ht, hlaid⟩ := h hrun hs
  exact ⟨t, ht, hlaid.grows.offset_le⟩

theorem of_quiet (h : Quiet x) : Adds 0 x :=
  fun _ _ _ s hrun hs => ⟨s, (h hrun).trans hs, le_rfl⟩

theorem throw (fault : Fault) : Adds n (MonadExcept.throw fault : Emit α) :=
  fun _ _ _ _ h => absurd h throw_ne_ok

theorem weaken (h : Adds n x) (hle : m ≤ n) : Adds m x := by
  intro σ a τ s hrun hs
  obtain ⟨t, ht, hadds⟩ := h hrun hs
  exact ⟨t, ht, by omega⟩

theorem bind (hx : Adds n x) (hf : ∀ a, Adds m (f a)) : Adds (n + m) (x >>= f) := by
  intro σ b τ s hrun hs
  obtain ⟨a, υ, hfirst, hrest⟩ := bind_eq_ok.1 hrun
  obtain ⟨t, ht, hadds⟩ := hx hfirst hs
  obtain ⟨u, hu, hmore⟩ := hf a hrest ht
  exact ⟨u, hu, by omega⟩

theorem before (hx : Adds n x) (hf : ∀ a, Adds 0 (f a)) : Adds n (x >>= f) := hx.bind hf

theorem after (hx : Adds 0 x) (hf : ∀ a, Adds n (f a)) :
    Adds n (x >>= f) := (hx.bind hf).weaken (by omega)

theorem ite {c : Prop} [Decidable c] {y : Emit α} (hx : Adds n x) (hy : Adds n y) :
    Adds n (if c then x else y) := by
  split
  · exact hx
  · exact hy

theorem assembling {step : Assembler → α × Assembler} (h : ∀ a : Assembler, a.Evolves (step a).2) :
    Adds 0 (Emit.assembling step) := by
  intro σ a τ s hrun hs
  obtain ⟨-, hτ⟩ := assembling_draft hrun hs
  exact ⟨_, hτ, (h s.body).offset_le⟩

theorem marking {change : Assembler → Assembler} (h : ∀ a : Assembler, a.Evolves (change a)) :
    Adds 0 (Emit.marking change) := by
  intro σ a τ s hrun hs
  exact ⟨_, marking_draft hrun hs, (h s.body).offset_le⟩

theorem temporary (t : Ty) : Adds 0 (Emit.temporary t) := assembling fun a => .allocate t (.refl a)

theorem namedLocal (name : String) (t : Ty) : Adds 0 (Emit.namedLocal name t) :=
  assembling fun a => .named name t (.refl a)

theorem code (is : List Instruction) : Adds is.length (Emit.code is) := by
  intro σ a τ s hrun hs
  exact ⟨_, assemble_draft hrun hs, (Assembler.offset_emitAll s.body is).ge⟩

theorem instruction (i : Instruction) : Adds 1 (Emit.instruction i) := code [i]

theorem codeOf {x : Except Fault (List Instruction)} (h : ∀ is, x = .ok is → n ≤ is.length) :
    Adds n (Emit.codeOf x) := by
  refine after (of_quiet .frame) fun _ => ?_
  cases x with
  | ok is => exact (code is).weaken (h is rfl)
  | error fault => exact throw fault

theorem storeCode (t : Ty) (slot : UInt16) : Adds 1 (Emit.codeOf (t.storeCode slot)) := by
  refine codeOf fun is h => ?_
  obtain ⟨kind, -, rfl⟩ := Context.valueCode_eq_ok h
  exact le_rfl

end Adds

end Emit

def addingSteps (ctx : Context) : Stepwise ctx Unit where
  rel _ _ x _ := x.Adds 0
  pure a := .of_quiet (.pure a)
  throw _ := .throw _
  bind := .before
  get_bind h := .after (.of_quiet .get) fun σ => h σ trivial
  assembling _ h := .assembling h
  sharing _ := .of_quiet (.sharing _)
  bindingField _ _ _ := .of_quiet (.sharing _)
  modifyClass _ := .of_quiet (.modifyClass _)

instance (ctx : Context) : (addingSteps ctx).Framed () := ⟨trivial⟩

namespace Context

open Emit

theorem adds_of_related (ctx : Context) {α : Type} {x : Emit α}
    (h : Related (addingSteps ctx) () x x) : Adds 0 x := h

variable {ctx : Context} {recur : Recursion} (hrecur : recur.Lays ctx)
include hrecur

theorem adds_emitAs (node : Node) (target : Ty) : Adds 0 (ctx.emitAs recur node target) :=
  .of_lays (lays_emitAs hrecur node target)

theorem adds_emitReceiver (site : CallSite) (want : Bool) :
    Adds 0 (ctx.emitReceiver recur site want) := .of_lays (lays_emitReceiver hrecur site want)

theorem adds_emitArgs (args : List Node) (params : List Ty) :
    Adds 0 (ctx.emitArgs recur args params) := .of_lays (lays_emitArgs hrecur args params)

/-! ## Calls -/

theorem adds_callArith (site : CallSite) (operand : Ty) (want : Bool) {apply : Kind → Emit Unit}
    (happly : ∀ kind, Adds 1 (apply kind)) : Adds 1 (ctx.callArith recur site operand want apply) :=
  .after (.of_quiet (.ofExcept _)) fun _ => .after (.of_quiet (.orFault ..)) fun kind =>
    .after (adds_emitAs hrecur ..) fun _ => .before (happly kind) fun _ =>
    adds_of_related ctx (.ite (.code _) (.pure _))

theorem adds_callArray {op : ArrayOp} (hop : op ≠ .empty) (component : Ty) (params : List Ty)
    (result : Ty) (site : CallSite) (want : Bool) (jump : Label → Emit Unit) :
    Adds 1 (ctx.callArray recur op component params result site want jump) := by
  have hreceiver : Adds 0 (ctx.emitReceiver recur site true) := adds_emitReceiver hrecur site true
  have hindex : Adds 0 (ctx.emitIndex recur site params) :=
    .of_lays (lays_emitIndex hrecur site params)
  have hfinish : Adds 0 (if want then pure () else Emit.code result.popCode) :=
    adds_of_related ctx (.ite (.pure _) (.code _))
  have hmore : ∀ (i : Instruction) (is : List Instruction), Adds 1 (Emit.code (i :: is)) :=
    fun i is => (Adds.code (i :: is)).weaken (by simp)
  cases op with
  | get =>
    exact .after hreceiver fun _ => .after hindex fun _ => .before (hmore _ _) fun _ => hfinish
  | first | last => exact .after hreceiver fun _ => .before (hmore _ _) fun _ => hfinish
  | set =>
    refine .after hreceiver fun _ => .after hindex fun _ => ?_
    split
    · refine .after (adds_emitAs hrecur ..) fun _ => (Adds.code _).weaken ?_
      simp [Ty.arrayStoreCode]
    · exact .throw _
  | length => exact .after hreceiver fun _ => .before (.instruction _) fun _ => hfinish
  | empty => exact absurd rfl hop
  | join =>
    refine .before ?_ fun _ => hfinish
    refine .after hreceiver fun _ => .after (.temporary _) fun _ =>
      .before (.instruction _) fun _ => ?_
    extract_lets loop
    have hloop : ∀ separator, Adds 0 (loop separator) := by
      intro separator
      refine adds_of_related ctx (.bind (.temporary _) fun _ => .bind (.temporary _) fun _ =>
        .bind (.code _) fun _ => .bind .label fun _ => .bind .label fun _ =>
        .bind (.place _) fun _ => .bind (.code _) fun _ => ?_)
      extract_lets append
      have happend : Related (addingSteps ctx) () (append ()) (append ()) :=
        .bind (.code _) fun _ => .bind (.goto _) fun _ => .bind (.place _) fun _ => .code _
      split
      · exact .bind .label fun _ => .bind (.code _) fun _ => .bind (.place _) fun _ => happend
      · exact happend
    split
    · exact .after (.of_quiet (.pure _)) fun _ => hloop _
    · exact .after (adds_emitAs hrecur ..) fun _ => .after (.temporary _) fun _ =>
        .after (adds_of_related ctx (.instruction _)) fun _ =>
        .after (.of_quiet (.pure _)) fun _ => hloop _

theorem adds_callMethod (kind : CallableKind) (m : Member) (site : CallSite) (want : Bool) :
    Adds 1 (ctx.callMethod recur kind m site want) := by
  have hfinish : Adds 0 (Emit.finishResult m.result want) := adds_of_related ctx (.code _)
  cases kind with
  | constructor =>
    exact .after (adds_emitReceiver hrecur ..) fun _ =>
      .after (adds_of_related ctx (.code _)) fun _ => .after (adds_emitArgs hrecur ..) fun _ =>
      .before (.instruction _) fun _ => adds_of_related ctx (.ite (.instruction _) (.pure _))
  | initializer => exact .throw _
  | static | onInstance =>
    exact .after (adds_emitReceiver hrecur ..) fun _ => .after (adds_emitArgs hrecur ..) fun _ =>
      .before (.instruction _) fun _ => hfinish

theorem adds_callMember {m : Member} (hm : m.leavesCode = true) (site : CallSite) (want : Bool) :
    Adds 1 (ctx.callMember recur m site want) := by
  unfold callMember
  split
  · exact adds_callArith hrecur _ _ _ fun _ => .after (.of_quiet (.ofExcept _)) fun _ =>
      .after (adds_emitAs hrecur ..) fun _ => .instruction _
  · exact adds_callArith hrecur _ _ _ fun _ => .instruction _
  · cases hm
  · cases hm
  · exact .after (adds_emitReceiver hrecur ..) fun _ => .before (.instruction _) fun _ =>
      adds_of_related ctx (.ite (.instruction _) (.pure _))
  · cases hm
  · refine adds_callArray hrecur ?_ ..
    rintro rfl
    cases hm
  · exact adds_callMethod hrecur ..
  · exact .after (adds_emitReceiver hrecur ..) fun _ => .before (.instruction _) fun _ =>
      adds_of_related ctx (.code _)
  · cases hm
  · exact .after (adds_emitReceiver hrecur ..) fun _ => .after (adds_emitArgs hrecur ..) fun _ =>
      (Adds.code _).weaken (by simp)
  · exact .after (adds_emitReceiver hrecur ..) fun _ => .after (adds_emitArgs hrecur ..) fun _ =>
      (Adds.code _).weaken (by simp)

/-! ## Statements -/

theorem adds_emitLocalAssign (node : Node) (name : String) (value : Node) (want : Bool) :
    Adds 1 (ctx.emitLocalAssign recur node name value want) :=
  .after (.of_quiet (.ofExcept _)) fun _ => .ite
    (.after (adds_of_related ctx related_pushBinding) fun _ =>
      .after (.of_quiet (quiet_captureField ..)) fun _ => .after (adds_emitAs hrecur ..) fun _ =>
      (Adds.code _).weaken (by simp))
    (.after (.namedLocal ..) fun _ => .after (adds_emitAs hrecur ..) fun _ => .ite
      (.after (adds_of_related ctx (.code _)) fun _ => .storeCode ..) (.storeCode ..))

theorem adds_emitFieldAssign (name : String) (value : Node) (isStatic : Bool) (notes : List Note)
    (want : Bool) : Adds 1 (ctx.emitFieldAssign recur name value isStatic notes want) :=
  .after (.of_quiet .get) fun _ => .after (.of_quiet (.nodeType _)) fun _ =>
    .after (.of_quiet (quiet_declareField ..)) fun _ => .after (.of_quiet (quiet_fieldOf ..))
    fun _ => .ite
      (.after (adds_emitAs hrecur ..) fun _ => (Adds.code _).weaken (by simp))
      (.after (adds_of_related ctx related_pushSelf) fun _ =>
        .after (adds_emitAs hrecur ..) fun _ =>
        (Adds.code _).weaken (by simp))

theorem adds_emitRaise (value : Node) : Adds 1 (ctx.emitRaise recur value) := by
  have hvalue : ∀ want, Adds 0 (recur.emit value want) := fun want => .of_lays (hrecur.emit ..)
  have hthrow : Adds 1 (Emit.instruction .athrow) := .instruction _
  refine .after (.of_quiet (.nodeType _)) fun _ => .ite ?_ (.ite ?_ ?_)
  · exact .after (adds_of_related ctx (.code _)) fun _ => .after (hvalue _) fun _ =>
      .after (adds_of_related ctx (.instruction _)) fun _ => hthrow
  · exact .after (hvalue _) fun _ => .after (adds_of_related ctx (.code _)) fun _ => hthrow
  · exact .after (hvalue _) fun _ => hthrow

theorem adds_emitPrint {newline : Bool} (h : (newline || !args.isEmpty) = true) (want : Bool) :
    Adds 1 (ctx.emitPrint recur newline args want) := by
  have hpush : Adds 0 (Emit.push want .aconstNull) := adds_of_related ctx (.push ..)
  have hprinted : ∀ args : List Node, Adds (if args.isEmpty then 0 else 1)
      (ctx.emitPrinted recur newline args) := by
    intro args
    induction args with
    | nil => exact .of_quiet (.pure _)
    | cons arg rest ih =>
      exact .after (.of_quiet (.nodeType _)) fun _ => .before (.instruction _) fun _ =>
        .after (adds_emitAs hrecur ..) fun _ => .after (adds_of_related ctx (.instruction _))
        fun _ => ih.weaken (Nat.zero_le _)
  unfold emitPrint
  split
  · exact .before ((Adds.code _).weaken (by simp)) fun _ =>
      .after ((hprinted args).weaken (Nat.zero_le _)) fun _ => hpush
  · rename_i hnone
    have hargs : args.isEmpty = false := by
      cases newline <;> cases hempty : args.isEmpty <;> simp_all
    have := hprinted args
    rw [hargs] at this
    exact .before this fun _ => hpush

theorem adds_emitBody (want : Bool) {nodes : List Node} (hnode : node ∈ nodes)
    (hadds : ∀ want, Adds 1 (recur.emit node want)) : Adds 1 (emitBody recur want nodes) := by
  have hnodes : ∀ nodes : List Node, Adds 0 (emitBody recur want nodes) := fun nodes =>
    .of_lays (lays_emitBody hrecur want nodes)
  induction nodes with
  | nil => cases hnode
  | cons first rest ih =>
    cases rest with
    | nil =>
      obtain rfl := List.mem_singleton.1 hnode
      exact hadds want
    | cons next rest =>
      rcases List.mem_cons.1 hnode with rfl | hrest
      · exact .before (hadds false) fun _ => hnodes _
      · exact .after (.of_lays (hrecur.emit ..)) fun _ => ih hrest

end Context

/-! ## Nodes -/

theorem Cond.mem_silentNames {cond : Cond} (h : Cond.ofSymbol? name = some cond) :
    name ∈ Member.silentNames := by
  unfold Cond.ofSymbol? at h
  split at h
  all_goals cases h
  all_goals decide

/-- A call gives an instruction whatever it means, if its name says so. -/
theorem MemberTable.Serves.leavesCode {table : MemberTable} {count : Nat} {m : Member}
    (h : table.Serves name count m) (hname : table.callLeavesCode name = true) :
    m.leavesCode = true := by
  obtain ⟨hsilent, hall⟩ := Bool.and_eq_true_iff.1 hname
  have hsilent : name ∉ Member.silentNames := by simpa using hsilent
  cases h with
  | listed hmem hcall =>
    rcases hcall with rfl | hconstructor
    · simpa using List.all_eq_true.1 hall m hmem
    · cases m with
      | callable => rfl
      | _ => cases hconstructor
  | not heq | classLiteral _ heq => exact absurd (heq ▸ by decide) hsilent
  | compare _ _ _ hcond => exact absurd (Cond.mem_silentNames hcond) hsilent
  | @array op _ _ _ _ hempty =>
    cases op with
    | empty => exact absurd (hempty rfl ▸ by decide) hsilent
    | _ => rfl
  | negate | arith | instanceOf => rfl

theorem anyLeavesCode_eq_true {members : MemberTable} {nodes : List Node} :
    anyLeavesCode members nodes = true ↔ ∃ node ∈ nodes, node.leavesCode members = true := by
  induction nodes with
  | nil => simp [anyLeavesCode]
  | cons node nodes ih => simp [anyLeavesCode, ih]

theorem length_of_mapM {α β : Type} {f : α → Except Fault β} {xs : List α} {ys : List β}
    (h : xs.mapM f = .ok ys) : ys.length = xs.length := by
  induction xs generalizing ys with
  | nil =>
    cases h
    rfl
  | cons x xs ih =>
    rw [List.mapM_cons] at h
    cases hx : f x with
    | error fault => rw [hx] at h; cases h
    | ok y =>
      cases hxs : xs.mapM f with
      | error fault => rw [hx, hxs] at h; cases h
      | ok rest =>
        rw [hx, hxs] at h
        cases h
        rw [List.length_cons, List.length_cons, ih hxs]

namespace Context

open Emit

variable {ctx : Context}

theorem serves_of_lookup {receiver : Ty} {m : Member} (h : ctx.lookup receiver name args = .ok m) :
    ctx.members.Serves name args.length m := by
  unfold lookup at h
  cases htypes : args.mapM ctx.typeOf with
  | error fault => rw [htypes] at h; cases h
  | ok types =>
    rw [htypes] at h
    dsimp only [bind, Except.bind] at h
    split at h
    · rename_i found hfound
      cases h
      rw [← length_of_mapM htypes]
      exact Registry.serves_of_resolve? hfound
    · cases h

theorem adds_withMember {target : Option Node} {use : Member → CallSite → Emit Unit}
    (huse : ∀ m, ctx.members.Serves name args.length m → Adds 1 (use m ⟨target, args, node⟩)) :
    Adds 1 (ctx.withMember node target name args use) := by
  have hlookup : ∀ receiver, Adds 1 (do
      use (← Emit.ofExcept (ctx.lookup receiver name args)) ⟨target, args, node⟩) := by
    intro receiver
    cases h : ctx.lookup receiver name args with
    | ok m => exact huse m (serves_of_lookup h)
    | error fault => exact .throw fault
  unfold withMember
  split
  · exact .after (.of_quiet (.nodeType _)) hlookup
  · exact .after (.of_quiet quiet_selfType) hlookup

theorem adds_emit (depth : Nat) (hnode : node.leavesCode ctx.members = true) (want : Bool) :
    Adds 1 ((ctx.recursion depth).emit node want) := by
  induction depth generalizing node want with
  | zero => exact .throw _
  | succ depth ih =>
    have hrecur := lays_recursion ctx depth
    obtain ⟨id, span, kind⟩ := node
    have hkind : kind.leavesCode ctx.members = true := by rwa [Node.leavesCode] at hnode
    refine .after (.after (.marking fun a => .visit _ (.refl a)) fun _ =>
      .of_lays (lays_markLine _)) fun _ => ?_
    cases kind with
    | raise value => exact adds_emitRaise hrecur value
    | localAssign name value => exact adds_emitLocalAssign hrecur ..
    | fieldAssign name value isStatic notes => exact adds_emitFieldAssign hrecur ..
    | print newline args =>
      exact adds_emitPrint hrecur hkind want
    | call | selfCall =>
      exact adds_withMember fun m hm => adds_callMember hrecur (hm.leavesCode hkind) ..
    | body nodes =>
      obtain ⟨part, hpart, hleaves⟩ := anyLeavesCode_eq_true.1 hkind
      exact adds_emitBody hrecur want hpart fun want => ih hleaves want
    | _ => cases hkind

theorem adds_emitArm (depth : Nat) (hnode : node.leavesCode ctx.members = true) (value : Bool)
    (t : Ty) : Adds 1 (ctx.emitArm (ctx.recursion depth) (some node) value t) :=
  .ite (.after (.of_quiet (.nodeType _)) fun _ => .before (adds_emit depth hnode true) fun _ =>
    adds_of_related ctx (.bind .reachable fun _ => .ite (related_convert ..) (.pure _)))
    (adds_emit depth hnode false)

end Context

end ClassBackend
