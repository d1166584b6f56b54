import ClassBackend.Proofs.Layout.Record

/-!
# Rescue

The code of a rescue is its body, its else clause and its clauses, in this order.
The parts of it are told apart by the drafts between them (`RescueParts`), and
what an exception or control does in each of them follows from what the method
around it includes of the rescue (`RescueParts.Emitted.rescues`). A clause starts
with the exception alone on the stack: it binds it to its variable, and what was
on the stack before the rescue is lost.
-/

namespace ClassBackend

open Emit Machine

namespace Context

variable {clause : RescueClause} {own : List Label} {e : Draft} {target : Label}

variable {ctx : Context} {method : MethodInfo} {s t x y : Draft} {p : Nat} {isA : String → Bool}

/-! ## The drafts of a rescue -/

variable {value : Bool} {ty : Ty} {call : MethodCall} {limit : Nat} {gaps : List Gap}
  {blocks : List Block}

theorem EmitsArm.laid {arm : Option Node} (h : ctx.EmitsArm arm value ty s t) :
    ∃ gaps blocks, Laid ctx (.code [] [] []) s t gaps blocks := by
  obtain ⟨depth, σ, σ', harm, hs, ht⟩ := h
  obtain ⟨t', gaps, blocks, ht', hlaid⟩ := lays_emitArm (lays_recursion ctx depth) _ _ _ harm hs
  cases ht.symm.trans ht'
  exact ⟨gaps, blocks, hlaid⟩

theorem Binds.laid (h : ctx.Binds clause s t) :
    ∃ gaps blocks, Laid ctx (.code [] [] []) s t gaps blocks := by
  obtain ⟨σ, σ', hbind, hs, ht⟩ := h
  obtain ⟨t', gaps, blocks, ht', hlaid⟩ := lays_bindException clause hbind hs
  cases ht.symm.trans ht'
  exact ⟨gaps, blocks, hlaid⟩

theorem Emits.rescueParts {node body : Node} {clauses : List RescueClause}
    {elseClause : Option Node} {want : Bool} (h : ctx.Emits node want s t)
    (hkind : node.kind = .rescue body clauses elseClause) :
    ∃ first ty parts gaps blocks, SameCode s first ∧ ctx.typeOf node = .ok ty ∧
      RescueParts.Emitted parts first ctx body clauses elseClause (want && !ty.isVoid) ty ∧
      Laid ctx (.code [] [] []) (parts.exit first) t gaps blocks := by
  obtain ⟨depth, σ, σ', hemit, hs, ht⟩ := h
  cases depth with
  | zero => exact absurd hemit throw_ne_ok
  | succ depth =>
    obtain ⟨_, τ, hmark, hrun⟩ := bind_eq_ok.1 hemit
    obtain ⟨first, hτ, hfirst⟩ := enter_draft hmark hs
    simp only [hkind] at hrun
    obtain ⟨ty, parts, τ', hty, hparts, hτ', hfill⟩ :=
      emitRescue_parts (lays_recursion ctx depth) hrun hτ
    obtain ⟨t', gaps, blocks, ht', hlaid⟩ := lays_fillValue _ _ hfill hτ'
    cases ht.symm.trans ht'
    exact ⟨first, ty, parts, gaps, blocks, sameCode_of_entered hfirst, hty, hparts, hlaid⟩

/-! ## Handlers -/

theorem handlerIn_rescue (block : RescueBlock) (hlo : block.start ≤ p) (hhi : p < block.stop) :
    handlerIn block.entries p isA =
      if block.classes.any isA then some block.handler else none := by
  obtain ⟨start, stop, classes, handler, finish, done⟩ := block
  induction classes with
  | nil => rfl
  | cons name classes ih =>
    have hrest := ih hlo hhi
    simp only [RescueBlock.entries, List.map_cons, List.any_cons] at hrest ⊢
    rw [← List.singleton_append, handlerIn_append, hrest]
    by_cases hname : isA name
    · simp [handlerIn, hname, show start ≤ p from hlo, show p < stop from hhi]
    · simp [handlerIn, hname]

@[simp] theorem ClausePart.offset_enter (part : ClausePart) (start stop : Label) :
    (part.enter start stop).offset = part.entry.offset := by
  simp [enter]

theorem ClausePart.Emitted.within {part : ClausePart} {start stop done : Label}
    (h : part.Emitted start stop done ctx value ty) : part.entry.offset ≤ (part.next done).offset ∧
      ∀ block ∈ part.blocks, block.Within part.entry.offset (part.next done).offset := by
  obtain ⟨gaps, hlaid⟩ := h.laid
  rw [← part.offset_enter start stop]
  exact ⟨hlaid.offset_le, hlaid.within⟩

namespace EmitsClauses

variable {start stop done : Label} {value : Bool} {ty : Ty} {parts : List ClausePart}
  {part : ClausePart} {range : Nat × Nat} {finish : Nat}

theorem handlerIn_allBlocks {head : ClausePart} :
    handlerIn (((head :: parts).flatMap (·.allBlocks done range finish)).flatMap Block.entries) p
      isA = ((handlerIn (head.block done range finish).entries p isA).or
        (handlerIn (head.blocks.flatMap Block.entries) p isA)).or
        (handlerIn ((parts.flatMap (·.allBlocks done range finish)).flatMap Block.entries) p
          isA) := by
  rw [List.flatMap_cons, List.flatMap_append, handlerIn_append, ClausePart.allBlocks,
    List.flatMap_cons, handlerIn_append]
  rfl

theorem handlerIn_blocks (hlo : range.1 ≤ p) (hhi : p < range.2) :
    handlerIn (parts.flatMap fun part => (part.block done range finish).entries) p isA =
      (parts.find? (·.classes.any isA)).map (·.entry.offset) := by
  induction parts with
  | nil => rfl
  | cons head parts ih =>
    rw [List.flatMap_cons, handlerIn_append, ih,
      handlerIn_rescue (head.block done range finish) hlo hhi, List.find?_cons]
    show (if head.classes.any isA then some head.entry.offset else none).or _ = _
    cases head.classes.any isA <;> rfl

theorem handlerIn_block (hp : range.2 ≤ p) :
    handlerIn (part.block done range finish).entries p isA = none := by
  refine handlerIn_eq_none fun e he => ?_
  obtain ⟨name, -, rfl⟩ := List.mem_map.1 he
  exact .inr hp

section

variable (h : ctx.EmitsClauses start stop done value ty parts s t)
include h

theorem grows : Grows [] s.body t.body := by
  have hrange : ((0, 1) : Nat × Nat).1 ≠ ((0, 1) : Nat × Nat).2 := by simp
  obtain ⟨gaps, hlaid⟩ := h.laid hrange 0
  exact hlaid.grows

/-- The code of a clause lies between that of the clauses before and behind. -/
theorem grows_around (hpart : part ∈ parts) : Grows [] s.body part.entry.body ∧
      part.Emitted start stop done ctx value ty ∧ Grows [] (part.next done).body t.body := by
  induction h with
  | nil => cases hpart
  | @cons head _ _ hhead hrest ih =>
    obtain ⟨gaps, hlaid⟩ := hhead.laid
    have hgrows :=
      (Laid.grows_enterClause head.entry.body start stop head.classes).trans hlaid.grows
    rcases List.mem_cons.1 hpart with rfl | hpart
    · exact ⟨.refl _ _, hhead, hrest.grows⟩
    · obtain ⟨hbefore, hafter⟩ := ih hpart
      exact ⟨hgrows.trans hbefore, hafter⟩

theorem handlerIn_body (hhi : p < range.2) (hstart : range.2 ≤ s.offset) :
    handlerIn ((parts.flatMap (·.allBlocks done range finish)).flatMap Block.entries) p isA =
      handlerIn (parts.flatMap fun part => (part.block done range finish).entries) p isA := by
  induction h with
  | nil => rfl
  | cons hhead _ ih =>
    obtain ⟨hle, hwithin⟩ := hhead.within
    rw [handlerIn_allBlocks, handlerIn_of_within hwithin (.inl (by omega)), ih (by omega),
      Option.or_none, List.flatMap_cons, handlerIn_append]

/-- What is raised before the clauses, but not in the body, none of them
catches. -/
theorem handlerIn_before (hlo : range.2 ≤ p) (hhi : p < s.offset) :
    handlerIn ((parts.flatMap (·.allBlocks done range finish)).flatMap Block.entries) p isA =
      none := by
  induction h with
  | nil => rfl
  | cons hhead _ ih =>
    obtain ⟨hle, hwithin⟩ := hhead.within
    rw [handlerIn_allBlocks, handlerIn_block hlo, handlerIn_of_within hwithin (.inl hhi),
      ih (by omega)]
    rfl

theorem handlerIn_clause (hpart : part ∈ parts) (hlo : part.entry.offset ≤ p)
    (hhi : p < (part.next done).offset) (hstart : range.2 ≤ s.offset) :
    handlerIn ((parts.flatMap (·.allBlocks done range finish)).flatMap Block.entries) p isA =
      handlerIn (part.blocks.flatMap Block.entries) p isA := by
  induction h with
  | nil => cases hpart
  | @cons head _ _ hhead hrest ih =>
    obtain ⟨hle, hwithin⟩ := hhead.within
    rcases List.mem_cons.1 hpart with rfl | hpart
    · rw [handlerIn_allBlocks, handlerIn_block (by omega), hrest.handlerIn_before (by omega) hhi,
        Option.none_or, Option.or_none]
    · have hbefore := (hrest.grows_around hpart).1.offset_le
      have hp : (head.next done).offset ≤ p := hbefore.trans hlo
      rw [handlerIn_allBlocks, handlerIn_block (by omega), handlerIn_of_within hwithin (.inr hp),
        ih hpart (by omega)]
      rfl

end

end EmitsClauses

/-! ## Control -/

/-- Control in the code between two points stays there until it leaves. -/
def StaysIn (call : MethodCall) (limit : Nat) (method : MethodInfo) (lo hi : Nat)
    (leaves : Config → Prop) : Prop :=
  ∀ c c', lo ≤ c.index → c.index < hi → Reaches call limit method c c' →
    (lo ≤ c'.index ∧ c'.index < hi) ∨
      ∃ e, leaves e ∧ Reaches call limit method c e ∧ Reaches call limit method e c'

theorem staysIn_of_moves {lo hi : Nat} {leaves : Config → Prop}
    (h : ∀ c c', lo ≤ c.index → c.index < hi → Moves call limit method c c' →
      (lo ≤ c'.index ∧ c'.index < hi) ∨ leaves c') : StaysIn call limit method lo hi leaves :=
  fun _ _ hlo hhi hreaches => Reaches.stays (fun c => lo ≤ c.index ∧ c.index < hi) leaves
    (fun c c' hc => h c c' hc.1 hc.2) hreaches ⟨hlo, hhi⟩

/-- A part of a method that ends with a jump if control gets to its end. -/
structure Sealed (ctx : Context) (method : MethodInfo) (target : Label)
    (outer : List ExceptionEntry) (x y : Draft) (blocks : List Block) : Prop where
  laid : ∃ gaps, Laid ctx (.code [] [target] []) x y gaps blocks
  part : method.Extends x y
  dispatches : method.Dispatches x.offset y.offset (blocks.flatMap Block.entries) outer
  ended : ∃ e : Draft, Grows [] x.body e.body ∧ y = e.edit (·.gotoIfReachable target)

variable {outer : List ExceptionEntry}

/-- Such code is not left at its end: no label of the code stands there, and no
instruction continues there. -/
theorem Sealed.ending (h : Sealed ctx method target outer x y blocks) :
    (∀ (l : Label) q, x.body.labels.size ≤ l.id → y.body.position? l = some q →
      x.offset ≤ q ∧ q < y.offset) ∧
    ∀ p i, p + 1 = y.offset → y.body.code[p]? = some i → i.isTerminal := by
  obtain ⟨e, hgrows, hy⟩ := h.ended
  by_cases hreach : e.body.reachable
  · have hgoto : y = e.edit (·.emit (.goto target)) := by
      simp [hy, Draft.edit, Assembler.gotoIfReachable, hreach, Assembler.goto]
    subst hgoto
    refine ⟨fun l q hl hq => ?_, fun p i hp hi => ?_⟩
    · have hbounds := hgrows.bounds_of_made hl hq
      exact ⟨hbounds.1, by simpa using Nat.lt_succ_of_le hbounds.2⟩
    · have hp : p = e.body.offset := by simpa using hp
      subst hp
      have hlast := e.body.getElem?_emitAll [.goto target] 0
      cases hi.symm.trans hlast
      rfl
  · have hsame : y = e := by simp [hy, Draft.edit, Assembler.gotoIfReachable, hreach]
    subst hsame
    obtain ⟨⟨last, hlast, hterminal⟩, hout⟩ :=
      Assembler.reachable_eq_false_iff.1 (Bool.eq_false_iff.2 hreach)
    refine ⟨fun l q hl hq => ?_, fun p i hp hi => ?_⟩
    · have hbounds := hgrows.bounds_of_made hl hq
      exact ⟨hbounds.1, lt_of_le_of_ne hbounds.2 fun heq => hout l (hq.trans (congrArg some heq))⟩
    · rw [Array.back?_eq_getElem?, show y.body.code.size - 1 = p from by
        have hsize : y.offset = y.body.code.size := rfl
        omega] at hlast
      rwa [Option.some.inj (hi.symm.trans hlast)]

/-- Code that ends with a jump is not left but by jumps and exceptions. -/
theorem Sealed.staysIn (h : Sealed ctx method target outer x y blocks) :
    StaysIn call limit method x.offset y.offset (Leaves method [target] x.jumps outer) := by
  obtain ⟨gaps, hlaid⟩ := h.laid
  obtain ⟨hlabels, hlast⟩ := h.ending
  refine staysIn_of_moves fun c c' hlo hhi hmoves => ?_
  rcases hlaid.moves h.part h.dispatches hlo hhi hmoves with
    ⟨hnext, i, hi, hgoes⟩ | ⟨l, hl, hq⟩ | hleaves
  · have hne : c.index + 1 ≠ y.offset := fun heq => by
      rw [hlast _ i heq hi] at hgoes
      cases hgoes
    exact .inl ⟨by omega, by omega⟩
  · exact .inl (hlabels l _ hl hq)
  · exact .inr hleaves

/-- What is raised between two points is caught there, behind the first of them, or
behind a third point. -/
def Isolated (method : MethodInfo) (lo hi past : Nat) : Prop :=
  ∀ (m : Machine) p exception q, lo ≤ p → p < hi → m.handler? method p exception = some q →
    (lo < q ∧ q < hi) ∨ past ≤ q

/-- What is raised in code that ends with a jump finds no handler that starts
with this code or ends it. -/
theorem Sealed.isolated {past : Nat} (h : Sealed ctx method target outer x y blocks)
    (hpast : ∀ e ∈ outer, past ≤ e.handler) : Isolated method x.offset y.offset past := by
  intro m p exception q hlo hhi hq
  obtain ⟨gaps, hlaid⟩ := h.laid
  have hfound := (h.dispatches p (m.instanceOf exception) hlo hhi).symm.trans hq
  rcases Option.or_eq_some_iff.1 hfound with hown | ⟨-, hout⟩
  · obtain ⟨entry, he, -, -, rfl⟩ := exists_of_handlerIn hown
    obtain ⟨l, hl, hposition⟩ := hlaid.handler_made he
    obtain ⟨block, hblock, he⟩ := List.mem_flatMap.1 he
    have hwithin : block.Within x.offset y.offset := hlaid.within block hblock
    have hbounds := hwithin.bounds
    have hentry := hwithin.entry he
    have hlt := hwithin.start_lt_stop he
    exact .inl ⟨by omega, (h.ending.1 l _ hl hposition).2⟩
  · obtain ⟨entry, he, -, -, rfl⟩ := exists_of_handlerIn hout
    exact .inr (hpast entry he)

/-! ## The exception that a clause gets -/

/-- A captured variable is a field of the binding; the code that stores the
exception starts by loading the binding. -/
def HasBinding (x y : Draft) (a : Activation) (m : Machine) : Prop :=
  ∀ slot, y.body.code[x.offset]? = some (.load .ref slot) → ∃ address className fields,
    a.locals[slot.toNat]? = some (.ref address) ∧ m.heap[address]? = some (.inst className fields)

/-- The variable of the clause is captured by a closure. -/
def CapturesException (ctx : Context) (clause : RescueClause) : Prop :=
  ∃ name scope, clause.name = some name ∧ ctx.scopes.scopeFor? clause.id = some scope ∧
    ctx.scopes.isCaptured scope name = true

/-- The variable of the clause, where it has one, has the exception. -/
def HoldsException (ctx : Context) (clause : RescueClause) (x y : Draft) (exception : Address)
    (a : Activation) (m : Machine) : Prop :=
  ∀ name, clause.name = some name → ∃ scope, ctx.scopes.scopeFor? clause.id = some scope ∧
    if ctx.scopes.isCaptured scope name then
      ∃ slot address object, y.body.code[x.offset]? = some (.load .ref slot) ∧
        a.locals[slot.toNat]? = some (.ref address) ∧ m.heap[address]? = some object ∧
        object.field? name = some (.ref exception)
    else ∃ slot, y.body.slotOf? (ctx.scopes.slotName scope name) = some slot ∧
      a.locals[slot.toNat]? = some (.ref exception)

theorem Binds.cases (h : ctx.Binds clause x y) :
    (clause.name = none ∧ y = x.edit (·.emitAll [.pop])) ∨
    ∃ name scope, clause.name = some name ∧ ctx.scopes.scopeFor? clause.id = some scope ∧
      ((ctx.scopes.isCaptured scope name = true ∧ ∃ slot field, field.name = name ∧
          y = x.edit (·.emitAll [.load .ref slot, .swap, .putField field])) ∨
        (ctx.scopes.isCaptured scope name = false ∧ ∃ t kind, y = x.edit fun a =>
          (a.namedLocal (ctx.scopes.slotName scope name) t).2.emitAll
            [.store kind (a.namedLocal (ctx.scopes.slotName scope name) t).1])) := by
  obtain ⟨σ, σ', hbind, hx, hy⟩ := h
  unfold bindException at hbind
  cases hname : clause.name with
  | none =>
    simp only [hname] at hbind
    exact .inl ⟨rfl, Option.some.inj (hy.symm.trans (assemble_draft hbind hx))⟩
  | some name =>
    simp only [hname] at hbind
    obtain ⟨scope, hscope, hbind⟩ := orFault_bind_eq_ok.1 hbind
    obtain ⟨t, -, hbind⟩ := orFault_bind_eq_ok.1 hbind
    refine .inr ⟨name, scope, rfl, hscope, ?_⟩
    cases hcaptured : ctx.scopes.isCaptured scope name with
    | true =>
      rw [hcaptured, if_pos rfl] at hbind
      obtain ⟨binding, τ, hpush, hbind⟩ := bind_eq_ok.1 hbind
      obtain ⟨field, τ', hfield, hcode⟩ := bind_eq_ok.1 hbind
      obtain ⟨slot, hτ⟩ : ∃ slot, τ.draft? = some (x.edit (·.emit (.load .ref slot))) := by
        obtain ⟨current, -, hpush⟩ := frame_bind_eq_ok.1 hpush
        cases hbinding : current.binding with
        | none =>
          simp only [hbinding] at hpush
          exact absurd hpush throw_ne_ok
        | some known =>
          cases hslot : current.bindingSlot with
          | none =>
            simp only [hbinding, hslot] at hpush
            exact absurd hpush throw_ne_ok
          | some slot =>
            simp only [hbinding, hslot] at hpush
            obtain ⟨_, τ₁, hload, hpure⟩ := bind_eq_ok.1 hpush
            exact ⟨slot, (pure_eq_ok.1 hpure).2 ▸ assemble_draft hload hx⟩
      have hσ' := assemble_draft hcode ((quiet_captureField _ _ _ hfield).trans hτ)
      refine .inl ⟨rfl, slot, field, ?_, Option.some.inj (hy.symm.trans hσ')⟩
      obtain ⟨declared, τ₁, -, hpure⟩ := bind_eq_ok.1 hfield
      rw [(pure_eq_ok.1 hpure).1]
    | false =>
      rw [hcaptured, if_neg Bool.false_ne_true] at hbind
      obtain ⟨slot, τ, hslot, hcode⟩ := bind_eq_ok.1 hbind
      obtain ⟨rfl, hτ⟩ := assembling_draft (show Emit.assembling (·.namedLocal
        (ctx.scopes.slotName scope name) t) σ = .ok slot τ from hslot) hx
      obtain ⟨is, hstore, hσ'⟩ := codeOf_draft hcode hτ
      obtain ⟨kind, -, rfl⟩ := valueCode_eq_ok hstore
      exact .inr ⟨rfl, t, kind, Option.some.inj (hy.symm.trans hσ')⟩

theorem perform_putField (call : MethodCall) (limit : Nat) (field : MemberRef) {address : Address}
    {className : String} {fields : List (String × Value)} {value : Value} {rest : Stack}
    {a : Activation} {m : Machine} (h : a.stack = value :: .ref address :: rest)
    (hobject : m.heap[address]? = some (.inst className fields)) :
    Machine.perform call limit (.putField field) a m = .ok ((), { a with stack := rest }) { m with
      heap := m.heap.setIfInBounds address
        (.inst className (Object.putEntry field.name value fields)) } :=
  Act.then_ok (Act.pop_ok h) (Act.then_ok (Act.then_ok (Act.then_ok (Act.pop_ok rfl) rfl) rfl)
    (Act.then_ok (Act.lift_eq_ok.2 ⟨Run.object_ok hobject, rfl⟩) rfl))

/-- The code that binds an exception takes it off the stack and stores it in the
variable. -/
theorem Binds.reaches {exception : Address} {rest : Stack} {a : Activation} {m : Machine}
    (h : ctx.Binds clause x y) (hmethod : method.Extends s t) (hend : Grows own y.body t.body)
    (hstack : a.stack = .ref exception :: rest)
    (hbinding : ctx.CapturesException clause → HasBinding x y a m) :
    ∃ a' m', Reaches call limit method ⟨x.offset, a, m⟩ ⟨y.offset, a', m'⟩ ∧ a'.stack = rest ∧
      ctx.HoldsException clause x y exception a' m' := by
  have hreaches : ∀ {z : Draft} {is : List Instruction} {a' m'}, y = z.edit (·.emitAll is) →
      z.offset = x.offset → Runs call limit is a m a' m' →
      Reaches call limit method ⟨x.offset, a, m⟩ ⟨y.offset, a', m'⟩ := by
    rintro z is a' m' rfl hz hruns
    have hpast := hruns.reaches fun n i hi => hmethod.emitAll (x := z) hend hi
    rw [hz] at hpast
    have hoffset : (z.edit (·.emitAll is)).offset = x.offset + is.length := by simp [← hz]
    rwa [hoffset]
  rcases h.cases with ⟨hname, hy⟩ | ⟨name, scope, hname, hscope, hcode⟩
  · have hpop : Machine.perform call limit .pop a m = .ok ((), { a with stack := rest }) m :=
      Run.then_ok (Act.pop_ok hstack) rfl
    refine ⟨_, _, hreaches (z := x) hy rfl (.perform hpop rfl rfl (.nil _ _)), rfl, ?_⟩
    simp [HoldsException, hname]
  · rcases hcode with ⟨hcaptured, slot, field, rfl, hy⟩ | ⟨hcaptured, ty, kind, hy⟩
    · have hload : y.body.code[x.offset]? = some (.load .ref slot) := by
        rw [hy]
        exact x.body.getElem?_emitAll [.load .ref slot, .swap, .putField field] 0
      obtain ⟨address, className, fields, hlocal, hobject⟩ :=
        hbinding ⟨_, scope, hname, hscope, hcaptured⟩ slot hload
      have hfirst : Machine.perform call limit (.load .ref slot) a m =
          .ok ((), { a with stack := .ref address :: .ref exception :: rest }) m :=
        Act.then_ok (Act.readLocal_ok hlocal) (by rw [← hstack]; rfl)
      have hwrite := perform_putField call limit field
        (a := { a with stack := .ref exception :: .ref address :: rest }) rfl hobject
      obtain ⟨object, hheap, hfield⟩ := field_of_putField rfl hwrite
      refine ⟨_, _, hreaches (z := x) hy rfl (.perform hfirst rfl rfl (.perform rfl rfl rfl
        (.perform hwrite rfl rfl (.nil _ _)))), rfl, fun known hknown => ?_⟩
      cases hname.symm.trans hknown
      refine ⟨scope, hscope, ?_⟩
      rw [if_pos hcaptured]
      exact ⟨slot, address, object, hload, hlocal, hheap, hfield⟩
    · have hstore : Machine.perform call limit (.store kind
          (x.body.namedLocal (ctx.scopes.slotName scope name) ty).1) a m = .ok ((),
          ({ a with stack := rest } : Activation).store _ (.ref exception)) m :=
        Act.then_ok (Act.pop_ok hstack) rfl
      refine ⟨_, _, hreaches (z := x.edit fun a => (a.namedLocal _ ty).2) hy (by simp)
        (.perform hstore rfl rfl (.nil _ _)), rfl, fun known hknown => ?_⟩
      cases hname.symm.trans hknown
      refine ⟨scope, hscope, ?_⟩
      rw [if_neg (by simp [hcaptured])]
      refine ⟨_, ?_, Activation.getElem?_store _ _ _⟩
      rw [hy]
      exact x.body.slotOf?_namedLocal _ ty

/-! ## The parts of a rescue -/

/-- The entries of the clauses of a rescue, which protect its body. -/
abbrev RescueParts.clauseEntries (parts : RescueParts) (s : Draft) : List ExceptionEntry :=
  parts.clauses.flatMap fun part =>
    (part.block (done s) (s.offset, parts.body.offset) parts.last.offset).entries

namespace RescueParts.Emitted

variable {parts : RescueParts} {body : Node} {clauses : List RescueClause}
  {elseClause : Option Node} {value : Bool} {ty : Ty} {gaps : List Gap} {blocks : List Block}

section

variable (h : parts.Emitted s ctx body clauses elseClause value ty)
include h

theorem offsets : s.offset ≤ parts.body.offset ∧ parts.body.offset ≤ (parts.handlers s).offset ∧
    (parts.handlers s).offset ≤ parts.last.offset := by
  obtain ⟨gaps, hbody⟩ := h.bodyLaid
  obtain ⟨gaps', hother⟩ := h.otherLaid
  exact ⟨hbody.offset_le, hother.offset_le, h.clauses.grows.offset_le⟩

theorem sizes : (enter s).body.labels.size = s.body.labels.size + 3 ∧
    s.body.labels.size + 3 ≤ (parts.close s).body.labels.size ∧
    s.body.labels.size + 3 ≤ (parts.handlers s).body.labels.size := by
  obtain ⟨gaps, hbody⟩ := h.bodyLaid
  obtain ⟨gaps', hother⟩ := h.otherLaid
  have henter : (enter s).body.labels.size = s.body.labels.size + 3 := by simp [enter, Draft.edit]
  have hclose : s.body.labels.size + 3 ≤ (parts.close s).body.labels.size := by
    rw [← henter]
    simpa [close, Draft.edit] using hbody.size_le
  exact ⟨henter, hclose, hclose.trans hother.size_le⟩

variable (hlast : Laid ctx (.code [] [] []) (parts.exit s) t gaps blocks)
include hlast

/-- Every part of a rescue has its own exceptions go to its own blocks first. What the
body lets pass goes to the clauses before it goes to what lies around. -/
theorem dispatch (hmethod : method.Includes s t) :
    ∃ outer, (∀ e ∈ outer, t.offset ≤ e.handler) ∧
      method.Dispatches s.offset parts.body.offset (parts.bodyBlocks.flatMap Block.entries)
        (parts.clauseEntries s ++ outer) ∧
      method.Dispatches parts.body.offset (parts.handlers s).offset
        (parts.otherBlocks.flatMap Block.entries) outer ∧
      ∀ part ∈ parts.clauses, method.Dispatches (part.enter (start s) (stop s)).offset
        (part.next (done s)).offset (part.blocks.flatMap Block.entries) outer := by
  obtain ⟨hbody, hother, hclauses⟩ := h.offsets
  obtain ⟨gaps', hlaid⟩ := h.laid
  obtain ⟨outer, houter, htable⟩ := hmethod.dispatch (hlaid.trans hlast)
  have hinBody : ∀ block ∈ parts.bodyBlocks, block.Within s.offset parts.body.offset := by
    obtain ⟨gaps, hlaid⟩ := h.bodyLaid
    exact hlaid.within
  have hinOther : ∀ block ∈ parts.otherBlocks,
      block.Within parts.body.offset (parts.handlers s).offset := by
    obtain ⟨gaps, hlaid⟩ := h.otherLaid
    exact hlaid.within
  have hrest : ∀ {p isA}, s.offset ≤ p → p < parts.last.offset →
      handlerIn method.exceptionTable p isA =
        (((handlerIn (parts.bodyBlocks.flatMap Block.entries) p isA).or
          (handlerIn (parts.otherBlocks.flatMap Block.entries) p isA)).or
          (handlerIn ((parts.clauses.flatMap (·.allBlocks (done s)
            (s.offset, parts.body.offset) parts.last.offset)).flatMap Block.entries) p isA)).or
          (handlerIn outer p isA) := fun {p isA} hlo hhi => by
    have hnone : handlerIn (blocks.flatMap Block.entries) p isA = none :=
      handlerIn_of_within hlast.within (.inl hhi)
    rw [htable p isA hlo, List.flatMap_append, handlerIn_append, hnone, Option.or_none,
      RescueParts.blocks, List.flatMap_append, List.flatMap_append, handlerIn_append,
      handlerIn_append]
  refine ⟨outer, houter, fun p isA hlo hhi => ?_, fun p isA hlo hhi => ?_,
    fun part hpart p isA hlo hhi => ?_⟩
  · rw [hrest hlo (by omega), handlerIn_of_within hinOther (.inl hhi), Option.or_none,
      h.clauses.handlerIn_body hhi hother, handlerIn_append, Option.or_assoc]
  · rw [hrest (by omega) (by omega), handlerIn_of_within hinBody (.inr hlo), Option.none_or,
      h.clauses.handlerIn_before hlo hhi, Option.or_none]
  · rw [part.offset_enter] at hlo
    obtain ⟨hbefore, -, hafter⟩ := h.clauses.grows_around hpart
    have hlo' : (parts.handlers s).offset ≤ p := hbefore.offset_le.trans hlo
    have hhi' : p < parts.last.offset := hhi.trans_le hafter.offset_le
    rw [hrest (by omega) hhi', handlerIn_of_within hinBody (.inr (by omega)),
      handlerIn_of_within hinOther (.inr hlo'), h.clauses.handlerIn_clause hpart hlo hhi hother]
    rfl

/-- The labels of the rescue are the only ones of it that its parts leave to be
placed. -/
theorem extends_parts (hmethod : method.Extends s t) :
    method.Extends (enter s) parts.body ∧ method.Extends (parts.close s) (parts.handlers s) ∧
      ∀ part ∈ parts.clauses,
        method.Extends (part.enter (start s) (stop s)) (part.next (done s)) := by
  obtain ⟨henter, hclose, hhandlers⟩ := h.sizes
  obtain ⟨gaps', hother⟩ := h.otherLaid
  have hids : (stop s).id = s.body.labels.size + 1 ∧ (done s).id = s.body.labels.size + 2 := by
    simp [stop, done, Assembler.nextLabel]
  have hexit : Grows [stop s, done s] parts.last.body t.body :=
    (Grows.place _ (by simp)).trans (hlast.grows.weaken (by simp [Mode.own]))
  have htail : Grows [stop s, done s] (parts.handlers s).body t.body :=
    (h.clauses.grows.weaken (by simp)).trans hexit
  have hsmall : ∀ l ∈ [stop s, done s], l.id < s.body.labels.size + 3 := by
    simp [hids]
  refine ⟨?_, ?_, fun part hpart => ?_⟩
  · have hbody : Grows [stop s, done s] parts.body.body (parts.close s).body :=
      Grows.place _ (by simp)
    exact hmethod.part (by omega) ((hbody.trans (hother.grows.weaken (by simp [Mode.own]))).trans
      htail) (henter ▸ hsmall)
  · exact hmethod.part (by omega) htail fun l hl => (hsmall l hl).trans_le hclose
  · obtain ⟨hbefore, -, hafter⟩ := h.clauses.grows_around hpart
    have hsize : s.body.labels.size + 3 ≤ (part.enter (start s) (stop s)).body.labels.size :=
      (hhandlers.trans hbefore.size).trans (Laid.grows_enterClause ..).size
    exact hmethod.part (by omega) ((hafter.weaken (by simp)).trans hexit)
      fun l hl => (hsmall l hl).trans_le hsize

theorem target_done (hmethod : method.Extends s t) :
    method.target? (done s) = some parts.last.offset := by
  obtain ⟨-, -, hhandlers⟩ := h.sizes
  have hsize := hhandlers.trans h.clauses.grows.size
  have hid : (done s).id = s.body.labels.size + 2 := by simp [done, Assembler.nextLabel]
  have hplaced : (parts.exit s).body.position? (done s) = some parts.last.offset :=
    Assembler.position?_place_self (by omega)
  exact hmethod.target (by omega) (hlast.grows.position?_of_nil hplaced)

end

end RescueParts.Emitted

/-- An instruction of the body raises an exception that the body does not catch.
This clause is the first that does. -/
structure RescueParts.Raises (parts : RescueParts) (s : Draft) (method : MethodInfo)
    (call : MethodCall) (limit : Nat) (c : Config) (exception : Address) (m : Machine)
    (part : ClausePart) : Prop where
  lo : s.offset ≤ c.index
  hi : c.index < parts.body.offset
  throws : ∃ i, method.code[c.index]? = some i ∧
    step call limit i c.activation c.machine = .error (.thrown exception) m
  passed : handlerIn (parts.bodyBlocks.flatMap Block.entries) c.index (m.instanceOf exception) =
    none
  clause : parts.clauses.find? (·.classes.any (m.instanceOf exception)) = some part

/-- What a clause needs to store an exception: nothing, unless its variable is a field
of the binding. -/
def RescueParts.CanBind (s : Draft) (ctx : Context) (part : ClausePart) (a : Activation)
    (m : Machine) : Prop :=
  ctx.CapturesException part.clause → HasBinding (part.enter (start s) (stop s)) part.bound a m

section

variable {parts : RescueParts} {outer : List ExceptionEntry} {c : Config} {part : ClausePart}

section

variable (hbody : method.Dispatches s.offset parts.body.offset
  (parts.bodyBlocks.flatMap Block.entries) (parts.clauseEntries s ++ outer))
include hbody

theorem RescueParts.Raises.entered {exception : Address} {m : Machine}
    (h : parts.Raises s method call limit c exception m part) :
    Reaches call limit method c
      ⟨part.entry.offset, { c.activation with stack := [.ref exception] }, m⟩ := by
  obtain ⟨i, hi, hstep⟩ := h.throws
  refine .single (.inr ⟨exception, .intro hi hstep ?_⟩)
  refine (hbody c.index _ h.lo h.hi).trans ?_
  rw [handlerIn_append, EmitsClauses.handlerIn_blocks h.lo h.hi, h.passed, h.clause]
  rfl

/-- Control leaves the body of a rescue at its end, into a clause, or out of the rescue. -/
theorem RescueParts.staysIn_body {gaps : List Gap}
    (h : Laid ctx (.code [] [] []) (enter s) parts.body gaps parts.bodyBlocks)
    (hmethod : method.Extends (enter s) parts.body) :
    StaysIn call limit method s.offset parts.body.offset fun c =>
      c.index = parts.body.offset ∨ (∃ part ∈ parts.clauses, c.index = part.entry.offset) ∨
        Leaves method [] s.jumps outer c := by
  refine staysIn_of_moves fun c c' hlo hhi hmoves => ?_
  have hinside : s.offset ≤ c'.index → c'.index ≤ parts.body.offset →
      (s.offset ≤ c'.index ∧ c'.index < parts.body.offset) ∨ c'.index = parts.body.offset := by
    omega
  rcases h.moves hmethod hbody hlo hhi hmoves with ⟨hnext, -⟩ | ⟨l, hl, hq⟩ | hleaves
  · exact (hinside (by omega) (by omega)).imp_right .inl
  · obtain ⟨hstart, hend⟩ := h.grows.bounds_of_made hl hq
    exact (hinside hstart hend).imp_right .inl
  · refine .inr (.inr ?_)
    cases hleaves with
    | goal l hl => cases hl
    | loop k l hk htarget => exact .inr (.loop k l hk htarget)
    | raised e he hindex =>
      rcases List.mem_append.1 he with he | he
      · obtain ⟨part, hpart, he⟩ := List.mem_flatMap.1 he
        obtain ⟨name, -, rfl⟩ := List.mem_map.1 he
        exact .inl ⟨part, hpart, hindex.symm⟩
      · exact .inr (.raised e he hindex)

end

theorem ClausePart.goes_on {x : Draft} {done : Label} {q : Nat}
    (hmethod : method.Extends x (part.next done)) (hdone : method.target? done = some q)
    (hreach : part.finish.body.reachable) (hindex : c.index = part.finish.offset) :
    Reaches call limit method c ⟨q, c.activation, c.machine⟩ := by
  have hnext : part.next done = part.finish.edit (·.emit (.goto done)) := by
    simp [ClausePart.next, Draft.edit, Assembler.gotoIfReachable, hreach, Assembler.goto]
  rw [hnext] at hmethod
  have hcode : method.code[part.finish.offset]? = some (.goto done) :=
    hmethod.emitAll (n := 0) (show Grows [] (part.finish.body.emitAll [.goto done]) _ from
      .refl _ _) rfl
  exact .single (.inl (.jump (hindex ▸ hcode) rfl hdone))

end

/-- What becomes of exceptions, and of control, in the code of a rescue. -/
structure RescueParts.Rescues (parts : RescueParts) (s t : Draft) (ctx : Context)
    (method : MethodInfo) (call : MethodCall) (limit : Nat) (outer : List ExceptionEntry) :
    Prop where
  /-- The handlers around the rescue lie behind it. -/
  outside : ∀ e ∈ outer, t.offset ≤ e.handler
  finish : method.target? (done s) = some parts.last.offset ∧ parts.last.offset ≤ t.offset
  /-- What the body raises and does not catch goes to the first clause that names a
  class of it, or else to what lies around the rescue. -/
  raised : ∀ (m : Machine) p exception, s.offset ≤ p → p < parts.body.offset →
    m.handler? method p exception =
      ((handlerIn (parts.bodyBlocks.flatMap Block.entries) p (m.instanceOf exception)).or
        ((parts.clauses.find? (·.classes.any (m.instanceOf exception))).map
          (·.entry.offset))).or (handlerIn outer p (m.instanceOf exception))
  /-- A clause is entered with the exception alone on the stack, and gets it in its
  variable. -/
  caught : ∀ c exception m part, parts.Raises s method call limit c exception m part →
    Reaches call limit method c
      ⟨part.entry.offset, { c.activation with stack := [.ref exception] }, m⟩ ∧
    (RescueParts.CanBind s ctx part c.activation m →
      ∃ a' m', Reaches call limit method c ⟨part.bound.offset, a', m'⟩ ∧ a'.stack = [] ∧
        ctx.HoldsException part.clause (part.enter (start s) (stop s)) part.bound exception a' m')
  /-- The body ends where the else clause starts. -/
  body : StaysIn call limit method s.offset parts.body.offset fun c =>
    c.index = parts.body.offset ∨ (∃ part ∈ parts.clauses, c.index = part.entry.offset) ∨
      Leaves method [] s.jumps outer c
  other : StaysIn call limit method parts.body.offset (parts.handlers s).offset
    (Leaves method [done s] (parts.close s).jumps outer)
  clause : ∀ part ∈ parts.clauses,
    StaysIn call limit method part.entry.offset (part.next (done s)).offset
      (Leaves method [done s] part.entry.jumps outer)
  /-- What the else clause or a clause raises is not caught by the rescue. -/
  otherRaised : Isolated method parts.body.offset (parts.handlers s).offset t.offset
  clauseRaised : ∀ part ∈ parts.clauses,
    Isolated method part.entry.offset (part.next (done s)).offset t.offset
  /-- A clause that comes to its end goes on behind the rescue. -/
  clauseDone : ∀ part ∈ parts.clauses, ∀ c, part.finish.body.reachable →
    c.index = part.finish.offset →
    Reaches call limit method c ⟨parts.last.offset, c.activation, c.machine⟩

theorem RescueParts.Emitted.rescues {parts : RescueParts} {body : Node}
    {clauses : List RescueClause} {elseClause : Option Node}
    (h : parts.Emitted s ctx body clauses elseClause value ty)
    (hlast : Laid ctx (.code [] [] []) (parts.exit s) t gaps blocks) (hmethod : method.Includes s t)
    (call : MethodCall) (limit : Nat) : ∃ outer, parts.Rescues s t ctx method call limit outer := by
  obtain ⟨outer, houtside, hbody, hother, hclause⟩ := h.dispatch hlast hmethod
  obtain ⟨hinBody, hinOther, hinClause⟩ := h.extends_parts hlast hmethod.continued
  obtain ⟨gaps', hlaidBody⟩ := h.bodyLaid
  have hsealed : Sealed ctx method (done s) outer (parts.close s) (parts.handlers s)
      parts.otherBlocks := by
    refine ⟨h.otherLaid, hinOther, hother, parts.other, ?_, rfl⟩
    have hcase := h.other
    split at hcase
    · obtain ⟨_, _, hlaid⟩ := hcase.laid
      exact hlaid.grows
    · rw [hcase]
      exact .refl _ _
  have hsealedClause : ∀ part ∈ parts.clauses, Sealed ctx method (done s) outer
      (part.enter (start s) (stop s)) (part.next (done s)) part.blocks := fun part hpart => by
    obtain ⟨-, hemitted, -⟩ := h.clauses.grows_around hpart
    obtain ⟨_, _, hbind⟩ := hemitted.binds.laid
    obtain ⟨_, _, harm⟩ := hemitted.arm.laid
    exact ⟨hemitted.laid, hinClause part hpart, hclause part hpart, part.finish,
      hbind.grows.trans harm.grows, rfl⟩
  have hdone := h.target_done hlast hmethod.continued
  exact ⟨outer, {
    outside := houtside
    finish := ⟨hdone, hlast.offset_le⟩
    raised := fun m p exception hlo hhi => by
      refine (hbody p _ hlo hhi).trans ?_
      rw [handlerIn_append, EmitsClauses.handlerIn_blocks hlo hhi, Option.or_assoc]
    caught := fun c exception m part hraises => by
      have hpart := List.mem_of_find?_eq_some hraises.clause
      obtain ⟨-, hemitted, -⟩ := h.clauses.grows_around hpart
      obtain ⟨_, _, harm⟩ := hemitted.arm.laid
      have hentered := hraises.entered hbody
      refine ⟨hentered, fun hbinding => ?_⟩
      obtain ⟨a, m', hreaches, hbound⟩ := hemitted.binds.reaches (hinClause part hpart)
        (harm.grows.trans (Laid.grows_gotoIfReachable _ _))
        (a := { c.activation with stack := [.ref exception] }) rfl hbinding
      rw [part.offset_enter] at hreaches
      exact ⟨a, m', hentered.trans hreaches, hbound⟩
    body := staysIn_body hbody hlaidBody hinBody
    other := hsealed.staysIn
    clause := fun part hpart => part.offset_enter (start s) (stop s) ▸
      (hsealedClause part hpart).staysIn
    otherRaised := hsealed.isolated houtside
    clauseRaised := fun part hpart => part.offset_enter (start s) (stop s) ▸
      (hsealedClause part hpart).isolated houtside
    clauseDone := fun part hpart c => part.goes_on (hinClause part hpart) hdone }⟩

/-! ## The rescues of a compiled unit -/

theorem Emits.rescues {node body : Node} {clauses : List RescueClause}
    {elseClause : Option Node} {want : Bool} (h : ctx.Emits node want s t)
    (hkind : node.kind = .rescue body clauses elseClause) (hmethod : method.Includes s t)
    (call : MethodCall) (limit : Nat) :
    ∃ first ty parts outer, SameCode s first ∧ ctx.typeOf node = .ok ty ∧
      RescueParts.Emitted parts first ctx body clauses elseClause (want && !ty.isVoid) ty ∧
      parts.Rescues first t ctx method call limit outer := by
  obtain ⟨first, ty, parts, gaps, blocks, hfirst, hty, hparts, hlast⟩ := h.rescueParts hkind
  obtain ⟨outer, hrescues⟩ := hparts.rescues hlast (hfirst.includes hmethod) call limit
  exact ⟨first, ty, parts, outer, hfirst, hty, hparts, hrescues⟩

end Context

open Context

def Node.rescueClauses (node : Node) : List RescueClause :=
  match node.kind with
  | .rescue _ clauses _ => clauses
  | _ => []

/-- A clause that gets an exception leaves its result alone on the stack: what was
there before the rescue is lost, unless there was nothing. -/
def Context.RescueParts.DropsOperands (parts : RescueParts) (s : Draft) (ctx : Context)
    (method : MethodInfo) (call : MethodCall) (limit : Nat) : Prop :=
  ∀ before c exception m part, before.index = s.offset → Reaches call limit method before c →
    parts.Raises s method call limit c exception m part →
    RescueParts.CanBind s ctx part c.activation m →
    ∃ bound, Reaches call limit method c bound ∧ bound.index = part.bound.offset ∧
      ∀ e result, part.finish.body.reachable → Reaches call limit method bound e →
        e.index = part.finish.offset → e.activation.stack = result ++ bound.activation.stack →
        ∃ after, Reaches call limit method before after ∧ after.index = parts.last.offset ∧
          after.activation.stack = result ∧
          (after.activation.stack = result ++ before.activation.stack ↔
            before.activation.stack = [])

theorem Context.RescueParts.Rescues.drops_operands {parts : RescueParts} {s t : Draft}
    {ctx : Context} {method : MethodInfo} {call : MethodCall} {limit : Nat}
    {outer : List ExceptionEntry} (h : parts.Rescues s t ctx method call limit outer) :
    parts.DropsOperands s ctx method call limit := by
  intro before c exception m part _ hbefore hraises hbinding
  obtain ⟨a, m', hcaught, hstack, -⟩ := (h.caught c exception m part hraises).2 hbinding
  refine ⟨_, hcaught, rfl, fun e result hreach he hindex hresult => ?_⟩
  have hpart := List.mem_of_find?_eq_some hraises.clause
  have hdone := h.clauseDone part hpart e hreach hindex
  have hafter : e.activation.stack = result := by simpa [hstack] using hresult
  refine ⟨_, ((hbefore.trans hcaught).trans he).trans hdone, rfl, hafter, ?_⟩
  rw [show e.activation.stack = _ from hafter]
  exact List.self_eq_append_right

/-- Wherever a rescue is emitted into a method, what stands on the stack before it is
lost when a clause gets an exception. -/
def MethodInfo.DropsOperandsAt (method : MethodInfo) (ctx : Context) (node : Node) (start : Nat) :
    Prop :=
  ∀ body clauses elseClause, node.kind = .rescue body clauses elseClause → ∀ call limit,
    ∃ want first ty, ∃ parts : RescueParts, first.offset = start ∧ ctx.typeOf node = .ok ty ∧
      parts.Emitted first ctx body clauses elseClause (want && !ty.isVoid) ty ∧
      parts.DropsOperands first ctx method call limit

theorem Program.rescue_drops_operands {program : Program} {compiled : CompiledUnit}
    (h : program.compile.1 = .ok compiled) :
    ∃ ctx : Context, ∀ c ∈ compiled.classes, ∀ method ∈ c.methods, ∀ node start,
      (node, start) ∈ method.nodes → method.DropsOperandsAt ctx node start := by
  obtain ⟨ctx, hnodes⟩ := mem_nodes_iff h
  refine ⟨ctx, fun c hc method hmethod node start hmem body clauses elseClause hkind call limit =>
    ?_⟩
  obtain ⟨want, s, t, hemits, hstart, hincludes⟩ := (hnodes c hc method hmethod node start).1 hmem
  obtain ⟨first, ty, parts, outer, hfirst, hty, hparts, hrescues⟩ :=
    hemits.rescues hkind hincludes call limit
  exact ⟨want, first, ty, parts, hfirst.offset.trans hstart, hty, hparts, hrescues.drops_operands⟩

/-- The stream of a `puts` is lost when its argument is a rescue that catches an
exception. -/
def operandDemo : Program := .ofBuild do
  let always ← Build.node (.boolean true) none none
  let message ← Build.node (.text "x") none none
  let raise ← Build.node (.raise message) none none
  let check ← Build.node (.ifElse always (some raise) none) none none
  let one ← Build.node (.fixnum 1) (some Ty.int) none
  let body ← Build.node (.body [check, one]) none none
  let two ← Build.node (.fixnum 2) (some Ty.int) none
  let clause ← Build.rescueClause none [] two
  let value ← Build.node (.rescue body [clause] none) (some Ty.int) none
  let print ← Build.node (.print true [value]) none none
  Build.node (.script [print]) none none

theorem operandDemo_drops_operands : ∃ compiled, operandDemo.compile.1 = .ok compiled ∧
    (∃ c ∈ compiled.classes, ∃ method ∈ c.methods, ∃ entry ∈ method.nodes,
      entry.1.rescueClauses ≠ []) ∧
    ∃ ctx : Context, ∀ c ∈ compiled.classes, ∀ method ∈ c.methods, ∀ node start,
      (node, start) ∈ method.nodes → method.DropsOperandsAt ctx node start := by
  obtain ⟨compiled, hcompile, heval⟩ := exists_ok_of_any (x := operandDemo.compile.1)
    (p := (·.classes.any (·.methods.any (·.nodes.any (!·.1.rescueClauses.isEmpty)))))
    (by decide +kernel)
  exact ⟨compiled, hcompile, by simpa using heval, Program.rescue_drops_operands hcompile⟩

theorem operandDemo_underflows : ∃ compiled, operandDemo.compile.1 = .ok compiled ∧
    (compiled.machine.runMain 300 "Demo" []).1 =
      .error (.stackUnderflow "Demo.main([Ljava/lang/String;)V") ∧
    (compiled.machine.runMain 300 "Demo" []).2.output = "" :=
  Program.ends_of_eval (by decide +kernel)

end ClassBackend
