import ClassBackend.Proofs.Layout.Dispatch
import ClassBackend.Proofs.Scope.Capture

/-!
# Where locals are kept

A local has one `Place`: a slot that goes by a name in the frame of a scope, or
a field of the binding object of an activation. Emission refers to locals by
their places alone (`Context.placing`), and in a method whose slot numbers do
not wrap around different names have slots apart.

So two locals of an activation are mixed up if and only if they have one place.
Slots of blocks go by the name of the local and the index of the block, and
fields by the name alone, so this happens (`ScopeTable.Collide`): to captured
locals of one name, such as the variables of two rescue clauses, and to a local
that bears the name that the slot of a block's local goes by.
-/

namespace ClassBackend

structure Variable where
  scope : ScopeId
  name : String
  deriving DecidableEq, Repr

inductive Place where
  | slot (frame : ScopeId) (name : String)
  /-- In a field of the binding object of an activation. -/
  | field (root : ScopeId) (name : String)
  deriving DecidableEq, Repr

namespace ScopeTable

variable (table : ScopeTable)

def place (v : Variable) : Place :=
  if table.isCaptured v.scope v.name then .field (table.rootOf v.scope) v.name
  else .slot (table.definitionScope v.scope) (table.slotName v.scope v.name)

/-- The first local bears the name that the slot of the second one, a local of a
block, goes by. -/
def Masks (v w : Variable) : Prop :=
  table.kindOf v.scope ≠ .block ∧ table.kindOf w.scope = .block ∧
    v.name = w.name ++ "$" ++ toString w.scope

/-- The ways in which two locals get mixed up. -/
def Collide (v w : Variable) : Prop :=
  (table.isCaptured v.scope v.name = true ∧ table.isCaptured w.scope w.name = true ∧
    table.rootOf v.scope = table.rootOf w.scope ∧ v.name = w.name) ∨
  (table.isCaptured v.scope v.name = false ∧ table.isCaptured w.scope w.name = false ∧
    table.definitionScope v.scope = table.definitionScope w.scope ∧
    (table.Masks v w ∨ table.Masks w v))

end ScopeTable

/-! ## Which locals share a place -/

/-- A list is split in one way only at the last occurrence of an element. -/
theorem eq_of_append_cons_eq {α : Type} {a b c d : List α} {x : α} (h : a ++ x :: b = c ++ x :: d)
    (hb : x ∉ b) (hd : x ∉ d) : a = c ∧ b = d := by
  rcases List.append_eq_append_iff.1 h with ⟨more, rfl, heq⟩ | ⟨more, rfl, heq⟩
  all_goals
    cases more with
    | nil => simpa [eq_comm] using heq
    | cons y more =>
      cases heq
      simp at hb hd

namespace ScopeTable

variable {table : ScopeTable} {v w : Variable}

theorem blockName_inj {n m : String} {s t : ScopeId}
    (h : n ++ "$" ++ toString s = m ++ "$" ++ toString t) : n = m ∧ s = t := by
  have hdigits : ∀ k : Nat, '$' ∉ Nat.toDigits 10 k := fun k hmem =>
    absurd (Nat.isDigit_of_mem_toDigits (by decide) (by decide) hmem) (by decide)
  have hlist : n.toList ++ '$' :: Nat.toDigits 10 s = m.toList ++ '$' :: Nat.toDigits 10 t := by
    simpa [Nat.toString_eq_ofList_toDigits] using congrArg String.toList h
  obtain ⟨hname, hindex⟩ := eq_of_append_cons_eq hlist (hdigits s) (hdigits t)
  refine ⟨String.toList_inj.1 hname, ?_⟩
  simpa [Nat.ofDigitChars_toDigits] using congrArg (Nat.ofDigitChars 10 · 0) hindex

theorem slotName_of_block {id : ScopeId} (h : table.kindOf id = .block) (name : String) :
    table.slotName id name = name ++ "$" ++ toString id := by
  rw [slotName, h]

theorem slotName_of_ne_block {id : ScopeId} (h : table.kindOf id ≠ .block) (name : String) :
    table.slotName id name = name := by
  unfold slotName
  split
  · exact absurd ‹_› h
  · rfl

/-- In a frame, different locals have slots of one name if one of them bears the
name of the other one's slot. -/
theorem slotName_eq_iff (hne : v ≠ w)
    (hframe : table.definitionScope v.scope = table.definitionScope w.scope) :
    table.slotName v.scope v.name = table.slotName w.scope w.name ↔
      table.Masks v w ∨ table.Masks w v := by
  unfold Masks
  by_cases hv : table.kindOf v.scope = .block <;> by_cases hw : table.kindOf w.scope = .block
  · rw [slotName_of_block hv, slotName_of_block hw]
    refine iff_of_false (fun h => hne ?_) (by simp [hv, hw])
    obtain ⟨hname, hscope⟩ := blockName_inj h
    cases v; cases w
    simp_all
  · rw [slotName_of_block hv, slotName_of_ne_block hw]
    simp [hv, hw, eq_comm]
  · rw [slotName_of_ne_block hv, slotName_of_block hw]
    simp [hv, hw]
  · rw [slotName_of_ne_block hv, slotName_of_ne_block hw]
    refine iff_of_false (fun hname => hne ?_) (by simp [hv, hw])
    -- scopes that are no blocks have frames of their own
    rw [definitionScope_eq_self hv, definitionScope_eq_self hw] at hframe
    cases v; cases w
    simp_all

theorem place_eq_iff (hne : v ≠ w) : table.place v = table.place w ↔ table.Collide v w := by
  unfold place Collide
  cases table.isCaptured v.scope v.name <;> cases table.isCaptured w.scope w.name
  · by_cases hframe : table.definitionScope v.scope = table.definitionScope w.scope
    · simp [hframe, slotName_eq_iff hne hframe]
    · simp [hframe]
  all_goals simp

end ScopeTable

/-! ## Emission that refers to locals by their places -/

namespace Emit

def unbound : Emit Ty := throw (.internal "captured local without a binding")

/-- Push the binding object of the frame, or do something else if it has none.
Returns its class. -/
def bindingOr (missing : Emit Ty) : Emit Ty := do
  let current ← frame
  match current.binding, current.bindingSlot with
  | some binding, some slot =>
    instruction (.load .ref slot)
    return binding
  | _, _ => missing

end Emit

namespace Context

variable (ctx : Context) (missing : Emit Ty)

def slotAt (frame : ScopeId) (name : String) (t : Ty) : Emit UInt16 := do
  if (← Emit.frame).scope = some frame then Emit.namedLocal name t
  else throw (.internal ("slot of " ++ name ++ " in another frame"))

/-- A field of the binding object of an activation, a frame of which emission
has to be in. The object is pushed. -/
def fieldAt (root : ScopeId) (name : String) (t : Ty) : Emit MemberRef := do
  if (← Emit.frame).scope.map ctx.scopes.rootOf = some root then
    let binding ← Emit.bindingOr missing
    if (ctx.scopes.scope? root).bind (·.binding) = some binding then
      Emit.captureField binding name t
    else throw (.internal ("field " ++ name ++ " of another binding"))
  else throw (.internal ("field " ++ name ++ " in another activation"))

/-- Code for a local at its place: one code for slots, and one for fields with
the binding object pushed. -/
def atPlace (place : Place) (t : Ty) (inSlot : UInt16 → Emit Unit)
    (inField : MemberRef → Emit Unit) : Emit Unit :=
  match place with
  | .slot frame name => slotAt frame name t >>= inSlot
  | .field root name => ctx.fieldAt missing root name t >>= inField

/-- Store the exception on top of the stack in the variable of a rescue clause,
at its place. -/
def bindPlaced (clause : RescueClause) : Emit Unit :=
  match clause.name with
  | none => Emit.instruction .pop
  | some name => do
    let scope ← Emit.orFault (ctx.scopes.scopeFor? clause.id)
      (.internal "rescue clause was never scoped")
    let t ← Emit.orFault ((ctx.scopes.scope? scope).bind (·.localType? name))
      (.internal ("rescue variable " ++ name ++ " has no type"))
    ctx.atPlace missing (ctx.scopes.place ⟨scope, name⟩) t
      (fun slot => Emit.codeOf (t.storeCode slot))
      (fun field => Emit.code [.swap, .putField field])

def readPlaced (node : Node) (name : String) (want : Bool) : Emit Unit := do
  if want then
    let info ← Emit.ofExcept (ctx.localInfo node name)
    ctx.atPlace missing (ctx.scopes.place ⟨info.scope, name⟩) info.type
      (fun slot => Emit.codeOf (info.type.loadCode slot))
      (fun field => Emit.instruction (.getField field))

def writePlaced (recur : Recursion) (node : Node) (name : String) (value : Node) (want : Bool) :
    Emit Unit := do
  let info ← Emit.ofExcept (ctx.localInfo node name)
  ctx.atPlace missing (ctx.scopes.place ⟨info.scope, name⟩) info.type
    (fun slot => do
      ctx.emitAs recur value info.type
      if want then Emit.code info.type.dupCode
      Emit.codeOf (info.type.storeCode slot))
    (fun field => do
      ctx.emitAs recur value info.type
      Emit.code ((if want then [info.type.dupUnderOne] else []) ++ [.putField field]))

def emitPlaced (recur : Recursion) (node : Node) (want : Bool) : Emit Unit :=
  match node.kind with
  | .bindingRef => do
    ctx.enter node
    if want then discard (Emit.bindingOr missing)
  | .localDecl name | .localAccess name => do
    ctx.enter node
    ctx.readPlaced missing node name want
  | .localAssign name value => do
    ctx.enter node
    ctx.writePlaced missing recur node name value want
  | .rescue main clauses elseClause => do
    ctx.enter node
    ctx.emitRescue recur (ctx.bindPlaced missing) node main clauses elseClause want
  | _ => ctx.emitNode recur node want

/-- Emission of nodes nested at most `depth` deep that refers to locals by their
places. What is done in want of a binding is left open. -/
def placing : (depth : Nat) → Recursion
  | 0 => { emit := fun _ _ => throw .tooDeep, branch := fun _ _ _ => throw .tooDeep }
  | depth + 1 => {
    emit := fun node want => ctx.emitPlaced missing (placing depth) node want
    branch := fun node target when => ctx.branchOn (placing depth) node target when }

end Context

/-- What has to be known about the places of emission, so that locals can be
referred to by their own places. -/
structure Setting.Knows {ctx : Context} {η : Type} (S : Setting ctx η) (items : List Item)
    (missing : Emit Ty) where
  frameAt : η → Option (Option ScopeId)
  fits : ∀ {home node}, S.fits home node → node.Fits ctx.scopes items (frameAt home)
  scope : ∀ {home strategy header}, S.holds home strategy header →
    header.map (·.scope) = frameAt home
  binding : ∀ {home strategy header binding}, S.holds home strategy (some header) →
    header.binding = some binding → header.scope.bind ctx.scopes.bindingType? = some binding
  /-- The frames of activations with captured locals have a binding, unless the
  lack of one is a fault. -/
  bound : ∀ {home strategy header node}, S.holds home strategy (some header) →
    S.fits home node →
    (header.scope.bind ctx.scopes.bindingType?).isSome ∨ node.kind = .bindingRef →
    missing = Emit.unbound ∨
      ∃ binding slot, header.binding = some binding ∧ header.bindingSlot = some slot

namespace Context

open Emit

variable {ctx : Context} {η : Type} {S : Setting ctx η} {items : List Item} {missing : Emit Ty}
  (K : S.Knows items missing) {home : η} {σ : Emission} {frame : ScopeId} {node : Node}
  {recur other : Recursion}

include K in
theorem exists_current (hhome : K.frameAt home = some (some frame)) (hσ : σ.AtHome S home) :
    ∃ current, Emit.frame σ = .ok current σ ∧ current.scope = some frame ∧
      S.holds home σ.strategy (some current.header) := by
  have hscope := K.scope hσ.holds
  rw [hhome, Option.map_map] at hscope
  obtain ⟨current, hcurrent, hscope⟩ := Option.map_eq_some_iff.1 hscope
  have hholds := hσ.holds
  rw [hcurrent] at hholds
  exact ⟨current, frame_eq_ok.2 ⟨hcurrent, rfl⟩, hscope, hholds⟩

theorem bindingOr_eq {current : Frame} (hread : Emit.frame σ = .ok current σ)
    (h : missing = unbound ∨
      ∃ binding slot, current.binding = some binding ∧ current.bindingSlot = some slot) :
    Emit.bindingOr missing σ = Emit.pushBinding σ := by
  rcases h with rfl | ⟨binding, slot, hbinding, hslot⟩
  · rfl
  · refine bind_congr_of_ok rfl fun current' τ hread' => ?_
    rw [hread] at hread'
    cases hread'
    simp only [hbinding, hslot]

theorem binding_of_pushBinding {τ : Emission} {current : Frame} {binding : Ty}
    (hread : Emit.frame σ = .ok current σ) (h : Emit.pushBinding σ = .ok binding τ) :
    current.binding = some binding := by
  obtain ⟨hcurrent, -⟩ := frame_eq_ok.1 hread
  obtain ⟨current', hcurrent', h⟩ := frame_bind_eq_ok.1 h
  cases hcurrent.symm.trans hcurrent'
  cases hbinding : current.binding with
  | none =>
    simp only [hbinding] at h
    exact absurd h throw_ne_ok
  | some known =>
    cases hslot : current.bindingSlot with
    | none =>
      simp only [hbinding, hslot] at h
      exact absurd h throw_ne_ok
    | some slot =>
      simp only [hbinding, hslot] at h
      obtain ⟨_, τ', -, h⟩ := bind_eq_ok.1 h
      obtain ⟨rfl, -⟩ := pure_eq_ok.1 h
      rfl

theorem slotAt_eq (name : String) (t : Ty) (hhome : K.frameAt home = some (some frame))
    (hσ : σ.AtHome S home) : slotAt frame name t σ = Emit.namedLocal name t σ := by
  obtain ⟨current, hread, hscope, -⟩ := exists_current K hhome hσ
  show EStateM.bind Emit.frame _ σ = _
  rw [EStateM.bind, hread]
  simp only [hscope, if_true]

theorem fieldAt_eq (name : String) (t : Ty) (hhome : K.frameAt home = some (some frame))
    (hnode : S.fits home node) (hbinding : (ctx.scopes.bindingType? frame).isSome)
    (hσ : σ.AtHome S home) : ctx.fieldAt missing (ctx.scopes.rootOf frame) name t σ =
      (do let binding ← Emit.pushBinding; Emit.captureField binding name t) σ := by
  obtain ⟨current, hread, hscope, hholds⟩ := exists_current K hhome hσ
  have hclass : current.header.scope.bind ctx.scopes.bindingType? =
      ctx.scopes.bindingType? frame := by
    show current.scope.bind _ = _
    rw [hscope, Option.bind_some]
  show EStateM.bind Emit.frame _ σ = _
  rw [EStateM.bind, hread]
  simp only [hscope, Option.map_some, if_true]
  have hpush := bindingOr_eq hread (K.bound hholds hnode (.inl (hclass ▸ hbinding)))
  refine bind_congr_of_ok hpush fun binding τ hpushed => ?_
  have hknown : (ctx.scopes.scope? (ctx.scopes.rootOf frame)).bind (·.binding) = some binding :=
    hclass.symm.trans (K.binding hholds (binding_of_pushBinding hread (hpush ▸ hpushed)))
  simp only [hknown, if_true]

/-- In a frame that a local may be referred to from, its slot or field is the one
of its place. -/
theorem related_atPlace (v : Variable) (t : Ty) (hhome : K.frameAt home = some (some frame))
    (hnode : S.fits home node)
    (hframe : ctx.scopes.isCaptured v.scope v.name = false →
      frame = ctx.scopes.definitionScope v.scope)
    (hroot : ctx.scopes.rootOf frame = ctx.scopes.rootOf v.scope)
    (hbinding : ctx.scopes.isCaptured v.scope v.name = true →
      (ctx.scopes.bindingType? v.scope).isSome)
    {inSlot inSlot' : UInt16 → Emit Unit} {inField inField' : MemberRef → Emit Unit}
    (hslot : ∀ slot, S.agreement.Related home (inSlot slot) (inSlot' slot))
    (hfield : ∀ field, S.agreement.Related home (inField field) (inField' field)) :
    S.agreement.Related home
      (if ctx.scopes.isCaptured v.scope v.name then do
        let binding ← Emit.pushBinding
        let field ← Emit.captureField binding v.name t
        inField field
      else do
        let slot ← ctx.localSlot v.scope v.name t
        inSlot slot)
      (ctx.atPlace missing (ctx.scopes.place v) t inSlot' inField') := by
  unfold ScopeTable.place
  cases hcaptured : ctx.scopes.isCaptured v.scope v.name with
  | true =>
    have hself : S.agreement.Related home
        (do let binding ← Emit.pushBinding; Emit.captureField binding v.name t)
        (do let binding ← Emit.pushBinding; Emit.captureField binding v.name t) :=
      related_pushBinding_bind fun _ hbinding => related_captureField hbinding v.name t
    have hclass : (ctx.scopes.bindingType? frame).isSome := by
      rw [ScopeTable.bindingType?, hroot]
      exact hbinding hcaptured
    have hplaced : S.agreement.Related home
        (do let binding ← Emit.pushBinding; Emit.captureField binding v.name t)
        (ctx.fieldAt missing (ctx.scopes.rootOf v.scope) v.name t) :=
      Agree.congr_right hself fun σ hσ =>
        (hroot ▸ fieldAt_eq K v.name t hhome hnode hclass hσ).symm
    have hboth := hplaced.bind hfield
    rw [bind_assoc] at hboth
    exact hboth
  | false =>
    obtain rfl := hframe hcaptured
    have hself : S.agreement.Related home (ctx.localSlot v.scope v.name t)
        (ctx.localSlot v.scope v.name t) := .namedLocal ..
    have hplaced : S.agreement.Related home (ctx.localSlot v.scope v.name t)
        (slotAt (ctx.scopes.definitionScope v.scope) (ctx.scopes.slotName v.scope v.name) t) :=
      Agree.congr_right hself fun σ hσ => (slotAt_eq K _ t hhome hσ).symm
    exact hplaced.bind hslot

section

variable (hrecords : ctx.scopes.Records items)
  (hbinding : ∀ {scope name}, ctx.scopes.isCaptured scope name = true →
    (ctx.scopes.bindingType? scope).isSome)
include K hrecords hbinding

variable {name : String}

/-- A reference stands in a frame that its local may be referred to from. -/
theorem related_atPlace_of_fits {info : LocalInfo} (hnode : S.fits home node)
    (hname : node.localName? = some name) (hinfo : ctx.localInfo node name = .ok info)
    {inSlot inSlot' : UInt16 → Emit Unit} {inField inField' : MemberRef → Emit Unit}
    (hslot : ∀ slot, S.agreement.Related home (inSlot slot) (inSlot' slot))
    (hfield : ∀ field, S.agreement.Related home (inField field) (inField' field)) :
    S.agreement.Related home
      (if info.captured then do
        let binding ← Emit.pushBinding
        let field ← Emit.captureField binding name info.type
        inField field
      else do
        let slot ← ctx.localSlot info.scope name info.type
        inSlot slot)
      (ctx.atPlace missing (ctx.scopes.place ⟨info.scope, name⟩) info.type inSlot' inField') := by
  obtain ⟨hscope, hcaptured⟩ := localInfo_eq_ok hinfo
  have hfits := K.fits hnode
  obtain ⟨start, -, hhome, -⟩ := hfits.exists_climbs hrecords hname hscope
  rw [hcaptured]
  refine related_atPlace K ⟨info.scope, name⟩ info.type hhome hnode (fun huncaptured => ?_)
    ((hhome ▸ hfits).rootOf_eq hrecords hname hscope) hbinding hslot hfield
  have howner := hfits.home_eq hrecords hname hscope huncaptured
  exact Option.some.inj (Option.some.inj (hhome.symm.trans howner))

theorem related_readPlaced (hnode : S.fits home node) (hname : node.localName? = some name)
    (want : Bool) : S.agreement.Related home (ctx.emitLocalAccess node name want)
      (ctx.readPlaced missing node name want) :=
  .ite (.ofExcept_bind_of_allows (fun _ _ => trivial) fun _ hinfo =>
    related_atPlace_of_fits K hrecords hbinding hnode hname hinfo (fun _ => .codeOf _)
      fun _ => .instruction _) (.pure _)

theorem related_writePlaced (hrecur : recur.Related S.agreement other) {value : Node}
    (hnode : S.fits home node) (hkind : node.kind = .localAssign name value) (want : Bool) :
    S.agreement.Related home (ctx.emitLocalAssign recur node name value want)
      (ctx.writePlaced missing other node name value want) := by
  have hname : node.localName? = some name := by rw [Node.localName?, hkind]
  have hvalue : S.agreement.fits home value := S.fits_part hnode (by rw [hkind]; rfl)
    (by rw [Node.children, hkind]; exact List.mem_singleton_self value)
  refine .ofExcept_bind_of_allows (fun _ _ => trivial) fun info hinfo =>
    related_atPlace_of_fits K hrecords hbinding hnode hname hinfo (fun _ => ?_) fun _ => ?_
  · exact .bind (related_emitAs hrecur hvalue _) fun _ =>
      .ite (.bind (.code _) fun _ => .codeOf _) (.codeOf _)
  · exact .bind (related_emitAs hrecur hvalue _) fun _ => .code _

theorem related_bindPlaced {main : Node} {clauses : List RescueClause} {elseClause : Option Node}
    {clause : RescueClause} (hnode : S.fits home node)
    (hkind : node.kind = .rescue main clauses elseClause) (hclause : clause ∈ clauses) :
    S.agreement.Related home (ctx.bindException clause) (ctx.bindPlaced missing clause) := by
  unfold bindException bindPlaced
  cases hname : clause.name with
  | none => exact .instruction _
  | some name =>
    refine related_findVariable hnode hkind hclause hname fun scope t hscope _ => ?_
    exact related_atPlace K ⟨scope, name⟩ t
      ((K.fits hnode).clause_home_eq hrecords hkind hclause hscope) hnode (fun _ => rfl)
      (ScopeTable.rootOf_definitionScope hrecords.nested (hrecords.scopeFor?_lt hscope))
      hbinding (fun _ => .codeOf _) fun _ => .code _

omit hrecords hbinding in
theorem related_bindingRef (hnode : S.fits home node) (hkind : node.kind = .bindingRef)
    (want : Bool) : S.agreement.Related home (if want then discard Emit.pushBinding else pure ())
      (if want then discard (Emit.bindingOr missing) else pure ()) := by
  refine .ite ?_ (.pure _)
  have hself : S.agreement.Related home (discard Emit.pushBinding) (discard Emit.pushBinding) :=
    .map _ related_pushBinding
  obtain ⟨around, -, hdefinition | ⟨scope, -, hhome⟩⟩ := K.fits hnode
  · rw [hkind] at hdefinition
    cases hdefinition
  · refine Agree.congr_right hself fun σ hσ => ?_
    obtain ⟨current, hread, -, hholds⟩ := exists_current K hhome hσ
    have hpush := bindingOr_eq hread (K.bound hholds hnode (.inr hkind))
    show EStateM.map _ _ σ = EStateM.map _ _ σ
    rw [EStateM.map, EStateM.map, hpush]

/-- Where a node is at home, referring to locals by their places changes
nothing. -/
theorem related_emitPlaced (hrecur : recur.Related S.agreement other) (hnode : S.fits home node)
    (want : Bool) : S.agreement.Related home (ctx.emitNode recur node want)
      (ctx.emitPlaced missing other node want) := by
  have hself : S.agreement.Related home (ctx.emitNode recur node want)
    (ctx.emitNode other node want) := related_emitNode hrecur hnode trivial want
  have hline : S.agreement.Related home (ctx.enter node) (ctx.enter node) :=
    S.agreement.related_enter node
  unfold emitPlaced
  split
  · rename_i hkind
    rw [emitNode, hkind]
    exact .bind hline fun _ => related_bindingRef K hnode hkind want
  · rename_i name hkind
    rw [emitNode, hkind]
    exact .bind hline fun _ =>
      related_readPlaced K hrecords hbinding hnode (by rw [Node.localName?, hkind]) want
  · rename_i name hkind
    rw [emitNode, hkind]
    exact .bind hline fun _ =>
      related_readPlaced K hrecords hbinding hnode (by rw [Node.localName?, hkind]) want
  · rename_i name value hkind
    rw [emitNode, hkind]
    exact .bind hline fun _ => related_writePlaced K hrecords hbinding hrecur hnode hkind want
  · rename_i main clauses elseClause hkind
    rw [emitNode, hkind]
    have hparts : ∀ part ∈ node.children, S.agreement.fits home part := fun part hpart =>
      S.fits_part hnode (by rw [hkind]; rfl) hpart
    rw [Node.children, hkind] at hparts
    obtain ⟨hfront, helse⟩ := List.forall_mem_append.1 hparts
    obtain ⟨hmain, hclauses⟩ := List.forall_mem_cons.1 hfront
    exact .bind hline fun _ => related_emitRescue hrecur _ hmain
      (fun clause hclause => hclauses _ (List.mem_map_of_mem hclause))
      (fun part hpart => helse part (Option.mem_toList.2 hpart))
      (fun clause hclause => related_bindPlaced K hrecords hbinding hnode hkind hclause) want
  · exact hself

theorem related_placing (depth : Nat) :
    (ctx.recursion depth).Related S.agreement (ctx.placing missing depth) := by
  induction depth with
  | zero => exact ⟨trivial, fun _ _ => .throw _, fun _ _ _ => .throw _, fun _ _ => .throw _⟩
  | succ depth ih =>
    exact ⟨trivial, fun want hnode => related_emitPlaced K hrecords hbinding ih hnode want,
      fun target when hnode => related_branchOn ih hnode (ih.emit true hnode) target when,
      fun hnode _ => related_emitPlaced K hrecords hbinding ih hnode false⟩

end

end Context

/-! ## Scripts -/

/-- The frames of a script, with the binding of their activation if they have
one. -/
def ScopeTable.Records.boundFrames {ctx : Context} {items : List Item}
    (hrecords : ctx.scopes.Records items) : Setting ctx (Option (Option ScopeId)) :=
  { hrecords.frames with
    holds := fun home _ header => header.map (·.scope) = home ∧ ∀ h ∈ header,
      h.binding = none ∨ h.binding = h.scope.bind ctx.scopes.bindingType?
    holds_frame := fun _ hprepared => ⟨congrArg some hprepared.1, fun h hh => by
      cases hh
      exact hprepared.binding_eq⟩
    holds_class := ⟨rfl, nofun⟩
    fits_closure := fun hfits hkind _ hmethod hinner hpart =>
      hfits.of_closure hrecords hkind hmethod hinner hpart }

/-- If the lack of a binding is a fault, this is enough to know. -/
def ScopeTable.Records.knows {ctx : Context} {items : List Item}
    (hrecords : ctx.scopes.Records items) : hrecords.boundFrames.Knows items Emit.unbound where
  frameAt home := home
  fits hfits := hfits
  scope hholds := hholds.1
  binding {_ _ header _} hholds hbinding := by
    have hknown := hholds.2 header rfl
    rw [hbinding] at hknown
    exact (hknown.resolve_left nofun).symm
  bound _ _ _ := .inl rfl

/-- Different locals are kept apart, unless they collide. A local has one place,
which it shares with no local but those it collides with. The field of a captured
local has its name, so that different names have different fields. Emission refers to
locals by their places alone, and only in the frame, or in the frames of the
activation, that the place belongs to. And in the methods that come out,
different names have different slots, unless there are too many of them. -/
theorem ScopeTable.analyze_keeps_apart {mainClass : String} {script : Node} {statements : List Node}
    {types : TypeMap} {registry registry' : Registry} {table : ScopeTable}
    (hkind : script.kind = .script statements) (hdistinct : Distinct (script.outline script.id))
    (hanalyze : analyze mainClass script types registry = .ok (registry', table)) :
    (∀ v w : Variable, v ≠ w → (table.place v = table.place w ↔ table.Collide v w)) ∧
    (∀ {binding name t σ field τ}, Emit.captureField binding name t σ = .ok field τ →
      field.owner = binding.internalName ∧ field.name = name) ∧
    ∀ ctx : Context, ctx.scopes = table →
      (∀ (depth : Nat) (σ : Emission), σ.jumps = [] → σ.frame = none →
        ctx.emitScript (ctx.recursion depth) script statements σ =
          ctx.emitScript (ctx.placing Emit.unbound depth) script statements σ) ∧
      ∀ method, ctx.Builds method → method.maxLocals.toNat < 65534 →
        method.locals.Pairwise LocalVar.Apart := by
  have hrecords := analyze_records hkind hdistinct hanalyze
  refine ⟨fun v w => place_eq_iff, fun hfield => ?_, ?_⟩
  · obtain ⟨declared, _, -, hpure⟩ := Emit.bind_eq_ok.1 hfield
    rw [(Emit.pure_eq_ok.1 hpure).1]
    exact ⟨rfl, rfl⟩
  rintro ctx rfl
  refine ⟨fun depth σ hjumps hframe => ?_, fun method hbuilds hroom => ?_⟩
  · have hstatements := Node.Fits.of_script hkind hrecords
    exact hrecords.boundFrames.emitScript_eq none hjumps (by rw [hframe]; exact ⟨rfl, nofun⟩)
      (Context.related_placing hrecords.knows hrecords
        (bindingType?_isSome_of_isCaptured hrecords.nested hanalyze) depth)
      (fun part hpart hdefinition => (hstatements part hpart).of_isDefinition hdefinition _)
      hstatements
  · obtain ⟨blocks, hlaid⟩ := hbuilds.laidOut
    exact hlaid.apart hroom

def Build.messagePrinter (className : String) : Build Node := do
  let read ← node (.localAccess "e") (some (.object "java.lang.Exception")) none
  let message ← node (.call read "getMessage" []) (some Ty.text) none
  let print ← node (.print true [message]) none none
  let method ← node (.methodDef {
    name := "run", args := [], body := some print, isStatic := false, throws := [], notes := [] })
    (some .void) none
  node (.closureDef
    { name := className, interfaces := ["java.lang.Runnable"], methods := [method] }) none none

/-- A rescue of an exception with a message, in a clause that keeps a closure
over its variable `e`. -/
def Build.rescueKeeping (message name className : String) : Build Node := do
  let text ← node (.text message) none none
  let raise ← node (.raise text) none none
  let closure ← messagePrinter className
  let assign ← node (.localAssign name closure) none none
  let clause ← rescueClause (some "e") ["java.lang.Exception"] assign
  node (.rescue raise [clause] none) (some .void) none

/-- A script with two such rescues, which runs the closure of the first one in
the end. -/
def clausesDemo : Program := .ofBuild do
  let first ← Build.rescueKeeping "a" "c1" "Demo$C1"
  let second ← Build.rescueKeeping "b" "c2" "Demo$C2"
  let c1 ← Build.node (.localAccess "c1") (some (.object "Demo$C1")) none
  let run ← Build.node (.call c1 "run" []) (some .void) none
  Build.node (.script [first, second, run]) none none

theorem clausesDemo_keeps_apart : ∃ registry table statements,
    ScopeTable.analyze "Demo" clausesDemo.script clausesDemo.types clausesDemo.registry =
      .ok (registry, table) ∧
    clausesDemo.script.kind = .script statements ∧
    ¬ table.Collide ⟨0, "c1"⟩ ⟨0, "c2"⟩ ∧ table.Collide ⟨1, "e"⟩ ⟨3, "e"⟩ ∧
    ∀ (ctx : Context) (depth : Nat) (σ : Emission), ctx.scopes = table → σ.jumps = [] →
      σ.frame = none → ctx.emitScript (ctx.recursion depth) clausesDemo.script statements σ =
        ctx.emitScript (ctx.placing Emit.unbound depth) clausesDemo.script statements σ := by
  obtain ⟨⟨registry, table⟩, hanalyze, heval⟩ := exists_ok_of_any
    (x := ScopeTable.analyze "Demo" clausesDemo.script clausesDemo.types clausesDemo.registry)
    (p := fun result => result.2.place ⟨0, "c1"⟩ != result.2.place ⟨0, "c2"⟩ &&
      result.2.place ⟨1, "e"⟩ == result.2.place ⟨3, "e"⟩) (by decide +kernel)
  have hdistinct : ScopeTable.Distinct (clausesDemo.script.outline clausesDemo.script.id) :=
    ⟨by decide +kernel, by decide +kernel⟩
  simp only [Bool.and_eq_true, bne_iff_ne, beq_iff_eq] at heval
  obtain ⟨hplaces, -, hemission⟩ := ScopeTable.analyze_keeps_apart rfl hdistinct hanalyze
  exact ⟨registry, table, _, hanalyze, rfl,
    fun h => heval.1 ((hplaces _ _ (by decide)).2 h), (hplaces _ _ (by decide)).1 heval.2,
    fun ctx depth σ hctx => (hemission ctx hctx).1 depth σ⟩

/-- The closure of the first clause prints the message of the second one. -/
theorem clausesDemo_mixes_clauses : ∃ compiled, clausesDemo.compile.1 = .ok compiled ∧
    (∃ value, (compiled.machine.runMain 200 "Demo" []).1 = .value value) ∧
    (compiled.machine.runMain 200 "Demo" []).2.output = "b\n" := by
  obtain ⟨compiled, hcompile, heval⟩ := exists_ok_of_any (x := clausesDemo.compile.1)
    (p := fun compiled => (compiled.machine.runMain 200 "Demo" []).1 matches .value _ &&
      (compiled.machine.runMain 200 "Demo" []).2.output == "b\n") (by decide +kernel)
  simp only [Bool.and_eq_true, beq_iff_eq] at heval
  refine ⟨compiled, hcompile, ?_, heval.2⟩
  cases houtcome : (compiled.machine.runMain 200 "Demo" []).1 with
  | value value => exact ⟨value, rfl⟩
  | _ => simp [houtcome] at heval

end ClassBackend
