import ClassBackend.Proofs.Scope.Records

/-!
# The walk records the outline

One walk over a tree opens its scopes and resolves its references in the order
of its outline, so the table it ends with records the outline
(`analyze_records`).
-/

namespace ClassBackend.ScopeTable

variable {kind : ScopeKind} {owner around : NodeId} {parent : Option ScopeId} {scope : Scope}
  {name : String} {t : Ty} {types : TypeMap} {later : ScopeTable}
  {captures : Prop} {registry registry' : Registry}

variable {α β : Type} {w w' : Walk}

/-! ## Steps of the walk -/

namespace WalkM

theorem orFault_bind_eq_ok {x : Except Fault α} {f : α → Except Fault β} {b : β} :
    (x >>= f) = .ok b ↔ ∃ a, x = .ok a ∧ f a = .ok b := by
  cases x with
  | error | ok => simp [bind, Except.bind]

theorem bind_eq_ok {x : WalkM α} {f : α → WalkM β} {b : β} :
    (x >>= f) w = .ok (b, w') ↔ ∃ a w₁, x w = .ok (a, w₁) ∧ f a w₁ = .ok (b, w') := by
  show (x w >>= fun result => f result.1 result.2) = .ok (b, w') ↔ _
  rw [orFault_bind_eq_ok, Prod.exists]

theorem pure_eq_ok {a b : α} : (pure a : WalkM α) w = .ok (b, w') ↔ a = b ∧ w = w' := by
  show (Except.ok (a, w) : Except Fault _) = .ok (b, w') ↔ _
  simp

theorem modify_eq_ok {change : Walk → Walk} :
    (modifyThe Walk change : WalkM Unit) w = .ok ((), w') ↔ change w = w' := by
  show (Except.ok ((), change w) : Except Fault _) = .ok ((), w') ↔ _
  simp

theorem get_eq_ok {a : Walk} : (get : WalkM Walk) w = .ok (a, w') ↔ a = w ∧ w' = w := by
  show (Except.ok (w, w) : Except Fault _) = .ok (a, w') ↔ _
  simp [eq_comm]

end WalkM

open WalkM

variable {table : ScopeTable} {id : ScopeId} {node : Node} {all : List Item}

theorem openScope_eq_ok : openScope kind owner parent w = .ok (id, w') ↔ id = w.table.scopes.size ∧
      w' = { w with
        table := w.table.opened owner { kind, parent, owner, className := w.className } } := by
  show (Except.ok (_, _) : Except Fault _) = .ok (id, w') ↔ _
  simp [opened, eq_comm]

theorem update_eq_ok {change : ScopeTable → ScopeTable} :
    update change w = .ok ((), w') ↔ w' = { w with table := change w.table } :=
  modify_eq_ok.trans eq_comm

/-- The walk is in the scope that the node around it has. -/
def Walk.Stands (w : Walk) (around : NodeId) : Prop :=
  ∃ scope, w.current = some scope ∧ w.table.scopeFor? around = some scope

theorem hasLocal_define (scope : Scope) (name other : String) (t : Ty) :
    (scope.define name t).hasLocal other = true ↔ scope.hasLocal other = true ∨ name = other := by
  unfold Scope.define
  split
  · rename_i hlocal
    constructor
    · exact .inl
    · rintro (h | rfl)
      · exact h
      · exact hlocal
  · by_cases h : name = other
    · subst h
      simp [Scope.hasLocal, Scope.localType?, List.lookup_append]
    · have hne : (other == name) = false := beq_eq_false_iff_ne.2 (Ne.symm h)
      simp [Scope.hasLocal, Scope.localType?, List.lookup_append, List.lookup_cons, hne, h]

theorem isCaptured_capture (scope : Scope) (name other : String) :
    (scope.capture name).isCaptured other = true ↔
      scope.isCaptured other = true ∨ name = other := by
  unfold Scope.capture
  split
  · rename_i hcaptured
    constructor
    · exact .inl
    · rintro (h | rfl)
      · exact h
      · exact hcaptured
  · simp only [Scope.isCaptured, List.contains_append, Bool.or_eq_true, List.contains_cons,
      List.contains_nil, Bool.or_false, beq_iff_eq, @eq_comm _ name]

/-! ## Opening scopes -/

/-- The scope has got some more locals, and is otherwise as it was. -/
structure Declares (scope : Scope) (names : List String) (declared : Scope) : Prop where
  kind : declared.kind = scope.kind
  parent : declared.parent = scope.parent
  captured : declared.captured = scope.captured
  locals : ∀ other, declared.hasLocal other = true ↔ scope.hasLocal other = true ∨ other ∈ names

theorem Declares.nil (scope : Scope) : Declares scope [] scope :=
  ⟨rfl, rfl, rfl, by simp⟩

theorem define_same (scope : Scope) (name : String) (t : Ty) :
    (scope.define name t).kind = scope.kind ∧ (scope.define name t).parent = scope.parent ∧
      (scope.define name t).captured = scope.captured := by
  unfold Scope.define
  split <;> exact ⟨rfl, rfl, rfl⟩

theorem Declares.cons {declared : Scope} {names : List String}
    (h : Declares (scope.define name t) names declared) :
    Declares scope (name :: names) declared := by
  have hsame := define_same scope name t
  refine ⟨h.kind.trans hsame.1, h.parent.trans hsame.2.1, h.captured.trans hsame.2.2,
    fun other => ?_⟩
  rw [h.locals, hasLocal_define, List.mem_cons, or_assoc, @eq_comm _ name]

theorem modify_opened (table : ScopeTable) (owner : NodeId) (scope : Scope)
    (change : Scope → Scope) :
    (table.opened owner scope).modify table.scopes.size change =
      table.opened owner (change scope) := by
  simp only [modify, opened, ScopeTable.mk.injEq, and_true]
  refine Array.ext_getElem? fun i => ?_
  rw [Array.getElem?_modify, Array.getElem?_push, Array.getElem?_push]
  by_cases h : i = table.scopes.size
  · simp [h]
  · simp [h, Ne.symm h]

theorem typeOf_eq_ok {id : NodeId} :
    typeOf types id w = .ok (t, w') ↔ types.find? id = some t ∧ w = w' := by
  unfold typeOf
  cases types.find? id with
  | none => exact ⟨nofun, nofun⟩
  | some known => exact pure_eq_ok.trans (by simp)

theorem defineArgs_opened {args : List Argument} (htable : w.table = table.opened owner scope)
    (h : defineArgs types table.scopes.size args w = .ok ((), w')) :
    ∃ declared, Declares scope (args.map (·.name)) declared ∧
      w' = { w with table := table.opened owner declared } := by
  induction args generalizing w scope with
  | nil =>
    obtain ⟨-, rfl⟩ := pure_eq_ok.1 h
    exact ⟨scope, .nil scope, by rw [← htable]⟩
  | cons arg args ih =>
    obtain ⟨_, w₁, hfirst, hrest⟩ := bind_eq_ok.1 h
    obtain ⟨t, w₂, ht, hupdate⟩ := bind_eq_ok.1 hfirst
    obtain ⟨-, rfl⟩ := typeOf_eq_ok.1 ht
    obtain rfl := update_eq_ok.1 hupdate
    rw [htable, modify_opened] at hrest
    obtain ⟨declared, hdeclared, rfl⟩ := ih rfl hrest
    exact ⟨declared, hdeclared.cons, rfl⟩

/-! ## Following an outline -/

/-- No two scopes belong to one node, and no two references are one node. -/
structure Distinct (items : List Item) : Prop where
  owners : ((openings items).map Opening.owner).Nodup
  nodes : ((references items).map Reference.node).Nodup

namespace Distinct

variable {all past rest : List Item}

theorem owner_notMem (hall : Distinct all) {o : Opening} (h : past ++ .opening o :: rest <+: all) :
    o.owner ∉ (openings past).map Opening.owner := by
  rw [List.append_cons] at h
  have hpast : past ++ [.opening o] <+: all := (List.prefix_append _ _).trans h
  have hnodup := hall.owners.sublist ((hpast.sublist.filterMap _).map Opening.owner)
  rw [← openings, openings_append, List.map_append, List.nodup_append] at hnodup
  exact fun hmem => hnodup.2.2 _ hmem _ (List.mem_singleton_self _) rfl

theorem node_notMem (hall : Distinct all) {r : Reference}
    (h : past ++ .reference r :: rest <+: all) :
    r.node ∉ (references past).map Reference.node := by
  rw [List.append_cons] at h
  have hpast : past ++ [.reference r] <+: all := (List.prefix_append _ _).trans h
  have hnodup := hall.nodes.sublist ((hpast.sublist.filterMap _).map Reference.node)
  rw [← references, references_append, List.map_append, List.nodup_append] at hnodup
  exact fun hmem => hnodup.2.2 _ hmem _ (List.mem_singleton_self _) rfl

end Distinct

theorem Records.scopeFor?_append {past items : List Item} (h : table.Records past)
    (hlater : later.Records (past ++ items)) (hid : table.scopeFor? owner = some id) :
    later.scopeFor? owner = some id := by
  obtain ⟨o, ho, rfl⟩ := h.scopeFor?_eq_some.1 hid
  refine hlater.scopeFor?_eq_some.2 ⟨o, ?_, rfl⟩
  rw [openings_append, List.getElem?_append_left (List.getElem?_eq_some_iff.1 ho).1]
  exact ho

/-- Where a walk over a part of the tree may start: in any state, in the scope of the
node around it, with the number of that scope at hand, or next to a scope that was
opened for the node around. -/
inductive Position where
  | anywhere
  | within (around : NodeId)
  | knowing (around : NodeId) (current : Option ScopeId)
  | owning (around : NodeId) (scope : ScopeId)

namespace Position

def At (w : Walk) : Position → Prop
  | anywhere => True
  | within around => w.Stands around
  | knowing around current => w.Stands around ∧ w.current = current
  | owning around scope => w.table.scopeFor? around = some scope

/-- The position once the current scope has been looked up. -/
def reading (current : Option ScopeId) : Position → Position
  | within around => knowing around current
  | p => p

/-- A scope that is opened here has this one around it. -/
def Opens (o : Opening) (parent : Option ScopeId) : Position → Prop
  | anywhere => o.around = none ∧ parent = none ∧ o.kind = .method
  | knowing around current => o.around = some around ∧ parent = current
  | _ => False

variable {p : Position}

theorem At.stable (hcurrent : w'.current = w.current)
    (hscopes : ∀ {owner id}, w.table.scopeFor? owner = some id →
      w'.table.scopeFor? owner = some id) (h : p.At w) : p.At w' := by
  have hstands : ∀ {around}, w.Stands around → w'.Stands around := by
    rintro around ⟨scope, hscope, hid⟩
    exact ⟨scope, hcurrent.trans hscope, hscopes hid⟩
  cases p with
  | anywhere => trivial
  | within => exact hstands h
  | knowing => exact ⟨hstands h.1, hcurrent.trans h.2⟩
  | owning => exact hscopes h

theorem Opens.parent_eq {o : Opening} (hopens : p.Opens o parent) (h : p.At w) :
    parent = o.around.bind w.table.scopeFor? ∧
      (∀ around, o.around = some around → ∃ id, w.table.scopeFor? around = some id) ∧
      (o.around = none → o.kind = .method) := by
  cases p with
  | anywhere =>
    obtain ⟨haround, rfl, hkind⟩ := hopens
    rw [haround]
    exact ⟨rfl, nofun, fun _ => hkind⟩
  | knowing =>
    obtain ⟨haround, rfl⟩ := hopens
    obtain ⟨⟨scope, hscope, hid⟩, hcurrent⟩ := h
    rw [haround]
    refine ⟨hcurrent.symm.trans (hscope.trans hid.symm), ?_, nofun⟩
    rintro _ ⟨⟩
    exact ⟨scope, hid⟩
  | within | owning => cases hopens

end Position

/-- What a scope starts with: the arguments of its node, or those of the script. -/
inductive Defining (types : TypeMap) : List String → (ScopeId → WalkM Unit) → Prop
  | args (args : List Argument) :
    Defining types (args.map (·.name)) (defineArgs types · args)
  | argv : Defining types ["argv"] fun scope =>
    update (·.modify scope (·.define "argv" (.array Ty.text)))

theorem Defining.opened {names : List String} {define : ScopeId → WalkM Unit}
    (h : Defining types names define) (htable : w.table = table.opened owner scope)
    (hrun : define table.scopes.size w = .ok ((), w')) :
    ∃ declared, Declares scope names declared ∧
      w' = { w with table := table.opened owner declared } := by
  cases h with
  | args args => exact defineArgs_opened htable hrun
  | argv =>
    obtain rfl := update_eq_ok.1 hrun
    rw [htable, modify_opened]
    exact ⟨_, (Declares.nil _).cons, rfl⟩

/-- Steps of the walk that, started at the position, record the items. -/
def Follows (all : List Item) (p : Position) (items : List Item) (x : WalkM Unit) : Prop :=
  ∀ ⦃w w' past⦄, x w = .ok ((), w') → past ++ items <+: all → w.table.Records past → p.At w →
    w'.table.Records (past ++ items) ∧ w'.current = w.current

namespace Follows

variable {all items more : List Item} {p : Position} {x y : WalkM Unit}

theorem pure : Follows all p [] (Pure.pure ()) := by
  intro w w' past h _ hrecords _
  obtain ⟨-, rfl⟩ := pure_eq_ok.1 h
  exact ⟨(List.append_nil past).symm ▸ hrecords, rfl⟩

theorem bind (hx : Follows all p items x) (hy : Follows all p more y) :
    Follows all p (items ++ more) (x >>= fun _ => y) := by
  intro w w' past h hpast hrecords hw
  obtain ⟨_, w₁, hfirst, hrest⟩ := bind_eq_ok.1 h
  rw [← List.append_assoc] at hpast
  obtain ⟨hrecords₁, hcurrent₁⟩ :=
    hx hfirst ((List.prefix_append _ _).trans hpast) hrecords hw
  have hw₁ := hw.stable hcurrent₁ (hrecords.scopeFor?_append hrecords₁)
  obtain ⟨hrecords', hcurrent'⟩ := hy hrest hpast hrecords₁ hw₁
  exact ⟨(List.append_assoc past items more) ▸ hrecords', hcurrent'.trans hcurrent₁⟩

theorem reading {f : Walk → WalkM Unit}
    (h : ∀ w : Walk, Follows all (p.reading w.current) items (f w)) :
    Follows all p items (get >>= f) := by
  intro w w' past hrun hpast hrecords hw
  obtain ⟨_, _, hget, hrest⟩ := bind_eq_ok.1 hrun
  obtain ⟨rfl, rfl⟩ := get_eq_ok.1 hget
  refine h _ hrest hpast hrecords ?_
  cases p with
  | within => exact ⟨hw, rfl⟩
  | _ => exact hw

theorem relabel (name : String) :
    Follows all p [] (modifyThe Walk ({ · with className := name })) := by
  intro w w' past hrun _ hrecords _
  obtain rfl := modify_eq_ok.1 hrun
  exact ⟨(List.append_nil past).symm ▸ hrecords, rfl⟩

theorem inside (scope : ScopeId) (h : Follows all (.within around) items x) :
    Follows all (.owning around scope) items (inside scope x) := by
  intro w w' past hrun hpast hrecords hw
  obtain ⟨_, _, hget, hset⟩ := bind_eq_ok.1 hrun
  obtain ⟨rfl, rfl⟩ := get_eq_ok.1 hget
  obtain ⟨_, _, hset, hwalk⟩ := bind_eq_ok.1 hset
  obtain rfl := modify_eq_ok.1 hset
  obtain ⟨_, w₁, hinside, hreset⟩ := bind_eq_ok.1 hwalk
  obtain rfl := modify_eq_ok.1 hreset
  obtain ⟨hrecords', -⟩ := h hinside hpast hrecords ⟨scope, rfl, hw⟩
  exact ⟨hrecords', rfl⟩

theorem opening (hall : Distinct all) {o : Opening} {define inner : ScopeId → WalkM Unit}
    (hopens : p.Opens o parent) (hdefine : Defining types o.names define)
    (hinner : ∀ scope, Follows all (.owning o.owner scope) items (inner scope))
    (hrest : Follows all p more x) : Follows all p (.opening o :: (items ++ more))
      (openScope o.kind o.owner parent >>= fun scope => define scope >>= fun _ =>
        inner scope >>= fun _ => x) := by
  intro w w' past hrun hpast hrecords hw
  obtain ⟨scope, w₁, hopen, hrun⟩ := bind_eq_ok.1 hrun
  obtain ⟨rfl, rfl⟩ := openScope_eq_ok.1 hopen
  obtain ⟨_, w₂, hdeclare, hrun⟩ := bind_eq_ok.1 hrun
  obtain ⟨declared, hdeclared, rfl⟩ := hdefine.opened rfl hdeclare
  obtain ⟨_, w₃, hbody, hrun⟩ := bind_eq_ok.1 hrun
  obtain ⟨hparent, haround, hmethod⟩ := hopens.parent_eq hw
  have howner := hall.owner_notMem hpast
  have hrecords₂ := hrecords.opening howner hdeclared.kind (hdeclared.parent.trans hparent)
    (fun name => (hdeclared.locals name).trans (by simp [Scope.hasLocal, Scope.localType?]))
    hdeclared.captured haround hmethod
  rw [List.append_cons, ← List.append_assoc] at hpast ⊢
  have hnew := @scopeFor?_opened w.table o.owner o.owner declared
  rw [if_pos rfl] at hnew
  obtain ⟨hrecords₃, hcurrent₃⟩ :=
    hinner _ hbody ((List.prefix_append _ _).trans hpast) hrecords₂ hnew
  have hw₃ : p.At w₃ := Position.At.stable (w := w) hcurrent₃ (fun hid =>
    hrecords₂.scopeFor?_append hrecords₃
      ((hrecords.extends_opened howner declared).scopeFor hid)) hw
  obtain ⟨hrecords', hcurrent'⟩ := hrest hrun hpast hrecords₃ hw₃
  exact ⟨hrecords', hcurrent'.trans hcurrent₃⟩

end Follows

/-! ## Resolving references -/

theorem changes_capture (scope : Scope) (hlocal : scope.hasLocal name = true)
    (hcaptures : captures) :
    Changes name captures scope (scope.capture name) := by
  have hsame : (scope.capture name).kind = scope.kind ∧
      (scope.capture name).parent = scope.parent ∧
      (scope.capture name).locals = scope.locals := by
    unfold Scope.capture
    split <;> exact ⟨rfl, rfl, rfl⟩
  refine ⟨hsame.1, hsame.2.1, fun other => ?_, fun other => ?_⟩
  · rw [Scope.hasLocal, Scope.localType?, hsame.2.2]
    refine ⟨.inl, ?_⟩
    rintro (h | rfl)
    · exact h
    · exact hlocal
  · rw [isCaptured_capture]
    simp [hcaptures]

theorem changes_id (scope : Scope) (hlocal : scope.hasLocal name = true) (hcaptures : ¬ captures) :
    Changes name captures scope scope := by
  refine ⟨rfl, rfl, fun other => ⟨.inl, ?_⟩, fun other => by simp [hcaptures]⟩
  rintro (h | rfl)
  · exact h
  · exact hlocal

theorem changes_define (scope : Scope) (t : Ty) (hcaptures : ¬ captures) :
    Changes name captures scope (scope.define name t) := by
  have hsame := define_same scope name t
  refine ⟨hsame.1, hsame.2.1, fun other => hasLocal_define scope name other t, fun other => ?_⟩
  rw [Scope.isCaptured, hsame.2.2]
  simp [Scope.isCaptured, hcaptures]

theorem referred_of_same (table : ScopeTable) (node : NodeId) (id : ScopeId) :
    ({ table with resolved := (node, id) :: table.resolved } : ScopeTable) =
      table.referred node id (fun scope => scope) := by
  rw [referred, ScopeTable.mk.injEq]
  refine ⟨?_, rfl, rfl⟩
  refine Array.ext_getElem? fun i => ?_
  rw [modify, Array.getElem?_modify]
  split
  · exact Option.map_id'.symm
  · rfl

theorem refer_follows (hall : Distinct all) (types : TypeMap) (node : NodeId) (name : String)
    (around : NodeId) :
    Follows all (.within around) [.reference { node, name, around }] (refer types node name) := by
  rintro w w' past hrun hpast hrecords ⟨start, hcurrent, hstart⟩
  have hnode := hall.node_notMem hpast
  have hstart_lt := hrecords.scopeFor?_lt hstart
  -- it is enough to know which scope is changed, and how
  suffices hsuffices : ∃ id left change, w' = { w with table := w.table.referred node id change } ∧
      w.table.Climbs start left id ∧ w.table.Picks (w.table.Defines · name) start left id ∧
      ∀ scope, w.table.scope? id = some scope →
        Changes name (∃ k ∈ left, w.table.kindOf k = .closure) scope (change scope) by
    obtain ⟨id, left, change, rfl, hclimbs, hpicks, hchange⟩ := hsuffices
    exact ⟨hrecords.reference hnode hstart hclimbs hpicks hchange, rfl⟩
  have hn : start < w.table.scopes.size + 1 := Nat.lt_succ_of_lt hstart_lt
  obtain ⟨walk, w₀, hget, hrest⟩ := bind_eq_ok.1 hrun
  obtain ⟨hwalk, hw₀⟩ := get_eq_ok.1 hget
  rw [hwalk, hw₀] at hrest
  simp only [hcurrent] at hrest
  cases hsearch : w.table.search name false (w.table.chain start) with
  | some result =>
    obtain ⟨id, leftClosure⟩ := result
    simp only [hsearch, pure_bind] at hrest
    obtain ⟨left, hnearest, hleft⟩ := nearest_of_search hrecords.nested hn hsearch
    have hpicks : w.table.Picks (w.table.Defines · name) start left id :=
      ⟨hnearest.passes, .inl hnearest.defines⟩
    simp only [Bool.false_eq_true, false_or] at hleft
    have hlocal : ∀ scope, w.table.scope? id = some scope → scope.hasLocal name = true := by
      intro scope hscope
      obtain ⟨known, hknown, hlocal⟩ := hnearest.defines
      cases hknown.symm.trans hscope
      exact hlocal
    cases leftClosure with
    | true =>
      obtain ⟨_, w₁, hcapture, hrest⟩ := bind_eq_ok.1 hrest
      obtain rfl := update_eq_ok.1 hcapture
      obtain rfl := update_eq_ok.1 hrest
      exact ⟨id, left, (·.capture name), rfl, hnearest.climbs, hpicks, fun scope hscope =>
        changes_capture scope (hlocal scope hscope) (hleft.1 rfl)⟩
    | false =>
      simp only [Bool.false_eq_true, if_false] at hrest
      obtain rfl := update_eq_ok.1 hrest
      refine ⟨id, left, fun scope => scope, by rw [← referred_of_same], hnearest.climbs, hpicks,
        fun scope hscope => changes_id scope (hlocal scope hscope) fun hclosure => ?_⟩
      exact Bool.false_ne_true (hleft.2 hclosure)
  | none =>
    simp only [hsearch, pure_bind] at hrest
    obtain ⟨left, hclimbs, hkind, hblocks⟩ := climbs_definitionScope hrecords.nested hstart_lt
    have hnone : ∀ outer k, w.table.Climbs start outer k →
        (∀ j ∈ outer, w.table.kindOf j ≠ .method) → ¬ w.table.Defines k name :=
      fun outer k => of_search_eq_none hrecords.nested hn hsearch
    obtain ⟨t, w₁, htype, hrest⟩ := bind_eq_ok.1 hrest
    obtain ⟨-, rfl⟩ := typeOf_eq_ok.1 htype
    obtain ⟨_, w₂, hdefine, hrest⟩ := bind_eq_ok.1 hrest
    obtain rfl := update_eq_ok.1 hdefine
    obtain rfl := update_eq_ok.1 hrest
    refine ⟨_, left, (·.define name t), rfl, hclimbs,
      ⟨fun k hk => ?_, .inr ⟨hkind, hblocks, hnone⟩⟩,
      fun scope _ => changes_define scope t fun ⟨k, hk, hclosure⟩ => ?_⟩
    · rw [hblocks k hk]
      obtain ⟨outer, houter, hsub⟩ := hclimbs.exists_of_mem hk
      refine ⟨by decide, hnone outer k houter fun j hj => ?_⟩
      rw [hblocks j (hsub j hj)]
      decide
    · rw [hblocks k hk] at hclosure
      cases hclosure

/-! ## The walk -/

theorem defineArgs_singleton (types : TypeMap) (scope : ScopeId) (id : NodeId) (name : String)
    (default : Option Node) : defineArgs types scope [⟨id, name, default⟩] =
      typeOf types id >>= fun t => update (·.modify scope (·.define name t)) := by
  simp only [defineArgs, List.forM_eq_forM, List.forM_cons, List.forM_nil, bind_assoc]
  rfl

theorem visitAll_append (nodes more : List Node) : visitAll types (nodes ++ more) =
      visitAll types nodes >>= fun _ => visitAll types more := by
  induction nodes with
  | nil => rfl
  | cons node nodes ih => simp [visitAll, ih]

theorem visitOption_eq (node : Option Node) :
    visitOption types node = visitAll types node.toList := by
  cases node <;> simp [visitOption, visitAll]

theorem visitDefaults_eq (args : List Argument) :
    visitDefaults types args = visitAll types (Argument.defaults args) := by
  induction args with
  | nil => rfl
  | cons arg args ih =>
    obtain ⟨id, name, default⟩ := arg
    rw [Argument.defaults_cons, visitAll_append, visitDefaults, visitOption_eq, ih]

theorem visitDelegation_eq (delegate : Option Delegation) :
    visitDelegation types delegate = visitAll types ((delegate.map (·.args)).getD []) := by
  rcases delegate with _ | ⟨callsSuper, args⟩ <;> simp [visitDelegation, visitAll]

theorem visit_of_isSimple (h : node.kind.isSimple = true) :
    visit types node = visitAll types node.children := by
  obtain ⟨id, span, kind⟩ := node
  rw [visit]
  cases kind with
  | loop parts =>
    obtain ⟨init, condition, pre, main, post, skipFirstCheck, negative⟩ := parts
    simp [visitKind, Node.children, visitAll_append, visitOption_eq, visitAll]
  | script | classDef | methodDef | constructorDef | closureDef | rescue | localDecl | localAccess
  | localAssign => cases h
  | _ => simp [visitKind, Node.children, visitAll_append, visitOption_eq, visitAll]

/-- The parts of a method or constructor are walked through in its scope, which
starts with the arguments. -/
theorem visit_of_args {args : List Argument} (h : node.kind.args? = some args) :
    visit types node = openScope .method node.id none >>= fun scope =>
      defineArgs types scope args >>= fun _ => inside scope (visitAll types node.children) := by
  obtain ⟨id, span, kind⟩ := node
  rw [visit]
  cases kind with
  | methodDef definition =>
    obtain ⟨name, args, code, isStatic, throws, notes⟩ := definition
    cases h
    simp only [visitKind, visitDefaults_eq, visitOption_eq, ← visitAll_append]
    rfl
  | constructorDef definition =>
    obtain ⟨args, code, delegate⟩ := definition
    cases h
    simp only [visitKind, visitDefaults_eq, visitDelegation_eq, visitOption_eq, ← visitAll_append,
      ← List.append_assoc]
    rfl
  | _ => cases h

theorem visitClosure_cons_method {rest : List Node} {definition : MethodDef}
    (h : node.kind = .methodDef definition) :
    visitClosure types parent (node :: rest) = openScope .closure node.id parent >>= fun scope =>
      defineArgs types scope definition.args >>= fun _ =>
      inside scope (visitAll types node.children) >>= fun _ => visitClosure types parent rest := by
  obtain ⟨id, span, kind⟩ := node
  obtain ⟨name, args, code, isStatic, throws, notes⟩ := definition
  obtain rfl := h
  simp only [visitClosure, visitDefaults_eq, visitOption_eq, ← visitAll_append]
  rfl

theorem visitClosure_cons_other {rest : List Node}
    (h : ∀ definition, node.kind ≠ .methodDef definition) :
    visitClosure types parent (node :: rest) =
      visit types node >>= fun _ => visitClosure types parent rest :=
  visitClosure.eq_3 types parent node rest fun _ _ _ _ _ _ _ _ hnode =>
    h _ (congrArg Node.kind hnode)

/-- Rules for a property of walks that record an outline from a position. -/
structure WalkRules (types : TypeMap) (holds : Position → List Item → WalkM Unit → Prop) :
    Prop where
  pure (p : Position) : holds p [] (pure ())
  bind {p : Position} {items more : List Item} {x y : WalkM Unit} : holds p items x →
    holds p more y → holds p (items ++ more) (x >>= fun _ => y)
  anywhere {p : Position} {items : List Item} {x : WalkM Unit} : holds .anywhere items x →
    holds p items x
  knowing {around : NodeId} {current : Option ScopeId} {items : List Item} {x : WalkM Unit} :
    holds (.within around) items x → holds (.knowing around current) items x
  reading {p : Position} {items : List Item} {f : Walk → WalkM Unit} :
    (∀ w : Walk, holds (p.reading w.current) items (f w)) → holds p items (get >>= f)
  relabel (name : String) : holds .anywhere [] (modifyThe Walk ({ · with className := name }))
  inside {around : NodeId} {items : List Item} {x : WalkM Unit} (scope : ScopeId) :
    holds (.within around) items x → holds (.owning around scope) items (inside scope x)
  opening {p : Position} {items more : List Item} {x : WalkM Unit} {o : Opening}
    {parent : Option ScopeId} {define inner : ScopeId → WalkM Unit} : p.Opens o parent →
    Defining types o.names define →
    (∀ scope, holds (.owning o.owner scope) items (inner scope)) → holds p more x →
    holds p (.opening o :: (items ++ more)) (openScope o.kind o.owner parent >>= fun scope =>
      define scope >>= fun _ => inner scope >>= fun _ => x)
  refer (node : NodeId) (name : String) (around : NodeId) :
    holds (.within around) [.reference { node, name, around }] (refer types node name)

theorem Distinct.follows (hall : Distinct all) (types : TypeMap) :
    WalkRules types (Follows all) where
  pure _ := .pure
  bind := .bind
  anywhere h _ _ _ hrun hpast hrecords _ := h hrun hpast hrecords trivial
  knowing h _ _ _ hrun hpast hrecords hw := h hrun hpast hrecords hw.1
  reading := .reading
  relabel := .relabel
  inside := .inside
  opening := .opening hall
  refer := refer_follows hall types

/-- Definitions stand on their own, other nodes in the scope around them. -/
def Position.of (node : Node) (around : NodeId) : Position :=
  if node.kind.isDefinition then .anywhere else .within around

namespace WalkRules

variable {holds : Position → List Item → WalkM Unit → Prop} (R : WalkRules types holds)
include R

section Parts

variable {n : Nat} (ih : ∀ node : Node, node.size < n → ∀ around,
  holds (.of node around) (node.outline around) (visit types node))
include ih

theorem within (hn : node.size < n) (around : NodeId) :
    holds (.within around) (node.outline around) (visit types node) := by
  have hnode := ih node hn around
  unfold Position.of at hnode
  split at hnode
  · exact R.anywhere hnode
  · exact hnode

theorem visitAll {nodes : List Node} (hn : listSize nodes < n) (around : NodeId) :
    holds (.within around) (outlineAll around nodes) (visitAll types nodes) := by
  induction nodes with
  | nil =>
    rw [ScopeTable.visitAll, outlineAll]
    exact R.pure _
  | cons node rest hrest =>
    rw [listSize_cons] at hn
    rw [ScopeTable.visitAll, outlineAll]
    exact R.bind (R.within ih (by omega) around) (hrest (by omega))

theorem visitMembers {nodes : List Node} (hn : listSize nodes < n) (around : NodeId)
    (scope : ScopeId) :
    holds (.owning around scope) (outlineAll around nodes) (visitMembers types scope nodes) := by
  induction nodes with
  | nil =>
    rw [ScopeTable.visitMembers, outlineAll]
    exact R.pure _
  | cons node rest hrest =>
    rw [listSize_cons] at hn
    rw [ScopeTable.visitMembers, outlineAll]
    have hnode := ih node (by omega) around
    replace hrest := hrest (by omega)
    unfold Position.of at hnode
    split at hnode
    · rename_i hkind
      rw [if_pos hkind]
      exact R.bind (R.anywhere hnode) hrest
    · rename_i hkind
      rw [if_neg hkind]
      exact R.bind (R.inside scope hnode) hrest

theorem visitClosure {methods : List Node} (hn : listSize methods < n) (around : NodeId)
    (parent : Option ScopeId) : holds (.knowing around parent) (outlineClosure around methods)
      (visitClosure types parent methods) := by
  induction methods with
  | nil =>
    rw [ScopeTable.visitClosure, outlineClosure]
    exact R.pure _
  | cons node rest hrest =>
    have hsize := node.size_eq_children
    rw [listSize_cons] at hn
    replace hrest := hrest (by omega)
    by_cases hmethod : ∃ definition, node.kind = .methodDef definition
    · obtain ⟨definition, hkind⟩ := hmethod
      have hparts : node.children =
          Argument.defaults definition.args ++ definition.body.toList := by
        rw [Node.children, hkind]
      rw [visitClosure_cons_method hkind, outlineClosure_cons_method hkind,
        MethodDef.outline_eq, ← hparts]
      exact R.opening (p := .knowing around parent) ⟨rfl, rfl⟩ (.args _)
        (fun scope => R.inside scope (R.visitAll ih (by omega) node.id)) hrest
    · have hother := fun definition hkind => hmethod ⟨definition, hkind⟩
      rw [visitClosure_cons_other hother, outlineClosure_cons_other hother]
      exact R.bind (R.knowing (R.within ih (by omega) around)) hrest

theorem visitClauses {clauses : List RescueClause} (hn : listSize (clauses.map (·.body)) < n)
    (around : NodeId) :
    holds (.within around) (outlineClauses around clauses) (visitClauses types clauses) := by
  induction clauses with
  | nil =>
    rw [ScopeTable.visitClauses, outlineClauses]
    exact R.pure _
  | cons clause rest hrest =>
    obtain ⟨id, name, exceptions, main⟩ := clause
    simp only [List.map_cons, listSize_cons] at hn
    rw [ScopeTable.visitClauses, outlineClauses]
    refine R.reading fun walk => ?_
    have hopening : ∀ args : List Argument, holds (.knowing around walk.current)
        (.opening ⟨id, .block, around, args.map (·.name)⟩ ::
          (main.outline id ++ outlineClauses around rest))
        (openScope .block id walk.current >>= fun scope => defineArgs types scope args >>= fun _ =>
          ScopeTable.inside scope (visit types main) >>= fun _ =>
          ScopeTable.visitClauses types rest) := fun args =>
      R.opening (p := .knowing around walk.current) ⟨rfl, rfl⟩ (.args args)
        (fun scope => R.inside scope (R.within ih (by omega) id)) (R.knowing (hrest (by omega)))
    cases name with
    | none => exact hopening []
    | some name =>
      -- the variable of a clause is declared like the one argument of a method
      have hclause := hopening [⟨id, name, none⟩]
      simp only [defineArgs_singleton, bind_assoc] at hclause
      exact hclause

end Parts

/-- A scope is opened, and nothing follows. -/
theorem openingLast {names : List String} {items : List Item} {id : NodeId}
    {define inner : ScopeId → WalkM Unit} (hdefine : Defining types names define)
    (hinner : ∀ scope, holds (.owning id scope) items (inner scope)) :
    holds .anywhere (.opening ⟨id, .method, none, names⟩ :: items)
      (openScope .method id none >>= fun scope => define scope >>= fun _ => inner scope) := by
  have hopening := R.opening (p := .anywhere) (o := ⟨id, .method, none, names⟩) ⟨rfl, rfl, rfl⟩
    hdefine hinner (R.pure _)
  simpa only [List.append_nil, bind_pure_unit] using hopening

theorem visit (node : Node) (around : NodeId) :
    holds (.of node around) (node.outline around) (visit types node) := by
  induction hsize : node.size using Nat.strongRecOn generalizing node around with
  | _ n hsmaller =>
  have ih : ∀ node : Node, node.size < n → ∀ around, holds (.of node around)
      (node.outline around) (ScopeTable.visit types node) :=
    fun node hn around => hsmaller _ hn node around rfl
  have hn : listSize node.children < n := by
    rw [← hsize, node.size_eq_children]
    exact Nat.lt_succ_self _
  obtain ⟨id, span, kind⟩ := node
  cases kind with
  | script statements =>
    rw [ScopeTable.visit, visitKind, Node.outline, NodeKind.outline]
    exact R.anywhere (R.openingLast .argv fun scope => R.visitMembers ih hn id scope)
  | classDef definition =>
    obtain ⟨name, superclass, interfaces, isInterface, members⟩ := definition
    rw [ScopeTable.visit, visitKind, Node.outline, NodeKind.outline]
    refine R.reading fun walk => R.bind (R.relabel name) ?_
    rw [← List.append_nil (outlineAll id members)]
    exact R.opening (p := .anywhere) (o := ⟨id, .method, none, []⟩) ⟨rfl, rfl, rfl⟩ (.args [])
      (fun scope => R.visitMembers ih hn id scope) (R.relabel _)
  | methodDef definition | constructorDef definition =>
    rw [visit_of_args rfl, outline_of_definition rfl fun _ h => by cases h]
    exact R.openingLast (.args _) fun scope => R.inside scope (R.visitAll ih hn id)
  | closureDef definition =>
    obtain ⟨name, interfaces, methods⟩ := definition
    rw [ScopeTable.visit, visitKind, Node.outline, NodeKind.outline]
    exact R.reading fun walk => R.visitClosure ih hn around walk.current
  | rescue main clauses elseClause =>
    simp only [Node.children, List.cons_append, listSize_cons, listSize_append] at hn
    rw [ScopeTable.visit, visitKind, visitOption_eq, Node.outline, NodeKind.outline,
      outlineOption_eq, List.append_assoc]
    exact R.bind (R.within ih (by omega) around)
      (R.bind (R.visitClauses ih (by omega) around) (R.visitAll ih (by omega) around))
  | localDecl name | localAccess name =>
    rw [ScopeTable.visit, visitKind, Node.outline, NodeKind.outline]
    exact R.refer id name around
  | localAssign name value =>
    rw [ScopeTable.visit, visitKind, Node.outline, NodeKind.outline]
    exact R.bind (R.within ih hn around) (R.refer id name around)
  | fieldDecl =>
    rw [ScopeTable.visit, visitKind, Node.outline, NodeKind.outline]
    exact R.pure _
  | _ =>
    rw [visit_of_isSimple rfl, outline_of_isSimple rfl]
    exact R.visitAll ih hn around

/-- A script can be walked through from any state. -/
theorem visitScript {statements : List Node} (hkind : node.kind = .script statements)
    (around : NodeId) : holds .anywhere (node.outline around) (ScopeTable.visit types node) := by
  obtain ⟨id, span, kind⟩ := node
  obtain rfl := hkind
  rw [ScopeTable.visit, visitKind, Node.outline, NodeKind.outline]
  exact R.openingLast .argv fun scope =>
    R.visitMembers (fun node _ => R.visit node) (Nat.lt_succ_self _) id scope

end WalkRules

/-! ## Binding classes -/

/-- The table before binding classes are assigned. -/
def unbound (table : ScopeTable) : ScopeTable :=
  { table with scopes := table.scopes.map ({ · with binding := none }) }

section

variable {table : ScopeTable} {id : ScopeId}

theorem scope?_unbound :
    table.unbound.scope? id = (table.scope? id).map ({ · with binding := none }) :=
  Array.getElem?_map

@[simp] theorem kindOf_unbound : table.unbound.kindOf id = table.kindOf id := by
  rw [kindOf, scope?_unbound, Option.map_map]
  rfl

@[simp] theorem parent?_unbound : table.unbound.parent? id = table.parent? id := by
  rw [parent?, scope?_unbound, Option.bind_map]
  rfl

@[simp] theorem isCaptured_unbound :
    table.unbound.isCaptured id name = table.isCaptured id name := by
  rw [isCaptured, scope?_unbound, Option.any_map]
  rfl

@[simp] theorem defines_unbound : table.unbound.Defines id name ↔ table.Defines id name := by
  rw [Defines, Defines, scope?_unbound]
  cases table.scope? id with
  | none => simp
  | some scope => simp [Scope.hasLocal, Scope.localType?]

theorem Records.of_unbound_eq {items : List Item} (h : table.Records items)
    (heq : later.unbound = table.unbound) : later.Records items := by
  have hintroduced : later.unbound.introduced = table.unbound.introduced := by rw [heq]
  have hresolved : later.unbound.resolved = table.unbound.resolved := by rw [heq]
  have hsize : later.scopes.size = table.scopes.size := by
    simpa [unbound] using congrArg (·.scopes.size) heq
  have hscopeFor : ∀ owner, later.scopeFor? owner = table.scopeFor? owner := fun owner => by
    exact congrArg (List.lookup owner) hintroduced
  have hdefining : ∀ node, later.definingScope? node = table.definingScope? node := fun node => by
    exact congrArg (List.lookup node) hresolved
  have hkind : ∀ id, later.kindOf id = table.kindOf id := fun id => by
    rw [← kindOf_unbound, heq, kindOf_unbound]
  have hparent : ∀ id, later.parent? id = table.parent? id := fun id => by
    rw [← parent?_unbound, heq, parent?_unbound]
  have hdefines : ∀ id name, later.Defines id name ↔ table.Defines id name := fun id name => by
    rw [← defines_unbound, heq, defines_unbound]
  have hcaptured : ∀ id name, later.isCaptured id name = table.isCaptured id name :=
    fun id name => by
    rw [← isCaptured_unbound, heq, isCaptured_unbound]
  have hext : table.Extends later :=
    { scopeFor := fun hid => (hscopeFor _).trans hid
      defining := fun hid => (hdefining _).trans hid
      kindOf := fun _ => hkind _
      parent := fun _ => hparent _
      defines := fun h => (hdefines _ _).2 h }
  refine
    { introduced := hintroduced.trans h.introduced
      size := hsize.trans h.size
      resolved := (congrArg _ hresolved).trans h.resolved
      owners := h.owners
      nodes := h.nodes
      nested := ⟨fun hid => h.nested.parent_lt ((hparent _).symm.trans hid), fun hid hne => ?_⟩
      shape := fun {id o} ho => ?_
      holds := fun {id name} => ?_
      captures := fun {id name} => ?_
      resolves := hext.resolves h }
  · rw [hparent]
    exact h.nested.exists_parent (hsize ▸ hid) (hkind _ ▸ hne)
  · rw [hkind, hparent, funext hscopeFor]
    exact h.shape ho
  · rw [hdefines, hext.holds_iff h (List.append_nil items).symm]
    exact h.holds
  · rw [hcaptured, hext.reaches_iff h]
    exact h.captures

theorem unbound_modify (binding : Ty) :
    (table.modify id ({ · with binding := some binding })).unbound = table.unbound := by
  simp only [unbound, modify, ScopeTable.mk.injEq, and_true]
  refine Array.ext_getElem? fun i => ?_
  rw [Array.getElem?_map, Array.getElem?_map, Array.getElem?_modify]
  split
  · rw [Option.map_map]
    rfl
  · rfl

end

/-- The class of a name, which is defined if it is not complete. -/
def lookedUp (registry : Registry) (name : String) : Except Fault (Registry × Ty) :=
  match (registry.get name).toOption.filter registry.isComplete with
  | some existing => .ok (registry, existing)
  | none => registry.define name none [] false

theorem assignBindings_induction {motive : List (ScopeId × Nat) → ScopeTable → ScopeTable → Prop}
    (nil : ∀ table, motive [] table table)
    (cons : ∀ {root index roots table later className registry registry'} {binding : Ty},
      lookedUp registry (className ++ "$Binding" ++ toString (index + 1)) =
        .ok (registry', binding) →
      motive roots (table.modify root ({ · with binding := some binding })) later →
      motive ((root, index) :: roots) table later)
    (h : table.assignBindings registry = .ok (registry', later)) :
    motive table.capturingRoots.zipIdx table later := by
  unfold assignBindings at h
  generalize table.capturingRoots.zipIdx = roots at h ⊢
  induction roots generalizing table registry with
  | nil =>
    obtain ⟨rfl, rfl⟩ : registry = registry' ∧ table = later := by
      simpa [pure, Except.pure] using h
    exact nil table
  | cons entry roots ih =>
    obtain ⟨root, index⟩ := entry
    rw [List.foldlM_cons] at h
    obtain ⟨⟨registry₁, table₁⟩, hstep, hrest⟩ := orFault_bind_eq_ok.1 h
    -- the class was known, or is added to the registry
    dsimp only at hstep
    split at hstep
    · rename_i hfound
      cases hstep
      exact cons (by rw [lookedUp, hfound]) (ih hrest)
    · rename_i hnone
      obtain ⟨⟨registry₂, binding⟩, hdefined, hstep⟩ := orFault_bind_eq_ok.1 hstep
      cases hstep
      exact cons (by rw [lookedUp, hnone]; exact hdefined) (ih hrest)

theorem unbound_assignBindings (h : table.assignBindings registry = .ok (registry', later)) :
    later.unbound = table.unbound :=
  assignBindings_induction (motive := fun _ table later => later.unbound = table.unbound)
    (fun _ => rfl) (fun _ ih => ih.trans (unbound_modify _)) h

def bindingTypes (table : ScopeTable) : List Ty := table.scopes.toList.filterMap (·.binding)

theorem mem_bindingTypes :
    t ∈ table.bindingTypes ↔ ∃ id scope, table.scope? id = some scope ∧ scope.binding = some t := by
  simp only [bindingTypes, List.mem_filterMap, Array.mem_toList_iff, Array.mem_iff_getElem?]
  exact ⟨fun ⟨scope, ⟨id, hid⟩, hbinding⟩ => ⟨id, scope, hid, hbinding⟩,
    fun ⟨id, scope, hid, hbinding⟩ => ⟨scope, ⟨id, hid⟩, hbinding⟩⟩

theorem mem_bindingTypes_of_bindingType? (h : table.bindingType? id = some t) :
    t ∈ table.bindingTypes := by
  obtain ⟨scope, hscope, hbinding⟩ := Option.bind_eq_some_iff.1 h
  exact mem_bindingTypes.2 ⟨_, scope, hscope, hbinding⟩

def Bound (table : ScopeTable) (id : ScopeId) : Prop :=
  ((table.scope? id).bind (·.binding)).isSome = true

theorem bound_modify {root : ScopeId} {binding : Ty} (hid : id < table.scopes.size)
    (h : id = root ∨ table.Bound id) :
    (table.modify root ({ · with binding := some binding })).Bound id := by
  unfold Bound modify scope? at *
  rw [Array.getElem?_modify]
  by_cases heq : root = id
  · rw [if_pos heq, Array.getElem?_eq_getElem hid]
    rfl
  · rw [if_neg heq]
    exact h.resolve_left fun h => heq h.symm

theorem bound_assignBindings (h : table.assignBindings registry = .ok (registry', later))
    (hid : id < table.scopes.size) (hroot : id ∈ table.capturingRoots) : later.Bound id := by
  have hmem : id ∈ table.capturingRoots.zipIdx.map (·.1) := by simpa using hroot
  refine assignBindings_induction (motive := fun roots table later =>
    id < table.scopes.size → id ∈ roots.map (·.1) ∨ table.Bound id → later.Bound id)
    (fun _ _ hor => hor.resolve_left List.not_mem_nil)
    (fun {root _ _ table _ _ _ _ binding} _ ih hid hor => ?_)
    h hid (.inl hmem)
  have hsize : id < (table.modify root ({ · with binding := some binding })).scopes.size := by
    rwa [modify, Array.size_modify]
  rw [List.map_cons, List.mem_cons, or_assoc] at hor
  rcases hor with heq | hmem | hbound
  · exact ih hsize (.inr (bound_modify hid (.inl heq)))
  · exact ih hsize (.inl hmem)
  · exact ih hsize (.inr (bound_modify hid (.inr hbound)))

/-- What one step of a fold adds, and no step removes, is there in the end. -/
theorem mem_foldl {f : List α → β → List α} {a : α} {b : β} {bs : List β}
    (hkeep : ∀ l x, a ∈ l → a ∈ f l x) (hadd : ∀ l, a ∈ f l b) (hb : b ∈ bs) (l : List α) :
    a ∈ bs.foldl f l := by
  have hkeeps : ∀ (bs : List β) (l : List α), a ∈ l → a ∈ bs.foldl f l := by
    intro bs
    induction bs with
    | nil => exact fun _ h => h
    | cons x bs ih => exact fun l h => ih _ (hkeep l x h)
  obtain ⟨before, after, rfl⟩ := List.append_of_mem hb
  rw [List.foldl_append, List.foldl_cons]
  exact hkeeps after _ (hadd _)

/-- The root of a scope with captured locals is to get a binding class. -/
theorem rootOf_mem_capturingRoots (hscope : table.scope? id = some scope)
    (hcaptures : scope.hasCaptures = true) : table.rootOf id ∈ table.capturingRoots := by
  have hid : id < table.scopes.size := (Array.getElem?_eq_some_iff.1 hscope).1
  refine mem_foldl (fun roots other hroot => ?_) (fun roots => ?_) (List.mem_range.2 hid) []
  · dsimp only
    split
    · split
      · exact hroot
      · exact List.mem_append_left _ hroot
    · exact hroot
  · simp only [hscope, Option.any_some, hcaptures, if_true]
    split
    · rename_i hcontains
      exact List.contains_iff_mem.1 hcontains
    · exact List.mem_append_right _ (List.mem_singleton_self _)

theorem rootOf_unbound (id : ScopeId) : table.unbound.rootOf id = table.rootOf id := by
  have hchain : ∀ n id, table.unbound.chainWithin n id = table.chainWithin n id := by
    intro n
    induction n with
    | zero => exact fun _ => rfl
    | succ n ih =>
      intro id
      rw [chainWithin_succ, chainWithin_succ, parent?_unbound, funext ih]
  have hfirst : ∀ ids, table.unbound.firstOf (· == .method) ids =
    table.firstOf (· == .method) ids := by
    intro ids
    induction ids with
    | nil => rfl
    | cons id ids ih =>
      cases ids with
      | nil => rfl
      | cons next ids =>
        show (if _ then some id else table.unbound.firstOf _ (next :: ids)) = _
        rw [kindOf_unbound, ih]
        rfl
  have hsize : table.unbound.scopes.size = table.scopes.size := by simp [unbound]
  rw [rootOf, rootOf, chain, chain, hchain, hfirst, hsize]

theorem bindingType?_isSome_of_isCaptured {mainClass : String} {script : Node}
    (htable : table.Nested) (h : analyze mainClass script types registry = .ok (registry', table))
    (hcaptured : table.isCaptured id name = true) : (table.bindingType? id).isSome = true := by
  obtain ⟨⟨_, walk⟩, -, hassign⟩ := orFault_bind_eq_ok.1 h
  have hunbound := unbound_assignBindings hassign
  have hsize : walk.table.scopes.size = table.scopes.size := by
    simpa [unbound] using (congrArg (·.scopes.size) hunbound).symm
  rw [← isCaptured_unbound, hunbound, isCaptured_unbound] at hcaptured
  cases hscope : walk.table.scope? id with
  | none =>
    rw [isCaptured, hscope] at hcaptured
    cases hcaptured
  | some scope =>
    rw [isCaptured, hscope, Option.any_some] at hcaptured
    have hcaptures : scope.hasCaptures = true := by
      unfold Scope.isCaptured at hcaptured
      unfold Scope.hasCaptures
      cases hnames : scope.captured with
      | nil => simp [hnames] at hcaptured
      | cons => rfl
    have hid : id < table.scopes.size := hsize ▸ (Array.getElem?_eq_some_iff.1 hscope).1
    -- the root is around the scope, so it is a scope of the table
    obtain ⟨left, root, hroot, hclimbs, -⟩ := @climbs_firstOf table id (· == .method) rfl htable hid
    have hlt : table.rootOf id < walk.table.scopes.size := by
      rw [hsize, rootOf, hroot]
      exact Nat.lt_of_le_of_lt (hclimbs.target_le htable) hid
    have hmem := rootOf_mem_capturingRoots hscope hcaptures
    rw [← rootOf_unbound, ← hunbound, rootOf_unbound] at hmem
    exact bound_assignBindings hassign hlt hmem

theorem records_nil : Records {} [] where
  introduced := rfl
  size := rfl
  resolved := rfl
  owners := .nil
  nodes := .nil
  nested := ⟨nofun, nofun⟩
  shape := nofun
  holds := ⟨nofun, nofun⟩
  captures := ⟨nofun, nofun⟩
  resolves := fun h => by simp at h

theorem analyze_records {mainClass : String} {script : Node} {statements : List Node}
    (hkind : script.kind = .script statements) (hdistinct : Distinct (script.outline around))
    (h : analyze mainClass script types registry = .ok (registry', table)) :
    table.Records (script.outline around) := by
  obtain ⟨⟨_, walk⟩, hvisit, hassign⟩ := orFault_bind_eq_ok.1 h
  have hrecords := ((hdistinct.follows types).visitScript hkind around hvisit
    (List.prefix_refl _) records_nil trivial).1
  exact hrecords.of_unbound_eq (unbound_assignBindings hassign)

end ClassBackend.ScopeTable
