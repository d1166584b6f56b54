import ClassBackend.Proofs.Scope.Resolution
import Mathlib.Data.List.Nodup

/-!
# What a scope table records

A table *records* a list of items if its scopes are those that the items open,
each reference is resolved as the items before it demand, and the captured
locals are those that some reference reaches through a closure. Opening a scope
and resolving a reference each record one more item (`Records.opening`,
`Records.reference`).
-/

namespace ClassBackend

variable {o : Opening}

def openings (items : List Item) : List Opening :=
  items.filterMap fun
    | .opening o => some o
    | .reference _ => none

def references (items : List Item) : List Reference :=
  items.filterMap fun
    | .opening _ => none
    | .reference r => some r

@[simp] theorem openings_append (xs ys : List Item) :
    openings (xs ++ ys) = openings xs ++ openings ys := List.filterMap_append

@[simp] theorem references_append (xs ys : List Item) :
    references (xs ++ ys) = references xs ++ references ys := List.filterMap_append

@[simp] theorem openings_opening (o : Opening) : openings [.opening o] = [o] := rfl

@[simp] theorem openings_reference (r : Reference) : openings [.reference r] = [] := rfl

@[simp] theorem references_opening (o : Opening) : references [.opening o] = [] := rfl

@[simp] theorem references_reference (r : Reference) : references [.reference r] = [r] := rfl

theorem mem_openings {items : List Item} : o ∈ openings items ↔ .opening o ∈ items := by
  rw [openings, List.mem_filterMap]
  constructor
  · rintro ⟨item, hitem, heq⟩
    cases item with
    | opening o' => exact Option.some.inj heq ▸ hitem
    | reference r => cases heq
  · exact fun h => ⟨_, h, rfl⟩

namespace ScopeTable

variable {r : Reference} {owner : NodeId} {start : ScopeId} {left : List ScopeId}

/-- The items give a scope a local of this name: it starts with it, or a
reference has been resolved to it. -/
def Holds (table : ScopeTable) (items : List Item) (id : ScopeId) (name : String) : Prop :=
  (∃ o, .opening o ∈ items ∧ table.scopeFor? o.owner = some id ∧ name ∈ o.names) ∨
    ∃ r, .reference r ∈ items ∧ table.definingScope? r.node = some id ∧ r.name = name

/-- The scope of a reference: the nearest one that already holds the name, up to
the first method, and otherwise the nearest one that is no block. -/
def Resolves (table : ScopeTable) (before : List Item) (r : Reference) : Prop :=
  ∃ start left scope, table.scopeFor? r.around = some start ∧
    table.definingScope? r.node = some scope ∧ table.Climbs start left scope ∧
    table.Defines scope r.name ∧
    (∀ k ∈ left, table.kindOf k ≠ .method ∧ ¬ table.Holds before k r.name) ∧
    (table.Holds before scope r.name ∨
      (table.kindOf scope ≠ .block ∧ (∀ k ∈ left, table.kindOf k = .block) ∧
        ∀ outer k, table.Climbs start outer k → (∀ j ∈ outer, table.kindOf j ≠ .method) →
          ¬ table.Holds before k r.name))

/-- What `Resolves` asks of the way to the scope, when `Known` says which scopes
hold the name. -/
def Picks (table : ScopeTable) (Known : ScopeId → Prop) (start : ScopeId) (left : List ScopeId)
    (scope : ScopeId) : Prop :=
  (∀ k ∈ left, table.kindOf k ≠ .method ∧ ¬ Known k) ∧
    (Known scope ∨ (table.kindOf scope ≠ .block ∧ (∀ k ∈ left, table.kindOf k = .block) ∧
      ∀ outer k, table.Climbs start outer k → (∀ j ∈ outer, table.kindOf j ≠ .method) → ¬ Known k))

/-- Some reference reaches the local through a closure. -/
def Reaches (table : ScopeTable) (items : List Item) (id : ScopeId) (name : String) : Prop :=
  ∃ r start left, .reference r ∈ items ∧ r.name = name ∧
    table.definingScope? r.node = some id ∧ table.scopeFor? r.around = some start ∧
    table.Climbs start left id ∧ ∃ k ∈ left, table.kindOf k = .closure

structure Records (table : ScopeTable) (items : List Item) : Prop where
  /-- Scopes are numbered in the order in which they are opened. -/
  introduced : table.introduced =
    ((openings items).zipIdx.map fun entry => (entry.1.owner, entry.2)).reverse
  size : table.scopes.size = (openings items).length
  resolved : table.resolved.map Prod.fst = ((references items).map Reference.node).reverse
  owners : ((openings items).map Opening.owner).Nodup
  nodes : ((references items).map Reference.node).Nodup
  nested : table.Nested
  shape : ∀ {id : Nat} {o : Opening}, (openings items)[id]? = some o →
    table.kindOf id = o.kind ∧ table.parent? id = o.around.bind table.scopeFor? ∧
      ∀ around, o.around = some around → ∃ scope, table.scopeFor? around = some scope
  holds : ∀ {id name}, table.Defines id name ↔ table.Holds items id name
  captures : ∀ {id name}, table.isCaptured id name = true ↔ table.Reaches items id name
  resolves : ∀ {before r after}, items = before ++ .reference r :: after →
    table.Resolves before r

section

variable {table : ScopeTable} {items : List Item} {id : ScopeId} {name : String}

theorem holds_append_opening : table.Holds (items ++ [.opening o]) id name ↔
      table.Holds items id name ∨ (table.scopeFor? o.owner = some id ∧ name ∈ o.names) := by
  simp only [Holds, List.mem_append, List.mem_singleton, Item.opening.injEq, reduceCtorEq, or_false]
  constructor
  · rintro (⟨o', hmem | rfl, hid, hname⟩ | href)
    · exact .inl (.inl ⟨o', hmem, hid, hname⟩)
    · exact .inr ⟨hid, hname⟩
    · exact .inl (.inr href)
  · rintro ((⟨o', hmem, hid, hname⟩ | href) | ⟨hid, hname⟩)
    · exact .inl ⟨o', .inl hmem, hid, hname⟩
    · exact .inr href
    · exact .inl ⟨o, .inr rfl, hid, hname⟩

theorem holds_append_reference : table.Holds (items ++ [.reference r]) id name ↔
      table.Holds items id name ∨ (table.definingScope? r.node = some id ∧ r.name = name) := by
  simp only [Holds, List.mem_append, List.mem_singleton, Item.reference.injEq, reduceCtorEq,
    or_false]
  constructor
  · rintro (hopen | ⟨r', hmem | rfl, hid, hname⟩)
    · exact .inl (.inl hopen)
    · exact .inl (.inr ⟨r', hmem, hid, hname⟩)
    · exact .inr ⟨hid, hname⟩
  · rintro ((hopen | ⟨r', hmem, hid, hname⟩) | ⟨hid, hname⟩)
    · exact .inl hopen
    · exact .inr ⟨r', .inl hmem, hid, hname⟩
    · exact .inr ⟨r, .inr rfl, hid, hname⟩

theorem reaches_append_opening :
    table.Reaches (items ++ [.opening o]) id name ↔ table.Reaches items id name := by
  simp [Reaches]

theorem reaches_append_reference :
    table.Reaches (items ++ [.reference r]) id name ↔ table.Reaches items id name ∨
      (r.name = name ∧ table.definingScope? r.node = some id ∧
        ∃ start left, table.scopeFor? r.around = some start ∧ table.Climbs start left id ∧
          ∃ k ∈ left, table.kindOf k = .closure) := by
  simp only [Reaches, List.mem_append, List.mem_singleton, Item.reference.injEq]
  constructor
  · rintro ⟨r', start, left, hmem | rfl, hname, hid, hrest⟩
    · exact .inl ⟨r', start, left, hmem, hname, hid, hrest⟩
    · exact .inr ⟨hname, hid, start, left, hrest⟩
  · rintro (⟨r', start, left, hmem, hname, hid, hrest⟩ | ⟨hname, hid, start, left, hrest⟩)
    · exact ⟨r', start, left, .inl hmem, hname, hid, hrest⟩
    · exact ⟨r, start, left, .inr rfl, hname, hid, hrest⟩

end

/-! ## Finding scopes again -/

section

variable {table : ScopeTable} {items : List Item}

theorem lookup_eq_some_of_nodup {β : Type} {entries : List (Nat × β)} {key : Nat} {value : β}
    (hdistinct : (entries.map Prod.fst).Nodup) :
    entries.lookup key = some value ↔ (key, value) ∈ entries := by
  induction entries with
  | nil => simp
  | cons entry rest ih =>
    obtain ⟨known, other⟩ := entry
    rw [List.map_cons, List.nodup_cons] at hdistinct
    by_cases hkey : key = known
    · subst hkey
      simp only [List.lookup_cons_self, Option.some.injEq, List.mem_cons, Prod.mk.injEq, true_and]
      constructor
      · exact fun h => .inl h.symm
      · rintro (h | h)
        · exact h.symm
        · exact absurd (List.mem_map_of_mem (f := Prod.fst) h) hdistinct.1
    · rw [List.lookup_cons, beq_eq_false_iff_ne.2 hkey]
      simp [hkey, ih hdistinct.2]

namespace Records

theorem scopeFor?_eq_some (h : table.Records items) {id : ScopeId} :
    table.scopeFor? owner = some id ↔
      ∃ o, (openings items)[id]? = some o ∧ o.owner = owner := by
  have hfst : table.introduced.map Prod.fst = ((openings items).map Opening.owner).reverse := by
    rw [h.introduced, List.map_reverse, List.map_map]
    show ((openings items).zipIdx.map (Opening.owner ∘ Prod.fst)).reverse = _
    rw [← List.map_map, List.zipIdx_map_fst]
  have hdistinct : (table.introduced.map Prod.fst).Nodup := by
    rw [hfst]
    exact (List.reverse_perm _).nodup_iff.2 h.owners
  rw [scopeFor?, lookup_eq_some_of_nodup hdistinct, h.introduced, List.mem_reverse, List.mem_map]
  constructor
  · rintro ⟨⟨o, index⟩, hentry, heq⟩
    cases heq
    exact ⟨o, List.mem_zipIdx_iff_getElem?.1 hentry, rfl⟩
  · rintro ⟨o, ho, rfl⟩
    exact ⟨(o, id), List.mem_zipIdx_iff_getElem?.2 ho, rfl⟩

theorem scopeFor?_lt (h : table.Records items) {id : ScopeId}
    (hid : table.scopeFor? owner = some id) : id < table.scopes.size := by
  obtain ⟨o, ho, -⟩ := h.scopeFor?_eq_some.1 hid
  rw [h.size]
  exact (List.getElem?_eq_some_iff.1 ho).1

theorem exists_scopeFor? (h : table.Records items) (ho : .opening o ∈ items) :
    ∃ id, table.scopeFor? o.owner = some id := by
  obtain ⟨id, hid⟩ := List.mem_iff_getElem?.1 (mem_openings.2 ho)
  exact ⟨id, h.scopeFor?_eq_some.2 ⟨o, hid, rfl⟩⟩

theorem exists_definingScope? (h : table.Records items) (hr : .reference r ∈ items) :
    ∃ id, table.definingScope? r.node = some id := by
  obtain ⟨before, after, rfl⟩ := List.append_of_mem hr
  obtain ⟨start, left, scope, -, hscope, -⟩ := h.resolves rfl
  exact ⟨scope, hscope⟩

end Records

end

/-! ## Later tables -/

/-- The later table knows all that the earlier one knew about the shape of its
scopes and the scopes of nodes. -/
structure Extends (earlier later : ScopeTable) : Prop where
  scopeFor : ∀ {owner id}, earlier.scopeFor? owner = some id → later.scopeFor? owner = some id
  defining : ∀ {node id}, earlier.definingScope? node = some id →
    later.definingScope? node = some id
  kindOf : ∀ {id}, id < earlier.scopes.size → later.kindOf id = earlier.kindOf id
  parent : ∀ {id}, id < earlier.scopes.size → later.parent? id = earlier.parent? id
  defines : ∀ {id name}, earlier.Defines id name → later.Defines id name

namespace Extends

variable {earlier later : ScopeTable} {items : List Item}

theorem climbs_iff (hext : earlier.Extends later) (hnested : earlier.Nested) {target : ScopeId}
    (hstart : start < earlier.scopes.size) :
    later.Climbs start left target ↔ earlier.Climbs start left target := by
  constructor
  · intro h
    induction h with
    | here => exact .here _
    | up hparent _ ih =>
      rw [hext.parent hstart] at hparent
      exact .up hparent (ih (Nat.lt_trans (hnested.parent_lt hparent) hstart))
  · intro h
    induction h with
    | here => exact .here _
    | up hparent _ ih =>
      refine .up ((hext.parent hstart).trans hparent) ?_
      exact ih (Nat.lt_trans (hnested.parent_lt hparent) hstart)

theorem left_lt {target : ScopeId} (hnested : earlier.Nested) (h : earlier.Climbs start left target)
    (hstart : start < earlier.scopes.size) : ∀ k ∈ left, k < earlier.scopes.size := by
  induction h with
  | here => simp
  | up hparent _ ih =>
    exact List.forall_mem_cons.2
      ⟨hstart, ih (Nat.lt_trans (hnested.parent_lt hparent) hstart)⟩

theorem holds_iff (hext : earlier.Extends later) (h : earlier.Records items)
    {before after : List Item} (hitems : items = before ++ after) {id : ScopeId} {name : String} :
    later.Holds before id name ↔ earlier.Holds before id name := by
  have hopen : ∀ o, .opening o ∈ before →
      (later.scopeFor? o.owner = some id ↔ earlier.scopeFor? o.owner = some id) := by
    intro o ho
    obtain ⟨known, hknown⟩ := h.exists_scopeFor? (hitems ▸ List.mem_append_left after ho)
    rw [hknown, hext.scopeFor hknown]
  have hrefer : ∀ r, .reference r ∈ before →
      (later.definingScope? r.node = some id ↔ earlier.definingScope? r.node = some id) := by
    intro r hr
    obtain ⟨known, hknown⟩ := h.exists_definingScope? (hitems ▸ List.mem_append_left after hr)
    rw [hknown, hext.defining hknown]
  unfold Holds
  refine or_congr (exists_congr fun o => and_congr_right fun ho => ?_)
    (exists_congr fun r => and_congr_right fun hr => ?_)
  · rw [hopen o ho]
  · rw [hrefer r hr]

theorem picks (hext : earlier.Extends later) (hnested : earlier.Nested)
    (hlt : start < earlier.scopes.size) {scope : ScopeId}
    (hclimbs : earlier.Climbs start left scope) {Known Known' : ScopeId → Prop}
    (hknown : ∀ {k}, Known' k ↔ Known k) (h : earlier.Picks Known start left scope) :
    later.Picks Known' start left scope := by
  obtain ⟨hleft, hfound⟩ := h
  have hleft_lt := left_lt hnested hclimbs hlt
  refine ⟨fun k hk => ?_, ?_⟩
  · rw [hext.kindOf (hleft_lt k hk), hknown]
    exact hleft k hk
  · rw [hknown, hext.kindOf (Nat.lt_of_le_of_lt (hclimbs.target_le hnested) hlt)]
    refine hfound.imp_right fun ⟨hkind, hblocks, hnone⟩ =>
      ⟨hkind, fun k hk => ?_, fun outer k houter hkinds => ?_⟩
    · rw [hext.kindOf (hleft_lt k hk)]
      exact hblocks k hk
    · rw [hext.climbs_iff hnested hlt] at houter
      rw [hknown]
      exact hnone outer k houter fun j hj => by
        rw [← hext.kindOf (left_lt hnested houter hlt j hj)]
        exact hkinds j hj

theorem resolves (hext : earlier.Extends later) (h : earlier.Records items)
    {before after : List Item} (hitems : items = before ++ .reference r :: after) :
    later.Resolves before r := by
  obtain ⟨start, left, scope, hstart, hscope, hclimbs, hdefines, hpicks⟩ := h.resolves hitems
  have hlt := h.scopeFor?_lt hstart
  exact ⟨start, left, scope, hext.scopeFor hstart, hext.defining hscope,
    (hext.climbs_iff h.nested hlt).2 hclimbs, hext.defines hdefines,
    hext.picks h.nested hlt hclimbs (hext.holds_iff h hitems) hpicks⟩

theorem reaches_iff (hext : earlier.Extends later) (h : earlier.Records items) {id : ScopeId}
    {name : String} : later.Reaches items id name ↔ earlier.Reaches items id name := by
  have key : ∀ r, .reference r ∈ items → ∃ start scope, earlier.scopeFor? r.around = some start ∧
      later.scopeFor? r.around = some start ∧ earlier.definingScope? r.node = some scope ∧
      later.definingScope? r.node = some scope ∧ start < earlier.scopes.size := by
    intro r hr
    obtain ⟨before, after, rfl⟩ := List.append_of_mem hr
    obtain ⟨start, left, scope, hstart, hscope, -⟩ := h.resolves rfl
    exact ⟨start, scope, hstart, hext.scopeFor hstart, hscope, hext.defining hscope,
      h.scopeFor?_lt hstart⟩
  unfold Reaches
  refine exists_congr fun r => exists_congr fun start => exists_congr fun left =>
    and_congr_right fun hr => and_congr_right fun _ => ?_
  obtain ⟨start', scope', hearlier, hlater, hearlier', hlater', hlt⟩ := key r hr
  rw [hearlier, hlater, hearlier', hlater']
  refine and_congr_right fun _ => and_congr_right fun hstart => ?_
  cases hstart
  rw [hext.climbs_iff h.nested hlt]
  refine and_congr_right fun hclimbs => exists_congr fun k => and_congr_right fun hk => ?_
  rw [hext.kindOf (left_lt h.nested hclimbs hlt k hk)]

end Extends

/-! ## Recording one more item -/

section

variable {node : NodeId} {change : Scope → Scope} {captures : Prop}

variable {table : ScopeTable} {items : List Item}

theorem split_concat {α : Type} {xs before after : List α} {last x : α}
    (h : xs ++ [last] = before ++ x :: after) : (after = [] ∧ last = x ∧ xs = before) ∨
      ∃ rest, after = rest ++ [last] ∧ xs = before ++ x :: rest := by
  rcases List.eq_nil_or_concat after with rfl | ⟨rest, final, rfl⟩
  · obtain ⟨hfront, hlast⟩ := List.append_inj' h rfl
    exact .inl ⟨rfl, List.singleton_inj.1 hlast, hfront⟩
  · rw [List.concat_eq_append, ← List.cons_append, ← List.append_assoc] at h
    obtain ⟨hfront, hlast⟩ := List.append_inj' h rfl
    obtain rfl := List.singleton_inj.1 hlast
    exact .inr ⟨rest, List.concat_eq_append, hfront⟩

def opened (table : ScopeTable) (owner : NodeId) (scope : Scope) : ScopeTable :=
  { table with
    scopes := table.scopes.push scope
    introduced := (owner, table.scopes.size) :: table.introduced }

theorem scope?_opened (owner : NodeId) (scope : Scope) (id : ScopeId) :
    (table.opened owner scope).scope? id =
      if id = table.scopes.size then some scope else table.scope? id := by
  simp only [opened, scope?, Array.getElem?_push]

theorem scopeFor?_opened (owner other : NodeId) (scope : Scope) :
    (table.opened owner scope).scopeFor? other =
      if other = owner then some table.scopes.size else table.scopeFor? other := by
  simp only [opened, scopeFor?, List.lookup_cons]
  by_cases h : other = owner
  · simp [h]
  · rw [beq_eq_false_iff_ne.2 h, if_neg h]

variable {id : ScopeId} {name : String}

theorem scope?_eq_none_of_le (h : table.scopes.size ≤ id) :
    table.scope? id = none := Array.getElem?_eq_none h

theorem Records.extends_opened (h : table.Records items)
    (howner : owner ∉ (openings items).map Opening.owner) (scope : Scope) :
    table.Extends (table.opened owner scope) where
  scopeFor := by
    intro other id hid
    rw [scopeFor?_opened, if_neg, hid]
    rintro rfl
    obtain ⟨o, ho, rfl⟩ := h.scopeFor?_eq_some.1 hid
    exact howner (List.mem_map_of_mem (List.mem_of_getElem? ho))
  defining := id
  kindOf := by
    intro id hid
    rw [ScopeTable.kindOf, scope?_opened, if_neg (Nat.ne_of_lt hid)]
    rfl
  parent := by
    intro id hid
    rw [parent?, scope?_opened, if_neg (Nat.ne_of_lt hid)]
    rfl
  defines := by
    rintro id name ⟨known, hknown, hlocal⟩
    refine ⟨known, ?_, hlocal⟩
    rw [scope?_opened, if_neg, hknown]
    rintro rfl
    rw [scope?_eq_none_of_le (Nat.le_refl _)] at hknown
    cases hknown

theorem Records.opening (h : table.Records items) {scope : Scope}
    (howner : o.owner ∉ (openings items).map Opening.owner) (hkind : scope.kind = o.kind)
    (hparent : scope.parent = o.around.bind table.scopeFor?)
    (hlocals : ∀ name, scope.hasLocal name = true ↔ name ∈ o.names)
    (hcaptured : scope.captured = [])
    (haround : ∀ around, o.around = some around → ∃ id, table.scopeFor? around = some id)
    (hmethod : o.around = none → o.kind = .method) :
    (table.opened o.owner scope).Records (items ++ [.opening o]) := by
  have hext := h.extends_opened howner scope
  have hnew : (table.opened o.owner scope).scopeFor? o.owner = some table.scopes.size := by
    rw [scopeFor?_opened, if_pos rfl]
  have hparent_lt : ∀ {parent}, scope.parent = some parent → parent < table.scopes.size := by
    intro parent hscope
    rw [hparent] at hscope
    obtain ⟨around, -, hid⟩ := Option.bind_eq_some_iff.1 hscope
    exact h.scopeFor?_lt hid
  refine
    { introduced := ?_, size := ?_, resolved := ?_, owners := ?_, nodes := ?_, nested := ?_,
      shape := ?_, holds := ?_, captures := ?_, resolves := ?_ }
  · rw [opened, h.introduced, openings_append, openings_opening, List.zipIdx_append,
      List.map_append, List.reverse_append, h.size]
    simp
  · simp [opened, h.size]
  · simpa [opened] using h.resolved
  · rw [openings_append, openings_opening, List.map_append]
    simpa using List.Nodup.concat howner h.owners
  · simpa using h.nodes
  · refine ⟨?_, ?_⟩
    · intro id parent hid
      rw [parent?, scope?_opened] at hid
      split at hid
      · subst_vars
        exact hparent_lt hid
      · exact h.nested.parent_lt hid
    · intro id hid hkind'
      rw [opened, Array.size_push] at hid
      by_cases hlast : id = table.scopes.size
      · rw [ScopeTable.kindOf, scope?_opened, if_pos hlast] at hkind'
        rw [parent?, scope?_opened, if_pos hlast]
        cases hsome : o.around with
        | none => exact absurd (hkind.trans (hmethod hsome)) hkind'
        | some around =>
          obtain ⟨parent, hid⟩ := haround around hsome
          exact ⟨parent, by simp [hparent, hsome, hid]⟩
      · have hlt : id < table.scopes.size := Nat.lt_of_le_of_ne (Nat.le_of_lt_succ hid) hlast
        rw [hext.kindOf hlt] at hkind'
        obtain ⟨parent, hparent'⟩ := h.nested.exists_parent hlt hkind'
        exact ⟨parent, (hext.parent hlt).trans hparent'⟩
  · have hbind : ∀ {around : Option NodeId},
        (∀ a, around = some a → ∃ id, table.scopeFor? a = some id) →
        around.bind (table.opened o.owner scope).scopeFor? = around.bind table.scopeFor? ∧
          ∀ a, around = some a → ∃ id, (table.opened o.owner scope).scopeFor? a = some id := by
      intro around hknown
      cases around with
      | none => exact ⟨rfl, fun a ha => by cases ha⟩
      | some a =>
        obtain ⟨id, hid⟩ := hknown a rfl
        have hid' := hext.scopeFor hid
        refine ⟨by simp [hid, hid'], fun a' ha' => ?_⟩
        cases ha'
        exact ⟨id, hid'⟩
    intro id o' ho'
    rw [openings_append, openings_opening] at ho'
    by_cases hlt : id < (openings items).length
    · rw [List.getElem?_append_left hlt] at ho'
      obtain ⟨hkind', hparent', haround'⟩ := h.shape ho'
      have hlt' : id < table.scopes.size := h.size ▸ hlt
      obtain ⟨hbind', hknown⟩ := hbind haround'
      exact ⟨(hext.kindOf hlt').trans hkind', by rw [hext.parent hlt', hparent', hbind'], hknown⟩
    · have hlen : id < (openings items ++ [o]).length := (List.getElem?_eq_some_iff.1 ho').1
      have hid : id = table.scopes.size := by
        rw [h.size]
        simp only [List.length_append, List.length_singleton] at hlen
        exact Nat.le_antisymm (Nat.le_of_lt_succ hlen) (Nat.le_of_not_lt hlt)
      obtain rfl : o = o' := by
        rw [hid, h.size, List.getElem?_concat_length] at ho'
        exact Option.some.inj ho'
      obtain ⟨hbind', hknown⟩ := hbind haround
      have hscope : (table.opened o.owner scope).scope? id = some scope := by
        rw [scope?_opened, if_pos hid]
      exact ⟨(kindOf_eq hscope).trans hkind, by rw [parent?_eq hscope, hparent, hbind'], hknown⟩
  · intro id name
    rw [holds_append_opening, hnew, Option.some.injEq]
    have hholds : (table.opened o.owner scope).Holds items id name ↔ table.Holds items id name :=
      hext.holds_iff h (List.append_nil items).symm
    constructor
    · rintro ⟨known, hknown, hlocal⟩
      rw [scope?_opened] at hknown
      split at hknown
      · rename_i hid
        cases hknown
        exact .inr ⟨hid.symm, (hlocals name).1 hlocal⟩
      · exact .inl (hholds.2 (h.holds.1 ⟨known, hknown, hlocal⟩))
    · rintro (hitems | ⟨rfl, hname⟩)
      · exact hext.defines (h.holds.2 (hholds.1 hitems))
      · exact ⟨scope, by rw [scope?_opened, if_pos rfl], (hlocals name).2 hname⟩
  · intro id name
    rw [reaches_append_opening, hext.reaches_iff h, ← h.captures, isCaptured, isCaptured,
      scope?_opened]
    split
    · rename_i hid
      have hnone : table.scope? id = none := scope?_eq_none_of_le (Nat.le_of_eq hid.symm)
      simp [Scope.isCaptured, hcaptured, hnone]
    · rfl
  · intro before r after heq
    rcases split_concat heq with ⟨-, hlast, -⟩ | ⟨rest, -, hitems⟩
    · cases hlast
    · exact hext.resolves h hitems

def referred (table : ScopeTable) (node : NodeId) (id : ScopeId) (change : Scope → Scope) :
    ScopeTable :=
  { table.modify id change with resolved := (node, id) :: table.resolved }

theorem scope?_referred (node : NodeId) (id other : ScopeId) (change : Scope → Scope) :
    (table.referred node id change).scope? other =
      if other = id then (table.scope? other).map change else table.scope? other := by
  simp only [referred, modify, scope?, Array.getElem?_modify]
  by_cases h : other = id
  · simp [h]
  · simp [h, Ne.symm h]

theorem definingScope?_referred (node other : NodeId) (id : ScopeId) (change : Scope → Scope) :
    (table.referred node id change).definingScope? other =
      if other = node then some id else table.definingScope? other := by
  simp only [referred, definingScope?, modify, List.lookup_cons]
  by_cases h : other = node
  · simp [h]
  · rw [beq_eq_false_iff_ne.2 h, if_neg h]

/-- The change of a scope that a reference brings about: the name is defined,
and captured if the reference reaches the scope through a closure. -/
structure Changes (name : String) (captures : Prop) (scope changed : Scope) : Prop where
  kind : changed.kind = scope.kind
  parent : changed.parent = scope.parent
  locals : ∀ other, changed.hasLocal other = true ↔ scope.hasLocal other = true ∨ name = other
  captured : ∀ other, changed.isCaptured other = true ↔
    scope.isCaptured other = true ∨ (name = other ∧ captures)

section Referred

variable {scope : Scope} (hscope : table.scope? id = some scope)
  (hchange : Changes name captures scope (change scope))

include hscope hchange

theorem kindOf_referred (other : ScopeId) :
    (table.referred node id change).kindOf other = table.kindOf other := by
  rw [kindOf, kindOf, scope?_referred]
  split
  · rename_i heq
    simp [heq, hscope, hchange.kind]
  · rfl

theorem parent?_referred (other : ScopeId) :
    (table.referred node id change).parent? other = table.parent? other := by
  rw [parent?, parent?, scope?_referred]
  split
  · rename_i heq
    simp [heq, hscope, hchange.parent]
  · rfl

theorem defines_referred {other : ScopeId} {n : String} :
    (table.referred node id change).Defines other n ↔
      table.Defines other n ∨ (id = other ∧ name = n) := by
  unfold Defines
  rw [scope?_referred]
  split
  · rename_i heq
    simp [heq, hscope, hchange.locals]
  · rename_i hne
    simp [Ne.symm hne]

theorem isCaptured_referred {other : ScopeId} {n : String} :
    (table.referred node id change).isCaptured other n = true ↔
      table.isCaptured other n = true ∨ (name = n ∧ id = other ∧ captures) := by
  unfold isCaptured
  rw [scope?_referred]
  split
  · rename_i heq
    simp [heq, hscope, hchange.captured]
  · rename_i hne
    simp [Ne.symm hne]

end Referred

theorem Records.extends_referred (h : table.Records items)
    (hnode : r.node ∉ (references items).map Reference.node) {scope : Scope}
    (hscope : table.scope? id = some scope)
    (hchange : Changes r.name captures scope (change scope)) :
    table.Extends (table.referred r.node id change) where
  scopeFor := by
    intro owner id hid
    exact hid
  defining := by
    intro node scope hscope
    rw [definingScope?_referred, if_neg, hscope]
    rintro rfl
    obtain ⟨before, after, heq, -⟩ := List.lookup_eq_some_iff.1 hscope
    have hmem : r.node ∈ table.resolved.map Prod.fst := by
      rw [heq]
      simp
    rw [h.resolved, List.mem_reverse] at hmem
    exact hnode hmem
  kindOf := fun _ => kindOf_referred hscope hchange _
  parent := fun _ => parent?_referred hscope hchange _
  defines := fun hdefines => (defines_referred hscope hchange).2 (.inl hdefines)

/-- Resolving a reference to the nearest scope with the name, or else to the
nearest scope that is no block, records the reference. -/
theorem Records.reference (h : table.Records items)
    (hnode : r.node ∉ (references items).map Reference.node)
    (hstart : table.scopeFor? r.around = some start) (hclimbs : table.Climbs start left id)
    (hpicks : table.Picks (table.Defines · r.name) start left id)
    (hchange : ∀ scope, table.scope? id = some scope →
      Changes r.name (∃ k ∈ left, table.kindOf k = .closure) scope (change scope)) :
    (table.referred r.node id change).Records (items ++ [.reference r]) := by
  have hlt := h.scopeFor?_lt hstart
  obtain ⟨scope, hscope⟩ : ∃ scope, table.scope? id = some scope :=
    ⟨_, Array.getElem?_eq_getElem (Nat.lt_of_le_of_lt (hclimbs.target_le h.nested) hlt)⟩
  replace hchange := hchange scope hscope
  have hext := h.extends_referred hnode hscope hchange
  have hnew : (table.referred r.node id change).definingScope? r.node = some id := by
    rw [definingScope?_referred, if_pos rfl]
  have hsame : ∀ {other n}, (table.referred r.node id change).Holds items other n ↔
      table.Defines other n := by
    intro other n
    rw [hext.holds_iff h (List.append_nil items).symm, h.holds]
  have hclimbs_iff : ∀ {outer k}, (table.referred r.node id change).Climbs start outer k ↔
      table.Climbs start outer k := hext.climbs_iff h.nested hlt
  refine
    { introduced := ?_, size := ?_, resolved := ?_, owners := ?_, nodes := ?_, nested := ?_,
      shape := ?_, holds := ?_, captures := ?_, resolves := ?_ }
  · simpa [referred, modify] using h.introduced
  · simpa [referred, modify] using h.size
  · simpa [referred, modify] using h.resolved
  · simpa using h.owners
  · rw [references_append, references_reference, List.map_append]
    simpa using List.Nodup.concat hnode h.nodes
  · refine ⟨?_, ?_⟩
    · intro other parent hparent
      rw [parent?_referred hscope hchange] at hparent
      exact h.nested.parent_lt hparent
    · intro other hother hkind
      rw [kindOf_referred hscope hchange] at hkind
      rw [parent?_referred hscope hchange]
      exact h.nested.exists_parent (by simpa [referred, modify] using hother) hkind
  · intro other o ho
    rw [openings_append, openings_reference, List.append_nil] at ho
    rw [kindOf_referred hscope hchange, parent?_referred hscope hchange]
    exact h.shape ho
  · intro other n
    rw [holds_append_reference, hsame, hnew, defines_referred hscope hchange, Option.some.injEq]
  · intro other n
    rw [reaches_append_reference, hext.reaches_iff h, ← h.captures, hnew, Option.some.injEq,
      isCaptured_referred hscope hchange]
    refine or_congr_right (and_congr_right fun _ => and_congr_right fun heq => ?_)
    subst heq
    constructor
    · rintro ⟨k, hk, hkind⟩
      exact ⟨start, left, hext.scopeFor hstart, hclimbs_iff.2 hclimbs, k, hk,
        (kindOf_referred hscope hchange k).trans hkind⟩
    · rintro ⟨start', left', hstart', hclimbs', k, hk, hkind⟩
      cases (hext.scopeFor hstart).symm.trans hstart'
      obtain rfl := hclimbs.unique h.nested (hclimbs_iff.1 hclimbs')
      exact ⟨k, hk, (kindOf_referred hscope hchange k).symm.trans hkind⟩
  · intro before r' after heq
    rcases split_concat heq with ⟨-, hlast, rfl⟩ | ⟨rest, -, hitems⟩
    · cases hlast
      exact ⟨start, left, id, hext.scopeFor hstart, hnew, hclimbs_iff.2 hclimbs,
        (defines_referred hscope hchange).2 (.inr ⟨rfl, rfl⟩),
        hext.picks h.nested hlt hclimbs hsame hpicks⟩
    · exact hext.resolves h hitems

end

end ScopeTable

end ClassBackend
