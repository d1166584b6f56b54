import ClassBackend.Proofs.Scope.Outline

/-!
# Climbing scopes

How a scope table finds names. `Climbs` says which scopes are left on the way
from a scope to one around it; the searches along a chain are stated through
it. A parent is always older than its child, so chains end and are never cut
short.
-/

namespace ClassBackend.ScopeTable

variable {id : ScopeId} {n : Nat}

variable {table : ScopeTable} {name : String}

def parent? (table : ScopeTable) (id : ScopeId) : Option ScopeId :=
  (table.scope? id).bind (·.parent)

def Defines (table : ScopeTable) (id : ScopeId) (name : String) : Prop :=
  ∃ scope, table.scope? id = some scope ∧ scope.hasLocal name = true

/-- One gets from a scope to one around it by leaving the listed scopes,
innermost first. -/
inductive Climbs (table : ScopeTable) : ScopeId → List ScopeId → ScopeId → Prop
  | here (id : ScopeId) : Climbs table id [] id
  | up {id parent target : ScopeId} {left : List ScopeId} : table.parent? id = some parent →
    Climbs table parent left target → Climbs table id (id :: left) target

/-- Parents are older than their children, and every scope that is no method has
one. -/
structure Nested (table : ScopeTable) : Prop where
  parent_lt : ∀ {id parent}, table.parent? id = some parent → parent < id
  exists_parent : ∀ {id}, id < table.scopes.size → table.kindOf id ≠ .method →
    ∃ parent, table.parent? id = some parent

namespace Climbs

variable {start target : ScopeId} {left : List ScopeId}

theorem target_le (htable : table.Nested) (h : table.Climbs start left target) :
    target ≤ start := by
  induction h with
  | here => exact Nat.le_refl _
  | up hparent _ ih => exact Nat.le_trans ih (Nat.le_of_lt (htable.parent_lt hparent))

theorem unique (htable : table.Nested) {other : List ScopeId} (h : table.Climbs start left target)
    (h' : table.Climbs start other target) : left = other := by
  induction h generalizing other with
  | here =>
    cases h' with
    | here => rfl
    | up hparent hrest =>
      have hle := hrest.target_le htable
      exact absurd hle (Nat.not_le_of_gt (htable.parent_lt hparent))
  | up hparent hrest ih =>
    cases h' with
    | here =>
      have hle := hrest.target_le htable
      exact absurd hle (Nat.not_le_of_gt (htable.parent_lt hparent))
    | up hparent' hrest' =>
      cases hparent.symm.trans hparent'
      rw [ih hrest']

theorem exists_of_mem (h : table.Climbs start left target) {k : ScopeId} (hk : k ∈ left) :
    ∃ outer, table.Climbs start outer k ∧ ∀ j ∈ outer, j ∈ left := by
  induction h with
  | here => cases hk
  | up hparent _ ih =>
    rcases List.mem_cons.1 hk with rfl | hk
    · exact ⟨[], .here _, nofun⟩
    · obtain ⟨outer, hclimbs, hsub⟩ := ih hk
      refine ⟨_, .up hparent hclimbs, List.forall_mem_cons.2 ⟨List.mem_cons_self, ?_⟩⟩
      exact fun j hj => List.mem_cons_of_mem _ (hsub j hj)

theorem trans {middle : ScopeId} {more : List ScopeId} (h : table.Climbs start left middle)
    (h' : table.Climbs middle more target) : table.Climbs start (left ++ more) target := by
  induction h with
  | here => exact h'
  | up hparent _ ih => exact .up hparent (ih h')

end Climbs

/-! ## Searching a chain -/

variable {start target : ScopeId} {left : List ScopeId}

theorem kindOf_eq {scope : Scope} (h : table.scope? id = some scope) :
    table.kindOf id = scope.kind := by
  simp [kindOf, h]

theorem parent?_eq {scope : Scope} (h : table.scope? id = some scope) :
    table.parent? id = scope.parent := by
  simp [parent?, h]

theorem chainWithin_succ (n : Nat) (id : ScopeId) :
    table.chainWithin (n + 1) id = id ::
      ((table.parent? id).map (table.chainWithin n)).getD [] := by
  rw [chainWithin, ← parent?]
  cases table.parent? id <;> rfl

/-- Going up from a scope, the first one that defines the name, with no method in between. -/
structure Nearest (table : ScopeTable) (name : String) (start : ScopeId) (left : List ScopeId)
    (target : ScopeId) : Prop where
  climbs : table.Climbs start left target
  defines : table.Defines target name
  passes : ∀ k ∈ left, table.kindOf k ≠ .method ∧ ¬ table.Defines k name

theorem Nearest.up {parent : ScopeId} (h : table.Nearest name parent left target)
    (hparent : table.parent? start = some parent)
    (hkind : table.kindOf start ≠ .method) (hdefines : ¬ table.Defines start name) :
    table.Nearest name start (start :: left) target :=
  ⟨.up hparent h.climbs, h.defines, List.forall_mem_cons.2 ⟨⟨hkind, hdefines⟩, h.passes⟩⟩

theorem nearest_of_search (htable : table.Nested) {before after : Bool} (hn : start < n)
    (h : table.search name before (table.chainWithin n start) = some (target, after)) :
    ∃ left, table.Nearest name start left target ∧
      (after = true ↔ before = true ∨ ∃ k ∈ left, table.kindOf k = .closure) := by
  induction n generalizing start before with
  | zero => exact absurd hn (Nat.not_lt_zero _)
  | succ n ih =>
    rw [chainWithin_succ, search] at h
    split at h
    · cases h
    · rename_i scope hscope
      by_cases hlocal : scope.hasLocal name = true
      · rw [if_pos hlocal] at h
        cases h
        exact ⟨[], ⟨.here _, ⟨scope, hscope, hlocal⟩, by simp⟩, by simp⟩
      · rw [if_neg hlocal] at h
        have hdefines : ¬ table.Defines start name := by
          rintro ⟨scope', hscope', hlocal'⟩
          cases hscope.symm.trans hscope'
          exact hlocal hlocal'
        cases hparent : table.parent? start with
        | none =>
          rw [hparent] at h
          split at h <;> cases h
        | some parent =>
          rw [hparent] at h
          have hparent_lt :=
            Nat.lt_of_lt_of_le (htable.parent_lt hparent) (Nat.le_of_lt_succ hn)
          -- the scope is left, unless it is a method
          cases hkind : scope.kind with
          | method =>
            rw [hkind] at h
            cases h
          | closure | block =>
            rw [hkind] at h
            obtain ⟨left, hnearest, hafter⟩ := ih hparent_lt h
            rw [← kindOf_eq hscope] at hkind
            refine ⟨start :: left, hnearest.up hparent (by rw [hkind]; decide) hdefines, ?_⟩
            simp [hafter, hkind]

/-- If nothing is found, no scope up to the first method has the name. -/
theorem of_search_eq_none (htable : table.Nested) {before : Bool} (hn : start < n)
    (h : table.search name before (table.chainWithin n start) = none)
    (hclimbs : table.Climbs start left target) (hleft : ∀ k ∈ left, table.kindOf k ≠ .method) :
    ¬ table.Defines target name := by
  induction n generalizing start before left with
  | zero => exact absurd hn (Nat.not_lt_zero _)
  | succ n ih =>
    rw [chainWithin_succ, search] at h
    cases hscope : table.scope? start with
    | none =>
      cases hclimbs with
      | here =>
        rintro ⟨scope, hscope', -⟩
        rw [hscope] at hscope'
        cases hscope'
      | up hparent _ => simp [parent?, hscope] at hparent
    | some scope =>
      rw [hscope] at h
      by_cases hlocal : scope.hasLocal name = true
      · simp [hlocal] at h
      · simp only [hlocal, Bool.false_eq_true, if_false] at h
        cases hclimbs with
        | here =>
          rintro ⟨scope', hscope', hlocal'⟩
          cases hscope.symm.trans hscope'
          exact hlocal hlocal'
        | up hparent hrest =>
          obtain ⟨hkind, hleft⟩ := List.forall_mem_cons.1 hleft
          rw [kindOf_eq hscope] at hkind
          have hparent_lt := Nat.lt_of_lt_of_le (htable.parent_lt hparent) (Nat.le_of_lt_succ hn)
          rw [hparent] at h
          split at h
          · exact absurd ‹_› hkind
          · exact ih hparent_lt h hrest hleft
          · exact ih hparent_lt h hrest hleft

theorem chainWithin_ne_nil (hn : start < n) : table.chainWithin n start ≠ [] := by
  cases n with
  | zero => exact absurd hn (Nat.not_lt_zero _)
  | succ n => simp [chainWithin_succ]

theorem firstOf_cons_of_wanted {wanted : ScopeKind → Bool} (outer : List ScopeId)
    (h : wanted (table.kindOf id) = true) : table.firstOf wanted (id :: outer) = some id := by
  cases outer <;> simp [firstOf, h]

theorem firstOf_cons_of_not {wanted : ScopeKind → Bool} (outer : List ScopeId)
    (h : wanted (table.kindOf id) = false) (houter : outer ≠ []) :
    table.firstOf wanted (id :: outer) = table.firstOf wanted outer := by
  cases outer with
  | nil => exact absurd rfl houter
  | cons next rest => simp [firstOf, h]

section

variable {wanted : ScopeKind → Bool} (hmethod : wanted .method = true)
include hmethod

theorem exists_firstOf (htable : table.Nested) (hn : start < n)
    (hstart : start < table.scopes.size) :
    ∃ left target, table.firstOf wanted (table.chainWithin n start) = some target ∧
      table.Climbs start left target ∧ wanted (table.kindOf target) = true ∧
      ∀ k ∈ left, wanted (table.kindOf k) = false := by
  induction n generalizing start with
  | zero => exact absurd hn (Nat.not_lt_zero _)
  | succ n ih =>
    rw [chainWithin_succ]
    cases hkind : wanted (table.kindOf start) with
    | false =>
      obtain ⟨parent, hparent⟩ := htable.exists_parent hstart
        (fun heq => by rw [heq, hmethod] at hkind; cases hkind)
      have hlt := htable.parent_lt hparent
      have hparent_lt := Nat.lt_of_lt_of_le hlt (Nat.le_of_lt_succ hn)
      obtain ⟨left, target, hfirst, hclimbs, htarget, hleft⟩ :=
        ih hparent_lt (Nat.lt_trans hlt hstart)
      refine ⟨start :: left, target, ?_, .up hparent hclimbs, htarget,
        List.forall_mem_cons.2 ⟨hkind, hleft⟩⟩
      rw [hparent, Option.map_some, Option.getD_some, firstOf_cons_of_not _ hkind]
      · exact hfirst
      · exact chainWithin_ne_nil hparent_lt
    | true => exact ⟨[], start, firstOf_cons_of_wanted _ hkind, .here _, hkind, nofun⟩

theorem climbs_firstOf (htable : table.Nested) (hstart : start < table.scopes.size) :
    ∃ left target, (table.firstOf wanted (table.chain start)).getD start = target ∧
      table.Climbs start left target ∧ wanted (table.kindOf target) = true ∧
      ∀ k ∈ left, wanted (table.kindOf k) = false := by
  obtain ⟨left, target, hfirst, hrest⟩ :=
    exists_firstOf hmethod htable (Nat.lt_succ_of_lt hstart) hstart
  exact ⟨left, target, by rw [chain, hfirst, Option.getD_some], hrest⟩

omit hmethod in
/-- Two climbs that stop at the first scope of a wanted kind end at one scope. -/
theorem Climbs.target_unique {other : ScopeId} {left' : List ScopeId}
    (h : table.Climbs start left target) (h' : table.Climbs start left' other)
    (hleft : ∀ k ∈ left, wanted (table.kindOf k) = false)
    (hleft' : ∀ k ∈ left', wanted (table.kindOf k) = false)
    (htarget : wanted (table.kindOf target) = true) (hother : wanted (table.kindOf other) = true) :
    target = other := by
  induction h generalizing left' with
  | here id =>
    cases h' with
    | here => rfl
    | up => simp [htarget] at hleft'
  | @up id _ _ _ hparent _ ih =>
    cases h' with
    | here => simp [hother] at hleft
    | up hparent' h' =>
      cases hparent.symm.trans hparent'
      exact ih h' (List.forall_mem_cons.1 hleft).2 (List.forall_mem_cons.1 hleft').2 htarget

/-- Leaving scopes of other kinds does not change where climbing stops. -/
theorem firstOf_eq_of_climbs (htable : table.Nested) (hstart : start < table.scopes.size)
    (h : table.Climbs start left target) (hleft : ∀ k ∈ left, wanted (table.kindOf k) = false) :
    (table.firstOf wanted (table.chain start)).getD start =
      (table.firstOf wanted (table.chain target)).getD target := by
  have htarget := Nat.lt_of_le_of_lt (h.target_le htable) hstart
  obtain ⟨left₁, target₁, heq₁, hclimbs₁, hkind₁, hleft₁⟩ := climbs_firstOf hmethod htable hstart
  obtain ⟨left₂, target₂, heq₂, hclimbs₂, hkind₂, hleft₂⟩ := climbs_firstOf hmethod htable htarget
  rw [heq₁, heq₂]
  refine hclimbs₁.target_unique (h.trans hclimbs₂) hleft₁ (fun k hk => ?_) hkind₁ hkind₂
  exact (List.mem_append.1 hk).elim (hleft k) (hleft₂ k)

end

theorem climbs_definitionScope (htable : table.Nested) (hstart : start < table.scopes.size) :
    ∃ left, table.Climbs start left (table.definitionScope start) ∧
      table.kindOf (table.definitionScope start) ≠ .block ∧
      ∀ k ∈ left, table.kindOf k = .block := by
  obtain ⟨left, target, heq, hclimbs, hkind, hleft⟩ :=
    @climbs_firstOf table start (· != .block) rfl htable hstart
  rw [definitionScope, heq]
  exact ⟨left, hclimbs, by simpa using hkind, by simpa using hleft⟩

theorem definitionScope_eq_of_climbs (htable : table.Nested) (hstart : start < table.scopes.size)
    (h : table.Climbs start left target) (hleft : ∀ k ∈ left, table.kindOf k = .block) :
    table.definitionScope start = table.definitionScope target :=
  firstOf_eq_of_climbs rfl htable hstart h fun k hk => by simp [hleft k hk]

theorem rootOf_eq_of_climbs (htable : table.Nested) (hstart : start < table.scopes.size)
    (h : table.Climbs start left target) (hleft : ∀ k ∈ left, table.kindOf k ≠ .method) :
    table.rootOf start = table.rootOf target :=
  firstOf_eq_of_climbs rfl htable hstart h fun k hk => by simpa using hleft k hk

theorem rootOf_definitionScope (htable : table.Nested) (hid : id < table.scopes.size) :
    table.rootOf (table.definitionScope id) = table.rootOf id := by
  obtain ⟨left, hclimbs, -, hleft⟩ := climbs_definitionScope htable hid
  exact (rootOf_eq_of_climbs htable hid hclimbs fun k hk => by simp [hleft k hk]).symm

theorem definitionScope_eq_self (hkind : table.kindOf id ≠ .block) :
    table.definitionScope id = id := by
  rw [definitionScope, chain, chainWithin_succ, firstOf_cons_of_wanted _ (by simpa using hkind),
    Option.getD_some]

end ClassBackend.ScopeTable
