import ClassBackend.Proofs.Emission.Scopes

/-!
# Walking out of jump scopes

A jump finds the innermost open scope of its kind, and the ensure blocks inside of it.
While scopes are detached only those around them are seen, and whatever is opened and
closed in the meantime, restoring them gives the scopes there were
(`JumpScopes.findEnsures?_detach`).
-/

namespace ClassBackend.JumpScopes

variable {scopes : JumpScopes} {target : JumpTarget} {depth : Nat}

/-! ## What is found -/

theorem findEnsures?_eq_none_iff :
    scopes.findEnsures? target = none ↔ ∀ scope ∈ scopes, target.accepts scope = false := by
  induction scopes with
  | nil => simp [findEnsures?]
  | cons scope outer ih =>
    by_cases haccepts : target.accepts scope
    · simp [findEnsures?, haccepts]
    · cases scope <;> simp [findEnsures?, haccepts, ih]

theorem findEnsures?_innermost {pending : PendingEnsures}
    (h : scopes.findEnsures? target = some pending) {scope : JumpScope}
    (hinside : pending.targetDepth < depth) (hscope : scopes.atDepth? depth = some scope) :
    target.accepts scope = false := by
  induction scopes generalizing pending with
  | nil => cases h
  | cons first outer ih =>
    have hdepth : depth ≤ outer.length := by
      simpa [atDepth?, Nat.lt_succ_iff] using (List.getElem?_eq_some_iff.1 hscope).1
    have hinner : ∀ {found}, findEnsures? target outer = some found → found.targetDepth < depth →
        target.accepts first = false → target.accepts scope = false := by
      intro found hfound hinside hfirst
      rcases hdepth.lt_or_eq with hlt | rfl
      · exact ih hfound hinside (by rwa [atDepth?_cons_of_lt _ hlt] at hscope)
      · rw [atDepth?_length] at hscope
        cases hscope
        exact hfirst
    simp only [findEnsures?] at h
    split at h
    · cases h
      exact absurd hdepth (Nat.not_le_of_lt hinside)
    · rename_i haccepts
      cases first with
      | ensure clause gaps =>
        obtain ⟨found, hfound, rfl⟩ := Option.map_eq_some_iff.1 h
        exact hinner hfound hinside (by simpa using haccepts)
      | _ => exact hinner h hinside (by simpa using haccepts)

/-! ## Scopes that are opened and closed -/

inductive Action where
  | push (scope : JumpScope)
  | pop

def perform (scopes : JumpScopes) : List Action → JumpScopes
  | [] => scopes
  | .push scope :: rest => perform (scope :: scopes) rest
  | .pop :: rest => perform scopes.tail rest

/-- Every scope that is opened is closed again, and no other is. -/
inductive Balanced : List Action → Prop
  | nil : Balanced []
  | push (scope : JumpScope) {inside after : List Action} : Balanced inside → Balanced after →
    Balanced (.push scope :: (inside ++ .pop :: after))

theorem perform_append (scopes : JumpScopes) (first second : List Action) :
    scopes.perform (first ++ second) = (scopes.perform first).perform second := by
  induction first generalizing scopes with
  | nil => rfl
  | cons action rest ih => cases action <;> exact ih _

theorem Balanced.perform {actions : List Action} (h : Balanced actions) (scopes : JumpScopes) :
    scopes.perform actions = scopes := by
  induction h generalizing scopes with
  | nil => rfl
  | push scope _ _ hinside hafter =>
    rw [JumpScopes.perform, perform_append, hinside]
    exact hafter scopes

/-- What is left when scopes are detached is known by the same depths. -/
theorem atDepth?_detach (scopes : JumpScopes) (depth d : Nat) :
    (scopes.detach depth).2.atDepth? d = if d < depth then scopes.atDepth? d else none := by
  simp only [detach, List.splitAt_eq, atDepth?, List.reverse_drop, List.getElem?_take]
  by_cases hd : d < scopes.length
  · have hiff : d < scopes.length - (scopes.length - depth) ↔ d < depth := by omega
    simp [hiff]
  · have hnone : scopes.reverse[d]? = none := by simpa using hd
    simp [hnone]

/-- A jump finds the innermost scope of its kind and exactly the ensure blocks inside it,
and scopes may be detached and restored around any others. -/
theorem findEnsures?_detach (scopes : JumpScopes) (target : JumpTarget) :
    (scopes.findEnsures? target = none ↔ ∀ scope ∈ scopes, target.accepts scope = false) ∧
    (∀ pending, scopes.findEnsures? target = some pending →
      (∃ scope, scopes.atDepth? pending.targetDepth = some scope ∧ target.accepts scope) ∧
      (∀ d scope, pending.targetDepth < d → scopes.atDepth? d = some scope →
        target.accepts scope = false) ∧
      (∀ d clause, (d, clause) ∈ pending.ensures ↔
        pending.targetDepth < d ∧ scopes.clauseAt? d = some clause) ∧
      pending.ensures.Pairwise fun inner outer => outer.1 < inner.1) ∧
    ∀ depth, (∀ d, (scopes.detach depth).2.atDepth? d =
        if d < depth then scopes.atDepth? d else none) ∧
      ∀ actions, Balanced actions →
        ((scopes.detach depth).2.perform actions).restore (scopes.detach depth).1 = scopes := by
  refine ⟨findEnsures?_eq_none_iff, fun pending h => ?_, fun depth => ⟨?_, fun actions h => ?_⟩⟩
  · obtain ⟨-, hmem, hsorted⟩ := findEnsures?_spec h
    exact ⟨findEnsures?_target h, fun d scope => findEnsures?_innermost h, hmem, hsorted⟩
  · exact atDepth?_detach scopes depth
  · rw [h.perform]
    exact detach_fst_append_snd scopes depth

end ClassBackend.JumpScopes
