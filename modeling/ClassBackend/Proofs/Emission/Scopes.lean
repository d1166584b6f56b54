import ClassBackend.Emit.Control
import Mathlib.Data.List.Infix

/-!
# Jump scopes by depth

A scope is known by its depth, the number of scopes around it. Recording gaps
changes neither the depth of a scope nor what it is, so what a jump finds does
not depend on the gaps recorded so far.
-/

namespace ClassBackend

def Instruction.isReturn : Instruction → Bool
  | .ret _ => true
  | _ => false

namespace JumpScopes

variable {clause : Node} {l : Label}

/-! ## The scope at a depth -/

def clauseAt? (depth : Nat) : JumpScopes → Option Node
  | [] => none
  | .ensure clause _ :: outer =>
    if outer.length == depth then some clause else clauseAt? depth outer
  | _ :: outer => clauseAt? depth outer

def OpensAt (scopes : JumpScopes) (depth : Nat) (l : Label) : Prop :=
  ∃ labels, ∃ jump : LoopJump, scopes.loopLabels? depth = some labels ∧ l = jump.label labels

variable {scopes inner outer : JumpScopes} {scope : JumpScope} {depth : Nat}

theorem lt_of_clauseAt? (h : scopes.clauseAt? depth = some clause) : depth < scopes.length := by
  induction scopes with
  | nil => cases h
  | cons scope outer ih =>
    rw [List.length_cons]
    cases scope with
    | ensure c gaps =>
      simp only [clauseAt?] at h
      split at h
      · rename_i hd
        have := beq_iff_eq.1 hd
        omega
      · exact (ih h).trans (Nat.lt_succ_self _)
    | method | loop => exact (ih h).trans (Nat.lt_succ_self _)

theorem clauseAt?_ensure_self (clause : Node) (gaps : List (Label × Label)) (outer : JumpScopes) :
    clauseAt? outer.length (.ensure clause gaps :: outer) = some clause := by
  simp [clauseAt?]

theorem clauseAt?_cons_of_lt (scope : JumpScope) (h : depth < outer.length) :
    clauseAt? depth (scope :: outer) = clauseAt? depth outer := by
  cases scope with
  | ensure c gaps => simp [clauseAt?, h.ne']
  | method | loop => rfl

theorem clauseAt?_append_of_lt (h : depth < outer.length) :
    clauseAt? depth (inner ++ outer) = clauseAt? depth outer := by
  induction inner with
  | nil => rfl
  | cons scope inner ih =>
    rw [List.cons_append, clauseAt?_cons_of_lt, ih]
    rw [List.length_append]
    omega

theorem loopLabels?_cons (scope : JumpScope) (outer : JumpScopes) (depth : Nat) :
    loopLabels? (scope :: outer) depth =
      if depth = outer.length then
        match scope with
        | .loop labels => some labels
        | _ => none
      else outer.loopLabels? depth := by
  simp only [loopLabels?, atDepth?, List.reverse_cons, List.getElem?_append,
    List.length_reverse]
  by_cases hlt : depth < outer.length
  · simp [hlt, hlt.ne]
  · by_cases heq : depth = outer.length
    · subst heq
      simp only [lt_irrefl, if_false, Nat.sub_self, List.getElem?_cons_zero, if_true]
      cases scope <;> rfl
    · have h1 : [scope][depth - outer.length]? = none :=
        List.getElem?_eq_none (by simp; omega)
      simp [hlt, heq, h1]

theorem lt_of_opensAt (h : scopes.OpensAt depth l) : depth < scopes.length := by
  obtain ⟨labels, jump, hlabels, -⟩ := h
  by_contra hle
  have hnone : scopes.reverse[depth]? = none :=
    List.getElem?_eq_none (by simpa using Nat.le_of_not_lt hle)
  simp [loopLabels?, atDepth?, hnone] at hlabels

theorem opensAt_cons_of_lt (scope : JumpScope) (h : depth < outer.length) :
    OpensAt (scope :: outer) depth l ↔ outer.OpensAt depth l := by
  simp only [OpensAt, loopLabels?_cons, if_neg h.ne]

theorem opensAt_append_of_lt (h : depth < outer.length) :
    (inner ++ outer).OpensAt depth l ↔ outer.OpensAt depth l := by
  induction inner with
  | nil => rfl
  | cons scope inner ih =>
    rw [List.cons_append, opensAt_cons_of_lt, ih]
    rw [List.length_append]
    omega

theorem opensAt_of_loop {labels : LoopLabels} (h : OpensAt (.loop labels :: outer) depth l) :
    outer.OpensAt depth l ∨ ∃ jump : LoopJump, l = jump.label labels := by
  obtain ⟨found, jump, hfound, rfl⟩ := h
  rw [loopLabels?_cons] at hfound
  split at hfound
  · cases hfound
    exact .inr ⟨jump, rfl⟩
  · exact .inl ⟨found, jump, hfound, rfl⟩

theorem opensAt_of_ensure {known : List (Label × Label)}
    (h : OpensAt (.ensure clause known :: outer) depth l) : outer.OpensAt depth l := by
  obtain ⟨found, jump, hfound, rfl⟩ := h
  rw [loopLabels?_cons] at hfound
  split at hfound
  · cases hfound
  · exact ⟨found, jump, hfound, rfl⟩

theorem atDepth?_cons_of_lt (scope : JumpScope) (h : depth < outer.length) :
    atDepth? (scope :: outer) depth = outer.atDepth? depth := by
  simp [atDepth?, List.getElem?_append, h]

theorem atDepth?_length (scope : JumpScope) (outer : JumpScopes) :
    atDepth? (scope :: outer) outer.length = some scope := by
  simp [atDepth?]

/-! ## Detaching -/

theorem detach_fst_append_snd (scopes : JumpScopes) (depth : Nat) :
    (scopes.detach depth).1 ++ (scopes.detach depth).2 = scopes := by
  simp [detach]

theorem length_detach_snd (h : depth ≤ scopes.length) : (scopes.detach depth).2.length = depth := by
  simp [detach]
  omega

theorem opensAt_of_detach {d : Nat} (h : (scopes.detach depth).2.OpensAt d l) :
    scopes.OpensAt d l := by
  rw [← detach_fst_append_snd scopes depth, opensAt_append_of_lt (lt_of_opensAt h)]
  exact h

/-! ## Recording gaps -/

def recordAll (scopes : JumpScopes) (gaps : List (Nat × Label × Label)) : JumpScopes :=
  gaps.foldl (fun scopes gap => scopes.recordGap gap.1 gap.2) scopes

variable {gap : Label × Label} {gaps : List (Nat × Label × Label)}

@[simp] theorem recordAll_nil (scopes : JumpScopes) : scopes.recordAll [] = scopes := rfl

theorem recordAll_cons (scopes : JumpScopes) (gap : Nat × Label × Label)
    (gaps : List (Nat × Label × Label)) :
    scopes.recordAll (gap :: gaps) = (scopes.recordGap gap.1 gap.2).recordAll gaps := rfl

theorem recordAll_append (scopes : JumpScopes) (gaps gaps' : List (Nat × Label × Label)) :
    scopes.recordAll (gaps ++ gaps') = (scopes.recordAll gaps).recordAll gaps' :=
  List.foldl_append

/-- A property that recording one gap keeps is kept by recording several. -/
theorem recordAll_induction {P : JumpScopes → JumpScopes → Prop}
    (refl : ∀ scopes, P scopes scopes)
    (step : ∀ scopes (gap : Nat × Label × Label) later, P (recordGap gap.1 gap.2 scopes) later →
      P scopes later)
    (scopes : JumpScopes) (gaps : List (Nat × Label × Label)) :
    P scopes (scopes.recordAll gaps) := by
  induction gaps generalizing scopes with
  | nil => exact refl scopes
  | cons gap gaps ih => exact step scopes gap _ (ih _)

@[simp] theorem length_recordGap (depth : Nat) (gap : Label × Label) (scopes : JumpScopes) :
    (scopes.recordGap depth gap).length = scopes.length := by
  induction scopes with
  | nil => rfl
  | cons scope outer ih =>
    unfold recordGap
    split
    · cases scope <;> rfl
    · rw [List.length_cons, ih, List.length_cons]

theorem recordGap_of_le (h : scopes.length ≤ depth) : scopes.recordGap depth gap = scopes := by
  induction scopes with
  | nil => rfl
  | cons scope outer ih =>
    rw [List.length_cons] at h
    have hne : outer.length ≠ depth := by omega
    simp [recordGap, hne, ih (by omega)]

theorem recordGap_cons_of_ne (scope : JumpScope) (h : outer.length ≠ depth) :
    recordGap depth gap (scope :: outer) = scope :: outer.recordGap depth gap := by
  simp [recordGap, h]

theorem recordGap_cons_loop (labels : LoopLabels) (outer : JumpScopes) :
    recordGap depth gap (.loop labels :: outer) = .loop labels :: outer.recordGap depth gap := by
  by_cases h : outer.length = depth
  · have hsame : recordGap depth gap outer = outer := recordGap_of_le h.le
    rw [hsame]
    simp [recordGap, h]
  · exact recordGap_cons_of_ne _ h

theorem recordGap_append_of_lt (h : depth < outer.length) :
    (inner ++ outer).recordGap depth gap = inner ++ outer.recordGap depth gap := by
  induction inner with
  | nil => rfl
  | cons scope inner ih =>
    rw [List.cons_append, recordGap_cons_of_ne, ih, List.cons_append]
    rw [List.length_append]
    omega

/-! ## What recording gaps keeps -/

variable (k : Nat)

@[simp] theorem clauseAt?_recordGap (scopes : JumpScopes) :
    clauseAt? k (recordGap depth gap scopes) = clauseAt? k scopes := by
  induction scopes with
  | nil => rfl
  | cons scope outer ih =>
    by_cases h : outer.length = depth
    · cases scope <;> simp [recordGap, clauseAt?, h]
    · rw [recordGap_cons_of_ne _ h]
      cases scope with
      | ensure c gaps => simp only [clauseAt?, length_recordGap, ih]
      | method | loop => exact ih

@[simp] theorem loopLabels?_recordGap (scopes : JumpScopes) :
    loopLabels? (recordGap depth gap scopes) k = loopLabels? scopes k := by
  induction scopes with
  | nil => rfl
  | cons scope outer ih =>
    by_cases h : outer.length = depth
    · cases scope <;> simp [recordGap, h, loopLabels?_cons]
    · rw [recordGap_cons_of_ne _ h, loopLabels?_cons, loopLabels?_cons, ih,
        length_recordGap]

@[simp] theorem findEnsures?_recordGap (target : JumpTarget) (scopes : JumpScopes) :
    findEnsures? target (recordGap depth gap scopes) = findEnsures? target scopes := by
  induction scopes with
  | nil => rfl
  | cons scope outer ih =>
    by_cases h : outer.length = depth
    · cases scope <;> cases target <;> simp [recordGap, h, findEnsures?, JumpTarget.accepts]
    · rw [recordGap_cons_of_ne _ h]
      simp only [findEnsures?, ih, length_recordGap]

@[simp] theorem clauseAt?_recordAll (scopes : JumpScopes) :
    clauseAt? k (scopes.recordAll gaps) = clauseAt? k scopes :=
  recordAll_induction (P := fun s t => clauseAt? k t = clauseAt? k s) (fun _ => rfl)
    (fun _ _ _ h => h.trans (clauseAt?_recordGap ..)) scopes gaps

@[simp] theorem opensAt_recordAll (l : Label) (scopes : JumpScopes) :
    (scopes.recordAll gaps).OpensAt k l ↔ scopes.OpensAt k l :=
  recordAll_induction (P := fun s t => OpensAt t k l ↔ OpensAt s k l) (fun _ => Iff.rfl)
    (fun _ _ _ h => h.trans (by simp only [OpensAt, loopLabels?_recordGap])) scopes gaps

@[simp] theorem findEnsures?_recordAll (target : JumpTarget) (scopes : JumpScopes) :
    findEnsures? target (scopes.recordAll gaps) = findEnsures? target scopes :=
  recordAll_induction (P := fun s t => findEnsures? target t = findEnsures? target s)
    (fun _ => rfl) (fun _ _ _ h => h.trans (findEnsures?_recordGap ..)) scopes gaps

theorem recordAll_cons_loop (labels : LoopLabels) (outer : JumpScopes) :
    recordAll (.loop labels :: outer) gaps = .loop labels :: outer.recordAll gaps := by
  induction gaps generalizing outer with
  | nil => rfl
  | cons gap gaps ih => rw [recordAll_cons, recordAll_cons, recordGap_cons_loop, ih]

theorem recordAll_append_of_lt (inner : JumpScopes) (h : ∀ gap ∈ gaps, gap.1 < outer.length) :
    recordAll (inner ++ outer) gaps = inner ++ outer.recordAll gaps := by
  induction gaps generalizing outer with
  | nil => rfl
  | cons gap gaps ih =>
    rw [recordAll_cons, recordAll_cons, recordGap_append_of_lt (h gap List.mem_cons_self)]
    exact ih fun g hg => by
      rw [length_recordGap]
      exact h g (List.mem_cons_of_mem _ hg)

/-- Of the gaps recorded at or outside an ensure block, those at its depth end
up in the block. -/
theorem recordAll_cons_ensure (clause : Node) (known : List (Label × Label))
    (gaps : List (Nat × Label × Label)) : recordAll (.ensure clause known :: outer) gaps =
      .ensure clause (known ++ ((gaps.filter (·.1 == outer.length)).map (·.2))) ::
        outer.recordAll gaps := by
  induction gaps generalizing known outer with
  | nil => simp
  | cons gap gaps ih =>
    rw [recordAll_cons, recordAll_cons]
    by_cases h : outer.length = gap.1
    · have hsame : recordGap gap.1 gap.2 outer = outer := recordGap_of_le h.le
      have hhere : recordGap gap.1 gap.2 (.ensure clause known :: outer) =
          .ensure clause (known ++ [gap.2]) :: outer := by
        simp [recordGap, h]
      rw [hhere, hsame, ih]
      simp [h]
    · rw [recordGap_cons_of_ne _ h, ih, length_recordGap]
      simp [Ne.symm h]

theorem recordAll_filter_ne (scopes : JumpScopes) (gaps : List (Nat × Label × Label)) :
    recordAll scopes (gaps.filter (·.1 != scopes.length)) = recordAll scopes gaps := by
  induction gaps generalizing scopes with
  | nil => rfl
  | cons gap gaps ih =>
    by_cases h : gap.1 = scopes.length
    · have hsame : recordGap gap.1 gap.2 scopes = scopes := recordGap_of_le h.ge
      simp only [List.filter_cons, h, bne_self_eq_false, recordAll_cons]
      rw [← h, hsame, h]
      exact ih scopes
    · simp only [List.filter_cons, bne_iff_ne, ne_eq, h, not_false_eq_true, if_true,
        recordAll_cons]
      have hrest := ih (recordGap gap.1 gap.2 scopes)
      rwa [length_recordGap] at hrest

theorem clauseAt?_of_ensure {c : Node} {known : List (Label × Label)}
    (h : clauseAt? depth (.ensure clause known :: outer) = some c) (hne : depth ≠ outer.length) :
    clauseAt? depth outer = some c := by
  simpa [clauseAt?, Ne.symm hne] using h

/-! ## What a jump finds -/

/-- A jump finds exactly the ensure blocks inside its target, innermost
first. -/
theorem findEnsures?_spec {target : JumpTarget} {pending : PendingEnsures}
    (h : findEnsures? target scopes = some pending) : pending.targetDepth < scopes.length ∧
      (∀ d c, (d, c) ∈ pending.ensures ↔
        pending.targetDepth < d ∧ clauseAt? d scopes = some c) ∧
      pending.ensures.Pairwise fun x y => y.1 < x.1 := by
  induction scopes generalizing pending with
  | nil => cases h
  | cons scope outer ih =>
    have beyond : ∀ {d c}, clauseAt? d outer = some c → d < outer.length := lt_of_clauseAt?
    simp only [findEnsures?] at h
    split at h
    · rename_i haccepts
      cases h
      refine ⟨by simp, fun d c => ?_, by simp⟩
      simp only [List.not_mem_nil, false_iff, not_and]
      intro hd hc
      have hlt := lt_of_clauseAt? hc
      rw [List.length_cons] at hlt
      omega
    · cases scope with
      | ensure clause gaps =>
        obtain ⟨found, hfound, rfl⟩ := Option.map_eq_some_iff.1 h
        obtain ⟨hdepth, hmem, hsorted⟩ := ih hfound
        refine ⟨hdepth.trans (by simp), fun d c => ?_, ?_⟩
        · rw [List.mem_cons, hmem, Prod.mk.injEq]
          by_cases hd : outer.length = d
          · subst hd
            rw [clauseAt?_ensure_self, Option.some.injEq]
            constructor
            · rintro (⟨-, rfl⟩ | ⟨-, hc⟩)
              · exact ⟨hdepth, rfl⟩
              · exact absurd (beyond hc) (lt_irrefl _)
            · rintro ⟨-, rfl⟩
              exact .inl ⟨rfl, rfl⟩
          · have hsame : clauseAt? d (.ensure clause gaps :: outer) = clauseAt? d outer := by
              simp [clauseAt?, hd]
            rw [hsame]
            constructor
            · rintro (⟨rfl, -⟩ | hc)
              · exact absurd rfl hd
              · exact hc
            · exact .inr
        · rw [List.pairwise_cons]
          exact ⟨fun x hx => beyond ((hmem x.1 x.2).1 hx).2, hsorted⟩
      | method | loop =>
        obtain ⟨hdepth, hrest⟩ := ih h
        exact ⟨hdepth.trans (by simp), hrest⟩

theorem findEnsures?_target {target : JumpTarget} {pending : PendingEnsures}
    (h : findEnsures? target scopes = some pending) :
    ∃ scope, scopes.atDepth? pending.targetDepth = some scope ∧ target.accepts scope := by
  induction scopes generalizing pending with
  | nil => cases h
  | cons scope outer ih =>
    have hinner : ∀ {found}, findEnsures? target outer = some found →
        ∃ scope', atDepth? (scope :: outer) found.targetDepth = some scope' ∧
          target.accepts scope' := by
      intro found hfound
      obtain ⟨scope', hscope, haccepts⟩ := ih hfound
      exact ⟨scope', by rwa [atDepth?_cons_of_lt _ (findEnsures?_spec hfound).1], haccepts⟩
    simp only [findEnsures?] at h
    split at h
    · rename_i haccepts
      cases h
      exact ⟨scope, atDepth?_length scope outer, haccepts⟩
    · cases scope with
      | ensure clause gaps =>
        obtain ⟨found, hfound, rfl⟩ := Option.map_eq_some_iff.1 h
        have hfound := hinner hfound
        exact hfound
      | method | loop => exact hinner h

end JumpScopes

end ClassBackend
