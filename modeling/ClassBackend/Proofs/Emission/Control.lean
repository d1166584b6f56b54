import ClassBackend.Proofs.Emission.Nodes

/-!
# Emission of control flow lays code down

The constructs that open jump scopes, jump or protect code, and with them every
kind of node. A loop owns its labels; a jump inlines the clauses of the ensure
blocks it passes; rescue and ensure protect their bodies.
-/

namespace ClassBackend

variable {l : Label}

theorem Laid.gotoIfReachable {ctx : Context} {own goals : List Label} {slots : List UInt16}
    (s : Draft) (h : l ∈ own ∨ l ∈ goals) :
    Laid ctx (.code own goals slots) s (s.edit (·.gotoIfReachable l)) [] [] := by
  by_cases hreach : s.body.reachable
  · have hgoto : s.edit (·.gotoIfReachable l) = s.edit (·.emit (.goto l)) := by
      simp [Draft.edit, Assembler.gotoIfReachable, hreach, Assembler.goto]
    rw [hgoto]
    exact .instruction s _ ⟨rfl, fun k hk => Option.some.inj hk ▸ h, nofun⟩
  · have hsame : s.edit (·.gotoIfReachable l) = s := by
      simp [Draft.edit, Assembler.gotoIfReachable, hreach]
    rw [hsame]
    exact .refl s

namespace Context

open Emit

variable {u : Unit} {ensures : List (Nat × Node)} {starts : List Label} {t ty : Ty} {value : Bool}

variable {ctx : Context} {recur : Recursion} {own goals : List Label} {slots : List UInt16}
  {σ σ' : Emission} {s : Draft}

/-! ## Drafts of single steps -/

variable {α : Type} {f : Label → Emit α} {a : α}

theorem label_bind_draft (h : (Emit.label >>= f) σ = .ok a σ') (hs : σ.draft? = some s) :
    ∃ τ, τ.draft? = some (s.edit fun a => a.label.2) ∧ f s.body.nextLabel τ = .ok a σ' := by
  obtain ⟨l, τ, hlabel, hrest⟩ := bind_eq_ok.1 h
  obtain ⟨rfl, hτ⟩ := assembling_draft hlabel hs
  exact ⟨τ, hτ, hrest⟩

theorem mark_bind_draft (h : (do let l ← Emit.label; Emit.place l; f l) σ = .ok a σ')
    (hs : σ.draft? = some s) :
    ∃ τ, τ.draft? = some (s.edit Assembler.mark) ∧ f s.body.nextLabel τ = .ok a σ' := by
  obtain ⟨τ, hτ, hplace⟩ := label_bind_draft h hs
  exact assemble_bind_draft hplace hτ

theorem gotoIfReachable_draft (h : Emit.gotoIfReachable l σ = .ok u σ') (hs : σ.draft? = some s) :
    σ'.draft? = some (s.edit (·.gotoIfReachable l)) := by
  obtain ⟨b, τ, hread, hgoto⟩ := bind_eq_ok.1 h
  obtain ⟨rfl, hτ⟩ := reading_draft hread hs
  simp only [Assembler.gotoIfReachable]
  split at hgoto
  · rename_i hreach
    have ht := assemble_draft hgoto hτ
    simpa [Draft.edit, hreach] using ht
  · rename_i hreach
    rw [(pure_eq_ok.1 hgoto).2, hτ]
    simp [Draft.edit, hreach]

/-! ## Branches and loops -/

variable (hrecur : recur.Lays ctx)

omit hrecur in
theorem lays_fillValue (want value : Bool) : Lays ctx own goals slots (fillValue want value) :=
  .push (.of_isPlain rfl) _

omit hrecur in
theorem settles_openLoop {action : Emit Unit} {labels : LoopLabels} {due : List Label}
    (hown : ∀ jump : LoopJump, jump.label labels ∈ own)
    (h : Settles ctx own goals slots due action) :
    Settles ctx own goals slots due (Emit.openScope (.loop labels) action) := by
  intro σ left σ' s hrun hs hmade
  obtain ⟨τ, haction, -, rfl⟩ := openScope_eq_ok.1 hrun
  have hopen := Emission.draft?_setJumps hs (.loop labels :: σ.jumps)
  rw [Emission.jumps_of_draft? hs] at hopen haction
  obtain ⟨t, gaps, blocks, ht, hlaid, hplaced⟩ := h haction hopen hmade
  have hrecords := (hlaid.records trivial).1
  rw [JumpScopes.recordAll_cons_loop] at hrecords
  obtain ⟨b, js⟩ := t
  obtain rfl : js = _ := hrecords
  refine ⟨_, gaps, blocks, Emission.draft?_setJumps ht _, ?_, hplaced⟩
  rw [Emission.jumps_of_draft? ht]
  exact .loop labels hown hlaid

include hrecur

theorem lays_emitArm (arm : Option Node) (value : Bool) (t : Ty) :
    Lays ctx own goals slots (ctx.emitArm recur arm value t) := by
  unfold emitArm
  split
  · exact .ite (lays_emitAs hrecur ..) (hrecur.emit ..).closed
  · exact .ite (.plain (Ty.initCode_plain _)) (.pure _)

theorem lays_branch {target : Label} (h : target ∈ own ∨ target ∈ goals) (node : Node)
    (when : Bool) :
    Lays ctx own goals slots (recur.branch node target when) :=
  (hrecur.branch node target when).weaken (List.nil_subset _)
    (by simpa using h) (List.nil_subset _)

variable {want : Bool} (node : Node)

theorem lays_emitIf (condition : Node) (body elseBody : Option Node) (want : Bool) :
    Lays ctx own goals slots (ctx.emitIf recur node condition body elseBody want) := by
  refine .after (.nodeType _) fun t => ?_
  extract_lets value
  have hdone : ∀ {own} done, done ∈ own → Settles ctx own goals slots [done]
      (do Emit.place done; fillValue want value) := fun done hmem =>
    .placing _ hmem (fun _ => .of_lays (lays_fillValue ..)) (by simp) (by simp)
  by_cases hbranch : (body.isSome || value) = true
  · simp only [hbranch, if_true]
    exact .label fun otherwise => .label fun done => .after (lays_branch hrecur (by simp) ..)
      fun _ => .after (lays_emitArm hrecur ..) fun _ => .after (.gotoIfReachable (by simp)) fun _ =>
      .placing _ (by simp) (fun _ => .after (lays_emitArm hrecur ..) fun _ =>
        hdone done (by simp)) (by simp) (by simp)
  · -- without a body nothing jumps to the first label
    simp only [hbranch]
    exact .spare fun otherwise => .label fun done => .after (lays_branch hrecur (by simp) ..)
      fun _ => .after (lays_emitArm hrecur ..) fun _ => hdone done (by simp)

theorem settles_emitLoopParts (parts : LoopParts) (labels : LoopLabels)
    (hown : ∀ jump : LoopJump, jump.label labels ∈ own) :
    Settles ctx own goals slots [labels.redoLabel, labels.nextLabel, labels.breakLabel]
      (emitLoopParts recur parts labels) := by
  have hparts : ∀ {own} (nodes : List Node),
      Lays ctx own goals slots (nodes.forM fun node => recur.emit node false) :=
    fun nodes => .forM (fun _ => (hrecur.emit ..).closed) nodes
  have hbreak : labels.breakLabel ∈ own := hown .break
  have hnext : labels.nextLabel ∈ own := hown .next
  have hredo : labels.redoLabel ∈ own := hown .redo
  have htest : Lays ctx own goals slots
      (recur.branch parts.condition labels.breakLabel parts.negative) :=
    lays_branch hrecur (.inl hbreak) ..
  have hbody : ∀ {own : List Label}, labels.redoLabel ∈ own → ∀ {x : Emit Unit} {due},
      Settles ctx own goals slots due x →
      Settles ctx own goals slots (labels.redoLabel :: due) (do
        parts.pre.forM fun node => recur.emit node false
        Emit.place labels.redoLabel
        parts.body.forM fun node => recur.emit node false
        x) := fun hmem _ _ hx =>
    .after (hparts _) fun _ => .placing _ hmem (fun _ =>
      .after (.optionForM (fun _ => (hrecur.emit ..).closed) _) fun _ => hx)
      (List.Subset.refl _) (List.Subset.refl _)
  have hskip : Settles ctx own goals slots [labels.redoLabel, labels.breakLabel] (do
      let again ← Emit.label
      Emit.place again
      parts.pre.forM fun node => recur.emit node false
      Emit.place labels.redoLabel
      parts.body.forM fun node => recur.emit node false
      Emit.goto labels.nextLabel
      Emit.place labels.breakLabel) :=
    .label fun again => .placing _ (by simp) (fun _ => hbody (by simp [hredo])
      (.after (.goto (by simp [hnext])) fun _ => .place (by simp [hbreak]))) (by simp) (by simp)
  have hagain : Settles ctx own goals slots
      [labels.redoLabel, labels.nextLabel, labels.breakLabel] (do
      let again ← Emit.label
      Emit.place again
      parts.pre.forM fun node => recur.emit node false
      Emit.place labels.redoLabel
      parts.body.forM fun node => recur.emit node false
      Emit.place labels.nextLabel
      parts.post.forM fun node => recur.emit node false
      recur.branch parts.condition again (!parts.negative)
      Emit.place labels.breakLabel) :=
    .label fun again => .placing _ (by simp) (fun _ => hbody (by simp [hredo])
      (.placing _ (by simp [hnext]) (fun _ => .after (hparts _) fun _ =>
        .after (lays_branch hrecur (by simp) ..) fun _ => .place (by simp [hbreak]))
        (List.Subset.refl _) (List.Subset.refl _))) (by simp) (by simp)
  refine .after (hparts _) fun _ => ?_
  -- the label of the next round is placed before the condition that is tested first, or before
  -- the one that is tested last
  cases hfirst : parts.skipFirstCheck with
  | true => simpa [hfirst] using hagain
  | false =>
    cases hpost : parts.post.isEmpty with
    | true =>
      simp only [Bool.not_false, if_true, Bool.false_or, Bool.not_true]
      exact .placing _ hnext (fun _ => .after htest fun _ => hskip) (by simp) (by simp)
    | false =>
      simp only [Bool.not_false, if_true, Bool.false_or]
      exact .after htest fun _ => hagain

theorem lays_emitLoop (parts : LoopParts) (want : Bool) :
    Lays ctx own goals slots (emitLoop recur parts want) := by
  refine .label fun breakLabel => .label fun nextLabel => .label fun redoLabel => ?_
  exact .bind (settles_openLoop (fun jump => by cases jump <;> simp [LoopJump.label])
    (settles_emitLoopParts hrecur _ _ fun jump => by cases jump <;> simp [LoopJump.label]))
    (fun _ => .of_lays (.push (.of_isPlain rfl) _)) (List.Subset.refl _) (List.Subset.refl _)

theorem lays_emitRaise (value : Node) : Lays ctx own goals slots (ctx.emitRaise recur value) := by
  have hthrow : Lays ctx own goals slots (Emit.instruction .athrow) :=
    .instruction (.of_isPlain rfl)
  refine .after (.nodeType _) fun t => .ite ?_ (.ite ?_ ?_)
  · exact .bind (.plain rfl) fun _ => .bind (hrecur.emit ..).closed fun _ =>
      .bind (.instruction (.of_isPlain rfl)) fun _ => hthrow
  · exact .bind (hrecur.emit ..).closed fun _ => .bind (.plain rfl) fun _ => hthrow
  · exact .bind (hrecur.emit ..).closed fun _ => hthrow

/-! ## Jumps -/

omit hrecur in
theorem quiet_missingTarget (jump : String) (target : JumpTarget) :
    Quiet (missingTarget node jump target) := by
  unfold missingTarget
  split
  · exact .sharing _
  · exact .throw _

omit hrecur in
theorem map_record_passageGaps (origin stop : Nat) (departure : Departure) (l : Label)
    {made : List ClauseCopy} (hmade : made.length = ensures.length) :
    (passageGaps origin departure l stop ensures starts made).map Gap.record =
      (ensures.zip starts).map fun x => (x.1.1, x.2, l) := by
  induction ensures generalizing starts made with
  | nil => simp [passageGaps]
  | cons x ensures ih =>
    cases starts with
    | nil => simp [passageGaps]
    | cons start starts =>
      cases made with
      | nil => cases hmade
      | cons copy made =>
        rw [passageGaps, List.map_cons, ih (Nat.succ.inj hmade)]
        rfl

omit hrecur in
private theorem recordGaps_draft {stop : Label} {u : PUnit}
    (xs : List ((Nat × Node) × Label)) (hs : σ.draft? = some s)
    (h : (xs.forM fun ((depth, _), start) => (modify fun state : Emission =>
      { state with jumps := state.jumps.recordGap depth (start, stop) } : Emit PUnit)) σ =
        .ok u σ') :
    σ'.draft? = some ⟨s.body, s.jumps.recordAll (xs.map fun x => (x.1.1, x.2, stop))⟩ := by
  induction xs generalizing σ s with
  | nil =>
    rw [(pure_eq_ok.1 h).2, hs]
    rfl
  | cons x xs ih =>
    obtain ⟨⟨depth, clause⟩, start⟩ := x
    obtain ⟨_, τ, hfirst, hrest⟩ := bind_eq_ok.1 h
    obtain rfl := modify_eq_ok.1 hfirst
    have hτ := Emission.draft?_setJumps hs (σ.jumps.recordGap depth (start, stop))
    rw [Emission.jumps_of_draft? hs] at hτ hrest
    exact ih hτ hrest

omit hrecur in
/-- Closing the gaps of a jump puts the scopes and the body in the form that the
layout gives them. -/
theorem closeGaps_draft {made : List ClauseCopy} (origin stop : Nat) (departure : Departure)
    (hstarts : starts.length = ensures.length) (hmade : made.length = ensures.length)
    (h : closeGaps ensures starts σ = .ok u σ') (hs : σ.draft? = some s) : σ'.draft? = some
      (s.closeGaps (passageGaps origin departure s.body.nextLabel stop ensures starts made)) := by
  cases starts with
  | nil =>
    obtain rfl := List.eq_nil_of_length_eq_zero hstarts.symm
    rw [(pure_eq_ok.1 h).2, hs]
    rfl
  | cons start starts =>
    obtain ⟨τ, hτ, hrest⟩ := mark_bind_draft h hs
    have hgaps := recordGaps_draft _ hτ hrest
    rw [hgaps, Draft.closeGaps, map_record_passageGaps _ _ _ _ hmade]
    cases ensures with
    | nil => cases hstarts
    | cons x ensures =>
      cases made with
      | nil => cases hmade
      | cons copy made => rfl

theorem emits_of_emit {node : Node} {t : Draft} (h : recur.emit node want σ = .ok () σ')
    (hs : σ.draft? = some s) (ht : σ'.draft? = some t) : ctx.Emits node want s t := by
  obtain ⟨depth, rfl⟩ := hrecur.bounded
  exact ⟨depth, σ, σ', h, hs, ht⟩

theorem runEnsures_laid (h : runEnsures recur ensures σ = .ok starts σ') (hs : σ.draft? = some s) :
    ∃ t made gaps blocks, σ'.draft? = some t ∧
      Laid ctx (.copies ensures starts made) s t gaps blocks := by
  induction ensures generalizing σ s starts with
  | nil =>
    obtain ⟨rfl, rfl⟩ := pure_eq_ok.1 h
    exact ⟨s, [], [], [], hs, .noCopies s⟩
  | cons x ensures ih =>
    obtain ⟨depth, clause⟩ := x
    obtain ⟨τ1, hmark, h⟩ := mark_bind_draft h hs
    obtain ⟨_, τ2, hdetached, h⟩ := bind_eq_ok.1 h
    obtain ⟨τ', hemit, -, rfl⟩ := detached_eq_ok.1 hdetached
    have hinner := Emission.draft?_setJumps hmark (τ1.jumps.detach depth).2
    rw [Emission.jumps_of_draft? hmark] at hinner hemit
    obtain ⟨⟨b, js⟩, gaps, blocks, ht, hlaid⟩ :=
      hrecur.emit clause false hemit hinner
    have hemits := emits_of_emit hrecur hemit hinner ht
    obtain ⟨starts', τ3, hrest, h⟩ := bind_eq_ok.1 h
    obtain ⟨rfl, rfl⟩ := pure_eq_ok.1 h
    have hafter := Emission.draft?_setJumps ht (τ'.jumps.restore (τ1.jumps.detach depth).1)
    rw [Emission.jumps_of_draft? hmark, Emission.jumps_of_draft? ht] at hafter hrest
    obtain ⟨t, made, gaps', blocks', ht, hcopies⟩ := ih hrest hafter
    exact ⟨t, _, _, _, ht, .copy depth clause hlaid hemits hcopies⟩

/-- What follows the search for a target is laid down as a departure. -/
theorem depart_laid {departure : Departure} {pending : PendingEnsures} {parked : Draft}
    {τ τ' : Emission} (hfinds : departure.Finds s.jumps pending) (hparks : Parks departure s parked)
    (hparked : σ.draft? = some parked) (hcopies : runEnsures recur pending.ensures σ = .ok starts τ)
    (hcode : ∀ t, τ.draft? = some t → τ'.draft? = some (t.edit (·.emitAll departure.code)))
    (hclose : closeGaps pending.ensures starts τ' = .ok u σ') :
    ∃ t gaps blocks, σ'.draft? = some t ∧
      Laid ctx (.code own goals slots) s t gaps blocks := by
  obtain ⟨t, made, gaps, blocks, ht, hlaid⟩ := runEnsures_laid hrecur hcopies hparked
  obtain ⟨hstarts, hmade⟩ := hlaid.length_copies
  have hclosed := closeGaps_draft parked.offset (t.offset + departure.code.length) departure
    hstarts hmade hclose (hcode t ht)
  have hlabel : (t.edit (·.emitAll departure.code)).body.nextLabel = t.body.nextLabel := by
    simp [Assembler.nextLabel]
  rw [hlabel] at hclosed
  exact ⟨_, _, _, hclosed, .depart departure pending starts made hfinds hparks hlaid⟩

theorem lays_emitLoopJump (jump : LoopJump) :
    Lays ctx own goals slots (emitLoopJump recur node jump) := by
  intro σ u σ' s hrun hs
  replace hrun := get_bind_eq_ok.1 hrun
  rw [Emission.jumps_of_draft? hs] at hrun
  cases hfind : JumpScopes.findEnsures? .loop s.jumps with
  | none =>
    simp only [hfind] at hrun
    exact Lays.of_quiet (quiet_missingTarget _ _ _) hrun hs
  | some pending =>
    simp only [hfind] at hrun
    obtain ⟨labels, hlabels, hjump⟩ := orFault_bind_eq_ok.1 hrun
    obtain ⟨starts, τ, hcopies, hleave⟩ := bind_eq_ok.1 hjump
    obtain ⟨_, τ', hgoto, hclose⟩ := bind_eq_ok.1 hleave
    have hfinds : (Departure.jump (jump.label labels)).Finds s.jumps pending :=
      ⟨hfind, labels, jump, hlabels, rfl⟩
    exact depart_laid hrecur hfinds (.jump _ s) hs hcopies
      (fun t ht => assemble_draft hgoto ht) hclose

omit hrecur in
theorem codeOf_draft {x : Except Fault (List Instruction)} (h : Emit.codeOf x σ = .ok u σ')
    (hs : σ.draft? = some s) : ∃ is, x = .ok is ∧ σ'.draft? = some (s.edit (·.emitAll is)) := by
  obtain ⟨_, -, hrest⟩ := frame_bind_eq_ok.1 h
  obtain ⟨is, his, hcode⟩ := ofExcept_bind_eq_ok.1 hrest
  exact ⟨is, his, assemble_draft hcode hs⟩

omit hrecur in
theorem valueCode_eq_ok {code : Kind → List Instruction} {is : List Instruction}
    (h : t.valueKind.map code = .ok is) : ∃ kind, t.stackKind? = some kind ∧ is = code kind := by
  unfold Ty.valueKind at h
  split at h
  · rename_i kind hkind
    cases h
    exact ⟨kind, hkind, rfl⟩
  · cases h

theorem leave_laid {pending : PendingEnsures}
    (hfind : s.jumps.findEnsures? .method = some pending) (hs : σ.draft? = some s)
    (h : (if pending.ensures.isEmpty then Emit.code t.returnCode
      else do
        let parked ← if t.isVoid then pure none else do
          let slot ← Emit.temporary t
          Emit.codeOf (t.storeCode slot)
          pure (some slot)
        let starts ← runEnsures recur pending.ensures
        if let some slot := parked then Emit.codeOf (t.loadCode slot)
        Emit.code t.returnCode
        closeGaps pending.ensures starts) σ = .ok u σ') :
    ∃ t gaps blocks, σ'.draft? = some t ∧
      Laid ctx (.code own goals slots) s t gaps blocks := by
  have hfinds : ∀ kind, (Departure.ret kind).Finds s.jumps pending := fun _ => hfind
  split at h
  · rename_i hempty
    have hnil := List.isEmpty_iff.1 hempty
    have hcopies : runEnsures recur pending.ensures σ = .ok [] σ := by
      rw [hnil]
      rfl
    have hclose : closeGaps pending.ensures [] σ' = .ok () σ' := rfl
    exact depart_laid hrecur (hfinds t.stackKind?) (.ret _ s) hs hcopies
      (fun t ht => assemble_draft h ht) hclose
  · split at h
    · obtain ⟨starts, τ, hcopies, hleave⟩ := bind_eq_ok.1 (pure_bind_eq_ok.1 h)
      obtain ⟨_, τ', hreturn, hclose⟩ := bind_eq_ok.1 hleave
      exact depart_laid hrecur (hfinds t.stackKind?) (.ret _ s) hs hcopies
        (fun t ht => assemble_draft hreturn ht) hclose
    · obtain ⟨slot, τ, halloc, hpark⟩ := bind_eq_ok.1 h
      obtain ⟨rfl, hτ⟩ := assembling_draft halloc hs
      obtain ⟨_, τ1, hstore, hrun⟩ := bind_eq_ok.1 hpark
      obtain ⟨_, hcode, hτ1⟩ := codeOf_draft hstore hτ
      obtain ⟨kind, hkind, rfl⟩ := valueCode_eq_ok hcode
      obtain ⟨starts, τ2, hcopies, hleave⟩ := bind_eq_ok.1 (pure_bind_eq_ok.1 hrun)
      obtain ⟨_, τ3, hload, hrest⟩ := bind_eq_ok.1 hleave
      obtain ⟨_, τ4, hreturn, hclose⟩ := bind_eq_ok.1 hrest
      have hfinds : (Departure.retValue kind s.body.nextSlot).Finds s.jumps pending := hfind
      refine depart_laid hrecur hfinds (.value kind t s) hτ1 hcopies (fun b hb => ?_) hclose
      obtain ⟨_, hcode', hτ3⟩ := codeOf_draft hload hb
      obtain ⟨kind', hkind', rfl⟩ := valueCode_eq_ok hcode'
      cases hkind.symm.trans hkind'
      have hτ4 := assemble_draft hreturn hτ3
      rw [hτ4, Ty.returnCode, hkind]
      rfl

theorem lays_emitReturn (value : Option Node) :
    Lays ctx own goals slots (ctx.emitReturn recur node value) := by
  intro σ u σ' s hrun hs
  replace hrun := get_bind_eq_ok.1 hrun
  rw [Emission.jumps_of_draft? hs] at hrun
  cases hfind : JumpScopes.findEnsures? .method s.jumps with
  | none =>
    simp only [hfind] at hrun
    exact Lays.of_quiet (quiet_missingTarget _ _ _) hrun hs
  | some pending =>
    rw [hfind] at hrun
    obtain ⟨current, -, hreturn⟩ := frame_bind_eq_ok.1 hrun
    -- The value is emitted first; the scopes it leaves are those it found, but for gaps.
    have after : ∀ {x : Emit Unit} {f : Unit → Emit Unit}, Lays ctx own goals slots x →
        (∀ {τ : Emission} {t : Draft}, t.jumps.findEnsures? .method = some pending →
          τ.draft? = some t → f () τ = .ok u σ' → ∃ t' gaps blocks, σ'.draft? = some t' ∧
            Laid ctx (.code own goals slots) t t' gaps blocks) →
        (x >>= f) σ = .ok u σ' → ∃ t gaps blocks, σ'.draft? = some t ∧
          Laid ctx (.code own goals slots) s t gaps blocks := by
      intro x f hx hf h
      obtain ⟨_, τ, hvalue, hrest⟩ := bind_eq_ok.1 h
      obtain ⟨t, gaps, blocks, ht, hlaid⟩ := hx hvalue hs
      have hsame : t.jumps.findEnsures? .method = some pending := by
        rw [(hlaid.records trivial).1, JumpScopes.findEnsures?_recordAll, hfind]
      obtain ⟨t', gaps', blocks', ht', hlaid'⟩ := hf hsame ht hrest
      exact ⟨t', _, _, ht', hlaid.trans hlaid'⟩
    cases value with
    | none => exact after (.plain (Ty.initCode_plain _)) (leave_laid hrecur) hreturn
    | some node =>
      simp only at hreturn
      split at hreturn
      · rename_i hvoid
        refine after (hrecur.emit ..).closed (fun hsame ht hrest => ?_) hreturn
        exact leave_laid hrecur (t := current.returnType) hsame ht (by simpa [hvoid] using hrest)
      · rename_i hvoid
        refine after (lays_emitAs hrecur ..) (fun hsame ht hrest => ?_) hreturn
        exact leave_laid hrecur (t := current.returnType) hsame ht (by simpa [hvoid] using hrest)

/-! ## Rescue -/

def EmitsArm (ctx : Context) (arm : Option Node) (value : Bool) (ty : Ty) (s t : Draft) : Prop :=
  ∃ depth σ σ', ctx.emitArm (ctx.recursion depth) arm value ty σ = .ok () σ' ∧
    σ.draft? = some s ∧ σ'.draft? = some t

/-- Binding the exception that a clause catches makes the second draft of the
first. -/
def Binds (ctx : Context) (clause : RescueClause) (s t : Draft) : Prop :=
  ∃ σ σ', ctx.bindException clause σ = .ok () σ' ∧ σ.draft? = some s ∧ σ'.draft? = some t

/-- The internal names of the classes that a clause catches. -/
def caughtBy (ctx : Context) (clause : RescueClause) : Except Fault (List String) :=
  (if clause.types.isEmpty then ["java.lang.Exception"] else clause.types).mapM fun name =>
    (ctx.registry.get name).map Ty.internalName

/-- A rescue clause and the drafts on the way through its code: where its handler
starts, where the exception is bound, and where its body ends. -/
structure ClausePart where
  clause : RescueClause
  classes : List String
  entry : Draft
  bound : Draft
  finish : Draft
  blocks : List Block

namespace ClausePart

variable (part : ClausePart) (start stop done : Label)

def enter : Draft :=
  part.entry.edit fun a => a.mark.protectAll (part.classes.map (.catching start stop a.nextLabel))

def next : Draft := part.finish.edit (·.gotoIfReachable done)

/-- The clause as a block, for a body in this range and a rescue that ends
here. -/
def block (range : Nat × Nat) (finish : Nat) : RescueBlock where
  start := range.1
  stop := range.2
  classes := part.classes
  handler := part.entry.offset
  finish := (part.next done).offset
  done := finish

def allBlocks (range : Nat × Nat) (finish : Nat) : List Block :=
  .rescue (part.block done range finish) :: part.blocks

structure Emitted (ctx : Context) (value : Bool) (ty : Ty) : Prop where
  caught : ctx.caughtBy part.clause = .ok part.classes
  binds : ctx.Binds part.clause (part.enter start stop) part.bound
  arm : ctx.EmitsArm (some part.clause.body) value ty part.bound part.finish
  laid : ∃ gaps, Laid ctx (.code [] [done] []) (part.enter start stop) (part.next done) gaps
    part.blocks

end ClausePart

inductive EmitsClauses (ctx : Context) (start stop done : Label) (value : Bool) (ty : Ty) :
    List ClausePart → Draft → Draft → Prop
  | nil (s : Draft) : EmitsClauses ctx start stop done value ty [] s s
  | cons {part : ClausePart} {parts : List ClausePart} {t : Draft} :
    part.Emitted start stop done ctx value ty →
    EmitsClauses ctx start stop done value ty parts (part.next done) t →
    EmitsClauses ctx start stop done value ty (part :: parts) part.entry t

omit hrecur in
theorem EmitsClauses.laid {start stop done : Label} {parts : List ClausePart} {t : Draft}
    {range : Nat × Nat} (hrange : range.1 ≠ range.2)
    (h : ctx.EmitsClauses start stop done value ty parts s t) (finish : Nat) :
    ∃ gaps, Laid ctx (.clauses start stop done range finish) s t gaps
      (parts.flatMap (·.allBlocks done range finish)) := by
  induction h with
  | nil s => exact ⟨[], .noClauses s⟩
  | cons hpart _ ih =>
    obtain ⟨gaps, hlaid⟩ := hpart.laid
    obtain ⟨gaps', hlaid'⟩ := ih
    exact ⟨_, .clause _ hrange hlaid hlaid'⟩

omit hrecur in
private theorem protect_draft {start stop handler : Label} {u : PUnit} (names : List String)
    (hs : σ.draft? = some s)
    (h : (names.forM fun name => do
      let className := (← Emit.ofExcept (ctx.registry.get name)).internalName
      Emit.assemble (·.protect { start, stop, handler, catchType := some className })) σ =
        .ok u σ') :
    ∃ classes, (names.mapM fun name => (ctx.registry.get name).map Ty.internalName) = .ok classes ∧
      σ'.draft? = some (s.edit (·.protectAll (classes.map (.catching start stop handler)))) := by
  induction names generalizing σ s with
  | nil =>
    rw [(pure_eq_ok.1 h).2, hs]
    exact ⟨[], rfl, rfl⟩
  | cons name names ih =>
    obtain ⟨_, τ, hfirst, hrest⟩ := bind_eq_ok.1 h
    obtain ⟨ty, hty, hprotect⟩ := ofExcept_bind_eq_ok.1 hfirst
    obtain ⟨classes, hnames, hclasses⟩ := ih (assemble_draft hprotect hs) hrest
    refine ⟨ty.internalName :: classes, ?_, hclasses⟩
    rw [List.mapM_cons, hty, hnames]
    rfl

theorem emitsArm_laid {arm : Option Node} (h : ctx.emitArm recur arm value ty σ = .ok u σ')
    (hs : σ.draft? = some s) : ∃ t gaps blocks, σ'.draft? = some t ∧ ctx.EmitsArm arm value ty s t ∧
      Laid ctx (.code [] [] []) s t gaps blocks := by
  have hlays : Lays ctx [] [] [] (ctx.emitArm recur arm value ty) := lays_emitArm hrecur ..
  obtain ⟨t, gaps, blocks, ht, hlaid⟩ := hlays h hs
  obtain ⟨depth, rfl⟩ := hrecur.bounded
  exact ⟨t, gaps, blocks, ht, ⟨depth, σ, σ', h, hs, ht⟩, hlaid⟩

theorem emitClause_part {start stop done : Label} {clause : RescueClause}
    (h : ctx.emitClause recur ctx.bindException start stop done value ty clause σ = .ok u σ')
    (hs : σ.draft? = some s) :
    ∃ part : ClausePart, part.clause = clause ∧ part.entry = s ∧
      part.Emitted start stop done ctx value ty ∧ σ'.draft? = some (part.next done) := by
  obtain ⟨τ1, hτ1, hrun1⟩ := mark_bind_draft h hs
  obtain ⟨_, τ2, hprotect, hrun2⟩ := bind_eq_ok.1 hrun1
  obtain ⟨classes, hcaught, hτ2⟩ := protect_draft _ hτ1 hprotect
  obtain ⟨_, τ3, hbind, hrun3⟩ := bind_eq_ok.1 hrun2
  obtain ⟨x, gaps, blocks, hτ3, hlaid⟩ := lays_bindException clause hbind hτ2
  obtain ⟨_, τ4, harm, hgoto⟩ := bind_eq_ok.1 hrun3
  obtain ⟨y, gaps', blocks', hτ4, hemits, hlaid'⟩ := emitsArm_laid hrecur harm hτ3
  refine ⟨⟨clause, classes, s, x, y, blocks ++ (blocks' ++ [])⟩, rfl, rfl, ?_,
    gotoIfReachable_draft hgoto hτ4⟩
  exact {
    caught := hcaught
    binds := ⟨τ2, τ3, hbind, hτ2, hτ3⟩
    arm := hemits
    laid := ⟨_, hlaid.trans ((hlaid'.weaken (by simp) (by simp) (by simp)).trans
      (.gotoIfReachable y (by simp)))⟩ }

theorem clauses_parts {start stop done : Label} (clauses : List RescueClause) {u : PUnit}
    (hs : σ.draft? = some s)
    (h : (clauses.forM (ctx.emitClause recur ctx.bindException start stop done value ty)) σ =
      .ok u σ') :
    ∃ parts t, σ'.draft? = some t ∧ parts.map ClausePart.clause = clauses ∧
      ctx.EmitsClauses start stop done value ty parts s t := by
  induction clauses generalizing σ s with
  | nil =>
    rw [(pure_eq_ok.1 h).2]
    exact ⟨[], s, hs, rfl, .nil s⟩
  | cons clause clauses ih =>
    obtain ⟨_, τ, hfirst, hrest⟩ := bind_eq_ok.1 h
    obtain ⟨part, rfl, rfl, hpart, hτ⟩ := emitClause_part hrecur hfirst hs
    obtain ⟨parts, t, ht, rfl, hparts⟩ := ih hτ hrest
    exact ⟨part :: parts, t, ht, rfl, .cons hpart hparts⟩

/-- The drafts on the way through the code of a rescue: behind its body, behind
its else clause, and behind its clauses. -/
structure RescueParts where
  body : Draft
  other : Draft
  clauses : List ClausePart
  last : Draft
  bodyBlocks : List Block
  otherBlocks : List Block

namespace RescueParts

variable (parts : RescueParts) (s : Draft)

/-- The labels of a rescue: the start and the end of its body. -/
def start : Label := s.body.nextLabel

@[inherit_doc start]
def stop : Label := s.body.label.2.nextLabel

def done : Label := s.body.label.2.label.2.nextLabel

def enter : Draft := s.edit fun a => a.label.2.label.2.label.2.place s.body.nextLabel

/-- The end of the body, where the else clause starts. -/
def close : Draft := parts.body.edit (·.place (stop s))

/-- The end of the else clause, where the handlers start. -/
def handlers : Draft := parts.other.edit (·.gotoIfReachable (done s))

/-- The end of the rescue, except for a value that it may lack. -/
def exit : Draft := parts.last.edit (·.place (done s))

structure Emitted (ctx : Context) (body : Node) (clauses : List RescueClause)
    (elseClause : Option Node) (value : Bool) (ty : Ty) : Prop where
  arm : ctx.EmitsArm (some body) (value && elseClause.isNone) ty (enter s) parts.body
  bodyLaid : ∃ gaps, Laid ctx (.code [] [] []) (enter s) parts.body gaps parts.bodyBlocks
  other : if elseClause.isSome then ctx.EmitsArm elseClause value ty (parts.close s) parts.other
    else parts.other = parts.close s
  otherLaid : ∃ gaps, Laid ctx (.code [] [done s] []) (parts.close s) (parts.handlers s) gaps
    parts.otherBlocks
  handled : parts.clauses.map ClausePart.clause = if s.offset =
    parts.body.offset then [] else clauses
  clauses : ctx.EmitsClauses (start s) (stop s) (done s) value ty parts.clauses
    (parts.handlers s) parts.last

def blocks : List Block :=
  parts.bodyBlocks ++ parts.otherBlocks ++
    parts.clauses.flatMap (·.allBlocks (done s) (s.offset, parts.body.offset) parts.last.offset)

omit hrecur in
theorem Emitted.laid {parts : RescueParts} {body : Node} {clauses : List RescueClause}
    {elseClause : Option Node} (h : parts.Emitted s ctx body clauses elseClause value ty) :
    ∃ gaps, Laid ctx (.code own goals slots) s (parts.exit s) gaps (parts.blocks s) := by
  obtain ⟨gaps, hbody⟩ := h.bodyLaid
  obtain ⟨gaps', hother⟩ := h.otherLaid
  have hclauses : ∃ gaps, Laid ctx (.clauses (start s) (stop s) (done s)
      (s.offset, parts.body.offset) parts.last.offset) (parts.handlers s) parts.last gaps
      (parts.clauses.flatMap (·.allBlocks (done s) (s.offset, parts.body.offset)
        parts.last.offset)) := by
    by_cases hempty : s.offset = parts.body.offset
    · have hnone : parts.clauses = [] := by simpa [hempty] using h.handled
      have hlast := h.clauses
      rw [hnone] at hlast ⊢
      generalize parts.handlers s = first at hlast ⊢
      cases hlast
      exact ⟨[], .noClauses _⟩
    · exact h.clauses.laid hempty _
  obtain ⟨gaps'', hclauses⟩ := hclauses
  exact ⟨_, .rescue _ _ _ rfl rfl rfl hbody hother hclauses⟩

end RescueParts

omit hrecur in
/-- A body is found to have no instructions if it ends at its start. -/
theorem rescueBody_empty {b : Draft} {gaps : List Gap} {blocks : List Block}
    (hlaid : Laid ctx (.code [] [] []) (RescueParts.enter s) b gaps blocks) :
    ((b.body.place (RescueParts.stop s)).position? (RescueParts.start s) == some b.offset) =
      decide (s.offset = b.offset) := by
  have hsize : s.body.nextLabel.id < s.body.label.2.label.2.label.2.labels.size := by
    rw [Assembler.size_labels_label, Assembler.size_labels_label, Assembler.size_labels_label]
    show s.body.labels.size < _
    omega
  have hstart : b.body.position? s.body.nextLabel = some s.offset := by
    rw [hlaid.grows.kept _ (by simpa [RescueParts.enter, Draft.edit] using hsize) nofun,
      RescueParts.enter, Draft.edit_body, Assembler.position?_place_self hsize]
    rfl
  have hother : s.body.nextLabel ≠ s.body.label.2.nextLabel := by simp [Assembler.nextLabel]
  rw [RescueParts.stop, RescueParts.start, Assembler.position?_place_of_ne hother, hstart]
  rfl

private theorem rescueTail_parts {start stop done : Label} {empty : Bool}
    {clauses : List RescueClause} (hs : σ.draft? = some s)
    (h : (do
      Emit.gotoIfReachable done
      if empty then ctx.note .debug "empty rescue region, no handlers"
      else clauses.forM (ctx.emitClause recur ctx.bindException start stop done value ty)
      Emit.place done
      fillValue want value) σ = .ok u σ') :
    ∃ parts t τ, parts.map ClausePart.clause = (if empty then [] else clauses) ∧
      ctx.EmitsClauses start stop done value ty parts (s.edit (·.gotoIfReachable done)) t ∧
      τ.draft? = some (t.edit (·.place done)) ∧ fillValue want value τ = .ok u σ' := by
  obtain ⟨_, τ, hgoto, hrun⟩ := bind_eq_ok.1 h
  have hτ := gotoIfReachable_draft hgoto hs
  have hclauses : ∃ parts t τ', parts.map ClausePart.clause = (if empty then [] else clauses) ∧
      ctx.EmitsClauses start stop done value ty parts (s.edit (·.gotoIfReachable done)) t ∧
      τ'.draft? = some t ∧ (do Emit.place done; fillValue want value) τ' = .ok u σ' := by
    cases empty with
    | true =>
      obtain ⟨_, τ', hnote, hrest⟩ := bind_eq_ok.1 hrun
      exact ⟨[], _, τ', rfl, .nil _, (Quiet.note _ _ hnote).trans hτ, hrest⟩
    | false =>
      obtain ⟨_, τ', hclauses, hrest⟩ := bind_eq_ok.1 hrun
      obtain ⟨parts, t, ht, hparts, hemits⟩ := clauses_parts hrecur clauses hτ hclauses
      exact ⟨parts, t, τ', hparts, hemits, ht, hrest⟩
  obtain ⟨parts, t, τ', hparts, hemits, ht, hrest⟩ := hclauses
  obtain ⟨_, τ'', hplace, hfill⟩ := bind_eq_ok.1 hrest
  exact ⟨parts, t, τ'', hparts, hemits, assemble_draft hplace ht, hfill⟩

theorem emitRegion_parts {body : Node} {region : RescueRegion}
    (h : ctx.emitRegion recur body value ty σ = .ok region σ') (hs : σ.draft? = some s) :
    ∃ b gaps blocks, σ'.draft? = some (b.edit (·.place (RescueParts.stop s))) ∧
      ctx.EmitsArm (some body) value ty (RescueParts.enter s) b ∧
      Laid ctx (.code [] [] []) (RescueParts.enter s) b gaps blocks ∧
      region = ⟨RescueParts.start s, RescueParts.stop s, RescueParts.done s,
        decide (s.offset = b.offset)⟩ := by
  obtain ⟨τ1, hτ1, hrun1⟩ := label_bind_draft h hs
  obtain ⟨τ2, hτ2, hrun2⟩ := label_bind_draft hrun1 hτ1
  obtain ⟨τ3, hτ3, hrun3⟩ := label_bind_draft hrun2 hτ2
  obtain ⟨τ4, hτ4, hrun4⟩ := assemble_bind_draft hrun3 hτ3
  obtain ⟨_, τ5, hbody, hrun5⟩ := bind_eq_ok.1 hrun4
  obtain ⟨b, gaps, blocks, hτ5, harm, hlaid⟩ := emitsArm_laid hrecur hbody hτ4
  obtain ⟨τ6, hτ6, hrun6⟩ := assemble_bind_draft hrun5 hτ5
  obtain ⟨empty, τ7, hempty, hrun7⟩ := bind_eq_ok.1 hrun6
  obtain ⟨hvalue, hτ7⟩ := reading_draft hempty hτ6
  obtain ⟨rfl, rfl⟩ := pure_eq_ok.1 hrun7
  rw [hvalue.trans (rescueBody_empty hlaid)]
  exact ⟨b, gaps, blocks, hτ7, harm, hlaid, rfl⟩

theorem emitRescue_parts {node body : Node} {clauses : List RescueClause} {elseClause : Option Node}
    (h : ctx.emitRescue recur ctx.bindException node body clauses elseClause want σ = .ok u σ')
    (hs : σ.draft? = some s) : ∃ ty parts τ, ctx.typeOf node = .ok ty ∧
      RescueParts.Emitted parts s ctx body clauses elseClause (want && !ty.isVoid) ty ∧
      τ.draft? = some (parts.exit s) ∧ fillValue want (want && !ty.isVoid) τ = .ok u σ' := by
  obtain ⟨ty, hty, hrun⟩ := ofExcept_bind_eq_ok.1 h
  obtain ⟨region, τ7, hregion, hrun7⟩ := bind_eq_ok.1 hrun
  obtain ⟨b, gaps, blocks, hτ7, harm, hlaid, rfl⟩ := emitRegion_parts hrecur hregion hs
  -- The else clause, if there is one, comes before the tail.
  split at hrun7
  · rename_i helse
    obtain ⟨_, τ8, hother, htail⟩ := bind_eq_ok.1 hrun7
    obtain ⟨e, gaps', blocks', hτ8, harm', hlaid'⟩ := emitsArm_laid hrecur hother hτ7
    obtain ⟨clauses, t, τ9, hclauses, hemits, hτ9, hfill⟩ := rescueTail_parts hrecur hτ8 htail
    refine ⟨ty, ⟨b, e, clauses, t, blocks, blocks' ++ []⟩, τ9, hty, ?_, hτ9, hfill⟩
    exact {
      arm := harm
      bodyLaid := ⟨gaps, hlaid⟩
      other := by rwa [if_pos helse]
      otherLaid := ⟨_, (hlaid'.weaken (by simp) (by simp) (by simp)).trans
        (.gotoIfReachable e (by simp))⟩
      handled := by simpa using hclauses
      clauses := hemits }
  · rename_i helse
    obtain ⟨clauses, t, τ9, hclauses, hemits, hτ9, hfill⟩ := rescueTail_parts hrecur hτ7 hrun7
    refine ⟨ty, ⟨b, b.edit (·.place (RescueParts.stop s)), clauses, t, blocks, []⟩, τ9, hty,
      ?_, hτ9, hfill⟩
    exact {
      arm := harm
      bodyLaid := ⟨gaps, hlaid⟩
      other := by rw [if_neg helse]; rfl
      otherLaid := ⟨[], .gotoIfReachable _ (by simp)⟩
      handled := by simpa using hclauses
      clauses := hemits }

theorem lays_emitRescue (body : Node) (clauses : List RescueClause) (elseClause : Option Node)
    (want : Bool) :
    Lays ctx own goals slots
      (ctx.emitRescue recur ctx.bindException node body clauses elseClause want) := by
  intro σ u σ' s h hs
  obtain ⟨ty, parts, τ, -, hparts, hτ, hfill⟩ := emitRescue_parts hrecur h hs
  obtain ⟨gaps, hlaid⟩ := hparts.laid
  obtain ⟨t, _, _, ht, hlast⟩ := lays_fillValue _ _ hfill hτ
  exact ⟨t, _, _, ht, hlaid.trans hlast⟩

/-! ## Ensure -/

omit hrecur in
private theorem protectRanges_draft {handler : Label} {u : PUnit}
    (ranges : List (Label × Label)) (hs : σ.draft? = some s)
    (h : (ranges.forM fun (start, stop) =>
      Emit.assemble (·.protect { start, stop, handler, catchType := none })) σ = .ok u σ') :
    σ'.draft? = some (s.edit (·.protectAll (ranges.map (.catchAll handler)))) := by
  induction ranges generalizing σ s with
  | nil =>
    rw [(pure_eq_ok.1 h).2, hs]
    rfl
  | cons range ranges ih =>
    obtain ⟨_, τ, hfirst, hrest⟩ := bind_eq_ok.1 h
    exact ih (assemble_draft hfirst hs) hrest

private theorem handler_laid {clause : Node} {ranges : List (Label × Label)} (hne : ranges ≠ [])
    (hs : σ.draft? = some s) (h : emitEnsureHandler recur clause ranges σ = .ok u σ') :
    ∃ handling t gaps blocks, σ'.draft? = some t ∧
      Laid ctx (.handler clause ranges handling) s t gaps blocks := by
  obtain ⟨τ1, hτ1, hrun1⟩ := label_bind_draft h hs
  obtain ⟨_, τ2, hgoto, hrun2⟩ := bind_eq_ok.1 hrun1
  have hτ2 := gotoIfReachable_draft hgoto hτ1
  obtain ⟨τ4, hτ4, hrun4⟩ := mark_bind_draft hrun2 hτ2
  obtain ⟨_, τ5, hprotect, hrun5⟩ := bind_eq_ok.1 hrun4
  have hτ5 := protectRanges_draft ranges hτ4 hprotect
  obtain ⟨slot, τ6, halloc, hrun6⟩ := bind_eq_ok.1 hrun5
  obtain ⟨hslot, hτ6⟩ := assembling_draft halloc hτ5
  obtain ⟨τ7, hτ7, hrun7⟩ := assemble_bind_draft hrun6 hτ6
  obtain ⟨b, hb⟩ : ∃ b, b = s.edit fun a => a.label.2.gotoIfReachable a.nextLabel := ⟨_, rfl⟩
  obtain rfl : slot = b.body.nextSlot := by
    rw [hslot, hb]
    exact Assembler.nextSlot_protectAll ..
  have henter : τ7.draft? = some (b.enterHandler ranges) := by
    rw [hτ7, hb]
    rfl
  obtain ⟨_, τ8, hclause, hrun8⟩ := bind_eq_ok.1 hrun7
  obtain ⟨t, gaps, blocks, hτ8, hlaid⟩ := hrecur.emit clause false hclause henter
  obtain ⟨_, τ9, hthrow, hplace'⟩ := bind_eq_ok.1 hrun8
  have hfinal := assemble_draft hplace' (assemble_draft hthrow hτ8)
  exact ⟨_, _, gaps, blocks, hfinal, .handled ranges hne hb hlaid
    (emits_of_emit hrecur hclause henter hτ8)⟩

omit hrecur in
theorem reachable_mark (a : Assembler) : a.mark.reachable = true := by
  have hmem : some a.code.size ∈ a.mark.labels := by
    have hpos := Assembler.position?_mark_nextLabel a
    simp only [Assembler.position?, Option.join_eq_some_iff] at hpos
    exact Array.mem_of_getElem? hpos
  rw [Assembler.reachable, Bool.or_eq_true]
  exact .inr (Array.any_eq_true'.2 ⟨_, hmem, by simp⟩)

omit hrecur in
theorem emitEnd_draft {start : Label} {recorded : List (Label × Label)}
    {ended : List (Label × Label) × Bool} (h : emitEnd start recorded σ = .ok ended σ')
    (hs : σ.draft? = some s) : σ'.draft? = some (s.edit (·.mark)) ∧
      ended = (s.body.mark.protectedRanges start s.body.nextLabel recorded, true) := by
  obtain ⟨τ2, hτ2, hrun2⟩ := mark_bind_draft h hs
  obtain ⟨ranges, τ3, hranges, hrun3⟩ := bind_eq_ok.1 hrun2
  obtain ⟨rfl, hτ3⟩ := reading_draft hranges hτ2
  obtain ⟨reach, τ4, hreach, hrun4⟩ := bind_eq_ok.1 hrun3
  obtain ⟨rfl, hτ4⟩ := reading_draft hreach hτ3
  obtain ⟨rfl, rfl⟩ := pure_eq_ok.1 hrun4
  -- The label at the end of the body makes the code behind it reachable.
  exact ⟨hτ4, congrArg _ (reachable_mark s.body)⟩

/-- The drafts on the way through the code of an ensure: behind its body, behind the
copy of the clause that follows, and behind its handler. -/
structure EnsureParts where
  body : Assembler
  recorded : List (Label × Label)
  jumps : JumpScopes
  normal : Draft
  handling : Option Handling
  last : Draft
  gaps : List Gap
  bodyBlocks : List Block
  normalBlocks : List Block
  handlerBlocks : List Block

namespace EnsureParts

variable (parts : EnsureParts) (s : Draft) (clause : Node)

def enter : Draft := ⟨s.body.mark, .ensure clause [] :: s.jumps⟩

/-- The end of the body, with what its jumps recorded. -/
def finish : Draft := ⟨parts.body, .ensure clause parts.recorded :: parts.jumps⟩

/-- The end of the body, where the copy of the clause starts. -/
def close : Draft := ⟨parts.body.mark, parts.jumps⟩

def block : EnsureBlock where
  clause := clause
  outer := s.jumps
  start := s.offset
  gaps := parts.gaps.filter fun g => g.depth == s.jumps.length
  normal := ⟨clause, parts.body.offset, parts.normal.offset⟩
  handling := parts.handling
  stop := parts.last.offset

def blocks : List Block :=
  parts.bodyBlocks ++ parts.normalBlocks ++ .ensure (parts.block s clause) :: parts.handlerBlocks

structure Emitted (ctx : Context) (body : Node) (value : Bool) (ty : Ty) : Prop where
  arm : ctx.EmitsArm (some body) value ty (enter s clause) (parts.finish clause)
  bodyLaid : Laid ctx (.code [] [] []) (enter s clause) (parts.finish clause) parts.gaps
    parts.bodyBlocks
  copy : ctx.Emits clause false parts.close parts.normal
  normalLaid : ∃ gaps, Laid ctx (.code [] [] []) parts.close parts.normal gaps parts.normalBlocks
  handlerLaid : ∃ gaps, Laid ctx (.handler clause (parts.body.mark.protectedRanges
      s.body.nextLabel parts.body.nextLabel parts.recorded) parts.handling)
    parts.normal parts.last gaps parts.handlerBlocks

omit hrecur in
theorem Emitted.laid {parts : EnsureParts} {body clause : Node}
    (h : parts.Emitted s clause ctx body value ty) :
    ∃ gaps, Laid ctx (.code own goals slots) s parts.last gaps (parts.blocks s clause) := by
  obtain ⟨gaps, hnormal⟩ := h.normalLaid
  obtain ⟨gaps', hhandler⟩ := h.handlerLaid
  exact ⟨_, .ensure clause parts.recorded h.bodyLaid hnormal h.copy hhandler⟩

end EnsureParts

/-- The part of an ensure behind its body. -/
private theorem ensureTail_laid {start : Label} {recorded : List (Label × Label)} {clause : Node}
    {b : Assembler} {js : JumpScopes}
    (hs : σ.draft? = some ⟨b, js⟩)
    (h : (do
      let ended ← emitEnd start recorded
      if ended.2 then recur.emit clause false
      if ended.1.isEmpty then ctx.note .debug "empty ensure region, no handler"
      else emitEnsureHandler recur clause ended.1
      fillValue want value) σ = .ok u σ') :
    ∃ n gaps blocks handling t gaps' blocks' τ,
      Laid ctx (.code [] [] []) ⟨b.mark, js⟩ n gaps blocks ∧
      ctx.Emits clause false ⟨b.mark, js⟩ n ∧
      Laid ctx (.handler clause (b.mark.protectedRanges start b.nextLabel recorded) handling) n t
        gaps' blocks' ∧
      τ.draft? = some t ∧ fillValue want value τ = .ok u σ' := by
  obtain ⟨⟨ranges, _⟩, τ4, hend, hrun4⟩ := bind_eq_ok.1 h
  obtain ⟨hτ4, heq⟩ := emitEnd_draft hend hs
  obtain ⟨hranges, rfl⟩ := Prod.mk.inj heq
  obtain ⟨_, τ5, hnormal, hrun5⟩ := bind_eq_ok.1 hrun4
  obtain ⟨n, gaps, blocks, hn, hlaid⟩ := hrecur.emit clause false hnormal hτ4
  have hemits := emits_of_emit hrecur hnormal hτ4 hn
  have hhandler : ∃ handling t gaps' blocks' τ, τ.draft? = some t ∧
      Laid ctx (.handler clause ranges handling) n t gaps' blocks' ∧
      fillValue want value τ = .ok u σ' := by
    by_cases hempty : ranges.isEmpty
    · simp only [hempty, if_true] at hrun5
      obtain ⟨_, τ6, hnote, hfill⟩ := bind_eq_ok.1 hrun5
      rw [List.isEmpty_iff.1 hempty]
      exact ⟨none, n, [], [], τ6, (Quiet.note _ _ hnote).trans hn, .unhandled n, hfill⟩
    · simp only [hempty] at hrun5
      obtain ⟨_, τ6, hhandler, hfill⟩ := bind_eq_ok.1 hrun5
      obtain ⟨handling, t, gaps', blocks', ht, hlaid'⟩ :=
        handler_laid hrecur (by simpa using hempty) hn hhandler
      exact ⟨handling, t, gaps', blocks', τ6, ht, hlaid', hfill⟩
  obtain ⟨handling, t, gaps', blocks', τ6, ht, hlaid', hfill⟩ := hhandler
  exact ⟨n, gaps, blocks, handling, t, gaps', blocks', τ6, hlaid, hemits, hranges ▸ hlaid', ht,
    hfill⟩

theorem emitEnsure_parts {node body clause : Node}
    (h : ctx.emitEnsure recur node body clause want σ = .ok u σ') (hs : σ.draft? = some s) :
    ∃ ty parts τ, ctx.typeOf node = .ok ty ∧
      EnsureParts.Emitted parts s clause ctx body (want && !ty.isVoid) ty ∧
      τ.draft? = some parts.last ∧ fillValue want (want && !ty.isVoid) τ = .ok u σ' := by
  obtain ⟨ty, hty, hrun⟩ := ofExcept_bind_eq_ok.1 h
  obtain ⟨τ2, hτ2, hrun2⟩ := mark_bind_draft hrun hs
  obtain ⟨scope, τ3, hbody, hrun3⟩ := bind_eq_ok.1 hrun2
  obtain ⟨τ, haction, rfl, rfl⟩ := openScope_eq_ok.1 hbody
  have hopen := Emission.draft?_setJumps hτ2 (.ensure clause [] :: τ2.jumps)
  rw [Emission.jumps_of_draft? hτ2] at hopen haction
  obtain ⟨⟨b, js⟩, gaps, blocks, hτ, harm, hlaid⟩ := emitsArm_laid hrecur haction hopen
  obtain ⟨recorded, js', rfl⟩ : ∃ recorded js', js = .ensure clause recorded :: js' :=
    ⟨_, _, (hlaid.records trivial).1.trans (JumpScopes.recordAll_cons_ensure ..)⟩
  have hpop := Emission.draft?_setJumps hτ (List.tail τ.jumps)
  rw [Emission.jumps_of_draft? hτ] at hrun3 hpop
  obtain ⟨n, gaps', blocks', handling, t, gaps'', blocks'', τ', hlaid', hemits, hlaid'', ht,
    hfill⟩ := ensureTail_laid hrecur hpop hrun3
  refine ⟨ty, ⟨b, recorded, js', n, handling, t, gaps, blocks, blocks', blocks''⟩, τ', hty, ?_, ht,
    hfill⟩
  exact {
    arm := harm
    bodyLaid := hlaid
    copy := hemits
    normalLaid := ⟨gaps', hlaid'⟩
    handlerLaid := ⟨gaps'', hlaid''⟩ }

theorem lays_emitEnsure (body clause : Node) (want : Bool) :
    Lays ctx own goals slots (ctx.emitEnsure recur node body clause want) := by
  intro σ u σ' s h hs
  obtain ⟨ty, parts, τ, -, hparts, hτ, hfill⟩ := emitEnsure_parts hrecur h hs
  obtain ⟨gaps, hlaid⟩ := hparts.laid
  obtain ⟨t, _, _, ht, hlast⟩ := lays_fillValue _ _ hfill hτ
  exact ⟨t, _, _, ht, hlaid.trans hlast⟩

end Context

end ClassBackend
