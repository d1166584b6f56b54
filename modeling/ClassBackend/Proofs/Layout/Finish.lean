import ClassBackend.Proofs.Layout.Table

/-!
# Methods can be finished

Finishing a method refuses a jump to a label that was not placed, and a region
that protects nothing. Neither occurs in code that was laid down: whatever jumps
to a label comes before the label is placed or goes to an open loop, which
places its labels (`Laid.settled`), and a region is protected only where there is
something to protect. So a method that was emitted up to its end can be finished
(`Laid.exists_finish`).
-/

namespace ClassBackend

/-- The label may be jumped to, belongs to an open loop, or has been made and
placed. -/
def Mode.Settled (mode : Mode) (s t : Draft) (l : Label) : Prop :=
  l ∈ mode.aims ∨ (∃ k, s.jumps.OpensAt k l) ∨
    s.body.labels.size ≤ l.id ∧ (t.body.position? l).isSome

theorem Mode.Settled.mono {mode mode' : Mode} {s t s' t' : Draft} {l : Label}
    (h : mode.Settled s t l) (haims : l ∈ mode.aims → mode'.Settled s' t' l)
    (hopens : ∀ k, s.jumps.OpensAt k l → s'.jumps.OpensAt k l)
    (hsize : s'.body.labels.size ≤ s.body.labels.size)
    (hstays : (t.body.position? l).isSome → (t'.body.position? l).isSome) :
    mode'.Settled s' t' l := by
  rcases h with hmem | ⟨k, hk⟩ | ⟨hmade, hplaced⟩
  · exact haims hmem
  · exact .inr (.inl ⟨k, hopens k hk⟩)
  · exact .inr (.inr ⟨hsize.trans hmade, hstays hplaced⟩)

/-- The second draft adds code whose jumps are settled, opens no loop, and keeps the
labels that are placed. -/
structure Settles (mode : Mode) (s t : Draft) : Prop where
  code : Assembler.Adds (fun i => ∀ l, i.jumpTarget? = some l → mode.Settled s t l) s.body t.body
  opens : ∀ k l, t.jumps.OpensAt k l → s.jumps.OpensAt k l
  size : s.body.labels.size ≤ t.body.labels.size
  stays : ∀ l, (s.body.position? l).isSome → (t.body.position? l).isSome

namespace Settles

variable {mode mode' : Mode} {s t u : Draft} {own : List Label}

theorem trans (h : Settles mode s t) (k : Settles mode t u) : Settles mode s u where
  code := by
    refine (h.code.imp fun i hsettled l hl => ?_).trans (k.code.imp fun i hsettled l hl => ?_)
    · exact (hsettled l hl).mono .inl (fun _ hk => hk) le_rfl (k.stays l)
    · exact (hsettled l hl).mono .inl (h.opens · l) h.size id
  opens := fun n l hopens => h.opens n l (k.opens n l hopens)
  size := h.size.trans k.size
  stays := fun l hplaced => k.stays l (h.stays l hplaced)

theorem mono (h : Settles mode s t) (haims : ∀ l ∈ mode.aims, mode'.Settled s t l) :
    Settles mode' s t :=
  { h with code := h.code.imp fun _ hsettled l hl =>
      (hsettled l hl).mono (haims l) (fun _ hk => hk) le_rfl id }

/-- Code that has no jumps to hand on may stand in code of any kind. -/
theorem closed (h : Settles mode s t) (haims : mode.aims = []) : Settles mode' s t :=
  h.mono fun l hl => by simp [haims] at hl

theorem adds (is : List Instruction) (hgrows : Grows own s.body t.body)
    (hcode : t.body.code.toList = s.body.code.toList ++ is)
    (hopens : ∀ k l, t.jumps.OpensAt k l → s.jumps.OpensAt k l)
    (haims : ∀ i ∈ is, ∀ l, i.jumpTarget? = some l → l ∈ mode.aims) : Settles mode s t :=
  ⟨⟨is, hcode, fun i hi l hl => .inl (haims i hi l hl)⟩, hopens, hgrows.size, hgrows.stays⟩

theorem quiet (hgrows : Grows own s.body t.body) (hcode : t.body.code = s.body.code)
    (hopens : ∀ k l, t.jumps.OpensAt k l → s.jumps.OpensAt k l) : Settles mode s t :=
  adds [] hgrows (by simp [hcode]) hopens nofun

theorem refl (s : Draft) : Settles mode s s := quiet (Grows.refl [] _) rfl fun _ _ => id

theorem edit {change : Assembler → Assembler} (hgrows : Grows own s.body (change s.body))
    (hcode : (change s.body).code = s.body.code) : Settles mode s (s.edit change) :=
  quiet hgrows hcode fun _ _ => id

theorem emitAll (is : List Instruction)
    (haims : ∀ i ∈ is, ∀ l, i.jumpTarget? = some l → l ∈ mode.aims) :
    Settles mode s (s.edit (·.emitAll is)) :=
  adds is (Grows.emitAll [] _ is) (s.body.code_emitAll is) (fun _ _ => id) haims

theorem gotoIfReachable {l : Label} (h : l ∈ mode.aims) :
    Settles mode s (s.edit (·.gotoIfReachable l)) := by
  unfold Assembler.gotoIfReachable
  by_cases hreachable : s.body.reachable
  · simp only [Draft.edit, if_pos hreachable]
    exact emitAll [.goto l] (by simpa [Instruction.jumpTarget?] using h)
  · simpa [Draft.edit, hreachable] using refl s

end Settles

namespace Laid

variable {ctx : Context} {mode : Mode} {s t : Draft} {gaps : List Gap} {blocks : List Block}

theorem settles_of_parks {departure : Departure} {parked : Draft}
    (h : Parks departure s parked) : Settles mode s parked := by
  have hgrows := grows_of_parks h
  cases h with
  | value kind ty =>
    exact .adds [.store kind s.body.nextSlot] hgrows (by simp) (fun _ _ => id)
      (by simp [Instruction.jumpTarget?])
  | _ => exact .refl _

theorem settles_enterHandler (s : Draft) (ranges : List (Label × Label)) :
    Settles mode s (s.enterHandler ranges) :=
  .adds [.store .ref s.body.nextSlot] (grows_enterHandler s ranges)
    (by simp [Draft.enterHandler]) (fun _ _ => id) (by simp [Instruction.jumpTarget?])

theorem settles (h : Laid ctx mode s t gaps blocks) (hpending : mode.Pending s.jumps) :
    Settles mode s t := by
  induction h with
  | trans _ _ ih ih' => exact (ih trivial).trans (ih' trivial)
  | weaken _ hown hgoals _ ih =>
    refine (ih trivial).mono fun l hmem => .inl ?_
    rcases List.mem_append.1 hmem with hmem | hmem
    · exact List.mem_append_left _ (hown hmem)
    · exact hgoals hmem
  | line s n => exact .edit (Grows.line [] _ n) (by simp)
  | part node _ _ _ ih =>
    exact (Settles.edit (Grows.visit [] _ node) rfl).trans
      ((ih trivial).mono fun _ hmem => absurd hmem List.not_mem_nil)
  | named name ty _ ih =>
    exact (Settles.edit (Grows.namedLocal [] _ name ty) (by simp)).trans
      ((ih trivial).mono fun _ => .inl)
  | temporary ty _ ih =>
    exact (Settles.edit (Grows.allocate [] _ ty) rfl).trans ((ih trivial).mono fun _ => .inl)
  | instruction s i hadmits =>
    refine .emitAll [i] fun j hj l hl => ?_
    obtain rfl := List.mem_singleton.1 hj
    exact List.mem_append.2 (hadmits.aims l hl)
  | label _ hplaced ih =>
    refine ((Settles.edit (Grows.label [] _) rfl).trans (ih trivial)).mono fun l hmem => ?_
    rcases List.mem_cons.1 hmem with rfl | hmem
    · exact .inr (.inr ⟨le_rfl, hplaced⟩)
    · exact .inl hmem
  | spare s => exact .edit (Grows.label [] _) rfl
  | place s l hl => exact .edit (Grows.place _ hl) rfl
  | loop labels hown h ih =>
    have hrec := (Laid.loop labels hown h).records trivial
    refine ⟨(ih trivial).code.imp fun i hsettled l hl => ?_, fun _ _ => hrec.opensAt,
      (ih trivial).size, (ih trivial).stays⟩
    rcases hsettled l hl with hmem | ⟨k, hk⟩ | hplaced
    · exact .inl hmem
    · rcases JumpScopes.opensAt_of_loop hk with hk | ⟨jump, rfl⟩
      · exact .inr (.inl ⟨k, hk⟩)
      · exact .inl (List.mem_append_left _ (hown jump))
    · exact .inr (.inr hplaced)
  | @depart _ _ _ s parked t _ _ departure pending starts made hfinds hparks h ih =>
    have hall : ∀ x ∈ pending.ensures, parked.jumps.clauseAt? x.1 = some x.2 := fun x hx =>
      jumps_of_parks hparks ▸ (((departure.ensures_of_finds hfinds).1 x.1 x.2).1 hx).2
    -- until its target is known to be open, the departure is one of the goals
    let leaving : Mode := .code [] (departure.code.filterMap (·.jumpTarget?)) []
    have hcopies : Settles leaving s t := (settles_of_parks hparks).trans ((ih hall).closed rfl)
    have hleaves := hcopies.trans (.emitAll departure.code fun i hi l hl =>
      List.mem_filterMap.2 ⟨i, hi, hl⟩)
    refine (hleaves.trans (.quiet (grows_closeGaps _ _) (Draft.code_closeGaps ..)
      fun k l hk => (JumpScopes.opensAt_recordAll ..).1 hk)).mono fun l hl => .inr (.inl ?_)
    obtain ⟨i, hi, hl⟩ := List.mem_filterMap.1 hl
    exact opensAt_of_departure hfinds hi hl
  | @rescue own goals slots s b t u _ _ _ _ _ _ start stop done _ _ hdone _ _ _ ih ih' ih'' =>
    let inside : Mode := .code [] [done] []
    have hstart : Settles inside s (s.edit fun a => a.label.2.label.2.label.2.place start) :=
      .edit ((((Grows.label [start] _).trans (Grows.label _ _)).trans (Grows.label _ _)).trans
        (Grows.place _ (List.mem_singleton_self _))) rfl
    have hstop : Settles inside b (b.edit (·.place stop)) :=
      .edit (Grows.place _ (List.mem_singleton_self _)) rfl
    have hend : Settles inside u (u.edit (·.place done)) :=
      .edit (Grows.place _ (List.mem_singleton_self _)) rfl
    have hclauses : Settles inside (s.edit fun a => a.label.2.label.2.label.2.place start) u :=
      ((((ih trivial).closed rfl).trans hstop).trans (ih' trivial)).trans
        ((ih'' trivial).mono fun _ => .inl)
    refine ((hstart.trans hclauses).trans hend).mono fun l hl => ?_
    obtain rfl : l = done := List.mem_singleton.1 hl
    have hsize := hclauses.size
    simp only [Draft.edit_body, Assembler.size_labels_place, Assembler.size_labels_label] at hsize
    have hmade : s.body.labels.size ≤ l.id ∧ l.id < u.body.labels.size := by
      simp only [hdone, Assembler.nextLabel, Assembler.size_labels_label]
      omega
    refine .inr (.inr ⟨hmade.1, ?_⟩)
    rw [Draft.edit_body, Assembler.position?_place_self hmade.2]
    rfl
  | @clause start stop done range finish s _ _ _ _ _ _ classes _ _ _ ih ih' =>
    have hstart : Settles (.clauses start stop done range finish) s (s.edit fun a =>
        a.mark.protectAll (classes.map (.catching start stop a.nextLabel))) :=
      .edit (grows_enterClause s.body start stop classes) (by simp)
    exact (hstart.trans ((ih trivial).mono fun _ => .inl)).trans (ih' trivial)
  | @ensure _ _ _ a b js js' _ _ _ _ _ _ _ _ _ clause recorded _ _ _ _ ih ih' ih'' =>
    have hopen : Settles (.code [] [] []) ⟨a, js⟩ ⟨a.mark, .ensure clause [] :: js⟩ :=
      .quiet (Grows.mark [] a) rfl fun _ _ => JumpScopes.opensAt_of_ensure
    have hclose : Settles (.code [] [] []) ⟨b, .ensure clause recorded :: js'⟩ ⟨b.mark, js'⟩ :=
      .quiet (Grows.mark [] b) rfl fun _ _ hk =>
        (JumpScopes.opensAt_cons_of_lt _ (JumpScopes.lt_of_opensAt hk)).2 hk
    have hbody := (hopen.trans (ih trivial)).trans hclose
    exact ((hbody.trans (ih' trivial)).trans ((ih'' trivial).closed rfl)).closed rfl
  | @handled _ s b t _ _ ranges _ hb _ _ ih =>
    let skipping : Mode := .code [] [s.body.nextLabel] []
    have hlabel : Settles skipping s (s.edit (·.label.2)) := .edit (Grows.label [] _) rfl
    have hgoto : Settles skipping (s.edit (·.label.2)) b := by
      rw [hb]
      exact .gotoIfReachable (List.mem_singleton_self _)
    have hcopy := (hgoto.trans (settles_enterHandler b ranges)).trans ((ih trivial).closed rfl)
    let thrown := t.edit (·.emitAll [.load .ref b.body.nextSlot, .athrow])
    have hthrow : Settles skipping (s.edit (·.label.2)) thrown :=
      hcopy.trans (.emitAll _ (by simp [Instruction.jumpTarget?]))
    have hend : Settles skipping thrown (thrown.edit (·.place s.body.nextLabel)) :=
      .edit (Grows.place _ (List.mem_singleton_self _)) rfl
    refine ((hlabel.trans hthrow).trans hend).mono fun l hl => ?_
    obtain rfl : l = s.body.nextLabel := List.mem_singleton.1 hl
    have hsize : s.body.nextLabel.id < thrown.body.labels.size :=
      Nat.lt_of_succ_le (by simpa [Assembler.nextLabel] using hthrow.size)
    refine .inr (.inr ⟨le_rfl, ?_⟩)
    rw [Draft.edit_body, Assembler.position?_place_self hsize]
    rfl
  | @copy s b js _ ensures _ _ _ _ _ _ depth clause h _ _ ih ih' =>
    have hrec := (h.records trivial).restore
    have hopen : Settles (.code [] [] []) s ⟨s.body.mark, (s.jumps.detach depth).2⟩ :=
      .quiet (Grows.mark [] _) rfl fun _ _ => JumpScopes.opensAt_of_detach
    have hclause := hopen.trans (ih trivial)
    have hbody : Settles (.code [] [] []) s ⟨b, js.restore (s.jumps.detach depth).1⟩ :=
      ⟨hclause.code, fun _ _ => hrec.opensAt, hclause.size, hclause.stays⟩
    have hrest := ih' fun x hx => by
      have hx := hpending x (List.mem_cons_of_mem _ hx)
      rwa [hrec.1, JumpScopes.clauseAt?_recordAll]
    exact (hbody.trans (hrest.closed rfl)).closed rfl
  | _ => exact .refl _

/-- Every jump goes to a label that is handed to the code, to an open loop, or to
a label of its own that is placed. -/
theorem settled (h : Laid ctx mode s t gaps blocks) (hpending : mode.Pending s.jumps) :
    ∀ p l, s.offset ≤ p → t.body.JumpsTo p l → mode.Settled s t l := by
  rintro p l hp ⟨i, hi, hl⟩
  exact (h.settles hpending).code.holds hp hi l hl

end Laid

/-! ## Finishing -/

namespace Assembler

variable {a : Assembler}

/-- If all labels that are jumped to have been placed and the regions can be
resolved, the method can be finished. -/
theorem exists_finish_of_placed {table : List ExceptionEntry}
    (hjumps : ∀ p l, a.JumpsTo p l → (a.position? l).isSome)
    (htable : a.regions.mapM a.resolveRegion = .ok table) : ∃ method, a.finish = .ok method := by
  have hcode : a.checkJumps = .ok () := by
    refine forM_eq_ok_iff.2 fun i hi => ?_
    split
    · rename_i l hl
      obtain ⟨p, hp⟩ := List.getElem?_of_mem hi
      rw [Array.getElem?_toList] at hp
      obtain ⟨q, hq⟩ := Option.isSome_iff_exists.1 (hjumps p l ⟨i, hp, hl⟩)
      rw [resolve, hq]
      rfl
    · rfl
  rw [finish, hcode, htable]
  exact ⟨_, rfl⟩

theorem exists_finish_of_straight (hcode : a.code = #[]) (hregions : a.regions = [])
    {is : List Instruction} (his : (is.all fun i => i.jumpTarget?.isNone) = true) :
    ∃ method, (a.emitAll is).finish = .ok method := by
  have hunprotected : (a.emitAll is).regions = [] := by
    clear his hcode
    induction is generalizing a with
    | nil => exact hregions
    | cons i is ih => exact ih (a := a.emit i) hregions
  have htable : (a.emitAll is).regions.mapM (a.emitAll is).resolveRegion = .ok [] := by
    rw [hunprotected]
    rfl
  refine exists_finish_of_placed (fun p l hjump => ?_) htable
  obtain ⟨i, hi, hl⟩ := hjump
  have hmem := mem_of_getElem?_emitAll hi (by simp [offset, hcode])
  have hnone := List.all_eq_true.1 his i hmem
  rw [hl] at hnone
  cases hnone

end Assembler

theorem Laid.exists_finish {ctx : Context} {a : Assembler} {t : Draft} {gaps : List Gap}
    {blocks : List Block} (h : Laid ctx (.code [] [] []) ⟨a, [.method]⟩ t gaps blocks)
    (hcode : a.code = #[]) (hregions : a.regions = []) :
    ∃ method, t.body.finish = .ok method := by
  refine Assembler.exists_finish_of_placed (fun p l hjump => ?_) (h.mapM_resolveRegion hregions)
  have hstart : (⟨a, [.method]⟩ : Draft).offset ≤ p := by
    simp [Draft.offset, Assembler.offset, hcode]
  rcases h.settled trivial p l hstart hjump with hmem | ⟨k, hk⟩ | ⟨-, hplaced⟩
  · cases hmem
  · cases k <;> simp [JumpScopes.OpensAt, JumpScopes.loopLabels?, JumpScopes.atDepth?] at hk
  · exact hplaced

end ClassBackend
