import ClassBackend.Proofs.Layout.Dispatch
import ClassBackend.Proofs.Layout.Part

/-!
# The nodes of a method

A method keeps a record of the nodes whose code is in it. A node is recorded at an
instruction exactly if its code was emitted from there on and is a part of the method
(`Program.mem_nodes_iff`). So what is known of the code of a node wherever it is a part
of a method, is known of every node that a compiled program has code of.
-/

namespace ClassBackend

/-- The code of the node starts here in the method. -/
def MethodInfo.Has (method : MethodInfo) (ctx : Context) (node : Node) (start : Nat) : Prop :=
  ∃ want s t, ctx.Emits node want s t ∧ s.offset = start ∧ method.Includes s t

/-- The labels that code may place were made before it, and those that end the regions it
protects stand before it. -/
def Mode.Known (method : MethodInfo) (s : Draft) : Mode → Prop
  | .code own _ _ => ∀ l ∈ own, l.id < s.body.labels.size
  | .clauses _ stop _ _ _ => ∃ q, method.target? stop = some q ∧ q ≤ s.offset
  | .handler _ ranges _ =>
    ∀ range ∈ ranges, ∃ q, method.target? range.2 = some q ∧ q ≤ s.offset
  | .copies .. => True

theorem Mode.Known.none {method : MethodInfo} {s : Draft} {goals : List Label}
    {slots : List UInt16} : (Mode.code [] goals slots).Known method s := List.forall_mem_nil _

/-- Everything that is protected on the way from one draft to another ends there, and the
nodes that are recorded on the way have their code in the method. -/
structure Visits (ctx : Context) (method : MethodInfo) (s t : Draft) : Prop where
  closed : method.Closes t
  nodes : ∀ node start, (node, start) ∈ t.body.nodes →
    (node, start) ∈ s.body.nodes ∨ method.Has ctx node start

namespace Visits

variable {ctx : Context} {method : MethodInfo} {s t u : Draft}

theorem quiet (hclosed : method.Closes s) (hregions : t.body.regions = s.body.regions)
    (hnodes : t.body.nodes = s.body.nodes) (hle : s.offset ≤ t.offset) :
    Visits ctx method s t where
  closed := fun r hr => by
    obtain ⟨q, hq, hqs⟩ := hclosed r (hregions ▸ hr)
    exact ⟨q, hq, hqs.trans hle⟩
  nodes := fun _ _ h => .inl (hnodes ▸ h)

theorem trans (h : Visits ctx method s t) (h' : Visits ctx method t u) :
    Visits ctx method s u where
  closed := h'.closed
  nodes := fun node start hmem => (h'.nodes node start hmem).elim (h.nodes node start) .inr

end Visits

theorem MethodInfo.Closes.protect {method : MethodInfo} {s t : Draft} {regions : List Region}
    (h : method.Closes s) (hregions : t.body.regions = s.body.regions ++ regions)
    (hle : s.offset ≤ t.offset)
    (hnew : ∀ r ∈ regions, ∃ q, method.target? r.stop = some q ∧ q ≤ s.offset) :
    method.Closes t := by
  intro r hr
  rw [hregions] at hr
  obtain ⟨q, hq, hqs⟩ := (List.mem_append.1 hr).elim (h r) (hnew r)
  exact ⟨q, hq, hqs.trans hle⟩

namespace Laid

variable {ctx : Context} {method : MethodInfo} {mode : Mode} {s t : Draft} {gaps : List Gap}
  {blocks : List Block}

/-- The ranges that an ensure protects end before its normal copy of the clause does. -/
theorem known_ranges {a b : Assembler} {js js' : JumpScopes} {n : Draft} {clause : Node}
    {goals : List Label} {slots : List UInt16} {recorded : List (Label × Label)}
    (h : Laid ctx (.code [] goals slots) ⟨a.mark, .ensure clause [] :: js⟩
      ⟨b, .ensure clause recorded :: js'⟩ gaps blocks)
    (hnormal : Grows [] b.mark n.body) (hend : Grows [] n.body t.body)
    (hmethod : method.Extends ⟨a, js⟩ t) :
    ∀ range ∈ b.mark.protectedRanges a.nextLabel b.nextLabel recorded,
      ∃ q, method.target? range.2 = some q ∧ q ≤ n.offset := by
  intro range hrange
  have hmark := Grows.mark [] a
  have hbody : Grows [] a.mark b := h.grows
  obtain ⟨-, q, hq⟩ := placed_of_mem_protectedRanges hrange
  rw [h.recorded_eq trivial] at hrange
  have hgaps : ∀ g ∈ gaps.filter (fun g => g.depth == js.length),
      g.Marked a.labels.size b.mark := fun g hg =>
    (((h.table (List.forall_mem_nil _) trivial).1 g (List.mem_of_mem_filter hg)).grow
      (Grows.mark [] b) (List.forall_mem_nil _)).mono hmark.size
  have hfresh := (fresh_of_mem_protectedRanges le_rfl (hmark.trans hbody).size hgaps hrange).2
  have hbounds := ((hmark.trans hbody).trans (Grows.mark [] b)).bounds_of_made hfresh hq
  exact ⟨q, hmethod.target hfresh ((hnormal.trans hend).position?_of_nil hq),
    hbounds.2.trans hnormal.offset_le⟩

/-- Every part of what is laid down is seen as part of the method, so what is laid down
protects only ranges that end in it, and records only nodes that have their code there. -/
theorem visits (h : Laid ctx mode s t gaps blocks) (hmethod : method.Extends s t)
    (hknown : mode.Known method s) (hclosed : method.Closes s) : Visits ctx method s t := by
  induction h with
  | refl | noClauses | unhandled | noCopies => exact .quiet hclosed rfl rfl le_rfl
  | @trans own _ _ s t u _ _ _ _ h h' ih ih' =>
    have hfirst := ih (hmethod.part le_rfl h'.grows hknown) hknown hclosed
    exact hfirst.trans (ih' (hmethod.rest h.grows.size)
      (fun l hl => (hknown l hl).trans_le h.grows.size) hfirst.closed)
  | weaken _ hown _ _ ih => exact ih hmethod (fun l hl => hknown l (hown hl)) hclosed
  | line s n => exact .quiet hclosed (by simp) (by simp) (by simp)
  | part node want hemits _ ih =>
    have hinner := ih (hmethod.rest le_rfl) .none hclosed
    refine ⟨hinner.closed, fun other start hmem => ?_⟩
    rcases hinner.nodes other start hmem with hvisited | hhas
    · rcases List.mem_cons.1 hvisited with hself | hearlier
      · cases hself
        exact .inr ⟨want, _, _, hemits, rfl, hmethod, hclosed⟩
      · exact .inl hearlier
    · exact .inr hhas
  | @named own goals slots s t _ _ name ty _ ih =>
    have hfirst : Visits ctx method s (s.edit fun a => (a.namedLocal name ty).2) :=
      .quiet hclosed (by simp) (by simp) (by simp)
    exact hfirst.trans (ih (hmethod.rest (by simp))
      (fun l hl => by simpa using hknown l hl) hfirst.closed)
  | @temporary own goals slots s t _ _ ty _ ih =>
    have hfirst : Visits ctx method s (s.edit fun a => (a.allocate ty).2) :=
      .quiet hclosed rfl rfl le_rfl
    exact hfirst.trans (ih (hmethod.rest le_rfl) hknown hfirst.closed)
  | instruction s i => exact .quiet hclosed rfl rfl (by simp)
  | @label own goals slots s t _ _ _ _ ih =>
    have hfirst : Visits ctx method s (s.edit fun a => a.label.2) :=
      .quiet hclosed rfl rfl le_rfl
    refine hfirst.trans (ih (hmethod.rest (by simp)) (fun l hl => ?_) hfirst.closed)
    rcases List.mem_cons.1 hl with rfl | hl
    · simp [Assembler.nextLabel]
    · exact (hknown l hl).trans_le (by simp)
  | spare s => exact .quiet hclosed rfl rfl le_rfl
  | place s l => exact .quiet hclosed rfl rfl le_rfl
  | loop labels _ _ ih =>
    have hinner := ih hmethod hknown hclosed
    exact ⟨hinner.closed, hinner.nodes⟩
  | @depart _ _ _ s parked t _ _ departure pending starts made _ hparks h ih =>
    have hfirst : Visits ctx method s parked := .quiet hclosed (regions_of_parks hparks)
      (by cases hparks <;> rfl) (grows_of_parks hparks).offset_le
    have hcopies := ih (hmethod.inner (grows_of_parks hparks).size
      (grows_departure t departure _)) trivial hfirst.closed
    refine (hfirst.trans hcopies).trans (.quiet hcopies.closed ?_ ?_
      (grows_departure t departure _).offset_le)
    · rw [Draft.regions_closeGaps]
      simp
    · rw [Draft.nodes_closeGaps]
      simp
  | @rescue _ _ _ s b t u _ _ _ _ _ _ start stop done hstart hstop hdone h h' h'' ih ih' ih'' =>
    have hstop' : stop.id = s.body.labels.size + 1 := by simp [hstop, Assembler.nextLabel]
    have hdone' : done.id = s.body.labels.size + 2 := by simp [hdone, Assembler.nextLabel]
    have hsize : s.body.labels.size + 3 ≤ b.body.labels.size := by
      have hgrows := h.grows.size
      simp only [Draft.edit_body, Assembler.size_labels_place,
        Assembler.size_labels_label] at hgrows
      omega
    have hsize' : b.body.labels.size ≤ t.body.labels.size := by simpa using h'.grows.size
    have hend : Grows [done] u.body (u.edit (·.place done)).body :=
      .place u.body List.mem_cons_self
    have helse : Grows [done] t.body (u.edit (·.place done)).body :=
      (h''.grows.weaken (List.nil_subset _)).trans hend
    have hbody : Grows [stop, done] b.body (u.edit (·.place done)).body :=
      ((Grows.place b.body List.mem_cons_self).trans (h'.grows.weaken (List.nil_subset _))).trans
        (helse.weaken (List.subset_cons_self _ _))
    have hfirst : Visits ctx method s (s.edit fun a => a.label.2.label.2.label.2.place start) :=
      .quiet hclosed rfl rfl le_rfl
    have hguarded := ih (hmethod.part (by simp; omega) hbody (by simp; omega)) .none hfirst.closed
    have hstopped : Visits ctx method b (b.edit (·.place stop)) :=
      .quiet hguarded.closed rfl rfl le_rfl
    have hother := ih' (hmethod.part (by simp; omega) helse (by simp; omega)) .none
      hstopped.closed
    have hplaced : (b.edit (·.place stop)).body.position? stop = some b.offset :=
      Assembler.position?_place_self (by omega)
    have htarget : method.target? stop = some b.offset := by
      refine hmethod.target (by omega) ?_
      rw [Draft.edit_body, Assembler.position?_place_of_ne fun heq => by
        rw [heq] at hstop'
        omega]
      exact h''.grows.position?_of_nil (h'.grows.position?_of_nil hplaced)
    have hclauses := ih'' (hmethod.part (by omega) hend (by simp; omega))
      ⟨b.offset, htarget, h'.grows.offset_le⟩ hother.closed
    exact ((((hfirst.trans hguarded).trans hstopped).trans hother).trans hclauses).trans
      (.quiet hclauses.closed rfl rfl le_rfl)
  | @clause start stop done range finish s t u _ _ _ _ classes _ h h' ih ih' =>
    have hclosed' := hclosed.protect (t := s.edit fun a => a.mark.protectAll
      (classes.map (.catching start stop a.nextLabel))) (by simp; rfl) (by simp) fun r hr => by
        obtain ⟨name, -, rfl⟩ := List.mem_map.1 hr
        exact hknown
    have hfirst : Visits ctx method s _ := ⟨hclosed', fun _ _ hmem => .inl (by simpa using hmem)⟩
    have hsize : s.body.labels.size + 1 ≤ t.body.labels.size := by simpa using h.grows.size
    have hle : s.offset ≤ t.offset := by simpa using h.grows.offset_le
    have hbody := ih (hmethod.inner (by simp) h'.grows) .none hclosed'
    obtain ⟨q, hq, hqs⟩ := hknown
    exact (hfirst.trans hbody).trans (ih' (hmethod.rest (by omega))
      ⟨q, hq, hqs.trans hle⟩ hbody.closed)
  | @ensure _ _ _ a b js js' n t gaps _ _ _ _ _ handling clause recorded h h' _ h'' ih ih' ih'' =>
    have hmark := Grows.mark [] a
    have hbody : Grows [] a.mark b := h.grows
    have hnormal : Grows [] b n.body := (Grows.mark [] b).trans h'.grows
    have hfirst : Visits ctx method ⟨a, js⟩ ⟨a.mark, .ensure clause [] :: js⟩ :=
      .quiet hclosed rfl rfl le_rfl
    have hguarded := ih (hmethod.inner hmark.size (hnormal.trans h''.grows)) .none hfirst.closed
    have hmarked : Visits ctx method ⟨b, .ensure clause recorded :: js'⟩ ⟨b.mark, js'⟩ :=
      .quiet hguarded.closed rfl rfl le_rfl
    have hsize : a.labels.size ≤ b.labels.size := (hmark.trans hbody).size
    have hcopy := ih' (hmethod.inner (hsize.trans (Grows.mark [] b).size) h''.grows) .none
      hmarked.closed
    have hhandler := ih'' (hmethod.rest (hsize.trans hnormal.size))
      (h.known_ranges h'.grows h''.grows hmethod) hcopy.closed
    exact (((hfirst.trans hguarded).trans hmarked).trans hcopy).trans hhandler
  | @handled clause s b t _ _ ranges _ hb h _ ih =>
    have hgrows : Grows [] s.body.label.2 b.body := hb ▸ grows_gotoIfReachable _ _
    have hfirst : Visits ctx method s b := by
      refine .quiet hclosed ?_ ?_ hgrows.offset_le
      · simp [hb, Draft.edit]
      · simp [hb, Draft.edit]
    have hclosed' : method.Closes (b.enterHandler ranges) :=
      hfirst.closed.protect (by simp [Draft.enterHandler]; rfl) (by simp) fun r hr => by
        obtain ⟨range, hrange, rfl⟩ := List.mem_map.1 hr
        obtain ⟨q, hq, hqs⟩ := hknown range hrange
        exact ⟨q, hq, hqs.trans hgrows.offset_le⟩
    have henter : Visits ctx method b (b.enterHandler ranges) :=
      ⟨hclosed', fun _ _ hmem => .inl (by simpa [Draft.enterHandler] using hmem)⟩
    have hsize : s.body.labels.size + 1 ≤ (b.enterHandler ranges).body.labels.size := by
      simpa using (hgrows.trans (grows_enterHandler b ranges)).size
    have hend : Grows [s.body.nextLabel] t.body
        ((t.body.emitAll [.load .ref b.body.nextSlot, .athrow]).place s.body.nextLabel) :=
      (Grows.emitAll _ _ _).trans (.place _ List.mem_cons_self)
    have hcode := ih (hmethod.part (by omega) hend (by simp [Assembler.nextLabel]; omega)) .none
      hclosed'
    exact ((hfirst.trans henter).trans hcode).trans
      (.quiet hcode.closed (by simp) (by simp) hend.offset_le)
  | @copy s b js t ensures starts made _ _ _ _ depth clause h _ h' ih ih' =>
    have hmark := Grows.mark [] s.body
    have hfirst : Visits ctx method s ⟨s.body.mark, (s.jumps.detach depth).2⟩ :=
      .quiet hclosed rfl rfl le_rfl
    have hcode := ih (hmethod.inner hmark.size h'.grows) .none hfirst.closed
    have hrest := ih' (hmethod.rest (hmark.trans h.grows).size) trivial hcode.closed
    exact (hfirst.trans hcode).trans ⟨hrest.closed, hrest.nodes⟩

end Laid

/-- A node is recorded where its code starts. -/
theorem Context.Emits.mem_nodes {ctx : Context} {node : Node} {want : Bool} {s t : Draft}
    (h : ctx.Emits node want s t) : (node, s.offset) ∈ t.body.nodes := by
  obtain ⟨depth, σ, σ', hemit, hs, ht⟩ := h
  cases depth with
  | zero => exact absurd hemit Emit.throw_ne_ok
  | succ depth =>
    obtain ⟨t', _, _, ht', hlaid⟩ := laid_emitNode (lays_recursion ctx depth) hemit hs
    cases ht.symm.trans ht'
    exact hlaid.grows.visited.subset List.mem_cons_self

theorem MethodInfo.LaidOut.mem_nodes_iff {ctx : Context} {method : MethodInfo}
    {blocks : List Block} (h : method.LaidOut ctx blocks) (node : Node) (start : Nat) :
    (node, start) ∈ method.nodes ↔ method.Has ctx node start := by
  constructor
  · intro hmem
    obtain ⟨a, t, ha, hlaid, hfinish⟩ := h
    have hvisits : Visits ctx method ⟨a, [.method]⟩ t :=
      hlaid.visits ⟨[], t.body, .refl [] _, hfinish, nofun⟩ nofun fun r hr => by
        rw [ha.regions] at hr
        cases hr
    rw [Assembler.nodes_of_finish hfinish] at hmem
    refine (hvisits.nodes node start hmem).resolve_left fun hstart => ?_
    rw [ha.nodes] at hstart
    cases hstart
  · rintro ⟨want, s, t, hemits, rfl, ⟨own, b, hgrows, hfinish, -⟩, -⟩
    rw [Assembler.nodes_of_finish hfinish]
    exact hgrows.visited.subset hemits.mem_nodes

/-- The methods of a compiled unit record the nodes that they have the code of. -/
theorem Program.mem_nodes_iff {program : Program} {compiled : CompiledUnit}
    (h : program.compile.1 = .ok compiled) :
    ∃ ctx : Context, ∀ c ∈ compiled.classes, ∀ method ∈ c.methods, ∀ node start,
      (node, start) ∈ method.nodes ↔ method.Has ctx node start := by
  obtain ⟨ctx, hbuilds⟩ := exists_builds h
  refine ⟨ctx, fun c hc method hmethod => ?_⟩
  obtain ⟨blocks, hlaidOut⟩ := (hbuilds c hc method hmethod).laidOut
  exact hlaidOut.mem_nodes_iff

end ClassBackend
