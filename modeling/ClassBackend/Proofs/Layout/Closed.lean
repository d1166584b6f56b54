import ClassBackend.Proofs.Emission.Provenance
import ClassBackend.Proofs.Layout.Table

/-!
# Closed code

Code is *closed* if control that starts inside it stays inside until it returns
or throws: it ends with an instruction that does not continue behind it, its
jumps go to its own instructions, and its exception table protects instructions
of its own and sends control to others.

A body whose end is out of reach is closed once it is finished
(`Assembler.closed_of_finish`), so every method that emission makes of a body is
(`Context.Compiles.closed`), and with the constructors that are written out by
hand every method of a unit (`Context.Builds.closed`).
-/

namespace ClassBackend

/-- Control that starts in the code of the method stays in it. -/
structure MethodInfo.Closed (method : MethodInfo) : Prop where
  last : ∃ i, method.code.back? = some i ∧ i.isTerminal
  jumps : ∀ i ∈ method.code, ∀ l, i.jumpTarget? = some l →
    ∃ q, method.target? l = some q ∧ q < method.code.size
  entries : ∀ e ∈ method.exceptionTable,
    e.start < e.stop ∧ e.stop ≤ method.code.size ∧ e.handler < method.code.size

theorem MethodInfo.Closed.nonempty {method : MethodInfo} (h : method.Closed) :
    0 < method.code.size := by
  obtain ⟨i, hi, -⟩ := h.last
  rw [Array.back?_eq_getElem?] at hi
  have hlt := (Array.getElem?_eq_some_iff.1 hi).1
  omega

/-! ## What a finished body knows of its labels -/

namespace Assembler

variable {a : Assembler} {method : MethodInfo}

variable {l : Label}

theorem resolve_eq_ok {q : Nat} (h : a.resolve l = .ok q) : a.position? l = some q := by
  unfold resolve at h
  split at h
  · rename_i hq
    rw [hq, Except.ok.inj h]
  · cases h

/-- The jumps of a finished body go to labels that have been placed. -/
theorem position?_of_checkJumps (h : a.checkJumps = .ok ()) {i : Instruction} (hi : i ∈ a.code)
    (hl : i.jumpTarget? = some l) : ∃ q, a.position? l = some q := by
  have hchecked := forM_eq_ok_iff.1 h i (Array.mem_toList_iff.2 hi)
  simp only [hl] at hchecked
  cases hresolve : a.resolve l with
  | ok q => exact ⟨q, resolve_eq_ok hresolve⟩
  | error fault => simp [hresolve, Except.map] at hchecked

theorem target?_of_position? (h : a.finish = .ok method) {q : Nat} (hq : a.position? l = some q) :
    method.target? l = some q := by
  simp [MethodInfo.target?, (finish_eq_ok h).2.2.2.1, Option.join_eq_some_iff.1 hq]

/-- The entries of the exception table lie between labels that have been
placed, and so do their handlers. -/
theorem positions_of_resolveRegion {r : Region} {e : ExceptionEntry}
    (h : a.resolveRegion r = .ok e) :
    a.position? r.stop = some e.stop ∧ a.position? r.handler = some e.handler := by
  simp only [resolveRegion, bind, Except.bind] at h
  split at h
  · cases h
  split at h
  · cases h
  rename_i hstop
  split at h
  · cases h
  split at h
  · cases h
  rename_i hhandler
  cases h
  exact ⟨resolve_eq_ok hstop, resolve_eq_ok hhandler⟩

theorem closed_of_finish (hplaced : a.Placed) (hend : a.reachable = false)
    (hfinish : a.finish = .ok method) (hentries : ∀ e ∈ method.exceptionTable, e.start < e.stop) :
    method.Closed := by
  obtain ⟨hjumps, htable, hcode, -⟩ := finish_eq_ok hfinish
  obtain ⟨hlast, hout⟩ := reachable_eq_false_iff.1 hend
  -- no label stands at the end of the code
  have hinside : ∀ l q, a.position? l = some q → q < a.code.size := fun l q hq =>
    lt_of_le_of_ne (hplaced l q hq) fun heq => hout l (hq.trans (congrArg some heq))
  refine ⟨hcode ▸ hlast, fun i hi l hl => ?_, fun e he => ⟨hentries e he, ?_⟩⟩
  · obtain ⟨q, hq⟩ := position?_of_checkJumps hjumps (hcode ▸ hi) hl
    exact ⟨q, target?_of_position? hfinish hq, hcode ▸ hinside l q hq⟩
  · obtain ⟨r, -, hr⟩ := exists_of_mem_mapM htable e he
    obtain ⟨hstop, hhandler⟩ := positions_of_resolveRegion hr
    rw [hcode]
    exact ⟨(hinside _ _ hstop).le, hinside _ _ hhandler⟩

/-- A body without labels and protected regions is closed if it ends with an
instruction that does not continue behind it. -/
theorem closed_of_straight {is : List Instruction} (hlabels : a.labels = #[])
    (hregions : a.regions = []) (hlast : is.getLast?.any Instruction.isTerminal)
    (hfinish : (a.emitAll is).finish = .ok method) : method.Closed := by
  obtain ⟨last, hsome, hterminal⟩ := (Option.any_eq_true _ _).1 hlast
  obtain ⟨front, rfl⟩ := List.getLast?_eq_some_iff.1 hsome
  have hsplit : a.emitAll (front ++ [last]) = (a.emitAll front).emit last := by
    rw [emitAll, List.foldl_append]
    rfl
  have hnowhere : ∀ is l, (a.emitAll is).position? l = none := fun is l => by
    simp [position?, hlabels]
  have hplaced : ∀ is, (a.emitAll is).Placed := fun is l q hq => by rw [hnowhere] at hq; cases hq
  have hunprotected : ∀ is : List Instruction, (a.emitAll is).regions = [] := by
    intro is
    induction is using List.reverseRecOn with
    | nil => exact hregions
    | append_singleton is i ih => rw [emitAll, List.foldl_append]; exact ih
  refine closed_of_finish (hplaced _) (hsplit ▸ (hplaced front).reachable_emit hterminal)
    hfinish ?_
  obtain ⟨-, htable, -⟩ := finish_eq_ok hfinish
  rw [hunprotected, List.mapM_nil] at htable
  simp [← Except.ok.inj htable]

end Assembler

/-! ## The methods of a class -/

namespace Context

variable {ctx : Context} {spec : MethodSpec} {method : MethodInfo}

theorem Compiles.signature (h : ctx.Compiles spec method) :
    method.descriptor = spec.descriptor ∧ method.access = spec.access ∧
      method.name = spec.name := by
  obtain ⟨a, t, blocks, hstarts, hlaid, hfinish, -⟩ := laid_of_compiles h
  obtain ⟨-, -, -, -, hname, hdescriptor, haccess, -⟩ := Assembler.finish_eq_ok hfinish
  obtain ⟨hname', hdescriptor', haccess'⟩ := hlaid.grows.signature
  obtain ⟨-, -, -, hdescriptor'', haccess'', hname''⟩ := hstarts.eq
  exact ⟨(hdescriptor.trans hdescriptor').trans hdescriptor'',
    (haccess.trans haccess').trans haccess'', (hname.trans hname').trans hname''⟩

theorem Compiles.closed (h : ctx.Compiles spec method) (hbody : method.isAbstract = false) :
    method.Closed := by
  obtain ⟨a, t, blocks, hstarts, hlaid, hfinish, hend⟩ := laid_of_compiles h
  have hend : t.body.reachable = false := hend.resolve_left fun habstract => by
    rw [MethodInfo.isAbstract, h.signature.2.1, habstract] at hbody
    cases hbody
  have htable := hlaid.exceptionTable_eq hstarts.eq.2.2.1 hfinish
  refine Assembler.closed_of_finish (hlaid.grows.placed hstarts.placed) hend hfinish
    fun e he => ?_
  rw [htable] at he
  obtain ⟨block, hblock, he⟩ := List.mem_flatMap.1 he
  exact (hlaid.within block hblock).start_lt_stop he

theorem Builds.closed (h : ctx.Builds method) (hbody : method.isAbstract = false) :
    method.Closed := by
  cases h with
  | compiled spec h => exact h.closed hbody
  | closure t binding h =>
    unfold closureConstructor at h
    exact Assembler.closed_of_straight rfl rfl rfl h
  | binding h =>
    unfold bindingConstructor at h
    exact Assembler.closed_of_straight rfl rfl rfl h

theorem Builds.descriptor_eq (h : ctx.Builds method) :
    ∃ params result, method.descriptor = methodDescriptor params result := by
  cases h with
  | compiled spec h => exact ⟨_, _, h.signature.1⟩
  | closure t binding h =>
    obtain ⟨-, -, -, -, -, hdescriptor, -⟩ := Assembler.finish_eq_ok h
    exact ⟨_, _, hdescriptor⟩
  | binding h =>
    obtain ⟨-, -, -, -, -, hdescriptor, -⟩ := Assembler.finish_eq_ok h
    exact ⟨[], .void, hdescriptor⟩

end Context

end ClassBackend
