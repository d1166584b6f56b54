import ClassBackend.Machine.Run
import ClassBackend.Proofs.Emission.Provenance
import ClassBackend.Proofs.Layout.Slots
import ClassBackend.Proofs.Layout.Table

/-!
# Where exceptions go

The exception table of a method lists the entries of its blocks, inner blocks
first. So the handler of an exception is found from where the blocks lie: what an
inlined copy of a clause raises goes to a handler in that copy, to a block around
the ensure block, or to a rescue around the jump
(`MethodInfo.LaidOut.raised_in_copy`).
-/

namespace ClassBackend

/-- Where an exception goes that is raised by the copy of an ensure block's
clause in one of its gaps. -/
inductive EnsureBlock.Escapes (blocks : List Block) (block : EnsureBlock) (g : Gap)
    (copy : ClauseCopy) (isA : String → Bool) : Nat → Prop
  | inCopy {q} : copy.start ≤ q → q ≤ copy.stop → Escapes blocks block g copy isA q
  | around (b : Block) : b ∈ blocks → b.start ≤ block.start → block.stop ≤ b.bodyStop →
    (e : ExceptionEntry) → e ∈ b.entries → block.stop ≤ e.handler →
    Escapes blocks block g copy isA e.handler
  /-- A rescue in the body of the ensure block that the jump lies in catches
  it. -/
  | rescued (rescue : RescueBlock) : .rescue rescue ∈ blocks → block.start ≤ rescue.start →
    rescue.finish ≤ block.normal.start → rescue.start ≤ g.start → g.stop ≤ rescue.stop →
    (name : String) → name ∈ rescue.classes → isA name = true →
    Escapes blocks block g copy isA rescue.handler

/-! ## Methods and their blocks -/

structure Assembler.Fresh (a : Assembler) : Prop where
  code : a.code = #[]
  labels : a.labels = #[]
  regions : a.regions = []
  nodes : a.nodes = []
  slotted : a.Roomy → a.Slotted

def MethodInfo.LaidOut (ctx : Context) (method : MethodInfo) (blocks : List Block) : Prop :=
  ∃ a t, a.Fresh ∧ Laid ctx (.code [] [] []) ⟨a, [.method]⟩ t [] blocks ∧
    t.body.finish = .ok method

namespace Assembler.Fresh

variable {a : Assembler}

theorem start (name descriptor : String) (access : Access) :
    (Assembler.start name descriptor access).Fresh where
  code := rfl
  labels := rfl
  regions := rfl
  nodes := rfl
  slotted := fun _ => ⟨UInt16.le_refl _, nofun, .nil⟩

theorem namedLocal (h : a.Fresh) (name : String) (t : Ty) : (a.namedLocal name t).2.Fresh where
  code := by rw [code_namedLocal, h.code]
  labels := by rw [labels_namedLocal, h.labels]
  regions := by rw [regions_namedLocal, h.regions]
  nodes := by rw [nodes_namedLocal, h.nodes]
  slotted := fun hroom =>
    (Allots.namedLocal (h.slotted ((Grows.namedLocal [] a name t).roomy hroom)) name t
      hroom).slotted

theorem of_starts {spec : MethodSpec} (h : Context.Starts spec a) : a.Fresh := by
  have hstart : spec.start.Fresh :=
    { Fresh.start spec.name spec.descriptor spec.access with
      slotted := fun _ => ⟨UInt16.le_refl _, nofun, .nil⟩ }
  rcases h with rfl | rfl
  · exact hstart
  · show (spec.params.foldl _ spec.start).Fresh
    generalize spec.start = a at hstart
    induction spec.params generalizing a with
    | nil => exact hstart
    | cons param params ih => exact ih _ (hstart.namedLocal param.1 param.2)

end Assembler.Fresh

namespace Laid

variable {ctx : Context}

theorem straight {is : List Instruction}
    (h : ∀ i ∈ is, i.isReturn = false ∧ i.jumpTarget? = none ∧ i.written? = none) (s : Draft) :
    Laid ctx (.code [] [] []) s (s.edit (·.emitAll is)) [] [] := by
  induction is generalizing s with
  | nil => exact .refl s
  | cons i is ih =>
    obtain ⟨hreturn, hjump, hwrites⟩ := h i List.mem_cons_self
    have hfirst : Laid ctx (.code [] [] []) s (s.edit (·.emit i)) [] [] :=
      .instruction s i ⟨hreturn, by simp [hjump], by simp [hwrites]⟩
    exact hfirst.trans (ih (fun i hi => h i (List.mem_cons_of_mem _ hi)) _)

/-- Such code followed by a return makes up a method without blocks. -/
theorem laidOut_straight {a : Assembler} (ha : a.Fresh) (is : List Instruction)
    (h : ∀ i ∈ is, i.isReturn = false ∧ i.jumpTarget? = none ∧ i.written? = none)
    {method : MethodInfo} (hfinish : (a.emitAll (is ++ [.ret none])).finish = .ok method) :
    method.LaidOut ctx [] := by
  have hcode : a.emitAll (is ++ [.ret none]) = (a.emitAll is).emit (.ret none) := by
    simp [Assembler.emitAll]
  have hret : Laid ctx (.code [] [] []) ⟨a.emitAll is, [.method]⟩
      ⟨(a.emitAll is).emit (.ret none), [.method]⟩ [] [] := by
    have hfinds : (Departure.ret none).Finds [.method] ⟨0, []⟩ := rfl
    exact .depart (s := ⟨a.emitAll is, [.method]⟩) (.ret none) ⟨0, []⟩ [] [] hfinds (.ret none _)
      (.noCopies _)
  rw [hcode] at hfinish
  exact ⟨a, _, ha, (straight h ⟨a, [.method]⟩).trans hret, hfinish⟩

end Laid

namespace Context

variable {ctx : Context} {method : MethodInfo}

theorem Builds.laidOut (h : ctx.Builds method) : ∃ blocks, method.LaidOut ctx blocks := by
  cases h with
  | compiled spec h =>
    obtain ⟨a, t, blocks, hstarts, hlaid, hfinish, -⟩ := laid_of_compiles h
    exact ⟨blocks, a, t, .of_starts hstarts, hlaid, hfinish⟩
  | closure closure binding h =>
    refine ⟨[], Laid.laidOut_straight ((Assembler.Fresh.start ..).namedLocal "binding" binding)
      [.load .ref 0, .call .special "java/lang/Object" "<init>" "()V", .load .ref 0,
        .load .ref _, .putField _] ?_ h⟩
    simp [Instruction.isReturn, Instruction.jumpTarget?, Instruction.written?, Instruction.call]
  | binding h =>
    refine ⟨[], Laid.laidOut_straight (.start ..)
      [.load .ref 0, .call .special "java/lang/Object" "<init>" "()V"] ?_ h⟩
    simp [Instruction.isReturn, Instruction.jumpTarget?, Instruction.written?, Instruction.call]

end Context

namespace MethodInfo.LaidOut

variable {ctx : Context} {method : MethodInfo} {blocks : List Block} {block : EnsureBlock}
  {p q : Nat}

/-- The exception table lists the entries of the blocks, inner blocks first. -/
theorem table (h : method.LaidOut ctx blocks) :
    method.exceptionTable = blocks.flatMap Block.entries ∧ blocks.Pairwise Block.Beside := by
  obtain ⟨a, t, ha, hlaid, hfinish⟩ := h
  exact ⟨hlaid.exceptionTable_eq ha.regions hfinish, (hlaid.lies trivial).beside⟩

theorem within (h : method.LaidOut ctx blocks) {b : Block} (hb : b ∈ blocks) :
    b.Within 0 method.code.size := by
  obtain ⟨a, t, ha, hlaid, hfinish⟩ := h
  have hcode := (Assembler.finish_eq_ok hfinish).2.2.1
  refine (hlaid.within b hb).mono (Nat.zero_le _) ?_
  show t.body.code.size ≤ _
  rw [hcode]

/-- The named locals of a method lie apart, unless slot numbers may have wrapped
around. -/
theorem apart (h : method.LaidOut ctx blocks) (hroom : method.maxLocals.toNat < 65534) :
    method.locals.Pairwise LocalVar.Apart := by
  obtain ⟨a, t, ha, hlaid, hfinish⟩ := h
  obtain ⟨-, -, -, -, -, -, -, hlocals, hmax, -⟩ := Assembler.finish_eq_ok hfinish
  have hroom : t.body.Roomy := by rwa [hmax] at hroom
  rw [hlocals]
  exact (hlaid.allots (ha.slotted (hlaid.grows.roomy hroom)) hroom).slotted.apart

/-- Any two blocks are the same, or one comes before the other in the exception
table. -/
theorem cases_of_mem (h : method.LaidOut ctx blocks) {b : Block} (hb : b ∈ blocks)
    (hblock : .ensure block ∈ blocks) :
    b = .ensure block ∨ b.Precedes block ∨ b.Follows block := by
  obtain ⟨m, hm, rfl⟩ := List.mem_iff_getElem.1 hb
  obtain ⟨n, hn, heq⟩ := List.mem_iff_getElem.1 hblock
  have hbeside := List.pairwise_iff_getElem.1 h.table.2
  rcases Nat.lt_trichotomy m n with hlt | rfl | hlt
  · exact .inr (.inl ((hbeside m n hm hn hlt).precedes block heq))
  · exact .inl heq
  · exact .inr (.inr ((hbeside n m hn hm hlt).follows block heq))

/-- An exception goes to the handler of a block that covers the instruction. -/
theorem exists_entry (h : method.LaidOut ctx blocks) {m : Machine} {exception : Machine.Address}
    (hq : m.handler? method p exception = some q) :
    ∃ b ∈ blocks, ∃ e ∈ b.entries, e.start ≤ p ∧ p < e.stop ∧ e.handler = q ∧
      e.catchType.all (m.instanceOf exception) := by
  obtain ⟨e, he, rfl⟩ := Option.map_eq_some_iff.1 hq
  have hmem := List.mem_of_find?_eq_some he
  have hcovers := List.find?_some he
  simp only [Bool.and_eq_true, decide_eq_true_eq] at hcovers
  rw [h.table.1, List.mem_flatMap] at hmem
  obtain ⟨b, hb, hmem⟩ := hmem
  exact ⟨b, hb, e, hmem, hcovers.1.1, hcovers.1.2, rfl, hcovers.2⟩

theorem shape (h : method.LaidOut ctx blocks) (hblock : .ensure block ∈ blocks) :
    block.Shape :=
  (h.within hblock).1

/-- What the first copy of a gap raises goes to a handler in that copy, to a
block around the ensure block, or to a rescue in its body that the jump lies
in. -/
theorem raised_in_copy (h : method.LaidOut ctx blocks) (hblock : .ensure block ∈ blocks)
    {g : Gap} (hg : g ∈ block.gaps) {copy : ClauseCopy} {others : List ClauseCopy}
    (hcopies : g.copies = copy :: others) (hlo : copy.start ≤ p) (hhi : p < copy.stop)
    {m : Machine} {exception : Machine.Address}
    (hq : m.handler? method p exception = some q) :
    block.Escapes blocks g copy (m.instanceOf exception) q := by
  obtain ⟨b, hb, e, he, hstart, hstop, rfl, hcatch⟩ := h.exists_entry hq
  have hshape := h.shape hblock
  obtain ⟨last, hchain, hgstop⟩ := (hshape.spans g hg).chain
  rw [hcopies] at hchain
  obtain ⟨hfirst, -, hchain'⟩ := hchain
  obtain ⟨hbody, -, hend⟩ := hshape.gap_in hg
  have hlast := hchain'.le
  have hspan := hshape.normal_le
  have hover := hshape.normal_stop_le
  obtain ⟨hleft, hright, hhandler, -⟩ := (h.within hb).entry he
  rcases h.cases_of_mem hb hblock with rfl | hprecedes | hfollows
  · -- the block's own entries leave its gaps out
    exfalso
    obtain ⟨-, -, -, -, -, -, -, hout⟩ := hshape.entry_bounds he
    have hout := hout g hg
    omega
  · cases hprecedes with
    | inBody hwithin hapart =>
      cases hapart e he g hg with
      | inCopy copy' hcopy' hleft' hright' hhandler' hhandler'' =>
        rw [hcopies] at hcopy'
        rcases List.mem_cons.1 hcopy' with rfl | hcopy'
        · exact .inCopy hhandler' hhandler''
        · exfalso
          have hbounds := hchain'.bounds hcopy'
          omega
      | beside hout =>
        exfalso
        omega
      | rescued hleft' hright' htype =>
        cases b with
        | ensure b =>
          obtain ⟨-, -, -, hnone, -⟩ := (h.shape hb).entry_bounds he
          exact absurd hnone htype
        | rescue rescue =>
          obtain ⟨-, hmin, hmax⟩ := hwithin
          obtain ⟨name, hname, rfl⟩ := List.mem_map.1 he
          exact .rescued rescue hb hmin hmax hleft' hright' name hname hcatch
    | inNormal hwithin =>
      exfalso
      have hbounds := hwithin.bounds
      omega
    | outside hout =>
      exfalso
      omega
  · cases hfollows with
    | inHandler handling hhandling hwithin =>
      exfalso
      obtain ⟨hnormal, hafter, -⟩ := hshape.handled handling hhandling
      have hbounds := hwithin.bounds
      omega
    | outside hout =>
      exfalso
      omega
    | around hmin hmax =>
      exact .around b hb hmin hmax e he (hmax.trans hhandler)

end MethodInfo.LaidOut

end ClassBackend
