import ClassBackend.Proofs.Layout.Dispatch
import ClassBackend.Proofs.Machine.Unit

/-!
# Exceptions in the clauses that a jump runs

A jump out of an ensure block runs a copy of the block's clause on its way. What
that copy raises is not caught by the ensure block
itself, nor by an ensure block in its body: it goes to a handler in the copy, to a
block around the ensure block, or to a rescue in its body that the jump lies in
(`Program.clause_raises_outside`).
-/

namespace ClassBackend

def EnsureBlock.Rescues (blocks : List Block) (block : EnsureBlock) (g : Gap) : Prop :=
  ∃ rescue, .rescue rescue ∈ blocks ∧ block.start ≤ rescue.start ∧
    rescue.finish ≤ block.normal.start ∧ rescue.start ≤ g.start ∧ g.stop ≤ rescue.stop

/-- What becomes of an exception that the clause of an ensure block raises while
a jump runs it. Unless there is a rescue between the ensure block and the jump,
the clause is not run again. -/
def MethodInfo.RaisesOutside (ctx : Context) (method : MethodInfo) : Prop :=
  ∃ blocks, method.LaidOut ctx blocks ∧ method.exceptionTable = blocks.flatMap Block.entries ∧
    ∀ block, .ensure block ∈ blocks → ∀ g ∈ block.gaps,
      ∃ copy others, g.copies = copy :: others ∧ copy.clause = block.clause ∧
        ∀ p, copy.start ≤ p → p < copy.stop →
          ∀ (m : Machine) exception q, m.handler? method p exception = some q →
            block.Escapes blocks g copy (m.instanceOf exception) q ∧
            (¬ block.Rescues blocks g →
              ∀ handling, block.handling = some handling → q ≠ handling.start)

/-- Neither the clause nor a block around the ensure block lets the exception
into the ensure block's handler. -/
theorem EnsureBlock.Escapes.ne_handler {blocks : List Block} {block : EnsureBlock} {g : Gap}
    {copy : ClauseCopy} {others : List ClauseCopy} {isA : String → Bool} {q : Nat}
    (h : block.Escapes blocks g copy isA q) (hshape : block.Shape) (hg : g ∈ block.gaps)
    (hcopies : g.copies = copy :: others) (hnone : ¬ block.Rescues blocks g)
    {handling : Handling} (hhandling : block.handling = some handling) : q ≠ handling.start := by
  obtain ⟨hnormal, hcopy, hle, hend⟩ := hshape.handled handling hhandling
  cases h with
  | inCopy hlo hhi =>
    obtain ⟨last, hchain, hstop⟩ := (hshape.spans g hg).chain
    have hmem : copy ∈ g.copies := hcopies ▸ List.mem_cons_self
    have hlast := (hchain.bounds hmem).2.2
    have hdeparture := g.departure.code_length_pos
    have hbody := (hshape.gap_in hg).2.2
    have hspan := hshape.normal_le
    omega
  | around b hb hstart hstop e he hafter => omega
  | rescued rescue hrescue hmin hmax hlo hhi name hname hisA =>
    exact absurd ⟨rescue, hrescue, hmin, hmax, hlo, hhi⟩ hnone

/-- In every method of a compiled unit, what the clause of an ensure block raises
while a jump runs it is caught in the clause, around the ensure block, or by a
rescue in the body of the block that the jump lies in. -/
theorem Program.clause_raises_outside {program : Program} {compiled : CompiledUnit}
    (h : program.compile.1 = .ok compiled) :
    ∃ ctx : Context, ∀ c ∈ compiled.classes, ∀ method ∈ c.methods, method.RaisesOutside ctx := by
  obtain ⟨ctx, hbuilds⟩ := exists_builds h
  refine ⟨ctx, fun c hc method hmethod => ?_⟩
  obtain ⟨blocks, hlaidOut⟩ := (hbuilds c hc method hmethod).laidOut
  refine ⟨blocks, hlaidOut, hlaidOut.table.1, fun block hblock g hg => ?_⟩
  obtain ⟨copy, others, hcopies, hclause⟩ := (hlaidOut.shape hblock).runs g hg
  refine ⟨copy, others, hcopies, hclause, fun p hlo hhi m exception q hq => ?_⟩
  have hescapes := hlaidOut.raised_in_copy hblock hg hcopies hlo hhi hq
  exact ⟨hescapes, fun hnone handling =>
    hescapes.ne_handler (hlaidOut.shape hblock) hg hcopies hnone⟩

/-- A loop that is left in the body of an ensure whose clause raises an
exception. The jump lies in a rescue, or follows a message. -/
def leavingDemo (rescues : Bool) : Program := .ofBuild do
  let leave ← Build.node .break none none
  let text ← Build.node (.text "inner") none none
  let print ← Build.node (.print true [text]) none none
  let clause ← Build.rescueClause none [] print
  let body ← Build.node
    (if rescues then .rescue leave [clause] none else .body [print, leave]) none none
  let message ← Build.node (.text "x") none none
  let raise ← Build.node (.raise message) none none
  let ensure ← Build.node (.ensure body raise) none none
  let always ← Build.node (.boolean true) none none
  let loop ← Build.node (.loop {
    init := [], condition := always, pre := [], body := some ensure, post := []
    skipFirstCheck := false, negative := false }) none none
  Build.node (.script [loop]) none none

theorem leavingDemo_guards : ∃ compiled, (leavingDemo false).compile.1 = .ok compiled ∧
    ∃ c ∈ compiled.classes, ∃ method ∈ c.methods, method.exceptionTable ≠ [] := by
  obtain ⟨compiled, hcompile, heval⟩ := exists_ok_of_any (x := (leavingDemo false).compile.1)
    (p := (·.classes.any fun c => c.methods.any (!·.exceptionTable.isEmpty))) (by decide +kernel)
  exact ⟨compiled, hcompile, by simpa using heval⟩

theorem leavingDemo_raises_outside : ∃ compiled, (leavingDemo false).compile.1 = .ok compiled ∧
    (∃ c ∈ compiled.classes, ∃ method ∈ c.methods, method.exceptionTable ≠ []) ∧
    ∃ ctx : Context, ∀ c ∈ compiled.classes, ∀ method ∈ c.methods, method.RaisesOutside ctx := by
  obtain ⟨compiled, hcompile, htable⟩ := leavingDemo_guards
  exact ⟨compiled, hcompile, htable, Program.clause_raises_outside hcompile⟩

/-- A rescue around the jump catches what the clause raises, and the ensure is
left a second time. -/
theorem leavingDemo_rescues : ∃ compiled, (leavingDemo true).compile.1 = .ok compiled ∧
    (compiled.machine.runMain 300 "Demo" []).1 =
      .error (.uncaught "java.lang.RuntimeException" "x") ∧
    (compiled.machine.runMain 300 "Demo" []).2.output = "inner\n" :=
  Program.ends_of_eval (by decide +kernel)

end ClassBackend
