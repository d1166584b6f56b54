import ClassBackend.Proofs.Emission.Agreement
import Mathlib.Logic.Relation

/-!
# Emission comes to an end

Emission does not only go from a node to its parts: a jump also runs the clauses
of the ensure blocks it leaves, and these stand around the jump. While such a
clause is emitted, the block it belongs to and all blocks inside that one are
closed, so a node has to be weighed together with the clauses of the ensure
blocks that are open around it. `Errand.Leads` says what working on a node may
hand to the recursion, and every step makes this weight smaller.

So the recursion of emission is well-founded: what a node does depends on the
recursion only below it, the equations of the recursion have one solution, and a
depth of twice the size of a script is enough for the script
(`Context.emission_terminates`).
-/

namespace ClassBackend

/-! ## Open clauses -/

namespace JumpScopes

/-- The clauses of the ensure blocks that are open, innermost first. -/
def clauses : JumpScopes → List Node
  | [] => []
  | .ensure clause _ :: outer => clause :: clauses outer
  | _ :: outer => clauses outer

theorem clauses_append (inner outer : JumpScopes) :
    clauses (inner ++ outer) = clauses inner ++ clauses outer := by
  induction inner with
  | nil => rfl
  | cons scope inner ih =>
    cases scope with
    | ensure clause gaps => exact congrArg (clause :: ·) ih
    | method | loop => exact ih

theorem clauses_of_extends {before after : JumpScopes}
    (h : List.Forall₂ JumpScope.Extends before after) : before.clauses = after.clauses := by
  induction h with
  | nil => rfl
  | cons hscope _ ih =>
    cases hscope with
    | method | loop => exact ih
    | ensure clause gaps more => exact congrArg (clause :: ·) ih

theorem extends_detach {before after : JumpScopes} (h : List.Forall₂ JumpScope.Extends before after)
    (depth : Nat) :
    List.Forall₂ JumpScope.Extends (before.detach depth).2 (after.detach depth).2 := by
  simp only [detach, List.splitAt_eq, h.length_eq]
  exact List.forall₂_drop _ h

theorem detach_append_snd (inner outer : JumpScopes) (scope : JumpScope) :
    (detach (inner ++ scope :: outer) outer.length).2 = outer := by
  have hlength : (inner ++ scope :: outer).length - outer.length = inner.length + 1 := by
    simp only [List.length_append, List.length_cons]
    omega
  rw [detach, List.splitAt_eq, hlength, ← List.drop_drop]
  simp

end JumpScopes

/-! ## Errands -/

/-- What the recursion can be asked to do with a node. -/
inductive Task where
  | emit (want : Bool)
  | branch (target : Label) (when : Bool)

/-- A task with the node it is about, while ensure blocks with these clauses are
open, innermost first. -/
structure Errand where
  node : Node
  task : Task
  clauses : List Node

namespace Errand

/-- The second errand is one that working on the first may hand to the
recursion. -/
inductive Leads : Errand → Errand → Prop
  | value (node : Node) (target : Label) (when want : Bool) (clauses : List Node) :
    Leads ⟨node, .branch target when, clauses⟩ ⟨node, .emit want, clauses⟩
  | part {node part : Node} (task next : Task) (clauses : List Node) :
    node.kind.isPlain = true → (∀ main clause, node.kind ≠ .ensure main clause) →
    part ∈ node.children → Leads ⟨node, task, clauses⟩ ⟨part, next, clauses⟩
  /-- While the body of an ensure block is emitted, its clause may be run. -/
  | guarded {node main clause : Node} (task next : Task) (clauses : List Node) :
    node.kind = .ensure main clause →
    Leads ⟨node, task, clauses⟩ ⟨main, next, clause :: clauses⟩
  | clause {node main clause : Node} (task next : Task) (clauses : List Node) :
    node.kind = .ensure main clause → Leads ⟨node, task, clauses⟩ ⟨clause, next, clauses⟩
  /-- Methods and classes are emitted with no ensure block open. -/
  | definition {node part : Node} (task next : Task) (clauses : List Node) :
    node.kind.isPlain = false → part ∈ node.children →
    Leads ⟨node, task, clauses⟩ ⟨part, next, []⟩
  /-- A jump runs the clause of an open ensure block, with that block and all
  blocks inside it closed. -/
  | inlined (node : Node) (task next : Task) (inner : List Node) (clause : Node)
    (outer : List Node) :
    Leads ⟨node, task, inner ++ clause :: outer⟩ ⟨clause, next, outer⟩

/-- The first errand comes up while the second is worked on. -/
def Below (inner outer : Errand) : Prop := Relation.TransGen Leads outer inner

/-- The size of the node and of the open clauses, where a jump on the value of a
node weighs more than the node. -/
def weight (errand : Errand) : Nat :=
  2 * (errand.node.size + listSize errand.clauses) +
    match errand.task with
    | .emit _ => 0
    | .branch .. => 1

variable (errand : Errand)

theorem weight_le : errand.weight ≤ 2 * (errand.node.size + listSize errand.clauses) + 1 := by
  unfold weight
  split <;> omega

theorem le_weight : 2 * (errand.node.size + listSize errand.clauses) ≤ errand.weight := by
  unfold weight
  omega

theorem weight_pos : 0 < errand.weight := by
  have hsize := errand.node.size_pos
  have hweight := errand.le_weight
  omega

theorem Leads.weight_lt {outer inner : Errand} (h : outer.Leads inner) :
    inner.weight < outer.weight := by
  have hinner := inner.weight_le
  have houter := outer.le_weight
  cases h with
  | value node target when want clauses =>
    simp only [weight]
    omega
  | part task next clauses _ _ hpart =>
    have hsize := Node.size_lt_of_mem_children hpart
    simp only at hinner houter
    omega
  | @guarded node main clause task next clauses hkind =>
    have hsize : node.size = main.size + clause.size + 1 := by
      simp [node.size_eq_children, Node.children, hkind, listSize]
    simp only [listSize] at hinner houter
    omega
  | clause task next clauses hkind =>
    have hsize := Node.size_lt_of_mem_children (by
      rw [Node.children, hkind]
      exact List.mem_cons_of_mem _ (List.mem_singleton_self _))
    simp only at hinner houter
    omega
  | definition task next clauses _ hpart =>
    have hsize := Node.size_lt_of_mem_children hpart
    simp only [listSize] at hinner houter
    omega
  | inlined node task next inner clause outer =>
    have hsize := node.size_pos
    simp only [listSize_append, listSize] at hinner houter
    omega

theorem Below.weight_lt {inner outer : Errand} (h : inner.Below outer) :
    inner.weight < outer.weight := by
  induction h with
  | single hstep => exact hstep.weight_lt
  | tail _ hstep ih => exact hstep.weight_lt.trans ih

theorem below_wellFounded : WellFounded Below :=
  Subrelation.wf Below.weight_lt (measure weight).wf

end Errand

/-! ## What the recursion is asked for -/

def Recursion.run (recur : Recursion) (node : Node) : Task → Emit Unit
  | .emit want => recur.emit node want
  | .branch target when => recur.branch node target when

/-- However a task ends, the recursion puts back what it changes. -/
def Recursion.Restores (recur : Recursion) : Prop :=
  ∀ node task, (recur.run node task).Restores

def Context.work (ctx : Context) (recur : Recursion) (node : Node) : Task → Emit Unit
  | .emit want => ctx.emitNode recur node want
  | .branch target when => ctx.branchOn recur node target when

/-- What is handed to the recursion comes up below an errand. -/
def descent (ctx : Context) (top : Errand) : Congruence ctx JumpScopes where
  rel home _ x y := Emit.Agree (fun σ => List.Forall₂ JumpScope.Extends home σ.jumps) x y
  sees home σ := List.Forall₂ JumpScope.Extends home σ.jumps
  pure _ := .same (.pure _)
  throw _ := .same (.throw _)
  bind := .bind fun hσ h => JumpScopes.extends_trans hσ h.jumps
  get_bind h σ hσ := h σ hσ hσ
  assembling _ h := .same (.assembling h)
  sharing _ := .same (.sharing _)
  bindingField _ _ _ := .same (.sharing _)
  modifyClass _ := .same (.modifyClass _)
  fits home node := ∀ task, Errand.Below ⟨node, task, home.clauses⟩ top
  works home node := ∃ task, Relation.ReflTransGen Errand.Leads top ⟨node, task, home.clauses⟩
  inside home scope := scope :: home
  outside home depth := (home.detach depth).2
  frameOf _ _ := [.method]
  classOf _ := []
  marking h := .same (.marking h)
  report _ _ := .same (.sharing _)
  recordGap depth gap := .same (.recordGap depth gap)
  openScope _ h hf := .bind (fun hσ h => JumpScopes.extends_trans hσ h.jumps)
    (.openScope (fun hσ => .cons (.refl _) hσ) h) fun left => hf left trivial
  detached := .detached fun hσ => JumpScopes.extends_detach hσ _
  method _ := .method fun _ hrun => hrun.sameScopes.jumps
  nested _ _ h := .bind (fun hσ h => JumpScopes.extends_trans hσ h.jumps)
    (.inClass (fun _ => .nil) h) fun _ => .same (.sharing _)
  works_of_fits h := ⟨.emit true, (h _).to_reflTransGen⟩
  fits_clause := by
    rintro home node σ target pending depth clause ⟨task, hnode⟩ hσ hfind hentry next
    obtain ⟨inner, gaps, outer, hjumps, rfl⟩ :=
      Context.exists_append_of_findEnsures? hfind hentry
    have hopen : home.clauses = JumpScopes.clauses inner ++ clause :: JumpScopes.clauses outer := by
      rw [JumpScopes.clauses_of_extends hσ, hjumps, JumpScopes.clauses_append]
      rfl
    have hclosed : (home.detach outer.length).2.clauses = JumpScopes.clauses outer := by
      rw [JumpScopes.clauses_of_extends (JumpScopes.extends_detach hσ _), hjumps,
        JumpScopes.detach_append_snd]
    rw [hopen] at hnode
    rw [hclosed]
    exact .tail' hnode (.inlined ..)
  fits_part := by
    rintro home node part ⟨task, hnode⟩ hplain hscope hpart next
    refine .tail' hnode (.part task next _ hplain (fun main clause hkind => ?_) hpart)
    rw [hkind] at hscope
    cases hscope
  fits_loop := by
    rintro home node parts labels part ⟨task, hnode⟩ hkind hpart next
    refine .tail' hnode (.part task next _ (by rw [hkind]; rfl)
      (fun main clause hkind' => ?_) hpart)
    rw [hkind] at hkind'
    cases hkind'
  fits_ensure := by
    rintro home node main clause ⟨task, hnode⟩ hkind
    exact ⟨fun next => .tail' hnode (.guarded task next _ hkind),
      fun next => .tail' hnode (.clause task next _ hkind)⟩
  fits_method := by
    rintro home node definition part ⟨task, hnode⟩ hkind hpart next
    exact .tail' hnode (.definition task next _ (by rw [hkind]; rfl) hpart)
  fits_constructor := by
    rintro home node definition part ⟨task, hnode⟩ hkind hpart next
    exact .tail' hnode (.definition task next _ (by rw [hkind]; rfl) hpart)
  fits_member := by
    rintro home node definition member ⟨task, hnode⟩ hkind hmember _ next
    exact .tail' hnode (.definition task next _ (by rw [hkind]; rfl)
      (by rw [Node.children, hkind]; exact hmember))
  fits_initializer := by
    rintro home node definition member ⟨task, hnode⟩ hkind hmember _ next
    exact .tail' hnode (.definition task next _ (by rw [hkind]; rfl)
      (by rw [Node.children, hkind]; exact hmember))
  fits_closure := by
    rintro home node definition σ current method inner part ⟨task, hnode⟩ hkind - - hmethod hinner
      hpart next
    have hstep : Errand.Leads ⟨node, task, home.clauses⟩ ⟨method, .emit true, []⟩ :=
      .definition task _ _ (by rw [hkind]; rfl) (by rw [Node.children, hkind]; exact hmethod)
    exact .tail (.tail' hnode hstep) (.definition _ next _ (by rw [hinner]; rfl)
      (by rw [Node.children, hinner]; exact hpart))

instance (ctx : Context) (top : Errand) (home : JumpScopes) : (descent ctx top).Framed home :=
  ⟨trivial⟩

namespace Context

variable {node : Node} {task : Task} {σ : Emission} {depth : Nat}

variable {ctx : Context} {recur other : Recursion}

theorem related_descent {top : Errand} (hrestores : recur.Restores)
    (hbelow : ∀ node task (σ : Emission), Errand.Below ⟨node, task, σ.jumps.clauses⟩ top →
      recur.run node task σ = other.run node task σ) :
    recur.Related (descent ctx top) other := by
  have hrun : ∀ {home : JumpScopes} {node : Node} (task : Task),
      (∀ task, Errand.Below ⟨node, task, home.clauses⟩ top) →
      (descent ctx top).Related home (recur.run node task) (other.run node task) := by
    intro home node task hnode σ hσ
    refine ⟨hbelow node task σ ?_, hrestores node task σ⟩
    rw [← JumpScopes.clauses_of_extends hσ]
    exact hnode task
  exact ⟨trivial, fun want hnode => hrun (.emit want) hnode,
    fun target when hnode => hrun (.branch target when) hnode,
    fun hnode _ => hrun (.emit false) hnode⟩

/-- What working on a node does depends on the recursion only below it. -/
theorem work_congr (hrestores : recur.Restores)
    (hbelow : ∀ inner next (τ : Emission),
      Errand.Below ⟨inner, next, τ.jumps.clauses⟩ ⟨node, task, σ.jumps.clauses⟩ →
      recur.run inner next τ = other.run inner next τ) :
    ctx.work recur node task σ = ctx.work other node task σ := by
  have hrelated : recur.Related (descent ctx ⟨node, task, σ.jumps.clauses⟩) other :=
    related_descent hrestores hbelow
  have hworks : (descent ctx ⟨node, task, σ.jumps.clauses⟩).works σ.jumps node := ⟨task, .refl⟩
  have hσ : List.Forall₂ JumpScope.Extends σ.jumps σ.jumps := JumpScopes.extends_refl _
  cases task with
  | emit want => exact (related_emitNode hrelated hworks trivial want hσ).1
  | branch target when =>
    refine (related_branchOn hrelated hworks (fun τ hτ => ?_) target when hσ).1
    have hvalue : Errand.Below ⟨node, .emit true, τ.jumps.clauses⟩
        ⟨node, .branch target when, σ.jumps.clauses⟩ := by
      rw [← JumpScopes.clauses_of_extends hτ]
      exact .single (.value ..)
    exact ⟨hbelow node (.emit true) τ hvalue, hrestores node (.emit true) τ⟩

theorem restores_recursion (depth : Nat) : (ctx.recursion depth).Restores := by
  intro node task
  have hrecur := ctx.restoration_recursion depth
  cases task with
  | emit want =>
    have hemit : (restoration ctx).Related () ((ctx.recursion depth).emit node want)
        ((ctx.recursion depth).emit node want) := hrecur.emit want trivial
    exact hemit
  | branch target when =>
    have hbranch : (restoration ctx).Related () ((ctx.recursion depth).branch node target when)
        ((ctx.recursion depth).branch node target when) := hrecur.branch target when trivial
    exact hbranch

theorem run_recursion_succ (depth : Nat) (node : Node) (task : Task) :
    (ctx.recursion (depth + 1)).run node task = ctx.work (ctx.recursion depth) node task := by
  cases task <;> rfl

theorem run_recursion_congr {depth' : Nat} (h : Errand.weight ⟨node, task, σ.jumps.clauses⟩ ≤ depth)
    (h' : Errand.weight ⟨node, task, σ.jumps.clauses⟩ ≤ depth') :
    (ctx.recursion depth).run node task σ = (ctx.recursion depth').run node task σ := by
  induction depth generalizing node task σ depth' with
  | zero => exact absurd h (Nat.not_le.2 (Errand.weight_pos _))
  | succ depth ih =>
    cases depth' with
    | zero => exact absurd h' (Nat.not_le.2 (Errand.weight_pos _))
    | succ depth' =>
      rw [run_recursion_succ, run_recursion_succ]
      refine work_congr (restores_recursion depth) fun inner next τ hbelow => ?_
      have hlt := hbelow.weight_lt
      exact ih (by omega) (by omega)

/-! ## The recursion without a bound -/

/-- Emission that takes for each errand a depth that is enough for it. -/
def unbounded (ctx : Context) : Recursion where
  emit node want σ :=
    (ctx.recursion (Errand.weight ⟨node, .emit want, σ.jumps.clauses⟩)).emit node want σ
  branch node target when σ :=
    (ctx.recursion (Errand.weight ⟨node, .branch target when, σ.jumps.clauses⟩)).branch
      node target when σ

theorem run_unbounded (node : Node) (task : Task) (σ : Emission) : ctx.unbounded.run node task σ =
      (ctx.recursion (Errand.weight ⟨node, task, σ.jumps.clauses⟩)).run node task σ := by
  cases task <;> rfl

theorem run_recursion_eq_unbounded (h : Errand.weight ⟨node, task, σ.jumps.clauses⟩ ≤ depth) :
    (ctx.recursion depth).run node task σ = ctx.unbounded.run node task σ := by
  rw [run_unbounded]
  exact run_recursion_congr h le_rfl

theorem restores_unbounded : ctx.unbounded.Restores := by
  intro node task σ
  have hrun : ctx.unbounded.run node task σ = _ := run_unbounded node task σ
  rw [Emit.after, hrun]
  exact restores_recursion _ node task σ

theorem run_unbounded_eq_work (node : Node) (task : Task) :
    ctx.unbounded.run node task = ctx.work ctx.unbounded node task := by
  funext σ
  obtain ⟨depth, hdepth⟩ := Nat.exists_eq_add_one.2
    (Errand.weight_pos ⟨node, task, σ.jumps.clauses⟩)
  rw [run_unbounded, hdepth, run_recursion_succ]
  refine work_congr (restores_recursion depth) fun inner next τ hbelow => ?_
  have hlt := hbelow.weight_lt
  exact run_recursion_eq_unbounded (by omega)

theorem eq_unbounded (hrestores : recur.Restores)
    (hrecur : ∀ node task, recur.run node task = ctx.work recur node task) :
    recur = ctx.unbounded := by
  have hrun : ∀ errand : Errand, ∀ σ : Emission, σ.jumps.clauses = errand.clauses →
      recur.run errand.node errand.task σ = ctx.unbounded.run errand.node errand.task σ := by
    intro errand
    induction errand using Errand.below_wellFounded.induction with
    | _ errand ih =>
      obtain ⟨node, task, clauses⟩ := errand
      rintro σ rfl
      rw [hrecur, run_unbounded_eq_work]
      exact work_congr hrestores fun inner next τ hbelow => ih _ hbelow τ rfl
  have hemit : recur.emit = ctx.unbounded.emit := by
    funext node want σ
    exact hrun ⟨node, .emit want, σ.jumps.clauses⟩ σ rfl
  have hbranch : recur.branch = ctx.unbounded.branch := by
    funext node target when σ
    exact hrun ⟨node, .branch target when, σ.jumps.clauses⟩ σ rfl
  cases recur
  exact congrArg₂ Recursion.mk hemit hbranch

theorem emitScript_eq_unbounded {script : Node} {statements : List Node}
    (hkind : script.kind = .script statements) (hσ : σ.jumps = [])
    (hdepth : 2 * script.size ≤ depth) : ctx.emitScript (ctx.recursion depth) script statements σ =
      ctx.emitScript ctx.unbounded script statements σ := by
  have hrelated : (ctx.recursion depth).Related (descent ctx ⟨script, .emit false, []⟩)
      ctx.unbounded := by
    refine related_descent (restores_recursion _) fun node task τ hbelow =>
      run_recursion_eq_unbounded ?_
    have hlt := hbelow.weight_lt
    simp only [Errand.weight, listSize, Nat.add_zero] at hlt ⊢
    omega
  have hpart : ∀ part ∈ statements, ∀ task,
      Errand.Below ⟨part, task, []⟩ ⟨script, .emit false, []⟩ := fun part hpart task =>
    .single (.definition _ task _ (by rw [hkind]; rfl) (by rw [Node.children, hkind]; exact hpart))
  have hscript : (descent ctx ⟨script, .emit false, []⟩).Related []
      (ctx.emitScript (ctx.recursion depth) script statements)
      (ctx.emitScript ctx.unbounded script statements) :=
    related_emitScript hrelated
      (fun part hmem _ => ⟨.emit true, (hpart part hmem _).to_reflTransGen⟩) hpart
  have hstart : List.Forall₂ JumpScope.Extends [] σ.jumps := by
    rw [hσ]
    exact .nil
  exact (hscript hstart).1

/-- Emission comes to an end on every tree. The errands that come up while a node
is worked on are below it in a well-founded order, although a jump runs clauses
that are no part of it: such a clause is emitted with its own ensure block
closed. What a node does depends on the recursion only at these errands, so
there is exactly one recursion that does each task by working on its node; and
with twice the size of a script as its depth, the bounded recursion gives the
same emission of the script. -/
theorem emission_terminates (ctx : Context) : WellFounded Errand.Below ∧
    (∀ (recur other : Recursion) (node : Node) (task : Task) (σ : Emission), recur.Restores →
      (∀ inner next (τ : Emission), Errand.Below ⟨inner, next, τ.jumps.clauses⟩
        ⟨node, task, σ.jumps.clauses⟩ → recur.run inner next τ = other.run inner next τ) →
      ctx.work recur node task σ = ctx.work other node task σ) ∧
    ∃ recur : Recursion, recur.Restores ∧
      (∀ node task, recur.run node task = ctx.work recur node task) ∧
      (∀ other : Recursion, other.Restores →
        (∀ node task, other.run node task = ctx.work other node task) → other = recur) ∧
      ∀ (script : Node) (statements : List Node) (σ : Emission) (depth : Nat),
        script.kind = .script statements → σ.jumps = [] → 2 * script.size ≤ depth →
        ctx.emitScript (ctx.recursion depth) script statements σ =
          ctx.emitScript recur script statements σ :=
  ⟨Errand.below_wellFounded, fun _ _ _ _ _ hrestores hbelow => work_congr hrestores hbelow,
    ctx.unbounded, restores_unbounded, run_unbounded_eq_work,
    fun _ hrestores hother => eq_unbounded hrestores hother,
    fun _ _ _ _ hkind hσ hdepth => emitScript_eq_unbounded hkind hσ hdepth⟩

end Context

end ClassBackend
