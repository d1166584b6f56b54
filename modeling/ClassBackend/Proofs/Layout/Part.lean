import ClassBackend.Proofs.Layout.Finish
import ClassBackend.Proofs.Machine.Contained

/-!
# Parts of a finished method

What was laid down between two drafts is found again in the method that is made
of the second: the same instructions, the labels made on the way where they were
placed (`MethodInfo.Includes`), and the entries of its blocks before those of the
blocks around it (`MethodInfo.Includes.dispatch`). So control that is in such a part
stays in it until it jumps to a label it was handed, leaves for an open loop, or
an exception is raised that nothing in the part catches (`Laid.moves`).
-/

namespace ClassBackend

/-! ## The search for a handler -/

/-- The handler of the first entry that covers an instruction and catches what is
of the classes. -/
def handlerIn (entries : List ExceptionEntry) (p : Nat) (isA : String → Bool) : Option Nat :=
  (entries.find? fun entry => decide (entry.start ≤ p) && decide (p < entry.stop) &&
    entry.catchType.all isA).map (·.handler)

section

variable {entries more : List ExceptionEntry} {blocks : List Block} {p q lo hi : Nat}
  {isA : String → Bool}

theorem handlerIn_append : handlerIn (entries ++ more) p isA =
    (handlerIn entries p isA).or (handlerIn more p isA) := by
  rw [handlerIn, List.find?_append, Option.map_or]
  rfl

theorem handlerIn_eq_none (h : ∀ e ∈ entries, p < e.start ∨ e.stop ≤ p) :
    handlerIn entries p isA = none := by
  rw [handlerIn, Option.map_eq_none_iff, List.find?_eq_none]
  intro e he
  have hout := h e he
  simp only [Bool.and_eq_true, decide_eq_true_eq]
  omega

theorem exists_of_handlerIn (h : handlerIn entries p isA = some q) :
    ∃ e ∈ entries, e.start ≤ p ∧ p < e.stop ∧ e.handler = q := by
  obtain ⟨e, he, rfl⟩ := Option.map_eq_some_iff.1 h
  have hcovers := List.find?_some he
  simp only [Bool.and_eq_true, decide_eq_true_eq] at hcovers
  exact ⟨e, List.mem_of_find?_eq_some he, hcovers.1.1, hcovers.1.2, rfl⟩

theorem handlerIn_of_within (h : ∀ block ∈ blocks, block.Within lo hi) (hp : p < lo ∨ hi ≤ p) :
    handlerIn (blocks.flatMap Block.entries) p isA = none := by
  refine handlerIn_eq_none fun e he => ?_
  obtain ⟨block, hblock, he⟩ := List.mem_flatMap.1 he
  have hbounds := (h block hblock).bounds
  have hentry := (h block hblock).entry he
  omega

end

/-! ## Parts -/

/-- The method is made of the second draft. What is laid down behind it moves
none of the labels made since the first. -/
def MethodInfo.Extends (method : MethodInfo) (s t : Draft) : Prop :=
  ∃ own b, Grows own t.body b ∧ b.finish = .ok method ∧ ∀ l ∈ own, l.id < s.body.labels.size

/-- Everything that was protected before the draft ends before it. -/
def MethodInfo.Closes (method : MethodInfo) (s : Draft) : Prop :=
  ∀ r ∈ s.body.regions, ∃ q, method.target? r.stop = some q ∧ q ≤ s.offset

/-- What lies between two drafts is part of the method, and everything that was
protected before ends before it. -/
structure MethodInfo.Includes (method : MethodInfo) (s t : Draft) : Prop where
  continued : method.Extends s t
  closed : method.Closes s

namespace MethodInfo.Extends

variable {method : MethodInfo} {s t x y : Draft} {own : List Label} {p q : Nat} {l : Label}

theorem code (h : method.Extends s t) (hp : p < t.offset) :
    method.code[p]? = t.body.code[p]? := by
  obtain ⟨own, b, hgrows, hfinish, -⟩ := h
  rw [(Assembler.finish_eq_ok hfinish).2.2.1, hgrows.getElem?_code hp]

theorem target (h : method.Extends s t) (hl : s.body.labels.size ≤ l.id)
    (hq : t.body.position? l = some q) : method.target? l = some q := by
  obtain ⟨own, b, hgrows, hfinish, hown⟩ := h
  exact Assembler.target?_of_position? hfinish (hgrows.position?_of_le hown hl hq)

theorem emitAll (h : method.Extends s t) {is : List Instruction} {n : Nat} {i : Instruction}
    (hend : Grows own (x.body.emitAll is) t.body) (hi : is[n]? = some i) :
    method.code[x.offset + n]? = some i := by
  have hi' := (x.body.getElem?_emitAll is n).trans hi
  have hlt := Assembler.lt_offset_of_getElem? hi'
  exact ((h.code (hlt.trans_le hend.offset_le)).trans (hend.getElem?_code hlt)).trans hi'

section

variable (h : method.Extends s t) (hstart : s.body.labels.size ≤ x.body.labels.size)
include h hstart

theorem part (hend : Grows own y.body t.body) (hown : ∀ l ∈ own, l.id < x.body.labels.size) :
    method.Extends x y := by
  obtain ⟨later, b, hgrows, hfinish, hlater⟩ := h
  refine ⟨own ++ later, b, (hend.weaken (List.subset_append_left ..)).trans
    (hgrows.weaken (List.subset_append_right ..)), hfinish, fun l hl => ?_⟩
  rcases List.mem_append.1 hl with hl | hl
  · exact hown l hl
  · exact (hlater l hl).trans_le hstart

theorem inner (hend : Grows [] y.body t.body) : method.Extends x y :=
  h.part hstart hend (List.forall_mem_nil _)

theorem rest : method.Extends x t := h.inner hstart (.refl [] _)

end

end MethodInfo.Extends

/-- A label that was made on the way stands in the code that was laid down. -/
theorem Grows.bounds_of_made {own : List Label} {a b : Assembler} {l : Label} {q : Nat}
    (h : Grows own a b) (hl : a.labels.size ≤ l.id) (hq : b.position? l = some q) :
    a.offset ≤ q ∧ q ≤ b.offset := by
  rcases h.moved l q hq with hold | hnew
  · rw [Assembler.position?_eq_none_of_le hl] at hold
    cases hold
  · exact hnew

theorem mapM_append_eq_ok {α β : Type} {f : α → Except Fault β} {xs ys : List α} {zs : List β}
    (h : (xs ++ ys).mapM f = .ok zs) :
    ∃ as bs, xs.mapM f = .ok as ∧ ys.mapM f = .ok bs ∧ zs = as ++ bs := by
  rw [List.mapM_append] at h
  cases hxs : xs.mapM f with
  | error fault => rw [hxs] at h; cases h
  | ok as =>
    cases hys : ys.mapM f with
    | error fault => rw [hxs, hys] at h; cases h
    | ok bs =>
      rw [hxs, hys] at h
      exact ⟨as, bs, rfl, rfl, (Except.ok.inj h).symm⟩

/-- The entries of a part stand in the exception table between those of the parts
before it, which cover none of it, and those behind. -/
theorem MethodInfo.Includes.table {ctx : Context} {method : MethodInfo} {s t : Draft}
    {gaps : List Gap} {blocks : List Block} (h : method.Includes s t)
    (hlaid : Laid ctx (.code [] [] []) s t gaps blocks) :
    ∃ before outer, method.exceptionTable = before ++ blocks.flatMap Block.entries ++ outer ∧
      (∀ e ∈ before, e.stop ≤ s.offset) ∧ ∀ e ∈ outer, t.offset ≤ e.handler := by
  obtain ⟨own, b, hgrows, hfinish, hown⟩ := h.continued
  obtain ⟨-, new, hnew, hentries⟩ := hlaid.table (by simp [Mode.own]) trivial
  obtain ⟨later, hlater, hhandlers⟩ := hgrows.regions
  obtain ⟨-, htable, -⟩ := Assembler.finish_eq_ok hfinish
  have hmid : new.mapM b.resolveRegion = .ok (blocks.flatMap Block.entries) := by
    refine Assembler.mapM_resolveRegion_eq_ok (hentries.imp fun r e hr =>
      Protects.resolves_of_grows hr.1 hr.2 hgrows fun l hl =>
        ⟨hown l hl, by simp [Mode.ends]⟩) fun e he => ?_
    obtain ⟨block, hblock, he⟩ := List.mem_flatMap.1 he
    exact (hlaid.within block hblock).start_lt_stop he
  rw [hlater, hnew] at htable
  obtain ⟨front, after, hfront, hafter, htable⟩ := mapM_append_eq_ok htable
  obtain ⟨before, middle, hbefore, hmiddle, rfl⟩ := mapM_append_eq_ok hfront
  cases hmid.symm.trans hmiddle
  refine ⟨before, after, htable, fun e he => ?_, fun e he => ?_⟩
  · obtain ⟨r, hr, hresolve⟩ := exists_of_mem_mapM hbefore e he
    obtain ⟨q, hq, hle⟩ := h.closed r hr
    have hstop := Assembler.target?_of_position? hfinish
      (Assembler.positions_of_resolveRegion hresolve).1
    cases hq.symm.trans hstop
    exact hle
  · obtain ⟨r, hr, hresolve⟩ := exists_of_mem_mapM hafter e he
    exact hhandlers r hr _ (Assembler.positions_of_resolveRegion hresolve).2

theorem MethodInfo.Includes.dispatch {ctx : Context} {method : MethodInfo} {s t : Draft}
    {gaps : List Gap} {blocks : List Block} (h : method.Includes s t)
    (hlaid : Laid ctx (.code [] [] []) s t gaps blocks) :
    ∃ outer, (∀ e ∈ outer, t.offset ≤ e.handler) ∧ ∀ p isA, s.offset ≤ p →
      handlerIn method.exceptionTable p isA =
        (handlerIn (blocks.flatMap Block.entries) p isA).or (handlerIn outer p isA) := by
  obtain ⟨before, outer, htable, hbefore, houter⟩ := h.table hlaid
  refine ⟨outer, houter, fun p isA hp => ?_⟩
  have hnone : handlerIn before p isA = none :=
    handlerIn_eq_none fun e he => .inr ((hbefore e he).trans hp)
  rw [htable, handlerIn_append, handlerIn_append, hnone, Option.none_or]

/-! ## Control in a part -/

section

open Machine

variable {ctx : Context} {method : MethodInfo} {s t : Draft} {goals : List Label}
  {gaps : List Gap} {blocks : List Block} {outer : List ExceptionEntry} {call : MethodCall}
  {limit : Nat} {c c' : Config}

/-- Between two points, what these entries do not catch goes to the outer ones. -/
def MethodInfo.Dispatches (method : MethodInfo) (lo hi : Nat) (own outer : List ExceptionEntry) :
    Prop :=
  ∀ p isA, lo ≤ p → p < hi →
    handlerIn method.exceptionTable p isA = (handlerIn own p isA).or (handlerIn outer p isA)

/-- Control leaves a part: for a label it was handed, for an open loop, or to a
handler around the part. -/
inductive Machine.Leaves (method : MethodInfo) (goals : List Label) (scopes : JumpScopes)
    (outer : List ExceptionEntry) (c : Config) : Prop
  | goal (l : Label) : l ∈ goals → method.target? l = some c.index →
    Leaves method goals scopes outer c
  | loop (k : Nat) (l : Label) : scopes.OpensAt k l → method.target? l = some c.index →
    Leaves method goals scopes outer c
  | raised (e : ExceptionEntry) : e ∈ outer → e.handler = c.index →
    Leaves method goals scopes outer c

theorem Laid.handler_made (h : Laid ctx (.code [] goals []) s t gaps blocks) {e : ExceptionEntry}
    (he : e ∈ blocks.flatMap Block.entries) :
    ∃ l : Label, s.body.labels.size ≤ l.id ∧ t.body.position? l = some e.handler := by
  obtain ⟨-, new, -, hentries⟩ := h.table (by simp [Mode.own]) trivial
  simp only [Mode.entries, List.nil_append] at hentries
  generalize blocks.flatMap Block.entries = entries at he hentries
  induction hentries with
  | nil => cases he
  | cons hr _ ih =>
    rcases List.mem_cons.1 he with rfl | he
    · exact ⟨_, hr.2.handler.resolve_right (by simp [Mode.ends]), hr.1.handler⟩
    · exact ih he

/-- Control in a part goes on with the next instruction, with one that a label of
the part stands for, or leaves. -/
theorem Laid.moves (h : Laid ctx (.code [] goals []) s t gaps blocks) (hmethod : method.Extends s t)
    (houter : method.Dispatches s.offset t.offset (blocks.flatMap Block.entries) outer)
    (hlo : s.offset ≤ c.index) (hhi : c.index < t.offset) (hmoves : Moves call limit method c c') :
    (c'.index = c.index + 1 ∧ ∃ i, t.body.code[c.index]? = some i ∧ i.isTerminal = false) ∨
      (∃ l : Label, s.body.labels.size ≤ l.id ∧ t.body.position? l = some c'.index) ∨
      Leaves method goals s.jumps outer c' := by
  have hcode := hmethod.code hhi
  rcases hmoves with hgoes | ⟨exception, hcatches⟩
  · cases hgoes with
    | next hi hstep => exact .inl ⟨rfl, _, hcode ▸ hi, transfer_from_of_step hstep⟩
    | jump hi hstep htarget =>
      have hjump := transfer_from_of_step hstep
      rcases h.settled trivial _ _ hlo ⟨_, hcode ▸ hi, hjump⟩ with
        hgoal | ⟨k, hk⟩ | ⟨hmade, hplaced⟩
      · exact .inr (.inr (.goal _ hgoal htarget))
      · exact .inr (.inr (.loop k _ hk htarget))
      · obtain ⟨q, hq⟩ := Option.isSome_iff_exists.1 hplaced
        cases htarget.symm.trans (hmethod.target hmade hq)
        exact .inr (.inl ⟨_, hmade, hq⟩)
  · cases hcatches with
    | @intro i m target hi hstep hhandler =>
      have hfound := (houter _ (m.instanceOf exception) hlo hhi).symm.trans hhandler
      rcases Option.or_eq_some_iff.1 hfound with hown | ⟨-, hout⟩
      · obtain ⟨e, he, -, -, rfl⟩ := exists_of_handlerIn hown
        exact .inr (.inl (h.handler_made he))
      · obtain ⟨e, he, -, -, rfl⟩ := exists_of_handlerIn hout
        exact .inr (.inr (.raised e he rfl))

theorem Machine.Runs.perform {i : Instruction} {is : List Instruction} {a a₁ a' : Activation}
    {m m₁ m' : Machine} (h : Machine.perform call limit i a m = .ok ((), a₁) m₁)
    (hjump : i.jumpTarget? = none) (hreturn : i.isReturn = false)
    (hrest : Runs call limit is a₁ m₁ a' m') : Runs call limit (i :: is) a m a' m' := by
  refine .cons ?_ hrest
  rw [step_eq_perform hjump hreturn]
  exact Act.then_ok h rfl

/-- Instructions that are run one after the other take control past them. -/
theorem Machine.Runs.reaches {is : List Instruction} {a a' : Activation} {m m' : Machine} {p : Nat}
    (h : Runs call limit is a m a' m')
    (hcode : ∀ n i, is[n]? = some i → method.code[p + n]? = some i) :
    Reaches call limit method ⟨p, a, m⟩ ⟨p + is.length, a', m'⟩ := by
  induction h generalizing p with
  | nil => exact .refl
  | @cons i is a a₁ _ m m₁ _ hstep _ ih =>
    have hrest := ih (p := p + 1) fun n j hj => by
      rw [Nat.add_assoc, Nat.add_comm 1 n]
      exact hcode (n + 1) j hj
    rw [List.length_cons, Nat.add_comm is.length, ← Nat.add_assoc]
    exact .head (.inl (.next (c := ⟨p, a, m⟩) (hcode 0 i rfl) hstep)) hrest

/-- Control that stays in a part step by step does so until it leaves. -/
theorem Machine.Reaches.stays (inside leaves : Config → Prop)
    (hstep : ∀ c c', inside c → Moves call limit method c c' → inside c' ∨ leaves c')
    (h : Reaches call limit method c c') (hc : inside c) :
    inside c' ∨ ∃ e, leaves e ∧ Reaches call limit method c e ∧ Reaches call limit method e c' := by
  induction h with
  | refl => exact .inl hc
  | tail hfirst hlast ih =>
    rcases ih with hin | ⟨e, he, hto, hfrom⟩
    · rcases hstep _ _ hin hlast with hin | hout
      · exact .inl hin
      · exact .inr ⟨_, hout, hfirst.tail hlast, .refl⟩
    · exact .inr ⟨e, he, hto, hfrom.tail hlast⟩

end

/-! ## The code of a node -/

def Program.bareContext (program : Program) : Context := { program with scopes := {} }

namespace Context

variable {ctx : Context} {method : MethodInfo} {node : Node} {want : Bool} {s t x : Draft}

/-- The drafts differ in the nodes and lines that were recorded at most. -/
structure SameCode (s t : Draft) : Prop where
  offset : t.offset = s.offset
  labels : t.body.labels.size = s.body.labels.size
  regions : t.body.regions = s.body.regions

theorem sameCode_of_entered (h : Entered node s t) : SameCode s t := by
  rcases h with rfl | ⟨n, rfl⟩
  · exact ⟨rfl, rfl, rfl⟩
  · have hline : SameCode (s.edit (·.visit node)) ((s.edit (·.visit node)).edit (·.line n)) :=
      ⟨by simp, by simp, by simp⟩
    exact ⟨hline.offset, hline.labels, hline.regions⟩

theorem SameCode.includes (h : SameCode s x) (hmethod : method.Includes s t) :
    method.Includes x t := by
  refine ⟨?_, fun r hr => ?_⟩
  · obtain ⟨own, b, hgrows, hfinish, hown⟩ := hmethod.continued
    exact ⟨own, b, hgrows, hfinish, h.labels ▸ hown⟩
  · rw [h.offset]
    exact hmethod.closed r (h.regions ▸ hr)

theorem Emits.laid (h : ctx.Emits node want s t) :
    ∃ gaps blocks, Laid ctx (.code [] [] []) s t gaps blocks := by
  obtain ⟨depth, σ, σ', hemit, hs, ht⟩ := h
  obtain ⟨t', gaps, blocks, ht', hlaid⟩ := (lays_recursion ctx depth).emit node want hemit hs
  cases ht.symm.trans ht'
  exact ⟨gaps, blocks, hlaid⟩

def emitAlone? (ctx : Context) (node : Node) (want : Bool) : Option (Draft × MethodInfo) :=
  match (ctx.recursion 20).emit node want empty with
  | .ok _ σ => do
    let t ← σ.draft?
    let method ← t.body.finish.toOption
    return (t, method)
  | .error .. => none
where
  empty : Emission := {
    unit := { file := "demo.mirah", logger := ctx.settings.logger "unit" }
    current := ctx.settings.newClass "Demo" none [] 0
    classType := .object "Demo"
    frame := some {
      body := .start "f" "()V" 0, scope := none, binding := none, returnType := .void } }

theorem exists_includes_of_emitAlone? (ctx : Context) (node : Node) (want : Bool)
    (h : (ctx.emitAlone? node want).isSome) :
    ∃ s t method, ctx.Emits node want s t ∧ MethodInfo.Includes method s t := by
  obtain ⟨⟨t, method⟩, hsome⟩ := Option.isSome_iff_exists.1 h
  unfold emitAlone? at hsome
  split at hsome
  · rename_i σ hemit
    obtain ⟨t', ht, hsome⟩ := Option.bind_eq_some_iff.1 hsome
    obtain ⟨method', hmethod, hsome⟩ := Option.bind_eq_some_iff.1 hsome
    obtain ⟨rfl, rfl⟩ := Prod.mk.inj (Option.some.inj hsome)
    refine ⟨_, t', method', ⟨20, _, σ, hemit, rfl, ht⟩,
      ⟨[], t'.body, .refl _ _, ?_, nofun⟩, nofun⟩
    cases hfinish : t'.body.finish with
    | error _ => rw [hfinish] at hmethod; cases hmethod
    | ok found => rw [hfinish] at hmethod; rw [Option.some.inj hmethod]
  · cases hsome

end Context

end ClassBackend
