import ClassBackend.Proofs.Emission.Action
import ClassBackend.Proofs.Emission.Growth
import ClassBackend.Proofs.Emission.Scopes

/-!
# How the code of a method is laid down

`Laid ctx mode s t gaps blocks` says how emission gets from a draft `s` of a
method to a later draft `t`, construct by construct. It forgets what the code
is for and keeps what decides where control can go: which labels are placed and
jumped to, which regions are protected, where ensure clauses are inlined, and
which local slots are written. On the way it collects the gaps that jumps left
in the ensure blocks still open around `s`, and the protected blocks laid down
completely, in the order of their entries in the exception table.

Code is laid down relative to three lists: the labels it may place (`own`), the
other labels it may jump to (`goals`), and the local slots it may write
(`slots`). Everything else it places, jumps to or writes it makes or looks up
itself, except for the labels of open loops.
-/

namespace ClassBackend

variable {departure : Departure}

/-! ## Protected blocks in the code of a method -/

/-- A copy of an ensure clause: the instructions from `start` up to `stop`. -/
structure ClauseCopy where
  clause : Node
  start : Nat
  stop : Nat

/-- How a jump leaves after it has run the clauses it passes. -/
inductive Departure where
  | jump (target : Label)
  | ret (kind : Option Kind)
  /-- Return the value that was parked in a slot while the clauses ran. -/
  | retValue (kind : Kind) (slot : UInt16)

def Departure.code : Departure → List Instruction
  | .jump target => [.goto target]
  | .ret kind => [.ret kind]
  | .retValue kind slot => [.load kind slot, .ret (some kind)]

/-- The jump leaves to a scope found this way. -/
def Departure.Finds (scopes : JumpScopes) : Departure → PendingEnsures → Prop
  | .jump l, pending =>
    scopes.findEnsures? .loop = some pending ∧ scopes.OpensAt pending.targetDepth l
  | .ret _, pending | .retValue _ _, pending => scopes.findEnsures? .method = some pending

/-- A jump runs the clauses of the ensure blocks inside its target, the
innermost first. -/
theorem Departure.ensures_of_finds {scopes : JumpScopes} {pending : PendingEnsures}
    (h : departure.Finds scopes pending) : (∀ d c, (d, c) ∈ pending.ensures ↔
      pending.targetDepth < d ∧ scopes.clauseAt? d = some c) ∧
      pending.ensures.Pairwise fun x y => y.1 < x.1 := by
  cases departure with
  | jump l => exact (JumpScopes.findEnsures?_spec h.1).2
  | ret | retValue => exact (JumpScopes.findEnsures?_spec h).2

/-- The stretch of code that a jump out of an ensure block takes out of the
block's protection: the copy of the block's clause, the copies for the blocks
around it that the jump passes as well, and the departure. -/
structure Gap where
  depth : Nat
  labels : Label × Label
  /-- Where the first copy for this jump starts, of whatever block it is. -/
  origin : Nat
  start : Nat
  /-- The copies from this block's on, innermost block first. -/
  copies : List ClauseCopy
  departure : Departure
  stop : Nat

namespace Gap

def Inside (g : Gap) (p : Nat) : Prop := g.start < p ∧ p < g.stop

def record (g : Gap) : Nat × Label × Label := (g.depth, g.labels)

/-- The first of the gap's copies is one of this clause. -/
def Runs (g : Gap) (clause : Node) : Prop :=
  ∃ copy others, g.copies = copy :: others ∧ copy.clause = clause

end Gap

def passageGaps (origin : Nat) (departure : Departure) (stopLabel : Label) (stop : Nat) :
    List (Nat × Node) → List Label → List ClauseCopy → List Gap
  | (depth, _) :: ensures, l :: starts, copy :: copies =>
    { depth, labels := (l, stopLabel), origin, start := copy.start,
      copies := copy :: copies, departure, stop } ::
      passageGaps origin departure stopLabel stop ensures starts copies
  | _, _, _ => []

/-- The gaps of a jump, by the number of the clause they start with. -/
theorem mem_passageGaps_iff {origin stop : Nat} {stopLabel : Label} {g : Gap}
    {ensures : List (Nat × Node)} {starts : List Label} {made : List ClauseCopy} :
    g ∈ passageGaps origin departure stopLabel stop ensures starts made ↔
      ∃ (n : Nat) (x : Nat × Node) (l : Label) (copy : ClauseCopy), ensures[n]? = some x ∧
        starts[n]? = some l ∧ made[n]? = some copy ∧
        g = { depth := x.1, labels := (l, stopLabel), origin, start := copy.start,
              copies := made.drop n, departure, stop } := by
  induction ensures generalizing starts made with
  | nil => simp [passageGaps]
  | cons x ensures ih =>
    obtain ⟨depth, clause⟩ := x
    cases starts with
    | nil => simp [passageGaps]
    | cons l starts =>
      cases made with
      | nil => simp [passageGaps]
      | cons copy made =>
        rw [passageGaps, List.mem_cons, ih]
        constructor
        · rintro (rfl | ⟨n, x, l', copy', hx, hl, hc, rfl⟩)
          · exact ⟨0, _, _, _, rfl, rfl, rfl, rfl⟩
          · exact ⟨n + 1, x, l', copy', hx, hl, hc, rfl⟩
        · rintro ⟨n, x, l', copy', hx, hl, hc, rfl⟩
          cases n with
          | zero =>
            simp only [List.getElem?_cons_zero, Option.some.injEq] at hx hl hc
            subst hx hl hc
            exact .inl rfl
          | succ n => exact .inr ⟨n, x, l', copy', hx, hl, hc, rfl⟩

/-- The handler of an ensure block: it starts by storing the exception in
`slot`, runs its copy of the clause, and throws the exception again. -/
structure Handling where
  start : Nat
  slot : UInt16
  copy : ClauseCopy

structure EnsureBlock where
  clause : Node
  outer : JumpScopes
  start : Nat
  gaps : List Gap
  /-- The copy of the clause behind the body, where the body ends. -/
  normal : ClauseCopy
  handling : Option Handling
  stop : Nat

/-- A rescue clause in the code of a method. -/
structure RescueBlock where
  start : Nat
  stop : Nat
  /-- The internal names of the classes it catches. -/
  classes : List String
  handler : Nat
  finish : Nat
  /-- The point behind the rescue and all its clauses. -/
  done : Nat

/-- What lies between two points outside some gaps, piece by piece. -/
def pieces (start stop : Nat) : List Gap → List (Nat × Nat)
  | [] => [(start, stop)]
  | g :: gaps => (start, g.start) :: pieces g.stop stop gaps

/-- The entries of an ensure block in the exception table: what lies of its body
outside the gaps, and holds an instruction. -/
def EnsureBlock.entries (block : EnsureBlock) : List ExceptionEntry :=
  block.handling.toList.flatMap fun handling =>
    ((pieces block.start block.normal.start block.gaps).filter fun piece =>
      decide (piece.1 < piece.2)).map fun piece =>
        { start := piece.1, stop := piece.2, handler := handling.start, catchType := none }

def RescueBlock.entries (block : RescueBlock) : List ExceptionEntry :=
  block.classes.map fun name =>
    { start := block.start, stop := block.stop, handler := block.handler,
      catchType := some name }

/-- A stretch of code with a handler of its own. -/
inductive Block where
  | ensure (block : EnsureBlock)
  | rescue (block : RescueBlock)

namespace Block

def entries : Block → List ExceptionEntry
  | .ensure block => block.entries
  | .rescue block => block.entries

def start : Block → Nat
  | .ensure block => block.start
  | .rescue block => block.start

def bodyStop : Block → Nat
  | .ensure block => block.normal.start
  | .rescue block => block.stop

/-- Where the code of the block ends; clauses of a rescue are not part of it. -/
def stop : Block → Nat
  | .ensure block => block.stop
  | .rescue block => block.stop

end Block

/-! ## Emission of a part -/

def Context.Emits (ctx : Context) (node : Node) (want : Bool) (s t : Draft) : Prop :=
  ∃ depth σ σ', (ctx.recursion depth).emit node want σ = .ok () σ' ∧
    σ.draft? = some s ∧ σ'.draft? = some t

namespace Instruction

def written? : Instruction → Option UInt16
  | .store _ slot | .iinc slot _ => some slot
  | _ => none

end Instruction

/-- An instruction that code may contain. -/
structure Admits (own goals : List Label) (slots : List UInt16) (i : Instruction) : Prop where
  stays : i.isReturn = false
  aims : ∀ l, i.jumpTarget? = some l → l ∈ own ∨ l ∈ goals
  writes : ∀ slot, i.written? = some slot → slot ∈ slots

namespace Region

def catchAll (handler : Label) (range : Label × Label) : Region :=
  ⟨range.1, range.2, handler, none⟩

def catching (start stop handler : Label) (className : String) : Region :=
  ⟨start, stop, handler, some className⟩

end Region

/-- Jump to a label unless control cannot reach this point. -/
def Assembler.gotoIfReachable (a : Assembler) (target : Label) : Assembler :=
  if a.reachable then a.goto target else a

/-- The first of these drafts becomes the second by parking the value that the
departure returns. -/
inductive Parks : Departure → Draft → Draft → Prop
  | jump (target : Label) (s : Draft) : Parks (.jump target) s s
  | ret (kind : Option Kind) (s : Draft) : Parks (.ret kind) s s
  | value (kind : Kind) (t : Ty) (s : Draft) :
    Parks (.retValue kind s.body.nextSlot) s
      (s.edit fun a => (a.allocate t).2.emit (.store kind a.nextSlot))

/-- What is laid down: code in general, the clauses a jump passes, the clauses
of a rescue, or the handler of an ensure block. -/
inductive Mode where
  | code (own goals : List Label) (slots : List UInt16)
  | copies (ensures : List (Nat × Node)) (starts : List Label) (made : List ClauseCopy)
  | clauses (start stop done : Label) (range : Nat × Nat) (finish : Nat)
  | handler (clause : Node) (ranges : List (Label × Label)) (handling : Option Handling)

/-- The clauses that are to be copied belong to ensure blocks that are open. -/
def Mode.Pending (scopes : JumpScopes) : Mode → Prop
  | .copies ensures _ _ => ∀ x ∈ ensures, scopes.clauseAt? x.1 = some x.2
  | _ => True

def Mode.own : Mode → List Label
  | .code own _ _ => own
  | _ => []

/-- The end of a jump that passes ensure blocks: the gaps end here. -/
def Draft.closeGaps (s : Draft) (gaps : List Gap) : Draft where
  body := if gaps.isEmpty then s.body else s.body.mark
  jumps := s.jumps.recordAll (gaps.map Gap.record)

/-- The start of the handler of an ensure block, which protects some ranges: the
exception is stored in a fresh slot. -/
def Draft.enterHandler (s : Draft) (ranges : List (Label × Label)) : Draft :=
  s.edit fun a =>
    ((a.mark.protectAll (ranges.map (.catchAll a.nextLabel))).allocate
      (.object "java.lang.Throwable")).2.emit (.store .ref a.nextSlot)

@[simp] theorem Draft.offset_enterHandler (s : Draft) (ranges : List (Label × Label)) :
    (s.enterHandler ranges).offset = s.offset + 1 := by
  simp [enterHandler]

/-- Emission lays down the code between two drafts of a method. -/
inductive Laid (ctx : Context) :
    Mode → Draft → Draft → List Gap → List Block → Prop
  | refl {own goals slots} (s) : Laid ctx (.code own goals slots) s s [] []
  | trans {own goals slots s t u gaps gaps' blocks blocks'} :
    Laid ctx (.code own goals slots) s t gaps blocks →
    Laid ctx (.code own goals slots) t u gaps' blocks' →
    Laid ctx (.code own goals slots) s u (gaps ++ gaps') (blocks ++ blocks')
  | weaken {own goals slots own' goals' slots' s t gaps blocks} :
    Laid ctx (.code own goals slots) s t gaps blocks →
    own ⊆ own' → goals ⊆ own' ++ goals' → slots ⊆ slots' →
    Laid ctx (.code own' goals' slots') s t gaps blocks
  | line {own goals slots} (s : Draft) (n : Nat) :
    Laid ctx (.code own goals slots) s (s.edit (·.line n)) [] []
  | named {own goals slots s t gaps blocks} (name : String) (ty : Ty) :
    Laid ctx (.code own goals ((s.body.namedLocal name ty).1 :: slots))
      (s.edit fun a => (a.namedLocal name ty).2) t gaps blocks →
    Laid ctx (.code own goals slots) s t gaps blocks
  | temporary {own goals slots s t gaps blocks} (ty : Ty) :
    Laid ctx (.code own goals (s.body.nextSlot :: slots)) (s.edit fun a => (a.allocate ty).2)
      t gaps blocks →
    Laid ctx (.code own goals slots) s t gaps blocks
  /-- The code of a node, which is recorded first. -/
  | part {own goals slots s t gaps blocks} (node : Node) (want : Bool) :
    ctx.Emits node want s t →
    Laid ctx (.code [] [] []) (s.edit (·.visit node)) t gaps blocks →
    Laid ctx (.code own goals slots) s t gaps blocks
  | instruction {own goals slots} (s : Draft) (i : Instruction) :
    Admits own goals slots i →
    Laid ctx (.code own goals slots) s (s.edit (·.emit i)) [] []
  /-- A label that is placed before the code ends. -/
  | label {own goals slots s t gaps blocks} :
    Laid ctx (.code (s.body.nextLabel :: own) goals slots) (s.edit fun a => a.label.2)
      t gaps blocks →
    (t.body.position? s.body.nextLabel).isSome →
    Laid ctx (.code own goals slots) s t gaps blocks
  | spare {own goals slots} (s : Draft) :
    Laid ctx (.code own goals slots) s (s.edit fun a => a.label.2) [] []
  | place {own goals slots} (s : Draft) (l : Label) : l ∈ own →
    Laid ctx (.code own goals slots) s (s.edit (·.place l)) [] []
  /-- The body of a loop, whose labels are jumped to but not placed by jumps. -/
  | loop {own goals slots a b js js' gaps blocks} (labels : LoopLabels) :
    (∀ jump : LoopJump, jump.label labels ∈ own) →
    Laid ctx (.code own goals slots) ⟨a, .loop labels :: js⟩ ⟨b, .loop labels :: js'⟩
      gaps blocks →
    Laid ctx (.code own goals slots) ⟨a, js⟩ ⟨b, js'⟩ gaps blocks
  /-- A jump or a return, with the clauses it passes. -/
  | depart {own goals slots s parked t gaps blocks} (departure : Departure)
    (pending : PendingEnsures) (starts : List Label) (made : List ClauseCopy) :
    departure.Finds s.jumps pending →
    Parks departure s parked →
    Laid ctx (.copies pending.ensures starts made) parked t gaps blocks →
    Laid ctx (.code own goals slots) s
      ((t.edit (·.emitAll departure.code)).closeGaps
        (passageGaps parked.offset departure t.body.nextLabel
          (t.offset + departure.code.length) pending.ensures starts made))
      (gaps ++ passageGaps parked.offset departure t.body.nextLabel
        (t.offset + departure.code.length) pending.ensures starts made) blocks
  /-- A body with rescue clauses. -/
  | rescue {own goals slots s b t u gaps gaps' gaps'' blocks blocks' blocks''}
    (start stop done : Label) :
    start = s.body.nextLabel → stop = s.body.label.2.nextLabel →
    done = s.body.label.2.label.2.nextLabel →
    Laid ctx (.code [] [] []) (s.edit fun a => a.label.2.label.2.label.2.place start) b
      gaps blocks →
    Laid ctx (.code [] [done] []) (b.edit (·.place stop)) t gaps' blocks' →
    Laid ctx (.clauses start stop done (s.offset, b.offset) u.offset) t u gaps'' blocks'' →
    Laid ctx (.code own goals slots) s (u.edit (·.place done)) (gaps ++ gaps' ++ gaps'')
      (blocks ++ blocks' ++ blocks'')
  | noClauses {start stop done range finish} (s) :
    Laid ctx (.clauses start stop done range finish) s s [] []
  | clause {start stop done range finish s t u gaps gaps' blocks blocks'}
    (classes : List String) : range.1 ≠ range.2 →
    Laid ctx (.code [] [done] []) (s.edit fun a => a.mark.protectAll
        (classes.map (.catching start stop a.nextLabel))) t gaps blocks →
    Laid ctx (.clauses start stop done range finish) t u gaps' blocks' →
    Laid ctx (.clauses start stop done range finish) s u (gaps ++ gaps')
      (.rescue { start := range.1, stop := range.2, classes, handler := s.offset,
                 finish := t.offset, done := finish } :: blocks ++ blocks')
  /-- A body with an ensure clause. -/
  | ensure {own goals slots a b js js' n t gaps gaps' gaps'' blocks blocks' blocks'' handling}
    (clause : Node) (recorded : List (Label × Label)) :
    Laid ctx (.code [] [] []) ⟨a.mark, .ensure clause [] :: js⟩
      ⟨b, .ensure clause recorded :: js'⟩ gaps blocks →
    Laid ctx (.code [] [] []) ⟨b.mark, js'⟩ n gaps' blocks' →
    ctx.Emits clause false ⟨b.mark, js'⟩ n →
    Laid ctx (.handler clause (b.mark.protectedRanges a.nextLabel b.nextLabel recorded)
      handling) n t gaps'' blocks'' →
    Laid ctx (.code own goals slots) ⟨a, js⟩ t
      (gaps.filter (fun g => g.depth != js.length) ++ gaps' ++ gaps'')
      (blocks ++ blocks' ++
        .ensure { clause, outer := js, start := a.offset,
                  gaps := gaps.filter (fun g => g.depth == js.length),
                  normal := ⟨clause, b.offset, n.offset⟩, handling, stop := t.offset } ::
          blocks'')
  | unhandled {clause} (s) : Laid ctx (.handler clause [] none) s s [] []
  | handled {clause s b t gaps blocks} (ranges : List (Label × Label)) :
    ranges ≠ [] → b = s.edit (fun a => a.label.2.gotoIfReachable a.nextLabel) →
    Laid ctx (.code [] [] []) (b.enterHandler ranges) t gaps blocks →
    ctx.Emits clause false (b.enterHandler ranges) t →
    Laid ctx (.handler clause ranges
        (some ⟨b.offset, b.body.nextSlot, clause, b.offset + 1, t.offset⟩)) s
      (t.edit fun a => (a.emitAll [.load .ref b.body.nextSlot, .athrow]).place
        s.body.nextLabel)
      gaps blocks
  | noCopies (s) : Laid ctx (.copies [] [] []) s s [] []
  | copy {s b js t ensures starts made gaps gaps' blocks blocks'} (depth : Nat)
    (clause : Node) :
    Laid ctx (.code [] [] []) ⟨s.body.mark, (s.jumps.detach depth).2⟩ ⟨b, js⟩ gaps blocks →
    ctx.Emits clause false ⟨s.body.mark, (s.jumps.detach depth).2⟩ ⟨b, js⟩ →
    Laid ctx (.copies ensures starts made) ⟨b, js.restore (s.jumps.detach depth).1⟩ t
      gaps' blocks' →
    Laid ctx (.copies ((depth, clause) :: ensures) (s.body.nextLabel :: starts)
        (⟨clause, s.offset, b.offset⟩ :: made)) s t (gaps ++ gaps') (blocks ++ blocks')

namespace Laid

variable {ctx : Context} {mode : Mode} {s t : Draft} {gaps : List Gap}
  {blocks : List Block}

/-! ## Growth -/

variable (a : Assembler)

theorem grows_mark_protectAll {regions : List Region} (h : ∀ r ∈ regions, r.handler = a.nextLabel) :
    Grows [] a (a.mark.protectAll regions) :=
  (Grows.mark [] a).protectAll fun r hr q hq => by
    rw [h r hr, Assembler.position?_mark_nextLabel] at hq
    exact (Option.some.inj hq).le

theorem grows_enterClause (start stop : Label) (classes : List String) :
    Grows [] a (a.mark.protectAll (classes.map (.catching start stop a.nextLabel))) :=
  grows_mark_protectAll a fun r hr => by
    obtain ⟨name, -, rfl⟩ := List.mem_map.1 hr
    rfl

theorem grows_enterHandler (s : Draft) (ranges : List (Label × Label)) :
    Grows [] s.body (s.enterHandler ranges).body := by
  refine ((grows_mark_protectAll s.body fun r hr => ?_).trans
    (Grows.allocate [] _ _)).trans (Grows.emit [] _ _)
  obtain ⟨range, -, rfl⟩ := List.mem_map.1 hr
  rfl

theorem grows_gotoIfReachable (l : Label) : Grows [] a (a.gotoIfReachable l) := by
  unfold Assembler.gotoIfReachable
  split
  · exact Grows.emit [] a _
  · exact Grows.refl [] a

theorem grows_of_parks {parked : Draft} (h : Parks departure s parked) :
    Grows [] s.body parked.body := by
  cases h with
  | jump | ret => exact Grows.refl _ _
  | value kind ty => exact (Grows.allocate [] s.body ty).trans (Grows.emit [] _ _)

theorem grows_closeGaps (s : Draft) (gaps : List Gap) :
    Grows [] s.body (s.closeGaps gaps).body := by
  unfold Draft.closeGaps
  split
  · exact Grows.refl _ _
  · exact Grows.mark [] _

/-- Laying code down extends the body, and moves none but its own labels. -/
theorem grows (h : Laid ctx mode s t gaps blocks) : Grows mode.own s.body t.body := by
  induction h with
  | refl | noClauses | unhandled | noCopies => exact Grows.refl _ _
  | trans _ _ ih ih' => exact ih.trans ih'
  | weaken _ hown _ _ ih => exact ih.weaken hown
  | line s n => exact Grows.line _ _ n
  | @part own _ _ s _ _ _ node _ _ _ ih =>
    exact ((Grows.visit [] s.body node).trans ih).weaken (List.nil_subset own)
  | named name ty _ ih => exact (Grows.namedLocal _ _ name ty).trans ih
  | temporary ty _ ih => exact (Grows.allocate _ _ ty).trans ih
  | instruction s i _ => exact Grows.emit _ _ i
  | label _ _ ih => exact ((Grows.label _ _).trans ih).forget le_rfl
  | spare s => exact Grows.label _ _
  | place s l hl => exact Grows.place _ hl
  | loop labels _ _ ih => exact ih
  | @depart own _ _ _ _ t _ _ departure _ _ _ _ hpark _ ih =>
    have hcode := ((grows_of_parks hpark).trans ih).trans (Grows.emitAll [] t.body departure.code)
    exact (hcode.trans (grows_closeGaps (t.edit (·.emitAll departure.code)) _)).weaken
      (List.nil_subset own)
  | @rescue own _ _ s b t u _ _ _ _ _ _ start stop done hstart hstop hdone _ _ _ ih ih' ih'' =>
    refine Grows.weaken ?_ (List.nil_subset own)
    have hlabels := ((Grows.label [] s.body).trans (Grows.label [] _)).trans
      (Grows.label [] s.body.label.2.label.2)
    have hbody := (hlabels.placeFresh (hstart ▸ le_rfl)).trans ih
    have hstop' : s.body.labels.size ≤ stop.id := by
      simp [hstop, Assembler.nextLabel]
    have hdone' : s.body.labels.size ≤ done.id := by
      simp [hdone, Assembler.nextLabel, Nat.add_assoc]
    exact (((hbody.placeFresh hstop').trans ih').trans ih'').placeFresh hdone'
  | clause classes _ _ _ ih ih' => exact ((grows_enterClause _ _ _ classes).trans ih).trans ih'
  | @ensure own _ _ a b _ _ _ _ _ _ _ _ _ _ _ clause recorded _ _ _ _ ih ih' ih'' =>
    refine Grows.weaken ?_ (List.nil_subset own)
    exact ((((Grows.mark [] a).trans ih).trans (Grows.mark [] b)).trans ih').trans ih''
  | @handled _ s b t _ _ ranges _ hb _ _ ih =>
    have hgoto : Grows [] s.body b.body := by
      rw [hb]
      exact (Grows.label [] _).trans (grows_gotoIfReachable _ _)
    exact (((hgoto.trans (grows_enterHandler b ranges)).trans ih).trans
      (Grows.emitAll [] t.body [.load .ref b.body.nextSlot, .athrow])).placeFresh le_rfl
  | copy depth clause _ _ _ ih ih' => exact ((Grows.mark [] _).trans ih).trans ih'

section

variable {ensures : List (Nat × Node)} {starts : List Label} {made : List ClauseCopy}

/-- The clauses are copied one by one, each from a label of its own. -/
theorem copies_match (h : Laid ctx (.copies ensures starts made) s t gaps blocks) :
    starts.length = ensures.length ∧ made.map ClauseCopy.clause = ensures.map Prod.snd := by
  generalize hmode : Mode.copies ensures starts made = mode at h
  induction h generalizing ensures starts made with
  | noCopies s =>
    cases hmode
    exact ⟨rfl, rfl⟩
  | copy depth clause _ _ _ _ ih =>
    cases hmode
    obtain ⟨hstarts, hmade⟩ := ih rfl
    exact ⟨congrArg Nat.succ hstarts, by rw [List.map_cons, List.map_cons, hmade]⟩
  | _ => cases hmode

theorem length_copies (h : Laid ctx (.copies ensures starts made) s t gaps blocks) :
    starts.length = ensures.length ∧ made.length = ensures.length := by
  obtain ⟨hstarts, hmade⟩ := h.copies_match
  exact ⟨hstarts, by simpa using congrArg List.length hmade⟩

theorem runs_of_mem_passageGaps (h : Laid ctx (.copies ensures starts made) s t gaps blocks)
    {origin stop : Nat} {stopLabel : Label} {g : Gap}
    (hg : g ∈ passageGaps origin departure stopLabel stop ensures starts made) :
    ∃ clause, (g.depth, clause) ∈ ensures ∧ g.Runs clause := by
  obtain ⟨n, x, l, copy, hx, -, hcopy, rfl⟩ := mem_passageGaps_iff.1 hg
  obtain ⟨hlt, heq⟩ := List.getElem?_eq_some_iff.1 hcopy
  have hclause : (made.map ClauseCopy.clause)[n]? = (ensures.map Prod.snd)[n]? := by
    rw [h.copies_match.2]
  rw [List.getElem?_map, List.getElem?_map, hcopy, hx] at hclause
  refine ⟨x.2, List.mem_of_getElem? hx, copy, made.drop (n + 1), ?_, Option.some.inj hclause⟩
  rw [← heq]
  exact List.drop_eq_getElem_cons hlt

end

/-! ## Gaps -/

/-- The later draft has the jump scopes of the earlier one, with the gaps
recorded; each gap belongs to an ensure block that is open, and runs its clause. -/
def Records (s t : Draft) (gaps : List Gap) : Prop :=
  t.jumps = s.jumps.recordAll (gaps.map Gap.record) ∧
    ∀ g ∈ gaps, ∃ clause, s.jumps.clauseAt? g.depth = some clause ∧ g.Runs clause

theorem Records.refl (s : Draft) : Records s s [] := ⟨rfl, by simp⟩

theorem Records.trans {u : Draft} {gaps' : List Gap} (h : Records s t gaps)
    (k : Records t u gaps') :
    Records s u (gaps ++ gaps') := by
  refine ⟨by rw [k.1, h.1, List.map_append, JumpScopes.recordAll_append], fun g hg => ?_⟩
  rcases List.mem_append.1 hg with hg | hg
  · exact h.2 g hg
  · obtain ⟨clause, hclause, hruns⟩ := k.2 g hg
    exact ⟨clause, by rwa [h.1, JumpScopes.clauseAt?_recordAll] at hclause, hruns⟩

theorem jumps_of_parks {parked : Draft} (h : Parks departure s parked) :
    parked.jumps = s.jumps := by
  cases h <;> rfl

/-- What happens to the detached scopes while a clause is copied happens to
all. -/
theorem Records.restore {a b : Assembler} {js : JumpScopes} {depth : Nat}
    (h : Records ⟨a, (s.jumps.detach depth).2⟩ ⟨b, js⟩ gaps) :
    Records s ⟨b, js.restore (s.jumps.detach depth).1⟩ gaps := by
  obtain ⟨hjumps, hdepths⟩ := h
  simp only at hjumps
  have hlt : ∀ g ∈ gaps, g.depth < (s.jumps.detach depth).2.length := fun g hg =>
    let ⟨_, hc, _⟩ := hdepths g hg
    JumpScopes.lt_of_clauseAt? hc
  refine ⟨?_, fun g hg => ?_⟩
  · show (s.jumps.detach depth).1 ++ js = _
    rw [hjumps, ← JumpScopes.recordAll_append_of_lt, JumpScopes.detach_fst_append_snd]
    simpa [Gap.record] using hlt
  · obtain ⟨c, hc, hruns⟩ := hdepths g hg
    refine ⟨c, ?_, hruns⟩
    rw [← hc, ← JumpScopes.clauseAt?_append_of_lt (hlt g hg),
      JumpScopes.detach_fst_append_snd]

/-- What happens inside an ensure block happens to the scopes around it. -/
theorem Records.close {a a' b b' : Assembler} {js js' : JumpScopes} {clause : Node}
    {known recorded : List (Label × Label)}
    (h : Records ⟨a, .ensure clause known :: js⟩ ⟨b, .ensure clause recorded :: js'⟩ gaps) :
    Records ⟨a', js⟩ ⟨b', js'⟩ (gaps.filter fun g => g.depth != js.length) := by
  obtain ⟨hjumps, hdepths⟩ := h
  rw [JumpScopes.recordAll_cons_ensure] at hjumps
  refine ⟨?_, fun g hg => ?_⟩
  · show js' = JumpScopes.recordAll js _
    have hrecord : (gaps.filter fun g => g.depth != js.length).map Gap.record =
        (gaps.map Gap.record).filter (·.1 != js.length) := by
      rw [List.filter_map]
      rfl
    rw [hrecord, JumpScopes.recordAll_filter_ne]
    exact (List.cons.inj hjumps).2
  · obtain ⟨hg, hne⟩ := List.mem_filter.1 hg
    obtain ⟨c, hc, hruns⟩ := hdepths g hg
    exact ⟨c, JumpScopes.clauseAt?_of_ensure hc (by simpa using hne), hruns⟩

theorem Records.clauseAt?_eq (h : Records s t gaps) (d : Nat) :
    t.jumps.clauseAt? d = s.jumps.clauseAt? d := by
  rw [h.1, JumpScopes.clauseAt?_recordAll]

/-- Laying code down records its gaps in the open scopes and changes nothing
else about them. -/
theorem records (h : Laid ctx mode s t gaps blocks) (hpending : mode.Pending s.jumps) :
    Records s t gaps := by
  induction h with
  | refl s | line s | instruction s | spare s | place s | noClauses s | unhandled s | noCopies s =>
    exact .refl s
  | trans _ _ ih ih' | clause _ _ _ _ ih ih' => exact (ih trivial).trans (ih' trivial)
  | weaken _ _ _ _ ih | part _ _ _ _ ih | named _ _ _ ih | temporary _ _ ih | label _ _ ih =>
    exact ih trivial
  | loop labels _ _ ih =>
    obtain ⟨hjumps, hdepths⟩ := ih trivial
    rw [JumpScopes.recordAll_cons_loop] at hjumps
    exact ⟨(List.cons.inj hjumps).2, hdepths⟩
  | @depart _ _ _ s parked t _ _ departure pending _ _ hfinds hpark h ih =>
    have hall : ∀ x ∈ pending.ensures, s.jumps.clauseAt? x.1 = some x.2 := fun x hx =>
      ((departure.ensures_of_finds hfinds).1 x.1 x.2).1 hx |>.2
    rw [← jumps_of_parks hpark] at hall
    have hcopies := ih hall
    refine ⟨?_, fun g hg => ?_⟩
    · show (JumpScopes.recordAll t.jumps _) = _
      rw [hcopies.1, jumps_of_parks hpark, List.map_append, JumpScopes.recordAll_append]
    · rw [← jumps_of_parks hpark]
      rcases List.mem_append.1 hg with hg | hg
      · exact hcopies.2 g hg
      · obtain ⟨clause, hclause, hruns⟩ := h.runs_of_mem_passageGaps hg
        exact ⟨clause, hall _ hclause, hruns⟩
  | rescue start stop done _ _ _ _ _ _ ih ih' ih'' =>
    exact ((ih trivial).trans (ih' trivial)).trans (ih'' trivial)
  | @ensure _ _ _ a b js js' n t gaps gaps' _ _ _ _ _ clause recorded _ _ _ _ ih ih' ih'' =>
    have hbody : Records ⟨a, js⟩ ⟨b.mark, js'⟩ _ := (ih trivial).close
    exact (hbody.trans (ih' trivial)).trans (ih'' trivial)
  | handled ranges _ hb _ _ ih =>
    subst hb
    exact ih trivial
  | @copy s b js t ensures _ _ gaps _ _ _ depth clause _ _ _ ih ih' =>
    have hcopy := (ih trivial).restore
    refine hcopy.trans (ih' fun x hx => ?_)
    have hx := hpending x (List.mem_cons_of_mem _ hx)
    rwa [hcopy.1, JumpScopes.clauseAt?_recordAll]

end Laid

end ClassBackend
