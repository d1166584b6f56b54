import ClassBackend.Proofs.Layout.Passage
import ClassBackend.Proofs.Layout.Record

/-!
# What an ensure block protects

The body of an ensure block is cut at its gaps, and what remains is protected
(`EnsureBlock.Exact`). The gaps come one after the other in the body, each from the
copy of the clause to the end of the jump (`Laid.departs`). The ranges between
them are not empty, ascend, and hold exactly the instructions of the body that lie
in no gap. Every ensure that a method has the code of has such a block
(`Program.ranges_exact`).
-/

namespace ClassBackend

/-! ## Pieces -/

section Pieces

variable {start stop p : Nat} {gaps : List Gap}
  (hin : ∀ g ∈ gaps, start ≤ g.start ∧ g.start < g.stop ∧ g.stop ≤ stop)
  (hsorted : gaps.Pairwise fun g g' => g.stop ≤ g'.start)

include hin hsorted

theorem pieces_ascend : (pieces start stop gaps).Pairwise fun x y => x.2 < y.1 := by
  induction gaps generalizing start with
  | nil => exact List.pairwise_singleton ..
  | cons first gaps ih =>
    obtain ⟨hfirst, hrest⟩ := List.pairwise_cons.1 hsorted
    have hin' : ∀ g ∈ gaps, first.stop ≤ g.start ∧ g.start < g.stop ∧ g.stop ≤ stop :=
      fun g hg => ⟨hfirst g hg, (hin g (List.mem_cons_of_mem _ hg)).2⟩
    refine List.pairwise_cons.2 ⟨fun piece hpiece => ?_, ih hin' hrest⟩
    exact (hin first List.mem_cons_self).2.1.trans_le
      (bounds_of_mem_pieces hin' hrest hpiece).1

theorem exists_piece_iff : (∃ piece ∈ pieces start stop gaps, piece.1 ≤ p ∧ p < piece.2) ↔
    start ≤ p ∧ p < stop ∧ ∀ g ∈ gaps, ¬(g.start ≤ p ∧ p < g.stop) := by
  induction gaps generalizing start with
  | nil => simp [pieces]
  | cons first gaps ih =>
    obtain ⟨hfirst, hrest⟩ := List.pairwise_cons.1 hsorted
    obtain ⟨hstart, hlt, hstop⟩ := hin first List.mem_cons_self
    rw [pieces, List.exists_mem_cons_iff, List.forall_mem_cons,
      ih (fun g hg => ⟨hfirst g hg, (hin g (List.mem_cons_of_mem _ hg)).2⟩) hrest]
    constructor
    · rintro (⟨hlo, hhi⟩ | ⟨hlo, hhi, hout⟩)
      · refine ⟨hlo, by omega, by omega, fun g hg => ?_⟩
        have hbehind := hfirst g hg
        omega
      · exact ⟨by omega, hhi, by omega, hout⟩
    · rintro ⟨hlo, hhi, hgap, hout⟩
      by_cases hp : p < first.start
      · exact .inl ⟨hlo, hp⟩
      · exact .inr ⟨by omega, hhi, hout⟩

end Pieces

/-! ## Gaps in the code -/

/-- The copy is in the code: its instructions are what was emitted for its clause. -/
def ClauseCopy.Renders (ctx : Context) (code : Array Instruction) (copy : ClauseCopy) : Prop :=
  ∃ s t, ctx.Emits copy.clause false s t ∧ s.offset = copy.start ∧ t.offset = copy.stop ∧
    t.body.code.toList <+: code.toList

/-- The gap holds its copies one after the other, and behind them the instructions
by which the jump leaves. -/
def Gap.Departs (ctx : Context) (code : Array Instruction) (g : Gap) : Prop :=
  (∀ copy ∈ g.copies, copy.Renders ctx code) ∧
  ∃ last, ClauseCopy.Chain g.start g.copies last ∧ g.stop = last + g.departure.code.length ∧
    ∀ n i, g.departure.code[n]? = some i → code[last + n]? = some i

/-- Where the body of the block and its gaps lie once the body is emitted. There
is a handler when a range is left to protect. -/
structure EnsureBlock.Placed (block : EnsureBlock) (a : Assembler) (first last : Label) :
    Prop where
  start : a.position? first = some block.start
  stop : a.position? last = some block.normal.start
  gaps : ∀ g ∈ block.gaps, g.Marked 0 a
  handled : block.handling = none ↔
    a.protectedRanges first last (block.gaps.map Gap.labels) = []

/-- The copies of the clause of a block that are in no gap. -/
def EnsureBlock.copies (block : EnsureBlock) : List ClauseCopy :=
  block.normal :: block.handling.toList.map Handling.copy

/-- The gaps of an ensure block and its other copies of the clause are in the code, and
its body has been placed. -/
def Block.Departs (ctx : Context) (code : Array Instruction) : Block → Prop
  | .ensure block => (∀ g ∈ block.gaps, g.Departs ctx code) ∧
    (∀ copy ∈ block.copies, copy.Renders ctx code) ∧ ∃ a first last, block.Placed a first last
  | .rescue _ => True

/-- Everything that was left open or laid down is in the code. -/
def Departs (ctx : Context) (code : Array Instruction) (gaps : List Gap) (blocks : List Block) :
    Prop :=
  (∀ g ∈ gaps, g.Departs ctx code) ∧ ∀ b ∈ blocks, b.Departs ctx code

section

variable {ctx : Context} {code code' : Array Instruction} {gaps gaps' : List Gap}
  {blocks blocks' : List Block}

theorem ClauseCopy.Renders.grow {copy : ClauseCopy} (h : copy.Renders ctx code)
    (hcode : code.toList <+: code'.toList) : copy.Renders ctx code' := by
  obtain ⟨s, t, hemits, hstart, hstop, ht⟩ := h
  exact ⟨s, t, hemits, hstart, hstop, ht.trans hcode⟩

theorem Gap.Departs.grow {g : Gap} (h : g.Departs ctx code)
    (hcode : code.toList <+: code'.toList) : g.Departs ctx code' := by
  obtain ⟨hcopies, last, hchain, hstop, hdeparture⟩ := h
  refine ⟨fun copy hcopy => (hcopies copy hcopy).grow hcode, last, hchain, hstop,
    fun n i hi => ?_⟩
  have hlast := hdeparture n i hi
  rw [← Array.getElem?_toList] at hlast ⊢
  obtain ⟨rest, hrest⟩ := hcode
  rwa [← hrest, List.getElem?_append_left (List.getElem?_eq_some_iff.1 hlast).1]

theorem Departs.grow (h : Departs ctx code gaps blocks) (hcode : code.toList <+: code'.toList) :
    Departs ctx code' gaps blocks := by
  refine ⟨fun g hg => (h.1 g hg).grow hcode, fun b hb => ?_⟩
  have hdeparts := h.2 b hb
  cases b with
  | ensure block =>
    exact ⟨fun g hg => (hdeparts.1 g hg).grow hcode,
      fun copy hcopy => (hdeparts.2.1 copy hcopy).grow hcode, hdeparts.2.2⟩
  | rescue block => trivial

theorem Departs.append (h : Departs ctx code gaps blocks) (h' : Departs ctx code gaps' blocks') :
    Departs ctx code (gaps ++ gaps') (blocks ++ blocks') :=
  ⟨List.forall_mem_append.2 ⟨h.1, h'.1⟩, List.forall_mem_append.2 ⟨h.2, h'.2⟩⟩

end

namespace Laid

variable {ctx : Context} {mode : Mode} {s t : Draft} {gaps : List Gap} {blocks : List Block}

/-- Where the body of an ensure block ends, its labels and those of its gaps have
been placed. -/
theorem placed {a b : Assembler} {js js' : JumpScopes} {n : Draft} {clause : Node}
    {recorded : List (Label × Label)} {handling : Option Handling} {gaps'' : List Gap}
    {blocks'' : List Block} {stop : Nat}
    (h : Laid ctx (.code [] [] []) ⟨a.mark, .ensure clause [] :: js⟩
      ⟨b, .ensure clause recorded :: js'⟩ gaps blocks)
    (h'' : Laid ctx (.handler clause (b.mark.protectedRanges a.nextLabel b.nextLabel recorded)
      handling) n t gaps'' blocks'') :
    EnsureBlock.Placed {
      clause, outer := js, start := a.offset
      gaps := gaps.filter fun g => g.depth == js.length
      normal := ⟨clause, b.offset, n.offset⟩, handling, stop } b.mark a.nextLabel b.nextLabel where
  start := (Grows.mark [] b).position?_of_nil
    (h.grows.position?_of_nil a.position?_mark_nextLabel)
  stop := b.position?_mark_nextLabel
  gaps := fun g hg => (((h.table (by simp [Mode.own]) trivial).1 g (List.mem_of_mem_filter hg)).grow
    (Grows.mark [] b) (by simp)).mono (Nat.zero_le _)
  handled := by
    rw [← h.recorded_eq trivial]
    generalize b.mark.protectedRanges a.nextLabel b.nextLabel recorded = ranges at h''
    cases h'' with
    | unhandled => simp
    | handled ranges hne => simpa using hne

/-- Every copy that a jump makes is in the code. -/
theorem copies_render {ensures : List (Nat × Node)} {starts : List Label}
    {made : List ClauseCopy} (h : Laid ctx (.copies ensures starts made) s t gaps blocks) :
    ∀ copy ∈ made, copy.Renders ctx t.body.code := by
  generalize hmode : Mode.copies ensures starts made = mode at h
  induction h generalizing ensures starts made with
  | noCopies s =>
    cases hmode
    exact nofun
  | copy depth clause hcopy hemits hrest _ ih =>
    cases hmode
    exact List.forall_mem_cons.2 ⟨⟨_, _, hemits, rfl, rfl, hrest.grows.code⟩, ih rfl⟩
  | _ => cases hmode

/-- The copy in a handler is one of the clause, and is in the code. -/
theorem handling_renders {clause : Node} {ranges : List (Label × Label)}
    {handling : Option Handling} (h : Laid ctx (.handler clause ranges handling) s t gaps blocks) :
    ∀ copy ∈ handling.toList.map Handling.copy,
      copy.clause = clause ∧ copy.Renders ctx t.body.code := by
  cases h with
  | unhandled => exact nofun
  | @handled _ _ b t' _ _ _ _ _ _ hemits =>
    refine List.forall_mem_singleton.2 ⟨rfl, ?_⟩
    exact ⟨_, _, hemits, by simp, rfl, (Grows.emitAll [] t'.body _).code⟩

theorem departs (h : Laid ctx mode s t gaps blocks) : Departs ctx t.body.code gaps blocks := by
  induction h with
  | trans _ h' ih ih' => exact (ih.grow h'.grows.code).append ih'
  | weaken _ _ _ _ ih | part _ _ _ _ ih | named _ _ _ ih | temporary _ _ ih | label _ _ ih
  | loop _ _ _ ih => exact ih
  | @depart _ _ _ s parked t gaps _ departure pending starts made _ _ h ih =>
    have hinner := ih.grow (grows_departure t departure (passageGaps parked.offset departure
      t.body.nextLabel (t.offset + departure.code.length) pending.ensures starts made)).code
    refine ⟨List.forall_mem_append.2 ⟨hinner.1, fun g hg => ?_⟩, hinner.2⟩
    obtain ⟨n, x, l, copy, hx, hl, hcopy, rfl⟩ := mem_passageGaps_iff.1 hg
    refine ⟨fun copy hcopy => (h.copies_render copy (List.mem_of_mem_drop hcopy)).grow
      (grows_departure ..).code, t.offset, h.chain.drop hcopy, rfl, fun n i hi => ?_⟩
    rw [Draft.code_closeGaps]
    exact (t.body.getElem?_emitAll departure.code n).trans hi
  | rescue start stop done _ _ _ h h' h'' ih ih' ih'' =>
    exact ((ih.grow h'.grows.code).append ih').grow h''.grows.code |>.append ih''
  | clause classes _ h h' ih ih' =>
    obtain ⟨hgaps, hblocks⟩ := (ih.grow h'.grows.code).append ih'
    exact ⟨hgaps, List.forall_mem_cons.2 ⟨trivial, hblocks⟩⟩
  | @ensure _ _ _ a b js js' n t _ _ _ _ _ _ _ clause recorded h h' hcopy h'' ih ih' ih'' =>
    have hbody := ih.grow (h'.grows.code.trans h''.grows.code)
    have hnormal := ih'.grow h''.grows.code
    refine ⟨List.forall_mem_append.2 ⟨List.forall_mem_append.2
      ⟨fun g hg => hbody.1 g (List.mem_of_mem_filter hg), hnormal.1⟩, ih''.1⟩, ?_⟩
    exact List.forall_mem_append.2 ⟨List.forall_mem_append.2 ⟨hbody.2, hnormal.2⟩,
      List.forall_mem_cons.2 ⟨⟨fun g hg => hbody.1 g (List.mem_of_mem_filter hg),
        List.forall_mem_cons.2 ⟨⟨_, _, hcopy, rfl, rfl, h''.grows.code⟩,
          fun copy hcopy => (h''.handling_renders copy hcopy).2⟩,
        _, _, _, h.placed h''⟩, ih''.2⟩⟩
  | handled ranges _ hb h _ ih => exact ih.grow (Grows.emitAll [] _ _).code
  | copy depth clause h _ h' ih ih' => exact (ih.grow h'.grows.code).append ih'
  | _ => exact ⟨nofun, nofun⟩

end Laid

/-! ## Ranges -/

/-- The instructions of the block's body that lie in no gap. -/
def EnsureBlock.Guards (block : EnsureBlock) (p : Nat) : Prop :=
  block.start ≤ p ∧ p < block.normal.start ∧
    ∀ g ∈ block.gaps, ¬(g.start ≤ p ∧ p < g.stop)

/-- The spans are not empty, follow one another, and hold what the block guards. -/
structure EnsureBlock.Splits (block : EnsureBlock) (spans : List (Nat × Nat)) : Prop where
  nonempty : ∀ span ∈ spans, span.1 < span.2
  ascend : spans.Pairwise fun x y => x.2 ≤ y.1
  holds : ∀ p, (∃ span ∈ spans, span.1 ≤ p ∧ p < span.2) ↔ block.Guards p

/-- What an ensure block protects, by the code of its method. A gap starts with the
clause of the block and ends behind the jump that runs it there. -/
structure EnsureBlock.Exact (ctx : Context) (code : Array Instruction) (block : EnsureBlock) :
    Prop where
  gaps_in : ∀ g ∈ block.gaps,
    block.start ≤ g.start ∧ g.start < g.stop ∧ g.stop ≤ block.normal.start
  gaps_ascend : block.gaps.Pairwise fun g g' => g.stop ≤ g'.start
  gaps_depart : ∀ g ∈ block.gaps, g.Runs block.clause ∧ g.Departs ctx code
  copies : ∀ copy ∈ block.copies, copy.Renders ctx code
  ranges : ∃ a first last, block.Placed a first last ∧ ∃ spans, block.Splits spans ∧
    (a.protectedRanges first last (block.gaps.map Gap.labels)).map
      (fun range => (a.position? range.1, a.position? range.2)) =
        spans.map fun span => (some span.1, some span.2)
  covers : ∀ p, (∃ e ∈ block.entries, e.start ≤ p ∧ p < e.stop) ↔ block.Guards p

namespace EnsureBlock

variable {block : EnsureBlock} {a : Assembler} {first last : Label}

theorem Shape.splits (h : block.Shape) : block.Splits
    ((pieces block.start block.normal.start block.gaps).filter fun piece =>
      decide (piece.1 < piece.2)) where
  nonempty := fun span hspan => by simpa using (List.mem_filter.1 hspan).2
  ascend := ((pieces_ascend (fun g hg => h.gap_in hg) h.sorted).imp Nat.le_of_lt).filter _
  holds := fun p => by
    rw [Guards, ← exists_piece_iff (fun g hg => h.gap_in hg) h.sorted]
    simp only [List.mem_filter, decide_eq_true_eq]
    constructor
    · rintro ⟨span, ⟨hspan, -⟩, hp⟩
      exact ⟨span, hspan, hp⟩
    · rintro ⟨span, hspan, hp⟩
      exact ⟨span, ⟨hspan, by omega⟩, hp⟩

theorem Placed.spans (h : block.Placed a first last) :
    (a.protectedRanges first last (block.gaps.map Gap.labels)).map
      (fun range => (a.position? range.1, a.position? range.2)) =
    ((pieces block.start block.normal.start block.gaps).filter fun piece =>
      decide (piece.1 < piece.2)).map fun span => (some span.1, some span.2) := by
  have hentries := congrArg (List.map fun e : ExceptionEntry => (some e.start, some e.stop))
    (catchAllEntry_protectedRanges (h := 0) h.start h.stop h.gaps)
  rw [List.map_map, List.map_map] at hentries
  refine .trans (List.map_congr_left fun range hrange => ?_) hentries
  obtain ⟨⟨p, hp⟩, q, hq⟩ := placed_of_mem_protectedRanges hrange
  simp [Assembler.catchAllEntry, hp, hq]

/-- The entries of a block cover what it guards; a block without a handler guards
nothing. -/
theorem Shape.covers (hshape : block.Shape) (h : block.Placed a first last) (p : Nat) :
    (∃ e ∈ block.entries, e.start ≤ p ∧ p < e.stop) ↔ block.Guards p := by
  rw [← hshape.splits.holds]
  cases hhandling : block.handling with
  | none =>
    have hspans := h.spans
    rw [h.handled.1 hhandling, List.map_nil, eq_comm, List.map_eq_nil_iff] at hspans
    simp [EnsureBlock.entries, hhandling, hspans]
  | some handling => simp [EnsureBlock.entries, hhandling]

end EnsureBlock

theorem Laid.exact {ctx : Context} {s t : Draft} {gaps : List Gap} {blocks : List Block}
    {block : EnsureBlock} {code : Array Instruction}
    (h : Laid ctx (.code [] [] []) s t gaps blocks) (hblock : .ensure block ∈ blocks)
    (hcode : t.body.code.toList <+: code.toList) : block.Exact ctx code := by
  have hshape : block.Shape := (h.within _ hblock).1
  obtain ⟨hdeparts, hcopies, a, first, last, hplaced⟩ := (h.departs.grow hcode).2 _ hblock
  exact {
    gaps_in := fun g hg => hshape.gap_in hg
    gaps_ascend := hshape.sorted
    gaps_depart := fun g hg => ⟨hshape.runs g hg, hdeparts g hg⟩
    copies := hcopies
    ranges := ⟨a, first, last, hplaced, _, hshape.splits, hplaced.spans⟩
    covers := hshape.covers hplaced }

/-- The block is what was emitted for the ensure: its body is the code of the node's
body, and its gaps are those that the jumps in that code left for it. -/
structure EnsureBlock.Renders (ctx : Context) (code : Array Instruction) (body clause : Node)
    (block : EnsureBlock) : Prop where
  runs : block.clause = clause ∧ ∀ copy ∈ block.copies, copy.clause = clause
  body : ∃ value ty x y gaps blocks, ctx.EmitsArm (some body) value ty x y ∧
    x.offset = block.start ∧ y.offset = block.normal.start ∧
    y.body.code.toList <+: code.toList ∧ x.jumps = .ensure clause [] :: block.outer ∧
    Laid ctx (.code [] [] []) x y gaps blocks ∧
    block.gaps = gaps.filter fun g => g.depth == block.outer.length

/-- Where the code of an ensure starts in a method, its block follows. It protects its
body outside its gaps, by entries that stand together in the exception table. -/
def MethodInfo.EnsuresAt (method : MethodInfo) (ctx : Context) (node : Node) (start : Nat) :
    Prop :=
  ∀ body clause, node.kind = .ensure body clause → ∃ block : EnsureBlock,
    block.start = start ∧ block.Renders ctx method.code body clause ∧
    block.Exact ctx method.code ∧
    ∃ before behind, method.exceptionTable = before ++ block.entries ++ behind

/-- The exception table is that of some blocks. Every ensure block among them protects
its body outside its gaps, and so does the block of every ensure that the method has
the code of. -/
def MethodInfo.GuardsExactly (ctx : Context) (method : MethodInfo) : Prop :=
  (∃ blocks, method.LaidOut ctx blocks ∧ method.exceptionTable = blocks.flatMap Block.entries ∧
    ∀ block, .ensure block ∈ blocks → block.Exact ctx method.code) ∧
  ∀ node start, (node, start) ∈ method.nodes → method.EnsuresAt ctx node start

namespace Context

open Emit

variable {ctx : Context} {node body clause : Node} {want value : Bool} {ty : Ty} {s t : Draft}
  {method : MethodInfo}

theorem Emits.ensureParts (h : ctx.Emits node want s t) (hkind : node.kind = .ensure body clause) :
    ∃ first ty parts gaps blocks, SameCode s first ∧ ctx.typeOf node = .ok ty ∧
      EnsureParts.Emitted parts first clause ctx body (want && !ty.isVoid) ty ∧
      Laid ctx (.code [] [] []) parts.last t gaps blocks := by
  obtain ⟨depth, σ, σ', hemit, hs, ht⟩ := h
  cases depth with
  | zero => exact absurd hemit throw_ne_ok
  | succ depth =>
    obtain ⟨_, τ, henter, hrun⟩ := bind_eq_ok.1 hemit
    obtain ⟨first, hτ, hfirst⟩ := enter_draft henter hs
    simp only [hkind] at hrun
    obtain ⟨ty, parts, τ', hty, hparts, hτ', hfill⟩ :=
      emitEnsure_parts (lays_recursion ctx depth) hrun hτ
    obtain ⟨t', gaps, blocks, ht', hlaid⟩ := lays_fillValue _ _ hfill hτ'
    cases ht.symm.trans ht'
    exact ⟨first, ty, parts, gaps, blocks, sameCode_of_entered hfirst, hty, hparts, hlaid⟩

theorem EnsureParts.Emitted.renders {parts : EnsureParts}
    (h : parts.Emitted s clause ctx body value ty) {code : Array Instruction}
    (hcode : parts.last.body.code.toList <+: code.toList) :
    (parts.block s clause).Renders ctx code body clause := by
  obtain ⟨_, hnormal⟩ := h.normalLaid
  obtain ⟨_, hhandler⟩ := h.handlerLaid
  refine ⟨⟨rfl, List.forall_mem_cons.2 ⟨rfl, ?_⟩⟩, value, ty, _, _, _, _, h.arm, rfl, rfl, ?_, rfl,
    h.bodyLaid, rfl⟩
  · exact fun copy hcopy => (hhandler.handling_renders copy hcopy).1
  · exact ((Grows.mark [] parts.body).code.trans hnormal.grows.code).trans
      (hhandler.grows.code.trans hcode)

theorem Emits.ensures (h : ctx.Emits node want s t) (hmethod : method.Includes s t) :
    method.EnsuresAt ctx node s.offset := by
  intro body clause hkind
  obtain ⟨first, ty, parts, gaps, blocks, hfirst, -, hparts, hlast⟩ := h.ensureParts hkind
  obtain ⟨_, hlaid⟩ := hparts.laid
  have hwhole := hlaid.trans hlast
  have hblock : .ensure (parts.block first clause) ∈ parts.blocks first clause ++ blocks := by
    simp [EnsureParts.blocks]
  obtain ⟨before, outer, htable, -⟩ := (hfirst.includes hmethod).table hwhole
  obtain ⟨own, b, hgrows, hfinish, -⟩ := hmethod.continued
  have hcode : t.body.code.toList <+: method.code.toList := by
    rw [(Assembler.finish_eq_ok hfinish).2.2.1]
    exact hgrows.code
  refine ⟨_, hfirst.offset, hparts.renders (hlast.grows.code.trans hcode),
    hwhole.exact hblock hcode, ?_⟩
  obtain ⟨pre, post, hsplit⟩ := List.append_of_mem hblock
  rw [htable, hsplit]
  exact ⟨before ++ pre.flatMap Block.entries, post.flatMap Block.entries ++ outer,
    by simp [Block.entries]⟩

end Context

/-- In every method of a compiled unit, an instruction is covered by the handler of
an ensure exactly if it was emitted for the body of the ensure and lies in no
gap of it. -/
theorem Program.ranges_exact {program : Program} {compiled : CompiledUnit}
    (h : program.compile.1 = .ok compiled) :
    ∃ ctx : Context, ∀ c ∈ compiled.classes, ∀ method ∈ c.methods, method.GuardsExactly ctx := by
  obtain ⟨ctx, hbuilds⟩ := exists_builds h
  refine ⟨ctx, fun c hc method hmethod => ?_⟩
  obtain ⟨blocks, hlaidOut⟩ := (hbuilds c hc method hmethod).laidOut
  refine ⟨⟨blocks, hlaidOut, hlaidOut.table.1, fun block hblock => ?_⟩, fun node start hmem => ?_⟩
  · obtain ⟨a, t, -, hlaid, hfinish⟩ := hlaidOut
    refine hlaid.exact hblock ?_
    rw [(Assembler.finish_eq_ok hfinish).2.2.1]
  · obtain ⟨want, s, t, hemits, rfl, hincludes⟩ := (hlaidOut.mem_nodes_iff node start).1 hmem
    exact hemits.ensures hincludes

def Node.isEnsure (node : Node) : Bool :=
  match node.kind with
  | .ensure _ _ => true
  | _ => false

theorem leavingDemo_ranges_exact : ∃ compiled, (leavingDemo false).compile.1 = .ok compiled ∧
    (∃ c ∈ compiled.classes, ∃ method ∈ c.methods, ∃ entry ∈ method.nodes,
      entry.1.isEnsure = true) ∧
    ∃ ctx : Context, ∀ c ∈ compiled.classes, ∀ method ∈ c.methods, method.GuardsExactly ctx := by
  obtain ⟨compiled, hcompile, heval⟩ := exists_ok_of_any (x := (leavingDemo false).compile.1)
    (p := (·.classes.any (·.methods.any (·.nodes.any (·.1.isEnsure))))) (by decide +kernel)
  exact ⟨compiled, hcompile, by simpa using heval, Program.ranges_exact hcompile⟩

end ClassBackend
