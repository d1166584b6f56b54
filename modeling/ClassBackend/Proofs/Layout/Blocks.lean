import ClassBackend.Proofs.Layout.Shape

/-!
# How gaps and blocks lie to one another

Gaps and blocks lie inside the code that was laid down. Gaps of one block come one
after the other, and the bodies of two blocks are apart or nested. An entry of the
exception table made inside the body of an ensure block relates to a gap of that
block in one of three ways (`Apart`): it belongs to a copy in the gap, it does not
touch the gap, or it is that of a rescue clause and covers the gap as a whole.

All of this holds of code that follows other code if it holds of both
(`Lies.append`), and so of all that is laid down (`Laid.lies`).
-/

namespace ClassBackend

variable {g : Gap} {e : ExceptionEntry} {clause : Node} {ranges : List (Label × Label)}
  {handling : Option Handling}

/-! ## Pieces between gaps -/

section Pieces

variable {start stop : Nat} {gaps : List Gap} {piece : Nat × Nat}
  (hin : ∀ g ∈ gaps, start ≤ g.start ∧ g.start < g.stop ∧ g.stop ≤ stop)
  (hsorted : gaps.Pairwise fun g g' => g.stop ≤ g'.start)

include hin hsorted

private theorem tail_in {first : Gap} {rest : List Gap} (hgaps : gaps = first :: rest) :
    (∀ g ∈ rest, first.stop ≤ g.start ∧ g.start < g.stop ∧ g.stop ≤ stop) ∧
      rest.Pairwise fun g g' => g.stop ≤ g'.start := by
  subst hgaps
  obtain ⟨hfirst, hrest⟩ := List.pairwise_cons.1 hsorted
  exact ⟨fun g hg => ⟨hfirst g hg, (hin g (List.mem_cons_of_mem _ hg)).2⟩, hrest⟩

theorem bounds_of_mem_pieces (hpiece : piece ∈ pieces start stop gaps) :
    start ≤ piece.1 ∧ piece.2 ≤ stop ∧
      ∀ g ∈ gaps, piece.2 ≤ g.start ∨ g.stop ≤ piece.1 := by
  induction gaps generalizing start with
  | nil =>
    obtain rfl := List.mem_singleton.1 hpiece
    exact ⟨le_rfl, le_rfl, by simp⟩
  | cons first gaps ih =>
    obtain ⟨hrest, hsorted'⟩ := tail_in hin hsorted rfl
    obtain ⟨hstart, hlt, hstop⟩ := hin first List.mem_cons_self
    rcases List.mem_cons.1 hpiece with rfl | hpiece
    · refine ⟨le_rfl, hlt.le.trans hstop, fun g hg => .inl ?_⟩
      rcases List.mem_cons.1 hg with rfl | hg
      · exact le_rfl
      · exact hlt.le.trans (hrest g hg).1
    · obtain ⟨hlo, hhi, hout⟩ := ih hrest hsorted' hpiece
      refine ⟨(hstart.trans hlt.le).trans hlo, hhi, fun g hg => ?_⟩
      rcases List.mem_cons.1 hg with rfl | hg
      · exact .inr hlo
      · exact hout g hg

end Pieces

/-! ## Extent of blocks -/

structure EnsureBlock.Shape (block : EnsureBlock) : Prop where
  body_le : block.start ≤ block.normal.start
  normal_le : block.normal.start ≤ block.normal.stop
  spans : ∀ g ∈ block.gaps, g.Spans block.start block.normal.start
  sorted : block.gaps.Pairwise fun g g' => g.stop ≤ g'.start
  runs : ∀ g ∈ block.gaps, g.Runs block.clause
  handled : ∀ handling, block.handling = some handling →
    block.normal.stop ≤ handling.start ∧ handling.copy.start = handling.start + 1 ∧
      handling.copy.start ≤ handling.copy.stop ∧ block.stop = handling.copy.stop + 2
  unhandled : block.handling = none → block.stop = block.normal.stop

structure RescueBlock.Shape (block : RescueBlock) : Prop where
  body_lt : block.start < block.stop
  stop_le : block.stop ≤ block.handler
  clause_le : block.handler ≤ block.finish

/-- The block lies between two points, with its parts in order. -/
def Block.Within (lo hi : Nat) : Block → Prop
  | .ensure block => block.Shape ∧ lo ≤ block.start ∧ block.stop ≤ hi
  | .rescue block => block.Shape ∧ lo ≤ block.start ∧ block.finish ≤ hi

namespace EnsureBlock.Shape

variable {block : EnsureBlock} (h : block.Shape)

include h

theorem normal_stop_le : block.normal.stop ≤ block.stop := by
  cases hhandling : block.handling with
  | none => exact (h.unhandled hhandling).ge
  | some handling =>
    obtain ⟨hstart, hcopy, hle, hstop⟩ := h.handled handling hhandling
    omega

theorem gap_in (hg : g ∈ block.gaps) :
    block.start ≤ g.start ∧ g.start < g.stop ∧ g.stop ≤ block.normal.start :=
  ⟨(h.spans g hg).lo_le_start, (h.spans g hg).start_lt_stop, (h.spans g hg).le_hi⟩

/-- An entry of the block protects a part of its body outside the gaps. -/
theorem entry_bounds (he : e ∈ block.entries) :
    ∃ handling, block.handling = some handling ∧ e.handler = handling.start ∧
      e.catchType = none ∧ block.start ≤ e.start ∧ e.stop ≤ block.normal.start ∧
      e.start < e.stop ∧ ∀ g ∈ block.gaps, e.stop ≤ g.start ∨ g.stop ≤ e.start := by
  simp only [EnsureBlock.entries, List.mem_flatMap, Option.mem_toList, List.mem_map,
    List.mem_filter, decide_eq_true_eq] at he
  obtain ⟨handling, hhandling, piece, ⟨hpiece, hlt⟩, rfl⟩ := he
  obtain ⟨hlo, hhi, hout⟩ := bounds_of_mem_pieces (fun g hg => h.gap_in hg) h.sorted hpiece
  exact ⟨handling, hhandling, rfl, rfl, hlo, hhi, hlt, hout⟩

end EnsureBlock.Shape

namespace Block

variable {lo hi lo' hi' : Nat} {block : Block}

theorem Within.mono (h : block.Within lo hi) (hlo : lo' ≤ lo) (hhi : hi ≤ hi') :
    block.Within lo' hi' := by
  cases block with
  | ensure | rescue => exact ⟨h.1, hlo.trans h.2.1, h.2.2.trans hhi⟩

theorem Within.bounds (h : block.Within lo hi) :
    lo ≤ block.start ∧ block.start ≤ block.bodyStop ∧ block.bodyStop ≤ block.stop ∧
      block.stop ≤ hi := by
  cases block with
  | ensure block =>
    obtain ⟨hshape, hlo, hhi⟩ := h
    exact ⟨hlo, hshape.body_le, hshape.normal_le.trans hshape.normal_stop_le, hhi⟩
  | rescue block =>
    obtain ⟨hshape, hlo, hhi⟩ := h
    exact ⟨hlo, hshape.body_lt.le, le_rfl, (hshape.stop_le.trans hshape.clause_le).trans hhi⟩

/-- An entry of a block protects code of its body, and its handler lies behind
the body. -/
theorem Within.entry (h : block.Within lo hi) (he : e ∈ block.entries) :
    block.start ≤ e.start ∧ e.stop ≤ block.bodyStop ∧ block.bodyStop ≤ e.handler ∧
      e.handler ≤ hi := by
  cases block with
  | ensure block =>
    obtain ⟨hshape, hlo, hhi⟩ := h
    obtain ⟨handling, hhandling, hhandler, -, hstart, hstop, -, -⟩ := hshape.entry_bounds he
    obtain ⟨hle, hcopy, hspan, hend⟩ := hshape.handled handling hhandling
    have hnormal := hshape.normal_le
    refine ⟨hstart, hstop, ?_, ?_⟩
    · show block.normal.start ≤ e.handler
      omega
    · omega
  | rescue block =>
    obtain ⟨hshape, hlo, hhi⟩ := h
    obtain ⟨name, -, rfl⟩ := List.mem_map.1 he
    exact ⟨le_rfl, le_rfl, hshape.stop_le, hshape.clause_le.trans hhi⟩

theorem Within.start_lt_stop (h : block.Within lo hi) (he : e ∈ block.entries) :
    e.start < e.stop := by
  cases block with
  | ensure block =>
    obtain ⟨_, -, -, -, -, -, hlt, -⟩ := h.1.entry_bounds he
    exact hlt
  | rescue block =>
    obtain ⟨name, -, rfl⟩ := List.mem_map.1 he
    exact h.1.body_lt

end Block

/-! ## Entries and gaps -/

inductive Apart (e : ExceptionEntry) (g : Gap) : Prop
  /-- The entry and its handler belong to a copy in the gap. -/
  | inCopy (copy : ClauseCopy) : copy ∈ g.copies → copy.start ≤ e.start → e.stop ≤ copy.stop →
    copy.start ≤ e.handler → e.handler ≤ copy.stop → Apart e g
  | beside : e.stop ≤ g.start ∨ g.stop ≤ e.start → ¬ g.Inside e.handler → Apart e g
  /-- The entry is that of a rescue clause and covers the gap. -/
  | rescued : e.start ≤ g.start → g.stop ≤ e.stop → e.catchType ≠ none →
    ¬ g.Inside e.handler → Apart e g

theorem not_inside_of_le {q : Nat} (h : q ≤ g.start) : ¬ g.Inside q :=
  fun hin => Nat.not_lt_of_le h hin.1

theorem not_inside_of_ge {q : Nat} (h : g.stop ≤ q) : ¬ g.Inside q :=
  fun hin => Nat.not_lt_of_le h hin.2

theorem Apart.of_le {block : Block} {lo m : Nat} (h : block.Within lo m) (he : e ∈ block.entries)
    (hg : m ≤ g.start) : Apart e g := by
  obtain ⟨-, hstop, -, hhandler⟩ := h.entry he
  obtain ⟨-, -, hbody, hend⟩ := h.bounds
  exact .beside (.inl (((hstop.trans hbody).trans hend).trans hg))
    (not_inside_of_le (hhandler.trans hg))

theorem Apart.of_ge {block : Block} {m hi : Nat} (h : block.Within m hi) (he : e ∈ block.entries)
    (hg : g.stop ≤ m) : Apart e g := by
  obtain ⟨hstart, -, hhandler, -⟩ := h.entry he
  obtain ⟨hlo, hbody, -, -⟩ := h.bounds
  exact .beside (.inr ((hg.trans hlo).trans hstart))
    (not_inside_of_ge (((hg.trans hlo).trans hbody).trans hhandler))

/-! ## Nesting of blocks -/

/-- How a block lies to an ensure block behind it in the exception table. -/
inductive Block.Precedes (block : Block) (later : EnsureBlock) : Prop
  | inBody : block.Within later.start later.normal.start →
    (∀ e ∈ block.entries, ∀ g ∈ later.gaps, Apart e g) → Precedes block later
  | inNormal : block.Within later.normal.start later.normal.stop → Precedes block later
  | outside : block.bodyStop ≤ later.start ∨ later.stop ≤ block.start → Precedes block later

/-- How a block lies to an ensure block before it in the exception table. -/
inductive Block.Follows (block : Block) (earlier : EnsureBlock) : Prop
  | inHandler (handling : Handling) : earlier.handling = some handling →
    block.Within handling.copy.start handling.copy.stop → Follows block earlier
  | outside : block.bodyStop ≤ earlier.start ∨ earlier.stop ≤ block.start →
    Follows block earlier
  | around : block.start ≤ earlier.start → earlier.stop ≤ block.bodyStop →
    Follows block earlier

/-- How two blocks in the order of the exception table lie to each other. -/
structure Block.Beside (earlier later : Block) : Prop where
  precedes : ∀ block, later = .ensure block → earlier.Precedes block
  follows : ∀ block, earlier = .ensure block → later.Follows block

namespace Block

variable {block block' : Block} {lo m hi : Nat}

theorem Within.beside (h : block.Within lo m) (h' : block'.Within m hi) : block.Beside block' where
  precedes := fun _ heq => .outside (.inl (((h.bounds.2.2.1.trans h.bounds.2.2.2).trans
    h'.bounds.1).trans (heq ▸ le_rfl)))
  follows := fun _ heq => .outside (.inr ((show block.stop ≤ _ from
    h.bounds.2.2.2.trans h'.bounds.1).trans' (heq ▸ le_rfl)))

/-- A rescue clause comes behind the ensure blocks in the code it protects. -/
theorem Within.beside_around {clause : RescueBlock} (h : block.Within clause.start clause.stop) :
    block.Beside (.rescue clause) where
  precedes := nofun
  follows := fun earlier heq => by
    subst heq
    exact .around h.2.1 h.2.2

theorem Within.beside_behind {clause : RescueBlock} (h : block.Within lo hi)
    (hle : clause.stop ≤ lo) : block.Beside (.rescue clause) where
  precedes := nofun
  follows := fun earlier heq => by
    subst heq
    exact .outside (.inl (hle.trans h.2.1))

/-- A rescue clause comes before the blocks behind the code it protects. -/
theorem Within.beside_of_rescue {clause : RescueBlock} (h : block.Within lo hi)
    (hle : clause.stop ≤ lo) : (Block.rescue clause).Beside block where
  precedes := fun later heq => by
    subst heq
    exact .outside (.inl (hle.trans h.2.1))
  follows := nofun

end Block

/-! ## Code that follows other code -/

variable {ctx : Context} {mode : Mode} {s t : Draft} {gaps : List Gap} {blocks : List Block}
  {ensures : List (Nat × Node)} {starts : List Label} {made : List ClauseCopy}
  {a b : Assembler} {js js' : JumpScopes} {n : Draft} {known recorded : List (Label × Label)}
  {gaps' gaps'' : List Gap} {blocks' blocks'' : List Block}

/-- The block lies between two points, or it is a rescue clause there and protects
one of these ranges. -/
def Block.Lies (ranges : List (Nat × Nat)) (lo hi : Nat) (block : Block) : Prop :=
  block.Within lo hi ∨ ∃ clause, block = .rescue clause ∧ (clause.start, clause.stop) ∈ ranges ∧
    clause.Shape ∧ lo ≤ clause.handler ∧ clause.finish ≤ hi

/-- How gaps and blocks lie between two points. The ranges are those of the code
before, which rescue clauses in between protect. -/
structure Lies (isOpen : Nat → Prop) (ranges : List (Nat × Nat)) (lo hi : Nat) (gaps : List Gap)
    (blocks : List Block) : Prop where
  fits : ∀ g ∈ gaps, g.Fits isOpen gaps lo hi
  ordered : Gap.Ordered gaps
  places : ∀ block ∈ blocks, block.Lies ranges lo hi
  apart : ∀ block ∈ blocks, ∀ e ∈ block.entries, ∀ g ∈ gaps, Apart e g
  beside : blocks.Pairwise Block.Beside

namespace Lies

variable {isOpen isOpen' : Nat → Prop} {ranges ranges' : List (Nat × Nat)} {lo m hi lo' hi' : Nat}

theorem nil : Lies isOpen ranges lo hi [] [] :=
  ⟨by simp, .nil, by simp, by simp, .nil⟩

theorem within (h : Lies isOpen [] lo hi gaps blocks) : ∀ block ∈ blocks, block.Within lo hi :=
  fun block hb => (h.places block hb).resolve_right (by simp)

theorem mono (h : Lies isOpen [] lo hi gaps blocks) (hopen : ∀ d, isOpen' d → isOpen d)
    (hlo : lo' ≤ lo) (hhi : hi ≤ hi') : Lies isOpen' [] lo' hi' gaps blocks :=
  { h with
    fits := fun g hg => (h.fits g hg).mono hopen hlo hhi (List.Subset.refl _)
    places := fun block hb => .inl ((h.within block hb).mono hlo hhi) }

/-- The clauses in the code behind protect all of the code before, or none of it. -/
theorem append (ranges : List (Nat × Nat)) (h : Lies isOpen [] lo m gaps blocks)
    (h' : Lies isOpen ranges' m hi gaps' blocks') (hlo : lo ≤ m) (hhi : m ≤ hi)
    (hranges : ∀ r ∈ ranges', r = (lo, m) ∨ r.2 ≤ lo ∧ r ∈ ranges) :
    Lies isOpen ranges lo hi (gaps ++ gaps') (blocks ++ blocks') where
  fits := List.forall_mem_append.2 ⟨
    fun g hg => (h.fits g hg).mono (fun _ => id) le_rfl hhi (List.subset_append_left ..),
    fun g hg => (h'.fits g hg).mono (fun _ => id) hlo le_rfl (List.subset_append_right ..)⟩
  ordered := List.pairwise_append.2 ⟨h.ordered, h'.ordered, fun g hg g' hg' _ =>
    (h.fits g hg).spans.le_hi.trans (h'.fits g' hg').spans.lo_le_start⟩
  places := by
    refine List.forall_mem_append.2
      ⟨fun block hb => .inl ((h.within block hb).mono le_rfl hhi), fun block hb => ?_⟩
    rcases h'.places block hb with hwithin | ⟨clause, rfl, hrange, hshape, hhandler, hfinish⟩
    · exact .inl (hwithin.mono hlo le_rfl)
    · rcases hranges _ hrange with heq | ⟨-, hmem⟩
      · exact .inl ⟨hshape, (Prod.mk.inj heq).1.ge, hfinish⟩
      · exact .inr ⟨clause, rfl, hmem, hshape, hlo.trans hhandler, hfinish⟩
  apart := by
    intro block hb e he g hg
    rcases List.mem_append.1 hb with hb | hb <;> rcases List.mem_append.1 hg with hg | hg
    · exact h.apart block hb e he g hg
    · exact .of_le (h.within block hb) he (h'.fits g hg).spans.lo_le_start
    · have hspans := (h.fits g hg).spans
      rcases h'.places block hb with hwithin | ⟨clause, rfl, hrange, -, hhandler, -⟩
      · exact .of_ge hwithin he hspans.le_hi
      · obtain ⟨name, -, rfl⟩ := List.mem_map.1 he
        have hout : ¬ g.Inside clause.handler := not_inside_of_ge (hspans.le_hi.trans hhandler)
        rcases hranges _ hrange with heq | ⟨hbefore, -⟩
        · obtain ⟨hstart, hstop⟩ := Prod.mk.inj heq
          exact .rescued (hstart.le.trans hspans.lo_le_start) (hspans.le_hi.trans hstop.ge)
            (by simp) hout
        · exact .beside (.inl (hbefore.trans hspans.lo_le_start)) hout
    · exact h'.apart block hb e he g hg
  beside := by
    refine List.pairwise_append.2 ⟨h.beside, h'.beside, fun block hb later hlater => ?_⟩
    have hblock := h.within block hb
    rcases h'.places later hlater with hwithin | ⟨clause, rfl, hrange, -⟩
    · exact hblock.beside hwithin
    · rcases hranges _ hrange with heq | ⟨hbefore, -⟩
      · obtain ⟨hstart, hstop⟩ := Prod.mk.inj heq
        exact Block.Within.beside_around (hblock.mono hstart.le hstop.ge)
      · exact hblock.beside_behind hbefore

theorem insert {block : Block} (h : Lies isOpen ranges lo hi gaps (blocks ++ blocks'))
    (hblock : block.Lies ranges lo hi) (hapart : ∀ e ∈ block.entries, ∀ g ∈ gaps, Apart e g)
    (hbefore : ∀ b ∈ blocks, b.Beside block) (hafter : ∀ b ∈ blocks', block.Beside b) :
    Lies isOpen ranges lo hi gaps (blocks ++ block :: blocks') := by
  obtain ⟨hlies, hlies'⟩ := List.forall_mem_append.1 h.places
  obtain ⟨happarts, happarts'⟩ := List.forall_mem_append.1 h.apart
  obtain ⟨hbeside, hbeside', hboth⟩ := List.pairwise_append.1 h.beside
  exact { h with
    places := List.forall_mem_append.2 ⟨hlies, List.forall_mem_cons.2 ⟨hblock, hlies'⟩⟩
    apart := List.forall_mem_append.2 ⟨happarts, List.forall_mem_cons.2 ⟨hapart, happarts'⟩⟩
    beside := List.pairwise_append.2 ⟨hbeside, List.pairwise_cons.2 ⟨hafter, hbeside'⟩,
      fun b hb => List.forall_mem_cons.2 ⟨hbefore b hb, hboth b hb⟩⟩ }

/-- The gaps of an ensure block itself do not count outside. -/
theorem close (h : Lies (Draft.Opens ⟨a, .ensure clause known :: js⟩) [] lo hi gaps blocks) :
    Lies (Draft.Opens ⟨b, js⟩) [] lo hi (gaps.filter fun g => g.depth != js.length) blocks :=
  { h with
    fits := fun g hg => by
      have hfits := h.fits g (List.mem_of_mem_filter hg)
      refine ⟨hfits.spans, fun d hd hlt => ?_⟩
      obtain ⟨c, hc⟩ := hd
      have hd : d < js.length := JumpScopes.lt_of_clauseAt? hc
      obtain ⟨g', hg', hdepth, hcover⟩ :=
        hfits.enclosed d ⟨c, (JumpScopes.clauseAt?_cons_of_lt _ hd).trans hc⟩ hlt
      exact ⟨g', List.mem_filter.2 ⟨hg', by simp; omega⟩, hdepth, hcover⟩
    ordered := h.ordered.filter _
    apart := fun block hb e he g hg => h.apart block hb e he g (List.mem_of_mem_filter hg) }

end Lies

/-! ## The code of an ensure block -/

/-- How gaps and blocks lie in what is laid down. What belongs to a clause that is
copied lies in that copy, and its gaps are those of blocks further out. -/
def Mode.Lies (s t : Draft) (gaps : List Gap) (blocks : List Block) : Mode → Prop
  | .copies ensures _ made =>
    ClassBackend.Lies (fun _ => False) [] s.offset t.offset gaps blocks ∧
      (∀ g ∈ gaps, ∃ (n : Nat) (x : Nat × Node) (copy : ClauseCopy), ensures[n]? = some x ∧
        made[n]? = some copy ∧ g.depth < x.1 ∧
        g.Fits (fun d => s.Opens d ∧ d < x.1) gaps copy.start copy.stop) ∧
      ∀ block ∈ blocks, ∃ copy ∈ made, block.Within copy.start copy.stop
  | .clauses _ _ _ range _ => ClassBackend.Lies s.Opens [range] s.offset t.offset gaps blocks
  | .handler _ _ (some handling) =>
    ClassBackend.Lies s.Opens [] handling.copy.start handling.copy.stop gaps blocks
  | .handler _ _ none => gaps = [] ∧ blocks = []
  | .code .. => ClassBackend.Lies s.Opens [] s.offset t.offset gaps blocks

namespace Laid

theorem handling_bounds (h : Laid ctx (.handler clause ranges handling) s t gaps blocks) :
    (∀ handling', handling = some handling' → s.offset ≤ handling'.start ∧
      handling'.copy.start = handling'.start + 1 ∧
      handling'.copy.start ≤ handling'.copy.stop ∧ t.offset = handling'.copy.stop + 2) ∧
      (handling = none → t.offset = s.offset) := by
  cases h with
  | unhandled s => exact ⟨nofun, fun _ => rfl⟩
  | @handled _ s b t _ _ ranges hne hb h _ =>
    refine ⟨fun handling' heq => ?_, nofun⟩
    cases heq
    have hs : s.offset ≤ b.offset := by
      rw [hb]
      exact ((Grows.label [] s.body).trans (grows_gotoIfReachable _ _)).offset_le
    have hcopy : b.offset + 1 ≤ t.offset := by simpa using h.offset_le
    exact ⟨hs, rfl, hcopy, by simp⟩

theorem handler_lies (h : Laid ctx (.handler clause ranges handling) s t gaps blocks)
    (hlies : (Mode.handler clause ranges handling).Lies s t gaps blocks) :
    Lies s.Opens [] s.offset t.offset gaps blocks := by
  cases handling with
  | none =>
    obtain ⟨rfl, rfl⟩ := hlies
    exact .nil
  | some handling =>
    obtain ⟨hstart, hcopy, -, hstop⟩ := h.handling_bounds.1 handling rfl
    exact Lies.mono hlies (fun _ => id) (by omega) (by omega)

section

variable
  (h : Laid ctx (.code [] [] []) ⟨a.mark, .ensure clause known :: js⟩
    ⟨b, .ensure clause recorded :: js'⟩ gaps blocks)
  (hbody : Lies (Draft.Opens ⟨a.mark, .ensure clause known :: js⟩) [] a.offset b.offset gaps blocks)
  (h' : Laid ctx (.code [] [] []) ⟨b.mark, js'⟩ n gaps' blocks')
  (h'' : Laid ctx (.handler clause ranges handling) n t gaps'' blocks'')

include h hbody h' h''

theorem ensure_shape :
    EnsureBlock.Shape
      { clause, outer := js, start := a.offset,
        gaps := gaps.filter (fun g => g.depth == js.length),
        normal := ⟨clause, b.offset, n.offset⟩, handling, stop := t.offset } where
  body_le := h.offset_le
  normal_le := h'.offset_le
  spans := fun g hg => (hbody.fits g (List.mem_of_mem_filter hg)).spans
  sorted := by
    refine List.Pairwise.imp_of_mem ?_ (List.Pairwise.filter _ hbody.ordered)
    intro g g' hg hg' hle
    have hdepth := (List.mem_filter.1 hg).2
    have hdepth' := (List.mem_filter.1 hg').2
    simp only [beq_iff_eq] at hdepth hdepth'
    exact hle (hdepth.trans hdepth'.symm)
  runs := fun g hg => by
    obtain ⟨hg, hdepth⟩ := List.mem_filter.1 hg
    obtain ⟨c, hc, hruns⟩ := (h.records trivial).2 g hg
    rw [beq_iff_eq.1 hdepth, JumpScopes.clauseAt?_ensure_self] at hc
    rwa [Option.some.inj hc]
  handled := h''.handling_bounds.1
  unhandled := h''.handling_bounds.2

variable (hnormal : Lies (Draft.Opens ⟨b.mark, js'⟩) [] b.offset n.offset gaps' blocks')
  (hhandler : (Mode.handler clause ranges handling).Lies n t gaps'' blocks'')

include hnormal hhandler

/-- The entries of an ensure block are apart from the gaps that its parts leave
in the blocks around it. -/
theorem ensure_apart : ∀ e ∈ (EnsureBlock.entries
      { clause, outer := js, start := a.offset,
        gaps := gaps.filter (fun g => g.depth == js.length),
        normal := ⟨clause, b.offset, n.offset⟩, handling, stop := t.offset }),
      ∀ g ∈ gaps.filter (fun g => g.depth != js.length) ++ gaps' ++ gaps'', Apart e g := by
  intro e he g hg
  obtain ⟨H, hH, hstart, -, -, hstop, -, hout⟩ := (h.ensure_shape hbody h' h'').entry_bounds he
  obtain ⟨hle, hcopy, -⟩ := h''.handling_bounds.1 H hH
  have hn : b.offset ≤ n.offset := h'.offset_le
  simp only [List.mem_append, List.mem_filter, bne_iff_ne, ne_eq] at hg
  rcases hg with (⟨hg, hdepth⟩ | hg) | hg
  · -- A jump to outside the block leaves a gap in the block itself, around the other gap.
    have hfits := hbody.fits g hg
    obtain ⟨c, hc, -⟩ := (h.records trivial).2 g hg
    have hlt := JumpScopes.lt_of_clauseAt? hc
    simp only [List.length_cons] at hlt
    obtain ⟨g', hg', hdepth', hlo, hhi⟩ :=
      hfits.enclosed js.length ⟨clause, JumpScopes.clauseAt?_ensure_self ..⟩ (by omega)
    have hout := hout g' (List.mem_filter.2 ⟨hg', by simpa using hdepth'⟩)
    exact .beside (hout.imp (·.trans hlo) hhi.trans)
      (not_inside_of_ge (hstart ▸ (hfits.spans.le_hi.trans hn).trans hle))
  · have hspans := (hnormal.fits g hg).spans
    exact .beside (.inl (hstop.trans hspans.lo_le_start))
      (not_inside_of_ge (hstart ▸ hspans.le_hi.trans hle))
  · subst hH
    have hspans := (Lies.fits hhandler g hg).spans.lo_le_start
    exact .beside (.inl (hstop.trans (by show b.offset ≤ _; omega)))
      (not_inside_of_le (by omega))

theorem ensure_lies : Lies (Draft.Opens ⟨a, js⟩) [] a.offset t.offset
    (gaps.filter (fun g => g.depth != js.length) ++ gaps' ++ gaps'')
    (blocks ++ blocks' ++
      .ensure { clause, outer := js, start := a.offset,
                gaps := gaps.filter (fun g => g.depth == js.length),
                normal := ⟨clause, b.offset, n.offset⟩, handling, stop := t.offset } ::
        blocks'') := by
  have hb : a.offset ≤ b.offset := h.offset_le
  have hn : b.offset ≤ n.offset := h'.offset_le
  have hclose : Records ⟨a, js⟩ ⟨b.mark, js'⟩ _ := (h.records trivial).close
  have hrest := h''.handler_lies hhandler
  rw [(h'.records trivial).opens_eq] at hrest
  have hparts := hnormal.append [] hrest hn h''.offset_le (by simp)
  rw [hclose.opens_eq] at hparts
  have hall := hbody.close.append [] hparts hb (hn.trans h''.offset_le) (by simp)
  rw [← List.append_assoc, ← List.append_assoc] at hall
  refine hall.insert (.inl ⟨h.ensure_shape hbody h' h'', le_rfl, le_rfl⟩)
    (h.ensure_apart hbody h' h'' hnormal hhandler) ?_ fun block hblock => ?_
  · refine List.forall_mem_append.2 ⟨fun block hblock => ?_, fun block hblock => ?_⟩
    · have hwithin := hbody.within block hblock
      refine ⟨fun later heq => ?_, fun earlier heq => ?_⟩
      · cases heq
        exact .inBody hwithin fun e he g hg =>
          hbody.apart block hblock e he g (List.mem_of_mem_filter hg)
      · subst heq
        exact .around hwithin.2.1 hwithin.2.2
    · have hwithin := hnormal.within block hblock
      refine ⟨fun later heq => ?_, fun earlier heq => ?_⟩
      · cases heq
        exact .inNormal hwithin
      · subst heq
        exact .outside (.inl hwithin.2.1)
  · refine ⟨fun later heq => ?_, fun earlier heq => ?_⟩
    · subst heq
      obtain ⟨-, hstart, -⟩ := hrest.within _ hblock
      exact .outside (.inl (hn.trans hstart))
    · cases heq
      cases handling with
      | none => simp [hhandler.2] at hblock
      | some handling => exact .inHandler handling rfl (Lies.within hhandler _ hblock)

end

/-! ## All that is laid down -/

/-- A jump leaves its gaps behind the copies of the clauses it runs. -/
theorem depart_lies {departure : Departure} {pending : PendingEnsures} {parked : Draft}
    (h : Laid ctx (.copies pending.ensures starts made) parked t gaps blocks)
    (hfinds : departure.Finds s.jumps pending) (hparks : Parks departure s parked)
    (hlies : (Mode.copies pending.ensures starts made).Lies parked t gaps blocks) :
    Lies s.Opens [] s.offset (t.offset + departure.code.length)
      (gaps ++ passageGaps parked.offset departure t.body.nextLabel
        (t.offset + departure.code.length) pending.ensures starts made) blocks := by
  obtain ⟨hcopies, hgaps, hblocks⟩ := hlies
  obtain ⟨-, hsorted⟩ := departure.ensures_of_finds hfinds
  have hparked : s.offset ≤ parked.offset := (grows_of_parks hparks).offset_le
  have hopens : parked.Opens = s.Opens := by
    funext d
    rw [Draft.Opens, jumps_of_parks hparks, Draft.Opens]
  refine {
    fits := List.forall_mem_append.2 ⟨fun g hg => ?_, fun g hg => ?_⟩
    ordered := List.pairwise_append.2
      ⟨hcopies.ordered, Gap.ordered_passageGaps hsorted, fun g hg g' hg' heq => ?_⟩
    places := fun block hb => .inl ((hcopies.within block hb).mono hparked (Nat.le_add_right ..))
    apart := fun block hb e he => List.forall_mem_append.2
      ⟨hcopies.apart block hb e he, fun g hg => ?_⟩
    beside := hcopies.beside }
  · obtain ⟨n, x, copy, hx, hcopy, -, hfits⟩ := hgaps g hg
    refine ⟨(hcopies.fits g hg).spans.mono hparked (Nat.le_add_right ..), fun d hd hlt => ?_⟩
    by_cases hinner : d < x.1
    · exact (hfits.enclosed d ⟨hopens ▸ hd, hinner⟩ hlt).mono (List.subset_append_left ..)
    · obtain ⟨c, hc⟩ := hd
      exact (h.encloses_passage hfinds hc hx hcopy (Nat.le_of_not_lt hinner)
        hfits.spans.lo_le_start ((hcopies.fits g hg).spans.le_hi.trans (Nat.le_add_right ..))).mono
        (List.subset_append_right ..)
  · obtain ⟨n, x, l, copy, hx, hl, hcopy, rfl⟩ := mem_passageGaps_iff.1 hg
    refine ⟨⟨hparked, (h.chain.bounds (List.mem_of_getElem? hcopy)).1,
      ⟨_, h.chain.drop hcopy, rfl⟩, ?_, le_rfl⟩, fun d hd hlt => ?_⟩
    · simpa using (List.getElem?_eq_some_iff.1 hcopy).1
    · obtain ⟨c, hc⟩ := hd
      exact (h.encloses_passage hfinds hc hx hcopy (Nat.le_of_lt hlt) le_rfl le_rfl).mono
        (List.subset_append_right ..)
  · -- A clause can only leave gaps in blocks around its own, whose copies come later.
    obtain ⟨m, x, copy, hx, hcopy, hdepth, hfits⟩ := hgaps g hg
    obtain ⟨n, y, _, later, hy, -, hlater, rfl⟩ := mem_passageGaps_iff.1 hg'
    simp only at heq
    exact hfits.spans.le_hi.trans (h.le_of_depth_lt hsorted hx hy hcopy hlater (heq ▸ hdepth))
  · -- A block lies in one copy, and a gap starts with one; the order of the two decides.
    obtain ⟨copy, hcopy, hwithin⟩ := hblocks block hb
    obtain ⟨m, hm⟩ := List.getElem?_of_mem hcopy
    obtain ⟨n, x, l, first, hx, hl, hfirst, rfl⟩ := mem_passageGaps_iff.1 hg
    by_cases hmn : m < n
    · exact .of_le hwithin he (h.chain.le_of_lt hm hfirst hmn)
    · obtain ⟨hstart, hstop, hhandler, hend⟩ := hwithin.entry he
      obtain ⟨hlo, hbody, hbody', hhi⟩ := hwithin.bounds
      refine .inCopy copy ?_ (hlo.trans hstart) ((hstop.trans hbody').trans hhi)
        ((hlo.trans hbody).trans hhandler) hend
      refine List.mem_of_getElem? (i := m - n) ?_
      rw [List.getElem?_drop, Nat.add_sub_cancel' (Nat.le_of_not_lt hmn), hm]

theorem lies (h : Laid ctx mode s t gaps blocks) (hready : mode.Ready s) :
    mode.Lies s t gaps blocks := by
  induction h with
  | trans h h' ih ih' =>
    have hrest := ih' trivial
    rw [Mode.Lies, (h.records trivial).opens_eq] at hrest
    exact Lies.append [] (ih trivial) hrest h.offset_le h'.offset_le (by simp)
  | weaken _ _ _ _ ih | part _ _ _ _ ih | temporary _ _ ih | label _ _ ih | loop _ _ _ ih =>
    exact ih trivial
  | named name ty _ ih =>
    exact Lies.mono (ih trivial) (fun _ => id) (Grows.namedLocal [] _ name ty).offset_le le_rfl
  | @depart _ _ _ s parked t gaps _ departure pending starts made hfinds hparks h ih =>
    rw [Mode.Lies]
    simpa using h.depart_lies hfinds hparks (ih (ready_of_finds hfinds hparks))
  | @rescue _ _ _ s b t u _ _ _ _ _ _ start stop done _ _ _ h h' h'' ih ih' ih'' =>
    have hb : s.offset ≤ b.offset := h.offset_le
    have ht : b.offset ≤ t.offset := h'.offset_le
    have hclauses := ih'' ⟨hb, ht⟩
    rw [Mode.Lies, (h'.records trivial).opens_eq] at hclauses
    have hrest := Lies.append [(s.offset, b.offset)] (ih' trivial) hclauses ht h''.offset_le
      (by simp)
    have hopens := (h.records trivial).opens_eq
    have hall := Lies.append [] (ih trivial) (hopens ▸ hrest) hb (ht.trans h''.offset_le)
      (by simp)
    rwa [← List.append_assoc, ← List.append_assoc] at hall
  | @clause _ _ _ range finish s t u _ _ _ _ classes hne h h' ih ih' =>
    have ht : s.offset ≤ t.offset := by simpa using h.offset_le
    have hlater := ih' ⟨hready.1, hready.2.trans ht⟩
    rw [Mode.Lies, (h.records trivial).opens_eq] at hlater
    have hcode : Lies _ [] s.offset _ _ _ := Lies.mono (ih trivial) (fun _ => id) (by simp) le_rfl
    have hall : Lies _ _ _ _ _ ([] ++ _) := hcode.append [range] hlater ht h'.offset_le
      fun r hr => .inr ⟨List.mem_singleton.1 hr ▸ hready.2, hr⟩
    refine hall.insert (.inr ⟨_, rfl, List.mem_singleton_self _,
      ⟨lt_of_le_of_ne hready.1 hne, hready.2, ht⟩, le_rfl, h'.offset_le⟩)
      (fun e he g hg => ?_) (by simp) fun block hb => ?_
    · obtain ⟨name, -, rfl⟩ := List.mem_map.1 he
      have hstart := (hall.fits g hg).spans.lo_le_start
      exact .beside (.inl (hready.2.trans hstart)) (not_inside_of_le hstart)
    · rcases hall.places block hb with hwithin | ⟨clause, rfl, -⟩
      · exact hwithin.beside_of_rescue hready.2
      · exact ⟨by simp, by simp⟩
  | ensure clause recorded h h' _ h'' ih ih' ih'' =>
    exact h.ensure_lies (ih trivial) h' h'' (ih' trivial) (ih'' trivial)
  | @handled _ s b t _ _ ranges _ hb h _ ih =>
    subst hb
    exact Lies.mono (ih trivial) (fun _ => id) (by simp) le_rfl
  | @copy s b js t ensures starts made gaps _ _ _ depth clause h _ h' ih ih' =>
    have hfirst := ih trivial
    obtain ⟨hlater, hgaps, hblocks⟩ := ih' (h.ready_copy hready)
    have hopens := (h.records trivial).restore.opens_eq
    refine ⟨Lies.append [] (Lies.mono hfirst (by simp) le_rfl le_rfl) hlater
      h.offset_le h'.offset_le
      (by simp), List.forall_mem_append.2 ⟨fun g hg => ?_, fun g hg => ?_⟩,
      List.forall_mem_append.2 ⟨fun block hb => ⟨_, List.mem_cons_self, hfirst.within block hb⟩,
        fun block hb => ?_⟩⟩
    · refine ⟨0, _, _, rfl, rfl, h.depth_lt_of_mem hready hg,
        (Lies.fits hfirst g hg).mono (fun d hd => ?_) le_rfl le_rfl (by simp)⟩
      obtain ⟨⟨c, hc⟩, hlt⟩ := hd
      refine ⟨c, ?_⟩
      rw [← hc, ← JumpScopes.clauseAt?_append_of_lt (by rwa [length_detached hready]),
        JumpScopes.detach_fst_append_snd]
    · obtain ⟨n, x, copy, hx, hcopy, hdepth, hfits⟩ := hgaps g hg
      rw [hopens] at hfits
      exact ⟨n + 1, x, copy, hx, hcopy, hdepth, hfits.mono (fun _ => id) le_rfl le_rfl (by simp)⟩
    · obtain ⟨copy, hcopy, hwithin⟩ := hblocks block hb
      exact ⟨copy, List.mem_cons_of_mem _ hcopy, hwithin⟩
  | unhandled s => exact ⟨rfl, rfl⟩
  | noCopies s => exact ⟨.nil, by simp, by simp⟩
  | _ => exact Lies.nil

variable {own goals : List Label} {slots : List UInt16}

theorem within (h : Laid ctx (.code own goals slots) s t gaps blocks) :
    ∀ block ∈ blocks, block.Within s.offset t.offset :=
  Lies.within (h.lies trivial)

end Laid

end ClassBackend
