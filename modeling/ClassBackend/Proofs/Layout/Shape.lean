import ClassBackend.Proofs.Emission.Laid

/-!
# The gaps of a jump

The copies of one jump follow one another without a break (`Laid.chain`), and a
gap reaches from its own copy to the end of the jump. The gap of an outer block
lies inside those of the blocks that the jump leaves before
(`Laid.encloses_passage`), and none of them has two gaps of one jump
(`Gap.ordered_passageGaps`).
-/

namespace ClassBackend

variable {m n : Nat} {departure : Departure}

/-! ## Chains of copies -/

namespace ClauseCopy

/-- The copies follow one another from one point to the other. -/
def Chain : Nat → List ClauseCopy → Nat → Prop
  | start, [], stop => start = stop
  | start, copy :: copies, stop =>
    copy.start = start ∧ copy.start ≤ copy.stop ∧ Chain copy.stop copies stop

variable {start stop : Nat} {copies : List ClauseCopy}

theorem Chain.le (h : Chain start copies stop) : start ≤ stop := by
  induction copies generalizing start with
  | nil => exact Nat.le_of_eq h
  | cons copy copies ih =>
    obtain ⟨rfl, hle, hrest⟩ := h
    exact hle.trans (ih hrest)

variable {copy : ClauseCopy}

theorem Chain.bounds (h : Chain start copies stop) (hc : copy ∈ copies) :
    start ≤ copy.start ∧ copy.start ≤ copy.stop ∧ copy.stop ≤ stop := by
  induction copies generalizing start with
  | nil => cases hc
  | cons first copies ih =>
    obtain ⟨rfl, hle, hrest⟩ := h
    rcases List.mem_cons.1 hc with rfl | hc
    · exact ⟨le_rfl, hle, hrest.le⟩
    · obtain ⟨hstart, hspan, hstop⟩ := ih hrest hc
      exact ⟨hle.trans hstart, hspan, hstop⟩

theorem Chain.drop (h : Chain start copies stop) (hn : copies[n]? = some copy) :
    Chain copy.start (copies.drop n) stop := by
  induction copies generalizing start n with
  | nil => simp at hn
  | cons first copies ih =>
    cases n with
    | zero =>
      obtain rfl : first = copy := by simpa using hn
      exact ⟨rfl, h.2.1, h.2.2⟩
    | succ n => exact ih h.2.2 (by simpa using hn)

theorem Chain.le_of_lt (h : Chain start copies stop) {later : ClauseCopy}
    (hm : copies[m]? = some copy) (hn : copies[n]? = some later) (hlt : m < n) :
    copy.stop ≤ later.start := by
  induction copies generalizing start m n with
  | nil => simp at hm
  | cons first copies ih =>
    obtain ⟨n, rfl⟩ := Nat.exists_eq_succ_of_ne_zero (Nat.ne_of_gt (Nat.zero_lt_of_lt hlt))
    rw [List.getElem?_cons_succ] at hn
    cases m with
    | zero =>
      obtain rfl : first = copy := by simpa using hm
      exact (h.2.2.bounds (List.mem_of_getElem? hn)).1
    | succ m => exact ih h.2.2 (by simpa using hm) hn (by omega)

end ClauseCopy

/-! ## Extent of a gap -/

theorem Departure.code_length_pos (departure : Departure) : 0 < departure.code.length := by
  cases departure <;> simp [code]

namespace Gap

/-- The gap lies between two points, with its copies in a chain up to the
departure. -/
structure Spans (lo hi : Nat) (g : Gap) : Prop where
  lo_le : lo ≤ g.origin
  origin_le : g.origin ≤ g.start
  chain : ∃ last, ClauseCopy.Chain g.start g.copies last ∧
    g.stop = last + g.departure.code.length
  copies_ne : g.copies ≠ []
  le_hi : g.stop ≤ hi

variable {lo hi lo' hi' : Nat} {g : Gap}

theorem Spans.mono (h : g.Spans lo hi) (hlo : lo' ≤ lo) (hhi : hi ≤ hi') : g.Spans lo' hi' :=
  { h with lo_le := hlo.trans h.lo_le, le_hi := h.le_hi.trans hhi }

theorem Spans.lo_le_start (h : g.Spans lo hi) : lo ≤ g.start := h.lo_le.trans h.origin_le

theorem Spans.start_lt_stop (h : g.Spans lo hi) : g.start < g.stop := by
  obtain ⟨last, hchain, hstop⟩ := h.chain
  have hpos := g.departure.code_length_pos
  have hle := hchain.le
  omega

end Gap

/-! ## What a mode relies on -/

/-- What a mode relies on in the draft it starts from: clauses to be copied
belong to open blocks, the innermost first; the code that rescue clauses
protect lies before them. -/
def Mode.Ready (s : Draft) : Mode → Prop
  | .copies ensures _ _ =>
    (∀ x ∈ ensures, s.jumps.clauseAt? x.1 = some x.2) ∧ ensures.Pairwise fun x y => y.1 < x.1
  | .clauses _ _ _ range _ => range.1 ≤ range.2 ∧ range.2 ≤ s.offset
  | _ => True

variable {ctx : Context} {mode : Mode} {s t : Draft} {gaps : List Gap} {blocks : List Block}
  {ensures : List (Nat × Node)} {starts : List Label} {made : List ClauseCopy}

namespace Laid

theorem offset_le (h : Laid ctx mode s t gaps blocks) : s.offset ≤ t.offset := h.grows.offset_le

theorem ready_of_finds {pending : PendingEnsures} {parked : Draft}
    (hfinds : departure.Finds s.jumps pending) (hparks : Parks departure s parked) :
    (Mode.copies pending.ensures starts made).Ready parked := by
  obtain ⟨hall, hsorted⟩ := departure.ensures_of_finds hfinds
  refine ⟨fun x hx => ?_, hsorted⟩
  rw [jumps_of_parks hparks]
  exact ((hall x.1 x.2).1 hx).2

section

variable {b : Assembler} {js : JumpScopes} {depth : Nat} {clause : Node} {l : Label}
  {copy : ClauseCopy}
  (h : Laid ctx (.code [] [] []) ⟨s.body.mark, (s.jumps.detach depth).2⟩ ⟨b, js⟩ gaps blocks)
  (hready : (Mode.copies ((depth, clause) :: ensures) (l :: starts) (copy :: made)).Ready s)

include hready

theorem length_detached : (s.jumps.detach depth).2.length = depth :=
  JumpScopes.length_detach_snd
    (JumpScopes.lt_of_clauseAt? (hready.1 (depth, clause) List.mem_cons_self)).le

include h

theorem ready_copy :
    (Mode.copies ensures starts made).Ready ⟨b, js.restore (s.jumps.detach depth).1⟩ := by
  refine ⟨fun x hx => ?_, (List.pairwise_cons.1 hready.2).2⟩
  rw [(h.records trivial).restore.1, JumpScopes.clauseAt?_recordAll]
  exact hready.1 x (List.mem_cons_of_mem _ hx)

theorem depth_lt_of_mem {g : Gap} (hg : g ∈ gaps) : g.depth < depth := by
  obtain ⟨c, hc, -⟩ := (h.records trivial).2 g hg
  have hlt := JumpScopes.lt_of_clauseAt? hc
  rwa [length_detached hready] at hlt

end

theorem chain (h : Laid ctx (.copies ensures starts made) s t gaps blocks) :
    ClauseCopy.Chain s.offset made t.offset := by
  generalize hmode : Mode.copies ensures starts made = mode at h
  induction h generalizing ensures starts made with
  | noCopies s =>
    cases hmode
    rfl
  | copy depth clause hcopy _ _ _ ih =>
    cases hmode
    exact ⟨rfl, hcopy.offset_le, ih rfl⟩
  | _ => cases hmode

end Laid

/-! ## The gaps of one jump -/

@[simp] theorem Draft.code_closeGaps (s : Draft) (gaps : List Gap) :
    (s.closeGaps gaps).body.code = s.body.code := by
  unfold closeGaps
  split <;> rfl

@[simp] theorem Draft.offset_closeGaps (s : Draft) (gaps : List Gap) :
    (s.closeGaps gaps).offset = s.offset := by
  unfold closeGaps offset
  split <;> simp

/-- Gaps of one block come one after the other. -/
def Gap.Ordered (gaps : List Gap) : Prop :=
  gaps.Pairwise fun g g' => g.depth = g'.depth → g.stop ≤ g'.start

theorem Gap.ordered_passageGaps {origin stop : Nat} {stopLabel : Label}
    (hsorted : ensures.Pairwise fun x y => y.1 < x.1) :
    Gap.Ordered (passageGaps origin departure stopLabel stop ensures starts made) := by
  induction ensures generalizing starts made with
  | nil => simp [passageGaps, Gap.Ordered]
  | cons x ensures ih =>
    obtain ⟨depth, clause⟩ := x
    cases starts with
    | nil => simp [passageGaps, Gap.Ordered]
    | cons l starts =>
      cases made with
      | nil => simp [passageGaps, Gap.Ordered]
      | cons copy made =>
        obtain ⟨hfirst, hrest⟩ := List.pairwise_cons.1 hsorted
        refine List.pairwise_cons.2 ⟨fun g hg heq => ?_, ih hrest⟩
        obtain ⟨_, x, _, _, hx, -, -, rfl⟩ := mem_passageGaps_iff.1 hg
        have hlt := hfirst x (List.mem_of_getElem? hx)
        simp only at heq
        omega

namespace Laid

theorem le_of_depth_lt {x y : Nat × Node} {copy later : ClauseCopy}
    (h : Laid ctx (.copies ensures starts made) s t gaps blocks)
    (hsorted : ensures.Pairwise fun x y => y.1 < x.1) (hm : ensures[m]? = some x)
    (hn : ensures[n]? = some y) (hcopy : made[m]? = some copy) (hlater : made[n]? = some later)
    (hlt : y.1 < x.1) : copy.stop ≤ later.start := by
  refine h.chain.le_of_lt hcopy hlater ?_
  by_contra hle
  obtain ⟨hm', rfl⟩ := List.getElem?_eq_some_iff.1 hm
  obtain ⟨hn', rfl⟩ := List.getElem?_eq_some_iff.1 hn
  rcases Nat.lt_or_eq_of_le (Nat.le_of_not_lt hle) with hnm | rfl
  · have := List.pairwise_iff_getElem.1 hsorted n m hn' hm' hnm
    omega
  · omega

end Laid

/-- A gap of the block at a depth covers the stretch of code. -/
def Gap.Encloses (gaps : List Gap) (lo hi d : Nat) : Prop :=
  ∃ g ∈ gaps, g.depth = d ∧ g.start ≤ lo ∧ hi ≤ g.stop

theorem Gap.Encloses.mono {gaps' : List Gap} {lo hi d : Nat} (h : Gap.Encloses gaps lo hi d)
    (hsub : gaps ⊆ gaps') : Gap.Encloses gaps' lo hi d :=
  let ⟨g, hg, hrest⟩ := h
  ⟨g, hsub hg, hrest⟩

/-- An ensure block is open at this depth. -/
def Draft.Opens (s : Draft) (d : Nat) : Prop := ∃ clause, s.jumps.clauseAt? d = some clause

theorem Laid.Records.opens_eq (h : Records s t gaps) : t.Opens = s.Opens := by
  funext d
  rw [Draft.Opens, h.clauseAt?_eq, Draft.Opens]

/-- The gap lies between two points. Of the blocks that are open, those inside its
own have gaps around it. -/
structure Gap.Fits (isOpen : Nat → Prop) (gaps : List Gap) (lo hi : Nat) (g : Gap) : Prop where
  spans : g.Spans lo hi
  enclosed : ∀ d, isOpen d → g.depth < d → Gap.Encloses gaps g.start g.stop d

theorem Gap.Fits.mono {isOpen isOpen' : Nat → Prop} {gaps' : List Gap} {lo hi lo' hi' : Nat}
    {g : Gap} (h : g.Fits isOpen gaps lo hi) (hopen : ∀ d, isOpen' d → isOpen d) (hlo : lo' ≤ lo)
    (hhi : hi ≤ hi') (hsub : gaps ⊆ gaps') : g.Fits isOpen' gaps' lo' hi' :=
  ⟨h.spans.mono hlo hhi, fun d hd hlt => (h.enclosed d (hopen d hd) hlt).mono hsub⟩

/-- What lies behind the start of a copy lies in the gaps of the blocks that the
jump has left by then. -/
theorem Laid.encloses_passage {scopes : JumpScopes} {pending : PendingEnsures}
    {origin stop lo hi d : Nat} {stopLabel : Label} {c : Node} {x : Nat × Node} {copy : ClauseCopy}
    (h : Laid ctx (.copies pending.ensures starts made) s t gaps blocks)
    (hfinds : departure.Finds scopes pending) (hopen : scopes.clauseAt? d = some c)
    (hx : pending.ensures[n]? = some x) (hcopy : made[n]? = some copy) (hle : x.1 ≤ d)
    (hlo : copy.start ≤ lo) (hhi : hi ≤ stop) : Gap.Encloses
      (passageGaps origin departure stopLabel stop pending.ensures starts made) lo hi d := by
  obtain ⟨hall, hsorted⟩ := departure.ensures_of_finds hfinds
  have htarget := ((hall x.1 x.2).1 (List.mem_of_getElem? hx)).1
  obtain ⟨m, hm⟩ := List.getElem?_of_mem ((hall d c).2 ⟨htarget.trans_le hle, hopen⟩)
  obtain ⟨hstarts, hmade⟩ := h.length_copies
  have hlt := (List.getElem?_eq_some_iff.1 hm).1
  obtain ⟨first, hfirst⟩ : ∃ first, made[m]? = some first :=
    ⟨made[m], List.getElem?_eq_getElem (by omega)⟩
  obtain ⟨l, hl⟩ : ∃ l, starts[m]? = some l := ⟨starts[m], List.getElem?_eq_getElem (by omega)⟩
  have hbefore : first.start ≤ copy.start := by
    rcases Nat.lt_or_eq_of_le hle with hlt | rfl
    · exact (h.chain.bounds (List.mem_of_getElem? hfirst)).2.1.trans
        (h.le_of_depth_lt hsorted hm hx hfirst hcopy hlt)
    · obtain rfl : m = n := by
        by_contra hne
        obtain ⟨hm', hm⟩ := List.getElem?_eq_some_iff.1 hm
        obtain ⟨hn', hx⟩ := List.getElem?_eq_some_iff.1 hx
        have hdistinct := List.pairwise_iff_getElem.1 hsorted
        rcases Nat.lt_or_gt_of_ne hne with hmn | hnm
        · have := hdistinct m n hm' hn' hmn
          simp [hm, hx] at this
        · have := hdistinct n m hn' hm' hnm
          simp [hm, hx] at this
      rw [Option.some.inj (hfirst.symm.trans hcopy)]
  exact ⟨_, mem_passageGaps_iff.2 ⟨m, _, l, first, hm, hl, hfirst, rfl⟩, rfl,
    hbefore.trans hlo, hhi⟩

end ClassBackend
