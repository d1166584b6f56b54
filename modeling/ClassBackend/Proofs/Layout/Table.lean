import ClassBackend.Proofs.Layout.Labels
import Mathlib.Data.List.Forall2

/-!
# The exception table

The regions that a method body protects are delimited by labels. Once the
labels are resolved, the regions that were protected on the way from one draft
to another are the entries of the blocks laid down on that way, in their order, and
the labels of the gaps stand at their ends (`Laid.table`). So the exception table of a
finished method lists the entries of its blocks (`Laid.exceptionTable_eq`).
-/

namespace ClassBackend

variable {l : Label}

variable {a : Assembler} {size q : Nat} {start stop : Label}

/-- Labels that are numbered behind those that may move stay where they are. -/
theorem Grows.position?_of_le {own : List Label} {b : Assembler} (h : Grows own a b)
    (hown : ∀ k ∈ own, k.id < size) (hl : size ≤ l.id) (hq : a.position? l = some q) :
    b.position? l = some q := by
  rw [h.kept l (Assembler.lt_of_position? hq) fun hmem => ?_]
  · exact hq
  · exact absurd (hown l hmem) (Nat.not_lt_of_le hl)

theorem Grows.position?_of_nil {b : Assembler} (h : Grows [] a b) (hq : a.position? l = some q) :
    b.position? l = some q :=
  h.position?_of_le (by simp) (Nat.zero_le _) hq

/-! ## The labels of gaps -/

/-- The labels of a gap stand at its ends and were made from a number on. -/
structure Gap.Marked (size : Nat) (a : Assembler) (g : Gap) : Prop where
  start : a.position? g.labels.1 = some g.start
  stop : a.position? g.labels.2 = some g.stop
  start_fresh : size ≤ g.labels.1.id
  stop_fresh : size ≤ g.labels.2.id

namespace Gap.Marked

variable {size size' : Nat} {own : List Label} {a b : Assembler} {g : Gap}

theorem grow (h : g.Marked size a) (hgrows : Grows own a b) (hown : ∀ l ∈ own, l.id < size) :
    g.Marked size b :=
  { h with
    start := hgrows.position?_of_le hown h.start_fresh h.start
    stop := hgrows.position?_of_le hown h.stop_fresh h.stop }

theorem mono (h : g.Marked size a) (hle : size' ≤ size) : g.Marked size' a :=
  { h with start_fresh := hle.trans h.start_fresh, stop_fresh := hle.trans h.stop_fresh }

end Gap.Marked

variable {ctx : Context} {mode : Mode} {s t : Draft} {gaps : List Gap} {blocks : List Block}
  {ensures : List (Nat × Node)} {starts : List Label} {made : List ClauseCopy}

namespace Laid

theorem marks_copies (h : Laid ctx (.copies ensures starts made) s t gaps blocks) {n : Nat}
    {copy : ClauseCopy} (hl : starts[n]? = some l) (hcopy : made[n]? = some copy) :
    t.body.position? l = some copy.start ∧ s.body.labels.size ≤ l.id := by
  generalize hmode : Mode.copies ensures starts made = mode at h
  induction h generalizing ensures starts made n with
  | noCopies s =>
    cases hmode
    simp at hl
  | @copy s b js t _ _ _ _ _ _ _ depth clause hcode _ hrest _ ih =>
    cases hmode
    cases n with
    | zero =>
      simp only [List.getElem?_cons_zero, Option.some.injEq] at hl hcopy
      subst hl hcopy
      have hgrows : Grows [] s.body.mark t.body := hcode.grows.trans hrest.grows
      exact ⟨hgrows.position?_of_nil s.body.position?_mark_nextLabel, le_rfl⟩
    | succ n =>
      rw [List.getElem?_cons_succ] at hl hcopy
      obtain ⟨hpos, hle⟩ := ih hl hcopy rfl
      have hsize := ((Grows.mark [] s.body).trans hcode.grows).size
      exact ⟨hpos, hsize.trans hle⟩
  | _ => cases hmode

/-- The gaps of one jump are marked by the labels of its copies and of its
end. -/
theorem marked_passage (h : Laid ctx (.copies ensures starts made) s t gaps blocks)
    {departure : Departure} {origin : Nat} {g : Gap} {later : List Gap}
    (hlater : later = passageGaps origin departure t.body.nextLabel
      (t.offset + departure.code.length) ensures starts made) (hg : g ∈ later) :
    g.Marked s.body.labels.size
      ((t.edit (·.emitAll departure.code)).closeGaps later).body := by
  have hgrows := grows_departure t departure later
  have hne : later.isEmpty = false := by
    rw [List.isEmpty_eq_false_iff]
    exact List.ne_nil_of_mem hg
  rw [hlater] at hg
  obtain ⟨n, x, l, copy, -, hl, hcopy, rfl⟩ := mem_passageGaps_iff.1 hg
  obtain ⟨hpos, hle⟩ := h.marks_copies hl hcopy
  refine ⟨hgrows.position?_of_nil hpos, ?_, hle, h.grows.size⟩
  have hmark := (t.body.emitAll departure.code).position?_mark_nextLabel
  simp only [Draft.closeGaps, hne]
  rw [Assembler.offset_emitAll] at hmark
  simpa [Assembler.nextLabel] using hmark

end Laid

/-! ## Regions and entries -/

/-- The region stands for the entry where its labels are placed. -/
structure Assembler.Resolves (a : Assembler) (r : Region) (e : ExceptionEntry) : Prop where
  start : a.position? r.start = some e.start
  stop : a.position? r.stop = some e.stop
  handler : a.position? r.handler = some e.handler
  catchType : r.catchType = e.catchType

/-- The labels of the region were made from a number on, or are among those
known. -/
structure Region.Uses (size : Nat) (known : List Label) (r : Region) : Prop where
  start : size ≤ r.start.id ∨ r.start ∈ known
  stop : size ≤ r.stop.id ∨ r.stop ∈ known
  handler : size ≤ r.handler.id ∨ r.handler ∈ known

/-- On the way from one draft to another, the gaps were marked and the entries were
added to the exception table. -/
def Protects (size : Nat) (known : List Label) (s t : Draft) (gaps : List Gap)
    (entries : List ExceptionEntry) : Prop :=
  (∀ g ∈ gaps, g.Marked size t.body) ∧ ∃ new, t.body.regions = s.body.regions ++ new ∧
    List.Forall₂ (fun r e => t.body.Resolves r e ∧ r.Uses size known) new entries

namespace Protects

variable {size size' : Nat} {known known' own : List Label} {s t u : Draft}
  {gaps gaps' : List Gap} {entries entries' : List ExceptionEntry}

theorem quiet (h : t.body.regions = s.body.regions) : Protects size known s t [] [] :=
  ⟨by simp, [], by simpa using h, .nil⟩

theorem mono (h : Protects size known s t gaps entries) (hsize : size' ≤ size)
    (hknown : ∀ l ∈ known, size' ≤ l.id ∨ l ∈ known') :
    Protects size' known' s t gaps entries := by
  obtain ⟨hmarked, new, hnew, hentries⟩ := h
  have hle : ∀ l : Label, size ≤ l.id ∨ l ∈ known → size' ≤ l.id ∨ l ∈ known' := fun l hl =>
    hl.elim (fun hl => .inl (hsize.trans hl)) (hknown l)
  refine ⟨fun g hg => (hmarked g hg).mono hsize, new, hnew, hentries.imp fun r e hr => ⟨hr.1, ?_⟩⟩
  exact ⟨hle _ hr.2.start, hle _ hr.2.stop, hle _ hr.2.handler⟩

theorem of_subset (h : Protects size known s t gaps entries) (hsub : gaps' ⊆ gaps) :
    Protects size known s t gaps' entries :=
  ⟨fun g hg => h.1 g (hsub hg), h.2⟩

theorem append (h : Protects size known s t gaps entries)
    (hmarked : ∀ g ∈ gaps', g.Marked size t.body) :
      Protects size known s t (gaps ++ gaps') entries :=
  ⟨List.forall_mem_append.2 ⟨h.1, hmarked⟩, h.2⟩

theorem resolves_of_grows {b : Assembler} {r : Region} {e : ExceptionEntry} (h : a.Resolves r e)
    (huses : r.Uses size known) (hgrows : Grows own a b)
    (hown : ∀ l ∈ own, l.id < size ∧ l ∉ known) :
    b.Resolves r e := by
  have hkept : ∀ (l : Label) (q : Nat), (size ≤ l.id ∨ l ∈ known) →
      a.position? l = some q → b.position? l = some q := by
    intro l q hl hq
    rw [hgrows.kept l (Assembler.lt_of_position? hq) fun hmem => ?_]
    · exact hq
    · obtain ⟨hlt, hnot⟩ := hown l hmem
      rcases hl with hle | hin
      · omega
      · exact hnot hin
  exact ⟨hkept _ _ huses.start h.start, hkept _ _ huses.stop h.stop,
    hkept _ _ huses.handler h.handler, h.catchType⟩

theorem trans (h : Protects size known s t gaps entries)
    (h' : Protects size known t u gaps' entries') (hgrows : Grows own t.body u.body)
    (hown : ∀ l ∈ own, l.id < size ∧ l ∉ known) :
    Protects size known s u (gaps ++ gaps') (entries ++ entries') := by
  obtain ⟨hmarked, new, hnew, hentries⟩ := h
  obtain ⟨hmarked', new', hnew', hentries'⟩ := h'
  have hkept : ∀ g ∈ gaps, g.Marked size u.body := fun g hg =>
    (hmarked g hg).grow hgrows fun l hl => (hown l hl).1
  refine ⟨List.forall_mem_append.2 ⟨hkept, hmarked'⟩, new ++ new',
    by rw [hnew', hnew, List.append_assoc], List.rel_append ?_ hentries'⟩
  exact hentries.imp fun r e hr => ⟨resolves_of_grows hr.1 hr.2 hgrows hown, hr.2⟩

theorem grow (h : Protects size known s t gaps entries) (hgrows : Grows own t.body u.body)
    (hown : ∀ l ∈ own, l.id < size ∧ l ∉ known) (hregions : u.body.regions = t.body.regions) :
    Protects size known s u gaps entries := by
  have hall := h.trans (quiet hregions) hgrows hown
  rwa [List.append_nil, List.append_nil] at hall

/-- What precedes the first draft does not matter if it protects nothing. -/
theorem before (h : Protects size known t u gaps entries)
    (hregions : t.body.regions = s.body.regions) : Protects size known s u gaps entries := by
  obtain ⟨hmarked, new, hnew, hentries⟩ := h
  exact ⟨hmarked, new, by rw [hnew, hregions], hentries⟩

end Protects

/-! ## Regions of an extended body -/

namespace Assembler

variable (a : Assembler)

@[simp] theorem regions_label : a.label.2.regions = a.regions := rfl

@[simp] theorem regions_place (l : Label) : (a.place l).regions = a.regions := rfl

@[simp] theorem regions_mark : a.mark.regions = a.regions := rfl

@[simp] theorem regions_emit (i : Instruction) : (a.emit i).regions = a.regions := rfl

@[simp] theorem regions_emitAll (is : List Instruction) : (a.emitAll is).regions = a.regions := by
  induction is generalizing a with
  | nil => rfl
  | cons i is ih => exact ih (a.emit i)

@[simp] theorem regions_allocate (t : Ty) : (a.allocate t).2.regions = a.regions := rfl

@[simp] theorem regions_namedLocal (name : String) (t : Ty) :
    (a.namedLocal name t).2.regions = a.regions := by
  unfold namedLocal
  split <;> rfl

@[simp] theorem regions_line (n : Nat) : (a.line n).regions = a.regions := by
  unfold line
  split
  · split
    · rfl
    · split <;> rfl
  · rfl

@[simp] theorem nodes_gotoIfReachable (l : Label) : (a.gotoIfReachable l).nodes = a.nodes := by
  unfold gotoIfReachable
  split <;> rfl

@[simp] theorem regions_gotoIfReachable (l : Label) :
    (a.gotoIfReachable l).regions = a.regions := by
  unfold gotoIfReachable
  split <;> rfl

end Assembler

theorem Draft.regions_closeGaps (s : Draft) (gaps : List Gap) :
    (s.closeGaps gaps).body.regions = s.body.regions := by
  unfold closeGaps
  split <;> rfl

theorem Draft.nodes_closeGaps (s : Draft) (gaps : List Gap) :
    (s.closeGaps gaps).body.nodes = s.body.nodes := by
  unfold closeGaps
  split <;> rfl

theorem Laid.regions_of_parks {departure : Departure} {parked : Draft}
    (h : Parks departure s parked) : parked.body.regions = s.body.regions := by
  cases h <;> rfl

/-! ## The entries of an ensure block -/

def Assembler.catchAllEntry (a : Assembler) (handler : Nat) (range : Label × Label) :
    ExceptionEntry :=
  { start := (a.position? range.1).getD 0, stop := (a.position? range.2).getD 0, handler,
    catchType := none }

/-- The ranges that an ensure block protects are the pieces of its body between
the gaps. -/
theorem catchAllEntry_protectedRanges {p h : Nat} (hstart : a.position? start = some p)
    (hstop : a.position? stop = some q) (hgaps : ∀ g ∈ gaps, g.Marked size a) :
    (a.protectedRanges start stop (gaps.map Gap.labels)).map (a.catchAllEntry h) =
      ((pieces p q gaps).filter fun piece => decide (piece.1 < piece.2)).map fun piece =>
        { start := piece.1, stop := piece.2, handler := h, catchType := none } := by
  induction gaps generalizing start p with
  | nil =>
    simp only [Assembler.protectedRanges, List.map_nil, ungapped, pieces, List.filter_cons,
      hstart, hstop, List.filter_nil]
    split
    · simp [Assembler.catchAllEntry, hstart, hstop]
    · rfl
  | cons g gaps ih =>
    have hg := hgaps g List.mem_cons_self
    have hrest := ih hg.stop fun g' hg' => hgaps g' (List.mem_cons_of_mem _ hg')
    simp only [Assembler.protectedRanges] at hrest
    simp only [Assembler.protectedRanges, List.map_cons, ungapped, pieces, List.filter_cons,
      hstart, hg.start]
    split
    · simp only [List.map_cons, hrest, List.cons.injEq, and_true]
      simp [Assembler.catchAllEntry, hstart, hg.start]
    · exact hrest

theorem placed_of_mem_protectedRanges {gaps : List (Label × Label)} {range : Label × Label}
    (h : range ∈ a.protectedRanges start stop gaps) :
    (∃ p, a.position? range.1 = some p) ∧ ∃ q, a.position? range.2 = some q := by
  obtain ⟨-, hrange⟩ := List.mem_filter.1 h
  cases hp : a.position? range.1 with
  | none => simp [hp] at hrange
  | some p =>
    cases hq : a.position? range.2 with
    | none => simp [hp, hq] at hrange
    | some q => exact ⟨⟨p, rfl⟩, ⟨q, rfl⟩⟩

/-- Protected ranges lie between the labels of the body and of its gaps. -/
theorem fresh_of_mem_protectedRanges (hstart : size ≤ start.id) (hstop : size ≤ stop.id)
    (hgaps : ∀ g ∈ gaps, g.Marked size a) {range : Label × Label}
    (h : range ∈ a.protectedRanges start stop (gaps.map Gap.labels)) :
    size ≤ range.1.id ∧ size ≤ range.2.id := by
  have hrange := List.mem_of_mem_filter h
  clear h
  induction gaps generalizing start with
  | nil =>
    obtain rfl := List.mem_singleton.1 hrange
    exact ⟨hstart, hstop⟩
  | cons g gaps ih =>
    have hg := hgaps g List.mem_cons_self
    rcases List.mem_cons.1 hrange with rfl | hrange
    · exact ⟨hstart, hg.start_fresh⟩
    · exact ih hg.stop_fresh (fun g' hg' => hgaps g' (List.mem_cons_of_mem _ hg')) hrange

/-! ## The entries of the blocks laid down -/

/-- The labels that are known beforehand and end regions. -/
def Mode.ends : Mode → List Label
  | .clauses start stop _ _ _ => [start, stop]
  | .handler _ ranges _ => ranges.flatMap fun range => [range.1, range.2]
  | _ => []

/-- The entries that are not those of a block. -/
def Mode.entries (s : Draft) : Mode → List ExceptionEntry
  | .handler _ ranges (some handling) => ranges.map (s.body.catchAllEntry handling.start)
  | _ => []

/-- The labels that are known beforehand and end regions have been placed. -/
def Mode.Anchored (s : Draft) : Mode → Prop
  | .clauses start stop _ range _ =>
    s.body.position? start = some range.1 ∧ s.body.position? stop = some range.2
  | .handler _ ranges _ => ∀ range ∈ ranges,
    (∃ p, s.body.position? range.1 = some p) ∧ ∃ q, s.body.position? range.2 = some q
  | _ => True

namespace Laid

variable {js js' : JumpScopes} {clause : Node} {recorded : List (Label × Label)}

variable {a b : Assembler}

/-- What a block's own scope has recorded are the labels of its gaps. -/
theorem recorded_eq
    (h : Laid ctx mode ⟨a, .ensure clause [] :: js⟩ ⟨b, .ensure clause recorded :: js'⟩ gaps blocks)
    (hpending : mode.Pending (.ensure clause [] :: js)) :
    recorded = (gaps.filter fun g => g.depth == js.length).map Gap.labels := by
  have hjumps := (h.records hpending).1
  rw [JumpScopes.recordAll_cons_ensure] at hjumps
  have hscope := JumpScope.ensure.inj (List.cons.inj hjumps).1
  rw [hscope.2, List.filter_map, List.map_map, List.nil_append]
  rfl

/-- Where the ranges of an ensure block stand once its handler is laid down. -/
theorem entries_handler {n : Draft} {handling : Option Handling} {gaps' : List Gap}
    {blocks' : List Block} {stop : Nat}
    (h : Laid ctx (.code [] [] []) ⟨a.mark, .ensure clause [] :: js⟩
      ⟨b, .ensure clause recorded :: js'⟩ gaps blocks)
    (h' : Laid ctx (.code [] [] []) ⟨b.mark, js'⟩ n gaps' blocks')
    (hgaps : ∀ g ∈ gaps.filter (fun g => g.depth == js.length), g.Marked size b.mark) :
    (Mode.handler clause (b.mark.protectedRanges a.nextLabel b.nextLabel recorded)
        handling).entries n =
      EnsureBlock.entries {
        clause, outer := js, start := a.offset,
        gaps := gaps.filter (fun g => g.depth == js.length),
        normal := ⟨clause, b.offset, n.offset⟩, handling, stop } := by
  cases handling with
  | none => rfl
  | some handling =>
    have hmark : Grows [] b b.mark := Grows.mark [] b
    have hstart : b.mark.position? a.nextLabel = some a.offset :=
      hmark.position?_of_nil (h.grows.position?_of_nil a.position?_mark_nextLabel)
    have hkept : ∀ range ∈ b.mark.protectedRanges a.nextLabel b.nextLabel recorded,
        n.body.catchAllEntry handling.start range =
          b.mark.catchAllEntry handling.start range := by
      intro range hrange
      obtain ⟨⟨p, hp⟩, q, hq⟩ := placed_of_mem_protectedRanges hrange
      simp only [Assembler.catchAllEntry, hp, hq, h'.grows.position?_of_nil hp,
        h'.grows.position?_of_nil hq]
    have hentries := catchAllEntry_protectedRanges (h := handling.start) hstart
      b.position?_mark_nextLabel hgaps
    rw [← h.recorded_eq trivial] at hentries
    simp only [Mode.entries, EnsureBlock.entries, Option.toList_some, List.flatMap_singleton]
    rw [← hentries]
    exact List.map_congr_left hkept

theorem protects_enterClause (finish done : Nat) {range : Nat × Nat}
    (hstart : s.body.position? start = some range.1) (hstop : s.body.position? stop = some range.2)
    (classes : List String) : Protects s.body.labels.size [start, stop] s
      (s.edit fun a => a.mark.protectAll (classes.map (.catching start stop a.nextLabel))) []
      (RescueBlock.entries { start := range.1, stop := range.2, classes, handler := s.offset,
                             finish, done }) := by
  have hmark : ∀ {l : Label} {p : Nat}, s.body.position? l = some p →
      s.body.mark.position? l = some p := fun hp => (Grows.mark [] s.body).position?_of_nil hp
  refine ⟨by simp, classes.map (.catching start stop s.body.nextLabel), by simp, ?_⟩
  rw [RescueBlock.entries, List.forall₂_map_left_iff, List.forall₂_map_right_iff,
    List.forall₂_same]
  intro name _
  refine ⟨⟨?_, ?_, ?_, rfl⟩, ⟨.inr (by simp [Region.catching]), .inr (by simp [Region.catching]),
    .inl le_rfl⟩⟩
  · simpa [Region.catching] using hmark hstart
  · simpa [Region.catching] using hmark hstop
  · simp [Region.catching]

/-- The regions of the handler of an ensure block resolve to the entries of
their ranges. -/
theorem protects_enterHandler {b : Draft} {ranges : List (Label × Label)}
    (hanchored : ∀ range ∈ ranges,
      (∃ p, s.body.position? range.1 = some p) ∧ ∃ q, s.body.position? range.2 = some q)
    (hgrows : Grows [] s.body b.body) (hregions : b.body.regions = s.body.regions) :
    Protects b.body.labels.size (ranges.flatMap fun range => [range.1, range.2]) s
      (b.enterHandler ranges) [] (ranges.map (s.body.catchAllEntry b.offset)) := by
  have hkept : ∀ {l : Label} {p : Nat}, s.body.position? l = some p →
      (b.enterHandler ranges).body.position? l = some p := fun hp =>
    (hgrows.trans (grows_enterHandler b ranges)).position?_of_nil hp
  refine ⟨by simp, ranges.map (.catchAll b.body.nextLabel),
    by simp [Draft.enterHandler, hregions], ?_⟩
  rw [List.forall₂_map_left_iff, List.forall₂_map_right_iff, List.forall₂_same]
  intro range hrange
  obtain ⟨⟨p, hp⟩, q, hq⟩ := hanchored range hrange
  refine ⟨⟨?_, ?_, ?_, rfl⟩, ⟨.inr ?_, .inr ?_, .inl le_rfl⟩⟩
  · simpa [Region.catchAll, Assembler.catchAllEntry, hp] using hkept hp
  · simpa [Region.catchAll, Assembler.catchAllEntry, hq] using hkept hq
  · simp [Region.catchAll, Assembler.catchAllEntry, Draft.enterHandler]
  · exact List.mem_flatMap.2 ⟨range, hrange, by simp [Region.catchAll]⟩
  · exact List.mem_flatMap.2 ⟨range, hrange, by simp [Region.catchAll]⟩

theorem table (h : Laid ctx mode s t gaps blocks) (hown : ∀ l ∈ mode.own, l.id < s.body.labels.size)
    (hanchored : mode.Anchored s) : Protects s.body.labels.size mode.ends s t gaps
      (mode.entries s ++ blocks.flatMap Block.entries) := by
  induction h with
  | refl | instruction | spare | place | noClauses | unhandled | noCopies => exact .quiet rfl
  | @trans _ _ _ s t u gaps gaps' _ _ h h' ih ih' =>
    have hsize := h.grows.size
    have hlater := (ih' (fun l hl => (hown l hl).trans_le hsize) trivial).mono hsize fun _ => .inr
    have hall := (ih hown trivial).trans hlater h'.grows fun l hl =>
      ⟨hown l hl, by simp [Mode.ends]⟩
    simpa [Mode.entries] using hall
  | weaken _ hsub _ _ ih => exact ih (fun l hl => hown l (hsub hl)) trivial
  | part node _ _ _ ih => exact (ih nofun trivial).before rfl
  | line s n => exact .quiet (by simp)
  | @named _ _ _ s _ _ _ name ty _ ih =>
    have hinner := ih (by simpa [Draft.edit, Mode.own] using hown) trivial
    simpa [Draft.edit, Mode.ends, Mode.entries] using hinner.before (s := s) (by simp)
  | @temporary _ _ _ s _ _ _ ty _ ih => exact (ih hown trivial).before rfl
  | @label _ _ _ s _ _ _ _ _ ih =>
    have hsize := (Grows.label [] s.body).size
    have hinner := ih (fun l hl => ?_) trivial
    · exact (hinner.mono hsize fun _ => .inr).before rfl
    · rcases List.mem_cons.1 hl with rfl | hl
      · simp [Draft.edit, Assembler.nextLabel]
      · exact (hown l hl).trans_le hsize
  | loop _ _ _ ih => exact ih hown trivial
  | @depart _ _ _ s parked t gaps _ departure pending starts made _ hparks h ih =>
    have hsize := (grows_of_parks hparks).size
    have hcopies := fun later => (ih (by simp [Mode.own]) trivial).grow
      (grows_departure t departure later) (by simp) (by simp [Draft.regions_closeGaps])
    exact (((hcopies _).append fun g hg => h.marked_passage rfl hg).mono hsize fun _ => .inr).before
      (regions_of_parks hparks)
  | @rescue _ _ _ s b t u _ _ _ _ _ _ start stop done hstart hstop hdone h h' h'' ih ih' ih'' =>
    have hids : start.id = s.body.labels.size ∧ stop.id = s.body.labels.size + 1 ∧
        done.id = s.body.labels.size + 2 := by
      simp [hstart, hstop, hdone, Assembler.nextLabel]
    have hne : start ≠ stop ∧ done ∉ [start, stop] := by
      refine ⟨fun heq => ?_, fun hmem => ?_⟩
      · rw [heq] at hids
        omega
      · rcases List.mem_cons.1 hmem with rfl | hmem
        · omega
        · obtain rfl := List.mem_singleton.1 hmem
          omega
    have hsize : (s.edit fun a => a.label.2.label.2.label.2.place start).body.labels.size =
        s.body.labels.size + 3 := by simp [Draft.edit]
    have hb := h.grows.size
    rw [hsize] at hb
    have ht : b.body.labels.size ≤ t.body.labels.size := by simpa [Draft.edit] using h'.grows.size
    have hfirst : b.body.position? start = some s.offset := by
      refine h.grows.position?_of_nil ?_
      rw [Draft.edit_body, Assembler.position?_place_self (by simp [hids]; omega)]
      rfl
    have hanchor : t.body.position? start = some s.offset ∧
        t.body.position? stop = some b.offset := by
      constructor
      · refine h'.grows.position?_of_nil ?_
        rw [Draft.edit_body, Assembler.position?_place_of_ne hne.1]
        exact hfirst
      · refine h'.grows.position?_of_nil ?_
        rw [Draft.edit_body, Assembler.position?_place_self (by omega)]
        rfl
    have hbody := (ih (by simp [Mode.own]) trivial).before (s := s) rfl
    rw [hsize] at hbody
    have hplaced : Grows [stop] b.body (b.edit (·.place stop)).body :=
      Grows.place _ (List.mem_singleton_self _)
    have hbody' : Protects (s.body.labels.size + 3) [] _ _ _ _ :=
      hbody.grow hplaced (by simp [hids, Mode.ends]) rfl
    have helse : Protects (s.body.labels.size + 3) [] _ _ _ _ :=
      (ih' (by simp [Mode.own]) trivial).mono (by simpa [Draft.edit] using hb) fun _ => .inr
    have hclauses : Protects (s.body.labels.size + 3) [start, stop] _ _ _ _ :=
      (ih'' (by simp [Mode.own]) hanchor).mono (hb.trans ht) fun _ => .inr
    have hbefore : Protects (s.body.labels.size + 3) [start, stop] _ _ _ _ :=
      (hbody'.trans helse h'.grows (by simp [Mode.own])).mono le_rfl (by simp)
    have hparts := hbefore.trans hclauses h''.grows (by simp [Mode.own])
    have hend : Grows [done] u.body (u.edit (·.place done)).body :=
      Grows.place _ (List.mem_singleton_self _)
    have hall := hparts.grow hend
      (fun l hl => List.mem_singleton.1 hl ▸ ⟨by omega, hne.2⟩) rfl
    have hall' : Protects s.body.labels.size [] _ _ _ _ :=
      hall.mono (Nat.le_add_right _ 3) fun l hmem => .inl (by
        rcases List.mem_cons.1 hmem with rfl | hmem
        · omega
        · obtain rfl := List.mem_singleton.1 hmem
          omega)
    simpa [Mode.ends, Mode.entries, List.flatMap_append] using hall'
  | @clause start stop _ range finish s t _ _ _ _ _ classes _ h h' ih ih' =>
    have hsize := (grows_enterClause s.body start stop classes).size
    have hentry := grows_enterClause s.body start stop classes
    have hkept : ∀ {l : Label} {p : Nat}, s.body.position? l = some p →
        t.body.position? l = some p := fun hp => (hentry.trans h.grows).position?_of_nil hp
    have henter := protects_enterClause t.offset finish hanchored.1 hanchored.2 classes
    have hcode : Protects s.body.labels.size [start, stop] _ _ _ _ :=
      (ih (by simp [Mode.own]) trivial).mono hsize (by simp [Mode.ends])
    have hlater : Protects s.body.labels.size [start, stop] _ _ _ _ :=
      (ih' (by simp [Mode.own]) ⟨hkept hanchored.1, hkept hanchored.2⟩).mono
        (hsize.trans h.grows.size) fun _ => .inr
    have hall := (henter.trans hcode h.grows (by simp [Mode.own])).trans hlater h'.grows
      (by simp [Mode.own])
    simpa [Mode.ends, Mode.entries, List.flatMap_append, Block.entries] using hall
  | @ensure _ _ _ a b js js' n t gaps _ _ _ _ _ handling clause recorded h h' _ h'' ih ih' ih'' =>
    have hsize := (Grows.mark [] a).size
    have hb : Grows [] b (⟨b.mark, js'⟩ : Draft).body := Grows.mark [] b
    have hanchored' : (Mode.handler clause (b.mark.protectedRanges a.nextLabel b.nextLabel
        recorded) handling).Anchored n := fun range hrange => by
      obtain ⟨⟨p, hp⟩, q, hq⟩ := placed_of_mem_protectedRanges hrange
      exact ⟨⟨p, h'.grows.position?_of_nil hp⟩, q, h'.grows.position?_of_nil hq⟩
    have hbody := (ih (by simp [Mode.own]) trivial).grow hb (by simp) rfl
    have hmarked : ∀ g ∈ gaps.filter (fun g => g.depth == js.length),
        g.Marked a.mark.labels.size b.mark := fun g hg => hbody.1 g (List.mem_of_mem_filter hg)
    have hends : ∀ l ∈ (Mode.handler clause (b.mark.protectedRanges a.nextLabel b.nextLabel
        recorded) handling).ends, a.labels.size ≤ l.id := by
      intro l hl
      obtain ⟨range, hrange, hl⟩ := List.mem_flatMap.1 hl
      rw [h.recorded_eq trivial] at hrange
      have hfresh := fresh_of_mem_protectedRanges le_rfl (hsize.trans h.grows.size)
        (fun g hg => (hmarked g hg).mono hsize) hrange
      rcases List.mem_cons.1 hl with rfl | hl
      · exact hfresh.1
      · exact List.mem_singleton.1 hl ▸ hfresh.2
    have hsize' := (hsize.trans h.grows.size).trans hb.size
    have hinner : Protects a.labels.size [] ⟨a, js⟩ ⟨b.mark, js'⟩
        (gaps.filter fun g => g.depth != js.length) _ :=
      ((hbody.mono hsize fun _ => .inr).before rfl).of_subset fun _ => List.mem_of_mem_filter
    have hnormal : Protects a.labels.size [] ⟨b.mark, js'⟩ n _ _ :=
      (ih' (by simp [Mode.own]) trivial).mono hsize' fun _ => .inr
    have hhandler : Protects a.labels.size [] n t _ _ :=
      (ih'' (by simp [Mode.own]) hanchored').mono (hsize'.trans h'.grows.size) fun l hl =>
        .inl (hends l hl)
    have hall := (hinner.trans hnormal h'.grows (by simp [Mode.own])).trans hhandler h''.grows
      (by simp [Mode.own])
    rw [h.entries_handler h' hmarked] at hall
    simpa [Mode.ends, Mode.entries, List.flatMap_append, Block.entries] using hall
  | @handled _ s b t _ _ ranges _ hb h _ ih =>
    have hb' : Grows [] s.body.label.2 b.body := by
      rw [hb]
      exact grows_gotoIfReachable _ _
    have hregions : b.body.regions = s.body.regions := by
      rw [hb]
      simp [Draft.edit]
    have hsize : s.body.labels.size + 1 ≤ b.body.labels.size := by simpa using hb'.size
    have henter := protects_enterHandler hanchored ((Grows.label [] s.body).trans hb') hregions
    have hcode : Protects b.body.labels.size (ranges.flatMap fun range => [range.1, range.2])
        _ _ _ _ :=
      (ih (by simp [Mode.own]) trivial).mono (grows_enterHandler b ranges).size
        (by simp [Mode.ends])
    have hend : Grows [s.body.nextLabel] t.body (t.edit fun a =>
        (a.emitAll [.load .ref b.body.nextSlot, .athrow]).place s.body.nextLabel).body :=
      (Grows.emitAll _ _ _).trans (Grows.place _ (by simp))
    -- the label behind the handler is new, so it ends none of the ranges
    have hdone : ∀ l ∈ [s.body.nextLabel], l.id < b.body.labels.size ∧
        l ∉ ranges.flatMap fun range => [range.1, range.2] := by
      intro l hl
      obtain rfl := List.mem_singleton.1 hl
      refine ⟨hsize, fun hmem => ?_⟩
      obtain ⟨range, hrange, hl⟩ := List.mem_flatMap.1 hmem
      obtain ⟨⟨p, hp⟩, q, hq⟩ := hanchored range hrange
      have hp := Assembler.lt_of_position? hp
      have hq := Assembler.lt_of_position? hq
      rcases List.mem_cons.1 hl with hl | hl
      · rw [← hl] at hp
        exact absurd hp (Nat.lt_irrefl _)
      · rw [← List.mem_singleton.1 hl] at hq
        exact absurd hq (Nat.lt_irrefl _)
    have hall := ((henter.trans hcode h.grows (by simp [Mode.own])).grow hend hdone
      (by simp)).mono (Nat.le_of_succ_le hsize) fun _ => .inr
    simpa [Mode.ends, Mode.entries] using hall
  | @copy s b js t _ _ _ _ _ _ _ depth clause h _ h' ih ih' =>
    have hsize := (Grows.mark [] s.body).size
    have hfirst : Protects s.body.labels.size [] _ _ _ _ :=
      (ih (by simp [Mode.own]) trivial).mono hsize fun _ => .inr
    have hlater : Protects s.body.labels.size [] _ _ _ _ :=
      (ih' (by simp [Mode.own]) trivial).mono (hsize.trans h.grows.size) fun _ => .inr
    have hall := (hfirst.before (s := s) rfl).trans hlater h'.grows (by simp [Mode.own])
    simpa [Mode.ends, Mode.entries, List.flatMap_append] using hall

end Laid

/-! ## The finished method -/

theorem forM_eq_ok_iff {α : Type} {f : α → Except Fault PUnit} {xs : List α} :
    xs.forM f = .ok ⟨⟩ ↔ ∀ x ∈ xs, f x = .ok ⟨⟩ := by
  induction xs with
  | nil =>
    have hnil : ([] : List α).forM f = .ok ⟨⟩ := rfl
    simp [hnil]
  | cons x xs ih =>
    have hcons : (x :: xs).forM f = f x >>= fun _ => xs.forM f := rfl
    rw [hcons, List.forall_mem_cons, ← ih]
    cases f x <;> simp [bind, Except.bind]

namespace Assembler

variable {a : Assembler} {method : MethodInfo}

/-- A region that stands for an entry becomes that entry, if it covers an
instruction. -/
theorem resolveRegion_eq_ok {r : Region} {e : ExceptionEntry} (h : a.Resolves r e)
    (hlt : e.start < e.stop) : a.resolveRegion r = .ok e := by
  have hstart : a.resolve r.start = .ok e.start := by rw [resolve, h.start]
  have hstop : a.resolve r.stop = .ok e.stop := by rw [resolve, h.stop]
  have hhandler : a.resolve r.handler = .ok e.handler := by rw [resolve, h.handler]
  simp [resolveRegion, hstart, hstop, hhandler, hlt.ne, bind, Except.bind, pure, Except.pure,
    h.catchType]

theorem mapM_resolveRegion_eq_ok {regions : List Region} {entries : List ExceptionEntry}
    (h : List.Forall₂ a.Resolves regions entries) (hlt : ∀ e ∈ entries, e.start < e.stop) :
    regions.mapM a.resolveRegion = .ok entries := by
  induction h with
  | nil => rfl
  | cons hr _ ih =>
    obtain ⟨hfirst, hrest⟩ := List.forall_mem_cons.1 hlt
    rw [List.mapM_cons, resolveRegion_eq_ok hr hfirst, ih hrest]
    rfl

theorem finish_eq_ok (h : a.finish = .ok method) :
    a.checkJumps = .ok () ∧ a.regions.mapM a.resolveRegion = .ok method.exceptionTable ∧
      method.code = a.code ∧
      method.labels = a.labels.map (fun position => position.getD a.code.size) ∧
      method.name = a.name ∧ method.descriptor = a.descriptor ∧ method.access = a.access ∧
      method.locals = a.locals ∧ method.maxLocals = a.maxLocals ∧ method.nodes = a.nodes := by
  unfold finish at h
  cases hjumps : a.checkJumps with
  | error fault => simp [hjumps, bind, Except.bind] at h
  | ok u =>
    cases htable : a.regions.mapM a.resolveRegion with
    | error fault => simp [hjumps, htable, bind, Except.bind] at h
    | ok table =>
      simp only [hjumps, htable, bind, Except.bind, pure, Except.pure, Except.ok.injEq] at h
      subst h
      exact ⟨rfl, rfl, rfl, rfl, rfl, rfl, rfl, rfl, rfl, rfl⟩

theorem nodes_of_finish (h : a.finish = .ok method) : method.nodes = a.nodes := by
  obtain ⟨-, -, -, -, -, -, -, -, -, hnodes⟩ := finish_eq_ok h
  exact hnodes

end Assembler

theorem Laid.mapM_resolveRegion (h : Laid ctx (.code [] [] []) s t gaps blocks)
    (hnone : s.body.regions = []) :
    t.body.regions.mapM t.body.resolveRegion = .ok (blocks.flatMap Block.entries) := by
  obtain ⟨-, new, hnew, hentries⟩ := h.table (by simp [Mode.own]) trivial
  rw [hnone, List.nil_append] at hnew
  rw [hnew]
  refine Assembler.mapM_resolveRegion_eq_ok (hentries.imp fun r e hr => hr.1) fun e he => ?_
  obtain ⟨block, hblock, he⟩ := List.mem_flatMap.1 he
  exact (h.within block hblock).start_lt_stop he

/-- The exception table of a finished method lists the entries of its blocks. -/
theorem Laid.exceptionTable_eq {method : MethodInfo} (h : Laid ctx (.code [] [] []) s t gaps blocks)
    (hnone : s.body.regions = []) (hfinish : t.body.finish = .ok method) :
    method.exceptionTable = blocks.flatMap Block.entries := by
  obtain ⟨-, htable, -⟩ := Assembler.finish_eq_ok hfinish
  rw [h.mapM_resolveRegion hnone] at htable
  exact (Except.ok.inj htable).symm

end ClassBackend
