import ClassBackend.Proofs.Layout.Labels

/-!
# Which local slots code writes

Slots are handed out in order and never taken back, as long as their numbers do
not wrap around. So named locals lie apart, and a slot that was handed out for a
temporary is not written by code that was not told of it: that code writes slots
it was told of, slots of named locals, and slots handed out later
(`Laid.writes`).
-/

namespace ClassBackend

theorem Ty.descriptor_iff_isWide (t : Ty) :
    (t.descriptor = "J" ∨ t.descriptor = "D") ↔ t.isWide = true := by
  -- the descriptors of arrays and classes start with a letter of their own
  have hother : ∀ (c : Char) (s : String), c ≠ 'J' → c ≠ 'D' →
      ¬ (String.singleton c ++ s = "J" ∨ String.singleton c ++ s = "D") := by
    rintro c s hJ hD (h | h)
    · have hlist := congrArg String.toList h
      simp [hJ] at hlist
    · have hlist := congrArg String.toList h
      simp [hD] at hlist
  cases t with
  | void => decide
  | prim p => cases p <;> decide
  | array component => exact iff_of_false (hother '[' _ (by decide) (by decide)) Bool.false_ne_true
  | _ =>
    refine iff_of_false ?_ Bool.false_ne_true
    rw [Ty.descriptor, String.append_assoc]
    · exact hother 'L' _ (by decide) (by decide)
    all_goals nofun

namespace LocalVar

/-- The number of slots a named local takes. -/
def words (v : LocalVar) : Nat := if v.descriptor = "J" ∨ v.descriptor = "D" then 2 else 1

/-- Two named locals have different names and no slot in common. -/
def Apart (v w : LocalVar) : Prop :=
  v.name ≠ w.name ∧
    (v.slot.toNat + v.words ≤ w.slot.toNat ∨ w.slot.toNat + w.words ≤ v.slot.toNat)

end LocalVar

namespace Assembler

/-- Slot numbers have not come near the point where they wrap around. -/
def Roomy (a : Assembler) : Prop := a.maxLocals.toNat < 65534

/-- The slots of named locals have been handed out, each for one local, and the
frame has room for all slots handed out. -/
structure Slotted (a : Assembler) : Prop where
  next_le : a.nextSlot ≤ a.maxLocals
  named_le : ∀ v ∈ a.locals, v.slot.toNat + v.words ≤ a.nextSlot.toNat
  apart : a.locals.Pairwise LocalVar.Apart

end Assembler

variable {a : Assembler}

theorem Grows.roomy {own : List Label} {b : Assembler} (h : Grows own a b) (hb : b.Roomy) :
    a.Roomy := by
  have hframe := h.frame
  rw [UInt16.le_iff_toNat_le] at hframe
  exact hframe.trans_lt hb

/-- The second body hands out slots from where the first one stopped. -/
structure Allots (a b : Assembler) : Prop where
  slotted : b.Slotted
  next_le : a.nextSlot ≤ b.nextSlot
  named : ∀ v ∈ b.locals, v ∈ a.locals ∨ a.nextSlot ≤ v.slot

namespace Allots

variable {a b c : Assembler}

theorem of_eq (ha : a.Slotted) (hnext : b.nextSlot = a.nextSlot) (hmax : b.maxLocals = a.maxLocals)
    (hlocals : b.locals = a.locals) : Allots a b where
  slotted := ⟨hnext ▸ hmax ▸ ha.next_le, fun v hv => hnext ▸ ha.named_le v (hlocals ▸ hv),
    hlocals ▸ ha.apart⟩
  next_le := hnext ▸ UInt16.le_refl _
  named := fun _ hv => .inl (hlocals ▸ hv)

theorem trans (h : Allots a b) (k : Allots b c) : Allots a c where
  slotted := k.slotted
  next_le := UInt16.le_trans h.next_le k.next_le
  named := fun v hv => by
    rcases k.named v hv with hv | hle
    · exact h.named v hv
    · exact .inr (UInt16.le_trans h.next_le hle)

theorem andThen (h : Allots a b) (k : b.Slotted → Allots b c) : Allots a c :=
  h.trans (k h.slotted)

theorem emitAll (ha : a.Slotted) (is : List Instruction) : Allots a (a.emitAll is) := by
  induction is generalizing a with
  | nil => exact of_eq ha rfl rfl rfl
  | cons i is ih => exact (of_eq (b := a.emit i) ha rfl rfl rfl).andThen fun hs => ih hs

theorem toNat_nextSlot_allocate (ha : a.Slotted) (t : Ty) (hroom : (a.allocate t).2.Roomy) :
    (a.allocate t).2.nextSlot.toNat = a.nextSlot.toNat + if t.isWide then 2 else 1 := by
  have hle := UInt16.le_iff_toNat_le.1 ha.next_le
  have hlt := (Grows.allocate [] a t).roomy hroom
  unfold Assembler.Roomy at hlt
  show (a.nextSlot + if t.isWide then 2 else 1).toNat = _
  split
  · rw [UInt16.toNat_add, show (2 : UInt16).toNat = 2 from rfl]
    omega
  · rw [UInt16.toNat_add, show (1 : UInt16).toNat = 1 from rfl]
    omega

theorem allocate (ha : a.Slotted) (t : Ty) (hroom : (a.allocate t).2.Roomy) :
    Allots a (a.allocate t).2 ∧ a.nextSlot < (a.allocate t).2.nextSlot := by
  have hlt : a.nextSlot < (a.allocate t).2.nextSlot := by
    rw [UInt16.lt_iff_toNat_lt, toNat_nextSlot_allocate ha t hroom]
    split <;> omega
  have hmax : (a.allocate t).2.nextSlot ≤ (a.allocate t).2.maxLocals := by
    show (a.allocate t).2.nextSlot ≤
      if a.maxLocals ≤ (a.allocate t).2.nextSlot then (a.allocate t).2.nextSlot else a.maxLocals
    split
    · exact UInt16.le_refl _
    · rename_i h
      exact (UInt16.le_total ..).resolve_left h
  have hnamed : ∀ v ∈ a.locals, v.slot.toNat + v.words ≤ (a.allocate t).2.nextSlot.toNat :=
    fun v hv => (ha.named_le v hv).trans (UInt16.lt_iff_toNat_lt.1 hlt).le
  exact ⟨⟨⟨hmax, hnamed, ha.apart⟩, UInt16.le_of_lt hlt, fun v hv => .inl hv⟩, hlt⟩

theorem namedLocal (ha : a.Slotted) (name : String) (t : Ty)
    (hroom : (a.namedLocal name t).2.Roomy) :
    Allots a (a.namedLocal name t).2 := by
  unfold Assembler.namedLocal at hroom ⊢
  split
  · exact of_eq ha rfl rfl rfl
  · rename_i hnew
    simp only [hnew] at hroom
    obtain ⟨hallots, -⟩ := allocate ha t hroom
    have hfree : ∀ v ∈ a.locals, v.name ≠ name := by
      intro v hv heq
      have hnone := List.find?_eq_none.1 (Option.map_eq_none_iff.1 hnew) v hv
      exact hnone (beq_iff_eq.2 heq)
    refine ⟨⟨hallots.slotted.next_le, fun v hv => ?_, ?_⟩, hallots.next_le, fun v hv => ?_⟩
    · rcases List.mem_append.1 hv with hv | hv
      · exact hallots.slotted.named_le v hv
      · rw [List.mem_singleton.1 hv, LocalVar.words]
        simp only [Ty.descriptor_iff_isWide]
        exact (toNat_nextSlot_allocate ha t hroom).ge
    · -- the new local lies behind the ones before it
      refine List.pairwise_append.2 ⟨ha.apart, List.pairwise_singleton .., fun v hv w hw => ?_⟩
      rw [List.mem_singleton.1 hw]
      exact ⟨hfree v hv, .inl (ha.named_le v hv)⟩
    · rcases List.mem_append.1 hv with hv | hv
      · exact .inl hv
      · rw [List.mem_singleton.1 hv]
        exact .inr (UInt16.le_refl _)

end Allots

/-! ## Slots that are written -/

/-- The slot is in the list, belongs to a named local, or has not been handed
out. -/
def Assembler.MayWrite (a : Assembler) (slots : List UInt16) (x : UInt16) : Prop :=
  x ∈ slots ∨ (∃ v ∈ a.locals, v.slot = x) ∨ a.nextSlot ≤ x

theorem Allots.mayWrite {b : Assembler} {slots : List UInt16} {x : UInt16} (h : Allots a b)
    (hx : b.MayWrite slots x) : a.MayWrite slots x := by
  rcases hx with hx | ⟨v, hv, rfl⟩ | hx
  · exact .inl hx
  · rcases h.named v hv with hv | hle
    · exact .inr (.inl ⟨v, hv, rfl⟩)
    · exact .inr (.inr hle)
  · exact .inr (.inr (UInt16.le_trans h.next_le hx))

theorem Assembler.mayWrite_namedLocal (a : Assembler) (slots : List UInt16)
    (name : String) (t : Ty) :
    a.MayWrite slots (a.namedLocal name t).1 := by
  unfold namedLocal
  split
  · rename_i slot hslot
    obtain ⟨v, hv, rfl⟩ := Option.map_eq_some_iff.1 hslot
    exact .inr (.inl ⟨v, List.mem_of_find?_eq_some hv, rfl⟩)
  · exact .inr (.inr (UInt16.le_refl _))

/-- The second body adds code that writes the slots it was told of, those of named
locals, and those handed out to it. -/
structure Confines (slots : List UInt16) (a b : Assembler) : Prop extends Allots a b where
  code : Assembler.Adds (fun i => ∀ x, i.written? = some x → a.MayWrite slots x) a b

namespace Confines

variable {b c : Assembler} {slots slots' : List UInt16}

theorem trans (h : Confines slots a b) (k : Confines slots' b c)
    (hslots : ∀ x ∈ slots', a.MayWrite slots x) : Confines slots a c := by
  refine ⟨h.toAllots.trans k.toAllots, h.code.trans (k.code.imp fun i hwrites x hx => ?_)⟩
  rcases hwrites x hx with hmem | hrest
  · exact hslots x hmem
  · exact h.mayWrite (.inr hrest)

theorem andThen (h : Confines slots a b) (k : b.Slotted → Confines slots b c) :
    Confines slots a c :=
  h.trans (k h.slotted) fun _ => .inl

theorem mono (h : Confines slots a b) (hsub : slots ⊆ slots') : Confines slots' a b :=
  ⟨h.toAllots, h.code.imp fun _ hwrites x hx => (hwrites x hx).imp_left (hsub ·)⟩

theorem silent (h : Allots a b) (hcode : b.code = a.code) : Confines slots a b :=
  ⟨h, .none hcode⟩

theorem of_eq (ha : a.Slotted) (hnext : b.nextSlot = a.nextSlot) (hmax : b.maxLocals = a.maxLocals)
    (hlocals : b.locals = a.locals) (hcode : b.code = a.code) : Confines slots a b :=
  silent (.of_eq ha hnext hmax hlocals) hcode

theorem emitAll (ha : a.Slotted) (is : List Instruction)
    (h : ∀ i ∈ is, ∀ x, i.written? = some x → a.MayWrite slots x) :
    Confines slots a (a.emitAll is) :=
  ⟨.emitAll ha is, .emitAll h⟩

theorem emitQuiet (ha : a.Slotted) (is : List Instruction) (h : ∀ i ∈ is, i.written? = none) :
    Confines slots a (a.emitAll is) :=
  emitAll ha is fun i hi x hx => by simp [h i hi] at hx

theorem storeNew (ha : a.Slotted) (kind : Kind) (t : Ty) (hroom : (a.allocate t).2.Roomy) :
    Confines slots a ((a.allocate t).2.emit (.store kind a.nextSlot)) := by
  obtain ⟨hallots, -⟩ := Allots.allocate ha t hroom
  refine ⟨hallots.andThen fun hs => .of_eq hs rfl rfl rfl, [.store kind a.nextSlot], by simp, ?_⟩
  intro i hi x hx
  obtain rfl := List.mem_singleton.1 hi
  cases hx
  exact .inr (.inr (UInt16.le_refl _))

theorem protectHere (ha : a.Slotted) (regions : List Region) :
    Confines slots a (a.mark.protectAll regions) := by
  rw [Assembler.protectAll_eq]
  exact of_eq ha rfl rfl rfl rfl

theorem line (ha : a.Slotted) (n : Nat) : Confines slots a (a.line n) := by
  unfold Assembler.line
  split
  · split
    · exact of_eq ha rfl rfl rfl rfl
    · split <;> exact of_eq ha rfl rfl rfl rfl
  · exact of_eq ha rfl rfl rfl rfl

theorem gotoIfReachable (ha : a.Slotted) (l : Label) : Confines slots a (a.gotoIfReachable l) := by
  unfold Assembler.gotoIfReachable
  split
  · exact emitQuiet ha [.goto l] (by simp [Instruction.written?])
  · exact of_eq ha rfl rfl rfl rfl

end Confines

/-! ## Slots of the code laid down -/

def Mode.slots : Mode → List UInt16
  | .code _ _ slots => slots
  | _ => []

namespace Laid

variable {ctx : Context} {mode : Mode} {s t : Draft} {gaps : List Gap} {blocks : List Block}

theorem confines_of_parks {departure : Departure} {parked : Draft} (h : Parks departure s parked)
    (hs : s.body.Slotted) (hroom : parked.body.Roomy) : Confines [] s.body parked.body := by
  cases h with
  | jump | ret => exact .of_eq hs rfl rfl rfl rfl
  | value kind ty => exact .storeNew hs kind ty hroom

theorem confines_enterHandler {ranges : List (Label × Label)} (hs : s.body.Slotted)
    (hroom : (s.enterHandler ranges).body.Roomy) :
    Confines [] s.body (s.enterHandler ranges).body := by
  have hprotect : Confines [] s.body
      (s.body.mark.protectAll (ranges.map (.catchAll s.body.nextLabel))) := .protectHere hs _
  have hstore := hprotect.andThen fun hs => .storeNew hs .ref (.object "java.lang.Throwable") hroom
  rwa [Assembler.nextSlot_protectAll] at hstore

theorem confines_closeGaps (hs : s.body.Slotted) (gaps : List Gap) :
    Confines [] s.body (s.closeGaps gaps).body := by
  unfold Draft.closeGaps
  split <;> exact .of_eq hs rfl rfl rfl rfl

theorem written?_departure (departure : Departure) : ∀ i ∈ departure.code, i.written? = none := by
  cases departure <;> simp [Departure.code, Instruction.written?]

/-- What is laid down inside is not told of the slots that the code around it knows. -/
theorem confines (h : Laid ctx mode s t gaps blocks) (hs : s.body.Slotted) (hroom : t.body.Roomy) :
    Confines mode.slots s.body t.body := by
  induction h with
  | trans h h' ih ih' =>
    exact (ih hs (h'.grows.roomy hroom)).andThen fun hs => ih' hs hroom
  | weaken _ _ _ hslots ih => exact (ih hs hroom).mono hslots
  | line s n => exact .line hs n
  | @part _ _ slots s _ _ _ node _ _ _ ih =>
    have hvisit : Confines slots s.body (s.body.visit node) := .of_eq hs rfl rfl rfl rfl
    exact hvisit.andThen fun hvisited => (ih hvisited hroom).mono (List.nil_subset _)
  | @named _ _ slots s _ _ _ name ty h ih =>
    have hnamed : Confines slots s.body (s.body.namedLocal name ty).2 :=
      .silent (Allots.namedLocal hs name ty (h.grows.roomy hroom)) (by simp)
    refine hnamed.trans (ih hnamed.slotted hroom) fun x hx => ?_
    rcases List.mem_cons.1 hx with rfl | hx
    · exact s.body.mayWrite_namedLocal slots name ty
    · exact .inl hx
  | @temporary _ _ slots s _ _ _ ty h ih =>
    have hallots := (Allots.allocate hs ty (h.grows.roomy hroom)).1
    refine (Confines.silent hallots rfl).trans (ih hallots.slotted hroom) fun x hx => ?_
    rcases List.mem_cons.1 hx with rfl | hx
    · exact .inr (.inr (UInt16.le_refl _))
    · exact .inl hx
  | instruction s i hadmits =>
    exact .emitAll hs [i] fun j hj x hx => .inl
      (hadmits.writes x (List.mem_singleton.1 hj ▸ hx))
  | @label _ _ slots s _ _ _ _ _ ih =>
    have hlabel : Confines slots s.body s.body.label.2 := .of_eq hs rfl rfl rfl rfl
    exact hlabel.andThen fun hs => ih hs hroom
  | loop labels hown _ ih => exact ih hs hroom
  | @depart _ _ _ s parked t gaps _ departure pending starts made hfinds hparks h ih =>
    have hroom := (grows_departure t departure _).roomy hroom
    have hcopies := (confines_of_parks hparks hs (h.grows.roomy hroom)).andThen fun hs
      => ih hs hroom
    have hleaves := hcopies.andThen fun hs => .emitQuiet hs _ (written?_departure departure)
    exact (hleaves.andThen fun hs =>
      confines_closeGaps (s := t.edit (·.emitAll departure.code)) hs _).mono (List.nil_subset _)
  | @rescue _ _ _ s b t u gaps gaps' gaps'' _ _ _ start stop done _ _ hdone h h' h'' ih ih'
    ih'' =>
    have hroom : u.body.Roomy := hroom
    have hroom' := h''.grows.roomy hroom
    have hstart : Confines [] s.body (s.body.label.2.label.2.label.2.place start) :=
      .of_eq hs rfl rfl rfl rfl
    have hstop : b.body.Slotted → Confines [] b.body (b.body.place stop) := fun hs =>
      .of_eq hs rfl rfl rfl rfl
    have hbody := hstart.andThen fun hs => ih hs (h'.grows.roomy hroom')
    have hclauses := ((hbody.andThen hstop).andThen fun hs => ih' hs hroom').andThen fun hs =>
      ih'' hs hroom
    have hend : u.body.Slotted → Confines [] u.body (u.body.place done) := fun hs =>
      .of_eq hs rfl rfl rfl rfl
    exact (hclauses.andThen hend).mono (List.nil_subset _)
  | @clause start stop done range finish s t u gaps gaps' blocks blocks' classes _ h h' ih ih' =>
    have hstart : Confines [] s.body (s.body.mark.protectAll
        (classes.map (.catching start stop s.body.nextLabel))) := .protectHere hs _
    exact (hstart.andThen fun hs => ih hs (h'.grows.roomy hroom)).andThen fun hs => ih' hs hroom
  | @ensure _ _ _ a b js js' n t gaps gaps' gaps'' blocks blocks' blocks'' handling clause
    recorded h h' _ h'' ih ih' ih'' =>
    have hroom' := h''.grows.roomy hroom
    have hmark : Confines [] a a.mark := .of_eq hs rfl rfl rfl rfl
    have hmark' : b.Slotted → Confines [] b b.mark := fun hs => .of_eq hs rfl rfl rfl rfl
    have hbody := hmark.andThen fun hs => ih hs (h'.grows.roomy hroom')
    have hnormal := (hbody.andThen hmark').andThen fun hs => ih' hs hroom'
    exact (hnormal.andThen fun hs => ih'' hs hroom).mono (List.nil_subset _)
  | @handled _ s b t _ _ ranges _ hb h _ ih =>
    have hend : Grows [s.body.nextLabel] t.body ((t.body.emitAll
        [.load .ref b.body.nextSlot, .athrow]).place s.body.nextLabel) :=
      (Grows.emitAll _ _ _).trans (Grows.place _ (List.mem_singleton_self _))
    have hroom := hend.roomy hroom
    have hlabel : Confines [] s.body s.body.label.2 := .of_eq hs rfl rfl rfl rfl
    have hgoto : Confines [] s.body b.body := by
      rw [hb]
      exact hlabel.andThen fun hs => .gotoIfReachable hs _
    have hcopy := (hgoto.andThen fun hs =>
      confines_enterHandler hs (h.grows.roomy hroom)).andThen fun hs => ih hs hroom
    have hthrow := hcopy.andThen fun hs => .emitQuiet hs
      [.load .ref b.body.nextSlot, .athrow] (by simp [Instruction.written?])
    exact hthrow.andThen fun hs => .of_eq hs rfl rfl rfl rfl
  | @copy s b js t ensures starts made gaps _ _ _ depth clause h _ h' ih ih' =>
    have hmark : Confines [] s.body s.body.mark := .of_eq hs rfl rfl rfl rfl
    exact (hmark.andThen fun hs => ih hs (h'.grows.roomy hroom)).andThen fun hs => ih' hs hroom
  | _ => exact .of_eq hs rfl rfl rfl rfl

theorem allots (h : Laid ctx mode s t gaps blocks) (hs : s.body.Slotted) (hroom : t.body.Roomy) :
    Allots s.body t.body :=
  (h.confines hs hroom).toAllots

variable {p : Nat} {i : Instruction} {x : UInt16}

end Laid

end ClassBackend
