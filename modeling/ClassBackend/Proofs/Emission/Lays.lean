import ClassBackend.Proofs.Emission.Laid

/-!
# Actions that lay code down

`Emit.Lays ctx own goals slots x` says that whenever the action `x` ends with a
result, it has laid down code relative to these lists. The rules below follow
the way actions are put together, so that an action is checked against its own
text: a label is owned by what follows its creation, a slot may be written by
what follows its allocation, and whatever leaves the draft alone is *quiet*.
-/

namespace ClassBackend

namespace Emit

variable {x : Emit α} {f : α → Emit β} {l : Label}

variable {α β : Type} {ctx : Context} {own goals own' goals' : List Label}
  {slots slots' : List UInt16}

/-- The action does not touch the draft of the method being emitted. -/
def Quiet (x : Emit α) : Prop := ∀ ⦃σ a σ'⦄, x σ = .ok a σ' → σ'.draft? = σ.draft?

/-- The action lays code down from the draft it finds. -/
def Lays (ctx : Context) (own goals : List Label) (slots : List UInt16) (x : Emit α) :
    Prop :=
  ∀ ⦃σ a σ' s⦄, x σ = .ok a σ' → σ.draft? = some s →
    ∃ t gaps blocks, σ'.draft? = some t ∧ Laid ctx (.code own goals slots) s t gaps blocks

/-! ## Quiet actions -/

namespace Quiet

theorem pure (a : α) : Quiet (Pure.pure a : Emit α) := by
  intro σ b σ' h
  rw [(pure_eq_ok.1 h).2]

theorem bind (hx : Quiet x) (hf : ∀ a, Quiet (f a)) : Quiet (x >>= f) := by
  intro σ b σ' h
  obtain ⟨a, τ, h1, h2⟩ := bind_eq_ok.1 h
  rw [hf a h2, hx h1]

theorem throw (fault : Fault) : Quiet (MonadExcept.throw fault : Emit α) :=
  fun _ _ _ h => absurd h throw_ne_ok

theorem ofExcept (x : Except Fault α) : Quiet (Emit.ofExcept x) := by
  intro σ a σ' h
  rw [(ofExcept_eq_ok.1 h).2]

theorem orFault (x : Option α) (fault : Fault) : Quiet (Emit.orFault x fault) := by
  intro σ a σ' h
  rw [(orFault_eq_ok.1 h).2]

theorem get : Quiet (MonadState.get : Emit Emission) := by
  intro σ a σ' h
  rw [(get_eq_ok.1 h).2]

theorem frame : Quiet Emit.frame := by
  intro σ a σ' h
  rw [(frame_eq_ok.1 h).2]

theorem sharing (step : Compilation → α × Compilation) : Quiet (Emit.sharing step) := by
  intro σ a σ' h
  rw [(sharing_eq_ok.1 h).2]
  rfl

theorem modifyClass (change : ClassFile → ClassFile) : Quiet (Emit.modifyClass change) := by
  intro σ a σ' h
  rw [modify_eq_ok.1 h]
  rfl

theorem note (level : Level) (message : String) : Quiet (ctx.note level message) := sharing _

theorem nodeType (node : Node) : Quiet (ctx.nodeType node) := ofExcept _

theorem inFrame (current : Frame) (isStatic : Bool) (action : Emit Unit) :
    Quiet (Emit.inFrame current isStatic action) := by
  intro σ a σ' h
  obtain ⟨τ, -, -, rfl⟩ := inFrame_eq_ok.1 h
  rfl

theorem inClass (fresh : ClassFile) (classType : Ty) (strategy : BindingStrategy)
    (action : Emit Unit) : Quiet (Emit.inClass fresh classType strategy action) := by
  intro σ a σ' h
  obtain ⟨τ, -, -, rfl⟩ := inClass_eq_ok.1 h
  rfl

theorem reading (look : Assembler → α) : Quiet (Emit.assembling fun a => (look a, a)) := by
  intro σ a σ' h
  obtain ⟨current, hframe, -, rfl⟩ := assembling_eq_ok.1 h
  simp only [Emission.draft?, hframe]

theorem reachable : Quiet Emit.reachable := reading _

theorem ite {c : Prop} [Decidable c] {x y : Emit α} (hx : Quiet x) (hy : Quiet y) :
    Quiet (if c then x else y) := by
  split
  · exact hx
  · exact hy

end Quiet

/-! ## Rules -/

namespace Lays

theorem of_quiet (h : Quiet x) : Lays ctx own goals slots x :=
  fun _ _ _ s hx hs => ⟨s, [], [], (h hx).trans hs, .refl s⟩

theorem pure (a : α) : Lays ctx own goals slots (Pure.pure a : Emit α) :=
  of_quiet (Quiet.pure a)

theorem throw (fault : Fault) : Lays ctx own goals slots (MonadExcept.throw fault : Emit α) :=
  of_quiet (Quiet.throw fault)

theorem bind (hx : Lays ctx own goals slots x) (hf : ∀ a, Lays ctx own goals slots (f a)) :
    Lays ctx own goals slots (x >>= f) := by
  intro σ b σ' s h hs
  obtain ⟨a, τ, hfirst, hrest⟩ := bind_eq_ok.1 h
  obtain ⟨t, gaps, blocks, ht, hlaid⟩ := hx hfirst hs
  obtain ⟨u, gaps', blocks', hu, hlaid'⟩ := hf a hrest ht
  exact ⟨u, _, _, hu, hlaid.trans hlaid'⟩

theorem after (hx : Quiet x) (hf : ∀ a, Lays ctx own goals slots (f a)) :
    Lays ctx own goals slots (x >>= f) :=
  bind (of_quiet hx) hf

theorem weaken (h : Lays ctx own goals slots x) (hown : own ⊆ own')
    (hgoals : goals ⊆ own' ++ goals') (hslots : slots ⊆ slots') :
    Lays ctx own' goals' slots' x := by
  intro σ a σ' s hx hs
  obtain ⟨t, gaps, blocks, ht, hlaid⟩ := h hx hs
  exact ⟨t, gaps, blocks, ht, hlaid.weaken hown hgoals hslots⟩

theorem closed (h : Lays ctx [] [] [] x) : Lays ctx own goals slots x :=
  h.weaken (List.nil_subset _) (List.nil_subset _) (List.nil_subset _)

theorem ite {c : Prop} [Decidable c] {x y : Emit α} (hx : Lays ctx own goals slots x)
    (hy : Lays ctx own goals slots y) : Lays ctx own goals slots (if c then x else y) := by
  split
  · exact hx
  · exact hy

theorem forM {f : β → Emit PUnit} (hf : ∀ b, Lays ctx own goals slots (f b)) (bs : List β) :
    Lays ctx own goals slots (bs.forM f) := by
  induction bs with
  | nil => exact pure _
  | cons b bs ih => exact bind (hf b) fun _ => ih

theorem optionForM {f : β → Emit PUnit} (hf : ∀ b, Lays ctx own goals slots (f b))
    (b : Option β) : Lays ctx own goals slots (b.forM f) := by
  cases b with
  | none => exact pure _
  | some b => exact hf b

/-! ### Instructions -/

theorem assemble {change : Assembler → Assembler}
    (h : ∀ s : Draft, ∃ gaps blocks,
      Laid ctx (.code own goals slots) s (s.edit change) gaps blocks) :
    Lays ctx own goals slots (Emit.assemble change) := by
  intro σ a σ' s hx hs
  obtain ⟨gaps, blocks, hlaid⟩ := h s
  exact ⟨_, gaps, blocks, assemble_draft hx hs, hlaid⟩

theorem instruction {i : Instruction} (h : Admits own goals slots i) :
    Lays ctx own goals slots (Emit.instruction i) :=
  assemble fun s => ⟨_, _, .instruction s i h⟩

theorem goto (h : l ∈ own ∨ l ∈ goals) : Lays ctx own goals slots (Emit.goto l) :=
  instruction ⟨rfl, fun k hk => by cases hk; exact h, nofun⟩

theorem gotoIfReachable (h : l ∈ own ∨ l ∈ goals) :
    Lays ctx own goals slots (Emit.gotoIfReachable l) :=
  after Quiet.reachable fun _ => ite (goto h) (pure _)

theorem code {is : List Instruction} (h : ∀ i ∈ is, Admits own goals slots i) :
    Lays ctx own goals slots (Emit.code is) := by
  refine assemble fun s => ?_
  induction is generalizing s with
  | nil => exact ⟨_, _, .refl s⟩
  | cons i is ih =>
    obtain ⟨gaps, blocks, hrest⟩ :=
      ih (fun j hj => h j (List.mem_cons_of_mem _ hj)) (s.edit (·.emit i))
    exact ⟨_, _, (Laid.instruction s i (h i List.mem_cons_self)).trans hrest⟩

theorem codeOf {x : Except Fault (List Instruction)}
    (h : ∀ is, x = .ok is → ∀ i ∈ is, Admits own goals slots i) :
    Lays ctx own goals slots (Emit.codeOf x) := by
  refine after Quiet.frame fun _ => ?_
  intro σ u σ' s hrun hs
  obtain ⟨is, τ, hx, hcode⟩ := bind_eq_ok.1 hrun
  obtain ⟨his, rfl⟩ := ofExcept_eq_ok.1 hx
  exact code (h is his) hcode hs

theorem push {i : Instruction} (h : Admits own goals slots i) (want : Bool) :
    Lays ctx own goals slots (Emit.push want i) :=
  ite (instruction h) (pure _)

/-! ### Labels and slots -/

theorem temporary {f : UInt16 → Emit β} (t : Ty)
    (hf : ∀ slot, Lays ctx own goals (slot :: slots) (f slot)) :
    Lays ctx own goals slots (Emit.temporary t >>= f) := by
  intro σ b σ' s h hs
  obtain ⟨slot, τ, halloc, hrest⟩ := bind_eq_ok.1 h
  obtain ⟨rfl, ht⟩ := assembling_draft halloc hs
  obtain ⟨u, gaps, blocks, hu, hlaid⟩ := hf _ hrest ht
  exact ⟨u, gaps, blocks, hu, .temporary t hlaid⟩

/-- The slot of a named local may be written by what follows its lookup. -/
theorem namedLocal {f : UInt16 → Emit β} (name : String) (t : Ty)
    (hf : ∀ slot, Lays ctx own goals (slot :: slots) (f slot)) :
    Lays ctx own goals slots (Emit.namedLocal name t >>= f) := by
  intro σ b σ' s h hs
  obtain ⟨slot, τ, hlook, hrest⟩ := bind_eq_ok.1 h
  obtain ⟨rfl, ht⟩ := assembling_draft hlook hs
  obtain ⟨u, gaps, blocks, hu, hlaid⟩ := hf _ hrest ht
  exact ⟨u, gaps, blocks, hu, .named name t hlaid⟩

theorem spare {f : Label → Emit β} (hf : ∀ l, Lays ctx own goals slots (f l)) :
    Lays ctx own goals slots (Emit.label >>= f) :=
  bind (fun _ _ _ s h hs => ⟨_, _, _, (assembling_draft h hs).2, .spare s⟩) hf

end Lays

/-! ## Labels that are due

A label is made before it is placed, and what lies between may jump to it. -/

def Settles (ctx : Context) (own goals : List Label) (slots : List UInt16) (due : List Label)
    (x : Emit α) : Prop :=
  ∀ ⦃σ a σ' s⦄, x σ = .ok a σ' → σ.draft? = some s → (∀ l ∈ due, l.id < s.body.labels.size) →
    ∃ t gaps blocks, σ'.draft? = some t ∧ Laid ctx (.code own goals slots) s t gaps blocks ∧
      ∀ l ∈ due, (t.body.position? l).isSome

namespace Settles

variable {due : List Label}

theorem lays (h : Settles ctx own goals slots [] x) : Lays ctx own goals slots x := by
  intro σ a σ' s hx hs
  obtain ⟨t, gaps, blocks, ht, hlaid, -⟩ := h hx hs nofun
  exact ⟨t, gaps, blocks, ht, hlaid⟩

theorem of_lays (h : Lays ctx own goals slots x) : Settles ctx own goals slots [] x := by
  intro σ a σ' s hx hs _
  obtain ⟨t, gaps, blocks, ht, hlaid⟩ := h hx hs
  exact ⟨t, gaps, blocks, ht, hlaid, nofun⟩

theorem bind {first rest : List Label} (hx : Settles ctx own goals slots first x)
    (hf : ∀ a, Settles ctx own goals slots rest (f a)) (hdue : due ⊆ first ++ rest)
    (hback : first ++ rest ⊆ due) : Settles ctx own goals slots due (x >>= f) := by
  intro σ b σ' s h hs hmade
  obtain ⟨a, τ, hfirst, hrest⟩ := bind_eq_ok.1 h
  have hmade' : ∀ l ∈ first ++ rest, l.id < s.body.labels.size := fun l hl => hmade l (hback hl)
  obtain ⟨t, gaps, blocks, ht, hlaid, hplaced⟩ :=
    hx hfirst hs fun l hl => hmade' l (List.mem_append_left _ hl)
  obtain ⟨u, gaps', blocks', hu, hlaid', hplaced'⟩ := hf a hrest ht fun l hl =>
    (hmade' l (List.mem_append_right _ hl)).trans_le hlaid.grows.size
  refine ⟨u, _, _, hu, hlaid.trans hlaid', fun l hl => ?_⟩
  rcases List.mem_append.1 (hdue hl) with hl | hl
  · exact hlaid'.grows.stays l (hplaced l hl)
  · exact hplaced' l hl

theorem after (hx : Lays ctx own goals slots x) (hf : ∀ a, Settles ctx own goals slots due (f a)) :
    Settles ctx own goals slots due (x >>= f) :=
  bind (of_lays hx) hf (List.Subset.refl _) (List.Subset.refl _)

theorem place (h : l ∈ own) : Settles ctx own goals slots [l] (Emit.place l) := by
  intro σ a σ' s hx hs hmade
  refine ⟨_, _, _, assemble_draft hx hs, .place s l h, fun k hk => ?_⟩
  obtain rfl := List.mem_singleton.1 hk
  rw [Draft.edit_body, Assembler.position?_place_self (hmade k List.mem_cons_self)]
  rfl

theorem placing (rest : List Label) {f : Unit → Emit β} (h : l ∈ own)
    (hf : ∀ u, Settles ctx own goals slots rest (f u)) (hdue : due ⊆ l :: rest)
    (hback : l :: rest ⊆ due) : Settles ctx own goals slots due (Emit.place l >>= f) :=
  bind (place h) hf hdue hback

theorem label {f : Label → Emit β}
    (hf : ∀ l, Settles ctx (l :: own) goals slots (l :: due) (f l)) :
    Settles ctx own goals slots due (Emit.label >>= f) := by
  intro σ b σ' s h hs hmade
  obtain ⟨l, τ, hlabel, hrest⟩ := bind_eq_ok.1 h
  obtain ⟨rfl, ht⟩ := assembling_draft hlabel hs
  have hmade' : ∀ l ∈ s.body.nextLabel :: due, l.id < s.body.label.2.labels.size := by
    refine List.forall_mem_cons.2 ⟨?_, fun l hl => ?_⟩
    · simp [Assembler.nextLabel]
    · exact (hmade l hl).trans_le (Grows.label [] s.body).size
  obtain ⟨u, gaps, blocks, hu, hlaid, hplaced⟩ := hf _ hrest ht hmade'
  obtain ⟨hfresh, hplaced⟩ := List.forall_mem_cons.1 hplaced
  exact ⟨u, gaps, blocks, hu, .label hlaid hfresh, hplaced⟩

end Settles

theorem Lays.label {f : Label → Emit β}
    (hf : ∀ l, Settles ctx (l :: own) goals slots [l] (f l)) :
    Lays ctx own goals slots (Emit.label >>= f) := (Settles.label hf).lays

end Emit

end ClassBackend
