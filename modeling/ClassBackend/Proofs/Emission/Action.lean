import ClassBackend.Emit.Script

/-!
# What emission actions do

An action that ends with a result did so step by step: each primitive action
has an equation for its result, and sequences are taken apart by
`Emit.bind_eq_ok`. Of the state of emission, the layout of a method only
depends on its *draft*: the body of the method and the open jump scopes.
-/

namespace ClassBackend

/-- A method body being laid down, with the jump scopes open at its end. -/
structure Draft where
  body : Assembler
  jumps : JumpScopes

namespace Draft

def offset (s : Draft) : Nat := s.body.offset

def edit (s : Draft) (change : Assembler → Assembler) : Draft :=
  { s with body := change s.body }

variable (s : Draft) (change : Assembler → Assembler)

@[simp] theorem edit_body : (s.edit change).body = change s.body := rfl

@[simp] theorem edit_jumps : (s.edit change).jumps = s.jumps := rfl

@[simp] theorem offset_edit : (s.edit change).offset = (change s.body).offset := rfl

@[simp] theorem offset_mk (body : Assembler) (jumps : JumpScopes) :
    offset ⟨body, jumps⟩ = body.offset := rfl

@[simp] theorem body_offset : s.body.offset = s.offset := rfl

end Draft

def Emission.draft? (σ : Emission) : Option Draft :=
  σ.frame.map fun frame => ⟨frame.body, σ.jumps⟩

variable {σ : Emission} {s : Draft}

theorem Emission.draft?_eq_some :
    σ.draft? = some s ↔ ∃ frame, σ.frame = some frame ∧ frame.body = s.body ∧
      σ.jumps = s.jumps := by
  obtain ⟨body, jumps⟩ := s
  simp only [Emission.draft?, Option.map_eq_some_iff, Draft.mk.injEq]

theorem Emission.jumps_of_draft? (h : σ.draft? = some s) : σ.jumps = s.jumps := by
  obtain ⟨_, -, -, hjumps⟩ := draft?_eq_some.1 h
  exact hjumps

theorem Emission.draft?_setJumps (h : σ.draft? = some s) (jumps : JumpScopes) :
    Emission.draft? { σ with jumps } = some ⟨s.body, jumps⟩ := by
  obtain ⟨current, hframe, hbody, -⟩ := draft?_eq_some.1 h
  exact draft?_eq_some.2 ⟨current, hframe, hbody, rfl⟩

theorem exists_of_mem_mapM {α β : Type} {f : α → Except Fault β} {xs : List α} {ys : List β}
    (h : xs.mapM f = .ok ys) : ∀ y ∈ ys, ∃ x ∈ xs, f x = .ok y := by
  induction xs generalizing ys with
  | nil =>
    obtain rfl : [] = ys := Except.ok.inj h
    simp
  | cons x xs ih =>
    rw [List.mapM_cons] at h
    cases hfirst : f x with
    | error fault => simp [hfirst, bind, Except.bind] at h
    | ok y =>
      cases hrest : xs.mapM f with
      | error fault => simp [hfirst, hrest, bind, Except.bind] at h
      | ok rest =>
        simp only [hfirst, hrest, bind, Except.bind, pure, Except.pure,
          Except.ok.injEq] at h
        subst h
        refine List.forall_mem_cons.2 ⟨⟨x, List.mem_cons_self, hfirst⟩, fun y' hy' => ?_⟩
        obtain ⟨x', hx', hy'⟩ := ih hrest y' hy'
        exact ⟨x', List.mem_cons_of_mem _ hx', hy'⟩

namespace Emit

variable {u : Unit} {fault : Fault} {action : Emit Unit}

variable {α β : Type} {σ σ' : Emission}

/-! ## Sequences -/

variable {a : α} {b : β} {f : α → Emit β} {step : Assembler → α × Assembler}

theorem bind_eq_ok {x : Emit α} :
    (x >>= f) σ = .ok b σ' ↔ ∃ a τ, x σ = .ok a τ ∧ f a τ = .ok b σ' := by
  show EStateM.bind x f σ = _ ↔ _
  unfold EStateM.bind
  cases x σ with
  | ok a τ =>
    constructor
    · intro h
      exact ⟨a, τ, rfl, h⟩
    · rintro ⟨_, _, h, hf⟩
      cases h
      exact hf
  | error fault τ => simp

theorem pure_eq_ok {b : α} : (pure a : Emit α) σ = .ok b σ' ↔ b = a ∧ σ' = σ := by
  show EStateM.Result.ok a σ = _ ↔ _
  constructor
  · intro h
    cases h
    exact ⟨rfl, rfl⟩
  · rintro ⟨rfl, rfl⟩
    rfl

theorem map_eq_ok {x : Emit α} {f : α → β} :
    (f <$> x) σ = .ok b σ' ↔ ∃ a, x σ = .ok a σ' ∧ f a = b := by
  rw [map_eq_pure_bind, bind_eq_ok]
  constructor
  · rintro ⟨a, τ, h, hf⟩
    obtain ⟨rfl, rfl⟩ := pure_eq_ok.1 hf
    exact ⟨a, h, rfl⟩
  · rintro ⟨a, h, rfl⟩
    exact ⟨a, σ', h, rfl⟩

theorem get_eq_ok {τ : Emission} : (get : Emit Emission) σ = .ok τ σ' ↔ τ = σ ∧ σ' = σ := pure_eq_ok

theorem modify_eq_ok {change : Emission → Emission} :
    (modify change : Emit Unit) σ = .ok u σ' ↔ σ' = change σ := by
  show EStateM.Result.ok () (change σ) = _ ↔ _
  constructor
  · intro h
    cases h
    rfl
  · rintro rfl
    rfl

theorem throw_ne_ok : (throw fault : Emit α) σ ≠ .ok a σ' := by
  intro h
  cases h

theorem ofExcept_eq_ok {x : Except Fault α} : ofExcept x σ = .ok a σ' ↔ x = .ok a ∧ σ' = σ := by
  cases x with
  | ok b =>
    rw [ofExcept, pure_eq_ok, Except.ok.injEq]
    exact and_congr_left fun _ => eq_comm
  | error fault => simp [ofExcept, throw_ne_ok]

theorem orFault_eq_ok {x : Option α} : orFault x fault σ = .ok a σ' ↔ x = some a ∧ σ' = σ := by
  cases x with
  | some b =>
    rw [orFault, pure_eq_ok, Option.some.injEq]
    exact and_congr_left fun _ => eq_comm
  | none => simp [orFault, throw_ne_ok]

/-! ## Primitive actions -/

theorem frame_eq_ok {current : Frame} :
    frame σ = .ok current σ' ↔ σ.frame = some current ∧ σ' = σ := by
  simp only [frame, bind_eq_ok, get_eq_ok, orFault_eq_ok]
  constructor
  · rintro ⟨_, _, ⟨rfl, rfl⟩, h⟩
    exact h
  · intro h
    exact ⟨σ, σ, ⟨rfl, rfl⟩, h⟩

theorem assembling_eq_ok : assembling step σ = .ok a σ' ↔ ∃ current, σ.frame = some current ∧
      a = (step current.body).1 ∧
      σ' = { σ with frame := some { current with body := (step current.body).2 } } := by
  simp only [assembling, takeFrame, setFrame, bind_eq_ok, frame_eq_ok, modify_eq_ok,
    pure_eq_ok]
  constructor
  · rintro ⟨_, _, ⟨_, _, ⟨h, rfl⟩, _, _, rfl, rfl, rfl⟩, _, _, rfl, rfl, rfl⟩
    exact ⟨_, h, rfl, rfl⟩
  · rintro ⟨current, h, rfl, rfl⟩
    exact ⟨current, _, ⟨current, σ, ⟨h, rfl⟩, (), _, rfl, rfl, rfl⟩, (), _, rfl, rfl, rfl⟩

theorem sharing_eq_ok {step : Compilation → α × Compilation} : sharing step σ = .ok a σ' ↔
      a = (step σ.unit).1 ∧ σ' = { σ with unit := (step σ.unit).2 } := by
  show EStateM.Result.ok _ _ = _ ↔ _
  constructor
  · intro h
    cases h
    exact ⟨rfl, rfl⟩
  · rintro ⟨rfl, rfl⟩
    rfl

/-! ## Actions that leave the state alone, at the head of a sequence -/

theorem get_bind_eq_ok {f : Emission → Emit β} :
    (get >>= f) σ = .ok b σ' ↔ f σ σ = .ok b σ' := Iff.rfl

theorem pure_bind_eq_ok : (pure a >>= f) σ = .ok b σ' ↔ f a σ = .ok b σ' := Iff.rfl

theorem bind_eq_ok_of_reads {x : Emit α} {Gives : α → Prop}
    (h : ∀ {a τ}, x σ = .ok a τ ↔ Gives a ∧ τ = σ) :
    (x >>= f) σ = .ok b σ' ↔ ∃ a, Gives a ∧ f a σ = .ok b σ' := by
  simp only [bind_eq_ok, h]
  constructor
  · rintro ⟨a, _, ⟨hx, rfl⟩, hf⟩
    exact ⟨a, hx, hf⟩
  · rintro ⟨a, hx, hf⟩
    exact ⟨a, σ, ⟨hx, rfl⟩, hf⟩

theorem ofExcept_bind_eq_ok {x : Except Fault α} :
    (ofExcept x >>= f) σ = .ok b σ' ↔ ∃ a, x = .ok a ∧ f a σ = .ok b σ' :=
  bind_eq_ok_of_reads ofExcept_eq_ok

theorem orFault_bind_eq_ok {x : Option α} :
    (orFault x fault >>= f) σ = .ok b σ' ↔ ∃ a, x = some a ∧ f a σ = .ok b σ' :=
  bind_eq_ok_of_reads orFault_eq_ok

theorem frame_bind_eq_ok {f : Frame → Emit β} :
    (frame >>= f) σ = .ok b σ' ↔ ∃ current, σ.frame = some current ∧ f current σ = .ok b σ' :=
  bind_eq_ok_of_reads frame_eq_ok

/-! ## Drafts after primitive actions -/

variable {s : Draft}

theorem assembling_draft (h : assembling step σ = .ok a σ') (hs : σ.draft? = some s) :
    a = (step s.body).1 ∧ σ'.draft? = some (s.edit fun body => (step body).2) := by
  obtain ⟨current, hframe, rfl, rfl⟩ := assembling_eq_ok.1 h
  obtain ⟨current', hframe', hbody, hjumps⟩ := Emission.draft?_eq_some.1 hs
  cases hframe.symm.trans hframe'
  rw [← hbody]
  exact ⟨rfl, Emission.draft?_eq_some.2 ⟨_, rfl, by rw [Draft.edit_body, hbody], hjumps⟩⟩

theorem assemble_draft {change : Assembler → Assembler} (h : assemble change σ = .ok u σ')
    (hs : σ.draft? = some s) : σ'.draft? = some (s.edit change) :=
  (assembling_draft h hs).2

theorem marking_draft {change : Assembler → Assembler} (h : marking change σ = .ok u σ')
    (hs : σ.draft? = some s) : σ'.draft? = some (s.edit change) := by
  rw [modify_eq_ok.1 h]
  obtain ⟨current, hframe, hbody, hjumps⟩ := Emission.draft?_eq_some.1 hs
  refine Emission.draft?_eq_some.2 ⟨{ current with body := change current.body }, ?_, ?_, hjumps⟩
  · rw [hframe, Option.map_some]
  · rw [Draft.edit_body, hbody]

theorem reading_draft {look : Assembler → α}
    (h : assembling (fun body => (look body, body)) σ = .ok a σ') (hs : σ.draft? = some s) :
    a = look s.body ∧ σ'.draft? = some s :=
  assembling_draft h hs

theorem exists_draft_of_assembling_bind (h : (assembling step >>= f) σ = .ok b σ') :
    ∃ s, σ.draft? = some s := by
  obtain ⟨_, _, hstep, -⟩ := bind_eq_ok.1 h
  obtain ⟨current, hframe, -, -⟩ := assembling_eq_ok.1 hstep
  exact ⟨⟨current.body, σ.jumps⟩, Emission.draft?_eq_some.2 ⟨current, hframe, rfl, rfl⟩⟩

theorem assemble_bind_draft {change : Assembler → Assembler} {f : Unit → Emit β}
    (h : (assemble change >>= f) σ = .ok b σ') (hs : σ.draft? = some s) :
    ∃ τ, τ.draft? = some (s.edit change) ∧ f () τ = .ok b σ' := by
  obtain ⟨_, τ, hchange, hrest⟩ := bind_eq_ok.1 h
  exact ⟨τ, assemble_draft hchange hs, hrest⟩

/-! ## Actions that restore what they change -/

theorem restoring_eq_ok {result : EStateM.Result Fault Emission Unit} {value : Emission → α}
    {leave : Emission → Emission} : (match result with
      | .ok _ τ => EStateM.Result.ok (value τ) (leave τ)
      | .error fault τ => .error fault (leave τ)) = .ok a σ' ↔
      ∃ τ, result = .ok () τ ∧ a = value τ ∧ σ' = leave τ := by
  cases result with
  | ok _ τ =>
    simp only [EStateM.Result.ok.injEq]
    constructor
    · rintro ⟨rfl, rfl⟩
      exact ⟨τ, ⟨trivial, rfl⟩, rfl, rfl⟩
    · rintro ⟨_, ⟨-, rfl⟩, rfl, rfl⟩
      exact ⟨rfl, rfl⟩
  | error fault τ => simp

theorem openScope_eq_ok {scope : JumpScope} {left : Option JumpScope} :
    openScope scope action σ = .ok left σ' ↔ ∃ τ,
      action { σ with jumps := scope :: σ.jumps } = .ok () τ ∧ left = τ.jumps.head? ∧
        σ' = { τ with jumps := τ.jumps.tail } :=
  restoring_eq_ok

theorem detached_eq_ok {depth : Nat} : detached depth action σ = .ok u σ' ↔ ∃ τ,
      action { σ with jumps := (σ.jumps.detach depth).2 } = .ok () τ ∧ u = () ∧
        σ' = { τ with jumps := τ.jumps.restore (σ.jumps.detach depth).1 } :=
  restoring_eq_ok

theorem inFrame_eq_ok {current : Frame} {isStatic : Bool} {left : Option Frame} :
    inFrame current isStatic action σ = .ok left σ' ↔ ∃ τ,
      action { σ with frame := some current, isStatic, jumps := [.method] } = .ok () τ ∧
        left = τ.frame ∧
        σ' = { τ with frame := σ.frame, isStatic := σ.isStatic, jumps := σ.jumps } :=
  restoring_eq_ok

theorem inClass_eq_ok {fresh left : ClassFile} {classType : Ty} {strategy : BindingStrategy} :
    inClass fresh classType strategy action σ = .ok left σ' ↔ ∃ τ,
      action { unit := σ.unit, current := fresh, classType, strategy } = .ok () τ ∧
        left = τ.current ∧ σ' = { σ with unit := τ.unit } :=
  restoring_eq_ok

end Emit

end ClassBackend
