import ClassBackend.Code.Assembler
import Mathlib.Data.List.Infix

/-!
# How a method body grows

Assembling only ever appends: instructions, labels, named locals and protected
regions stay what they were. The one thing that changes afterwards is where a
label stands, and a label only moves to the end of the code. `Grows own a b`
says that `b` comes from `a` this way and that no label of `a` moved except
those in `own`.
-/

namespace ClassBackend

variable {l : Label}

namespace Assembler

/-! ## Where labels stand -/

def mark (a : Assembler) : Assembler := a.label.2.place a.label.1

def nextLabel (a : Assembler) : Label := ⟨a.labels.size⟩

theorem label_fst (a : Assembler) : a.label.1 = a.nextLabel := rfl

variable {a : Assembler}

theorem position?_eq_none_of_le (h : a.labels.size ≤ l.id) : a.position? l = none := by
  simp [position?, Array.getElem?_eq_none h]

theorem lt_of_position? {q : Nat} (h : a.position? l = some q) : l.id < a.labels.size := by
  by_contra hle
  rw [position?_eq_none_of_le (Nat.le_of_not_lt hle)] at h
  cases h

section

variable (a : Assembler) (i : Instruction) (is : List Instruction) (rs : List Region)
  (name : String) (t : Ty) (n : Nat) (l : Label)

@[simp] theorem position?_emit : (a.emit i).position? l = a.position? l := rfl

@[simp] theorem position?_label : a.label.2.position? l = a.position? l := by
  simp only [label, position?, Array.getElem?_push]
  split
  · rename_i h
    simp [h]
  · rfl

theorem position?_place (k : Label) : (a.place l).position? k =
      if k = l ∧ l.id < a.labels.size then some a.offset else a.position? k := by
  obtain ⟨l⟩ := l
  obtain ⟨k⟩ := k
  simp only [place, position?, Array.getElem?_setIfInBounds, offset, Label.mk.injEq]
  by_cases hk : l = k
  · subst hk
    by_cases hl : l < a.labels.size
    · simp [hl]
    · simp [hl]
  · simp [hk, Ne.symm hk]

theorem position?_place_self {a : Assembler} {l : Label} (h : l.id < a.labels.size) :
    (a.place l).position? l = some a.offset := by
  rw [position?_place, if_pos ⟨rfl, h⟩]

theorem position?_place_of_ne {a : Assembler} {k l : Label} (h : k ≠ l) :
    (a.place l).position? k = a.position? k := by
  rw [position?_place, if_neg (fun hk => h hk.1)]

@[simp] theorem position?_allocate : (a.allocate t).2.position? l = a.position? l := rfl

def protectAll (a : Assembler) (regions : List Region) : Assembler := regions.foldl protect a

theorem protectAll_eq : a.protectAll rs = { a with regions := a.regions ++ rs } := by
  induction rs generalizing a with
  | nil => simp [protectAll]
  | cons r rs ih =>
    show (a.protect r).protectAll rs = _
    rw [ih]
    simp [protect]

@[simp] theorem position?_protectAll : (a.protectAll rs).position? l = a.position? l := by
  rw [protectAll_eq]
  rfl

/-! ## The fields of an extended body -/

@[simp] theorem code_emit : (a.emit i).code = a.code.push i := rfl

@[simp] theorem offset_emit : (a.emit i).offset = a.offset + 1 := by
  simp [offset]

@[simp] theorem labels_emit : (a.emit i).labels = a.labels := rfl

@[simp] theorem size_labels_label : a.label.2.labels.size = a.labels.size + 1 := by
  simp [label]

@[simp] theorem size_labels_place : (a.place l).labels.size = a.labels.size := by
  simp [place]

@[simp] theorem offset_label : a.label.2.offset = a.offset := rfl

@[simp] theorem offset_mark : a.mark.offset = a.offset := rfl

@[simp] theorem code_mark : a.mark.code = a.code := rfl

@[simp] theorem size_labels_mark : a.mark.labels.size = a.labels.size + 1 := by
  simp [mark]

theorem position?_mark :
    a.mark.position? l = if l = a.nextLabel then some a.offset else a.position? l := by
  by_cases h : l = a.nextLabel
  · subst h
    rw [if_pos rfl, mark, label_fst, position?_place_self (by simp [nextLabel]), offset_label]
  · rw [if_neg h, mark, label_fst, position?_place_of_ne h, position?_label]

@[simp] theorem position?_mark_nextLabel : a.mark.position? a.nextLabel = some a.offset := by
  rw [position?_mark, if_pos rfl]

@[simp] theorem code_protectAll : (a.protectAll rs).code = a.code := by
  rw [protectAll_eq]

@[simp] theorem labels_protectAll : (a.protectAll rs).labels = a.labels := by
  rw [protectAll_eq]

@[simp] theorem regions_protectAll : (a.protectAll rs).regions = a.regions ++ rs := by
  rw [protectAll_eq]

@[simp] theorem locals_protectAll : (a.protectAll rs).locals = a.locals := by
  rw [protectAll_eq]

@[simp] theorem nextSlot_protectAll : (a.protectAll rs).nextSlot = a.nextSlot := by
  rw [protectAll_eq]

@[simp] theorem maxLocals_protectAll : (a.protectAll rs).maxLocals = a.maxLocals := by
  rw [protectAll_eq]

@[simp] theorem offset_protectAll : (a.protectAll rs).offset = a.offset := by
  simp [offset]

@[simp] theorem offset_place : (a.place l).offset = a.offset := rfl

@[simp] theorem offset_allocate : (a.allocate t).2.offset = a.offset := rfl

@[simp] theorem code_allocate : (a.allocate t).2.code = a.code := rfl

@[simp] theorem labels_allocate : (a.allocate t).2.labels = a.labels := rfl

@[simp] theorem code_namedLocal : (a.namedLocal name t).2.code = a.code := by
  unfold namedLocal
  split <;> rfl

@[simp] theorem labels_namedLocal : (a.namedLocal name t).2.labels = a.labels := by
  unfold namedLocal
  split <;> rfl

@[simp] theorem offset_namedLocal : (a.namedLocal name t).2.offset = a.offset := by
  simp [offset]

theorem slotOf?_namedLocal (a : Assembler) (name : String) (t : Ty) :
    (a.namedLocal name t).2.slotOf? name = some (a.namedLocal name t).1 := by
  unfold namedLocal
  split
  · rename_i hslot
    exact hslot
  · rename_i hnone
    have hlocals : a.locals.find? (·.name == name) = none := by
      simpa [slotOf?] using hnone
    simp [slotOf?, allocate, List.find?_append, hlocals]

@[simp] theorem code_line : (a.line n).code = a.code := by
  unfold line
  split
  · split
    · rfl
    · split <;> rfl
  · rfl

@[simp] theorem labels_line : (a.line n).labels = a.labels := by
  unfold line
  split
  · split
    · rfl
    · split <;> rfl
  · rfl

@[simp] theorem offset_line : (a.line n).offset = a.offset := by
  simp [offset]

@[simp] theorem code_emitAll : (a.emitAll is).code.toList = a.code.toList ++ is := by
  induction is generalizing a with
  | nil => simp [emitAll]
  | cons i is ih =>
    have : a.emitAll (i :: is) = (a.emit i).emitAll is := rfl
    rw [this, ih]
    simp

@[simp] theorem labels_emitAll : (a.emitAll is).labels = a.labels := by
  induction is generalizing a with
  | nil => rfl
  | cons i is ih => exact ih (a.emit i)

@[simp] theorem position?_emitAll : (a.emitAll is).position? l = a.position? l := by
  simp only [position?, labels_emitAll]

@[simp] theorem nodes_emit : (a.emit i).nodes = a.nodes := rfl

@[simp] theorem nodes_label : a.label.2.nodes = a.nodes := rfl

@[simp] theorem nodes_place : (a.place l).nodes = a.nodes := rfl

@[simp] theorem nodes_mark : a.mark.nodes = a.nodes := rfl

@[simp] theorem nodes_allocate : (a.allocate t).2.nodes = a.nodes := rfl

@[simp] theorem nodes_emitAll : (a.emitAll is).nodes = a.nodes := by
  induction is generalizing a with
  | nil => rfl
  | cons i is ih => exact ih (a.emit i)

@[simp] theorem nodes_namedLocal : (a.namedLocal name t).2.nodes = a.nodes := by
  unfold namedLocal
  split <;> rfl

@[simp] theorem nodes_line : (a.line n).nodes = a.nodes := by
  unfold line
  split
  · split
    · rfl
    · split <;> rfl
  · rfl

@[simp] theorem nodes_protectAll : (a.protectAll rs).nodes = a.nodes := by
  rw [protectAll_eq]

@[simp] theorem offset_emitAll : (a.emitAll is).offset = a.offset + is.length := by
  rw [offset, offset, ← Array.length_toList, code_emitAll, List.length_append,
    Array.length_toList]

end

end Assembler

/-! ## Growth -/

/-- The second body extends the first; only the labels in `own` may have moved,
and handlers of new regions lie in the new code. -/
structure Grows (own : List Label) (a b : Assembler) : Prop where
  code : a.code.toList <+: b.code.toList
  size : a.labels.size ≤ b.labels.size
  kept : ∀ l : Label, l.id < a.labels.size → l ∉ own → b.position? l = a.position? l
  moved : ∀ (l : Label) (q : Nat), b.position? l = some q →
    a.position? l = some q ∨ a.offset ≤ q ∧ q ≤ b.offset
  stays : ∀ l : Label, (a.position? l).isSome → (b.position? l).isSome
  regions : ∃ new, b.regions = a.regions ++ new ∧
    ∀ r ∈ new, ∀ q, b.position? r.handler = some q → a.offset ≤ q
  named : a.locals <+: b.locals
  frame : a.maxLocals ≤ b.maxLocals
  signature : b.name = a.name ∧ b.descriptor = a.descriptor ∧ b.access = a.access
  visited : a.nodes <:+ b.nodes

namespace Grows

variable {own wider : List Label} {a b c : Assembler}

theorem offset_le (h : Grows own a b) : a.offset ≤ b.offset := by
  simpa [Assembler.offset] using h.code.length_le

theorem refl (own : List Label) (a : Assembler) : Grows own a a where
  code := List.prefix_rfl
  size := le_rfl
  kept := fun _ _ _ => rfl
  moved := fun _ _ h => .inl h
  stays := fun _ h => h
  regions := ⟨[], by simp, by simp⟩
  named := List.prefix_rfl
  frame := UInt16.le_refl _
  signature := ⟨rfl, rfl, rfl⟩
  visited := List.suffix_rfl

theorem trans (h : Grows own a b) (k : Grows own b c) : Grows own a c where
  code := h.code.trans k.code
  size := h.size.trans k.size
  kept := fun l hl hown => by
    rw [k.kept l (hl.trans_le h.size) hown, h.kept l hl hown]
  moved := fun l q hq => by
    rcases k.moved l q hq with hq | ⟨hle, hlast⟩
    · rcases h.moved l q hq with hq | ⟨hle, hlast⟩
      · exact .inl hq
      · exact .inr ⟨hle, hlast.trans k.offset_le⟩
    · exact .inr ⟨h.offset_le.trans hle, hlast⟩
  stays := fun l hl => k.stays l (h.stays l hl)
  regions := by
    obtain ⟨new, hnew, handlers⟩ := h.regions
    obtain ⟨later, hlater, laterHandlers⟩ := k.regions
    refine ⟨new ++ later, by rw [hlater, hnew, List.append_assoc], ?_⟩
    intro r hr q hq
    rcases List.mem_append.1 hr with hr | hr
    · rcases k.moved _ q hq with hq | ⟨hle, -⟩
      · exact handlers r hr q hq
      · exact h.offset_le.trans hle
    · exact h.offset_le.trans (laterHandlers r hr q hq)
  named := h.named.trans k.named
  frame := UInt16.le_trans h.frame k.frame
  signature := by
    obtain ⟨hname, hdescriptor, haccess⟩ := h.signature
    rw [← hname, ← hdescriptor, ← haccess]
    exact k.signature
  visited := h.visited.trans k.visited

theorem weaken (h : Grows own a b) (hsub : own ⊆ wider) : Grows wider a b :=
  { h with kept := fun l hl hwider => h.kept l hl fun hown => hwider (hsub hown) }

/-- Labels made on the way do not count as labels of the first body. -/
theorem forget (h : Grows (l :: own) a b) (hl : a.labels.size ≤ l.id) : Grows own a b :=
  { h with
    kept := fun k hk hown => h.kept k hk fun hmem => by
      rcases List.mem_cons.1 hmem with rfl | hmem
      · omega
      · exact hown hmem }

/-! ### One step -/

section

variable (own : List Label) (a : Assembler)

theorem emit (i : Instruction) : Grows own a (a.emit i) :=
  { refl own a with
    code := by simp
    moved := fun _ _ h => .inl h }

theorem label : Grows own a a.label.2 :=
  { refl own a with
    size := by simp
    kept := fun l _ _ => a.position?_label l
    moved := fun l q h => .inl (by rwa [a.position?_label] at h)
    stays := fun l h => by rwa [a.position?_label]
    regions := ⟨[], by simp [Assembler.label], by simp⟩ }

theorem place {own : List Label} (hl : l ∈ own) : Grows own a (a.place l) :=
  { refl own a with
    size := by simp
    kept := fun k _ hk => Assembler.position?_place_of_ne fun h => hk (h ▸ hl)
    moved := fun k q hq => by
      rw [Assembler.position?_place] at hq
      split at hq
      · cases hq
        exact .inr ⟨le_rfl, le_rfl⟩
      · exact .inl hq
    stays := fun k hk => by
      rw [Assembler.position?_place]
      split
      · rfl
      · exact hk
    regions := ⟨[], by simp [Assembler.place], by simp⟩ }

theorem allocate (t : Ty) : Grows own a (a.allocate t).2 :=
  { refl own a with
    moved := fun _ _ h => .inl h
    frame := by
      simp only [Assembler.allocate]
      generalize a.nextSlot + (if t.isWide then 2 else 1) = next
      show a.maxLocals ≤ if a.maxLocals ≤ next then next else a.maxLocals
      split
      · assumption
      · exact UInt16.le_refl _ }

theorem namedLocal (name : String) (t : Ty) :
    Grows own a (a.namedLocal name t).2 := by
  unfold Assembler.namedLocal
  split
  · exact refl own a
  · exact { allocate own a t with
      moved := fun _ _ h => .inl h
      named := List.prefix_append _ _ }

theorem line (n : Nat) : Grows own a (a.line n) := by
  unfold Assembler.line
  split
  · split
    · exact refl own a
    · split <;> exact { refl own a with moved := fun _ _ h => .inl h }
  · exact { refl own a with moved := fun _ _ h => .inl h }

theorem visit (node : Node) : Grows own a (a.visit node) :=
  { refl own a with
    moved := fun _ _ h => .inl h
    visited := List.suffix_cons _ _ }

theorem emitAll (is : List Instruction) :
    Grows own a (a.emitAll is) := by
  induction is generalizing a with
  | nil => exact refl own a
  | cons i is ih => exact (emit own a i).trans (ih (a.emit i))

theorem mark : Grows own a a.mark :=
  forget ((label _ a).trans (place _ List.mem_cons_self)) le_rfl

end

theorem placeFresh (h : Grows own a b) (hl : a.labels.size ≤ l.id) : Grows own a (b.place l) :=
  forget ((h.weaken (List.subset_cons_self l own)).trans (place b List.mem_cons_self)) hl

/-- Regions may be protected once their handlers are placed in the new code. -/
theorem protectAll (h : Grows own a b) {regions : List Region}
    (hhandler : ∀ r ∈ regions, ∀ q, b.position? r.handler = some q → a.offset ≤ q) :
    Grows own a (b.protectAll regions) := by
  obtain ⟨new, hnew, handlers⟩ := h.regions
  exact {
    code := by simpa using h.code
    size := by simpa using h.size
    kept := by simpa using h.kept
    moved := by simpa using h.moved
    stays := by simpa using h.stays
    regions := by
      refine ⟨new ++ regions, by simp [hnew], fun r hr q hq => ?_⟩
      rw [Assembler.position?_protectAll] at hq
      rcases List.mem_append.1 hr with hr | hr
      · exact handlers r hr q hq
      · exact hhandler r hr q hq
    named := by simpa using h.named
    frame := by simpa using h.frame
    signature := by simpa [Assembler.protectAll_eq] using h.signature
    visited := by simpa [Assembler.protectAll_eq] using h.visited }

end Grows

/-! ## Where control can go on -/

namespace Assembler

variable {a : Assembler}

def Placed (a : Assembler) : Prop := ∀ l q, a.position? l = some q → q ≤ a.offset

/-- Control cannot get to the end of the code: the last instruction does not
continue there, and no label stands there. -/
theorem reachable_eq_false_iff :
    a.reachable = false ↔ (∃ last, a.code.back? = some last ∧ last.isTerminal) ∧
      ∀ l, a.position? l ≠ some a.offset := by
  have hlabels : a.labels.any (· == some a.code.size) = false ↔
      ∀ l, a.position? l ≠ some a.offset := by
    rw [← Bool.not_eq_true, Array.any_eq_true]
    constructor
    · intro hnone l hl
      have hentry := Option.join_eq_some_iff.1 hl
      obtain ⟨hlt, hsome⟩ := Array.getElem?_eq_some_iff.1 hentry
      exact hnone ⟨l.id, hlt, by simp [hsome, offset]⟩
    · rintro hnone ⟨n, hlt, heq⟩
      refine hnone ⟨n⟩ ?_
      simpa [position?, hlt, offset] using heq
  have hlast : a.code.back?.all (fun last => !last.isTerminal) = false ↔
      ∃ last, a.code.back? = some last ∧ last.isTerminal := by
    cases a.code.back? <;> simp
  rw [reachable, Bool.or_eq_false_iff, hlast, hlabels]

/-- Behind an instruction that does not continue, no code is reachable. -/
theorem Placed.reachable_emit (h : a.Placed) {i : Instruction} (hi : i.isTerminal) :
    (a.emit i).reachable = false := by
  refine reachable_eq_false_iff.2 ⟨⟨i, by simp, hi⟩, fun l hl => ?_⟩
  have hle := h l _ hl
  rw [offset_emit] at hle
  omega

end Assembler

theorem Grows.placed {own : List Label} {a b : Assembler} (h : Grows own a b) (ha : a.Placed) :
    b.Placed := by
  intro l q hq
  rcases h.moved l q hq with hq | ⟨-, hle⟩
  · exact (ha l q hq).trans h.offset_le
  · exact hle

end ClassBackend
