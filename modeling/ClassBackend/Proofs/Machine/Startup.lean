import Mathlib.Data.List.Nodup
import Mathlib.Data.List.Perm.Subperm
import Mathlib.Logic.Relation
import ClassBackend.Machine.Run

/-!
# The order of static initialization

A class is marked before its static initializer starts, together with the
unmarked classes above it. From then on the initializer is *pending*, until it is
entered or the action that marked the class is cut short. Initialization is in order
(`Ready`) if no initializer is entered twice, or entered while it is pending for
another time, and if every loaded class above an initializer's class was marked when it
was entered.
-/

namespace ClassBackend.Machine

variable {classes : List (String × ClassFile)} {m : Machine} {c : ClassFile}
  {names pending : List String} {name : String}

/-- A loaded class and its superclass, if that is loaded as well. -/
def ExtendsLoaded (classes : List (String × ClassFile)) (name above : String) : Prop :=
  ∃ c, classes.lookup name = some c ∧ c.superclass = some above ∧
    (classes.lookup above).isSome = true

/-- With a class, the loaded classes above it are among these. -/
def UpClosed (classes : List (String × ClassFile)) (names : List String) : Prop :=
  ∀ name ∈ names, ∀ above, ExtendsLoaded classes name above → above ∈ names

theorem UpClosed.mem {above : String} (h : UpClosed classes names) (hname : name ∈ names)
    (habove : Relation.TransGen (ExtendsLoaded classes) name above) : above ∈ names := by
  induction habove with
  | single hstep => exact h _ hname _ hstep
  | tail _ hstep ih => exact h _ ih _ hstep

/-- Initialization with these classes marked and these initializers entered has been in
order, while the initializers of some marked classes are pending. -/
structure InOrder (classes : List (String × ClassFile)) (begun : List String)
    (starts : List Start) (pending : List String) : Prop where
  named : ∀ entry ∈ classes, entry.2.name = entry.1
  closed : UpClosed classes begun
  once : (pending ++ starts.map (·.className)).Nodup
  marked : pending ++ starts.map (·.className) ⊆ begun
  above : ∀ start ∈ starts, ∀ above,
    Relation.TransGen (ExtendsLoaded classes) start.className above → above ∈ start.begun

def Ready (m : Machine) (pending : List String) : Prop :=
  InOrder m.classes m.initialized m.starts pending

/-! ## Loaded classes -/

theorem mem_of_class? (h : m.class? name = some c) : (name, c) ∈ m.classes := by
  obtain ⟨before, after, heq, -⟩ := List.lookup_eq_some_iff.1 h
  rw [heq]
  exact List.mem_append_right _ List.mem_cons_self

theorem loaded_of_mem_lineageWithin {n : Nat} (h : c ∈ (m.lineageWithin n name).1) :
    ∃ known, (known, c) ∈ m.classes := by
  induction n generalizing name with
  | zero => cases h
  | succ n ih =>
    unfold lineageWithin at h
    split at h
    · cases h
    · rename_i own hown
      split at h
      · obtain rfl := List.mem_singleton.1 h
        exact ⟨name, mem_of_class? hown⟩
      · rcases List.mem_cons.1 h with rfl | h
        · exact ⟨name, mem_of_class? hown⟩
        · exact ih h

theorem mem_of_mem_untilSeen {seen : List String} {cs : List ClassFile}
    (h : c ∈ untilSeen seen cs) : c ∈ cs := by
  induction cs generalizing seen with
  | nil => cases h
  | cons own rest ih =>
    unfold untilSeen at h
    split at h
    · cases h
    · rcases List.mem_cons.1 h with rfl | h
      · exact List.mem_cons_self
      · exact List.mem_cons_of_mem _ (ih h)

theorem loaded_of_mem_uninitialized (h : c ∈ m.uninitialized name) :
    ∃ known, (known, c) ∈ m.classes :=
  loaded_of_mem_lineageWithin (mem_of_mem_untilSeen h)

theorem untilSeen_fresh (seen : List String) (cs : List ClassFile) :
    ((untilSeen seen cs).map (·.name)).Nodup ∧ ∀ c ∈ untilSeen seen cs, c.name ∉ seen := by
  induction cs generalizing seen with
  | nil => exact ⟨List.nodup_nil, fun _ h => by cases h⟩
  | cons c rest ih =>
    unfold untilSeen
    split
    · exact ⟨List.nodup_nil, fun _ h => by cases h⟩
    · rename_i hnot
      obtain ⟨hnodup, hfresh⟩ := ih (c.name :: seen)
      refine ⟨List.nodup_cons.2 ⟨fun hmem => ?_, hnodup⟩, fun d hd => ?_⟩
      · obtain ⟨d, hd, hsame⟩ := List.mem_map.1 hmem
        exact hfresh d hd (hsame ▸ List.mem_cons_self)
      · rcases List.mem_cons.1 hd with rfl | hd
        · simpa using hnot
        · exact fun hin => hfresh d hd (List.mem_cons_of_mem _ hin)

section Named

variable (hnamed : ∀ entry ∈ m.classes, entry.2.name = entry.1)

include hnamed

theorem mem_untilSeen_self (hclass : m.class? name = some c) (n : Nat) (seen : List String) :
    name ∈ seen ++ (untilSeen seen (m.lineageWithin (n + 1) name).1).map (·.name) := by
  obtain rfl : c.name = name := hnamed _ (mem_of_class? hclass)
  obtain ⟨rest, hrest⟩ : ∃ rest, (m.lineageWithin (n + 1) c.name).1 = c :: rest := by
    unfold lineageWithin
    rw [hclass]
    dsimp only
    cases c.superclass with
    | none => exact ⟨_, rfl⟩
    | some superclass => exact ⟨_, rfl⟩
  rw [hrest, untilSeen]
  split
  · rename_i hseen
    exact List.mem_append_left _ (List.contains_iff_mem.1 hseen)
  · exact List.mem_append_right _ List.mem_cons_self

/-- Above each of the classes found, a loaded class was seen before or is found too, unless
the bound on the way upwards was used up. -/
theorem mem_untilSeen_above (n : Nat) (name : String) (seen : List String) :
    let found := untilSeen seen (m.lineageWithin n name).1
    found.length = n ∨ ∀ d ∈ found, ∀ above, ExtendsLoaded m.classes d.name above →
      above ∈ seen ++ found.map (·.name) := by
  induction n generalizing name seen with
  | zero => exact .inl rfl
  | succ n ih =>
    unfold lineageWithin
    cases hclass : m.class? name with
    | none => exact .inr fun _ h => by cases h
    | some c =>
      obtain rfl : c.name = name := hnamed _ (mem_of_class? hclass)
      have hown : ∀ above, ExtendsLoaded m.classes c.name above → c.superclass = some above := by
        rintro above ⟨d, hd, habove, -⟩
        rwa [Option.some.inj (hclass.symm.trans hd)]
      dsimp only
      cases hsuper : c.superclass with
      | none =>
        refine .inr fun d hd above habove => ?_
        obtain rfl := List.mem_singleton.1 (mem_of_mem_untilSeen hd)
        cases hsuper.symm.trans (hown above habove)
      | some superclass =>
        simp only [untilSeen]
        split
        · exact .inr fun _ h => by cases h
        · rcases ih superclass (c.name :: seen) with hlength | hrest
          · exact .inl (congrArg (· + 1) hlength)
          · rcases n with - | n
            · exact .inl rfl
            refine .inr fun d hd above habove => ?_
            suffices h : above ∈ c.name :: seen ++ (untilSeen (c.name :: seen)
                (m.lineageWithin (n + 1) superclass).1).map (·.name) by grind
            rcases List.mem_cons.1 hd with rfl | hd
            · obtain rfl := Option.some.inj (hsuper.symm.trans (hown above habove))
              obtain ⟨-, -, -, hloaded⟩ := habove
              obtain ⟨parent, hparent⟩ := Option.isSome_iff_exists.1 hloaded
              exact mem_untilSeen_self hnamed hparent n _
            · exact hrest d hd above habove

theorem upClosed_append_uninitialized (h : UpClosed m.classes m.initialized) (name : String) :
    UpClosed m.classes (m.initialized ++ (m.uninitialized name).map (·.name)) := by
  obtain ⟨hnodup, -⟩ := untilSeen_fresh m.initialized (m.lineage name).1
  -- the names are different names of loaded classes, so the bound is not used up
  have hfew : (m.uninitialized name).length ≤ m.classes.length := by
    have hloaded : (m.uninitialized name).map (·.name) ⊆ m.classes.map (·.1) := fun _ hmem => by
      obtain ⟨c, hc, rfl⟩ := List.mem_map.1 hmem
      obtain ⟨known, hknown⟩ := loaded_of_mem_uninitialized hc
      exact List.mem_map.2 ⟨_, hknown, (hnamed _ hknown).symm⟩
    have hle := (hnodup.subperm hloaded).length_le
    rwa [List.length_map, List.length_map] at hle
  intro marked hmarked above habove
  rcases List.mem_append.1 hmarked with hmem | hmem
  · exact List.mem_append_left _ (h marked hmem above habove)
  · obtain ⟨c, hc, rfl⟩ := List.mem_map.1 hmem
    rcases mem_untilSeen_above hnamed (m.classes.length + 1) name m.initialized with hlength | hin
    · exact absurd (hlength ▸ hfew) (Nat.not_succ_le_self _)
    · exact hin c hc above habove

end Named

/-! ## Marking and entering -/

namespace Ready

/-- What is pending may as well be given up. -/
theorem drop (h : m.Ready (names ++ pending)) : m.Ready pending where
  named := h.named
  closed := h.closed
  once := List.Nodup.of_append_right (List.append_assoc .. ▸ h.once)
  marked := fun _ hmem => h.marked (List.append_assoc .. ▸ List.mem_append_right _ hmem)
  above := h.above

theorem enter (h : m.Ready (c.name :: pending)) :
    Ready { m with starts := ⟨c.name, m.initialized⟩ :: m.starts } pending where
  named := h.named
  closed := h.closed
  once := List.nodup_middle.2 h.once
  marked := fun _ hmem => h.marked (List.perm_middle.subset hmem)
  above := List.forall_mem_cons.2
    ⟨fun _ => h.closed.mem (h.marked List.mem_cons_self), h.above⟩

theorem mark (h : m.Ready pending) (name : String) :
    Ready { m with initialized := m.initialized ++ (m.uninitialized name).map (·.name) }
      ((m.uninitialized name).reverse.map (·.name) ++ pending) where
  named := h.named
  closed := upClosed_append_uninitialized h.named h.closed name
  once := by
    obtain ⟨hnodup, hfresh⟩ := untilSeen_fresh m.initialized (m.lineage name).1
    rw [List.append_assoc, List.map_reverse]
    refine List.nodup_append.2 ⟨List.nodup_reverse.2 hnodup, h.once, fun _ hnew _ hold hsame => ?_⟩
    obtain ⟨c, hc, rfl⟩ := List.mem_map.1 (List.mem_reverse.1 hnew)
    exact hfresh c hc (h.marked (hsame ▸ hold))
  marked := by
    rw [List.append_assoc, List.map_reverse]
    intro _ hmem
    rcases List.mem_append.1 hmem with hnew | hold
    · exact List.mem_append_right _ (List.mem_reverse.1 hnew)
    · exact List.mem_append_left _ (h.marked hold)
  above := h.above

end Ready

end ClassBackend.Machine
