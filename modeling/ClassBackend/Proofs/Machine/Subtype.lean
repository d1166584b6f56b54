import ClassBackend.Machine.Subtype
import Mathlib.Logic.Relation

/-!
# Reachability along class links

The search for a class follows links that may dangle or run in circles. It ends
(`searches_reaches`), since every name is expanded once: it is enough to have paid
for each name's links in advance, and `linkBound` is such a payment. It finds
exactly what is reachable (`reaches_iff`).
-/

namespace ClassBackend.Machine

open Relation

variable {name start target : String} {n : Nat} {seen : List String}

variable {m : Machine}

/-- One link up, from a class to its superclass or to an interface. -/
def Link (m : Machine) (name above : String) : Prop := above ∈ m.links name

/-- How a search without a bound gets from the names that are pending and those
it has seen to its answer. -/
inductive Searches (m : Machine) (target : String) :
    (pending seen : List String) → (found : Bool) → Prop
  | dry (seen : List String) : Searches m target [] seen false
  | found (pending seen : List String) : Searches m target (target :: pending) seen true
  | again {name pending seen found} : name ≠ target → name ∈ seen →
    Searches m target pending seen found → Searches m target (name :: pending) seen found
  | expand {name pending seen found} : name ≠ target → name ∉ seen →
    Searches m target (m.links name ++ pending) (name :: seen) found →
    Searches m target (name :: pending) seen found

namespace Searches

variable {pending : List String} {found : Bool}

theorem exists_reaches (h : m.Searches target pending seen found) (hfound : found = true) :
    ∃ name ∈ pending, ReflTransGen m.Link name target := by
  induction h with
  | dry => cases hfound
  | found => exact ⟨target, List.mem_cons_self, .refl⟩
  | again _ _ _ ih =>
    obtain ⟨other, hother, hleads⟩ := ih hfound
    exact ⟨other, List.mem_cons_of_mem _ hother, hleads⟩
  | @expand name _ _ _ _ _ _ ih =>
    obtain ⟨other, hother, hleads⟩ := ih hfound
    rcases List.mem_append.1 hother with hlink | hpending
    · exact ⟨name, List.mem_cons_self, .head hlink hleads⟩
    · exact ⟨other, List.mem_cons_of_mem _ hpending, hleads⟩

/-- Names seen have their links seen or pending, so a search that runs dry has
seen all that is reachable. -/
theorem found_of_reaches (h : m.Searches target pending seen found)
    (hclosed : ∀ name ∈ seen, ∀ above ∈ m.links name, above ∈ seen ∨ above ∈ pending)
    (htarget : target ∉ seen) (hstart : start ∈ seen ∨ start ∈ pending)
    (hleads : ReflTransGen m.Link start target) : found = true := by
  induction h with
  | dry seen =>
    have hseen : target ∈ seen := by
      refine hleads.rec (motive := fun name _ => name ∈ seen) ?_ fun _ hlink hname => ?_
      · simpa using hstart
      · simpa using hclosed _ hname _ hlink
    exact absurd hseen htarget
  | found => rfl
  | @again name pending seen _ _ hseen _ ih =>
    have hkeep : ∀ other, other ∈ seen ∨ other ∈ name :: pending →
        other ∈ seen ∨ other ∈ pending := by grind
    exact ih (fun other hother above habove => hkeep _ (hclosed other hother above habove))
      htarget (hkeep _ hstart)
  | @expand name pending seen _ hne _ _ ih =>
    have hkeep : ∀ other, other ∈ seen ∨ other ∈ name :: pending →
        other ∈ name :: seen ∨ other ∈ m.links name ++ pending := by grind
    refine ih (fun other hother above habove => ?_) ?_ (hkeep _ hstart)
    · rcases List.mem_cons.1 hother with rfl | hother
      · exact .inr (List.mem_append_left _ habove)
      · exact hkeep _ (hclosed other hother above habove)
    · intro hmem
      rcases List.mem_cons.1 hmem with heq | hmem
      · exact hne heq.symm
      · exact htarget hmem

end Searches

/-! ## Enough steps -/

/-- What a list of payments comes to when the names seen have spent theirs. -/
def unspent (seen : List String) : List (String × Nat) → Nat
  | [] => 0
  | payment :: rest => (if payment.1 ∈ seen then 0 else payment.2) + unspent seen rest

theorem unspent_append (seen : List String) (payments rest : List (String × Nat)) :
    unspent seen (payments ++ rest) = unspent seen payments + unspent seen rest := by
  induction payments with
  | nil => simp [unspent]
  | cons payment payments ih => rw [List.cons_append, unspent, unspent, ih, Nat.add_assoc]

theorem unspent_cons_le (name : String) (seen : List String) (payments : List (String × Nat)) :
    unspent (name :: seen) payments ≤ unspent seen payments := by
  induction payments with
  | nil => exact Nat.le_refl 0
  | cons payment payments ih =>
    rw [unspent, unspent]
    by_cases hseen : payment.1 ∈ seen
    · simpa [hseen] using ih
    · rw [if_neg hseen]
      split <;> omega

theorem unspent_cons_add_le {amount : Nat} {payments : List (String × Nat)}
    (hpaid : (name, amount) ∈ payments) (hname : name ∉ seen) :
    unspent (name :: seen) payments + amount ≤ unspent seen payments := by
  induction payments with
  | nil => cases hpaid
  | cons payment payments ih =>
    rw [unspent, unspent]
    rcases List.mem_cons.1 hpaid with rfl | hpaid
    · have hrest := unspent_cons_le name seen payments
      simp only [List.mem_cons_self, if_true, if_neg hname]
      omega
    · have hrest := ih hpaid
      by_cases hseen : payment.1 ∈ seen
      · simpa [hseen] using hrest
      · rw [if_neg hseen]
        split <;> omega

/-- The names that may come up in a search are those with a payment that covers
their links. -/
def Covered (m : Machine) (payments : List (String × Nat)) (name : String) : Prop :=
  m.links name = [] ∨ ∃ amount, (name, amount) ∈ payments ∧ (m.links name).length ≤ amount

theorem searches_search {payments : List (String × Nat)} {pending : List String}
    (hsteps : pending.length + unspent seen payments < n)
    (hcovered : ∀ name ∈ pending, m.Covered payments name)
    (hlinks : ∀ name, ∀ above ∈ m.links name, m.Covered payments above) :
    m.Searches target pending seen (m.search target n pending seen) := by
  induction n generalizing pending seen with
  | zero => omega
  | succ n ih =>
    cases pending with
    | nil => exact .dry seen
    | cons name pending =>
      rw [List.length_cons] at hsteps
      rw [search]
      split
      · rename_i heq
        obtain rfl := eq_of_beq heq
        exact .found pending seen
      rename_i hne
      have hne : name ≠ target := fun heq => hne (beq_iff_eq.2 heq)
      split
      · rename_i hseen
        exact .again hne (List.contains_iff_mem.1 hseen)
          (ih (by omega) fun _ h => hcovered _ (List.mem_cons_of_mem _ h))
      · rename_i hseen
        have hnew : name ∉ seen := fun h => hseen (List.contains_iff_mem.2 h)
        have hpaid : (m.links name).length + unspent (name :: seen) payments ≤
            unspent seen payments := by
          rcases hcovered name List.mem_cons_self with hnone | ⟨amount, hamount, hle⟩
          · have := unspent_cons_le name seen payments
            rw [hnone]
            simpa using this
          · have := unspent_cons_add_le hamount hnew
            omega
        refine .expand hne hnew (ih (by rw [List.length_append]; omega) fun other hother => ?_)
        rcases List.mem_append.1 hother with h | h
        · exact hlinks name other h
        · exact hcovered other (List.mem_cons_of_mem _ h)

/-! ## The payment of `linkBound` -/

def aboveLoaded (m : Machine) : List String :=
  m.classes.flatMap fun entry => entry.2.superclass.toList ++ entry.2.interfaces

/-- The names above a library class, the root apart. -/
def aboveLibrary : List String :=
  librarySuperclasses.map (·.2) ++ libraryInterfaces.flatMap (·.2)

/-- Each class pays for its links, and each name that some link leads to pays
for the one link that an unknown class has. -/
def payments (m : Machine) (start : String) : List (String × Nat) :=
  m.classes.map (fun entry => (entry.1, 1 + entry.2.interfaces.length)) ++
    (libraryInterfaces.map fun entry => (entry.1, 1 + entry.2.length)) ++
    (start :: m.aboveLoaded ++ aboveLibrary).map (·, 1)

theorem unspent_nil_ones (names : List String) : unspent [] (names.map (·, 1)) = names.length := by
  induction names with
  | nil => rfl
  | cons name names ih =>
    rw [List.map_cons, unspent, ih, List.length_cons]
    simp [Nat.add_comm]

/-- The loaded classes of a list pay as much as `linkBound` counts for them, which
is at least the number of their links. -/
theorem loaded_payments (classes : List (String × ClassFile)) (start : Nat) :
    classes.foldl (fun total entry => total + 1 + entry.2.interfaces.length) start =
        start + unspent [] (classes.map fun entry => (entry.1, 1 + entry.2.interfaces.length)) ∧
      (classes.flatMap fun entry => entry.2.superclass.toList ++ entry.2.interfaces).length ≤
        unspent [] (classes.map fun entry => (entry.1, 1 + entry.2.interfaces.length)) := by
  induction classes generalizing start with
  | nil => exact ⟨rfl, Nat.le_refl 0⟩
  | cons entry classes ih =>
    obtain ⟨htotal, hlinks⟩ := ih (start + 1 + entry.2.interfaces.length)
    rw [List.foldl_cons, htotal, List.map_cons, unspent, if_neg List.not_mem_nil]
    refine ⟨by omega, ?_⟩
    have hone : entry.2.superclass.toList.length ≤ 1 := by
      cases entry.2.superclass <;> simp
    rw [List.flatMap_cons, List.length_append, List.length_append]
    omega

theorem unspent_payments_lt (m : Machine) (start : String) :
    1 + unspent [] (m.payments start) ≤ m.linkBound := by
  obtain ⟨htotal, hlinks⟩ := loaded_payments m.classes 0
  have hlibrary : unspent [] (libraryInterfaces.map fun entry => (entry.1, 1 + entry.2.length)) +
      aboveLibrary.length ≤ 2 * libraryInterfaces.foldl
        (fun total entry => total + 1 + entry.2.length) librarySuperclasses.length := by
    decide
  have hbound : m.linkBound =
      2 * (m.classes.foldl (fun total entry => total + 1 + entry.2.interfaces.length) 0 +
        libraryInterfaces.foldl (fun total entry => total + 1 + entry.2.length)
          librarySuperclasses.length) + 2 := rfl
  rw [payments, unspent_append, unspent_append, unspent_nil_ones, hbound, htotal,
    List.length_append, List.length_cons, aboveLoaded]
  omega

theorem length_libraryLinks (name : String) :
    (libraryLinks name).length ≤ 1 + ((libraryInterfaces.lookup name).getD []).length := by
  rw [libraryLinks, List.length_append]
  have hone : (librarySuperclass? name).toList.length ≤ 1 := by
    cases librarySuperclass? name <;> simp
  omega

theorem mem_payments_of_mem (h : name ∈ start :: m.aboveLoaded ++ aboveLibrary) :
    (name, 1) ∈ m.payments start :=
  List.mem_append_right _ (List.mem_map_of_mem h)

theorem mem_of_lookup {α : Type} {entries : List (String × α)} {value : α}
    (h : entries.lookup name = some value) : (name, value) ∈ entries := by
  obtain ⟨before, later, rfl, -⟩ := List.lookup_eq_some_iff.1 h
  simp

/-- A name that has been reached is covered: its own class pays, or the link that
led to it. -/
theorem covered_of_mem (h : name = rootClass ∨ name ∈ start :: m.aboveLoaded ++ aboveLibrary) :
    m.Covered (m.payments start) name := by
  rw [Covered, links]
  cases hclass : m.class? name with
  | some c =>
    refine .inr ⟨1 + c.interfaces.length, ?_, ?_⟩
    · refine List.mem_append_left _ (List.mem_append_left _ ?_)
      exact List.mem_map.2 ⟨(name, c), mem_of_lookup hclass, rfl⟩
    · have hone : c.superclass.toList.length ≤ 1 := by cases c.superclass <;> simp
      simp only [List.length_append]
      omega
  | none =>
    cases hlookup : libraryInterfaces.lookup name with
    | some interfaces =>
      refine .inr ⟨1 + interfaces.length, ?_, ?_⟩
      · refine List.mem_append_left _ (List.mem_append_right _ ?_)
        exact List.mem_map.2 ⟨(name, interfaces), mem_of_lookup hlookup, rfl⟩
      · simpa [hlookup] using length_libraryLinks name
    | none =>
      rcases h with rfl | h
      · exact .inl (by decide)
      · exact .inr ⟨1, mem_payments_of_mem h, by simpa [hlookup] using length_libraryLinks name⟩

theorem mem_above_of_link {above : String} (h : m.Link name above) (start : String) :
    above = rootClass ∨ above ∈ start :: m.aboveLoaded ++ aboveLibrary := by
  rw [Link, links] at h
  cases hclass : m.class? name with
  | some c =>
    rw [hclass] at h
    refine .inr (List.mem_append_left _ (List.mem_cons_of_mem _ ?_))
    exact List.mem_flatMap.2 ⟨(name, c), mem_of_lookup hclass, h⟩
  | none =>
    rw [hclass] at h
    rcases List.mem_append.1 h with hsuper | hinterface
    · unfold librarySuperclass? at hsuper
      split at hsuper
      · cases hsuper
      cases hlookup : librarySuperclasses.lookup name with
      | none => exact .inl (by simpa [hlookup] using hsuper)
      | some superclass =>
        obtain rfl : above = superclass := by simpa [hlookup] using hsuper
        exact .inr (List.mem_append_right _ (List.mem_append_left _
          (List.mem_map.2 ⟨(name, above), mem_of_lookup hlookup, rfl⟩)))
    · cases hlookup : libraryInterfaces.lookup name with
      | none => simp [hlookup] at hinterface
      | some interfaces =>
        rw [hlookup] at hinterface
        exact .inr (List.mem_append_right _ (List.mem_append_right _
          (List.mem_flatMap.2 ⟨(name, interfaces), mem_of_lookup hlookup, hinterface⟩)))

theorem searches_reaches (m : Machine) (name target : String) :
    m.Searches target [name] [] (m.reaches name target) := by
  have hlinks : ∀ other above, m.Link other above → m.Covered (m.payments name) above :=
    fun _ _ habove => covered_of_mem (mem_above_of_link habove name)
  refine searches_search ?_ (fun other hother => ?_) hlinks
  · have := unspent_payments_lt m name
    rw [List.length_singleton]
    omega
  · exact covered_of_mem (.inr (by simp [List.mem_singleton.1 hother]))

theorem reaches_iff : m.reaches name target = true ↔ ReflTransGen m.Link name target := by
  have hsearch := searches_reaches m name target
  constructor
  · intro h
    obtain ⟨start, hstart, hleads⟩ := hsearch.exists_reaches h
    rwa [List.mem_singleton.1 hstart] at hleads
  · exact hsearch.found_of_reaches (by simp) (by simp) (.inr List.mem_cons_self)

/-! ## Classes and arrays -/

theorem isSubtypeWithin_class {name target : List Char} (hname : name.head? ≠ some '[') :
    m.isSubtypeWithin (n + 1) name target = true ↔
      target = rootClass.toList ∨ ReflTransGen m.Link (String.ofList name)
        (String.ofList target) := by
  have hother : m.isSubtypeWithin (n + 1) name target =
      (if name == target || target == rootClass.toList then true
      else m.reaches (String.ofList name) (String.ofList target)) := by
    cases name with
    | nil => rfl
    | cons c rest =>
      have hne : c ≠ '[' := fun h => hname (by rw [h]; rfl)
      rw [isSubtypeWithin]
      · simp [hne]
      · simp [hne]
  rw [hother]
  split
  · rename_i hsame
    rcases Bool.or_eq_true _ _ ▸ hsame with h | h
    · rw [eq_of_beq h]
      simp [ReflTransGen.refl]
    · simp [eq_of_beq h]
  · rename_i hdiffers
    rw [reaches_iff]
    simp only [Bool.or_eq_true, beq_iff_eq, not_or] at hdiffers
    simp [hdiffers.2]

variable {component : List Char}

theorem isSubtypeWithin_array_class {target : List Char}
    (htarget : target.head? ≠ some '[') :
    m.isSubtypeWithin (n + 1) ('[' :: component) target = true ↔
      target = rootClass.toList ∨ target = "java/lang/Cloneable".toList ∨
        target = "java/io/Serializable".toList := by
  have hdiffers : '[' :: component ≠ target := fun h => htarget (by rw [← h]; rfl)
  rw [isSubtypeWithin]
  · simp only [beq_eq_false_iff_ne.2 hdiffers, Bool.false_or]
    split
    · rename_i hroot
      simp [eq_of_beq hroot]
    · rename_i hroot
      have hroot : target ≠ rootClass.toList := fun h => hroot (beq_iff_eq.2 h)
      simp [hroot]
  · rintro wanted rfl
    exact htarget rfl

/-- Arrays of references follow their elements, all others only themselves. -/
theorem isSubtypeWithin_array_array {wanted : List Char} :
    m.isSubtypeWithin (n + 1) ('[' :: component) ('[' :: wanted) = true ↔
      component = wanted ∨ ∃ own ∈ elementClass? component, ∃ other ∈ elementClass? wanted,
        m.isSubtypeWithin n own other = true := by
  have hroot : ('[' :: wanted == rootClass.toList) = false := rfl
  rw [isSubtypeWithin, hroot, Bool.or_false]
  split
  · rename_i hsame
    simp [(List.cons.inj (eq_of_beq hsame)).2]
  · rename_i hdiffers
    have hdiffers : component ≠ wanted := fun h => hdiffers (by rw [h]; exact beq_self_eq_true _)
    cases elementClass? component with
    | none => simp [hdiffers]
    | some own =>
      cases elementClass? wanted with
      | none | some => simp [hdiffers]

theorem length_elementClass? {own : List Char} (h : own ∈ elementClass? component) :
    own.length ≤ component.length := by
  unfold elementClass? at h
  split at h
  · exact Nat.le_of_eq (congrArg List.length (Option.some.inj h).symm)
  · split at h
    · rw [← Option.some.inj h, List.length_dropLast, List.length_cons]
      omega
    · cases h
  · cases h

/-- The number of array levels is given as the length of the name, and more do not
matter. -/
theorem isSubtypeWithin_eq {k : Nat} {name target : List Char} (hn : name.length < n)
    (hk : name.length < k) : m.isSubtypeWithin n name target = m.isSubtypeWithin k name target := by
  induction n generalizing k name target with
  | zero => omega
  | succ n ih =>
    obtain ⟨k, rfl⟩ : ∃ j, k = j + 1 := ⟨k - 1, by omega⟩
    rw [Bool.eq_iff_iff]
    by_cases hname : name.head? = some '['
    · obtain ⟨component, rfl⟩ := List.head?_eq_some_iff.1 hname
      rw [List.length_cons] at hn hk
      by_cases htarget : target.head? = some '['
      · obtain ⟨wanted, rfl⟩ := List.head?_eq_some_iff.1 htarget
        rw [isSubtypeWithin_array_array, isSubtypeWithin_array_array]
        refine or_congr_right (exists_congr fun own => and_congr_right fun hown => ?_)
        have hle := length_elementClass? hown
        refine exists_congr fun other => and_congr_right fun _ => ?_
        rw [ih (by omega) (by omega : own.length < k)]
      · rw [isSubtypeWithin_array_class htarget, isSubtypeWithin_array_class htarget]
    · rw [isSubtypeWithin_class hname, isSubtypeWithin_class hname]

/-- The search for a class ends, whatever the links. A class is a subtype of the root
and of what its links reach; an array of itself, of the three classes that all
arrays have, and of the arrays whose elements its own are a subtype of. -/
theorem isSubtype_iff_reachable (m : Machine) (name target : String) :
    m.Searches target [name] [] (m.reaches name target) ∧
      (name.toList.head? ≠ some '[' → (m.isSubtype name target = true ↔
        target = rootClass ∨ ReflTransGen m.Link name target)) ∧
      ∀ component, name.toList = '[' :: component → (m.isSubtype name target = true ↔
        name = target ∨
          target ∈ [rootClass, "java/lang/Cloneable", "java/io/Serializable"] ∨
          ∃ wanted, target.toList = '[' :: wanted ∧ (component = wanted ∨
            ∃ own ∈ elementClass? component, ∃ other ∈ elementClass? wanted,
              m.isSubtype (String.ofList own) (String.ofList other) = true)) := by
  have hlist : ∀ text : String, target.toList = text.toList ↔ target = text :=
    fun _ => String.toList_inj
  refine ⟨searches_reaches m name target, fun hname => ?_, fun component hcomponent => ?_⟩
  · rw [isSubtype, isSubtypeWithin_class hname, hlist, String.ofList_toList, String.ofList_toList]
  have hname : name = target ↔ '[' :: component = target.toList := by
    rw [← hcomponent, String.toList_inj]
  rw [isSubtype, hcomponent, hname]
  by_cases htarget : target.toList.head? = some '['
  · obtain ⟨wanted, hwanted⟩ := List.head?_eq_some_iff.1 htarget
    have hother : target ∉ [rootClass, "java/lang/Cloneable", "java/io/Serializable"] := by
      intro hmem
      simp only [List.mem_cons, List.not_mem_nil, or_false] at hmem
      rcases hmem with rfl | rfl | rfl <;> exact absurd htarget (by decide)
    have hlength : name.length = component.length + 1 := by
      rw [← String.length_toList, hcomponent, List.length_cons]
    have hdeeper : ∀ own ∈ elementClass? component, ∀ other,
        m.isSubtypeWithin name.length own other =
          m.isSubtype (String.ofList own) (String.ofList other) := by
      intro own hown other
      have hle := length_elementClass? hown
      rw [isSubtype, String.toList_ofList, String.toList_ofList]
      exact isSubtypeWithin_eq (by omega) (by simp)
    rw [hwanted, isSubtypeWithin_array_array]
    simp only [hother, false_or, List.cons.injEq, true_and, exists_eq_left']
    constructor
    · rintro (rfl | ⟨own, hown, other, hmem, h⟩)
      · exact .inl rfl
      · exact .inr (.inr ⟨own, hown, other, hmem, hdeeper own hown other ▸ h⟩)
    · rintro (rfl | rfl | ⟨own, hown, other, hmem, h⟩)
      · exact .inl rfl
      · exact .inl rfl
      · exact .inr ⟨own, hown, other, hmem, (hdeeper own hown other).trans h⟩
  · have hnone : ∀ wanted, target.toList ≠ '[' :: wanted := fun wanted h => htarget (by rw [h]; rfl)
    rw [isSubtypeWithin_array_class htarget, hlist, hlist, hlist]
    simp [hnone, Ne.symm (hnone component)]

/-- Two classes above each other, and an interface that is not there. -/
def circularMachine : Machine :=
  let twin (name superclass : String) : ClassFile :=
    { name, superclass := some superclass, interfaces := ["Missing"], access := Access.publicFlag }
  Machine.load (Machine.load {} (twin "Left" "Right")) (twin "Right" "Left")

theorem circularMachine_reachable : (circularMachine.isSubtype "Left" "Other" = true ↔
      "Other" = rootClass ∨ ReflTransGen circularMachine.Link "Left" "Other") ∧
      circularMachine.isSubtype "Left" "Other" = false ∧
      circularMachine.isSubtype "[[LLeft;" "[[LMissing;" = true := by
  refine ⟨(isSubtype_iff_reachable circularMachine "Left" "Other").2.1 (by decide),
    rfl, ?_⟩
  have harrays := (isSubtype_iff_reachable circularMachine "[[LLeft;" "[[LMissing;").2.2 _ rfl
  exact harrays.2 (.inr (.inr ⟨_, rfl, .inr ⟨_, rfl, _, rfl, rfl⟩⟩))

end ClassBackend.Machine
