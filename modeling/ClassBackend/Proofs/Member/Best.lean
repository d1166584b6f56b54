import Mathlib.Data.List.Induction
import ClassBackend.Member.Library
import ClassBackend.Member.Resolve
import ClassBackend.Proofs.Ty.Acyclic

/-!
# The best overload

Among the overloads that a class has of a name, a call means the cheapest one
that takes its arguments, and the one declared first of several (`IsBest`). No
two overloads have both descriptor and static-ness in common, because a
declaration replaces the one it would clash with (`declareAll_apart`). The search
goes through all ancestors, so it needs a hierarchy without cycles.
-/

namespace ClassBackend

/-- The members differ in their descriptors, or one of them is static and the
other is not. -/
def Member.Apart (m m' : Member) : Prop :=
  ¬(m.descriptor = m'.descriptor ∧ m.isStatic = m'.isStatic)

namespace MemberTable

/-- No two overloads of one name on one class clash. -/
def Apart (table : MemberTable) : Prop :=
  table.members.Pairwise fun m m' => sameSlot m m' = true → m.Apart m'

theorem Apart.declare {table : MemberTable} (h : table.Apart) (m : Member) :
    (table.declare m).Apart := by
  refine List.pairwise_append.2
    ⟨List.Pairwise.filter _ h, List.pairwise_singleton _ _,
      fun old hold new hnew hslot hclash => ?_⟩
  obtain rfl := List.mem_singleton.1 hnew
  have hkept := (List.mem_filter.1 hold).2
  simp [replacedBy, hslot, hclash.1, hclash.2] at hkept

theorem Apart.declareAll {table : MemberTable} (h : table.Apart) (members : List Member) :
    (table.declareAll members).Apart := by
  induction members generalizing table with
  | nil => exact h
  | cons m members ih => exact ih (h.declare m)

/-- Whatever has been declared in whatever order, the overloads of a name are
apart. -/
theorem declareAll_apart (members : List Member) (owner name : String) :
    ((declareAll {} members).overloads owner name).Pairwise Member.Apart := by
  have h : (declareAll {} members).Apart := Apart.declareAll List.Pairwise.nil members
  refine (List.Pairwise.filter _ h).imp_of_mem fun {m m'} hm hm' hapart => hapart ?_
  have hslot := (List.mem_filter.1 hm).2
  have hslot' := (List.mem_filter.1 hm').2
  simp only [Bool.and_eq_true, beq_iff_eq] at hslot hslot'
  simp [sameSlot, hslot, hslot']

end MemberTable

namespace Registry

variable {r : Registry} {args : List Ty} {candidates : List Member} {m : Member}

def Accepts (r : Registry) (args : List Ty) (m : Member) : Prop :=
  (r.argumentsCost? m.params args).isSome

/-- The candidate takes the arguments at the least cost of all, and stands before
the others of that cost. -/
def IsBest (r : Registry) (args : List Ty) (candidates : List Member) (m : Member) : Prop :=
  ∃ before after cost, candidates = before ++ m :: after ∧
    r.argumentsCost? m.params args = some cost ∧
    (∀ other ∈ before, ∀ c, r.argumentsCost? other.params args = some c → cost < c) ∧
    ∀ other ∈ after, ∀ c, r.argumentsCost? other.params args = some c → cost ≤ c

/-- What is known of the candidates seen so far, given the best of them. -/
def Leads (r : Registry) (args : List Ty) (seen : List Member) : Option (Nat × Member) → Prop
  | none => ∀ m ∈ seen, ¬r.Accepts args m
  | some (cost, m) => r.IsBest args seen m ∧ r.argumentsCost? m.params args = some cost

theorem isBest_append {later : Member} {cost : Nat} (h : r.IsBest args candidates m)
    (hcost : r.argumentsCost? m.params args = some cost)
    (hlater : ∀ c, r.argumentsCost? later.params args = some c → cost ≤ c) :
    r.IsBest args (candidates ++ [later]) m := by
  obtain ⟨before, after, _, rfl, hknown, hbefore, hafter⟩ := h
  cases hknown.symm.trans hcost
  refine ⟨before, after ++ [later], _, by simp, hcost, hbefore, fun other hother => ?_⟩
  rcases List.mem_append.1 hother with hother | hother
  · exact hafter other hother
  · rwa [List.mem_singleton.1 hother]

theorem isBest_last {cost : Nat} (hcost : r.argumentsCost? m.params args = some cost)
    (h : ∀ other ∈ candidates, ∀ c, r.argumentsCost? other.params args = some c → cost < c) :
    r.IsBest args (candidates ++ [m]) m :=
  ⟨candidates, [], cost, rfl, hcost, h, nofun⟩

theorem IsBest.le {cost c : Nat} {other : Member} (h : r.IsBest args candidates m)
    (hcost : r.argumentsCost? m.params args = some cost) (hother : other ∈ candidates)
    (hc : r.argumentsCost? other.params args = some c) : cost ≤ c := by
  obtain ⟨before, after, _, rfl, hknown, hbefore, hafter⟩ := h
  cases hknown.symm.trans hcost
  rcases List.mem_append.1 hother with hother | hother
  · exact Nat.le_of_lt (hbefore other hother c hc)
  · rcases List.mem_cons.1 hother with rfl | hother
    · exact Nat.le_of_eq (Option.some.inj (hcost.symm.trans hc))
    · exact hafter other hother c hc

/-- The candidates are gone through once, and the best so far is kept. -/
theorem leads_cheapest? (args : List Ty) (candidates : List Member) : ∃ best,
    r.Leads args candidates best ∧
    r.cheapest? args candidates = best.map (·.2) := by
  refine ⟨_, ?_, rfl⟩
  -- induction from the right: the fold looks at the last candidate last
  induction candidates using List.reverseRecOn with
  | nil => exact nofun
  | append_singleton seen m ih =>
    rw [List.foldl_append, List.foldl_cons, List.foldl_nil]
    revert ih
    generalize seen.foldl _ none = best
    intro ih
    cases hcost : r.argumentsCost? m.params args with
    | none =>
      cases best with
      | none =>
        intro other hother
        rcases List.mem_append.1 hother with hother | hother
        · exact ih other hother
        · rw [List.mem_singleton.1 hother, Accepts, hcost]
          exact Bool.false_ne_true
      | some known => exact ⟨isBest_append ih.1 ih.2 (by simp [hcost]), ih.2⟩
    | some cost =>
      cases best with
      | none =>
        refine ⟨isBest_last hcost fun other hother c hc => ?_, hcost⟩
        exact absurd (Option.isSome_of_eq_some hc) (ih other hother)
      | some known =>
        simp only
        split
        · rename_i hlt
          exact ⟨isBest_last hcost fun other hother c hc =>
            Nat.lt_of_lt_of_le hlt (ih.1.le ih.2 hother hc),
            hcost⟩
        · rename_i hle
          refine ⟨isBest_append ih.1 ih.2 fun c hc => ?_, ih.2⟩
          rw [hcost] at hc
          exact Option.some.inj hc ▸ Nat.le_of_not_lt hle

theorem IsBest.unique {m' : Member} (h : r.IsBest args candidates m)
    (h' : r.IsBest args candidates m') : m = m' := by
  obtain ⟨before, after, cost, rfl, hcost, hbefore, hafter⟩ := h
  obtain ⟨before', after', cost', heq, hcost', hbefore', hafter'⟩ := h'
  rcases List.append_eq_append_iff.1 heq with ⟨more, rfl, hrest⟩ | ⟨more, rfl, hrest⟩
  · cases more with
    | nil => exact (List.cons.inj hrest).1
    | cons first more =>
      cases hrest
      have hlt := hbefore' m (by simp) cost hcost
      have hle := hafter m' (by simp) cost' hcost'
      omega
  · cases more with
    | nil => exact (List.cons.inj hrest).1.symm
    | cons first more =>
      cases hrest
      have hlt := hbefore m' (by simp) cost' hcost'
      have hle := hafter' m (by simp) cost hcost
      omega

theorem cheapest?_eq_some_iff : r.cheapest? args candidates = some m ↔
    r.IsBest args candidates m := by
  obtain ⟨best, hleads, hcheapest⟩ := r.leads_cheapest? args candidates
  rw [hcheapest]
  cases best with
  | none =>
    refine ⟨nofun, fun ⟨before, after, cost, hcandidates, hcost, _⟩ => ?_⟩
    exact absurd (Option.isSome_of_eq_some hcost) (hleads m (by simp [hcandidates]))
  | some known =>
    refine ⟨fun h => Option.some.inj h ▸ hleads.1, fun h => ?_⟩
    rw [h.unique hleads.1]
    rfl

theorem cheapest?_eq_none_iff : r.cheapest? args candidates = none ↔
    ∀ m ∈ candidates, ¬r.Accepts args m := by
  obtain ⟨best, hleads, hcheapest⟩ := r.leads_cheapest? args candidates
  rw [hcheapest]
  cases best with
  | none => exact ⟨fun _ => hleads, fun _ => rfl⟩
  | some known =>
    obtain ⟨⟨before, after, cost, hcandidates, hcost, _⟩, _⟩ := hleads
    refine ⟨nofun, fun h => ?_⟩
    exact absurd (Option.isSome_of_eq_some hcost) (h known.2 (by simp [hcandidates]))

/-- The overloads of a name on a type that a search considers. -/
def overloadsOn (table : MemberTable) (accept : Member → Bool) (name : String) (owner : Ty) :
    List Member := (table.overloads owner.name name).filter accept

/-- Some member on one of the types takes the arguments. -/
def SomeAccepts (r : Registry) (table : MemberTable) (accept : Member → Bool) (name : String)
    (args : List Ty) (types : List Ty) : Prop :=
  ∃ t ∈ types, ∃ m ∈ overloadsOn table accept name t, r.Accepts args m

/-- The member is the best on the first of the types that has any that takes the
arguments. -/
def IsFirstBest (r : Registry) (table : MemberTable) (accept : Member → Bool) (name : String)
    (args : List Ty) (types : List Ty) (m : Member) : Prop :=
  ∃ before owner after, types = before ++ owner :: after ∧
    ¬r.SomeAccepts table accept name args before ∧
    r.IsBest args (overloadsOn table accept name owner) m

section

variable {table : MemberTable} {accept : Member → Bool} {name : String} {types : List Ty}

theorem findSome?_bestOn?_eq_none_iff :
    (types.findSome? fun owner => r.bestOn? table accept owner name args) = none ↔
      ¬r.SomeAccepts table accept name args types := by
  rw [List.findSome?_eq_none_iff]
  constructor
  · rintro h ⟨t, ht, m, hm, haccepts⟩
    exact cheapest?_eq_none_iff.1 (h t ht) m hm haccepts
  · intro h t ht
    exact cheapest?_eq_none_iff.2 fun m hm haccepts => h ⟨t, ht, m, hm, haccepts⟩

theorem findSome?_bestOn?_eq_some_iff :
    (types.findSome? fun owner => r.bestOn? table accept owner name args) = some m ↔
      r.IsFirstBest table accept name args types m := by
  rw [List.findSome?_eq_some_iff]
  refine exists_congr fun before => exists_congr fun owner => exists_congr fun after =>
    and_congr_right fun _ => ?_
  rw [← findSome?_bestOn?_eq_none_iff, List.findSome?_eq_none_iff, and_comm]
  exact and_congr_right fun _ => cheapest?_eq_some_iff

end

/-- What a call on a class means: the best instance member on the first type of its
lineage that has one, else the best static member up its superclass chain. -/
def Means (r : Registry) (table : MemberTable) (receiver : Ty) (name : String) (args : List Ty)
    (m : Member) : Prop :=
  r.IsFirstBest table (fun m => !m.isStatic) name args (receiver :: r.ancestors receiver) m ∨
    (¬r.SomeAccepts table (fun m => !m.isStatic) name args (receiver :: r.ancestors receiver) ∧
      r.IsFirstBest table (fun m => m.isStatic && !m.isConstructor) name args
        (r.superclassChain receiver) m)

section

variable {table : MemberTable} {receiver : Ty} {name : String} (harray : receiver.isArray = false)
include harray

theorem instanceMember?_eq_some_iff :
    r.instanceMember? table receiver name args = some m ↔ r.Means table receiver name args m := by
  unfold instanceMember? Means
  simp only [harray, Bool.false_eq_true, if_false]
  rw [← findSome?_bestOn?_eq_some_iff, ← findSome?_bestOn?_eq_none_iff,
    ← findSome?_bestOn?_eq_some_iff]
  split
  · rename_i found hfound
    simp [hfound]
  · rename_i hfound
    simp [hfound, staticMember?]

/-- There is a member exactly if some candidate takes the arguments. -/
theorem exists_instanceMember?_iff : (∃ m, r.instanceMember? table receiver name args = some m) ↔
    r.SomeAccepts table (fun m => !m.isStatic) name args (receiver :: r.ancestors receiver) ∨
      r.SomeAccepts table (fun m => m.isStatic && !m.isConstructor) name args
        (r.superclassChain receiver) := by
  unfold instanceMember?
  simp only [harray, Bool.false_eq_true, if_false]
  rw [← not_iff_not, not_or, ← findSome?_bestOn?_eq_none_iff, ← findSome?_bestOn?_eq_none_iff]
  split
  · rename_i found hfound
    simp [hfound]
  · rename_i hfound
    simp [hfound, staticMember?, Option.eq_none_iff_forall_ne_some]

end

/-- Only the test of a class comes before the members of the receiver. -/
theorem resolve?_object {table : MemberTable} {className name : String}
    (hname : name = "kind_of?" → ∀ base, args ≠ [.metaOf base]) :
    r.resolve? table (.object className) name args =
      r.instanceMember? table (.object className) name args := by
  unfold resolve?
  split
  · cases ‹_ = _›
  · cases ‹_ = _›
  · cases ‹_ = _›
  · cases ‹_ = _›
  · split
    · rename_i tested
      cases tested with
      | metaOf base => exact absurd rfl (hname rfl base)
      | _ => rfl
    · rfl

/-- Overloads are apart whatever is declared. In a hierarchy without cycles the search for
a member ends, and a call on a class means the best of its overloads, as long as it is not
a test of a class. -/
theorem resolution_best (r : Registry) :
    (∀ members owner name, ((MemberTable.declareAll {} members).overloads owner name).Pairwise
      Member.Apart) ∧
    (r.Acyclic → r.WalksEnd ∧
      ∀ (table : MemberTable) (className name : String) (args : List Ty),
        (name = "kind_of?" → ∀ base, args ≠ [.metaOf base]) →
        (∀ m, r.resolve? table (.object className) name args = some m ↔
          r.Means table (.object className) name args m) ∧
        ((∃ m, r.resolve? table (.object className) name args = some m) ↔
          r.SomeAccepts table (fun m => !m.isStatic) name args
              (.object className :: r.ancestors (.object className)) ∨
            r.SomeAccepts table (fun m => m.isStatic && !m.isConstructor) name args
              (r.superclassChain (.object className)))) := by
  refine ⟨MemberTable.declareAll_apart, fun hr => ⟨hr.walksEnd, ?_⟩⟩
  intro table className name args hname
  rw [resolve?_object hname]
  exact ⟨fun m => instanceMember?_eq_some_iff rfl, exists_instanceMember?_iff rfl⟩

/-- A `short` can be printed at four types for the same cost. -/
theorem print_short_best : core.resolve? Library.table (.object "java.io.PrintStream") "print"
      [.prim .short] = some (.method (.object "java.io.PrintStream") "print" [.int] .void false) ∧
    core.Means Library.table (.object "java.io.PrintStream") "print" [.prim .short]
      (.method (.object "java.io.PrintStream") "print" [.int] .void false) := by
  have h : core.resolve? Library.table (.object "java.io.PrintStream") "print" [.prim .short] =
      some (.method (.object "java.io.PrintStream") "print" [.int] .void false) := by
    decide +kernel
  exact ⟨h, ((((resolution_best core).2 core_acyclic).2 _ _ _ _ (by simp)).1 _).1 h⟩

/-- Above a class that is its own superclass the search never comes to an end. -/
theorem own_superclass_endless :
    (after [.declare "A", .define "A" (some "A") [] false]).parents (.object "A") =
      [.object "A"] ∧
    ∀ n, levelsAbove (after [.declare "A", .define "A" (some "A") [] false]) n [.object "A"] =
      List.replicate n (.object "A") := by
  refine ⟨rfl, fun n => ?_⟩
  induction n with
  | zero => rfl
  | succ n ih => exact congrArg (.object "A" :: ·) ih

end Registry

end ClassBackend
