import Mathlib.Algebra.GroupWithZero.Nat
import ClassBackend.Machine.Run
import ClassBackend.Proofs.Emission.Growth
import ClassBackend.Proofs.Machine.Path

/-!
# Where arguments are passed

A method body gives out slots for its parameters and other locals by their types, and
the machine stores arguments by what they are. Both count from the same slot, so every
argument is found where its parameter is (`Assembler.locals_apart`).
-/

namespace ClassBackend

open Machine

def Ty.words (t : Ty) : Nat := if t.isWide then 2 else 1

inductive LocalRequest where
  | named (name : String) (t : Ty)
  | temporary (t : Ty)

def LocalRequest.words : LocalRequest → Nat
  | .named _ t | .temporary t => t.words

namespace Assembler

variable {a : Assembler} {name other : String} {t : Ty} {slot : UInt16} {request : LocalRequest}
  {requests : List LocalRequest}

def give (a : Assembler) : LocalRequest → UInt16 × Assembler
  | .named name t => a.namedLocal name t
  | .temporary t => a.allocate t

/-- The request is for a local that there is already. -/
def knows (a : Assembler) : LocalRequest → Bool
  | .named name _ => (a.slotOf? name).isSome
  | .temporary _ => false

/-- The slots given for requests, one after the other. -/
def giveAll (a : Assembler) : List LocalRequest → List UInt16 × Assembler
  | [] => ([], a)
  | request :: rest =>
    let (slots, done) := (a.give request).2.giveAll rest
    ((a.give request).1 :: slots, done)

/-- The locals that are new, each by its first slot and the number of its words. -/
def grants (a : Assembler) : List LocalRequest → List (Nat × Nat)
  | [] => []
  | request :: rest =>
    (if a.knows request then [] else [((a.give request).1.toNat, request.words)]) ++
      (a.give request).2.grants rest

/-! ## Names -/

theorem namedLocal_of_some (h : a.slotOf? name = some slot) (t : Ty) :
    a.namedLocal name t = (slot, a) := by
  unfold namedLocal
  rw [h]

theorem namedLocal_of_none (h : a.slotOf? name = none) (t : Ty) :
    a.namedLocal name t = (a.nextSlot, { (a.allocate t).2 with
      locals := a.locals ++ [{ name, descriptor := t.descriptor, slot := a.nextSlot }] }) := by
  unfold namedLocal
  rw [h]
  rfl

theorem slotOf?_namedLocal_of_none (h : a.slotOf? name = none) (t : Ty) (other : String) :
    (a.namedLocal name t).2.slotOf? other =
      (a.slotOf? other).or (if name = other then some a.nextSlot else none) := by
  rw [namedLocal_of_none h]
  simp only [slotOf?, List.find?_append, List.find?_singleton, beq_iff_eq]
  cases a.locals.find? (·.name == other) with
  | some v => rfl
  | none => split <;> rfl

theorem slotOf?_give (request : LocalRequest) (h : a.slotOf? name = some slot) :
    (a.give request).2.slotOf? name = some slot := by
  cases request with
  | temporary t => exact h
  | named other t =>
    cases hother : a.slotOf? other with
    | some known => rwa [give, namedLocal_of_some hother]
    | none => rw [give, slotOf?_namedLocal_of_none hother, h, Option.some_or]

theorem slotOf?_giveAll (requests : List LocalRequest) (h : a.slotOf? name = some slot) :
    (a.giveAll requests).2.slotOf? name = some slot := by
  induction requests generalizing a with
  | nil => exact h
  | cons request rest ih => exact ih (slotOf?_give request h)

/-- Every request for a name gives the slot that the name has in the end. -/
theorem giveAll_named {i : Nat} (h : requests[i]? = some (.named name t)) :
    (a.giveAll requests).1[i]? = (a.giveAll requests).2.slotOf? name := by
  induction requests generalizing a i with
  | nil => cases h
  | cons request rest ih =>
    cases i with
    | zero =>
      cases h
      exact (slotOf?_giveAll rest (a.slotOf?_namedLocal name t)).symm
    | succ i => exact ih h

/-! ## Slots -/

theorem give_new (hnew : a.knows request = false)
    (hfits : a.nextSlot.toNat + request.words ≤ 65535) :
    (a.give request).1 = a.nextSlot ∧
      (a.give request).2.nextSlot.toNat = a.nextSlot.toNat + request.words ∧
      (a.give request).2.maxLocals = max a.maxLocals (a.give request).2.nextSlot := by
  have hallocate : ∀ t : Ty, a.nextSlot.toNat + t.words ≤ 65535 →
      (a.allocate t).2.nextSlot.toNat = a.nextSlot.toNat + t.words := by
    intro t hfits
    have hwords : (if t.isWide then 2 else 1 : UInt16).toNat = t.words := by
      unfold Ty.words
      split <;> rfl
    show (a.nextSlot + if t.isWide then 2 else 1).toNat = _
    rw [UInt16.toNat_add, hwords, Nat.mod_eq_of_lt (Nat.lt_succ_of_le hfits)]
  cases request with
  | temporary t => exact ⟨rfl, hallocate t hfits, rfl⟩
  | named name t =>
    have hnone : a.slotOf? name = none := by simpa [knows] using hnew
    rw [give, namedLocal_of_none hnone]
    exact ⟨rfl, hallocate t hfits, rfl⟩

theorem give_known (hknown : a.knows request = true) : (a.give request).2 = a := by
  cases request with
  | temporary t => cases hknown
  | named name t =>
    obtain ⟨slot, hslot⟩ := Option.isSome_iff_exists.1 hknown
    rw [give, namedLocal_of_some hslot]

theorem grants_new (hnew : a.knows request = false) (rest : List LocalRequest) :
    a.grants (request :: rest) =
      ((a.give request).1.toNat, request.words) :: (a.give request).2.grants rest := by
  rw [grants, hnew]
  rfl

theorem le_max (x y : UInt16) : x.toNat ≤ (max x y).toNat ∧ y.toNat ≤ (max x y).toNat := by
  show x.toNat ≤ (if x ≤ y then y else x).toNat ∧ y.toNat ≤ (if x ≤ y then y else x).toNat
  split
  · exact ⟨UInt16.le_iff_toNat_le.1 ‹_›, le_refl _⟩
  · exact ⟨le_refl _, UInt16.le_iff_toNat_le.1 ((UInt16.le_total x y).resolve_left ‹_›)⟩

/-- New locals come one after the other, and the frame has room for all of them. -/
theorem grants_apart (hle : a.nextSlot.toNat ≤ a.maxLocals.toNat)
    (hfits : a.nextSlot.toNat + ((a.grants requests).map (·.2)).sum ≤ 65535) :
    a.maxLocals.toNat ≤ (a.giveAll requests).2.maxLocals.toNat ∧
      (a.grants requests).Pairwise (fun g h => g.1 + g.2 ≤ h.1) ∧
      ∀ g ∈ a.grants requests, a.nextSlot.toNat ≤ g.1 ∧
        g.1 + g.2 ≤ (a.giveAll requests).2.maxLocals.toNat := by
  induction requests generalizing a with
  | nil => exact ⟨le_refl _, .nil, nofun⟩
  | cons request rest ih =>
    rw [giveAll]
    cases hknows : a.knows request with
    | true =>
      rw [grants, hknows, give_known hknows] at hfits ⊢
      exact ih hle hfits
    | false =>
      rw [grants_new hknows] at hfits ⊢
      rw [List.map_cons, List.sum_cons] at hfits
      obtain ⟨hslot, hnext, hmax⟩ := give_new hknows (by omega)
      have hroom := le_max a.maxLocals (a.give request).2.nextSlot
      rw [← hmax] at hroom
      obtain ⟨hgrows, hpairs, hall⟩ := ih hroom.2 (by omega)
      refine ⟨hroom.1.trans hgrows, .cons (fun g hg => ?_) hpairs, fun g hg => ?_⟩
      · rw [hslot, ← hnext]
        exact (hall g hg).1
      · rcases List.mem_cons.1 hg with rfl | hg
        · rw [hslot, ← hnext]
          exact ⟨le_refl _, hroom.2.trans hgrows⟩
        · exact ⟨by have := (hall g hg).1; omega, (hall g hg).2⟩

/-! ## Arguments -/

theorem getElem?_storeArgs {act : Activation} {values : List Value} {slot other : Nat}
    {kept : Value}
    (hlt : other < slot) (hkept : act.locals[other]? = some kept) :
    (act.storeArgs slot values).locals[other]? = some kept := by
  induction values generalizing act slot with
  | nil => exact hkept
  | cons value values ih =>
    exact ih (by omega) (Activation.getElem?_store_of_ne (by omega) hkept)

def paramRequests (params : List (String × Ty)) : List LocalRequest :=
  params.map fun param => .named param.1 param.2

theorem storeArgs_params {params : List (String × Ty)} {values : List Value}
    (hnames : (params.map (·.1)).Nodup) (hnew : ∀ param ∈ params, a.slotOf? param.1 = none)
    (hwide : values.map (·.isWide) = params.map (·.2.isWide))
    (hfits : a.nextSlot.toNat +
      ((a.grants (paramRequests params ++ requests)).map (·.2)).sum ≤ 65535) (act : Activation) :
    List.Forall₂ (fun slot value =>
        (act.storeArgs a.nextSlot.toNat values).locals[slot.toNat]? = some value)
      ((a.giveAll (paramRequests params ++ requests)).1.take params.length) values := by
  induction params generalizing a values act with
  | nil =>
    obtain rfl := List.map_eq_nil_iff.1 hwide
    exact .nil
  | cons param params ih =>
    obtain ⟨value, values, rfl, hvalue, hvalues⟩ := List.map_eq_cons_iff.1 hwide
    obtain ⟨hown, hrest⟩ := List.forall_mem_cons.1 hnew
    obtain ⟨hdistinct, hnames⟩ := List.nodup_cons.1 hnames
    have hunknown : a.knows (.named param.1 param.2) = false := by simp [knows, hown]
    have hwords : value.words = param.2.words := by rw [Value.words, hvalue]; rfl
    rw [paramRequests, List.map_cons, List.cons_append, grants_new hunknown, List.map_cons,
      List.sum_cons] at hfits
    obtain ⟨hslot, hnext, -⟩ := give_new hunknown (by omega)
    have hstill : ∀ other ∈ params,
        (a.give (.named param.1 param.2)).2.slotOf? other.1 = none := by
      intro other hother
      have hne : param.1 ≠ other.1 := fun heq =>
        hdistinct (List.mem_map.2 ⟨other, hother, heq.symm⟩)
      rw [give, slotOf?_namedLocal_of_none hown, hrest other hother, if_neg hne, Option.none_or]
    have htail := ih hnames hstill hvalues (by rw [paramRequests]; omega)
      (act.store a.nextSlot.toNat value)
    rw [hnext, LocalRequest.words, ← hwords] at htail
    refine .cons ?_ htail
    rw [hslot]
    have hbehind : a.nextSlot.toNat < a.nextSlot.toNat + value.words :=
      Nat.lt_add_of_pos_right value.words_pos
    exact (getElem?_storeArgs hbehind (act.getElem?_store a.nextSlot.toNat value) :
      ((act.store _ value).storeArgs _ values).locals[_]? = _)

theorem enter_receiver {isStatic : Bool} {receiver : List Value}
    (h : receiver.map (·.isWide) = if isStatic then [] else [false]) (c : ClassFile)
    (method : MethodInfo) (values : List Value) : ∃ act : Activation,
      Activation.enter c method (receiver ++ values) =
        act.storeArgs (if isStatic then 0 else 1) values ∧
      ∀ value ∈ receiver, isStatic = false ∧ act.locals[0]? = some value := by
  cases isStatic with
  | true =>
    obtain rfl := List.map_eq_nil_iff.1 h
    exact ⟨_, rfl, nofun⟩
  | false =>
    obtain ⟨value, rest, rfl, hvalue, hrest⟩ := List.map_eq_cons_iff.1 h
    obtain rfl := List.map_eq_nil_iff.1 hrest
    have hwords : 0 + value.words = 1 := by rw [Value.words, hvalue]; rfl
    refine ⟨Activation.store _ 0 value, congrArg (Activation.storeArgs _ · values) hwords, ?_⟩
    rintro other hother
    rw [List.mem_singleton.1 hother]
    exact ⟨rfl, Activation.getElem?_store _ 0 value⟩

/-- The locals of a method lie apart, inside its frame and behind the receiver, and
requests for one name give one slot. A call stores the receiver at the first slot and
each argument at the slot of its parameter. -/
theorem locals_apart {name descriptor : String} {access : Access} {params : List (String × Ty)}
    {requests all : List LocalRequest} {body : Assembler}
    (hbody : body = start name descriptor access) (hall : all = paramRequests params ++ requests)
    (hnames : (params.map (·.1)).Nodup)
    (hfits : body.nextSlot.toNat + ((body.grants all).map (·.2)).sum ≤ 65535) :
    ((body.grants all).Pairwise (fun g h => g.1 + g.2 ≤ h.1) ∧ ∀ g ∈ body.grants all,
      (if body.isStatic then 0 else 1) ≤ g.1 ∧ g.1 + g.2 ≤ (body.giveAll all).2.maxLocals.toNat) ∧
    (∀ (i j : Nat) known t t', all[i]? = some (.named known t) → all[j]? = some (.named known t') →
      (body.giveAll all).1[i]? = (body.giveAll all).1[j]?) ∧
    ∀ c method receiver values, receiver.map (·.isWide) = (if body.isStatic then [] else [false]) →
      values.map (·.isWide) = params.map (·.2.isWide) →
      (∀ value ∈ receiver, (Activation.enter c method (receiver ++ values)).locals[0]? =
        some value) ∧
      List.Forall₂ (fun slot value =>
          (Activation.enter c method (receiver ++ values)).locals[slot.toNat]? = some value)
        ((body.giveAll all).1.take params.length) values := by
  subst hbody hall
  have hfirst : (start name descriptor access).nextSlot.toNat =
      if (start name descriptor access).isStatic then 0 else 1 := by
    show (if Access.has access Access.staticFlag then 0 else 1 : UInt16).toNat =
      if Access.has access Access.staticFlag then 0 else 1
    split <;> rfl
  obtain ⟨-, hpairs, hgrants⟩ := grants_apart (le_refl _) hfits
  rw [hfirst] at hgrants
  refine ⟨⟨hpairs, hgrants⟩, fun i j known t t' hi hj => ?_,
    fun c method receiver values hreceiver hwide => ?_⟩
  · rw [giveAll_named hi, giveAll_named hj]
  · have hparams := storeArgs_params hnames (fun _ _ => rfl) hwide hfits
    obtain ⟨act, henter, hheld⟩ := enter_receiver hreceiver c method values
    rw [henter]
    rw [hfirst] at hparams
    refine ⟨fun value hvalue => ?_, hparams act⟩
    obtain ⟨hinstance, hvalue⟩ := hheld value hvalue
    rw [hinstance]
    exact getElem?_storeArgs Nat.zero_lt_one hvalue

def mixedParams : List (String × Ty) := [("x", .prim .long), ("y", .prim .int)]

def mixedRequests : List LocalRequest :=
  paramRequests mixedParams ++
    [.named "z" (.prim .double), .named "x" (.prim .int), .temporary (.prim .int)]

theorem mixedRequests_apart :
    let body := start "f" "(JI)V" Access.publicFlag
    (body.giveAll mixedRequests).1 = [1, 3, 4, 1, 6] ∧
      (body.grants mixedRequests).Pairwise (fun g h => g.1 + g.2 ≤ h.1) ∧
      ∀ c method, List.Forall₂ (fun slot value =>
          (Activation.enter c method [.ref 0, .long 5, .int 7]).locals[slot.toNat]? = some value)
        ((body.giveAll mixedRequests).1.take 2) [.long 5, .int 7] := by
  intro body
  obtain ⟨⟨hapart, -⟩, -, hpassed⟩ := locals_apart (rfl : body = start ..)
    (rfl : mixedRequests = paramRequests mixedParams ++ _) (by decide) (by decide)
  exact ⟨rfl, hapart, fun c method => (hpassed c method [.ref 0] _ (by decide) rfl).2⟩

end Assembler

end ClassBackend
