import ClassBackend.Proofs.Ty.Formed

/-!
# Changing a registry in place

A definition is several steps: the name is checked, the parents are resolved, the
class is listed, and its parents are recorded. Each of them may be refused, and what
the steps before it have done is then not taken back. `Request.run` takes the steps
one after another on a registry that stays changed.

No step is refused after one that changed anything: behind the listing the only fault
is that the class has its parents already, and then it was listed before
(`run_define`). So a refused request leaves everything as it was, what is recorded
stays, and a type is found again by its name (`requests_atomic`).
-/

namespace ClassBackend

/-! ## Names of arrays -/

namespace Naming

variable {name : List Char}

theorem stripPairs_array (hname : name ≠ []) :
    stripPairs (']' :: '[' :: name) = ((stripPairs name).1 + 1, (stripPairs name).2) := by
  cases name with
  | nil => exact absurd rfl hname
  | cons c rest => rfl

end Naming

namespace Ty

variable {t : Ty}

theorem name_ne_nil (ht : t.isPlain = true) : t.name.toList.reverse ≠ [] := by
  cases t with
  | void => decide
  | prim p => cases p <;> decide
  | object name =>
    intro hnil
    have hname : name = "" := by simpa [Ty.name] using hnil
    subst hname
    exact absurd ht (by decide)
  | array component => simp [Ty.name]
  | _ => cases ht

theorem exists_element (ht : t.isPlain = true) :
    ∃ (element : Ty) (depth : Nat), t = element.arrayOfDepth depth ∧ element.isArray = false ∧
      element.isPlain = true ∧
      Naming.stripPairs t.name.toList.reverse = (depth, element.name.toList.reverse) := by
  have hplain : ∀ t : Ty, t.isPlain = true → t.isArray = false →
      Naming.stripPairs t.name.toList.reverse = (0, t.name.toList.reverse) :=
    fun t ht harray => Naming.stripPairs_of_getLast? fun hlast =>
      notMem_name ht harray (by decide) (by decide) (List.mem_of_getLast? hlast)
  induction t with
  | array component ih =>
    obtain ⟨element, depth, hdepth, harray, helement, hstrip⟩ := ih ht
    refine ⟨element, depth + 1, congrArg array hdepth, harray, helement, ?_⟩
    have hname : component.array.name.toList.reverse =
        ']' :: '[' :: component.name.toList.reverse := by
      simp [Ty.name]
    rw [hname, Naming.stripPairs_array (name_ne_nil (t := component) ht), hstrip]
  | void => exact ⟨.void, 0, rfl, rfl, ht, hplain _ ht rfl⟩
  | prim p => exact ⟨.prim p, 0, rfl, rfl, ht, hplain _ ht rfl⟩
  | object name => exact ⟨.object name, 0, rfl, rfl, ht, hplain _ ht rfl⟩
  | _ => cases ht

end Ty

namespace Registry

variable {name : String} {r : Registry} {t : Ty}

/-! ## Requests -/

/-- A change in place. What was changed before a fault stays changed. -/
abbrev Edit := EStateM Fault Registry

namespace Edit

def attempt {α : Type} : Except Fault α → Edit α
  | .ok a => pure a
  | .error fault => throw fault

/-- List a class unless it is listed. -/
def enroll (name : String) : Edit Unit := do
  if !validName name then throw (.badTypeName name)
  modify fun r => if r.declares name then r else ⟨r.classes ++ [(name, none)]⟩

/-- Record the parents of a listed class that has none. -/
def complete (name : String) (info : ClassInfo) : Edit Unit := do
  if ((← MonadState.get).classInfo? name).isSome then
    throw (.internal ("class " ++ name ++ " defined twice"))
  modify fun r => ⟨setInfo name info r.classes⟩

/-- What a definition does once its parents are resolved. -/
def record (name : String) (info : ClassInfo) : Edit Ty := do
  enroll name
  complete name info
  return .object name

end Edit

inductive Request where
  | change (call : Call)
  | find (name : String)

/-- Carry out a request, step by step. -/
def Request.run : Request → Edit Ty
  | .change (.declare name) => do
    Edit.enroll name
    return .object name
  | .change (.define name superclass interfaces isInterface) => do
    if !validName name then throw (.badTypeName name)
    let parents := (← MonadState.get).resolveParents name superclass interfaces isInterface
    Edit.record name (← Edit.attempt parents)
  | .find name => do Edit.attempt ((← MonadState.get).get name)

/-- The answer to a request, with the registry it leaves. -/
def Request.answer (r : Registry) : Request → Except Fault (Registry × Ty)
  | .change (.declare name) => (r.declare name).map (·, .object name)
  | .change (.define name superclass interfaces isInterface) =>
    r.define name superclass interfaces isInterface
  | .find name => (r.get name).map (r, ·)

/-- The result of an attempt that leaves the registry alone if it fails. -/
def outcome (r : Registry) : Except Fault (Registry × Ty) → EStateM.Result Fault Registry Ty
  | .ok (s, t) => .ok t s
  | .error fault => .error fault r

theorem enroll_eq (h : validName name = true) (r : Registry) :
    ∃ declared, r.declare name = .ok declared ∧ Edit.enroll name r = .ok () declared ∧
      (r.declares name = true → declared = r) := by
  have hrun : Edit.enroll name r =
      .ok () (if r.declares name then r else ⟨r.classes ++ [(name, none)]⟩) := by
    unfold Edit.enroll
    rw [h]
    rfl
  rw [hrun, declare, h]
  cases r.declares name with
  | false => exact ⟨_, rfl, rfl, nofun⟩
  | true => exact ⟨_, rfl, rfl, fun _ => rfl⟩

theorem run_declare (r : Registry) (name : String) :
    (Request.change (.declare name)).run r =
      r.outcome ((r.declare name).map (·, .object name)) := by
  cases hvalid : validName name with
  | false => simp [Request.run, Edit.enroll, declare, hvalid]; rfl
  | true =>
    obtain ⟨declared, hdeclare, henroll, -⟩ := enroll_eq hvalid r
    rw [hdeclare]
    show EStateM.bind (Edit.enroll name) _ r = _
    rw [EStateM.bind, henroll]
    rfl

/-- A class that is refused because it has parents was listed before. -/
theorem run_define (r : Registry) (name : String) (superclass : Option String)
    (interfaces : List String) (isInterface : Bool) :
    (Request.change (.define name superclass interfaces isInterface)).run r =
      r.outcome (r.define name superclass interfaces isInterface) := by
  cases hvalid : validName name with
  | false => simp [Request.run, define, hvalid]; rfl
  | true =>
    obtain ⟨declared, hdeclare, henroll, hsame⟩ := enroll_eq hvalid r
    obtain ⟨-, -, hrecorded, -⟩ := declare_eq_ok hdeclare
    have hrecord : ∀ info, Edit.record name info r = r.outcome
        (if (declared.classInfo? name).isSome then
          .error (.internal ("class " ++ name ++ " defined twice"))
        else .ok (⟨setInfo name info declared.classes⟩, .object name)) := by
      intro info
      show EStateM.bind (Edit.enroll name) _ r = _
      rw [EStateM.bind, henroll]
      show EStateM.bind (Edit.complete name info) _ declared = _
      unfold Edit.complete
      show EStateM.bind ((if (declared.classInfo? name).isSome then _ else _ : Edit Unit))
        _ declared = _
      cases hinfo : declared.classInfo? name with
      | none => rfl
      | some known =>
        have hlisted := declares_of_classInfo? (hrecorded.symm.trans hinfo)
        rw [hsame hlisted]
        rfl
    have hresolved : (Request.change (.define name superclass interfaces isInterface)).run r =
        (Edit.attempt (r.resolveParents name superclass interfaces isInterface) >>=
          Edit.record name) r := by
      simp only [Request.run, hvalid]
      rfl
    rw [hresolved]
    simp only [define, hvalid, hdeclare]
    cases hinfo : r.resolveParents name superclass interfaces isInterface with
    | error fault => rfl
    | ok info =>
      refine (hrecord info).trans (congrArg r.outcome ?_)
      show _ = if (declared.classInfo? name).isSome then _ else _
      split <;> rfl

theorem run_eq (r : Registry) (request : Request) :
    request.run r = r.outcome (request.answer r) := by
  cases request with
  | change call =>
    cases call with
    | declare name => exact run_declare r name
    | define name superclass interfaces isInterface => exact run_define r ..
  | find name =>
    show Edit.attempt (r.get name) r = r.outcome ((r.get name).map (r, ·))
    cases r.get name <;> rfl

/-! ## Sequences of requests -/

def Request.apply (r : Registry) (request : Request) : Registry :=
  match request.run r with
  | .ok _ s | .error _ s => s

def afterRequests (requests : List Request) : Registry := requests.foldl Request.apply core

theorem apply_change (r : Registry) (call : Call) :
    (Request.change call).apply r = call.apply r := by
  rw [Request.apply, run_eq]
  cases call with
  | declare name =>
    rw [Call.apply, Request.answer]
    cases r.declare name <;> rfl
  | define name superclass interfaces isInterface =>
    rw [Call.apply, Request.answer]
    cases r.define name superclass interfaces isInterface <;> rfl

theorem apply_find (r : Registry) (name : String) : (Request.find name).apply r = r := by
  rw [Request.apply, run_eq, Request.answer]
  cases r.get name <;> rfl

theorem eq_of_run_eq_error {request : Request} {fault : Fault} {s : Registry}
    (h : request.run r = .error fault s) : s = r := by
  rw [run_eq] at h
  cases hanswer : request.answer r with
  | ok result => rw [hanswer] at h; cases h
  | error fault => rw [hanswer] at h; cases h; rfl

theorem afterRequests_formed (requests : List Request) : (afterRequests requests).Formed := by
  have hcalls : ∃ calls, afterRequests requests = after calls := by
    induction requests using List.reverseRecOn with
    | nil => exact ⟨[], rfl⟩
    | append_singleton requests request ih =>
      obtain ⟨calls, hcalls⟩ := ih
      rw [afterRequests, List.foldl_concat, ← afterRequests, hcalls]
      cases request with
      | change call => exact ⟨calls ++ [call], by rw [apply_change, after_concat]⟩
      | find name => exact ⟨calls, apply_find _ name⟩
  obtain ⟨calls, hcalls⟩ := hcalls
  rw [hcalls]
  exact after_formed calls

theorem classInfo?_apply {request : Request} {info : ClassInfo}
    (h : r.classInfo? name = some info) : (request.apply r).classInfo? name = some info := by
  cases request with
  | find other => rwa [apply_find]
  | change call =>
    rw [apply_change]
    cases call with
    | declare other =>
      rw [Call.apply]
      cases hdeclared : r.declare other with
      | error fault => exact h
      | ok declared => exact (classInfo?_of_declare hdeclared name).trans h
    | define other superclass interfaces isInterface =>
      rw [Call.apply]
      cases hdefined : r.define other superclass interfaces isInterface with
      | error fault => exact h
      | ok result =>
        obtain ⟨defined, t⟩ := result
        obtain ⟨-, -, hnone, info, -, hlookup⟩ := define_eq_ok hdefined
        have hother : name ≠ other := by
          rintro rfl
          cases hnone.symm.trans h
        show (defined.classes.lookup name).join = _
        rwa [hlookup, if_neg hother]

theorem classInfo?_foldl {info : ClassInfo} (h : r.classInfo? name = some info)
    (requests : List Request) :
    (requests.foldl Request.apply r).classInfo? name = some info := by
  induction requests generalizing r with
  | nil => exact h
  | cons request requests ih => exact ih (classInfo?_apply h)

/-! ## Looking a type up by its name -/

theorem getPlain_name (ht : t.isPlain = true) (harray : t.isArray = false)
    (hspells : r.spells t = true) : r.getPlain t.name = .ok t := by
  cases t with
  | void => rfl
  | prim p => cases p <;> rfl
  | object name =>
    rw [Ty.isPlain, validName, Bool.and_eq_true, Bool.and_eq_true, bne_iff_ne,
      Option.isNone_iff_eq_none] at ht
    rw [Ty.name, getPlain, if_neg (by simpa using ht.2), ht.1.2]
    exact if_pos hspells
  | array component => cases harray
  | _ => cases ht

theorem spells_arrayOfDepth (depth : Nat) : r.spells (t.arrayOfDepth depth) = r.spells t := by
  induction depth with
  | zero => rfl
  | succ depth ih => exact ih

theorem Formed.get_name (hr : r.Formed) (h : r.spells t = true) : r.get t.name = .ok t := by
  obtain ⟨element, depth, rfl, harray, hplain, hstrip⟩ :=
    Ty.exists_element (hr.isPlain_of_spells h)
  have helement : r.getPlain element.name = .ok element :=
    getPlain_name hplain harray (by rwa [spells_arrayOfDepth] at h)
  rw [get, Naming.arraySuffix?, hstrip]
  cases depth with
  | zero => exact helement
  | succ depth =>
    have hline : '\n' ∉ element.name.toList :=
      Ty.notMem_name hplain harray (by decide) (by decide)
    simp [hline, helement, Except.map]

/-- However a registry has come about, a request that is refused leaves it as it
was, recorded parents stay whatever is requested after, and a type is found by its
name without a change. -/
theorem requests_atomic (requests : List Request) :
    (∀ request fault s, Request.run request (afterRequests requests) = .error fault s →
      s = afterRequests requests) ∧
    (∀ name info more, (afterRequests requests).classInfo? name = some info →
      (afterRequests (requests ++ more)).classInfo? name = some info) ∧
    ∀ t, (afterRequests requests).spells t = true →
      (Request.find t.name).run (afterRequests requests) = .ok t (afterRequests requests) := by
  refine ⟨fun request fault s => eq_of_run_eq_error, fun name info more hinfo => ?_,
    fun t ht => ?_⟩
  · rw [afterRequests, List.foldl_append]
    exact classInfo?_foldl hinfo more
  · rw [run_eq, Request.answer, (afterRequests_formed requests).get_name ht]
    rfl

end Registry

end ClassBackend
