import ClassBackend.Proofs.Machine.Rendering
import ClassBackend.Proofs.Machine.Truncation

/-!
# Unboxing

A boxed integer can be read back at any integral type. Reading converts between the
two kinds of operands and no further: where a conversion cuts the number down to a
`byte`, a `char` or a `short`, reading gives all of the `int`
(`unboxing_agrees_iff`).
-/

namespace ClassBackend.Primitive

open Machine

variable {p q : Primitive} {n : Int} {v w : Value}

theorem Denotes.unique (hv : p.Denotes n v) (hw : p.Denotes n w) : v = w := by
  cases v with
  | int k =>
    cases w with
    | int j => rw [Int32.toInt_inj.1 (hv.2.trans hw.2.symm)]
    | long j => exact absurd hw.1 hv.1
    | _ => cases hw
  | long k =>
    cases w with
    | int j => exact absurd hv.1 hw.1
    | long j => rw [Int64.toInt_inj.1 (hv.2.trans hw.2.symm)]
    | _ => cases hw
  | _ => cases hv

theorem Denotes.number {k : Int} (hn : p.Denotes n v) (hk : p.Denotes k v) : n = k := by
  cases v with
  | int | long => exact hn.2.symm.trans hk.2
  | _ => cases hn

theorem denotes_stackType (h : p.Denotes n v) : p.stackType.Denotes n v := by
  cases v with
  | int k => exact ⟨by cases p <;> first | decide | exact absurd rfl h.1, h.2⟩
  | long k => exact ⟨by rw [h.1]; rfl, h.2⟩
  | _ => cases h

theorem isIntegral_stackType (hp : p.isIntegral = true) : p.stackType.isIntegral = true := by
  cases p <;> cases hp <;> rfl

theorem bits_le_stackType (p : Primitive) : p.bits ≤ p.stackType.bits := by
  cases p <;> decide

/-- Reading converts to the type that a number has on the operand stack. -/
theorem convert_stackType (hv : q.Denotes n v) (hp : p.isIntegral = true) :
    Machine.convert v p.stackType = .ok (unboxTo (String.singleton p.descriptor) v) := by
  cases v with
  | int | long => cases p <;> cases hp <;> rfl
  | _ => cases hv

/-- The method that reads a box at a type. -/
def valueMethod (p : Primitive) (owner : String) : MemberRef where
  owner
  name := p.name ++ "Value"
  descriptor := "()" ++ String.singleton p.descriptor

section Call

variable (call : MethodCall) (depth : Nat) {m : Machine} {address : Address}
  {className owner : String}

theorem callInstance_valueMethod (h : m.heap[address]? = some (.boxed className v))
    (hfind : m.findMethod? className (p.valueMethod owner).name
      (p.valueMethod owner).descriptor = none) :
    callInstance call (depth + 1) .virtual (p.valueMethod owner) (.ref address) [] m =
      .ok (some (unboxTo (String.singleton p.descriptor) v)) m := by
  have hname : ((p.valueMethod owner).name == "<init>") = false := by
    cases p <;> rfl
  have hends : (p.valueMethod owner).name.endsWith "Value" = true := by
    show (p.name ++ "Value").endsWith "Value" = true
    cases p <;> decide +kernel
  have hresult : resultDescriptor (p.valueMethod owner).descriptor =
      .ok (String.singleton p.descriptor) := by
    show resultDescriptor ("()" ++ String.singleton p.descriptor) = _
    cases p <;> rfl
  have hown : ∀ virtual depth, callOwn virtual depth address (.boxed className v)
      (p.valueMethod owner).name (p.valueMethod owner).descriptor [] m =
        .ok (some (some (unboxTo (String.singleton p.descriptor) v))) m := by
    intro virtual depth
    rw [callOwn, hends, hresult]
    rfl
  rw [callInstance_unanswered h hfind, callLibrary, hname]
  exact Run.then_ok (Run.object_ok h) (Run.then_ok (hown _ _) rfl)

/-- A box of a number gives it back at any integral type, with the low bits that an
operand of the type has. A conversion of the number keeps the low bits of the type
itself, and so does a conversion of what the box gave. So the two agree exactly if
the number, as an operand, is one of the type. -/
theorem unboxing_agrees_iff (hp : p.isIntegral = true) (hv : q.Denotes n v)
    (h : m.heap[address]? = some (.boxed className v))
    (hfind : m.findMethod? className (p.valueMethod owner).name
      (p.valueMethod owner).descriptor = none) :
    ∃ read converted,
      callInstance call (depth + 1) .virtual (p.valueMethod owner) (.ref address) [] m =
        .ok (some read) m ∧
      Machine.convert v p = .ok converted ∧ Machine.convert read p = .ok converted ∧
      p.stackType.Denotes (p.stackType.truncate n) read ∧
      p.Denotes (p.truncate n) converted ∧
      (read = converted ↔ p.InRange (p.stackType.truncate n)) := by
  obtain ⟨converted, hconverted, hdenotes⟩ := convert_of_denotes hv hp
  obtain ⟨read, hread, hstack⟩ := convert_of_denotes hv (isIntegral_stackType hp)
  obtain rfl := Except.ok.inj ((convert_stackType hv hp).symm.trans hread)
  obtain ⟨again, hagain, hnarrowed⟩ := convert_of_denotes hstack hp
  rw [truncate_truncate (bits_le_stackType p)] at hnarrowed
  obtain rfl := hnarrowed.unique hdenotes
  refine ⟨_, again, callInstance_valueMethod call depth h hfind, hconverted, hagain,
    hstack, hdenotes,
    fun hsame => ?_, fun hrange => ?_⟩
  · have hnumber := (hsame ▸ hstack).number (denotes_stackType hdenotes)
    rw [hnumber]
    exact inRange_truncate p n
  · have hnumber := hrange.eq_truncate rfl
    rw [truncate_truncate (bits_le_stackType p)] at hnumber
    exact hstack.unique (hnumber ▸ denotes_stackType hdenotes)

end Call

/-- A box with a number that is no `byte`. -/
def boxedDemo : Machine := { heap := #[.boxed "java/lang/Integer" (.int 511)] }

theorem boxedDemo_box :
    boxedDemo.heap[(0 : Address)]? = some (.boxed "java/lang/Integer" (.int 511)) ∧
    boxedDemo.findMethod? "java/lang/Integer" (byte.valueMethod "java/lang/Integer").name
      (byte.valueMethod "java/lang/Integer").descriptor = none :=
  ⟨rfl, rfl⟩

theorem boxedDemo_byteValue :
    callInstance (callMethod 1 1) 1 .virtual (byte.valueMethod "java/lang/Integer") (.ref 0) []
      boxedDemo = .ok (some (.int 511)) boxedDemo ∧
    Machine.convert (.int 511) byte = .ok (.int (-1)) :=
  ⟨callInstance_valueMethod (callMethod 1 1) 0 boxedDemo_box.1 boxedDemo_box.2, rfl⟩

theorem boxedDemo_differs : int.Denotes 511 (.int 511) ∧ ∃ read converted,
    callInstance (callMethod 1 1) 1 .virtual (byte.valueMethod "java/lang/Integer") (.ref 0) []
      boxedDemo = .ok (some read) boxedDemo ∧
    Machine.convert (.int 511) byte = .ok converted ∧ read ≠ converted := by
  have hv : int.Denotes 511 (.int 511) := ⟨nofun, rfl⟩
  obtain ⟨read, converted, hread, hconverted, -, -, -, hagrees⟩ :=
    unboxing_agrees_iff (callMethod 1 1) 0 rfl hv boxedDemo_box.1 boxedDemo_box.2
  exact ⟨hv, read, converted, hread, hconverted, fun hsame => absurd (hagrees.1 hsame) (by decide)⟩

end ClassBackend.Primitive
