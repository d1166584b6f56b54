import Mathlib.Algebra.Group.Int.Defs
import ClassBackend.Proofs.Layout.Elements

/-!
# Casts between integers

The cast of an integer keeps its low bits, as many as the target type has, whether
it takes no instruction, one, or two (`Primitive.cast_truncates`). An array of the
target type then stores it as it is.
-/

namespace ClassBackend

open Machine

namespace Primitive

variable {p q : Primitive} {n k : Int} {v : Value}

def isIntegral : Primitive → Bool
  | .byte | .char | .short | .int | .long => true
  | _ => false

def bits : Primitive → Nat
  | .byte => 8
  | .char | .short => 16
  | .int => 32
  | _ => 64

def least : Primitive → Int
  | .char => 0
  | p => -2 ^ (p.bits - 1)

def InRange (p : Primitive) (n : Int) : Prop := p.least ≤ n ∧ n < p.least + 2 ^ p.bits

instance : Decidable (p.InRange n) := inferInstanceAs (Decidable (_ ∧ _))

/-- The operand stands for a number at an integral type. -/
def Denotes (p : Primitive) (n : Int) : Value → Prop
  | .int k => p ≠ .long ∧ k.toInt = n
  | .long k => p = .long ∧ k.toInt = n
  | _ => False

/-- The number of the type that has the same low bits. -/
def truncate (p : Primitive) (n : Int) : Int := (n - p.least) % 2 ^ p.bits + p.least

theorem inRange_truncate (p : Primitive) (n : Int) : p.InRange (p.truncate n) := by
  have hpos : (0 : Int) < 2 ^ p.bits := Int.pow_pos (by decide)
  have hlow := Int.emod_nonneg (n - p.least) (Int.ne_of_gt hpos)
  have hhigh := Int.emod_lt_of_pos (n - p.least) hpos
  exact ⟨by unfold truncate; omega, by unfold truncate; omega⟩

theorem truncate_emod (p : Primitive) (n : Int) :
    p.truncate n % 2 ^ p.bits = n % 2 ^ p.bits := by
  rw [truncate, Int.emod_add_emod, Int.sub_add_cancel]

theorem InRange.eq_truncate (hk : p.InRange k) (h : k % 2 ^ p.bits = n % 2 ^ p.bits) :
    k = p.truncate n := by
  have hsame : (k - p.least) % 2 ^ p.bits = (n - p.least) % 2 ^ p.bits := by
    rw [Int.sub_emod, h, ← Int.sub_emod]
  obtain ⟨hlow, hhigh⟩ := hk
  rw [truncate, ← hsame, Int.emod_eq_of_lt (by omega) (by omega), Int.sub_add_cancel]

theorem truncate_truncate (h : q.bits ≤ p.bits) : q.truncate (p.truncate n) = q.truncate n := by
  refine ((inRange_truncate q n).eq_truncate ?_).symm
  have hdvd : (2 : Int) ^ q.bits ∣ 2 ^ p.bits := by exact_mod_cast Nat.pow_dvd_pow 2 h
  rw [truncate_emod, ← Int.emod_emod_of_dvd n hdvd, ← truncate_emod p n,
    Int.emod_emod_of_dvd _ hdvd]

/-! ## Conversions of operands -/

theorem toInt_toChar (n : Int32) : (toChar n).toInt = n.toInt % 2 ^ 16 := by
  have hbits : (toChar n).toBitVec = (n.toBitVec.setWidth 16).setWidth 32 := rfl
  rw [← Int32.toInt_toBitVec, hbits, BitVec.toInt_setWidth, ← Int32.toInt_toBitVec,
    BitVec.toInt_eq_toNat_bmod n.toBitVec, BitVec.toNat_setWidth, Int.bmod_def, Int.bmod_def]
  omega

theorem denotes_convertInt (hq : q.isIntegral = true) (n : Int32) :
    q.Denotes (q.truncate n.toInt) (convertInt n q) := by
  have hlow := Int32.le_toInt n
  have hhigh := Int32.toInt_lt n
  cases q with
  | byte =>
    have h : (toByte n).toInt = n.toInt.bmod (2 ^ 8) := by simp [toByte]
    exact ⟨nofun, by simp only [h, truncate, least, bits, Int.bmod_def]; omega⟩
  | char => exact ⟨nofun, by simp only [toInt_toChar, truncate, least, bits]; omega⟩
  | short =>
    have h : (toShort n).toInt = n.toInt.bmod (2 ^ 16) := by simp [toShort]
    exact ⟨nofun, by simp only [h, truncate, least, bits, Int.bmod_def]; omega⟩
  | int => exact ⟨nofun, by simp only [truncate, least, bits]; omega⟩
  | long => exact ⟨rfl, by simp only [Int32.toInt_toInt64, truncate, least, bits]; omega⟩
  | _ => cases hq

theorem convert_of_denotes (hv : p.Denotes n v) (hq : q.isIntegral = true) :
    ∃ v', Machine.convert v q = .ok v' ∧ q.Denotes (q.truncate n) v' := by
  cases v with
  | int k =>
    obtain ⟨-, rfl⟩ := hv
    exact ⟨_, rfl, denotes_convertInt hq k⟩
  | long k =>
    obtain ⟨-, rfl⟩ := hv
    have hlow := Int64.le_toInt k
    have hhigh := Int64.toInt_lt k
    have hint : k.toInt32.toInt = int.truncate k.toInt := by
      simp only [Int64.toInt_toInt32, truncate, least, bits, Int.bmod_def]
      omega
    have hnarrow : q.bits ≤ int.bits → q.Denotes (q.truncate k.toInt) (convertInt k.toInt32 q) := by
      intro hbits
      rw [← truncate_truncate hbits, ← hint]
      exact denotes_convertInt hq _
    cases q with
    | long => exact ⟨_, rfl, rfl, by simp only [truncate, least, bits]; omega⟩
    | byte | char | short | int => exact ⟨_, rfl, hnarrow (by decide)⟩
    | _ => cases hq
  | _ => cases hv

theorem narrow_of_denotes (hq : q.isIntegral = true) (hv : q.Denotes n v) (hn : q.InRange n) :
    narrow (.ofPrimitive q) v = v := by
  cases v with
  | int k =>
    obtain ⟨-, rfl⟩ := hv
    have hsame : ∀ k' : Int32, q.Denotes (q.truncate k.toInt) (.int k') →
      Value.int k' = .int k := by
      rintro k' ⟨-, hk'⟩
      rw [← hn.eq_truncate rfl] at hk'
      rw [Int32.toInt_inj.1 hk']
    cases q with
    | byte | char | short => exact hsame _ (denotes_convertInt rfl k)
    | boolean => cases hq
    | _ => rfl
  | _ => cases q <;> rfl

theorem convertCode_eq_nil_iff (hp : p.isIntegral = true) (hq : q.isIntegral = true) :
    p.convertCode q = [] ↔ p = q ∨ q = .int ∧ p ≠ .long := by
  cases p <;> cases hp <;> cases q <;> cases hq <;> decide

/-- A cast that takes instructions goes to the target, maybe by way of `int`. -/
theorem convertCode_cases (hp : p.isIntegral = true) (hq : q.isIntegral = true)
    (h : p.convertCode q ≠ []) : (∃ start, p.convertCode q = [.convert start q]) ∨
      q.bits ≤ int.bits ∧ p.convertCode q = [.convert .long .int, .convert .int q] := by
  cases p <;> cases hp <;> cases q <;> cases hq <;>
    first | exact .inl ⟨_, rfl⟩ | exact .inr ⟨by decide, rfl⟩ | exact absurd rfl h

/-! ## Running a cast -/

section Run

variable {call : MethodCall} {limit : Nat} {a : Activation} {m : Machine} {stack : Stack}

theorem perform_convert (hv : p.Denotes n v) (hq : q.isIntegral = true) (start : Primitive)
    (ha : a.stack = v :: stack) : ∃ v', q.Denotes (q.truncate n) v' ∧
      perform call limit (.convert start q) a m = .ok ((), { a with stack := v' :: stack }) m := by
  obtain ⟨v', hconvert, hv'⟩ := convert_of_denotes hv hq
  exact ⟨v', hv', Act.then_ok (Act.pop_ok ha) (Act.then_ok (Act.attempt_ok hconvert) rfl)⟩

theorem runs_convertCode (hp : p.isIntegral = true) (hq : q.isIntegral = true) (hn : p.InRange n)
    (hv : p.Denotes n v) (ha : a.stack = v :: stack) : ∃ v', q.Denotes (q.truncate n) v' ∧
      Runs call limit (p.convertCode q) a m { a with stack := v' :: stack } m := by
  by_cases hcode : p.convertCode q = []
  · rw [hcode]
    refine ⟨v, ?_, ha ▸ .nil a m⟩
    rcases (convertCode_eq_nil_iff hp hq).1 hcode with rfl | ⟨rfl, hlong⟩
    · rwa [← hn.eq_truncate rfl]
    · cases v with
      | int k =>
        have hrange : int.InRange k.toInt := ⟨Int32.le_toInt k, Int32.toInt_lt k⟩
        exact ⟨nofun, by rw [← hv.2, ← hrange.eq_truncate rfl]⟩
      | long => exact absurd hv.1 hlong
      | _ => cases hv
  · rcases convertCode_cases hp hq hcode with ⟨start, hone⟩ | ⟨hbits, htwo⟩
    · rw [hone]
      obtain ⟨v', hv', hrun⟩ := perform_convert hv hq start ha
      exact ⟨v', hv', .perform hrun rfl rfl (.nil _ _)⟩
    · rw [htwo]
      obtain ⟨w, hw, hfirst⟩ := perform_convert (q := .int) hv rfl .long ha
      obtain ⟨v', hv', hsecond⟩ := perform_convert
        (a := { a with stack := w :: stack }) hw hq .int rfl
      rw [truncate_truncate hbits] at hv'
      exact ⟨v', hv', .perform hfirst rfl rfl (.perform hsecond rfl rfl (.nil _ _))⟩

theorem popInt_ok {i : Int32} (ha : a.stack = .int i :: stack) :
    Act.popInt a m = .ok (i, { a with stack }) m :=
  Act.then_ok (Act.pop_ok ha) (Act.attempt_ok rfl)

theorem arrayItems_ok {address : Address} {component : String} {items : Array Value}
    (h : m.heap[address]? = some (.array component items)) :
    (liftM (arrayItems address) : Act _) a m = .ok ((component, items), a) m :=
  Act.lift_eq_ok.2 ⟨Run.then_ok (Run.object_ok h) rfl, rfl⟩

theorem runs_store_load (hq : q.isIntegral = true) (hv : q.Denotes n v) (hn : q.InRange n)
    {address : Address} {component : String} {items : Array Value} {i : Int32}
    (harray : m.heap[address]? = some (.array component items)) (hi : 0 ≤ i)
    (hlt : i.toNatClampNeg < items.size) :
    ∃ m', Runs call limit [.arrayStore (.ofPrimitive q)]
        { a with stack := v :: .int i :: .ref address :: stack } m { a with stack } m' ∧
      Runs call limit [.arrayLoad (.ofPrimitive q)]
        { a with stack := .int i :: .ref address :: stack } m'
        { a with stack := v :: stack } m' := by
  have hitem : ∀ (items : Array Value) (v : Value), items[i.toNatClampNeg]? = some v →
      itemAt? items i = some v := fun items v h => (if_neg (Int32.not_lt.2 hi)).trans h
  let stored := items.setIfInBounds i.toNatClampNeg v
  refine ⟨{ m with heap := m.heap.setIfInBounds address (.array component stored) },
    .perform ?_ rfl rfl (.nil _ _), .perform ?_ rfl rfl (.nil _ _)⟩
  · refine Act.then_ok (Act.pop_ok rfl) (Act.then_ok (popInt_ok rfl)
      (Act.then_ok (Act.popObject_ok rfl) (Act.then_ok (arrayItems_ok harray) ?_)))
    simp only [hitem items _ (Array.getElem?_eq_getElem hlt), narrow_of_denotes hq hv hn]
    rfl
  · have hbound : address < m.heap.size := (Array.getElem?_eq_some_iff.1 harray).1
    refine Act.then_ok (popInt_ok rfl) (Act.then_ok (Act.popObject_ok rfl)
      (Act.then_ok (arrayItems_ok (Array.getElem?_setIfInBounds_self_of_lt hbound)) ?_))
    simp only [hitem stored v (Array.getElem?_setIfInBounds_self_of_lt hlt)]
    rfl

end Run

/-- The cast of a number gives the one number of the target type that agrees with it
in as many low bits as the target has. No code is needed exactly if the types are the
same, or the target is `int` and the source is narrower. An array of the target type
gives the result back as it was stored. -/
theorem cast_truncates (hp : p.isIntegral = true) (hq : q.isIntegral = true) :
    (p.convertCode q = [] ↔ p = q ∨ q = .int ∧ p ≠ .long) ∧
    ∀ n v, p.InRange n → p.Denotes n v → ∀ call limit a m stack, a.stack = v :: stack →
      ∃ k v', Runs call limit (p.convertCode q) a m { a with stack := v' :: stack } m ∧
        q.Denotes k v' ∧ (∀ j, q.InRange j ∧ j % 2 ^ q.bits = n % 2 ^ q.bits ↔ j = k) ∧
        ∀ address component items (i : Int32), m.heap[address]? = some (.array component items) →
          0 ≤ i → i.toNatClampNeg < items.size → ∃ m',
            Runs call limit [.arrayStore (.ofPrimitive q)]
              { a with stack := v' :: .int i :: .ref address :: stack } m { a with stack } m' ∧
            Runs call limit [.arrayLoad (.ofPrimitive q)]
              { a with stack := .int i :: .ref address :: stack } m'
              { a with stack := v' :: stack } m' := by
  refine ⟨convertCode_eq_nil_iff hp hq, fun n v hn hv call limit a m stack ha => ?_⟩
  obtain ⟨v', hv', hrun⟩ := runs_convertCode hp hq hn hv ha
  have hrange := inRange_truncate q n
  refine ⟨_, v', hrun, hv', fun j => ⟨fun h => h.1.eq_truncate h.2, ?_⟩,
    fun address component items i harray hi hlt => runs_store_load hq hv' hrange harray hi hlt⟩
  rintro rfl
  exact ⟨hrange, truncate_emod q n⟩

/-- The number 511 has the low byte of -1. -/
theorem long_byte_truncates :
    (long.InRange 511 ∧ long.Denotes 511 (.long 511) ∧ long.convertCode byte ≠ []) ∧
    ∃ k v', Runs (callMethod 1 1) 1 (long.convertCode byte)
      { method := "", stack := [.long 511] } {} { method := "", stack := [v'] } {} ∧
      byte.Denotes k v' ∧ byte.InRange k ∧ k % 2 ^ 8 = 511 % 2 ^ 8 := by
  have hn : long.InRange 511 := by decide
  have hv : long.Denotes 511 (.long 511) := ⟨rfl, rfl⟩
  obtain ⟨-, htruncates⟩ := cast_truncates (p := .long) (q := .byte) rfl rfl
  obtain ⟨k, v', hrun, hv', hk, -⟩ := htruncates 511 (.long 511) hn hv (callMethod 1 1) 1
    { method := "", stack := [.long 511] } {} [] rfl
  exact ⟨⟨hn, hv, by decide⟩, k, v', hrun, hv', (hk k).2 rfl⟩

/-- A `byte` becomes a `short` without narrowing, and is an `int` on the stack before
and after, but the cast has an instruction. -/
theorem byte_short_emits : byte.widensTo short = true ∧ byte.stackType = short.stackType ∧
    byte.convertCode short = [.convert .int .short] :=
  ⟨rfl, rfl, rfl⟩

end Primitive

end ClassBackend
