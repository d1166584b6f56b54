import ClassBackend.Machine.Descriptor

/-!
# Splitting descriptors

A descriptor is split into parameters without losing any of its text, or it is reported
as malformed. The exception is a character of several bytes where a parameter of one
character stands: the parameter is cut off behind its first byte, and the machine breaks
down (`paramDescriptors_lossless`).
-/

namespace ClassBackend.Machine

/-- A run of `[`, and either a character or `L` and everything up to the next `;`. -/
inductive IsParam : List Char → Prop
  | plain (n : Nat) {c : Char} : c ≠ '[' → c ≠ 'L' → IsParam (.replicate n '[' ++ [c])
  | named (n : Nat) {name : List Char} : ';' ∉ name →
    IsParam (.replicate n '[' ++ 'L' :: (name ++ [';']))

/-- What has been read of a parameter. -/
inductive Begun : Bool → List Char → Prop
  | brackets (n : Nat) : Begun false (.replicate n '[')
  | name (n : Nat) {name : List Char} : ';' ∉ name → Begun true (.replicate n '[' ++ 'L' :: name)

/-- Behind some parameters and a run of `[`, the text goes on with a character of several
bytes. -/
def Breaks (text : List Char) : Prop :=
  ∃ (params : List (List Char)) (n : Nat) (c : Char) (rest : List Char),
    text = params.flatten ++ (.replicate n '[' ++ c :: rest) ∧ (∀ param ∈ params, IsParam param) ∧
      c.utf8Size ≠ 1

/-- What may come of splitting the text of a descriptor. -/
def Splits (descriptor : String) (text : List Char) : Except Error (List String) → Prop
  | .ok params => params.flatMap String.toList = text ∧ ∀ param ∈ params, IsParam param.toList
  | .error error => error = malformed descriptor ∨
    error = .brokenCharacter descriptor ∧ Breaks text

variable {d : String} {inName : Bool} {current param text : List Char}

theorem Splits.cons {result : Except Error (List String)} (hparam : IsParam param)
    (h : Splits d text result) :
    Splits d (param ++ text) (result.map (String.ofList param :: ·)) := by
  cases result with
  | ok params =>
    obtain ⟨htext, hparams⟩ := h
    exact ⟨by simp [htext], by simpa using ⟨hparam, hparams⟩⟩
  | error error =>
    obtain hmalformed | ⟨hbroken, params, n, c, rest, rfl, hparams, hsize⟩ := h
    · exact .inl hmalformed
    · exact .inr ⟨hbroken, param :: params, n, c, rest,
        by simp, by simpa using ⟨hparam, hparams⟩, hsize⟩

theorem splits_splitParams (h : Begun inName current) (text : List Char) :
    Splits d (current ++ text) (splitParams d current inName text) := by
  induction text generalizing current inName with
  | nil =>
    cases h with
    | brackets n =>
      cases n with
      | zero => exact ⟨rfl, nofun⟩
      | succ n => exact .inl rfl
    | name n hname => cases n <;> exact .inl rfl
  | cons c rest ih =>
    have hmore : current ++ c :: rest = current ++ [c] ++ rest := by simp
    cases h with
    | brackets n =>
      rw [splitParams, hmore]
      split
      · rename_i hc
        rw [beq_iff_eq.1 hc, ← List.replicate_succ']
        exact ih (.brackets (n + 1))
      · rename_i hbracket
        split
        · rename_i hc
          rw [beq_iff_eq.1 hc]
          exact ih (.name n (by simp))
        · rename_i hmark
          split
          · exact (ih (.brackets 0)).cons
              (.plain n (by simpa using hbracket) (by simpa using hmark))
          · rename_i hsize
            exact .inr ⟨rfl, [], n, c, rest, by simp, by simp, by simpa using hsize⟩
    | @name n name hname =>
      rw [splitParams, hmore]
      split
      · rename_i hc
        rw [beq_iff_eq.1 hc]
        simpa using (ih (.brackets 0)).cons (.named n hname)
      · rename_i hc
        have hlonger : ';' ∉ name ++ [c] := by simp_all [Ne.symm]
        simpa using ih (.name n hlonger)

theorem eq_of_paramDescriptors {error : Error} (h : paramDescriptors d = .error error) :
    error = malformed d ∨ error = .brokenCharacter d := by
  unfold paramDescriptors at h
  split at h
  · rename_i text _
    have hsplits : Splits d text (.error error) := h ▸ splits_splitParams (.brackets 0) text
    exact hsplits.imp_right And.left
  · exact .inl (Except.error.inj h).symm

theorem paramText?_eq_some (h : paramText? d = some text) :
    ∃ rest, d.toList = '(' :: (text ++ ')' :: rest) ∧ ')' ∉ text := by
  unfold paramText? at h
  split at h
  · rename_i inner hinner
    split at h <;> cases h
    rename_i hclosed
    obtain ⟨text, rest, rfl, hfree⟩ := List.eq_append_cons_of_mem (List.contains_iff_mem.1 hclosed)
    have hkeep : ∀ c ∈ text, (c != ')') = true := fun c hc => bne_iff_ne.2 fun heq =>
      hfree (heq ▸ hc)
    rw [List.takeWhile_append_of_pos hkeep]
    exact ⟨rest, by simpa using hinner, by simpa using hfree⟩
  · cases h

/-- A descriptor is malformed, or the text between its parentheses is put together from
parameters, or the machine breaks down over a character of several bytes in that text. -/
theorem paramDescriptors_lossless (d : String) :
    paramDescriptors d = .error (malformed d) ∨
      ∃ text rest, d.toList = '(' :: (text ++ ')' :: rest) ∧ ')' ∉ text ∧
        ((∃ params, paramDescriptors d = .ok params ∧ params.flatMap String.toList = text ∧
            ∀ param ∈ params, IsParam param.toList) ∨
          paramDescriptors d = .error (.brokenCharacter d) ∧ Breaks text) := by
  cases htext : paramText? d with
  | none => exact .inl (by rw [paramDescriptors, htext])
  | some text =>
    have hd' : paramDescriptors d = splitParams d [] false text := by rw [paramDescriptors, htext]
    rw [hd']
    obtain ⟨rest, hd, hclosed⟩ := paramText?_eq_some htext
    have hsplits : Splits d text (splitParams d [] false text) :=
      splits_splitParams (.brackets 0) text
    cases hresult : splitParams d [] false text with
    | ok params =>
      rw [hresult] at hsplits
      exact .inr ⟨text, rest, hd, hclosed, .inl ⟨params, rfl, hsplits⟩⟩
    | error error =>
      rw [hresult] at hsplits
      obtain rfl | ⟨rfl, hbreaks⟩ := hsplits
      · exact .inl rfl
      · exact .inr ⟨text, rest, hd, hclosed, .inr ⟨rfl, hbreaks⟩⟩

theorem paramDescriptors_accented :
    paramDescriptors "(é)V" = .error (.brokenCharacter "(é)V") := rfl

end ClassBackend.Machine
