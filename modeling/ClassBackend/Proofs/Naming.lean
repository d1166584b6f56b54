import Mathlib
import ClassBackend.Ty.Registry

/-!
# Names of script classes

Whatever a script file is called, its class gets a capitalised name: a capital
letter, then letters and digits (`isCapitalised_scriptClass`). A class may have
any such name, and capitalised names are just those that naming leaves alone.
-/

namespace ClassBackend.Naming

variable {c first : Char} {cs rest : List Char} {name : String}

/-! ## Capital letters -/

theorem isAlphanum_of_isUpper (h : c.isUpper = true) : c.isAlphanum = true := by
  simp [Char.isAlphanum, Char.isAlpha, h]

theorem isDigit_of_isUpper (h : c.isUpper = true) : c.isDigit = false := by
  simp [Char.isUpper, Char.isDigit, UInt32.le_iff_toNat_le] at h ⊢
  omega

theorem isUpper_or_isDigit_toUpper (h : c.isAlphanum = true) :
    c.toUpper.isUpper = true ∨ c.toUpper.isDigit = true := by
  by_cases halpha : c.isAlpha = true
  · exact .inl (c.isUpper_toUpper_eq_isAlpha.trans halpha)
  · have hlower : ¬c.isLower = true := fun hlower => halpha (by simp [Char.isAlpha, hlower])
    rw [Char.toUpper_eq_of_not_isLower hlower]
    exact .inr ((Bool.or_eq_true_iff.1 h).resolve_left halpha)

/-! ## Capitalised names -/

/-- A capital letter, then letters and digits. -/
def isCapitalised : List Char → Bool
  | [] => false
  | first :: rest => first.isUpper && rest.all Char.isAlphanum

theorem isCapitalised_cons : isCapitalised (first :: rest) = true ↔
    first.isUpper = true ∧ ∀ c ∈ rest, c.isAlphanum = true := by
  rw [isCapitalised, Bool.and_eq_true, List.all_eq_true]

theorem exists_of_isCapitalised (h : isCapitalised cs = true) : ∃ first rest,
    cs = first :: rest ∧ first.isUpper = true ∧ ∀ c ∈ rest, c.isAlphanum = true := by
  cases cs with
  | nil => cases h
  | cons first rest => exact ⟨first, rest, rfl, isCapitalised_cons.1 h⟩

theorem isAlphanum_of_isCapitalised (h : isCapitalised cs = true) :
    ∀ c ∈ cs, c.isAlphanum = true := by
  obtain ⟨first, rest, rfl, hfirst, hrest⟩ := exists_of_isCapitalised h
  exact List.forall_mem_cons.2 ⟨isAlphanum_of_isUpper hfirst, hrest⟩

theorem isDotted_of_isAlphanum (h : ∀ c ∈ cs, c.isAlphanum = true) : isDotted false cs = true := by
  induction cs with
  | nil => rfl
  | cons c rest ih =>
    obtain ⟨hc, hrest⟩ := List.forall_mem_cons.1 h
    have hdot : ¬(c == '.') = true := by
      intro hdot
      rw [beq_iff_eq.1 hdot] at hc
      cases hc
    rw [isDotted, if_neg hdot, ih hrest, Bool.and_true]
    rcases Bool.or_eq_true_iff.1 hc with halpha | hdigit
    · simp [isIdentRest, isIdentStart, halpha]
    · simp [isIdentRest, hdigit]

/-- A class may have any capitalised name: the reserved names start with a small
letter. -/
theorem validName_of_isCapitalised (h : isCapitalised name.toList = true) :
    Registry.validName name = true := by
  have hqualified : isQualified name = true := by
    obtain ⟨first, rest, hname, hfirst, hrest⟩ := exists_of_isCapitalised h
    rw [isQualified, hname, isDotted, isDotted_of_isAlphanum hrest]
    simp [isIdentStart, Char.isAlpha, hfirst]
  have hreserved : ∀ word ∈ "void" :: Primitive.all.map Primitive.name,
      isCapitalised word.toList = false := by decide
  have hne : ∀ word ∈ "void" :: Primitive.all.map Primitive.name, word ≠ name := by
    intro word hword heq
    exact absurd (heq ▸ h) (Bool.eq_false_iff.1 (hreserved word hword))
  obtain ⟨hvoid, hprimitive⟩ := List.forall_mem_cons.1 hne
  have hnone : Primitive.ofName? name = none := by
    refine List.find?_eq_none.2 fun p hp heq => ?_
    exact hprimitive p.name (List.mem_map_of_mem hp) (beq_iff_eq.1 heq)
  rw [Registry.validName, hqualified, hnone, bne_iff_ne.2 hvoid.symm]
  rfl

/-! ## The name of a script -/

theorem isAlphanum_of_mem_camelWords {atStart : Bool} :
    ∀ c ∈ camelWords atStart cs, c.isAlphanum = true := by
  induction cs generalizing atStart with
  | nil => exact fun c hc => by cases hc
  | cons first rest ih =>
    unfold camelWords
    split
    · rename_i hfirst
      refine List.forall_mem_cons.2 ⟨?_, ih⟩
      cases atStart with
      | false => exact hfirst
      | true =>
        rcases isUpper_or_isDigit_toUpper hfirst with hupper | hdigit
        · exact isAlphanum_of_isUpper hupper
        · exact Bool.or_eq_true_iff.2 (.inr hdigit)
    · exact ih

theorem isUpper_or_isDigit_of_camelWords (h : camelWords true cs = first :: rest) :
    first.isUpper = true ∨ first.isDigit = true := by
  induction cs with
  | nil => cases h
  | cons next later ih =>
    unfold camelWords at h
    split at h
    · rename_i hnext
      cases h
      exact isUpper_or_isDigit_toUpper hnext
    · exact ih h

theorem isCapitalised_scriptClass (file : String) :
    isCapitalised (scriptClass file).toList = true := by
  unfold scriptClass
  cases hwords : camelWords true (stem (lastSegment file.toList)) with
  | nil => decide
  | cons first rest =>
    have hchars : ∀ c ∈ first :: rest, c.isAlphanum = true :=
      hwords ▸ isAlphanum_of_mem_camelWords
    dsimp only
    split
    · -- a digit comes first: the name starts with the `S` of `Script` instead
      rw [String.toList_append, String.toList_ofList (l := first :: rest)]
      simpa [isCapitalised] using List.forall_mem_cons.1 hchars
    · rename_i hdigit
      rw [String.toList_ofList]
      exact isCapitalised_cons.2 ⟨(isUpper_or_isDigit_of_camelWords hwords).resolve_right hdigit,
        (List.forall_mem_cons.1 hchars).2⟩

theorem isAlphanum_of_mem_scriptClass {file : String} (h : c ∈ (scriptClass file).toList) :
    c.isAlphanum = true :=
  isAlphanum_of_isCapitalised (isCapitalised_scriptClass file) c h

/-! ## Names that are left alone -/

theorem lastSegment_of_isAlphanum (h : ∀ c ∈ cs, c.isAlphanum = true) : lastSegment cs = cs := by
  have hkept : ∀ c ∈ cs.reverse, (c != '/' && c != '\\') = true := by
    intro c hc
    have hname := h c (List.mem_reverse.1 hc)
    simp only [Bool.and_eq_true, bne_iff_ne]
    constructor <;> rintro rfl <;> cases hname
  rw [lastSegment, List.takeWhile_eq_self_iff.2 hkept, List.reverse_reverse]

theorem stem_of_isAlphanum (h : ∀ c ∈ cs, c.isAlphanum = true) : stem cs = cs := by
  have hnone : cs.reverse.dropWhile (· != '.') = [] := by
    refine List.dropWhile_eq_nil_iff.2 fun c hc => bne_iff_ne.2 ?_
    have hname := h c (List.mem_reverse.1 hc)
    rintro rfl
    cases hname
  rw [stem, hnone]

theorem camelWords_of_isAlphanum (h : ∀ c ∈ cs, c.isAlphanum = true) :
    camelWords false cs = cs := by
  induction cs with
  | nil => rfl
  | cons c rest ih =>
    obtain ⟨hc, hrest⟩ := List.forall_mem_cons.1 h
    rw [camelWords, if_pos hc, ih hrest]
    rfl

theorem scriptClass_of_isCapitalised (h : isCapitalised name.toList = true) :
    scriptClass name = name := by
  have hchars := isAlphanum_of_isCapitalised h
  obtain ⟨first, rest, hname, hfirst, hrest⟩ := exists_of_isCapitalised h
  have hwords : camelWords true name.toList = first :: rest := by
    have hupper : first.toUpper = first :=
      Char.toUpper_eq_of_not_isLower (Char.not_isLower_of_isUpper hfirst)
    rw [hname, camelWords, if_pos (isAlphanum_of_isUpper hfirst), if_pos rfl, hupper,
      camelWords_of_isAlphanum hrest]
  rw [scriptClass, lastSegment_of_isAlphanum hchars, stem_of_isAlphanum hchars, hwords]
  simp only [isDigit_of_isUpper hfirst, Bool.false_eq_true, if_false]
  rw [← hname, String.ofList_toList]

/-- The class of a script always has a name of letters and digits that starts with
a letter and that a class may have. A script file of that name gets it again;
the names that stay as they are this way are the capitalised ones. -/
theorem scriptClass_wellFormed (file : String) :
    scriptClass file ≠ "" ∧ (scriptClass file).toList.all Char.isAlphanum = true ∧
      (scriptClass file).toList.head?.any Char.isAlpha = true ∧
      Registry.validName (scriptClass file) = true ∧
      scriptClass (scriptClass file) = scriptClass file ∧
      (scriptClass file = file ↔ isCapitalised file.toList = true) := by
  have h := isCapitalised_scriptClass file
  obtain ⟨first, rest, hname, hfirst, -⟩ := exists_of_isCapitalised h
  refine ⟨?_, List.all_eq_true.2 (isAlphanum_of_isCapitalised h), ?_,
    validName_of_isCapitalised h, scriptClass_of_isCapitalised h, ?_⟩
  · intro hempty
    rw [hempty] at hname
    cases hname
  · rw [hname]
    simp [Char.isAlpha, hfirst]
  · exact ⟨fun heq => heq ▸ h, scriptClass_of_isCapitalised⟩

example : scriptClass "src/9-lives.tar.gz" = "Script9LivesTar" := by decide

end ClassBackend.Naming
