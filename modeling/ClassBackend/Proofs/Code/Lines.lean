import Mathlib.Data.List.TakeWhile
import ClassBackend.Code.Assembler

/-!
# The line table

A line is recorded only where it changes, and a line without instructions gives way to
the next. The table still tells the line of every instruction: the one that was named
last when the instruction was emitted (`Assembler.told_eq_linesNamed`).
-/

namespace ClassBackend.Assembler

/-- A call that adds to a body, or to what is checked when it is finished. -/
inductive Call where
  | emit (instruction : Instruction)
  | line (number : Nat)
  | label
  | place (label : Label)
  | protect (region : Region)

def call (a : Assembler) : Call → Assembler
  | .emit instruction => a.emit instruction
  | .line number => a.line number
  | .label => a.label.2
  | .place label => a.place label
  | .protect region => a.protect region

/-- The line named last when each instruction is emitted, given the one named before. -/
def linesNamed (named : Option Nat) : List Call → List (Option Nat)
  | [] => []
  | .emit _ :: rest => named :: linesNamed named rest
  | .line number :: rest => linesNamed (some number) rest
  | _ :: rest => linesNamed named rest

def lineIn (lines : List (Nat × Nat)) (index : Nat) : Option Nat :=
  (lines.takeWhile fun entry => decide (entry.1 ≤ index)).getLast?.map (·.2)

/-- What the table of a body tells of its instructions. -/
def told (a : Assembler) : List (Option Nat) := (List.range a.offset).map (lineIn a.lines)

def latest (a : Assembler) : Option Nat := a.lines.getLast?.map (·.2)

structure Ordered (a : Assembler) : Prop where
  increasing : (a.lines.map Prod.fst).Pairwise (· < ·)
  bounded : ∀ entry ∈ a.lines, entry.1 ≤ a.offset

variable {a : Assembler} {index next : Nat}

theorem lineIn_append (h : index < next) (lines : List (Nat × Nat)) (number : Nat) :
    lineIn (lines ++ [(next, number)]) index = lineIn lines index := by
  have hskip : [(next, number)].takeWhile (fun entry => decide (entry.1 ≤ index)) = [] := by
    simp [h]
  rw [lineIn, List.takeWhile_append, hskip, List.append_nil, lineIn]
  split
  case isTrue hlength => rw [(List.takeWhile_prefix _).eq_of_length hlength]
  case isFalse => rfl

theorem Ordered.lineIn_offset (h : a.Ordered) : lineIn a.lines a.offset = a.latest := by
  have hall : a.lines.takeWhile (fun entry => decide (entry.1 ≤ a.offset)) = a.lines :=
    List.takeWhile_eq_self_iff.2 fun entry hentry => by simpa using h.bounded entry hentry
  rw [lineIn, hall, latest]

/-- Naming a line leaves the table as it is, or gives the next instruction an entry behind
all those of the instructions so far. -/
theorem Ordered.lines_line (h : a.Ordered) (number : Nat) :
    a.line number = a ∧ a.latest = some number ∨
      ∃ early, a.line number = { a with lines := early ++ [(a.offset, number)] } ∧
        (∀ entry ∈ early, entry.1 < a.offset) ∧
        (a.lines = early ∨ ∃ old, a.lines = early ++ [(a.offset, old)]) := by
  rcases hlast : a.lines.getLast? with _ | ⟨start, last⟩
  · have hnone := List.getLast?_eq_none_iff.1 hlast
    exact .inr ⟨[], by simp [line, hlast, offset], nofun, .inl hnone⟩
  · obtain ⟨early, hlines⟩ := List.getLast?_eq_some_iff.1 hlast
    obtain ⟨hincreasing, hbounded⟩ := h
    rw [hlines, List.map_append, List.pairwise_append] at hincreasing
    have hearly : ∀ entry ∈ early, entry.1 < start := fun entry hentry =>
      hincreasing.2.2 _ (List.mem_map_of_mem hentry) _ (by simp)
    have hstart : start ≤ a.offset := hbounded (start, last) (by simp [hlines])
    by_cases hsame : last = number
    · exact .inl ⟨by simp [line, hlast, hsame], by simp [latest, hlast, hsame]⟩
    by_cases hfresh : start = a.offset
    · subst hfresh
      exact .inr ⟨early, by simp [line, hlines, hsame, offset], hearly, .inr ⟨last, hlines⟩⟩
    · have hline : a.line number = { a with lines := a.lines ++ [(a.offset, number)] } := by
        simp [line, hlast, hsame, show start ≠ a.code.size from hfresh, offset]
      refine .inr ⟨a.lines, hline, fun entry hentry => ?_, .inl rfl⟩
      rw [hlines] at hentry
      rcases List.mem_append.1 hentry with hentry | hentry
      · exact (hearly entry hentry).trans_le hstart
      · rw [List.mem_singleton.1 hentry]
        exact hstart.lt_of_ne hfresh

theorem Ordered.line (h : a.Ordered) (number : Nat) : (a.line number).Ordered ∧
    (a.line number).told = a.told ∧ (a.line number).latest = some number := by
  obtain ⟨hline, hlatest⟩ | ⟨early, hline, hearly, hlines⟩ := h.lines_line number
  · rw [hline]
    exact ⟨h, rfl, hlatest⟩
  · rw [hline]
    refine ⟨⟨?_, fun entry hentry => ?_⟩, ?_, by simp [latest]⟩
    · have hpairs : (early.map Prod.fst).Pairwise (· < ·) := by
        refine h.increasing.sublist (List.Sublist.map _ ?_)
        obtain rfl | ⟨old, hlines⟩ := hlines
        · exact .refl _
        · simp [hlines]
      simpa [List.pairwise_append, hpairs] using fun index line => hearly (index, line)
    · rcases List.mem_append.1 hentry with hentry | hentry
      · exact (hearly entry hentry).le
      · rw [List.mem_singleton.1 hentry]
        rfl
    · refine List.map_congr_left fun index hindex => ?_
      have hbefore : index < a.offset := List.mem_range.1 hindex
      rw [lineIn_append hbefore]
      obtain rfl | ⟨old, hlines⟩ := hlines
      · rfl
      · rw [hlines, lineIn_append hbefore]

/-- The calls add the lines they name to what is told of the instructions. -/
theorem Ordered.calls (h : a.Ordered) (calls : List Call) : (calls.foldl call a).Ordered ∧
    (calls.foldl call a).told = a.told ++ linesNamed a.latest calls := by
  induction calls generalizing a with
  | nil => exact ⟨h, (List.append_nil _).symm⟩
  | cons c rest ih =>
    cases c with
    | emit instruction =>
      have hoffset : (a.emit instruction).offset = a.offset + 1 := Array.size_push ..
      have htold : (a.emit instruction).told = a.told ++ [a.latest] := by
        rw [told, hoffset, List.range_succ, List.map_append, List.map_singleton]
        exact congrArg (a.told ++ [·]) h.lineIn_offset
      have hemit : (a.emit instruction).Ordered :=
        ⟨h.increasing, fun entry hentry => hoffset ▸ Nat.le_succ_of_le (h.bounded entry hentry)⟩
      obtain ⟨hordered, hrest⟩ := ih hemit
      rw [htold, List.append_assoc] at hrest
      exact ⟨hordered, hrest⟩
    | line number =>
      obtain ⟨hline, htold, hlatest⟩ := h.line number
      obtain ⟨hordered, hrest⟩ := ih hline
      rw [htold, hlatest] at hrest
      exact ⟨hordered, hrest⟩
    | _ => exact ih ⟨h.increasing, h.bounded⟩

/-- The line of every instruction is the one that was named last when it was emitted, and
the table is in the order of the instructions. -/
theorem told_eq_linesNamed {name descriptor : String} {access : Access} {calls : List Call}
    {method : MethodInfo} (h : (calls.foldl call (start name descriptor access)).finish =
      .ok method) :
    (List.range method.code.size).map method.lineAt? = linesNamed none calls ∧
      (method.lines.map Prod.fst).Pairwise (· < ·) := by
  have hstart : (start name descriptor access).Ordered := ⟨.nil, nofun⟩
  obtain ⟨hordered, htold⟩ := hstart.calls calls
  generalize calls.foldl call (start name descriptor access) = a at h hordered htold
  simp only [finish, bind, Except.bind] at h
  split at h
  · cases h
  split at h <;> cases h
  exact ⟨htold, hordered.increasing⟩

/-- A line that repeats, and one that has no instructions. -/
def repeatingCalls : List Call :=
  [.line 3, .emit .aconstNull, .line 3, .emit .pop, .line 4, .line 5, .emit (.ret none)]

theorem told_repeatingCalls :
    ∃ method, (repeatingCalls.foldl call (start "run" "()V" Access.staticFlag)).finish
      = .ok method ∧
      method.lines = [(0, 3), (2, 5)] ∧ linesNamed none repeatingCalls = [some 3, some 3, some 5] ∧
      (List.range method.code.size).map method.lineAt? = linesNamed none repeatingCalls :=
  ⟨_, rfl, rfl, rfl, (told_eq_linesNamed rfl).1⟩

end ClassBackend.Assembler
