import ClassBackend.Emit.Script
import ClassBackend.Machine.Run
import ClassBackend.Member.Library
import ClassBackend.Tree.Builder

/-!
# Compiled units on a machine

A program is built, compiled, and the classes it comes to are loaded into an
empty machine.
-/

namespace ClassBackend

variable {entry : String × ClassFile}

/-- The program of a tree that is built from nothing, with the library members
and the default settings. -/
def Program.ofBuild (build : Build Node) : Program :=
  let (script, built) := build.run {}
  { registry := built.registry, types := built.types, members := Library.table
    settings := {}, file := "demo.mirah", script }

def CompiledUnit.machine (compiled : CompiledUnit) : Machine :=
  compiled.classes.foldl Machine.load {}

def Machine.Outcome.error? : Machine.Outcome → Option Machine.Error
  | .error cause => some cause
  | _ => none

theorem Machine.Outcome.eq_error {outcome : Machine.Outcome} {error : Machine.Error}
    (h : outcome.error? = some error) : outcome = .error error := by
  cases outcome with
  | error found => exact congrArg _ (Option.some.inj h)
  | _ => cases h

theorem exists_ok_of_any {α ε : Type} {x : Except ε α} {p : α → Bool}
    (h : x.toOption.any p = true) : ∃ a, x = .ok a ∧ p a = true := by
  cases x with
  | error _ => cases h
  | ok a => exact ⟨a, rfl, h⟩

theorem Program.ends_of_eval {program : Program} {limit : Nat} {error : Machine.Error}
    {output : String}
    (h : (program.compile.1.toOption.any fun compiled =>
      (compiled.machine.runMain limit "Demo" []).1.error? == some error &&
        (compiled.machine.runMain limit "Demo" []).2.output == output) = true) :
    ∃ compiled, program.compile.1 = .ok compiled ∧
      (compiled.machine.runMain limit "Demo" []).1 = .error error ∧
      (compiled.machine.runMain limit "Demo" []).2.output = output := by
  obtain ⟨compiled, hcompile, h⟩ := exists_ok_of_any h
  simp only [Bool.and_eq_true, beq_iff_eq] at h
  exact ⟨compiled, hcompile, Machine.Outcome.eq_error h.1, h.2⟩

theorem Machine.mem_putValue {name : String} {c : ClassFile} {entries : List (String × ClassFile)}
    (h : entry ∈ putValue name c entries) : entry = (name, c) ∨ entry ∈ entries := by
  induction entries with
  | nil => exact .inl (List.mem_singleton.1 h)
  | cons first rest ih =>
    unfold putValue at h
    split at h
    · rename_i hname
      exact (List.mem_cons.1 h).imp (fun heq => by rw [heq, beq_iff_eq.1 hname])
        (List.mem_cons_of_mem _)
    · rcases List.mem_cons.1 h with rfl | h
      · exact .inr List.mem_cons_self
      · exact (ih h).imp_right (List.mem_cons_of_mem _)

/-- Classes are loaded under their own names. -/
theorem Machine.mem_of_foldl_load {cs : List ClassFile} {m : Machine}
    (h : entry ∈ (cs.foldl Machine.load m).classes) :
    entry.2 ∈ cs ∧ entry.2.name = entry.1 ∨ entry ∈ m.classes := by
  induction cs generalizing m with
  | nil => exact .inr h
  | cons c cs ih =>
    rcases ih h with ⟨hmem, hname⟩ | hmem
    · exact .inl ⟨List.mem_cons_of_mem _ hmem, hname⟩
    · rcases mem_putValue hmem with rfl | hmem
      · exact .inl ⟨List.mem_cons_self, rfl⟩
      · exact .inr hmem

theorem CompiledUnit.mem_of_machine {compiled : CompiledUnit}
    (h : entry ∈ compiled.machine.classes) : entry.2 ∈ compiled.classes :=
  ((Machine.mem_of_foldl_load h).resolve_right List.not_mem_nil).1

end ClassBackend
