/-!
# Configuration of an analysis

How deep syntax is followed, and which owners get a graph.
-/

set_option autoImplicit false

namespace PythonFlow

structure Config where
  /-- Levels of syntax followed below an owner before a subtree becomes one instruction. -/
  maxDepth : UInt64
  includeClasses : Bool
  includeLambdas : Bool
  /-- Whether independent owners may be built at the same time. No graph depends on it. -/
  parallel : Bool
deriving DecidableEq, Repr

namespace Config

def standard : Config := ⟨512, true, false, true⟩

def depth (c : Config) : Nat := c.maxDepth.toNat

def depthLimit : Nat := 10000

def Valid (c : Config) : Prop := 1 ≤ c.depth ∧ c.depth ≤ depthLimit

instance (c : Config) : Decidable c.Valid := inferInstanceAs (Decidable (_ ∧ _))

theorem standard_valid : standard.Valid := by decide

end Config
end PythonFlow
