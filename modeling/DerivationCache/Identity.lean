/-!
# Identities

Caches, contexts, placeholder cells, registries and threads are told apart by their
identities alone. Two handles are the same object if and only if their identities are equal,
so sharing needs no storage model beyond equality of these numbers.
-/

namespace DerivationCache

/-- Names one cache of a world. -/
structure CacheId where
  index : Nat
  deriving DecidableEq

/-- Names one generation context of a world. -/
structure ContextId where
  index : Nat
  deriving DecidableEq

/-- Names one placeholder cell of a world. A handle is the identity of its cell. -/
structure CellId where
  index : Nat
  deriving DecidableEq

/-- Names one registry of a world. -/
structure RegistryId where
  index : Nat
  deriving DecidableEq

/-- Names one thread of a run. -/
structure ThreadId where
  index : Nat
  deriving DecidableEq

/-- The thread on which a run starts. -/
def ThreadId.main : ThreadId := ⟨0⟩

end DerivationCache
