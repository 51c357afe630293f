import DerivationCache.Cache

/-!
# Registries

A `Registry` keeps one cache per namespace. All its caches are made from one configuration,
so namespaces share how values are derived and never share entries. A registry may also
decide by itself which keys belong to a namespace, in place of the configured scope.
-/

namespace DerivationCache

variable {K N V σ B : Type}

/-- One cache per namespace, all of one configuration. -/
structure Registry (K N V σ B : Type) where
  template : Config K V σ B
  /-- Whether a key belongs to a namespace. It takes the place of the template's scope. -/
  belongs : Option (N → K → Bool) := none
  /-- The caches made so far. -/
  caches : Table N CacheId := .empty

namespace Registry

/-- The configuration of the cache of a namespace. -/
def configFor (r : Registry K N V σ B) (ns : N) : Config K V σ B :=
  match r.belongs with
  | none => r.template
  | some belongs => { r.template with scope := some (belongs ns) }

/-- The namespaces that have a cache, oldest first. -/
def namespaces (r : Registry K N V σ B) : List N := r.caches.keys

/-- The number of namespaces that have a cache. -/
def size (r : Registry K N V σ B) : Nat := r.caches.size

/-- Whether a cache was made for the namespace. -/
def containsNamespace [DecidableEq N] (r : Registry K N V σ B) (ns : N) : Bool :=
  r.caches.contains ns

end Registry

end DerivationCache
