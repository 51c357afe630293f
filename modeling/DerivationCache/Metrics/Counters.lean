/-!
# Engine counters

A cache counts what its requests and passes do in nine 64-bit words, one per
`Metrics.Event`. Counting wraps at the word size. A `Metrics.Snapshot` is a reading of the
counters together with the two sizes of the cache at that moment.
-/

namespace DerivationCache.Metrics

/-- What is counted. -/
inductive Event where
  /-- A value was requested of the cache. -/
  | getCall
  /-- The request was answered by a published value at once. -/
  | getHit
  /-- The request found neither a value nor a remembered failure. -/
  | getMiss
  /-- A generation pass was started. -/
  | pass
  /-- A builder was called. -/
  | builderInvocation
  /-- A placeholder was issued. -/
  | placeholderIssued
  /-- A pass was published. -/
  | commit
  /-- A pass was turned down by a conflict. -/
  | commitConflict
  /-- A request was answered by a remembered failure. -/
  | failureReplay
  deriving DecidableEq

/-- The counters of one cache. -/
structure Counters where
  getCalls : UInt64 := 0
  getHits : UInt64 := 0
  getMisses : UInt64 := 0
  passes : UInt64 := 0
  builderInvocations : UInt64 := 0
  placeholdersIssued : UInt64 := 0
  commits : UInt64 := 0
  commitConflicts : UInt64 := 0
  failureReplays : UInt64 := 0
  deriving DecidableEq

namespace Counters

/-- Adds one to the counter of an event. -/
def count (c : Counters) : Event → Counters
  | .getCall => { c with getCalls := c.getCalls + 1 }
  | .getHit => { c with getHits := c.getHits + 1 }
  | .getMiss => { c with getMisses := c.getMisses + 1 }
  | .pass => { c with passes := c.passes + 1 }
  | .builderInvocation => { c with builderInvocations := c.builderInvocations + 1 }
  | .placeholderIssued => { c with placeholdersIssued := c.placeholdersIssued + 1 }
  | .commit => { c with commits := c.commits + 1 }
  | .commitConflict => { c with commitConflicts := c.commitConflicts + 1 }
  | .failureReplay => { c with failureReplays := c.failureReplays + 1 }

end Counters

/-- A reading of the counters and sizes of a cache. -/
structure Snapshot extends Counters where
  /-- The number of published entries. -/
  cacheLen : UInt64 := 0
  /-- The number of remembered failures. -/
  failuresLen : UInt64 := 0
  deriving DecidableEq

/-- The reading of these counters beside these sizes. -/
def Counters.snapshot (c : Counters) (cacheLen failuresLen : Nat) : Snapshot :=
  { c with cacheLen := cacheLen.toUInt64, failuresLen := failuresLen.toUInt64 }

/-- The share of requests answered by a published value at once, zero before any request. -/
def Snapshot.hitRatio (s : Snapshot) : Float :=
  if s.getCalls = 0 then 0.0 else s.getHits.toFloat / s.getCalls.toFloat

end DerivationCache.Metrics
