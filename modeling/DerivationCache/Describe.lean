import DerivationCache.Text.Form
import DerivationCache.Text.Quoted
import DerivationCache.World

/-!
# Descriptions

The form of each thing that a reader can ask to see whole: a record of its counts and
switches, never of its contents. Errors are described by their cause and the key text that
they carry.
-/

namespace DerivationCache

open Text (Form)

variable {K N V σ B : Type}

/-- A violated rule as a form: its name, and the key that it names. -/
def Violation.form (e : Violation) : Form :=
  let naming (name key : String) : Form := .record name [("key", .word (Text.quoted key))]
  match e with
  | pendingAtCommit key => naming "PendingAtCommit" key
  | unresolvedPlaceholder key => naming "UnresolvedPlaceholder" key
  | unresolvableReentry key => naming "UnresolvableReentry" key
  | readOnlyCache key => naming "ReadOnlyCache" key
  | foreignKey key => naming "ForeignKey" key
  | detachedCommit => .word "DetachedCommit"
  | placeholderUnresolved => .word "PlaceholderUnresolved"
  | keyNotFound key => naming "KeyNotFound" key
  | duplicateKey key => naming "DuplicateKey" key

/-- An error as a form. -/
def RequestError.form : RequestError → Form
  | violation e => .apply "Invariant" [e.form]
  | failure f =>
    .apply "Derivation" [.apply "DomainError" [.word (Text.quoted f.message)]]
  | conflict key => .record "Conflict" [("key", .word (Text.quoted key))]

/-- The word for the kind of a violated rule. -/
def Violation.kind : Violation → String
  | pendingAtCommit _ => "PendingAtCommit"
  | unresolvedPlaceholder _ => "UnresolvedPlaceholder"
  | unresolvableReentry _ => "UnresolvableReentry"
  | readOnlyCache _ => "ReadOnlyCache"
  | foreignKey _ => "ForeignKey"
  | detachedCommit => "DetachedCommit"
  | placeholderUnresolved => "PlaceholderUnresolved"
  | keyNotFound _ => "KeyNotFound"
  | duplicateKey _ => "DuplicateKey"

/-- The word for the kind of an error. -/
def RequestError.kind : RequestError → String
  | violation e => e.kind
  | failure _ => "Derivation"
  | conflict _ => "Conflict"

/-- A configuration as a form. -/
def Config.form (c : Config K V σ B) : Form :=
  .record "CacheBuilder" [
    ("has_builder", .ofBool c.makeBuilder.isSome),
    ("has_placeholders", .ofBool c.placeholders.isSome),
    ("scoped", .ofBool c.scope.isSome),
    ("cache_failures", .ofBool c.cachesFailures)]

/-- A cache as a form. -/
def Cache.form (c : Cache K V σ B) : Form :=
  .record "Cache" [
    ("len", .ofNat c.store.size),
    ("read_only", .ofBool c.isReadOnly),
    ("has_placeholders", .ofBool c.config.placeholders.isSome),
    ("scoped", .ofBool c.config.scope.isSome),
    ("cache_failures", .ofBool c.config.cachesFailures)]

/-- A context as a form. Every entry counts, whatever its state. -/
def Context.form (x : Context K V σ B) : Form :=
  .record "GenerationContext" [
    ("entries", .ofNat x.entries.size),
    ("attached", .ofBool x.parent.isSome),
    ("has_builder", .ofBool x.builder.isSome),
    ("has_placeholders", .ofBool x.placeholders.isSome)]

/-- A registry as a form. -/
def Registry.form (r : Registry K N V σ B) : Form :=
  .record "ScopedCacheRegistry" [
    ("namespaces", .ofNat r.size),
    ("template", r.template.form),
    ("scoped", .ofBool r.belongs.isSome)]

/-- A handle to a cell as a form. -/
def Cells.handleForm (cells : Cells V) (h : CellId) : Form :=
  .record "PlaceholderHandle" [("resolved", .ofBool (cells.isFilled h))]

/-- The word for a kind of placeholder. -/
def PlaceholderKind.word : PlaceholderKind → String
  | forwarding => "Forwarding"
  | sentinel => "Sentinel"

/-- A placeholder as a form. -/
def Placeholder.form (cells : Cells V) (p : Placeholder V) : Form :=
  .record "PlaceholderValue" [
    ("kind", .word p.kind.word),
    ("resolved", .ofBool (cells.isFilled p.cell))]

namespace Metrics

/-- The counters as fields, in their order. -/
def Counters.fields (c : Counters) : List (String × UInt64) :=
  [("get_calls", c.getCalls),
   ("get_hits", c.getHits),
   ("get_misses", c.getMisses),
   ("passes", c.passes),
   ("builder_invocations", c.builderInvocations),
   ("placeholders_issued", c.placeholdersIssued),
   ("commits", c.commits),
   ("commit_conflicts", c.commitConflicts),
   ("failure_replays", c.failureReplays)]

/-- The reading as fields, in their order. -/
def Snapshot.fields (s : Snapshot) : List (String × UInt64) :=
  s.toCounters.fields ++ [("cache_len", s.cacheLen), ("failures_len", s.failuresLen)]

/-- Named words of a record. -/
def fieldForms (fields : List (String × UInt64)) : List (String × Form) :=
  fields.map fun (name, value) => (name, .ofNat value.toNat)

/-- The counters as a form. -/
def Counters.form (c : Counters) : Form := .record "EngineCounters" (fieldForms c.fields)

/-- A reading as a form. -/
def Snapshot.form (s : Snapshot) : Form :=
  .record "EngineMetricsSnapshot" (fieldForms s.fields)

end Metrics

end DerivationCache
