import DerivationCache.Metrics.Counters

/-!
# Text exposition of a reading

A reading is written as eleven samples, each a type line followed by a value line:

    # TYPE cache_get_calls_total counter
    cache_get_calls_total 3

`Exposition.text family snapshots` is the whole text of a list of readings. A `Sink` takes
the text chunk by chunk and may run full: what does not fit is dropped, and a writer that
goes on after that changes nothing more, because the room only shrinks.
-/

namespace DerivationCache.Metrics

namespace Exposition

/-- How a sample moves: a counter only grows, a gauge goes both ways. -/
inductive Kind where
  | counter
  | gauge
  deriving DecidableEq

/-- The word for a kind in a type line. -/
def Kind.word : Kind → String
  | .counter => "counter"
  | .gauge => "gauge"

/-- One named value of a reading. -/
structure Sample where
  kind : Kind
  suffix : String
  value : UInt64
  deriving DecidableEq

/-- The name of a sample: its suffix alone, or after the family and an underscore. -/
def sampleName (family suffix : String) : String :=
  if family.isEmpty then suffix else family ++ "_" ++ suffix

/-- The two lines of a sample. -/
def Sample.lines (family : String) (s : Sample) : List String :=
  let name := sampleName family s.suffix
  ["# TYPE " ++ name ++ " " ++ s.kind.word ++ "\n",
   name ++ " " ++ Nat.repr s.value.toNat ++ "\n"]

/-- The samples of a reading, in the order in which they are written. -/
def samples (s : Snapshot) : List Sample :=
  [⟨.counter, "get_calls_total", s.getCalls⟩,
   ⟨.counter, "get_hits_total", s.getHits⟩,
   ⟨.counter, "get_misses_total", s.getMisses⟩,
   ⟨.counter, "passes_total", s.passes⟩,
   ⟨.counter, "builder_invocations_total", s.builderInvocations⟩,
   ⟨.counter, "placeholders_issued_total", s.placeholdersIssued⟩,
   ⟨.counter, "commits_total", s.commits⟩,
   ⟨.counter, "commit_conflicts_total", s.commitConflicts⟩,
   ⟨.counter, "failure_replays_total", s.failureReplays⟩,
   ⟨.gauge, "cache_len", s.cacheLen⟩,
   ⟨.gauge, "failures_len", s.failuresLen⟩]

/-- The lines of a reading. -/
def lines (family : String) (s : Snapshot) : List String :=
  (samples s).flatMap (Sample.lines family)

/-- The whole text of a list of readings. -/
def text (family : String) (snapshots : List Snapshot) : String :=
  String.join (snapshots.flatMap (lines family))

end Exposition

/-- A place that text is written to. -/
structure Sink where
  /-- The bytes taken so far. -/
  written : List UInt8 := []
  /-- How many more bytes are taken, without end if there is no bound. -/
  room : Option Nat := none
  deriving DecidableEq

namespace Sink

/-- Offers bytes to the sink, which takes as many from the front as it has room for. -/
def offer (s : Sink) (bytes : List UInt8) : Sink :=
  match s.room with
  | none => { s with written := s.written ++ bytes }
  | some n => { written := s.written ++ bytes.take n, room := some (n - bytes.length) }

/-- Writes a line. Whether it fitted is of no concern to the writer. -/
def writeLine (s : Sink) (line : String) : Sink := s.offer line.toUTF8.toList

/-- Writes one reading after another. -/
def writeAll (family : String) (s : Sink) (snapshots : List Snapshot) : Sink :=
  (snapshots.flatMap (Exposition.lines family)).foldl writeLine s

/-- The text of bytes that were cut off at most once, at their end: a last character that is
not complete reads as the replacement character. -/
def readText (bytes : List UInt8) : String :=
  let whole (n : Nat) : Option String :=
    String.fromUTF8? (bytes.take (bytes.length - n)).toByteArray
  match whole 0 with
  | some s => s
  | none => ((whole 1 <|> whole 2 <|> whole 3).getD "") ++ "\ufffd"

end Sink

end DerivationCache.Metrics
