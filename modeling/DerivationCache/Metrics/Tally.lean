import DerivationCache.Describe

/-!
# Tallies

A tally drives one set of counters by a list of commands and gives a reading, or a
description, after each of them.
-/

namespace DerivationCache.Metrics

/-- A command to a set of counters. -/
inductive Command where
  | count (event : Event)
  /-- Sets every counter back to zero. -/
  | reset
  /-- Changes nothing. -/
  | read
  /-- Changes nothing, and asks for a description instead of a reading. -/
  | describe
  deriving DecidableEq

/-- What a command is answered with. -/
inductive TallyReport where
  | reading (snapshot : Snapshot)
  | description (counters snapshot : String)

/-- The counters after a command. -/
def Command.apply (c : Counters) : Command → Counters
  | count e => c.count e
  | reset => {}
  | read => c
  | describe => c

/-- The answer to a command, given the counters after it. There is no cache to be measured, so
both sizes read zero. -/
def Command.report (c : Counters) : Command → TallyReport
  | describe => .description c.form.plain (c.snapshot 0 0).form.plain
  | _ => .reading (c.snapshot 0 0)

/-- The answers to commands, given one after another. -/
def tally (c : Counters) : List Command → List TallyReport
  | [] => []
  | command :: rest =>
    let c := command.apply c
    command.report c :: tally c rest

end DerivationCache.Metrics
