import DerivationCache.Metrics.Exposition
import DerivationCache.Script.Eval

/-!
# Running scripts

A step of a script is an `Action`: it evaluates its expressions, makes its requests of the
engine, and comes to an `Answer`, to be reported, and a value, to be kept in a variable. A
builder is the sequence of its instructions, each made as a step and noted in the log.

A script that names what it never made is refused: the action halts, and with it the run.
-/

namespace DerivationCache.Script

/-! ### Actions -/

/-- Makes a request of the engine. -/
def request (r : Request Key Key Value State Builder) : Action r.Answer := Routine.ask r

/-- The world as it is. -/
def observe : Action ScriptWorld := request .observe

/-- Changes the shared state, and gives what the change reports. -/
def update {α : Type} (f : State → α × State) : Action α := do
  let w ← observe
  let (a, s) := f w.client
  request (.setClient s)
  return a

/-- Changes the shared state. -/
def modifyState (f : State → State) : Action Unit := update fun s => ((), f s)

/-- Adds an event to the log. -/
def note (e : Event) : Action Unit := modifyState (·.note e)

/-- Gives up, since the script cannot be understood. -/
def refuse {α : Type} : Action α := .halt

/-- What is there, or nothing to go on with. -/
def need {α : Type} : Option α → Action α
  | some a => return a
  | none => refuse

/-- Shows a value as it is now. -/
def display (v : Value) : Action Shown := do
  let w ← observe
  return .ofValue w.cells v

/-- Shows each of the values as it is now. -/
def displayEntries (entries : List (Key × Value)) : Action (List (Key × Shown)) := do
  let w ← observe
  return entries.map fun (k, v) => (k, .ofValue w.cells v)

/-- An error of a kind. A failure is new, and is counted if that is asked for. -/
def makeError (kind : ErrorKind) (text : String) (counted : Bool) : Action RequestError :=
  match kind with
  | .pendingAtCommit => return .violation (.pendingAtCommit text)
  | .unresolvedPlaceholder => return .violation (.unresolvedPlaceholder text)
  | .unresolvableReentry => return .violation (.unresolvableReentry text)
  | .readOnlyCache => return .violation (.readOnlyCache text)
  | .foreignKey => return .violation (.foreignKey text)
  | .detachedCommit => return .violation .detachedCommit
  | .placeholderUnresolved => return .violation .placeholderUnresolved
  | .keyNotFound => return .violation (.keyNotFound text)
  | .duplicateKey => return .violation (.duplicateKey text)
  | .conflict => return .conflict text
  | .derivation =>
    return .failure
      (← update fun s => if counted then s.newFailure text else s.otherFailure text)

/-! ### Steps -/

/-- An action that can end in an error of the engine. -/
structure Attempt (α : Type) where
  run : Action (Except RequestError α)

instance : Monad Attempt where
  pure a := ⟨return .ok a⟩
  bind m f := ⟨do
    match ← m.run with
    | .ok a => (f a).run
    | .error e => return .error e⟩

instance : MonadLift (Routine Key Key Value State Builder) Attempt where
  monadLift action := ⟨do return .ok (← action)⟩

/-- Ends the attempt with an error. -/
def fail {α : Type} (e : RequestError) : Attempt α := ⟨return .error e⟩

/-- What a step comes to: its report, and the value that a variable keeps of it. -/
abbrev Finding : Type := Answer × Option Value

/-- Where a step is made, and what it can read there. -/
structure Place where
  site : Site
  locals : Variables

namespace Place

/-- What expressions at this place depend on. -/
def view (p : Place) : Action View := do
  let world ← observe
  return { site := p.site, locals := p.locals, world }

/-- Evaluates something at this place. -/
def evaluate {α : Type} (p : Place) (f : View → Except Fault α) : Attempt α := do
  match f (← p.view) with
  | .ok a => return a
  | .error (.error e) => fail e
  | .error .nonsense => (refuse : Action α)

/-- The value of a key expression. -/
def key (p : Place) (e : KeyExpr) : Attempt Key := p.evaluate (·.evalKey e)

/-- The value of a value expression. -/
def value (p : Place) (e : ValueExpr) : Attempt Value := p.evaluate (·.eval e)

/-- What a variable holds here. One that was never set holds nothing. -/
def binding (p : Place) (name : String) : Action Binding := do
  return ((← p.view).binding? name).getD (.ok none)

/-- The context that a step acts on: the one it names, else that of the running pass, else
the one of the default name. -/
def context (p : Place) (name : Option String) : Action ContextId := do
  match name, p.site.call with
  | none, some (x, _) => return x
  | name, _ => need ((← observe).client.contexts.get? (name.getD "x"))

/-- The cache that a step acts on: the one it names, else the parent of the running pass,
else the one of the default name. -/
def cache (p : Place) (name : Option String) : Action CacheId := do
  let w ← observe
  match name, p.site.call with
  | none, some (x, _) => need ((w.context? x).bind (·.parent))
  | name, _ => need (w.client.caches.get? (name.getD "c"))

end Place

/-- The cache of a name. -/
def namedCache (name : String) : Action CacheId := do
  need ((← observe).client.caches.get? name)

/-- The cache of an identity, as it is now. -/
def readCache (c : CacheId) : Action (Cache Key Value State Builder) := do
  need ((← observe).cache? c)

/-- The context of an identity, as it is now. -/
def readContext (x : ContextId) : Action (Context Key Value State Builder) := do
  need ((← observe).context? x)

/-- The registry of a name, with its identity. -/
def readRegistry (name : String) :
    Action (RegistryId × Registry Key Key Value State Builder) := do
  let w ← observe
  let r ← need (w.client.registries.get? name)
  return (r, ← need (w.registry? r))

/-- The configuration kept under a name. -/
def readTemplate (name : String) : Action ConfigSpec := do
  need ((← observe).client.templates.get? name)

/-- Makes an action whose error, a violated rule, ends the attempt. -/
def orFail {α : Type} (action : Action (Except Violation α)) : Attempt α :=
  ⟨do return (← action).mapError .violation⟩

/-- A report and no value. -/
def report (a : Answer) : Attempt Finding := return (a, none)

/-- Reports a value and keeps it. -/
def reportValue (v : Option Value) : Attempt Finding := do
  match v with
  | none => return (.value none, none)
  | some v => return (.value (some (← display v)), some v)

/-- Records entries in a context in turn. An entry is evaluated only once those before it are
recorded, so the first that has no value or is refused ends the attempt. -/
def recordAll (p : Place) (x : ContextId) : List (KeyExpr × ValueExpr) → Attempt Unit
  | [] => return ()
  | (key, value) :: rest => do
    let k ← p.key key
    let v ← p.value value
    orFail (request (.record x k v false))
    recordAll p x rest

/-- Makes a cache and gives it a name. -/
def makeCache (name : String) (settings : Settings) : Action Unit := do
  let c ← request (.newCache settings)
  modifyState fun s => { s with caches := s.caches.insert name c }

/-- What is known of an error. -/
def describeError (e : RequestError) : ErrorReport :=
  { error := e
    form := e.form.plain
    violation := e.violation?.map fun i => { error := i, form := i.form.plain } }

/-- How two errors compare. -/
def compareErrors (a b : RequestError) : FailureComparison :=
  { same := a.sameFailure b
    sameCopy := a.sameFailure a
    violationsEqual :=
      match a, b with
      | .violation i, .violation j => i == j
      | _, _ => false }

/-- What one of several threads came back with. -/
def threadReport (cells : Cells Value) : Outcome Value → ThreadReport
  | .returned r => .returned (r.map (.ofValue cells))
  | .panicked message => .panicked message

/-- Makes a step. -/
def runStep (p : Place) : Step → Attempt Finding
  | .template name config => do
    modifyState fun s => { s with templates := s.templates.insert name config }
    report .fine
  | .build template name => do
    makeCache name (← readTemplate template).settings
    report .fine
  | .cache name config => do
    makeCache name config.settings
    report .fine
  | .cloneCache cache name => do
    let c ← p.cache cache
    modifyState fun s => { s with caches := s.caches.insert name c }
    report .fine
  | .context name parent builder standIns => do
    let builder := builder.map fun program => ({ program } : Builder)
    let placeholders := standIns.map (·.factory)
    let x ← match parent with
      | none => request (.newContext builder placeholders)
      | some parent => do
        let c ← namedCache parent
        request (.createContext c builder placeholders)
    modifyState fun s => { s with contexts := s.contexts.insert name x }
    report .fine
  | .dropContext name => do
    let name := name.getD "x"
    let existed ← update fun s =>
      (s.contexts.contains name, { s with contexts := s.contexts.erase name })
    report (.truth existed)
  | .registry name template ownKeys => do
    let settings := (← readTemplate template).settings
    let r ← request (.newRegistry settings (if ownKeys then some belongs else none))
    modifyState fun s => { s with registries := s.registries.insert name r }
    report .fine
  | .scopedCache registry ns name => do
    let (r, _) ← readRegistry registry
    let c ← request (.scopedCache r ns)
    match name with
    | none => pure ()
    | some name => modifyState fun s => { s with caches := s.caches.insert name c }
    let (_, after) ← readRegistry registry
    report (.count after.size)
  | .containsNamespace registry ns => do
    let (_, r) ← readRegistry registry
    report (.truth (r.containsNamespace ns))
  | .registryInfo registry => do
    let (_, r) ← readRegistry registry
    report (.registryInfo (r.namespaces.mergeSort Key.atMost))
  | .getOrAdd cache key => do
    let c ← p.cache cache
    let k ← p.key key
    reportValue (some (← Attempt.mk (Routine.derive c k)))
  | .cacheGet cache key => do
    let c ← p.cache cache
    let k ← p.key key
    reportValue (← orFail (request (.published c k)))
  | .tryAdd cache key value => do
    let c ← p.cache cache
    let k ← p.key key
    let v ← p.value value
    report (.truth (← orFail (request (.insert c k v))))
  | .set cache key value => do
    let c ← p.cache cache
    let k ← p.key key
    let v ← p.value value
    orFail (Routine.insertOrFail c k v)
    report .fine
  | .cacheContains cache key => do
    let cache ← readCache (← p.cache cache)
    let k ← p.key key
    report (.truth (cache.contains k))
  | .cacheInfo cache => do
    let cache ← readCache (← p.cache cache)
    report (.cacheInfo cache.store.size cache.isReadOnly cache.config.cachesFailures)
  | .clearFailures cache => do
    request (.clearFailures (← p.cache cache))
    report .fine
  | .sameCache cache other => do
    let c ← p.cache cache
    let d ← namedCache other
    report (.truth (c == d))
  | .snapshot cache => do
    let cache ← readCache (← p.cache cache)
    report (.snapshot cache.snapshot)
  | .resetMetrics cache => do
    request (.resetCounters (← p.cache cache))
    report .fine
  | .exposition cache family => do
    let cache ← readCache (← p.cache cache)
    report (.text (Metrics.Exposition.text family [cache.snapshot]))
  | .sideCommit cache entries => do
    let c ← p.cache cache
    let x ← request (.createContext c none none)
    recordAll p x entries
    report (.truth (← orFail (request (.commit x))))
  | .spawnGet cache key => do
    let c ← p.cache cache
    let k ← p.key key
    reportValue (some (← Attempt.mk (Routine.deriveApart c k)))
  | .parallel cache key threads => do
    let c ← p.cache cache
    let k ← p.key key
    let outcomes ← (.race c k threads .done : Action (List (Outcome Value)))
    let w ← observe
    report (.threads (outcomes.map (threadReport w.cells)))
  | .getOrBuild context key => do
    let x ← p.context context
    let k ← p.key key
    reportValue (← Attempt.mk (Routine.depend x k))
  | .add context key value => do
    let x ← p.context context
    let k ← p.key key
    let v ← p.value value
    orFail (request (.record x k v false))
    report .fine
  | .overwrite context key value => do
    let x ← p.context context
    let k ← p.key key
    let v ← p.value value
    orFail (request (.record x k v true))
    report .fine
  | .contextGet context key => do
    let x ← p.context context
    let k ← p.key key
    reportValue (some (← orFail (request (.recorded x k))))
  | .contextContains context key => do
    let x ← readContext (← p.context context)
    let k ← p.key key
    report (.truth (x.contains k))
  | .contextInfo context => do
    let x ← readContext (← p.context context)
    report (.contextInfo x.size x.pendingSize x.parent.isSome)
  | .entries context => do
    let x ← readContext (← p.context context)
    let sorted := x.recorded.mergeSort fun a b => a.1.atMost b.1
    report (.entries (← displayEntries sorted))
  | .clear context => do
    request (.clear (← p.context context))
    report .fine
  | .commit context => do
    let x ← p.context context
    let inFlight := (← readContext x).pendingSize
    report (.truth (← orFail do
      return (← request (.commit x)).mapError (reportedRefusal inFlight)))
  | .parentIs context cache => do
    let x ← readContext (← p.context context)
    let c ← namedCache cache
    report (.truth (x.parent == some c))
  | .eval value => do
    reportValue (some (← p.value value))
  | .valueEq left right => do
    let a ← p.value left
    let b ← p.value right
    report (.truth (a == b))
  | .unfold value depth => do
    let v ← p.value value
    let w ← observe
    report (.value (some (.unfold w.cells depth v)))
  | .handle cell => do
    let _ ← p.evaluate (·.link cell)
    let w ← observe
    let h : CellId := ⟨cell⟩
    report (.handle {
      isResolved := w.cells.isFilled h
      value := (w.cells.get? h).map (.ofValue w.cells)
      result := (w.cells.read h).map (.ofValue w.cells)
      form := (w.cells.handleForm h).plain })
  | .handleEq left right => do
    let a ← p.evaluate (·.link left)
    let b ← p.evaluate (·.link right)
    report (.handleEq (left == right) (a == b))
  | .newPlaceholder name standIn => do
    let cell ← request .newCell
    let (kind, standIn) := standIn.make (.str "standalone") cell
    modifyState fun s =>
      { s with placeholders := s.placeholders.insert name { kind, standIn, cell } }
    report (.count cell.index)
  | .placeholder name => do
    let w ← observe
    let made ← need (w.client.placeholders.get? name)
    return (.placeholder {
      kind := made.kind
      isResolved := w.cells.isFilled made.cell
      result := (w.cells.read made.cell).map (.ofValue w.cells)
      standIn := .ofValue w.cells made.standIn
      ownHandle := made.standIn == .forward made.cell
      form := (made.form w.cells).plain }, some made.standIn)
  | .error kind text => do
    fail (← makeError kind text true)
  | .errorInfo name => do
    match ← p.binding name with
    | .error e => report (.error (some (describeError e)))
    | .ok _ => report (.error none)
  | .sameFailure left right => do
    let a ← p.binding left
    let b ← p.binding right
    match a, b with
    | .error a, .error b => report (.comparison (some (compareErrors a b)))
    | _, _ => report (.comparison none)
  | .describeCache cache pretty => do
    let cache ← readCache (← p.cache cache)
    report (.text (cache.form.render pretty))
  | .describeContext context pretty => do
    let x ← readContext (← p.context context)
    report (.text (x.form.render pretty))
  | .describeRegistry registry pretty => do
    let (_, r) ← readRegistry registry
    report (.text (r.form.render pretty))
  | .describeTemplate template pretty => do
    report (.text ((← readTemplate template).settings.form.render pretty))
  | .describeKey key pretty => do
    let k ← p.key key
    report (.text (k.form.render pretty))

/-- Keeps the result of a step in a variable, of the place or of the session. -/
def bindVariable (locals : Variables) (name : Option String) (b : Binding) : Action Variables := do
  match name with
  | none => return locals
  | some name =>
    if State.isShared name then
      modifyState fun s => { s with shared := s.shared.insert name b }
      return locals
    else return locals.insert name b

/-- Makes a step, keeps what is to be kept of it, and gives its result. -/
def makeStep (p : Place) (step : Step) (name : Option String) : Action (Result × Variables) := do
  let found ← (runStep p step).run
  let locals ← bindVariable p.locals name (found.map (·.2))
  return (found.map (·.1), locals)

/-! ### Builders -/

/-- How a sequence of instructions ended. -/
inductive Progress where
  /-- All of them were done. -/
  | ran (locals : Variables)
  /-- One of them ended the builder. -/
  | ended (result : Except RequestError Value)

mutual

/-- Does instructions in turn until one ends the builder. -/
def runInstrs (site : Site) : List Instr → Variables → Action Progress
  | [], locals => return .ran locals
  | i :: rest, locals => do
    match ← runInstr site i locals with
    | .ran locals => runInstrs site rest locals
    | .ended r => return .ended r

/-- Does one instruction. -/
def runInstr (site : Site) : Instr → Variables → Action Progress
  | .step step name catches, locals => do
    let (result, locals) ← makeStep ⟨site, locals⟩ step name
    note (.did step.word result)
    match result with
    | .ok _ => return .ran locals
    | .error e => if catches then return .ran locals else return .ended (.error e)
  | .branch condition yes no, locals => do
    match ← ((⟨site, locals⟩ : Place).evaluate (·.holds condition)).run with
    | .error e => return .ended (.error e)
    | .ok true => runInstrs site yes locals
    | .ok false => runInstrs site no locals
  | .ret value, locals => do
    return .ended (← ((⟨site, locals⟩ : Place).value value).run)
  | .fail message, _ => do
    return .ended (.error (.failure (← update (·.newFailure message))))
  | .raise kind text, _ => do
    return .ended (.error (← makeError kind text false))
  | .reraise name, locals => do
    match ← (⟨site, locals⟩ : Place).binding name with
    | .error e => return .ended (.error e)
    | .ok _ => refuse
  | .panic message, _ => .panic message

end

/-- What a builder does for a key: the instructions of its program, and the key itself as a
value if they end without a result. A key that the program says nothing about fails. -/
def Builder.derive (b : Builder) (site : Site) (k : Key) : Action (Except RequestError Value) :=
  match b.program.instructions k with
  | none => do
    return .error (.failure (← update (·.newFailure ("no rule for " ++ toString k))))
  | some code => do
    match ← runInstrs site code .empty with
    | .ran _ => return .ok (.ofKey k)
    | .ended r => return r

/-- The body of a builder call. -/
def Builder.body (b : Builder) (x : ContextId) (k : Key) :
    Action (Except RequestError Value) := do
  note (.enter k)
  let myCalls ← update fun s =>
    let s := s.countCall k
    (s.callsFor k, s)
  let r ← b.derive { call := some (x, k), myCalls, pass := b.pass } k
  let w ← observe
  note (.exit k (r.map (.ofValue w.cells)))
  return r

end DerivationCache.Script
