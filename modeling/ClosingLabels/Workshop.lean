import ClosingLabels.Grammars
import ClosingLabels.Path

/-!
# The workshop

The toolkit together with the grammars it loads. Looking up a language never waits:
it leaves tasks in a queue and requests with the toolkit. Tasks are taken strictly in
order; a request is finished when the toolkit says so and leaves a task in turn.
-/

namespace ClosingLabels

/-- The toolkit, the grammars, the tasks waiting in order, and the unfinished requests,
oldest first. -/
structure Workshop (W C : Type) where
  toolkit : Toolkit := {}
  grammars : Grammars W := {}
  tasks : List (Task W C) := []
  requests : List Request := []

namespace Workshop

variable {W C : Type}

/-- The toolkit of a workshop. -/
def toolkitPart : Lens (Workshop W C) Toolkit where
  get := Workshop.toolkit
  set t s := { s with toolkit := t }

/-- The grammars of a workshop. -/
def grammarsPart : Lens (Workshop W C) (Grammars W) where
  get := Workshop.grammars
  set g s := { s with grammars := g }

/-- Puts a task at the end of the queue. -/
def push (task : Task W C) : Action (Workshop W C) Unit :=
  Action.modify fun w => { w with tasks := w.tasks ++ [task] }

/-- Puts a step of loading at the end of the queue. -/
def pushJob (job : Job W) : Action (Workshop W C) Unit := push (.job job)

/-- Asks the toolkit for something. -/
def request (request : Request) : Action (Workshop W C) Unit :=
  Action.modify fun w => { w with requests := w.requests ++ [request] }

/-- The start of the toolkit that counts; asks for one when there is none. -/
def ensureStartup : Action (Workshop W C) Nat := do
  let grammars ← Action.look grammarsPart
  match grammars.current with
  | some number => return number
  | none =>
    let number := grammars.startups.length
    Action.emit .toolkitStarting
    Action.adjust grammarsPart fun g =>
      { g with startups := g.startups ++ [.pending []], current := some number }
    request (.startup number)
    return number

/-- Has a lookup wait until the toolkit has started. -/
def awaitParser (lookup : Lookup W) : Action (Workshop W C) Unit := do
  let number ← ensureStartup
  let grammars ← Action.look grammarsPart
  match grammars.startups[number]? with
  | some (.pending waiting) =>
    Action.adjust grammarsPart (·.setStartup number (.pending (waiting ++ [lookup])))
  | some .ready => pushJob (.enter lookup)
  | some (.failed fault) => pushJob (.relay lookup.waiter (.error fault))
  | none => pure ()

/-- Looks up a language for someone. What is loaded, known to have no grammar, or named
by no grammar is answered at once; anything else needs a load. -/
def lookup (resolve : Text → Option GrammarName) (key : Text) (waiter : W) :
    Action (Workshop W C) Unit := do
  let grammars ← Action.look grammarsPart
  match grammars.languages.get? key with
  | some language => push (.deliver waiter (.ok (some language)))
  | none =>
    if key ∈ grammars.unavailable then push (.deliver waiter (.ok none))
    else
      match resolve key with
      | none =>
        Action.adjust grammarsPart (·.markUnavailable key)
        push (.deliver waiter (.ok none))
      | some grammar => awaitParser ⟨key, grammar, waiter⟩

/-- Adds a lookup to the end of the chain. It starts when the link before it is done; a
fault of that link is its own fault too. -/
def enter (lookup : Lookup W) : Action (Workshop W C) Unit := do
  let grammars ← Action.look grammarsPart
  let link := grammars.links.length
  Action.adjust grammarsPart fun g =>
    { g with links := g.links ++ [⟨lookup.key, lookup.grammar, none, []⟩] }
  match grammars.links.getLast? with
  | none => pushJob (.start link)
  | some before =>
    match before.answer with
    | none => Action.adjust grammarsPart (·.follow (link - 1) (.start link))
    | some (.ok _) => pushJob (.start link)
    | some (.error fault) => pushJob (.settle link (.error fault))
  pushJob (.subscribe link lookup.waiter)

/-- Tells a waiter the answer of a link that is done, or remembers to do so. -/
def subscribe (link : Nat) (waiter : W) : Action (Workshop W C) Unit := do
  match (← Action.look grammarsPart).links[link]? with
  | none => pure ()
  | some found =>
    match found.answer with
    | some answer => pushJob (.relay waiter answer)
    | none => Action.adjust grammarsPart (·.follow link (.answer waiter))

/-- Starts a link: a language loaded meanwhile is its answer, a file that is missing makes
the language unavailable, and any other file is loaded. -/
def start (link : Nat) : Action (Workshop W C) Unit := do
  let workshop ← Action.get
  match workshop.grammars.links[link]? with
  | none => pure ()
  | some found =>
    match workshop.grammars.languages.get? found.key with
    | some language => pushJob (.adopt link (.ok (some language)))
    | none =>
      match found.grammar with
      | .member _ => pushJob (.adopt link (.error .notAFileName))
      | .file name =>
        let file := Path.below name
        match workshop.toolkit.files.get? file with
        | none =>
          Action.warn (.missingGrammar name found.key)
          Action.adjust grammarsPart (·.markUnavailable found.key)
          pushJob (.adopt link (.ok none))
        | some spec =>
          Action.emit (.grammarLoading file)
          request (.load link file spec)

/-- Takes note of a load that is done. A load that failed makes the language
unavailable. -/
def finish (link : Nat) (loaded : Except Fault Language) : Action (Workshop W C) Unit := do
  match (← Action.look grammarsPart).links[link]? with
  | none => pure ()
  | some found =>
    match loaded with
    | .ok language =>
      Action.adjust grammarsPart fun g =>
        { g with languages := g.languages.insert found.key language }
      let name := match found.grammar with
        | .file name => name
        | .member name => name.toString
      Action.log (.grammarLoaded name found.key)
      pushJob (.settle link (.ok (some language)))
    | .error fault =>
      Action.report (.grammarLoad found.key) fault
      Action.adjust grammarsPart (·.markUnavailable found.key)
      pushJob (.settle link (.ok none))

/-- What a follower does with the answer of its link. -/
def followerJob (answer : Answer) : Follower W → Job W
  | .start link =>
    match answer with
    | .ok _ => .start link
    | .error fault => .settle link (.error fault)
  | .answer waiter => .relay waiter answer

/-- Settles a link: what follows it joins the queue, in order. -/
def settle (link : Nat) (answer : Answer) : Action (Workshop W C) Unit := do
  match (← Action.look grammarsPart).links[link]? with
  | none => pure ()
  | some found =>
    Action.adjust grammarsPart
      (·.editLink link fun l => { l with answer := some answer, followers := [] })
    Action.each found.followers fun follower => pushJob (followerJob answer follower)

/-- Ends a start of the toolkit; those who waited for it go on in order. -/
def endStartup (number : Nat) (startup : Startup W) (next : Lookup W → Job W) :
    Action (Workshop W C) Unit := do
  match (← Action.look grammarsPart).startups[number]? with
  | some (.pending waiting) =>
    Action.adjust grammarsPart (·.setStartup number startup)
    Action.each waiting fun lookup => pushJob (next lookup)
  | _ => pure ()

/-- Takes a step of loading. -/
def perform : Job W → Action (Workshop W C) Unit
  | .makeParser number => do
    let parser ← Action.zoom toolkitPart Toolkit.newParser
    Action.adjust grammarsPart fun g => { g with parser := some parser }
    endStartup number .ready .enter
  | .failStartup number fault =>
    endStartup number (.failed fault) fun lookup => .relay lookup.waiter (.error fault)
  | .enter lookup => enter lookup
  | .subscribe link waiter => subscribe link waiter
  | .start link => start link
  | .finish link loaded => finish link loaded
  | .adopt link answer => pushJob (.settle link answer)
  | .settle link answer => settle link answer
  | .relay waiter answer => push (.deliver waiter answer)

/-- The toolkit finishes a request. A grammar file is loaded as it is then, which need not
be as it was found. -/
def complete : Request → Action (Workshop W C) Unit
  | .startup number => do
    match (← Action.look toolkitPart).startError with
    | none => pushJob (.makeParser number)
    | some message => pushJob (.failStartup number (.host message))
  | .load link file found => do
    let spec := ((← Action.look toolkitPart).files.get? file).getD found
    match spec.loadError with
    | some message => pushJob (.finish link (.error (.host message)))
    | none =>
      let language ← Action.zoom toolkitPart (Toolkit.newLanguage file spec)
      pushJob (.finish link (.ok language))

/-- Parses a text, if the toolkit has started. -/
def parse (language : Option Language) (text : Text) (old : Option Tree) :
    Action (Workshop W C) Tree := do
  match (← Action.look grammarsPart).parser with
  | none => Action.fail .parserMissing
  | some parser => Action.zoom toolkitPart (Toolkit.parse parser language text old)

/-- Forgets which languages are loaded and which have no grammar, so that each is looked
up anew. Trees keep the language they were parsed with. -/
def forgetLanguages : Action (Workshop W C) Unit := Action.adjust grammarsPart Grammars.reset

/-- Deletes the parser and forgets the start of the toolkit and all languages. -/
def dispose : Action (Workshop W C) Unit := do
  match (← Action.look grammarsPart).parser with
  | some parser => Action.zoom toolkitPart (Toolkit.deleteParser parser)
  | none => pure ()
  Action.adjust grammarsPart fun g => { g.reset with parser := none, current := none }

/-- How many lookups may be on their way: every task, every lookup that waits for a start
and everything that is to follow in the chain counts as one. -/
def underWay (workshop : Workshop W C) : Nat :=
  workshop.tasks.length + workshop.grammars.waitingForStartup + workshop.grammars.followersLeft

/-- Enough turns to empty the queue: no lookup takes more than twelve tasks from its start
to the last consequence of its answer. -/
def turnsLeft (workshop : Workshop W C) : Nat := 12 * (workshop.underWay + 1)

/-- Enough completions to finish every request and all requests these lead to. -/
def completionsLeft (workshop : Workshop W C) : Nat :=
  workshop.requests.length + workshop.underWay + 1

end Workshop

end ClosingLabels
