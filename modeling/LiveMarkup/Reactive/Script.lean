import LiveMarkup.Reactive.Setup
import LiveMarkup.Text.Search
set_option autoImplicit false

/-! # Scripted components

A small vocabulary of watchers, methods, event handlers and hooks, from which the setup of a
component can be put together as data. Every callback leaves an entry in the journal before it does
anything else. -/

namespace LiveMarkup.Script

/-- What a watcher does with a write. The state it may read and write comes with it. -/
inductive Reaction where
  /-- Stores another value instead. -/
  | constant (v : Value)
  /-- Stores the text of the new value in upper case. -/
  | upper
  /-- Stores the sum of old and new. -/
  | sum
  /-- Stores the old value again. -/
  | keep
  | fail (message : String)
  | failNegative
  /-- Writes the new value to another key as well. -/
  | copy (target : Option SignalId) (key : String)
  /-- Notes the current value of another key. -/
  | peek (target : Option SignalId) (key : String)
  | nothing

def Reaction.watcher (key : String) (r : Reaction) : Watcher := fun old new =>
  .note [.str "watch", .str key, old, new] <|
    match r with
    | constant v => .done (some v)
    | upper => .done (some (.str (Text.asciiUpper new.display)))
    | sum => .done (some (.float (old.toNumber + new.toNumber)))
    | keep => .done (some old)
    | fail message => .fail (.custom message)
    | failNegative => if new.toNumber < 0 then .fail (.custom "negative") else .finish
    | copy (some target) key => .set target key new .ofOutcome
    | copy none _ => .finish
    | peek (some target) key => .read target key fun v => .note [.str "peek", .str key, v] .finish
    | peek none _ => .finish
    | nothing => .finish

/-- What an event handler does to a key of the state. -/
inductive Response where
  /-- Adds the first argument, one without arguments. -/
  | add (key : String)
  /-- Writes the first argument. -/
  | assign (key : String)
  /-- Writes the live value that came with the event, with or without a refresh. -/
  | takeValue (key : String) (refresh : Bool)
  | fail (message : String)
  | nothing

def Response.effect (signal : SignalId) (event : Event) (args : List Value) : Response → Effect
  | add key =>
    let amount := (args.head?.map Value.toNumber).getD 1
    .read signal key fun current => .set signal key (.float (current.toNumber + amount)) .ofOutcome
  | assign key => .set signal key (args.head?.getD .null) .ofOutcome
  | takeValue key refresh =>
    .update signal [(key, .str (event.value.getD ""))] refresh .ofOutcome
  | fail message => .fail (.custom message)
  | nothing => .finish

/-- A handler that notes the event and its arguments and then responds; without state it only
notes. -/
def handler (name : String) (signal : Option SignalId) (r : Response) : Handler := fun event args =>
  .note [.str "event", .str name, .str event.name, event.value.elim .null .str,
      .array (.given 0) args] <|
    match signal with
    | some id => r.effect id event args
    | none => .finish

/-- What a method is: native code, or access to the state of this or another instance. -/
inductive Method where
  | native (op : NativeOp)
  | state (key : String)
  | write (key : String)
  | other (owner key : String)

inductive Step where
  | props
  | propTypes (types : List (String × PropType))
  /-- State from given fields and from props. -/
  | proxy (fields : List (String × Value)) (fromProps : List (String × String))
  | methods (methods : List (String × Method))
  | events (handlers : List (String × Response))
  | watch (key : String) (reaction : Option SignalId → Reaction)
  | onError (before after : String)
  | load (label : String)
  | on (stages : List Stage) (label : String) (assign : Option (String × Value))

/-- A hook that notes its stage and then writes a key, if it has one to write. -/
def hook (stage : Stage) (label : String) (signal : Option SignalId)
    (assign : Option (String × Value)) : Effect :=
  .note [.str "hook", .str stage.name, .str label] <|
    match signal, assign with
    | some id, some (key, v) => .set id key v fun _ => .finish
    | _, _ => .finish

/-- Resolves the operations of methods one after the other, and then goes on with all of them. -/
def resolve (signal : Option SignalId) (resolved : List (String × NativeOp))
    (next : List (String × NativeOp) → Setup) : List (String × Method) → Setup
  | [] => next resolved
  | (name, .native op) :: rest => resolve signal (resolved ++ [(name, op)]) next rest
  | (name, .state key) :: rest =>
    resolve signal (resolved ++ [(name, .readState signal key)]) next rest
  | (name, .write key) :: rest =>
    resolve signal (resolved ++ [(name, .writeState signal key)]) next rest
  | (name, .other owner key) :: rest =>
    .useSignal owner fun found =>
      resolve signal (resolved ++ [(name, .readState found key)]) next rest

/-- The setup that a list of steps describes; `signal` is the state the last `proxy` created. -/
def setup (signal : Option SignalId) : List Step → Setup
  | [] => .done
  | .props :: rest => .props fun v => .act (.note [.str "props", v] .finish) (setup signal rest)
  | .propTypes types :: rest =>
    .propTypes types fun v => .act (.note [.str "prop_types", v] .finish) (setup signal rest)
  | .proxy fields fromProps :: rest =>
    .props fun props =>
      let passed := fromProps.map fun (key, prop) => (key, (props.field? prop).getD .null)
      .proxy (fields ++ passed) fun id owner =>
        .act (.note [.str "proxy", .str owner.text] .finish) (setup (some id) rest)
  | .methods methods :: rest =>
    resolve signal [] (fun resolved => .methods resolved (setup signal rest)) methods
  | .events handlers :: rest =>
    .events (handlers.map fun (name, r) => (name, handler name signal r)) (setup signal rest)
  | .watch key reaction :: rest =>
    .watch key ((reaction signal).watcher key) (setup signal rest)
  | .onError before after :: rest =>
    .onError (fun e => before ++ e.message ++ after) (setup signal rest)
  | .load label :: rest => .load (.note [.str "load", .str label] .finish) (setup signal rest)
  | .on stages label assign :: rest =>
    stages.foldr (fun stage next => .on stage (hook stage label signal assign) next)
      (setup signal rest)

end LiveMarkup.Script
