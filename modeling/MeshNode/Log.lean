import MeshNode.Proxy

/-!
# The log

What the program tells about its work. Directives in the environment say which of it is
written; without directives, errors are and nothing else. The lines of the log go where
everything else is printed. What libraries tell about their own work is left out.
-/

namespace MeshNode.Log

/-- How grave an event is. -/
inductive Level
  | trace
  | debug
  | info
  | warn
  | error
deriving DecidableEq

/-- Something that a part of the program tells. -/
structure Event where
  level : Level
  /-- The part of the program that tells it. -/
  source : String
  message : String
  fields : List (String × String) := []
deriving DecidableEq

/-- What writes the log: which events directives let through, and how each is written. -/
structure Subscriber where
  passes : (directives : String) → Event → Bool
  /-- The line of an event at a place of the log; it may tell the time, too. -/
  line : (place : Nat) → Event → String
  /-- Without directives, errors alone are let through. -/
  passes_empty : ∀ e, passes "" e = (e.level == .error)

/-- The directives in an environment. -/
def directives (env : Environment) : String := (env.lookup "RUST_LOG").getD ""

/-- What is written of some events in an environment. -/
def Subscriber.text (log : Subscriber) (env : Environment) (events : List Event) : String :=
  String.join ((events.filter (log.passes (directives env))).mapIdx log.line)

/-! ## Levels as directives -/

/-- The name of a level. -/
def Level.name : Level → String
  | .trace => "trace"
  | .debug => "debug"
  | .info => "info"
  | .warn => "warn"
  | .error => "error"

/-- All levels, the gravest last. -/
def Level.all : List Level := [.trace, .debug, .info, .warn, .error]

/-- The events that a directive lets through if it is the name of a level: those of this level
and of graver ones. Any other directive lets errors through. -/
def passesLevel (directive : String) (e : Event) : Bool :=
  match Level.all.dropWhile (·.name != directive) with
  | [] => e.level == .error
  | levels => levels.contains e.level

/-- The subscriber that knows levels as directives, and writes no times. -/
def plain : Subscriber where
  passes := passesLevel
  line _ e :=
    e.level.name ++ " " ++ e.source ++ ": " ++ e.message ++
      String.join (e.fields.map fun (name, value) => " " ++ name ++ "=" ++ value) ++ "\n"
  passes_empty _ := rfl

end MeshNode.Log
