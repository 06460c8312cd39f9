/-!
# Outcomes of programs

What a program that has come to its end leaves behind.
-/

namespace MeshNode.CommandLine

/-- The exit status of a program and what it has printed. -/
structure Outcome where
  exit : Nat
  stdout : String
  stderr : String
deriving DecidableEq

/-- A program that succeeds. -/
def Outcome.success (stdout : String) : Outcome := ⟨0, stdout, ""⟩

/-- The causes of an error, one a line, numbered if there are several. -/
def causesText : List String → String
  | [] => ""
  | [cause] => "\n\nCaused by:\n    " ++ cause
  | causes =>
    "\n\nCaused by:" ++
      String.join (causes.zipIdx.map fun (cause, i) => s!"\n    {i}: " ++ cause)

/-- A program that fails with a message and the causes behind it. -/
def Outcome.failure : List String → Outcome
  | [] => ⟨1, "", ""⟩
  | message :: causes => ⟨1, "", "Error: " ++ message ++ causesText causes ++ "\n"⟩

/-- A program that has printed something before. -/
def Outcome.after (printed : String) (o : Outcome) : Outcome :=
  { o with stdout := printed ++ o.stdout }

/-- The first line of a text. -/
def firstLine (s : String) : String := String.ofList (s.toList.takeWhile (· != '\n'))

end MeshNode.CommandLine
