/-!
# Failures

A failure of the outside world is known by what was being done when it happened, and by the
chain of what brought it about, outermost first. Most of the time the first line is enough; when
records are lost the whole chain is reported.
-/

namespace LinkQuality

/-- **What failed, and why.** -/
structure Failure where
  message : String
  causes : List String := []
  deriving DecidableEq, Repr

namespace Failure

/-- The same failure seen from further outside. -/
def during (f : Failure) (activity : String) : Failure := ⟨activity, f.message :: f.causes⟩

/-- A text with every further line set in by `margin` blanks. -/
def indented (margin : Nat) (text : String) : String :=
  String.ofList <| text.toList.flatMap fun c =>
    if c = '\n' then c :: List.replicate margin ' ' else [c]

/-- A number set right in five places. -/
def place (n : Nat) : String :=
  let digits := toString n
  String.ofList (List.replicate (5 - digits.length) ' ') ++ digits

/-- **The whole chain.** A single cause stands alone, several are numbered. -/
def report (f : Failure) : String :=
  match f.causes with
  | [] => f.message
  | [cause] => f.message ++ "\n\nCaused by:\n    " ++ indented 4 cause
  | causes =>
    f.message ++ "\n\nCaused by:" ++ String.join (causes.zipIdx.map fun (cause, n) =>
      "\n" ++ place n ++ ": " ++ indented 7 cause)

end Failure

end LinkQuality
