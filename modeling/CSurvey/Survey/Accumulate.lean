import CSurvey.Survey.Basic
import CSurvey.Grammar.Program
import CSurvey.Token.Lexer

/-!
One survey of several sources. A source with a flaw adds nothing.
-/

namespace CSurvey.Survey

/-- The survey with what a source adds to it, or the flaw of the source. -/
def addSource (options : ParseSettings) (a : Survey) (source : String) :
    Except LexicalError Survey :=
  (tokenize source).map fun tokens => a.add (parse tokens options).root

/-- After each source in turn, the survey so far or the flaw of that source; and the survey in
the end. -/
def addSources (options : ParseSettings) (a : Survey) :
    List String → List (Except LexicalError Survey) × Survey
  | [] => ([], a)
  | source :: sources =>
    let step := a.addSource options source
    let a := match step with
      | .ok next => next
      | .error _ => a
    let (steps, last) := addSources options a sources
    (step :: steps, last)

end CSurvey.Survey
