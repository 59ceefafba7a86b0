import EcmaLint.Lint.Diagnostic
import EcmaLint.Lint.Rule
import EcmaLint.Text.Blank
import EcmaLint.Text.Bytes

/-! Message templates. A placeholder is a name between double braces, and white space
around the name does not count.

Filing reports. A report is checked against what its rule declares, its fixes are made
into one, and a diagnostic comes out. What was written down before a check fails stays. -/
namespace EcmaLint

namespace Message

def opening : List Char := ['{', '{']

def closing : List Char := ['}', '}']

/-- What a placeholder stands for: the value of the first pair with its name, or itself if
the name is not known. -/
def substitute (data : List (String × String)) (inside : List Char) : List Char :=
  match data.lookup (String.ofList (Text.trim inside)) with
  | some value => value.toList
  | none => opening ++ inside ++ closing

/-- Fill the placeholders of a template. Values that were put in are not looked at again,
and after an opening without a closing the template stays as it is. -/
def fillChars (data : List (String × String)) (template : List Char) : List Char :=
  match _opens : Text.cutAt? opening template with
  | none => template
  | some (before, afterOpening) =>
      match _closes : Text.cutAt? closing afterOpening with
      | none => template
      | some (inside, rest) => before ++ substitute data inside ++ fillChars data rest
termination_by template.length
decreasing_by
  have := Text.length_of_cutAt? _opens (by simp [opening])
  have := Text.length_of_cutAt? _closes (by simp [closing])
  omega

/-- A template with its placeholders filled. -/
def fill (template : String) (data : List (String × String)) : String :=
  String.ofList (fillChars data template.toList)

end Message

/-- A diagnostic with the specificity of the selector whose listener reported it. -/
structure Filed where
  diagnostic : Diagnostic
  specificity : Specificity
  deriving DecidableEq, Repr

/-- What the reports of one rule have led to, in the order of the reports. -/
structure Log where
  filed : List Filed := []
  warnings : List String := []
  deriving DecidableEq, Repr, Inhabited

/-- Writing a log, with a failure that leaves what was written. -/
abbrev Filing := ExceptT RuleError (StateM Log)

/-- What filing the reports of a rule depends on. -/
structure Desk where
  info : RuleInfo
  source : SourceCode
  severity : Severity
  /-- Whether fixes and suggestions are wanted. -/
  computeFixes : Bool

namespace Desk

def warn (warning : String) : Filing Unit :=
  modify fun log => { log with warnings := log.warnings ++ [warning] }

/-- The template of a message that the rule has to declare. -/
def template (desk : Desk) (messageId : String) : Filing String :=
  match desk.info.template? messageId with
  | some template => return template
  | none => throw (.unknownMessage messageId)

/-- What is said of a fix that does not fit the program. -/
def misfitWarning (desk : Desk) (misfit : Fix) : String :=
  "rule '" ++ desk.info.name ++ "' proposed a fix with invalid range " ++
    misfit.span.render ++ "; the fix was dropped"

/-- One fix from the fixes of a report. There is none if a fix does not fit the program,
which is worth a warning. -/
def joinFixes (desk : Desk) (fixes : List Fix) : Filing (Option Fix) := do
  if fixes.isEmpty then return none
  match fixes.find? fun fix => !fix.fits desk.source.text with
  | some misfit =>
      warn (desk.misfitWarning misfit)
      return none
  | none =>
      match Fix.merge desk.source.text fixes with
      | .ok fix => return some fix
      | .error overlap => throw (.overlappingFixes overlap)

/-- The fix that proposed fixes come to, if fixes are wanted. -/
def wantedFix (desk : Desk) (fixes : List Fix) : Filing (Option Fix) :=
  if desk.computeFixes then desk.joinFixes fixes else return none

/-- The fix of a report, if it has one and fixes are wanted. -/
def mainFix (desk : Desk) : Option (List Fix) → Filing (Option Fix)
  | some fixes => desk.wantedFix fixes
  | none => return none

/-- The suggestions of a report. One whose fixes come to nothing is left out. -/
def suggestions (desk : Desk) : List SuggestionRequest → Filing (List Suggestion)
  | [] => return []
  | request :: rest => do
      let template ← desk.template request.messageId
      let fix ← desk.wantedFix request.fixes
      let made := fix.map fun fix =>
        { messageId := request.messageId, description := Message.fill template request.data, fix }
      return made.toList ++ (← desk.suggestions rest)

/-- What is said in the end for a report that passes the checks. -/
def diagnose (desk : Desk) (report : Report) : Filing Diagnostic := do
  let template ← desk.template report.messageId
  if report.fixes.isSome && desk.info.fixable.isNone then throw .fixNotDeclared
  if !report.suggestions.isEmpty && !desk.info.hasSuggestions then throw .suggestionsNotDeclared
  let fix ← desk.mainFix report.fixes
  let suggestions ← desk.suggestions report.suggestions
  return {
    ruleId := some desk.info.name
    messageId := some report.messageId
    message := Message.fill template report.data
    severity := desk.severity
    isFatal := false
    nodeType := report.nodeType
    span := report.span
    extent := desk.source.extent report.span
    fix
    suggestions }

/-- File one report of a listener. -/
def file (desk : Desk) (specificity : Specificity) (report : Report) : Filing Unit := do
  let diagnostic ← desk.diagnose report
  modify fun log => { log with filed := log.filed ++ [⟨diagnostic, specificity⟩] }

/-- Follow a listener until it is done. Every report is filed, and the listener hears what became
of it. -/
def follow {Memory : Type} (desk : Desk) (specificity : Specificity) :
    Reaction Memory → Log → (Memory × Option RuleError) × Log
  | .done memory failure, log => ((memory, failure), log)
  | .report report next, log =>
      let (outcome, written) := (desk.file specificity report).run.run log
      desk.follow specificity (next ⟨desk.computeFixes, outcome⟩) written

end Desk

end EcmaLint
