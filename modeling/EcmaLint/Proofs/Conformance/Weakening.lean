import EcmaLint.Conformance.Tester
import EcmaLint.Proofs.Lint.Setup
import EcmaLint.Regex.Reader
import EcmaLint.Rules.AsyncExecutor

/-! Test cases that state less. A check that passes says that everything stated is so, and what is
not stated is not looked at. So a fixture that passes still does if fields of its matchers are
cleared or its matchers counted only: all that can come of it is that two of its cases become
equal. -/
namespace EcmaLint.Conformance

@[simp]
theorem ensure_eq_ok_iff {holds : Bool} {otherwise : CaseError} :
    ensure holds otherwise = .ok () ↔ holds = true := by
  cases holds <;> simp [ensure]

@[simp]
theorem whenStated_eq_ok_iff {α : Type} {stated : Option α} {check : α → Except CaseError Unit} :
    whenStated stated check = .ok () ↔ ∀ value ∈ stated, check value = .ok () := by
  cases stated <;> simp [whenStated]

@[simp]
theorem bind_eq_ok_iff {first : Except CaseError Unit} {next : Unit → Except CaseError Unit} :
    first >>= next = .ok () ↔ first = .ok () ∧ next () = .ok () := by
  cases first with
  | ok value => simp [bind, Except.bind]
  | error cause => simp [bind, Except.bind]

/-- A rule is in order if it has messages, nothing is wrong with any of them, and its schema is
one. -/
theorem checkInfo_eq_ok_iff [RegexEngine] {rule : Rule} :
    checkInfo rule = .ok () ↔ rule.info.messages ≠ [] ∧ messageFault? [] rule.info.messages = none ∧
      ∃ schema, rule.schema.compile rule.info.name = .ok schema := by
  rw [checkInfo, ne_eq, ← List.isEmpty_iff]
  cases rule.info.messages.isEmpty with
  | true => simp
  | false =>
      cases messageFault? [] rule.info.messages with
      | some reason => simp
      | none =>
          cases rule.schema.compile rule.info.name with
          | ok schema => simp
          | error cause => simp

/-- What a matcher states of a message: that the rule has it, that it was the one reported, and
that its text was made from the values that are given. -/
def Reports (info : RuleInfo) (messageId : String) (data : Option (List (String × String)))
    (actualId actualText : String) : Prop :=
  ∃ template, info.template? messageId = some template ∧ messageId = actualId ∧
    ∀ values ∈ data, Message.fill template values = actualText

namespace SuggestionMatcher

/-- Everything that a matcher states of a suggestion is so. -/
structure Describes (info : RuleInfo) (code : String) (matcher : SuggestionMatcher)
    (actual : Suggestion) : Prop where
  messageId : ∀ messageId ∈ matcher.messageId,
    Reports info messageId matcher.data actual.messageId actual.description
  description : ∀ description ∈ matcher.description, description = actual.description
  output : (actual.fix.applyTo? code).getD code = matcher.output

variable {info : RuleInfo} {code : String} {index number : Nat}

theorem checkMessage_eq_ok_iff {matcher : SuggestionMatcher} {actual : Suggestion} :
    matcher.checkMessage info index number actual = .ok () ↔ ∀ messageId ∈ matcher.messageId,
      Reports info messageId matcher.data actual.messageId actual.description := by
  rw [checkMessage, whenStated_eq_ok_iff]
  apply forall₂_congr
  intro messageId _
  rw [Reports]
  cases info.template? messageId with
  | none => simp
  | some template => simp

theorem check_eq_ok_iff {matcher : SuggestionMatcher} {actual : Suggestion} :
    matcher.check info code index number actual = .ok () ↔ matcher.Describes info code actual := by
  simp only [check, bind_eq_ok_iff, checkMessage_eq_ok_iff, whenStated_eq_ok_iff,
    ensure_eq_ok_iff, beq_iff_eq]
  exact ⟨fun ⟨hId, hText, hOutput⟩ => ⟨hId, hText, hOutput⟩,
    fun ⟨hId, hText, hOutput⟩ => ⟨hId, hText, hOutput⟩⟩

/-- Suggestions that are as many as their matchers are checked one against one. -/
theorem checkAll_eq_ok_iff {matchers : List SuggestionMatcher} {actual : List Suggestion}
    (h : matchers.length = actual.length) :
    checkAll info code index number matchers actual = .ok () ↔
      List.Forall₂ (Describes info code) matchers actual := by
  induction matchers generalizing actual number with
  | nil =>
      obtain rfl := List.length_eq_zero_iff.mp h.symm
      simp [checkAll]
  | cons matcher matchers ih =>
      cases actual with
      | nil => cases h
      | cons first others =>
          rw [checkAll, bind_eq_ok_iff, check_eq_ok_iff, ih (Nat.succ.inj h), List.forall₂_cons]

end SuggestionMatcher

namespace ErrorMatcher

/-- Everything that a matcher states of a diagnostic is so. -/
structure Describes (info : RuleInfo) (code : String) (matcher : ErrorMatcher)
    (actual : Diagnostic) : Prop where
  alone : matcher.message = none ∨ matcher.messageId = none
  message : ∀ message ∈ matcher.message, message = actual.message
  messageId : ∀ messageId ∈ matcher.messageId,
    Reports info messageId matcher.data (actual.messageId.getD "") actual.message
  nodeType : ∀ nodeType ∈ matcher.nodeType, nodeType = actual.nodeType.getD ""
  line : ∀ line ∈ matcher.line, line = actual.extent.start.line
  column : ∀ column ∈ matcher.column, column = actual.extent.start.column
  endLine : ∀ line ∈ matcher.endLine, line = actual.extent.stop.line
  endColumn : ∀ column ∈ matcher.endColumn, column = actual.extent.stop.column
  suggestions : ∀ matchers ∈ matcher.suggestions,
    List.Forall₂ (SuggestionMatcher.Describes info code) matchers actual.suggestions

variable {info : RuleInfo} {code : String} {index : Nat} {matcher : ErrorMatcher}

theorem checkMessage_eq_ok_iff {actual : Diagnostic} :
    matcher.checkMessage info index actual = .ok () ↔
      (matcher.message = none ∨ matcher.messageId = none) ∧
      (∀ message ∈ matcher.message, message = actual.message) ∧
      ∀ messageId ∈ matcher.messageId,
        Reports info messageId matcher.data (actual.messageId.getD "") actual.message := by
  simp only [checkMessage, bind_eq_ok_iff, whenStated_eq_ok_iff, ensure_eq_ok_iff, Bool.or_eq_true,
    Option.isNone_iff_eq_none, beq_iff_eq]
  apply and_congr_right'
  apply and_congr_right'
  apply forall₂_congr
  intro messageId _
  rw [Reports]
  cases info.template? messageId with
  | none => simp
  | some template => simp

theorem checkNodeType_eq_ok_iff {actual : Diagnostic} :
    matcher.checkNodeType index actual = .ok () ↔
      ∀ nodeType ∈ matcher.nodeType, nodeType = actual.nodeType.getD "" := by
  simp [checkNodeType]

theorem checkNumber_eq_ok_iff {name : String} {stated : Option Nat} {actual : Nat} :
    checkNumber index name stated actual = .ok () ↔ ∀ expected ∈ stated, expected = actual := by
  simp [checkNumber]

theorem checkSuggestions_eq_ok_iff {actual : List Suggestion} :
    matcher.checkSuggestions info code index actual = .ok () ↔ ∀ matchers ∈ matcher.suggestions,
      List.Forall₂ (SuggestionMatcher.Describes info code) matchers actual := by
  rw [checkSuggestions, whenStated_eq_ok_iff]
  apply forall₂_congr
  intro matchers _
  rw [bind_eq_ok_iff, ensure_eq_ok_iff, beq_iff_eq]
  constructor
  · rintro ⟨hLength, hAll⟩
    exact (SuggestionMatcher.checkAll_eq_ok_iff hLength).mp hAll
  · intro hAll
    exact ⟨hAll.length_eq, (SuggestionMatcher.checkAll_eq_ok_iff hAll.length_eq).mpr hAll⟩

theorem check_eq_ok_iff {actual : Diagnostic} :
    matcher.check info code index actual = .ok () ↔ matcher.Describes info code actual := by
  simp only [check, checkPlace, bind_eq_ok_iff, checkMessage_eq_ok_iff, checkNodeType_eq_ok_iff,
    checkNumber_eq_ok_iff, checkSuggestions_eq_ok_iff]
  constructor
  · rintro ⟨⟨hAlone, hMessage, hId⟩, hType, ⟨hLine, hColumn, hEndLine, hEndColumn⟩, hSuggestions⟩
    exact ⟨hAlone, hMessage, hId, hType, hLine, hColumn, hEndLine, hEndColumn, hSuggestions⟩
  · rintro ⟨hAlone, hMessage, hId, hType, hLine, hColumn, hEndLine, hEndColumn, hSuggestions⟩
    exact ⟨⟨hAlone, hMessage, hId⟩, hType, ⟨hLine, hColumn, hEndLine, hEndColumn⟩, hSuggestions⟩

/-- Diagnostics that are as many as their matchers are checked one against one. -/
theorem checkAll_eq_ok_iff {matchers : List ErrorMatcher} {actual : List Diagnostic}
    (h : matchers.length = actual.length) :
    checkAll info code index matchers actual = .ok () ↔
      List.Forall₂ (Describes info code) matchers actual := by
  induction matchers generalizing actual index with
  | nil =>
      obtain rfl := List.length_eq_zero_iff.mp h.symm
      simp [checkAll]
  | cons matcher matchers ih =>
      cases actual with
      | nil => cases h
      | cons first others =>
          rw [checkAll, bind_eq_ok_iff, check_eq_ok_iff, ih (Nat.succ.inj h), List.forall₂_cons]

end ErrorMatcher

/-- The diagnostics are those that are due. -/
inductive ExpectedErrors.Describes (info : RuleInfo) (code : String) :
    ExpectedErrors → List Diagnostic → Prop where
  | count (actual : List Diagnostic) : Describes info code (.count actual.length) actual
  | list {matchers : List ErrorMatcher} {actual : List Diagnostic}
      (h : List.Forall₂ (ErrorMatcher.Describes info code) matchers actual) :
      Describes info code (.list matchers) actual

namespace RuleTester

variable {tester : RuleTester}

theorem checkErrors_eq_ok_iff {invalid : InvalidCase} {actual : List Diagnostic} :
    tester.checkErrors invalid actual = .ok () ↔
      invalid.errors.Describes tester.rule.info invalid.code actual := by
  rw [checkErrors, bind_eq_ok_iff, ensure_eq_ok_iff, beq_iff_eq]
  cases invalid.errors with
  | count due =>
      constructor
      · rintro ⟨rfl, -⟩
        exact .count actual
      · rintro ⟨⟩
        exact ⟨rfl, rfl⟩
  | list matchers =>
      constructor
      · rintro ⟨hLength, hAll⟩
        exact .list ((ErrorMatcher.checkAll_eq_ok_iff hLength.symm).mp hAll)
      · rintro ⟨⟩
        rename_i hAll
        exact ⟨hAll.length_eq.symm, (ErrorMatcher.checkAll_eq_ok_iff hAll.length_eq).mpr hAll⟩

/-- A check with a linter passes if the linter can be set up and the check passes with it. -/
theorem withLinter_eq_ok_iff [RegexEngine] {options : List Json}
    {parseOptions : Option ParseOptions}
    {check : Linter → Except CaseError Unit} :
    tester.withLinter options parseOptions check = .ok () ↔
      ∃ linter, Linter.withRules [⟨tester.rule, .error, options⟩] = .ok linter ∧
        check { linter with parseOptions := parseOptions.getD tester.parseOptions } = .ok () := by
  rw [withLinter]
  cases Linter.withRules [⟨tester.rule, .error, options⟩] with
  | error cause => simp
  | ok linter => simp

/-- An invalid case passes if the linter takes its options and its code, the diagnostics are those
that are due, and so is the output. -/
theorem checkInvalid_eq_ok_iff [RegexEngine] {invalid : InvalidCase} :
    tester.checkInvalid invalid = .ok () ↔
      ∃ linter actual, Linter.withRules [⟨tester.rule, .error, invalid.options⟩] = .ok linter ∧
        let linter := { linter with
          parseOptions := invalid.parseOptions.getD tester.parseOptions }
        lint linter invalid.code = .ok actual ∧
        invalid.errors.Describes tester.rule.info invalid.code actual ∧
        checkOutput tester.rule.info invalid
          (linter.verifyAndFix invalid.code { maxPasses := invalid.passes }).output = .ok () := by
  rw [checkInvalid, withLinter_eq_ok_iff]
  apply exists_congr
  intro linter
  rw [exists_and_left]
  apply and_congr_right'
  simp only [← checkErrors_eq_ok_iff]
  cases lint { linter with
      parseOptions := invalid.parseOptions.getD tester.parseOptions } invalid.code with
  | error cause =>
      constructor
      · rintro ⟨⟩
      · rintro ⟨actual, ⟨⟩, -⟩
  | ok actual =>
      constructor
      · intro hPasses
        exact ⟨actual, rfl, bind_eq_ok_iff.mp hPasses⟩
      · rintro ⟨_, ⟨⟩, hPasses⟩
        exact bind_eq_ok_iff.mpr hPasses

theorem failure?_eq_none_iff {kind : CaseKind} {index : Nat} {code : String}
    {outcome : Except CaseError Unit} :
    failure? kind index code outcome = none ↔ outcome = .ok () := by
  cases outcome <;> simp [failure?]

/-- Of some cases none is told just if every one of them passes. -/
theorem filterMap_failure?_eq_nil_iff {α : Type} {kind : CaseKind} {text : α → String}
    {check : α → Except CaseError Unit} {all : List α} :
    all.zipIdx.filterMap (fun (one, index) => failure? kind index (text one) (check one)) = [] ↔
      ∀ one ∈ all, check one = .ok () := by
  simp only [List.filterMap_eq_nil_iff, failure?_eq_none_iff, Prod.forall]
  constructor
  · intro h one hOne
    obtain ⟨index, hIndex, rfl⟩ := List.getElem_of_mem hOne
    exact h _ index (List.mem_zipIdx_iff_getElem?.mpr (List.getElem?_eq_getElem hIndex))
  · intro h one index hOne
    exact h one (List.fst_mem_of_mem_zipIdx hOne)

theorem failures_eq_nil_iff [RegexEngine] {cases : TestCases} :
    tester.failures cases = [] ↔ (∀ valid ∈ cases.valid, tester.checkValid valid = .ok ()) ∧
      ∀ invalid ∈ cases.invalid, tester.checkInvalid invalid = .ok () := by
  rw [failures, List.append_eq_nil_iff]
  exact and_congr filterMap_failure?_eq_nil_iff filterMap_failure?_eq_nil_iff

/-- A fixture passes if the rule is in order, no case stands twice and none fails. -/
theorem check_eq_ok_iff [RegexEngine] {cases : TestCases} :
    tester.check cases = .ok () ↔
      checkInfo tester.rule = .ok () ∧ checkDuplicates cases = .ok () ∧
        tester.failures cases = [] := by
  rw [check]
  cases checkInfo tester.rule with
  | error cause => simp [bind, Except.bind]
  | ok =>
    cases checkDuplicates cases with
    | error cause => simp [bind, Except.bind]
    | ok =>
      cases tester.failures cases with
      | nil => simp [bind, Except.bind, pure, Except.pure]
      | cons first others => simp [bind, Except.bind, throw, throwThe, MonadExceptOf.throw]

/-- If the rule is in order and no case fails, what is found is a case that stands twice. -/
theorem check_eq_checkDuplicates [RegexEngine] {cases : TestCases}
    (hInfo : checkInfo tester.rule = .ok ())
    (hNone : tester.failures cases = []) : tester.check cases = checkDuplicates cases := by
  rw [check, hInfo, hNone]
  cases checkDuplicates cases <;> rfl

end RuleTester

/-- An optional field is cleared, or its value is kept, up to a relation. -/
inductive Clears {α : Type} (Relates : α → α → Prop) : Option α → Option α → Prop where
  | cleared (value : Option α) : Clears Relates value none
  | kept {before after : α} (h : Relates before after) : Clears Relates (some before) (some after)

/-- What is stated after fields were cleared was stated before, or something stronger was. -/
theorem Clears.forall_mem {α : Type} {Relates : α → α → Prop} {P Q : α → Prop}
    {before after : Option α} (h : Clears Relates before after)
    (hRelates : ∀ a b, Relates a b → P a → Q b) (hBefore : ∀ a ∈ before, P a) :
    ∀ b ∈ after, Q b := by
  cases h with
  | cleared => nofun
  | kept hKept =>
      rintro b ⟨⟩
      exact hRelates _ _ hKept (hBefore _ rfl)

theorem Clears.forall_mem_of_eq {α : Type} {P : α → Prop} {before after : Option α}
    (h : Clears Eq before after) (hBefore : ∀ a ∈ before, P a) : ∀ a ∈ after, P a :=
  h.forall_mem (fun _ _ hSame hHolds => hSame ▸ hHolds) hBefore

/-- What holds of each of some things and those beside them holds of the weaker ones too. -/
theorem forall₂_of_weakens {α β : Type} {Weakens : α → α → Prop} {Holds : α → β → Prop}
    {before after : List α} {actual : List β} (h : List.Forall₂ Weakens before after)
    (hBefore : List.Forall₂ Holds before actual)
    (hWeakens : ∀ a b c, Weakens a b → Holds a c → Holds b c) :
    List.Forall₂ Holds after actual := by
  induction h generalizing actual with
  | nil => exact hBefore
  | cons hFirst _ ih =>
      cases hBefore with
      | cons hHolds hRest => exact .cons (hWeakens _ _ _ hFirst hHolds) (ih hRest)

/-- Some of the optional fields of a matcher are cleared. -/
structure SuggestionMatcher.Weakens (before after : SuggestionMatcher) : Prop where
  messageId : Clears Eq before.messageId after.messageId
  description : Clears Eq before.description after.description
  data : Clears Eq before.data after.data
  output : after.output = before.output

/-- Some of the optional fields of a matcher are cleared, and so are some fields of the matchers for
suggestions. -/
structure ErrorMatcher.Weakens (before after : ErrorMatcher) : Prop where
  messageId : Clears Eq before.messageId after.messageId
  message : Clears Eq before.message after.message
  data : Clears Eq before.data after.data
  nodeType : Clears Eq before.nodeType after.nodeType
  line : Clears Eq before.line after.line
  column : Clears Eq before.column after.column
  endLine : Clears Eq before.endLine after.endLine
  endColumn : Clears Eq before.endColumn after.endColumn
  suggestions :
    Clears (List.Forall₂ SuggestionMatcher.Weakens) before.suggestions after.suggestions

/-- Matchers are weakened one by one, or there is only their number left. -/
inductive ExpectedErrors.Weakens : ExpectedErrors → ExpectedErrors → Prop where
  | count (due : Nat) : Weakens (.count due) (.count due)
  | list {before after : List ErrorMatcher} (h : List.Forall₂ ErrorMatcher.Weakens before after) :
      Weakens (.list before) (.list after)
  | length (matchers : List ErrorMatcher) : Weakens (.list matchers) (.count matchers.length)

/-- A case states less of its errors, and is otherwise the same. -/
def InvalidCase.Weakens (before after : InvalidCase) : Prop :=
  ∃ errors, before.errors.Weakens errors ∧ after = { before with errors }

/-- Invalid cases state less of their errors. -/
structure TestCases.Weakens (before after : TestCases) : Prop where
  valid : after.valid = before.valid
  invalid : List.Forall₂ InvalidCase.Weakens before.invalid after.invalid

section

variable {info : RuleInfo} {code : String}

theorem Reports.weakens {messageId actualId actualText : String}
    {before after : Option (List (String × String))} (h : Clears Eq before after)
    (hReports : Reports info messageId before actualId actualText) :
    Reports info messageId after actualId actualText := by
  obtain ⟨template, hTemplate, hId, hFilled⟩ := hReports
  exact ⟨template, hTemplate, hId, h.forall_mem_of_eq hFilled⟩

theorem SuggestionMatcher.Describes.weakens {before after : SuggestionMatcher}
    {actual : Suggestion} (h : before.Weakens after) (hBefore : before.Describes info code actual) :
    after.Describes info code actual where
  messageId := h.messageId.forall_mem_of_eq fun messageId hMessageId =>
    (hBefore.messageId messageId hMessageId).weakens h.data
  description := h.description.forall_mem_of_eq hBefore.description
  output := hBefore.output.trans h.output.symm

theorem ErrorMatcher.Describes.weakens {before after : ErrorMatcher} {actual : Diagnostic}
    (h : before.Weakens after) (hBefore : before.Describes info code actual) :
    after.Describes info code actual where
  alone := by
    apply hBefore.alone.imp
    · intro hNone
      exact Option.eq_none_iff_forall_not_mem.mpr (h.message.forall_mem_of_eq (by simp [hNone]))
    · intro hNone
      exact Option.eq_none_iff_forall_not_mem.mpr (h.messageId.forall_mem_of_eq (by simp [hNone]))
  message := h.message.forall_mem_of_eq hBefore.message
  messageId := h.messageId.forall_mem_of_eq fun messageId hMessageId =>
    (hBefore.messageId messageId hMessageId).weakens h.data
  nodeType := h.nodeType.forall_mem_of_eq hBefore.nodeType
  line := h.line.forall_mem_of_eq hBefore.line
  column := h.column.forall_mem_of_eq hBefore.column
  endLine := h.endLine.forall_mem_of_eq hBefore.endLine
  endColumn := h.endColumn.forall_mem_of_eq hBefore.endColumn
  suggestions := h.suggestions.forall_mem (fun _ _ hMatchers hAll =>
    forall₂_of_weakens hMatchers hAll fun _ _ _ => SuggestionMatcher.Describes.weakens)
    hBefore.suggestions

theorem ExpectedErrors.Describes.weakens {before after : ExpectedErrors}
    {actual : List Diagnostic} (h : before.Weakens after)
    (hBefore : before.Describes info code actual) : after.Describes info code actual := by
  cases h with
  | count due => exact hBefore
  | list hMatchers =>
      cases hBefore with
      | list hAll =>
          exact .list (forall₂_of_weakens hMatchers hAll fun _ _ _ =>
            ErrorMatcher.Describes.weakens)
  | length matchers =>
      cases hBefore with
      | list hAll =>
          -- that each matcher had a diagnostic is all that is left of the list
          rw [hAll.length_eq]
          exact .count actual

end

namespace RuleTester

variable {tester : RuleTester}

/-- A case is linted and fixed as before if its errors are stated less. -/
theorem checkInvalid_weakens [RegexEngine] {before after : InvalidCase} (h : before.Weakens after)
    (hPasses : tester.checkInvalid before = .ok ()) : tester.checkInvalid after = .ok () := by
  obtain ⟨errors, hErrors, rfl⟩ := h
  rw [checkInvalid_eq_ok_iff] at hPasses ⊢
  obtain ⟨linter, actual, hLinter, hLint, hDescribes, hOutput⟩ := hPasses
  exact ⟨linter, actual, hLinter, hLint, hDescribes.weakens hErrors, hOutput⟩

theorem failures_weakens [RegexEngine] {before after : TestCases} (h : before.Weakens after)
    (hNone : tester.failures before = []) : tester.failures after = [] := by
  rw [failures_eq_nil_iff] at hNone ⊢
  obtain ⟨hValid, hInvalid⟩ := hNone
  constructor
  · rwa [h.valid]
  · have hAll := h.invalid
    generalize before.invalid = stronger, after.invalid = weaker at hInvalid hAll ⊢
    induction hAll with
    | nil => nofun
    | cons hFirst _ ih =>
        rw [List.forall_mem_cons] at hInvalid ⊢
        exact ⟨checkInvalid_weakens hFirst hInvalid.1, ih hInvalid.2⟩

/-- The valid cases of weaker fixtures do not stand twice if they did not before. -/
theorem checkDuplicates_weakens {before after : TestCases} (h : before.Weakens after)
    (hNone : checkDuplicates before = .ok ()) :
    checkDuplicates after = .ok () ∨
      ∃ code, checkDuplicates after = .error (.duplicateCase .invalid code) := by
  rw [checkDuplicates] at hNone
  rw [checkDuplicates, h.valid]
  cases hValid : firstRepeated? ValidCase.key [] before.valid with
  | some valid =>
      -- the stronger fixture would not have passed
      rw [hValid] at hNone
      cases hNone
  | none =>
      cases firstRepeated? InvalidCase.key [] after.invalid with
      | none => exact .inl rfl
      | some invalid => exact .inr ⟨invalid.code, rfl⟩

/-- A fixture that passes does not fail when it states less: no case of it fails, and what is found,
if anything, is an invalid case that is now equal to one before it. -/
theorem check_weakens [RegexEngine] {before after : TestCases} (h : before.Weakens after)
    (hPasses : tester.check before = .ok ()) :
    tester.failures after = [] ∧ tester.check after = checkDuplicates after ∧
      (tester.check after = .ok () ∨
        ∃ code, tester.check after = .error (.duplicateCase .invalid code)) := by
  obtain ⟨hInfo, hDuplicates, hNone⟩ := check_eq_ok_iff.mp hPasses
  have hAfter : tester.failures after = [] := failures_weakens h hNone
  have hCheck : tester.check after = checkDuplicates after := check_eq_checkDuplicates hInfo hAfter
  refine ⟨hAfter, hCheck, ?_⟩
  rw [hCheck]
  exact checkDuplicates_weakens h hDuplicates

/-- Two cases that differ in what they state of an error pass. If the error is only counted they are
the same, and that is what is found. -/
theorem check_weakens_counted :
    let tester : RuleTester := { rule := Rules.AsyncExecutor.rule }
    let invalid : InvalidCase :=
      { code := "new Promise(async () => 0)", errors := .list [{ messageId := some "async" }] }
    let other : InvalidCase := { invalid with errors := .list [{ column := some 13 }] }
    let counted : InvalidCase := { invalid with errors := .count 1 }
    tester.check ⟨[], [invalid, other]⟩ = .ok () ∧
      TestCases.Weakens ⟨[], [invalid, other]⟩ ⟨[], [counted, counted]⟩ ∧
      tester.check ⟨[], [counted, counted]⟩ = .error (.duplicateCase .invalid invalid.code) := by
  intro tester invalid other counted
  have hInfo : checkInfo tester.rule = .ok () := by
    obtain ⟨schema, hSchema, -⟩ :=
      exists_of_bind_eq_ok (OptionsSchema.validate_closed_iff.mpr (rfl : ([] : List Json) = []))
    exact checkInfo_eq_ok_iff.mpr ⟨by decide, by decide +kernel, schema, hSchema⟩
  have hSetup : Linter.withRules [⟨tester.rule, .error, []⟩] =
      Linter.ofRules [⟨tester.rule, .error, []⟩] := by
    -- the rule takes no options, and none are given
    have hChecked : Linter.checkAll [⟨tester.rule, .error, []⟩] = .ok () := by
      apply Linter.checkAll_eq_ok_iff.mpr
      simp only [List.forall_mem_singleton]
      exact Linter.checkOptions_closed rfl rfl
    rw [Linter.withRules, List.filter_eq_self.mpr (by decide), hChecked]
  have hNone : tester.failures ⟨[], [invalid, other]⟩ = [] := by
    rw [failures_eq_nil_iff]
    simp only [List.forall_mem_cons]
    refine ⟨List.forall_mem_nil _, ?_, ?_, List.forall_mem_nil _⟩
    · rw [checkInvalid, withLinter, hSetup]
      decide +kernel
    · rw [checkInvalid, withLinter, hSetup]
      decide +kernel
  have hPasses : tester.check ⟨[], [invalid, other]⟩ = .ok () :=
    check_eq_ok_iff.mpr ⟨hInfo, by decide +kernel, hNone⟩
  have hWeakens : TestCases.Weakens ⟨[], [invalid, other]⟩ ⟨[], [counted, counted]⟩ :=
    ⟨rfl, .cons ⟨_, .length _, rfl⟩ (.cons ⟨_, .length _, rfl⟩ .nil)⟩
  obtain ⟨-, hCheck, -⟩ := check_weakens hWeakens hPasses
  exact ⟨hPasses, hWeakens, hCheck.trans (by decide +kernel)⟩

end RuleTester

end EcmaLint.Conformance
