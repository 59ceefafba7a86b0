import EcmaLint.Proofs.Conformance.RoundTrip

/-! What is read of test cases. Placeholder values come in the order of their names, numbers have
the bits of their fields, options are values in order and editions are understood, in whatever form
a document has them. So all test cases that can be read can be written and read again. -/
namespace EcmaLint

open Json Json.Decoder

namespace ParseOptions

theorem gives_decodeVersion : Gives decodeVersion fun version => isSupported version = true := by
  intro document version h
  obtain ⟨edition, -, h⟩ := exists_of_bind_eq_ok h
  cases edition with
  | number value =>
      rw [Edition.version] at h
      split at h
      · cases h
        assumption
      · cases h
  | name value =>
      rw [Edition.version] at h
      split at h
      · cases h
        decide
      · cases h

/-- The newest edition is understood, so it does not matter whether one is given. -/
theorem isSupported_getD {version : Option Nat} (h : ∀ v ∈ version, isSupported v = true) :
    isSupported (version.getD latest) = true := by
  cases version with
  | none => decide
  | some version => exact h version rfl

theorem gives_decoder : Gives decoder fun options => isSupported options.ecmaVersion = true := by
  refine gives_record (fun version => ∀ v ∈ version, isSupported v = true) nofun ?_ ?_ ?_
  · intro version name document next hVersion hNext
    split at hNext
    · exact gives_decodeVersion.once hNext
    · obtain ⟨-, -, hNext⟩ := exists_of_bind_eq_ok hNext
      cases hNext
      exact hVersion
  · intro version options hVersion hOptions
    cases hOptions
    exact isSupported_getD hVersion
  · intro documents ending options rest h
    obtain ⟨⟨version, others⟩, hVersion, h⟩ := exists_of_bind_eq_ok h
    cases h
    exact isSupported_getD (gives_decodeVersion.nextItem hVersion)

end ParseOptions

namespace Conformance

theorem gives_data {decoder : Decoder String} :
    Gives (optional (map decoder)) fun data => ∀ d ∈ data, IsSorted d :=
  gives_map.optional

/-- A field that has to be there was read. -/
theorem mem_of_requiredField {α : Type} {name : String} {value : Option α} {a : α}
    (h : requiredField name value = .ok a) : a ∈ value := by
  cases value with
  | none => cases h
  | some b =>
      cases h
      rfl

theorem gives_requiredItem {α : Type} {decoder : Decoder α} {P : α → Prop} (h : decoder.Gives P)
    {type : String} {fields index : Nat} {documents rest : List Document}
    {ending : Option Fault} {value : α}
    (hValue : requiredItem type fields index decoder documents ending = .ok (value, rest)) :
    P value := by
  obtain ⟨⟨found, others⟩, hFound, hValue⟩ := exists_of_bind_eq_ok hValue
  cases found with
  | none => cases hValue
  | some a =>
      cases hValue
      exact h.nextItem hFound value rfl

namespace SuggestionMatcher

/-- What has been read of a matcher is as it has to be. -/
structure Parts.IsProper (parts : Parts) : Prop where
  data : ∀ data ∈ parts.data.join, IsSorted data

theorem gives_decoder : Gives decoder IsProper := by
  refine gives_record Parts.IsProper ⟨nofun⟩ ?_ ?_ ?_
  · intro parts name document next hParts hNext
    unfold Parts.member at hNext
    -- One case for each name in `fields`, and the last one for all other names.
    split at hNext
    case h_3 => exact gives_data.keeps hNext fun _ hRead => ⟨forall_mem_join hRead⟩
    case h_5 => cases hNext
    case h_1 | h_2 | h_4 => exact gives_any.keeps hNext fun _ _ => ⟨hParts.data⟩
  · intro parts matcher hParts hMatcher
    obtain ⟨output, -, hMatcher⟩ := exists_of_bind_eq_ok hMatcher
    cases hMatcher
    exact ⟨hParts.data⟩
  · intro documents ending matcher rest h
    obtain ⟨⟨messageId, others⟩, -, h⟩ := exists_of_bind_eq_ok h
    obtain ⟨⟨description, others⟩, -, h⟩ := exists_of_bind_eq_ok h
    obtain ⟨⟨data, others⟩, hData, h⟩ := exists_of_bind_eq_ok h
    obtain ⟨⟨output, others⟩, -, h⟩ := exists_of_bind_eq_ok h
    cases h
    exact ⟨forall_mem_join (gives_data.nextItem hData)⟩

end SuggestionMatcher

namespace ErrorMatcher

theorem gives_item {α : Type} {decoder : Decoder α} {P : α → Prop} (h : decoder.Gives P)
    {index : Nat} {documents rest : List Document} {ending : Option Fault} {value : Option α}
    (hValue : item index decoder documents ending = .ok (value, rest)) : ∀ a ∈ value, P a :=
  gives_requiredItem h.optional hValue

/-- The matcher is as it has to be if nothing more is read of it. -/
abbrev Parts.IsProper (parts : Parts) : Prop := parts.finish.IsProper

theorem gives_detailed : Gives detailedDecoder IsProper := by
  refine gives_record Parts.IsProper ?_ ?_ ?_ ?_
  · constructor <;> nofun
  · intro parts name document next hParts hNext
    unfold Parts.member at hNext
    split at hNext
    case h_3 =>
      exact gives_data.keeps hNext fun _ hRead => { hParts with data := forall_mem_join hRead }
    case h_5 =>
      exact gives_natural32.optional.keeps hNext fun _ hRead =>
        { hParts with line := forall_mem_join hRead }
    case h_6 =>
      exact gives_natural32.optional.keeps hNext fun _ hRead =>
        { hParts with column := forall_mem_join hRead }
    case h_7 =>
      exact gives_natural32.optional.keeps hNext fun _ hRead =>
        { hParts with endLine := forall_mem_join hRead }
    case h_8 =>
      exact gives_natural32.optional.keeps hNext fun _ hRead =>
        { hParts with endColumn := forall_mem_join hRead }
    case h_9 =>
      exact SuggestionMatcher.gives_decoder.list.optional.keeps hNext fun _ hRead =>
        { hParts with suggestions := forall_mem_join hRead }
    case h_10 => cases hNext
    case h_1 | h_2 | h_4 => exact gives_any.keeps hNext fun _ _ => { hParts with }
  · intro parts matcher hParts hMatcher
    cases hMatcher
    exact hParts
  · intro documents ending matcher rest h
    obtain ⟨⟨messageId, others⟩, -, h⟩ := exists_of_bind_eq_ok h
    obtain ⟨⟨message, others⟩, -, h⟩ := exists_of_bind_eq_ok h
    obtain ⟨⟨data, others⟩, hData, h⟩ := exists_of_bind_eq_ok h
    obtain ⟨⟨nodeType, others⟩, -, h⟩ := exists_of_bind_eq_ok h
    obtain ⟨⟨line, others⟩, hLine, h⟩ := exists_of_bind_eq_ok h
    obtain ⟨⟨column, others⟩, hColumn, h⟩ := exists_of_bind_eq_ok h
    obtain ⟨⟨endLine, others⟩, hEndLine, h⟩ := exists_of_bind_eq_ok h
    obtain ⟨⟨endColumn, others⟩, hEndColumn, h⟩ := exists_of_bind_eq_ok h
    obtain ⟨⟨suggestions, others⟩, hSuggestions, h⟩ := exists_of_bind_eq_ok h
    cases h
    exact
      { data := gives_item gives_map hData
        line := gives_item gives_natural32 hLine
        column := gives_item gives_natural32 hColumn
        endLine := gives_item gives_natural32 hEndLine
        endColumn := gives_item gives_natural32 hEndColumn
        suggestions := gives_item SuggestionMatcher.gives_decoder.list hSuggestions }

theorem isProper_ofMessage (message : String) : (ofMessage message).IsProper := by
  constructor <;> nofun

theorem gives_decoder : Gives decoder IsProper := by
  apply Gives.firstOf
  simp only [List.forall_mem_cons]
  exact ⟨gives_any.map fun message _ => isProper_ofMessage message, gives_detailed, nofun⟩

end ErrorMatcher

theorem ExpectedErrors.gives_decoder : Gives decoder IsProper := by
  apply Gives.firstOf
  simp only [List.forall_mem_cons]
  exact ⟨gives_natural64.map fun _ hDue => hDue, ErrorMatcher.gives_decoder.list.map
    fun _ hMatchers => hMatchers, nofun⟩

namespace InvalidCase

/-- What has been read of a case is as it has to be. -/
structure Parts.IsProper (parts : Parts) : Prop where
  options : ∀ option ∈ parts.options.getD [], option.IsOrdered
  parseOptions : IsSupported parts.parseOptions.join
  errors : ∀ errors ∈ parts.errors, errors.IsProper
  passes : parts.passes.getD 1 < Nat.pow 2 64

theorem gives_decoder : Gives decoder fun invalid =>
    invalid.IsProper ∧ IsSupported invalid.parseOptions := by
  have hOne : ∀ passes : Option Nat, (∀ n ∈ passes, n < Nat.pow 2 64) →
      passes.getD 1 < Nat.pow 2 64 := by
    rintro (_ | passes) hPasses
    · decide
    · exact hPasses passes rfl
  refine gives_record Parts.IsProper ?_ ?_ ?_ ?_
  · exact ⟨nofun, nofun, nofun, by decide⟩
  · intro parts name document next hParts hNext
    unfold Parts.member at hNext
    split at hNext
    case h_2 =>
      exact gives_value.list.keeps hNext fun _ hRead =>
        { hParts with options := forall_mem_getD hRead }
    case h_3 =>
      exact ParseOptions.gives_decoder.optional.keeps hNext fun _ hRead =>
        { hParts with parseOptions := forall_mem_join hRead }
    case h_5 =>
      exact ExpectedErrors.gives_decoder.keeps hNext fun _ hRead => { hParts with errors := hRead }
    case h_7 =>
      exact gives_natural64.keeps hNext fun read hRead => { hParts with passes := hOne read hRead }
    case h_8 => cases hNext
    case h_1 | h_4 | h_6 => exact gives_any.keeps hNext fun _ _ => { hParts with }
  · intro parts invalid hParts hInvalid
    obtain ⟨code, -, hInvalid⟩ := exists_of_bind_eq_ok hInvalid
    obtain ⟨errors, hErrors, hInvalid⟩ := exists_of_bind_eq_ok hInvalid
    cases hInvalid
    exact ⟨⟨hParts.options, hParts.errors errors (mem_of_requiredField hErrors), hParts.passes⟩,
      hParts.parseOptions⟩
  · intro documents ending invalid rest h
    obtain ⟨⟨code, others⟩, -, h⟩ := exists_of_bind_eq_ok h
    obtain ⟨⟨options, others⟩, hOptions, h⟩ := exists_of_bind_eq_ok h
    obtain ⟨⟨parseOptions, others⟩, hParseOptions, h⟩ := exists_of_bind_eq_ok h
    obtain ⟨⟨name, others⟩, -, h⟩ := exists_of_bind_eq_ok h
    obtain ⟨⟨errors, others⟩, hErrors, h⟩ := exists_of_bind_eq_ok h
    obtain ⟨⟨output, others⟩, -, h⟩ := exists_of_bind_eq_ok h
    obtain ⟨⟨passes, others⟩, hPasses, h⟩ := exists_of_bind_eq_ok h
    cases h
    exact ⟨⟨forall_mem_getD (gives_value.list.nextItem hOptions),
      gives_requiredItem ExpectedErrors.gives_decoder hErrors,
      hOne passes (gives_natural64.nextItem hPasses)⟩,
      forall_mem_join (ParseOptions.gives_decoder.optional.nextItem hParseOptions)⟩

end InvalidCase

namespace ValidDetails

/-- What has been read of a case is as it has to be. -/
structure Parts.IsProper (parts : Parts) : Prop where
  options : ∀ option ∈ parts.options.getD [], option.IsOrdered
  parseOptions : IsSupported parts.parseOptions.join

theorem gives_decoder : Gives decoder fun details =>
    (∀ option ∈ details.options, option.IsOrdered) ∧ IsSupported details.parseOptions := by
  refine gives_record Parts.IsProper ⟨nofun, nofun⟩ ?_ ?_ ?_
  · intro parts name document next hParts hNext
    unfold Parts.member at hNext
    split at hNext
    case h_2 =>
      exact gives_value.list.keeps hNext fun _ hRead =>
        { hParts with options := forall_mem_getD hRead }
    case h_3 =>
      exact ParseOptions.gives_decoder.optional.keeps hNext fun _ hRead =>
        { hParts with parseOptions := forall_mem_join hRead }
    case h_5 => cases hNext
    case h_1 | h_4 => exact gives_any.keeps hNext fun _ _ => { hParts with }
  · intro parts details hParts hDetails
    obtain ⟨code, -, hDetails⟩ := exists_of_bind_eq_ok hDetails
    cases hDetails
    exact ⟨hParts.options, hParts.parseOptions⟩
  · intro documents ending details rest h
    obtain ⟨⟨code, others⟩, -, h⟩ := exists_of_bind_eq_ok h
    obtain ⟨⟨options, others⟩, hOptions, h⟩ := exists_of_bind_eq_ok h
    obtain ⟨⟨parseOptions, others⟩, hParseOptions, h⟩ := exists_of_bind_eq_ok h
    obtain ⟨⟨name, others⟩, -, h⟩ := exists_of_bind_eq_ok h
    cases h
    exact ⟨forall_mem_getD (gives_value.list.nextItem hOptions),
      forall_mem_join (ParseOptions.gives_decoder.optional.nextItem hParseOptions)⟩

end ValidDetails

theorem ValidCase.gives_decoder : Gives decoder fun valid =>
    (∀ option ∈ valid.options, option.IsOrdered) ∧ IsSupported valid.parseOptions := by
  apply Gives.firstOf
  simp only [List.forall_mem_cons]
  exact ⟨gives_any.map fun _ _ => ⟨nofun, nofun⟩,
    ValidDetails.gives_decoder.map fun _ hDetails => hDetails, nofun⟩

namespace TestCases

/-- What has been read of test cases is as it has to be. -/
structure Parts.IsProper (parts : Parts) : Prop where
  valid : ∀ valid ∈ parts.valid.getD [],
    (∀ option ∈ valid.options, option.IsOrdered) ∧ Conformance.IsSupported valid.parseOptions
  invalid : ∀ invalid ∈ parts.invalid.getD [],
    invalid.IsProper ∧ Conformance.IsSupported invalid.parseOptions

theorem Parts.IsProper.finish {parts : Parts} (h : parts.IsProper) :
    parts.finish.IsProper ∧ parts.finish.IsSupported :=
  ⟨⟨fun valid hValid => (h.valid valid hValid).1,
    fun invalid hInvalid => (h.invalid invalid hInvalid).1⟩,
   ⟨fun valid hValid => (h.valid valid hValid).2,
    fun invalid hInvalid => (h.invalid invalid hInvalid).2⟩⟩

/-- Whatever a document is like, the test cases that are read of it are proper, and the editions
that they give are understood. -/
theorem gives_decoder : Gives decoder fun cases => cases.IsProper ∧ cases.IsSupported := by
  refine gives_record Parts.IsProper ⟨nofun, nofun⟩ ?_ ?_ ?_
  · intro parts name document next hParts hNext
    unfold Parts.member at hNext
    split at hNext
    case h_1 =>
      exact ValidCase.gives_decoder.list.keeps hNext fun _ hRead =>
        { hParts with valid := forall_mem_getD hRead }
    case h_2 =>
      exact InvalidCase.gives_decoder.list.keeps hNext fun _ hRead =>
        { hParts with invalid := forall_mem_getD hRead }
    case h_3 => cases hNext
  · intro parts cases hParts hCases
    cases hCases
    exact hParts.finish
  · intro documents ending cases rest h
    obtain ⟨⟨valid, others⟩, hValid, h⟩ := exists_of_bind_eq_ok h
    obtain ⟨⟨invalid, others⟩, hInvalid, h⟩ := exists_of_bind_eq_ok h
    cases h
    have hParts : Parts.IsProper ⟨valid, invalid⟩ :=
      ⟨forall_mem_getD (ValidCase.gives_decoder.list.nextItem hValid),
        forall_mem_getD (InvalidCase.gives_decoder.list.nextItem hInvalid)⟩
    exact hParts.finish

/-- What is read of a text can be written and read again. -/
theorem decode_toJson_of_ofJsonText {text : String} {cases : TestCases}
    (h : ofJsonText text = .ok cases) : decode decoder cases.toJson = .ok cases := by
  obtain ⟨value, hValue, h⟩ := exists_of_bind_eq_ok h
  obtain ⟨-, -, h⟩ := exists_of_bind_eq_ok h
  cases h
  obtain ⟨hProper, hEditions⟩ := gives_decoder hValue
  exact decode_toJson hProper hEditions

end TestCases

end Conformance

end EcmaLint
