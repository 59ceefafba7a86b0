import EcmaLint.Conformance.Reader
import EcmaLint.Proofs.Json.Decoding

/-! Test cases written as JSON and read back. Matchers leave out what they do not state, and cases
an output of which nothing is said; everything else is written, if only as `null`. So no two cases
are written alike, and each one is found again from what was written. -/
namespace EcmaLint

open Json

namespace Json

theorem string_ne_null (text : String) : Json.string text ≠ .null := nofun

theorem nat_ne_null (n : Nat) : nat n ≠ .null := nofun

theorem array_ne_null (items : List Json) : Json.array items ≠ .null := nofun

theorem isOrdered_nat (n : Nat) : (nat n).IsOrdered := .number _

theorem fits_nat (levels : Nat) {n : Nat} (h : n < Nat.pow 2 64) : (nat n).Fits levels :=
  .natural levels (Nat.le_sub_one_of_lt h)

theorem decode_natural {type : String} {largest n : Nat} (h : n ≤ largest) :
    decode (Decoder.natural type largest) (.nat n) = .ok n :=
  if_pos h

theorem decode_natural32 {n : Nat} (h : n < Nat.pow 2 32) :
    decode Decoder.natural32 (.nat n) = .ok n :=
  decode_natural (Nat.le_sub_one_of_lt h)

theorem decode_natural64 {n : Nat} (h : n < Nat.pow 2 64) :
    decode Decoder.natural64 (.nat n) = .ok n :=
  decode_natural (Nat.le_sub_one_of_lt h)

/-- A list of values in order is read as it is. -/
theorem decode_list_value {items : List Json} (h : ∀ item ∈ items, item.IsOrdered) :
    decode (Decoder.list Decoder.value) (.array items) = .ok items := by
  have hItems := @decode_list _ Decoder.value id items fun item hItem => decode_value (h item hItem)
  rwa [List.map_id] at hItems

end Json

namespace ParseOptions

theorem le_of_isSupported {version : Nat} (h : isSupported version = true) : version ≤ latest := by
  have hLatest : latest = 2024 := rfl
  simp only [isSupported, Bool.or_eq_true, Bool.and_eq_true, beq_iff_eq, decide_eq_true_eq] at h
  omega

theorem toJson_eq (options : ParseOptions) :
    options.toJson = .object (written [("ecmaVersion", some (.nat options.ecmaVersion))]) := rfl

theorem toJson_ne_null (options : ParseOptions) : options.toJson ≠ .null := nofun

theorem isOrdered_toJson (options : ParseOptions) : options.toJson.IsOrdered := by
  apply isOrdered_ofMembers
  rintro member hMember
  obtain rfl := List.mem_singleton.mp hMember
  exact isOrdered_nat _

theorem fits_toJson {options : ParseOptions} (h : isSupported options.ecmaVersion = true)
    (levels : Nat) : options.toJson.Fits (levels + 1) := by
  apply Fits.ofMembers
  intro member hMember
  obtain rfl := List.mem_singleton.mp hMember
  exact fits_nat levels (Nat.lt_of_le_of_lt (le_of_isSupported h) (by decide))

theorem decode_version {version : Nat} (h : isSupported version = true) :
    decode decodeVersion (.nat version) = .ok version := by
  have hSmall : version ≤ Nat.pow 2 16 - 1 := Nat.le_trans (le_of_isSupported h) (by decide)
  have hNumber : decode (fun document => Edition.number <$> Decoder.natural16 document)
      (.nat version) = .ok (.number version) := by
    have hNatural := @decode_natural "u16" (Nat.pow 2 16 - 1) version hSmall
    rw [decode] at hNatural ⊢
    rw [Decoder.natural16, hNatural]
    rfl
  have hEdition := @decode_firstOf _ "Version" []
    [fun document => Edition.name <$> Decoder.string document] _ _ _
    (isOrdered_nat version) (by simp) hNumber
  rw [decode, List.nil_append] at hEdition
  rw [decode, decodeVersion, hEdition]
  exact if_pos h

/-- Parse options are read back if their edition is one that is understood. -/
theorem decode_toJson {options : ParseOptions} (h : isSupported options.ecmaVersion = true) :
    decode decoder options.toJson = .ok options := by
  rw [toJson_eq, decoder, @decode_record_object _ _ _ _ (some options.ecmaVersion)]
  · rfl
  · apply foldMembers_member (fun _ version => version) _ (decode_version h) rfl
    intro document
    exact (bind_pure _).symm

end ParseOptions

namespace Conformance

theorem join_map_some {α : Type} (value : Option α) : (value.map some).join = value := by
  cases value <;> rfl

/-- A value or `null` is read as what was written. -/
theorem decode_orNull {α : Type} {decoder : Decoder α} {write : α → Json} {value : Option α}
    (hNull : ∀ a, write a ≠ .null) (h : ∀ a ∈ value, decode decoder (write a) = .ok a) :
    decode (Decoder.optional decoder) (orNull (value.map write)) = .ok value := by
  cases value with
  | none => rfl
  | some a => exact decode_optional (hNull a) (h a rfl)

/-- What holds of `null` and of a value holds of a value or `null`. -/
theorem orNull_of_forall {α : Type} {P : Json → Prop} {write : α → Json} {value : Option α}
    (hNull : P .null) (h : ∀ a ∈ value, P (write a)) : P (orNull (value.map write)) := by
  cases value with
  | none => exact hNull
  | some a => exact h a rfl

/-- Placeholder values stand in the order of their names, each name once. -/
def IsSorted (data : List (String × String)) : Prop := data.Pairwise fun a b => a.1 < b.1

theorem dataJson_eq {data : List (String × String)} (h : IsSorted data) :
    dataJson data = .object (data.map fun (name, value) => (name, .string value)) :=
  congrArg Json.object (sortMembers_of_pairwise (List.pairwise_map.mpr h))

theorem dataJson_ne_null (data : List (String × String)) : dataJson data ≠ .null := nofun

theorem isOrdered_dataJson (data : List (String × String)) : (dataJson data).IsOrdered := by
  apply isOrdered_ofMembers
  intro member hMember
  obtain ⟨entry, -, rfl⟩ := List.mem_map.mp hMember
  exact .string entry.2

theorem fits_dataJson (data : List (String × String)) (levels : Nat) :
    (dataJson data).Fits (levels + 1) := by
  apply Fits.ofMembers
  intro member hMember
  obtain ⟨entry, -, rfl⟩ := List.mem_map.mp hMember
  exact .string levels entry.2

/-- Texts are read as texts, also by a decoder that takes other values too. -/
theorem decode_dataJson {decoder : Decoder String} {data : List (String × String)}
    (hText : ∀ text, decode decoder (.string text) = .ok text) (h : IsSorted data) :
    decode (Decoder.map decoder) (dataJson data) = .ok data := by
  rw [dataJson_eq h]
  exact decode_map h fun entry _ => hText entry.2

namespace SuggestionMatcher

/-- Matchers hold placeholder values in order. -/
structure IsProper (matcher : SuggestionMatcher) : Prop where
  data : ∀ data ∈ matcher.data, IsSorted data

/-- What a matcher states, by name. -/
def stated (matcher : SuggestionMatcher) : List (String × Option Json) :=
  [("messageId", matcher.messageId.map Json.string),
   ("desc", matcher.description.map Json.string), ("data", matcher.data.map dataJson),
   ("output", some (.string matcher.output))]

theorem toJson_eq (matcher : SuggestionMatcher) :
    matcher.toJson = ofMembers (written matcher.stated) := by
  simp [toJson, stated, written, optionalMember]

theorem sortMembers_stated (matcher : SuggestionMatcher) :
    sortMembers matcher.stated =
      [("data", matcher.data.map dataJson), ("desc", matcher.description.map Json.string),
       ("messageId", matcher.messageId.map Json.string),
       ("output", some (.string matcher.output))] := rfl

theorem isOrdered_toJson (matcher : SuggestionMatcher) : matcher.toJson.IsOrdered := by
  rw [toJson_eq]
  apply isOrdered_written
  simp only [stated, List.forall_mem_cons]
  exact ⟨forall_mem_map fun text _ => .string text, forall_mem_map fun text _ => .string text,
    forall_mem_map fun data _ => isOrdered_dataJson data, fun _ h => Option.some.inj h ▸ .string _,
    nofun⟩

theorem fits_toJson (matcher : SuggestionMatcher) (levels : Nat) :
    matcher.toJson.Fits (levels + 2) := by
  rw [toJson_eq]
  apply fits_written
  simp only [stated, List.forall_mem_cons]
  exact ⟨forall_mem_map fun text _ => .string _ text, forall_mem_map fun text _ => .string _ text,
    forall_mem_map fun data _ => fits_dataJson data levels,
    fun _ h => Option.some.inj h ▸ .string _ _, nofun⟩

theorem decode_toJson {matcher : SuggestionMatcher} (h : matcher.IsProper) :
    decode decoder matcher.toJson = .ok matcher := by
  have hParts : Decoder.foldMembers Parts.member {}
      (Document.ofMembers (written (sortMembers matcher.stated))) =
        .ok ⟨matcher.messageId.map some, matcher.description.map some, matcher.data.map some,
          some matcher.output⟩ := by
    rw [sortMembers_stated]
    apply foldMembers_field (fun (parts : Parts) data => { parts with data }) (fun _ => rfl) rfl
      dataJson_ne_null fun data hData => decode_dataJson decode_string (h.data data hData)
    apply foldMembers_field (fun (parts : Parts) description => { parts with description })
      (fun _ => rfl) rfl string_ne_null fun text _ => decode_string text
    apply foldMembers_field (fun (parts : Parts) messageId => { parts with messageId })
      (fun _ => rfl) rfl string_ne_null fun text _ => decode_string text
    exact foldMembers_member (fun (parts : Parts) output => { parts with output }) (fun _ => rfl)
      (decode_string matcher.output) rfl
  rw [toJson_eq, ofMembers_written (by simp [stated]), decoder, decode_record_object hParts,
    Parts.finish]
  simp only [join_map_some]
  rfl

end SuggestionMatcher

namespace ErrorMatcher

/-- Matchers hold placeholder values in order, and lines and columns of 32 bits. -/
structure IsProper (matcher : ErrorMatcher) : Prop where
  data : ∀ data ∈ matcher.data, IsSorted data
  line : ∀ line ∈ matcher.line, line < Nat.pow 2 32
  column : ∀ column ∈ matcher.column, column < Nat.pow 2 32
  endLine : ∀ line ∈ matcher.endLine, line < Nat.pow 2 32
  endColumn : ∀ column ∈ matcher.endColumn, column < Nat.pow 2 32
  suggestions : ∀ matchers ∈ matcher.suggestions, ∀ suggestion ∈ matchers, suggestion.IsProper

/-- What a matcher states, by name. -/
def stated (matcher : ErrorMatcher) : List (String × Option Json) :=
  [("messageId", matcher.messageId.map Json.string), ("message", matcher.message.map Json.string),
   ("data", matcher.data.map dataJson), ("type", matcher.nodeType.map Json.string),
   ("line", matcher.line.map Json.nat), ("column", matcher.column.map Json.nat),
   ("endLine", matcher.endLine.map Json.nat), ("endColumn", matcher.endColumn.map Json.nat),
   ("suggestions", matcher.suggestions.map fun matchers =>
     .array (matchers.map SuggestionMatcher.toJson))]

theorem toJson_eq (matcher : ErrorMatcher) :
    matcher.toJson = ofMembers (written matcher.stated) := by
  simp [toJson, stated, written]

theorem sortMembers_stated (matcher : ErrorMatcher) :
    sortMembers matcher.stated =
      [("column", matcher.column.map Json.nat), ("data", matcher.data.map dataJson),
       ("endColumn", matcher.endColumn.map Json.nat), ("endLine", matcher.endLine.map Json.nat),
       ("line", matcher.line.map Json.nat), ("message", matcher.message.map Json.string),
       ("messageId", matcher.messageId.map Json.string),
       ("suggestions", matcher.suggestions.map fun matchers =>
         .array (matchers.map SuggestionMatcher.toJson)),
       ("type", matcher.nodeType.map Json.string)] := rfl

theorem isOrdered_toJson (matcher : ErrorMatcher) : matcher.toJson.IsOrdered := by
  rw [toJson_eq]
  apply isOrdered_written
  simp only [stated, List.forall_mem_cons]
  have hText : ∀ text : Option String, ∀ json ∈ text.map Json.string, json.IsOrdered :=
    fun text => forall_mem_map fun text _ => .string text
  have hNumber : ∀ number : Option Nat, ∀ json ∈ number.map Json.nat, json.IsOrdered :=
    fun number => forall_mem_map fun n _ => isOrdered_nat n
  refine ⟨hText _, hText _, forall_mem_map fun data _ => isOrdered_dataJson data, hText _,
    hNumber _, hNumber _, hNumber _, hNumber _, forall_mem_map fun matchers _ => .array ?_, nofun⟩
  intro item hItem
  obtain ⟨suggestion, -, rfl⟩ := List.mem_map.mp hItem
  exact suggestion.isOrdered_toJson

theorem fits_toJson {matcher : ErrorMatcher} (h : matcher.IsProper) (levels : Nat) :
    matcher.toJson.Fits (levels + 4) := by
  rw [toJson_eq]
  apply fits_written
  simp only [stated, List.forall_mem_cons]
  have hText : ∀ text : Option String, ∀ json ∈ text.map Json.string, json.Fits (levels + 3) :=
    fun text => forall_mem_map fun text _ => .string _ text
  have hNumber : ∀ number : Option Nat, (∀ n ∈ number, n < Nat.pow 2 32) →
      ∀ json ∈ number.map Json.nat, json.Fits (levels + 3) :=
    fun number hNumber => forall_mem_map fun n hn =>
      fits_nat _ (Nat.lt_trans (hNumber n hn) (by decide))
  refine ⟨hText _, hText _, forall_mem_map fun data _ => fits_dataJson data _, hText _,
    hNumber _ h.line, hNumber _ h.column, hNumber _ h.endLine, hNumber _ h.endColumn,
    forall_mem_map fun matchers _ => .array ?_, nofun⟩
  intro item hItem
  obtain ⟨suggestion, -, rfl⟩ := List.mem_map.mp hItem
  exact suggestion.fits_toJson levels

theorem decode_detailed {matcher : ErrorMatcher} (h : matcher.IsProper) :
    decode detailedDecoder matcher.toJson = .ok matcher := by
  have hParts : Decoder.foldMembers Parts.member {}
      (Document.ofMembers (written (sortMembers matcher.stated))) =
        .ok ⟨matcher.messageId.map some, matcher.message.map some, matcher.data.map some,
          matcher.nodeType.map some, matcher.line.map some, matcher.column.map some,
          matcher.endLine.map some, matcher.endColumn.map some, matcher.suggestions.map some⟩ := by
    rw [sortMembers_stated]
    apply foldMembers_field (fun (parts : Parts) column => { parts with column }) (fun _ => rfl) rfl
      nat_ne_null fun column hColumn => decode_natural32 (h.column column hColumn)
    apply foldMembers_field (fun (parts : Parts) data => { parts with data }) (fun _ => rfl) rfl
      dataJson_ne_null fun data hData => decode_dataJson (fun _ => rfl) (h.data data hData)
    -- The state is cleared up on the way, as each update writes out all of its fields again.
    dsimp only
    apply foldMembers_field (fun (parts : Parts) endColumn => { parts with endColumn })
      (fun _ => rfl) rfl nat_ne_null
      fun column hColumn => decode_natural32 (h.endColumn column hColumn)
    apply foldMembers_field (fun (parts : Parts) endLine => { parts with endLine }) (fun _ => rfl)
      rfl nat_ne_null fun line hLine => decode_natural32 (h.endLine line hLine)
    dsimp only
    apply foldMembers_field (fun (parts : Parts) line => { parts with line }) (fun _ => rfl) rfl
      nat_ne_null fun line hLine => decode_natural32 (h.line line hLine)
    apply foldMembers_field (fun (parts : Parts) message => { parts with message }) (fun _ => rfl)
      rfl string_ne_null fun text _ => decode_string text
    dsimp only
    apply foldMembers_field (fun (parts : Parts) messageId => { parts with messageId })
      (fun _ => rfl) rfl string_ne_null fun text _ => decode_string text
    apply foldMembers_field (fun (parts : Parts) suggestions => { parts with suggestions })
      (fun _ => rfl) rfl (fun _ => array_ne_null _) fun matchers hMatchers =>
        decode_list fun suggestion hSuggestion =>
          SuggestionMatcher.decode_toJson (h.suggestions matchers hMatchers suggestion hSuggestion)
    dsimp only
    exact foldMembers_field (fun (parts : Parts) nodeType => { parts with nodeType })
      (fun _ => rfl) rfl string_ne_null (fun text _ => decode_string text) rfl
  rw [toJson_eq, ofMembers_written (by simp [stated]), detailedDecoder,
    decode_record_object hParts, Parts.finish]
  simp only [join_map_some]

/-- A matcher is written in full, also if it states the message alone, and so it is read. -/
theorem decode_toJson {matcher : ErrorMatcher} (h : matcher.IsProper) :
    decode decoder matcher.toJson = .ok matcher := by
  refine @decode_firstOf _ _ [_] _ _ _ _ matcher.isOrdered_toJson ?_ (decode_detailed h)
  intro other hOther
  obtain rfl := List.mem_singleton.mp hOther
  rfl

end ErrorMatcher

namespace ExpectedErrors

/-- Counts have 64 bits, and matchers hold what they can hold. -/
def IsProper : ExpectedErrors → Prop
  | count due => due < Nat.pow 2 64
  | list matchers => ∀ matcher ∈ matchers, matcher.IsProper

theorem isOrdered_toJson (errors : ExpectedErrors) : errors.toJson.IsOrdered := by
  cases errors with
  | count due => exact isOrdered_nat due
  | list matchers =>
      apply IsOrdered.array
      intro item hItem
      obtain ⟨matcher, -, rfl⟩ := List.mem_map.mp hItem
      exact matcher.isOrdered_toJson

theorem fits_toJson {errors : ExpectedErrors} (h : errors.IsProper) (levels : Nat) :
    errors.toJson.Fits (levels + 5) := by
  cases errors with
  | count due => exact fits_nat _ h
  | list matchers =>
      apply Fits.array
      intro item hItem
      obtain ⟨matcher, hMatcher, rfl⟩ := List.mem_map.mp hItem
      exact ErrorMatcher.fits_toJson (h matcher hMatcher) levels

/-- A number is no list of matchers, and a list is no number. -/
theorem decode_toJson {errors : ExpectedErrors} (h : errors.IsProper) :
    decode decoder errors.toJson = .ok errors := by
  have hOrdered := errors.isOrdered_toJson
  cases errors with
  | count due =>
      refine @decode_firstOf _ _ [] [_] _ _ _ hOrdered (by simp) ?_
      have hNumber := decode_natural64 h
      rw [decode] at hNumber ⊢
      rw [toJson, hNumber]
      rfl
  | list matchers =>
      have hList := @decode_list _ ErrorMatcher.decoder ErrorMatcher.toJson matchers
        fun matcher hMatcher => ErrorMatcher.decode_toJson (h matcher hMatcher)
      refine @decode_firstOf _ _ [_] _ _ _ _ hOrdered ?_ ?_
      · intro other hOther
        obtain rfl := List.mem_singleton.mp hOther
        rfl
      · rw [decode] at hList ⊢
        rw [toJson, hList]
        rfl

end ExpectedErrors

namespace ExpectedOutput

/-- What is written of an output. -/
def stated? : ExpectedOutput → Option Json
  | unstated => none
  | unchanged => some .null
  | text output => some (.string output)

/-- An output, if anything is said of it. -/
def said? : ExpectedOutput → Option ExpectedOutput
  | unstated => none
  | output => some output

theorem member_eq (output : ExpectedOutput) :
    output.member = optionalMember "output" output.stated? := by
  cases output <;> rfl

theorem getD_said? (output : ExpectedOutput) : output.said?.getD .unstated = output := by
  cases output <;> rfl

end ExpectedOutput

/-- Where an edition is given, it is one that is understood. -/
def IsSupported (parseOptions : Option ParseOptions) : Prop :=
  ∀ options ∈ parseOptions, ParseOptions.isSupported options.ecmaVersion = true

theorem decode_parseOptions {parseOptions : Option ParseOptions} (h : IsSupported parseOptions) :
    decode (Decoder.optional ParseOptions.decoder)
      (orNull (parseOptions.map ParseOptions.toJson)) = .ok parseOptions :=
  decode_orNull ParseOptions.toJson_ne_null fun options hOptions =>
    ParseOptions.decode_toJson (h options hOptions)

theorem isOrdered_parseOptions (parseOptions : Option ParseOptions) :
    (orNull (parseOptions.map ParseOptions.toJson)).IsOrdered :=
  orNull_of_forall .null fun options _ => options.isOrdered_toJson

theorem fits_parseOptions {parseOptions : Option ParseOptions} (h : IsSupported parseOptions)
    (levels : Nat) : (orNull (parseOptions.map ParseOptions.toJson)).Fits (levels + 1) :=
  orNull_of_forall (.null _) fun options hOptions =>
    ParseOptions.fits_toJson (h options hOptions) levels

theorem decode_name (name : Option String) :
    decode (Decoder.optional Decoder.string) (orNull (name.map Json.string)) = .ok name :=
  decode_orNull string_ne_null fun text _ => decode_string text

theorem isOrdered_name (name : Option String) : (orNull (name.map Json.string)).IsOrdered :=
  orNull_of_forall .null fun text _ => .string text

theorem fits_name (name : Option String) (levels : Nat) :
    (orNull (name.map Json.string)).Fits levels :=
  orNull_of_forall (.null _) fun text _ => .string _ text

namespace InvalidCase

/-- Options are JSON values in order, counts have 64 bits, and matchers hold what they can hold. -/
structure IsProper (invalid : InvalidCase) : Prop where
  options : ∀ option ∈ invalid.options, option.IsOrdered
  errors : invalid.errors.IsProper
  passes : invalid.passes < Nat.pow 2 64

/-- What is written of a case, by name. -/
def stated (invalid : InvalidCase) : List (String × Option Json) :=
  [("code", some (.string invalid.code)), ("options", some (.array invalid.options)),
   ("parseOptions", some (orNull (invalid.parseOptions.map ParseOptions.toJson))),
   ("name", some (orNull (invalid.name.map Json.string))),
   ("errors", some invalid.errors.toJson), ("passes", some (.nat invalid.passes)),
   ("output", invalid.output.stated?)]

theorem toJson_eq (invalid : InvalidCase) :
    invalid.toJson = ofMembers (written invalid.stated) := by
  simp [toJson, caseMembers, stated, written, optionalMember, ExpectedOutput.member_eq]

theorem sortMembers_stated (invalid : InvalidCase) :
    sortMembers invalid.stated =
      [("code", some (.string invalid.code)), ("errors", some invalid.errors.toJson),
       ("name", some (orNull (invalid.name.map Json.string))),
       ("options", some (.array invalid.options)), ("output", invalid.output.stated?),
       ("parseOptions", some (orNull (invalid.parseOptions.map ParseOptions.toJson))),
       ("passes", some (.nat invalid.passes))] := rfl

theorem isOrdered_toJson {invalid : InvalidCase} (h : invalid.IsProper) :
    invalid.toJson.IsOrdered := by
  rw [toJson_eq]
  apply isOrdered_written
  simp only [stated, List.forall_mem_cons, Option.mem_some_iff, forall_eq']
  refine ⟨.string _, .array h.options, isOrdered_parseOptions _, isOrdered_name _,
    invalid.errors.isOrdered_toJson, isOrdered_nat _, ?_, nofun⟩
  cases invalid.output with
  | unstated => exact nofun
  | unchanged => exact fun _ h => Option.some.inj h ▸ .null
  | text output => exact fun _ h => Option.some.inj h ▸ .string output

/-- A case is nested two levels deeper than its options, as long as these are the deepest part. -/
theorem fits_toJson {invalid : InvalidCase} {levels : Nat} (h : invalid.IsProper)
    (hEdition : IsSupported invalid.parseOptions)
    (hOptions : ∀ option ∈ invalid.options, option.Fits (levels + 4)) :
    invalid.toJson.Fits (levels + 6) := by
  rw [toJson_eq]
  apply fits_written
  simp only [stated, List.forall_mem_cons, Option.mem_some_iff, forall_eq']
  refine ⟨.string _ _, .array hOptions, fits_parseOptions hEdition _, fits_name _ _,
    ExpectedErrors.fits_toJson h.errors _, fits_nat _ h.passes, ?_, nofun⟩
  cases invalid.output with
  | unstated => exact nofun
  | unchanged => exact fun _ h => Option.some.inj h ▸ .null _
  | text output => exact fun _ h => Option.some.inj h ▸ .string _ output

/-- An output that is missing is told from one that is `null`. -/
theorem foldMembers_output {parts result : Parts} {output : ExpectedOutput}
    {fields : List (String × Option Json)} (hNew : parts.output = none)
    (hRest : Decoder.foldMembers Parts.member { parts with output := output.said? }
      (Document.ofMembers (written fields)) = .ok result) :
    Decoder.foldMembers Parts.member parts
      (Document.ofMembers (written (("output", output.stated?) :: fields))) = .ok result := by
  obtain ⟨code, options, parseOptions, name, errors, _, passes⟩ := parts
  subst hNew
  cases output with
  | unstated => exact hRest
  | unchanged =>
      exact foldMembers_member (fun (parts : Parts) output => { parts with output }) (fun _ => rfl)
        rfl hRest
  | text output =>
      exact foldMembers_member (fun (parts : Parts) output => { parts with output }) (fun _ => rfl)
        rfl hRest

theorem decode_toJson {invalid : InvalidCase} (h : invalid.IsProper)
    (hEdition : IsSupported invalid.parseOptions) :
    decode decoder invalid.toJson = .ok invalid := by
  have hParts : Decoder.foldMembers Parts.member {}
      (Document.ofMembers (written (sortMembers invalid.stated))) =
        .ok ⟨some invalid.code, some invalid.options, some invalid.parseOptions,
          some invalid.name, some invalid.errors, invalid.output.said?, some invalid.passes⟩ := by
    rw [sortMembers_stated]
    apply foldMembers_member (fun (parts : Parts) code => { parts with code }) (fun _ => rfl)
      (decode_string invalid.code)
    apply foldMembers_member (fun (parts : Parts) errors => { parts with errors }) (fun _ => rfl)
      (ExpectedErrors.decode_toJson h.errors)
    dsimp only
    apply foldMembers_member (fun (parts : Parts) name => { parts with name }) (fun _ => rfl)
      (decode_name invalid.name)
    apply foldMembers_member (fun (parts : Parts) options => { parts with options }) (fun _ => rfl)
      (decode_list_value h.options)
    dsimp only
    apply foldMembers_output rfl
    dsimp only
    apply foldMembers_member (fun (parts : Parts) parseOptions => { parts with parseOptions })
      (fun _ => rfl) (decode_parseOptions hEdition)
    exact foldMembers_member (fun (parts : Parts) passes => { parts with passes }) (fun _ => rfl)
      (decode_natural64 h.passes) rfl
  rw [toJson_eq, ofMembers_written (by simp [stated]), decoder, decode_record_object hParts,
    Parts.finish, ExpectedOutput.getD_said?]
  rfl

end InvalidCase

namespace ValidDetails

/-- What is written of a case, by name. -/
def stated (details : ValidDetails) : List (String × Option Json) :=
  [("code", some (.string details.code)), ("options", some (.array details.options)),
   ("parseOptions", some (orNull (details.parseOptions.map ParseOptions.toJson))),
   ("name", some (orNull (details.name.map Json.string)))]

theorem toJson_eq (details : ValidDetails) :
    (ValidCase.detailed details).toJson = ofMembers (written details.stated) := rfl

theorem sortMembers_stated (details : ValidDetails) :
    sortMembers details.stated =
      [("code", some (.string details.code)),
       ("name", some (orNull (details.name.map Json.string))),
       ("options", some (.array details.options)),
       ("parseOptions", some (orNull (details.parseOptions.map ParseOptions.toJson)))] := rfl

theorem decode_toJson {details : ValidDetails} (h : ∀ option ∈ details.options, option.IsOrdered)
    (hEdition : IsSupported details.parseOptions) :
    decode decoder (ValidCase.detailed details).toJson = .ok details := by
  have hParts : Decoder.foldMembers Parts.member {}
      (Document.ofMembers (written (sortMembers details.stated))) =
        .ok ⟨some details.code, some details.options, some details.parseOptions,
          some details.name⟩ := by
    rw [sortMembers_stated]
    apply foldMembers_member (fun (parts : Parts) code => { parts with code }) (fun _ => rfl)
      (decode_string details.code)
    apply foldMembers_member (fun (parts : Parts) name => { parts with name }) (fun _ => rfl)
      (decode_name details.name)
    apply foldMembers_member (fun (parts : Parts) options => { parts with options }) (fun _ => rfl)
      (decode_list_value h)
    exact foldMembers_member (fun (parts : Parts) parseOptions => { parts with parseOptions })
      (fun _ => rfl) (decode_parseOptions hEdition) rfl
  rw [toJson_eq, ofMembers_written (by simp [stated]), decoder, decode_record_object hParts]
  rfl

end ValidDetails

namespace ValidCase

theorem isOrdered_toJson {valid : ValidCase} (h : ∀ option ∈ valid.options, option.IsOrdered) :
    valid.toJson.IsOrdered := by
  cases valid with
  | code text => exact .string text
  | detailed details =>
      rw [ValidDetails.toJson_eq]
      apply isOrdered_written
      simp only [ValidDetails.stated, List.forall_mem_cons, Option.mem_some_iff, forall_eq']
      exact ⟨.string _, .array h, isOrdered_parseOptions _, isOrdered_name _, nofun⟩

theorem fits_toJson {valid : ValidCase} {levels : Nat} (hEdition : IsSupported valid.parseOptions)
    (hOptions : ∀ option ∈ valid.options, option.Fits (levels + 1)) :
    valid.toJson.Fits (levels + 3) := by
  cases valid with
  | code text => exact .string _ text
  | detailed details =>
      rw [ValidDetails.toJson_eq]
      apply fits_written
      simp only [ValidDetails.stated, List.forall_mem_cons, Option.mem_some_iff, forall_eq']
      exact ⟨.string _ _, .array hOptions, fits_parseOptions hEdition _, fits_name _ _, nofun⟩

/-- Code alone is read as a case of code alone, and details without options as details. -/
theorem decode_toJson {valid : ValidCase} (h : ∀ option ∈ valid.options, option.IsOrdered)
    (hEdition : IsSupported valid.parseOptions) :
    decode decoder valid.toJson = .ok valid := by
  have hOrdered := isOrdered_toJson h
  cases valid with
  | code text => exact @decode_firstOf _ _ [] [_] _ _ _ hOrdered (by simp) rfl
  | detailed details =>
      have hDetails := ValidDetails.decode_toJson h hEdition
      refine @decode_firstOf _ _ [_] _ _ _ _ hOrdered ?_ ?_
      · intro other hOther
        obtain rfl := List.mem_singleton.mp hOther
        rfl
      · rw [decode] at hDetails ⊢
        rw [hDetails]
        rfl

end ValidCase

namespace TestCases

/-- The options of all cases. -/
def options (cases : TestCases) : List Json :=
  cases.valid.flatMap ValidCase.options ++ cases.invalid.flatMap InvalidCase.options

/-- Options are JSON values in order, numbers have the bits of their fields, and placeholder values
stand in the order of their names: what the fields of test cases are made to hold. -/
structure IsProper (cases : TestCases) : Prop where
  valid : ∀ valid ∈ cases.valid, ∀ option ∈ valid.options, option.IsOrdered
  invalid : ∀ invalid ∈ cases.invalid, invalid.IsProper

/-- All editions that are given are understood. -/
structure IsSupported (cases : TestCases) : Prop where
  valid : ∀ valid ∈ cases.valid, Conformance.IsSupported valid.parseOptions
  invalid : ∀ invalid ∈ cases.invalid, Conformance.IsSupported invalid.parseOptions

theorem toJson_eq (cases : TestCases) :
    cases.toJson = .object (written
      [("invalid", some (.array (cases.invalid.map InvalidCase.toJson))),
       ("valid", some (.array (cases.valid.map ValidCase.toJson)))]) := rfl

/-- Test cases are read back as they were, whatever options they have. -/
theorem decode_toJson {cases : TestCases} (h : cases.IsProper) (hEditions : cases.IsSupported) :
    decode decoder cases.toJson = .ok cases := by
  have hParts : Decoder.foldMembers Parts.member {} (Document.ofMembers (written
      [("invalid", some (.array (cases.invalid.map InvalidCase.toJson))),
       ("valid", some (.array (cases.valid.map ValidCase.toJson)))])) =
        .ok ⟨some cases.valid, some cases.invalid⟩ := by
    apply foldMembers_member (fun (parts : Parts) invalid => { parts with invalid })
      (fun _ => rfl) (decode_list fun invalid hInvalid =>
        InvalidCase.decode_toJson (h.invalid invalid hInvalid) (hEditions.invalid invalid hInvalid))
    exact foldMembers_member (fun (parts : Parts) valid => { parts with valid }) (fun _ => rfl)
      (decode_list fun valid hValid =>
        ValidCase.decode_toJson (h.valid valid hValid) (hEditions.valid valid hValid)) rfl
  rw [toJson_eq, decoder, decode_record_object hParts]
  rfl

/-- Test cases are nested four levels deeper than their options, as long as these are the deepest
part. -/
theorem fits_toJson {cases : TestCases} {levels : Nat} (h : cases.IsProper)
    (hEditions : cases.IsSupported)
    (hOptions : ∀ option ∈ cases.options, option.Fits (levels + 4)) :
    cases.toJson.Fits (levels + 8) := by
  rw [options, List.forall_mem_append] at hOptions
  rw [toJson_eq]
  apply Fits.object
  apply forall_mem_written
  simp only [List.forall_mem_cons, Option.mem_some_iff, forall_eq']
  refine ⟨.array ?_, .array ?_, nofun⟩
  · intro item hItem
    obtain ⟨invalid, hInvalid, rfl⟩ := List.mem_map.mp hItem
    exact InvalidCase.fits_toJson (h.invalid invalid hInvalid) (hEditions.invalid invalid hInvalid)
      fun option hOption => hOptions.2 option (List.mem_flatMap.mpr ⟨invalid, hInvalid, hOption⟩)
  · intro item hItem
    obtain ⟨valid, hValid, rfl⟩ := List.mem_map.mp hItem
    exact @ValidCase.fits_toJson valid (levels + 3) (hEditions.valid valid hValid)
      fun option hOption => hOptions.1 option (List.mem_flatMap.mpr ⟨valid, hValid, hOption⟩)

/-- The text of test cases is read back, as far as the reader goes down. -/
theorem ofJsonText_render {cases : TestCases} (h : cases.IsProper) (hEditions : cases.IsSupported)
    (hOptions : ∀ option ∈ cases.options, option.Fits 123) :
    ofJsonText cases.toJson.render = .ok cases := by
  have hFits : cases.toJson.Fits 127 := fits_toJson h hEditions hOptions
  rw [ofJsonText, decodeText_render decoder hFits, decode_toJson h hEditions]

end TestCases

end Conformance

end EcmaLint
