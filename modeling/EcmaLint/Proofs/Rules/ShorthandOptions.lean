import EcmaLint.Proofs.Json.Ordered
import EcmaLint.Proofs.Schema.Describes
import EcmaLint.Regex.Reader
import EcmaLint.Rules.ObjectShorthand.Basic

/-! The options of the rule on shorthand. They are described twice, by the schema that they are
checked against and by the decoders that read them. What the schema lets through is decoded, so
that only a pattern that is no regular expression can keep the rule from being set up. -/
namespace EcmaLint.Rules.ObjectShorthand

open Json Schema

/-- One of some modes, by name. -/
def IsMode (names : List String) (option : Json) : Prop := ∃ name ∈ names, option = .string name

/-- A record whose members all have a name and a type of a list. -/
def IsRecord (kinds : List (String × Kind)) (option : Json) : Prop :=
  ∃ members, option = .object members ∧
    ∀ member ∈ members, ∃ kind, kinds.lookup member.1 = some kind ∧ kind.holds member.2 = true

/-- The exceptions that there are. -/
def exceptionKinds : List (String × Kind) :=
  [("avoidExplicitReturnArrows", .boolean), ("avoidQuotes", .boolean),
   ("ignoreConstructors", .boolean), ("methodsIgnorePattern", .string)]

/-- A mode, or a mode that asks for shorthand with the exceptions that it takes. -/
def Accepts (options : List Json) : Prop :=
  InOrder [IsMode (Mode.named.map Prod.fst)] options ∨
    InOrder [IsMode ["always", "methods", "properties"], IsRecord [("avoidQuotes", .boolean)]]
      options ∨
    InOrder [IsMode ["always", "methods"], IsRecord exceptionKinds] options

theorem describes_modeSchema [RegexEngine] (names : List String) :
    Describes (modeSchema names) (IsMode names) :=
  describes_enum names

theorem describes_exceptionsSchema [RegexEngine] {members : List (String × String)}
    {kinds : List (String × Kind)}
    (h : sortMembers (members.map fun (name, type) => (name, ofMembers [("type", .string type)])) =
      kinds.map fun (name, kind) => (name, ofMembers [("type", .string kind.name)])) :
    Describes (exceptionsSchema members) (IsRecord kinds) := by
  have hTyped : List.Forall₂
      (fun (member : String × Json) (allowed : String × (Json → Prop)) =>
        member.1 = allowed.1 ∧ Describes member.2 allowed.2)
      (kinds.map fun (name, kind) => (name, ofMembers [("type", .string kind.name)]))
      (kinds.map fun (name, kind) => (name, fun value => kind.holds value = true)) := by
    rw [List.forall₂_map_left_iff, List.forall₂_map_right_iff, List.forall₂_same]
    exact fun (name, kind) _ => ⟨rfl, describes_kind kind⟩
  have hWritten : exceptionsSchema members = ofMembers
      [("type", .string "object"),
       ("properties", .object (kinds.map fun (name, kind) =>
         (name, ofMembers [("type", .string kind.name)]))),
       ("additionalProperties", .bool false)] :=
    congrArg (fun typed => ofMembers [("type", .string "object"), ("properties", .object typed),
      ("additionalProperties", .bool false)]) h
  have hLookup : ∀ name : String,
      (kinds.map fun (name, kind) => (name, fun value => kind.holds value = true)).lookup name =
        (kinds.lookup name).map fun kind value => kind.holds value = true := by
    intro name
    clear * -
    induction kinds with
    | nil => rfl
    | cons entry rest ih =>
        rw [List.map_cons, List.lookup_cons, List.lookup_cons, ih]
        cases name == entry.1 <;> rfl
  obtain ⟨compiled, hCompiled, hDecides⟩ := describes_record hTyped
  refine ⟨compiled, by rw [hWritten, hCompiled], fun value => ?_⟩
  rw [hDecides, IsRecord]
  simp [hLookup]

/-- The schema allows what is to be accepted, and nothing else. -/
theorem validate_iff [RegexEngine] {ruleId : String} {options : List Json} :
    schema.validate ruleId options = .ok () ↔ Accepts options := by
  have hFlags : Describes (exceptionsSchema [("avoidQuotes", "boolean")])
      (IsRecord [("avoidQuotes", .boolean)]) :=
    describes_exceptionsSchema rfl
  have hExceptions : Describes (exceptionsSchema
      [("ignoreConstructors", "boolean"), ("methodsIgnorePattern", "string"),
       ("avoidQuotes", "boolean"), ("avoidExplicitReturnArrows", "boolean")])
      (IsRecord exceptionKinds) :=
    describes_exceptionsSchema rfl
  obtain ⟨compiled, hCompiled, hDecides⟩ := describes_anyOf
    (.cons (describes_tuple (.cons (describes_modeSchema (Mode.named.map Prod.fst)) .nil) (by simp))
      (.cons (describes_tuple (.cons (describes_modeSchema ["always", "methods", "properties"])
          (.cons hFlags .nil)) (by simp))
        (.cons (describes_tuple (.cons (describes_modeSchema ["always", "methods"])
          (.cons hExceptions .nil)) (by simp)) .nil))) (by simp)
  have hSchema : ofJson? schema.toJson = some compiled := hCompiled
  have hCompile : schema.compile ruleId = .ok compiled := by rw [OptionsSchema.compile, hSchema]
  rw [OptionsSchema.validate_iff_of_compile hCompile, hDecides]
  simp [Accepts]

theorem mem_of_lookup {α β : Type} [BEq α] [LawfulBEq α] {pairs : List (α × β)} {a : α} {b : β}
    (h : pairs.lookup a = some b) : (a, b) ∈ pairs := by
  obtain ⟨front, back, rfl, -⟩ := List.lookup_eq_some_iff.mp h
  simp

/-- Whatever is accepted is at most a mode and a record of exceptions. -/
theorem inOrder_of_accepts {options : List Json} (h : Accepts options) :
    InOrder [IsMode (Mode.named.map Prod.fst), IsRecord exceptionKinds] options := by
  have hMode : ∀ {names : List String} {option : Json}, names ⊆ Mode.named.map Prod.fst →
      IsMode names option → IsMode (Mode.named.map Prod.fst) option :=
    fun hNames ⟨name, hName, hOption⟩ => ⟨name, hNames hName, hOption⟩
  have hFlags : ∀ {option : Json}, IsRecord [("avoidQuotes", .boolean)] option →
      IsRecord exceptionKinds option := by
    rintro _ ⟨members, rfl, hMembers⟩
    refine ⟨members, rfl, fun member hMember => ?_⟩
    obtain ⟨kind, hKind, hHolds⟩ := hMembers member hMember
    obtain ⟨hName, rfl⟩ := Prod.mk.inj (List.mem_singleton.mp (mem_of_lookup hKind))
    exact ⟨.boolean, by rw [hName]; rfl, hHolds⟩
  match options, h with
  | [], _ => trivial
  | [mode], h =>
      refine ⟨?_, trivial⟩
      rcases h with h | h | h
      · exact h.1
      · exact hMode (by decide) h.1
      · exact hMode (by decide) h.1
  | [mode, exceptions], h =>
      rcases h with h | h | h
      · exact h.2.elim
      · exact ⟨hMode (by decide) h.1, hFlags h.2.1, trivial⟩
      · exact ⟨hMode (by decide) h.1, h.2.1, trivial⟩
  | _ :: _ :: _ :: _, h => rcases h with h | h | h <;> simp [InOrder] at h

theorem exists_decode_mode {option : Json} (h : IsMode (Mode.named.map Prod.fst) option) :
    ∃ mode, decode (Decoder.variantOfValue Mode.named) option = .ok mode := by
  obtain ⟨name, hName, rfl⟩ := h
  have hNames : ∀ name ∈ Mode.named.map Prod.fst, (Mode.named.lookup name).isSome = true := by
    decide
  obtain ⟨mode, hMode⟩ := Option.isSome_iff_exists.mp (hNames name hName)
  refine ⟨mode, ?_⟩
  simp [decode, Document.ofJson, Decoder.variantOfValue, hMode]

theorem exists_of_holds_boolean {json : Json} (h : Kind.boolean.holds json = true) :
    ∃ value, json = .bool value := by
  cases json <;> simp_all [Kind.holds]

theorem exists_of_holds_string {json : Json} (h : Kind.string.holds json = true) :
    ∃ text, json = .string text := by
  cases json <;> simp_all [Kind.holds]

namespace Exceptions

/-- The exceptions that the members of a record stand for. -/
def written (members : List (String × Json)) : Exceptions :=
  { avoidQuotes := (members.lookup "avoidQuotes").bind bool?
    ignoreConstructors := (members.lookup "ignoreConstructors").bind bool?
    methodsIgnorePattern := (members.lookup "methodsIgnorePattern").map Json.string?
    avoidExplicitReturnArrows := (members.lookup "avoidExplicitReturnArrows").bind bool? }

/-- A member with a name and a type that are asked for is read, if it comes for the first time. -/
theorem member_written {seen : List (String × Json)} {name : String} {json : Json} {kind : Kind}
    (hKind : exceptionKinds.lookup name = some kind) (hHolds : kind.holds json = true)
    (hNew : seen.lookup name = none) :
    (written seen).member name (.ofJson json) = .ok (written (seen ++ [(name, json)])) := by
  have hEntry := mem_of_lookup hKind
  simp only [exceptionKinds, List.mem_cons, List.not_mem_nil, or_false, Prod.mk.injEq] at hEntry
  rcases hEntry with ⟨rfl, rfl⟩ | ⟨rfl, rfl⟩ | ⟨rfl, rfl⟩ | ⟨rfl, rfl⟩
  case inr.inr.inr =>
    obtain ⟨text, rfl⟩ := exists_of_holds_string hHolds
    simp only [member, written, Decoder.once, hNew, List.lookup_append, List.lookup_cons,
      List.lookup_nil, String.reduceBEq, Option.or_none]
    rfl
  all_goals
    obtain ⟨value, rfl⟩ := exists_of_holds_boolean hHolds
    simp only [member, written, Decoder.once, hNew, List.lookup_append, List.lookup_cons,
      List.lookup_nil, String.reduceBEq, Option.or_none]
    rfl

/-- The members of a record are read one by one, behind those that were read before. -/
theorem foldMembers_written {members seen : List (String × Json)}
    (hSorted : (seen ++ members).Pairwise fun a b => a.1 < b.1)
    (hKinds : ∀ member ∈ members,
      ∃ kind, exceptionKinds.lookup member.1 = some kind ∧ kind.holds member.2 = true) :
    Decoder.foldMembers member (written seen) (Document.ofMembers members) =
      .ok (written (seen ++ members)) := by
  induction members generalizing seen with
  | nil => rw [List.append_nil, Document.ofMembers, Decoder.foldMembers]
  | cons entry rest ih =>
      obtain ⟨name, json⟩ := entry
      obtain ⟨⟨kind, hKind, hHolds⟩, hKinds⟩ := List.forall_mem_cons.mp hKinds
      have hNew : seen.lookup name = none := List.lookup_eq_none_iff.mpr fun other hOther => by
        have hBefore : other.1 < name :=
          (List.pairwise_append.mp hSorted).2.2 other hOther (name, json) List.mem_cons_self
        exact bne_iff_ne.mpr fun hEq => String.lt_irrefl name (hEq ▸ hBefore)
      have hRest := @ih (seen ++ [(name, json)]) (by simpa using hSorted) hKinds
      rw [List.append_assoc] at hRest
      rw [Document.ofMembers, Decoder.foldMembers, member_written hKind hHolds hNew]
      exact hRest

theorem exists_decode {option : Json} (hOrdered : option.IsOrdered)
    (h : IsRecord exceptionKinds option) :
    ∃ members, option = .object members ∧ decode decoder option = .ok (written members) := by
  obtain ⟨members, rfl, hKinds⟩ := h
  cases hOrdered with
  | object hSorted _ =>
      have hFold : Decoder.foldMembers member {} (Document.ofMembers members) =
          .ok (written members) :=
        @foldMembers_written members [] hSorted hKinds
      refine ⟨members, rfl, ?_⟩
      rw [decode, Document.ofJson, decoder, Decoder.recordOfValue, Decoder.record, hFold]
      · rfl
      · simp

end Exceptions

/-- The pattern in the second option. -/
def writtenPattern? (options : List Json) : Option String :=
  (options[1]?.bind fun option => option.member? "methodsIgnorePattern").bind Json.string?

/-- The second option has a pattern that is no regular expression. -/
def HasInvalidPattern [RegexEngine] (options : List Json) : Prop :=
  ∃ text, writtenPattern? options = some text ∧ RegexEngine.compile? {} text = none

theorem exists_option?_mode {options : List Json}
    (h : InOrder [IsMode (Mode.named.map Prod.fst), IsRecord exceptionKinds] options) :
    ∃ mode, Settings.option? (Decoder.variantOfValue Mode.named) options 0 = .ok mode := by
  rw [Settings.option?]
  cases hOption : options[0]? with
  | none => exact ⟨none, rfl⟩
  | some option =>
      have hMode : IsMode (Mode.named.map Prod.fst) option := h.of_getElem? rfl hOption
      obtain ⟨mode, hDecode⟩ := exists_decode_mode hMode
      exact ⟨some mode, by simp only [hDecode]⟩

theorem exists_option?_exceptions {options : List Json}
    (hOrdered : ∀ option ∈ options, option.IsOrdered)
    (h : InOrder [IsMode (Mode.named.map Prod.fst), IsRecord exceptionKinds] options) :
    ∃ exceptions, Settings.option? Exceptions.decoder options 1 = .ok exceptions ∧
      (exceptions.getD {}).methodsIgnorePattern.join = writtenPattern? options := by
  rw [Settings.option?, writtenPattern?]
  cases hOption : options[1]? with
  | none => exact ⟨none, rfl, rfl⟩
  | some option =>
      have hRecord : IsRecord exceptionKinds option := h.of_getElem? rfl hOption
      obtain ⟨members, rfl, hDecode⟩ :=
        Exceptions.exists_decode (hOrdered option (List.mem_of_getElem? hOption)) hRecord
      refine ⟨some (Exceptions.written members), by simp only [hDecode], ?_⟩
      show ((members.lookup "methodsIgnorePattern").map Json.string?).join =
        (members.lookup "methodsIgnorePattern").bind Json.string?
      cases members.lookup "methodsIgnorePattern" <;> rfl

/-- What is accepted is decoded, up to the pattern. -/
theorem exists_ofOptions [RegexEngine] {options : List Json}
    (hOrdered : ∀ option ∈ options, option.IsOrdered)
    (h : Accepts options) :
    ∃ make : Option (String → Bool) → Settings,
      Settings.ofOptions options = make <$> Settings.pattern? (writtenPattern? options) := by
  have hShape := inOrder_of_accepts h
  obtain ⟨mode, hMode⟩ := exists_option?_mode hShape
  obtain ⟨exceptions, hExceptions, hPattern⟩ := exists_option?_exceptions hOrdered hShape
  refine ⟨fun ignoredMethods =>
    { mode := mode.getD .always
      avoidQuotes := (exceptions.getD {}).avoidQuotes.getD false
      ignoreConstructors := (exceptions.getD {}).ignoreConstructors.getD false
      ignoredMethods
      avoidExplicitReturnArrows := (exceptions.getD {}).avoidExplicitReturnArrows.getD false }, ?_⟩
  simp only [Settings.ofOptions, hMode, hExceptions, bind, Except.bind, hPattern]
  cases Settings.pattern? (writtenPattern? options) <;> rfl

/-- Options that the schema allows set the rule up, unless the pattern in them is no regular
expression: that is the one thing the schema does not say. -/
theorem create_of_validate [RegexEngine] {ruleId : String} {options : List Json}
    (hOrdered : ∀ option ∈ options, option.IsOrdered)
    (hAllowed : rule.schema.validate ruleId options = .ok ()) :
    (¬HasInvalidPattern options → ∃ listeners, rule.create options = .ok listeners) ∧
      (HasInvalidPattern options → rule.create options = .error .invalidPattern) := by
  obtain ⟨make, hMake⟩ := exists_ofOptions hOrdered (validate_iff.mp hAllowed)
  have hCreate : rule.create options =
      (fun regex => listeners (make regex)) <$> Settings.pattern? (writtenPattern? options) := by
    show (do return listeners (← Settings.ofOptions options)) = _
    rw [hMake]
    cases Settings.pattern? (writtenPattern? options) <;> rfl
  rw [hCreate]
  constructor
  · intro hValid
    cases hPattern : writtenPattern? options with
    | none => exact ⟨_, rfl⟩
    | some text =>
        cases hRegex : RegexEngine.compile? {} text with
        | none => exact absurd ⟨text, hPattern, hRegex⟩ hValid
        | some regex => exact ⟨_, by simp only [Settings.pattern?, hRegex]; rfl⟩
  · rintro ⟨text, hPattern, hRegex⟩
    simp only [hPattern, Settings.pattern?, hRegex]
    rfl

/-- Options for methods, with a pattern that is a regular expression and with one that is none. -/
theorem create_of_validate_methods :
    (∃ listeners, rule.create
      [.string "methods", .object [("methodsIgnorePattern", .string "^on")]] = .ok listeners) ∧
    rule.create [.string "methods", .object [("methodsIgnorePattern", .string "(")]] =
      .error .invalidPattern := by
  have hOrdered : ∀ text, ∀ option ∈
      [Json.string "methods", .object [("methodsIgnorePattern", .string text)]],
      option.IsOrdered := by
    intro text
    simp only [List.forall_mem_cons]
    exact ⟨.string _, .object (by simp) (by simp [IsOrdered.string]), by simp⟩
  have hAllowed : ∀ text, rule.schema.validate "object-shorthand"
      [.string "methods", .object [("methodsIgnorePattern", .string text)]] = .ok () := by
    intro text
    refine validate_iff.mpr (.inr (.inr ⟨⟨"methods", by simp, rfl⟩, ?_, trivial⟩))
    exact ⟨_, rfl, by simp [exceptionKinds, Kind.holds, List.lookup_cons]⟩
  refine ⟨(create_of_validate (hOrdered _) (hAllowed _)).1 ?_,
    (create_of_validate (hOrdered _) (hAllowed _)).2 ⟨"(", rfl, by decide +kernel⟩⟩
  rintro ⟨text, hText, hRegex⟩
  obtain rfl : "^on" = text := Option.some.inj hText
  revert hRegex
  decide +kernel

end EcmaLint.Rules.ObjectShorthand
