import EcmaLint.Proofs.Lint.Setup

/-! What written schemas allow. A schema describes the values that it finds nothing wrong with, and
what it describes is put together from what its parts describe. -/
namespace EcmaLint.Schema

/-- A schema that allows just the values with a property. -/
def Decides (schema : Schema) (Allowed : Json → Prop) : Prop :=
  ∀ value, schema.violations value = [] ↔ Allowed value

/-- A JSON value is a schema, and it allows just the values with a property. -/
def Describes [RegexEngine] (written : Json) (Allowed : Json → Prop) : Prop :=
  ∃ schema, ofJson? written = some schema ∧ schema.Decides Allowed

theorem require_eq_nil_iff {holds : Bool} {value : Json} {fault : Fault} :
    require holds value fault = [] ↔ holds = true := by
  cases holds <;> simp [require]

section

variable {schemas : List Schema} {items : List Json} {limit : Nat} {value : Json}

theorem violations_anything : violations .anything value = [] := rfl

theorem violations_kinds {allowed : List Kind} : (Keyword.kinds allowed).violations value =
    require (allowed.any fun kind => kind.holds value) value (.wrongKind allowed) := rfl

theorem violations_values {allowed : List Json} : (Keyword.values allowed).violations value =
    require (allowed.any (same value)) value (.notListed allowed) := rfl

theorem violations_atLeast : (Keyword.atLeast .items limit).violations (.array items) =
    require (limit ≤ items.length) (.array items) (.tooFew .items limit) := rfl

theorem violations_atMost : (Keyword.atMost .items limit).violations (.array items) =
    require (items.length ≤ limit) (.array items) (.tooMany .items limit) := rfl

theorem violations_itemsInOrder :
    (Keyword.itemsInOrder schemas .anything).violations (.array items) =
      itemViolations schemas items ++
        (items.drop schemas.length).flatMap (violations .anything) := rfl

theorem violations_members {named : List (String × Schema)} {members : List (String × Json)} :
    (Keyword.members named .nothing).violations (.object members) =
      (members.flatMap fun member => (namedViolations? named member.1 member.2).getD []) ++
        let extra := (members.map Prod.fst).filter fun name => (named.lookup name).isNone
        require extra.isEmpty (.object members) (.extraMembers extra) := rfl

theorem violations_anyOf : (Keyword.anyOf schemas).violations value =
    require (0 < allowingCount schemas value) value .noAlternative := rfl

end

/-- What a member of a schema is read as. -/
def part? [RegexEngine] (name : String) (value : Json) : Option Part :=
  if name = "items" then itemsOf? value
  else if schemaMembers.contains name then (ofJson? value).map Part.one
  else if listMembers.contains name then (listIn? value).map Part.list
  else if namedMembers.contains name then (namedIn? value).map Part.named
  else if name = "dependencies" then dependenciesIn? value
  else some .plain

theorem ofMembers?_nil [RegexEngine] : ofMembers? [] = some [] := by rw [ofMembers?]

/-- Members are read one by one. -/
theorem ofMembers?_cons [RegexEngine] {name : String} {value : Json} {part : Part}
    {rest : List (String × Json)} {entries : List (String × Entry)}
    (hPart : part? name value = some part) (hRest : ofMembers? rest = some entries) :
    ofMembers? ((name, value) :: rest) = some ((name, ⟨value, part⟩) :: entries) := by
  rw [part?] at hPart
  rw [ofMembers?]
  split_ifs at hPart ⊢ <;> rw [hPart, hRest] <;> rfl

/-- Schemas in a list are read one by one. -/
theorem exists_ofList? [RegexEngine] {written : List Json} {alloweds : List (Json → Prop)}
    (h : List.Forall₂ Describes written alloweds) :
    ∃ schemas, ofList? written = some schemas ∧ List.Forall₂ Decides schemas alloweds := by
  induction h with
  | nil => exact ⟨[], by rw [ofList?], .nil⟩
  | cons hFirst _ ih =>
      obtain ⟨schema, hSchema, hDecides⟩ := hFirst
      obtain ⟨schemas, hSchemas, hAll⟩ := ih
      exact ⟨schema :: schemas, by rw [ofList?, hSchema, hSchemas]; rfl, .cons hDecides hAll⟩

theorem same_string (text : String) : ∀ value : Json,
    same value (.string text) = (value.string? == some text)
  | .null | .bool _ | .string _ | .array _ | .object _ => rfl
  | .number (.natural _) | .number (.negative _) | .number (.double _) => rfl

theorem same_string_iff {text : String} {value : Json} :
    same value (.string text) = true ↔ value = .string text := by
  rw [same_string, beq_iff_eq]
  cases value <;> simp [Json.string?]

/-- A choice of texts. -/
theorem describes_enum [RegexEngine] (texts : List String) :
    Describes (.ofMembers [("enum", .array (texts.map Json.string))]) fun value =>
      ∃ text ∈ texts, value = .string text := by
  obtain ⟨schema, hSchema, hDecides⟩ := @exists_ofJson?_object _
    [("enum", .array (texts.map Json.string))]
    [("enum", ⟨.array (texts.map Json.string), .plain⟩)]
    [some (.values (texts.map Json.string))]
    (ofMembers?_cons rfl ofMembers?_nil) rfl
  refine ⟨schema, hSchema, fun value => ?_⟩
  rw [hDecides]
  simp [violations_values, require_eq_nil_iff, same_string_iff]

theorem zero_lt_allowingCount_iff {schemas : List Schema} {alloweds : List (Json → Prop)}
    (h : List.Forall₂ Decides schemas alloweds) (value : Json) :
    0 < allowingCount schemas value ↔ ∃ Allowed ∈ alloweds, Allowed value := by
  induction h with
  | nil => simp [allowingCount]
  | @cons schema Allowed schemas alloweds hFirst _ ih =>
      rw [allowingCount, List.exists_mem_cons_iff, ← ih, ← hFirst value]
      cases schema.violations value <;> simp [Nat.one_add]

/-- A choice of schemas. -/
theorem describes_anyOf [RegexEngine] {written : List Json} {alloweds : List (Json → Prop)}
    (h : List.Forall₂ Describes written alloweds) (hSome : written ≠ []) :
    Describes (.ofMembers [("anyOf", .array written)]) fun value =>
      ∃ Allowed ∈ alloweds, Allowed value := by
  obtain ⟨schemas, hSchemas, hAll⟩ := exists_ofList? h
  have hPart : part? "anyOf" (.array written) = some (.list schemas) := by
    show (listIn? (.array written)).map Part.list = _
    rw [listIn?, hSchemas]
    · rfl
    · simpa using hSome
  obtain ⟨schema, hSchema, hDecides⟩ := @exists_ofJson?_object _ [("anyOf", .array written)]
    [("anyOf", ⟨.array written, .list schemas⟩)] [some (.anyOf schemas)]
    (ofMembers?_cons hPart ofMembers?_nil) rfl
  refine ⟨schema, hSchema, fun value => ?_⟩
  rw [hDecides]
  simp [violations_anyOf, require_eq_nil_iff, zero_lt_allowingCount_iff hAll]

/-- The items of a list have the properties at their positions, and there are no more of them. -/
def InOrder : List (Json → Prop) → List Json → Prop
  | _, [] => True
  | [], _ :: _ => False
  | Allowed :: alloweds, item :: items => Allowed item ∧ InOrder alloweds items

theorem InOrder.of_getElem? {alloweds : List (Json → Prop)} {items : List Json}
    (h : InOrder alloweds items) {i : Nat} {Allowed : Json → Prop} {item : Json}
    (hAllowed : alloweds[i]? = some Allowed) (hItem : items[i]? = some item) : Allowed item := by
  induction alloweds generalizing items i with
  | nil => cases hAllowed
  | cons First alloweds ih =>
      cases items with
      | nil => cases hItem
      | cons first items =>
          cases i with
          | zero =>
              obtain rfl := Option.some.inj hAllowed
              obtain rfl := Option.some.inj hItem
              exact h.1
          | succ i => exact ih h.2 hAllowed hItem

theorem itemViolations_eq_nil_iff {schemas : List Schema} {alloweds : List (Json → Prop)}
    (h : List.Forall₂ Decides schemas alloweds) {items : List Json} :
    itemViolations schemas items = [] ∧ items.length ≤ schemas.length ↔ InOrder alloweds items := by
  induction h generalizing items with
  | nil => cases items <;> simp [itemViolations, InOrder]
  | cons hFirst _ ih =>
      cases items with
      | nil => simp [itemViolations, InOrder]
      | cons item items =>
          rw [itemViolations, List.append_eq_nil_iff, hFirst item, InOrder, ← ih, and_assoc]
          simp

/-- A list with a schema for each of its first items, of which it has at most as many. -/
theorem describes_tuple [RegexEngine] {written : List Json} {alloweds : List (Json → Prop)}
    (h : List.Forall₂ Describes written alloweds) (hSome : written ≠ []) :
    Describes (.ofMembers
      [("type", .string "array"), ("items", .array written), ("minItems", .nat 0),
       ("maxItems", .nat written.length)]) fun value =>
      ∃ items, value = .array items ∧ InOrder alloweds items := by
  obtain ⟨schemas, hSchemas, hAll⟩ := exists_ofList? h
  have hLength : schemas.length = written.length := hAll.length_eq.trans h.length_eq.symm
  have hPart : part? "items" (.array written) = some (.list schemas) := by
    show itemsOf? (.array written) = _
    rw [itemsOf?, hSchemas]
    · rfl
    · simpa using hSome
  have hMembers : Json.sortMembers [("type", Json.string "array"), ("items", Json.array written),
      ("minItems", .nat 0), ("maxItems", .nat written.length)] =
        [("items", .array written), ("maxItems", Json.nat written.length), ("minItems", .nat 0),
          ("type", .string "array")] := rfl
  obtain ⟨schema, hSchema, hDecides⟩ := @exists_ofJson?_object _
    [("items", .array written), ("maxItems", .nat written.length), ("minItems", .nat 0),
      ("type", .string "array")]
    [("items", ⟨.array written, .list schemas⟩), ("maxItems", ⟨.nat written.length, .plain⟩),
      ("minItems", ⟨.nat 0, .plain⟩), ("type", ⟨.string "array", .plain⟩)]
    [some (.itemsInOrder schemas .anything), some (.atMost .items written.length),
      some (.atLeast .items 0), some (.kinds [.array])]
    (ofMembers?_cons hPart (ofMembers?_cons rfl (ofMembers?_cons rfl
      (ofMembers?_cons rfl ofMembers?_nil)))) rfl
  refine ⟨schema, by rw [Json.ofMembers, hMembers]; exact hSchema, fun value => ?_⟩
  have hAllowed := @itemViolations_eq_nil_iff schemas alloweds hAll
  rw [hDecides]
  cases value with
  | array items =>
      simp [violations_itemsInOrder, violations_atMost, violations_atLeast, violations_kinds,
        violations_anything, require_eq_nil_iff, Kind.holds, ← hAllowed, hLength]
  | null | bool | number | string | object =>
      simp [violations_kinds, require_eq_nil_iff, Kind.holds]

/-- A schema that asks for one type. -/
theorem describes_kind [RegexEngine] (kind : Kind) :
    Describes (.ofMembers [("type", .string kind.name)]) fun value => kind.holds value = true := by
  obtain ⟨schema, hSchema, hDecides⟩ := @exists_ofJson?_object _
    [("type", .string kind.name)] [("type", ⟨.string kind.name, .plain⟩)] [some (.kinds [kind])]
    (ofMembers?_cons rfl ofMembers?_nil) (by cases kind <;> rfl)
  refine ⟨schema, hSchema, fun value => ?_⟩
  rw [hDecides]
  simp [violations_kinds, require_eq_nil_iff]

/-- Named schemas allow just the values with the properties of the same names. -/
def NamesDecide (schemas : List (String × Schema)) (alloweds : List (String × (Json → Prop))) :
    Prop :=
  List.Forall₂ (fun schema allowed => schema.1 = allowed.1 ∧ schema.2.Decides allowed.2)
    schemas alloweds

theorem exists_ofNamed? [RegexEngine] {written : List (String × Json)}
    {alloweds : List (String × (Json → Prop))}
    (h : List.Forall₂ (fun member allowed => member.1 = allowed.1 ∧ Describes member.2 allowed.2)
      written alloweds) :
    ∃ schemas, ofNamed? written = some schemas ∧ NamesDecide schemas alloweds := by
  induction h with
  | nil => exact ⟨[], by rw [ofNamed?], .nil⟩
  | @cons member allowed _ _ hFirst _ ih =>
      obtain ⟨name, json⟩ := member
      obtain ⟨hName, schema, hSchema, hDecides⟩ := hFirst
      obtain ⟨schemas, hSchemas, hAll⟩ := ih
      exact ⟨(name, schema) :: schemas, by rw [ofNamed?, hSchema, hSchemas]; rfl,
        .cons ⟨hName, hDecides⟩ hAll⟩

theorem NamesDecide.isNone_lookup {schemas : List (String × Schema)}
    {alloweds : List (String × (Json → Prop))} (h : NamesDecide schemas alloweds) (name : String) :
    (schemas.lookup name).isNone = (alloweds.lookup name).isNone := by
  induction h with
  | nil => rfl
  | @cons schema allowed _ _ hFirst _ ih =>
      obtain ⟨named, schema⟩ := schema
      obtain ⟨_, Allowed⟩ := allowed
      obtain ⟨rfl, -⟩ := hFirst
      rw [List.lookup_cons, List.lookup_cons]
      cases name == named
      · exact ih
      · rfl

theorem NamesDecide.exists_namedViolations? {schemas : List (String × Schema)}
    {alloweds : List (String × (Json → Prop))} (h : NamesDecide schemas alloweds) {name : String}
    {Allowed : Json → Prop} (hAllowed : alloweds.lookup name = some Allowed) (value : Json) :
    ∃ found, namedViolations? schemas name value = some found ∧ (found = [] ↔ Allowed value) := by
  induction h with
  | nil => cases hAllowed
  | @cons schema allowed _ _ hFirst _ ih =>
      obtain ⟨named, schema⟩ := schema
      obtain ⟨_, Other⟩ := allowed
      obtain ⟨rfl, hDecides⟩ := hFirst
      rw [List.lookup_cons] at hAllowed
      rw [namedViolations?]
      by_cases hName : named = name
      · subst hName
        rw [beq_self_eq_true] at hAllowed
        obtain rfl := Option.some.inj hAllowed
        exact ⟨schema.violations value, if_pos rfl, hDecides value⟩
      · rw [beq_eq_false_iff_ne.mpr (Ne.symm hName)] at hAllowed
        rw [if_neg hName]
        exact ih hAllowed

/-- Members pass if each of them has a schema of its name and passes that one. -/
theorem NamesDecide.violations_eq_nil_iff {schemas : List (String × Schema)}
    {alloweds : List (String × (Json → Prop))} (h : NamesDecide schemas alloweds)
    (members : List (String × Json)) :
    (Keyword.members schemas .nothing).violations (.object members) = [] ↔
      ∀ member ∈ members,
        ∃ Allowed, alloweds.lookup member.1 = some Allowed ∧ Allowed member.2 := by
  rw [violations_members, List.append_eq_nil_iff, require_eq_nil_iff, List.isEmpty_iff,
    List.flatMap_eq_nil_iff, List.filter_eq_nil_iff]
  constructor
  · intro ⟨hFound, hNamed⟩ member hMember
    have hSome := hNamed member.1 (List.mem_map_of_mem hMember)
    rw [h.isNone_lookup, Option.isNone_iff_eq_none, ← ne_eq, Option.ne_none_iff_exists'] at hSome
    obtain ⟨Allowed, hAllowed⟩ := hSome
    obtain ⟨found, hViolations, hDecides⟩ := h.exists_namedViolations? hAllowed member.2
    have hNone := hFound member hMember
    rw [hViolations, Option.getD_some] at hNone
    exact ⟨Allowed, hAllowed, hDecides.mp hNone⟩
  · intro hAll
    constructor
    · intro member hMember
      obtain ⟨Allowed, hAllowed, hHolds⟩ := hAll member hMember
      obtain ⟨found, hViolations, hDecides⟩ := h.exists_namedViolations? hAllowed member.2
      rw [hViolations, Option.getD_some]
      exact hDecides.mpr hHolds
    · intro name hName
      obtain ⟨member, hMember, rfl⟩ := List.mem_map.mp hName
      obtain ⟨Allowed, hAllowed, -⟩ := hAll member hMember
      rw [h.isNone_lookup, hAllowed]
      exact Bool.false_ne_true

/-- A record whose members are all named, each with a schema. -/
theorem describes_record [RegexEngine] {written : List (String × Json)}
    {alloweds : List (String × (Json → Prop))}
    (h : List.Forall₂ (fun member allowed => member.1 = allowed.1 ∧ Describes member.2 allowed.2)
      written alloweds) :
    Describes (.ofMembers
      [("type", .string "object"), ("properties", .object written),
       ("additionalProperties", .bool false)]) fun value =>
      ∃ members, value = .object members ∧ ∀ member ∈ members,
        ∃ Allowed, alloweds.lookup member.1 = some Allowed ∧ Allowed member.2 := by
  obtain ⟨schemas, hSchemas, hAll⟩ := exists_ofNamed? h
  have hOthers : part? "additionalProperties" (.bool false) = some (.one .nothing) := by
    show (ofJson? (.bool false)).map Part.one = _
    rw [ofJson?]
    rfl
  have hNamed : part? "properties" (.object written) = some (.named schemas) := by
    show (namedIn? (.object written)).map Part.named = _
    rw [namedIn?, hSchemas]
    rfl
  have hMembers : Json.sortMembers [("type", Json.string "object"),
      ("properties", Json.object written), ("additionalProperties", .bool false)] =
        [("additionalProperties", .bool false), ("properties", .object written),
          ("type", .string "object")] := rfl
  obtain ⟨schema, hSchema, hDecides⟩ := @exists_ofJson?_object _
    [("additionalProperties", .bool false), ("properties", .object written),
      ("type", .string "object")]
    [("additionalProperties", ⟨.bool false, .one .nothing⟩),
      ("properties", ⟨.object written, .named schemas⟩), ("type", ⟨.string "object", .plain⟩)]
    [none, some (.members schemas .nothing), some (.kinds [.object])]
    (ofMembers?_cons hOthers (ofMembers?_cons hNamed (ofMembers?_cons rfl ofMembers?_nil))) rfl
  refine ⟨schema, by rw [Json.ofMembers, hMembers]; exact hSchema, fun value => ?_⟩
  rw [hDecides]
  cases value with
  | object members =>
      have hRecord := hAll.violations_eq_nil_iff members
      have hKind : (Keyword.kinds [.object]).violations (.object members) = [] := by
        simp [violations_kinds, require_eq_nil_iff, Kind.holds]
      simp [hRecord, hKind]
  | null | bool | number | string | array =>
      simp [violations_kinds, require_eq_nil_iff, Kind.holds]

end EcmaLint.Schema
