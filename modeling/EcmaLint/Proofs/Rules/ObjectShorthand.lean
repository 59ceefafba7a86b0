import EcmaLint.Proofs.Lint.Remembering
import EcmaLint.Proofs.Rules.ArrowScopes
import EcmaLint.Proofs.Tree.Outline
import EcmaLint.Rules.ObjectShorthand.Basic

/-! The rule on object shorthand in a whole pass. Its listeners come to `ArrowScopes.hear` on what
it remembers, they never fail and their reports pass every check, so that at any visit the rule
remembers what the visits before come to, and files what it reports there. -/
namespace EcmaLint.Rules.ObjectShorthand

open Place Progress Listener

/-- What is reported at a visit. -/
def reportsAt (settings : Settings) (source : SourceCode) (visit : Visit) (scopes : ArrowScopes) :
    List Report :=
  match visit.phase, visit.place.kind with
  | .enter, .objectExpression => objectReports settings visit.place.node
  | .exit, .property => propertyReports settings source visit.place scopes
  | _, _ => []

/-- The keys that name a kind and nothing else. -/
def plainKeys : List (String × Phase × NodeKind) :=
  [("Program", .enter, .program), ("Program" ++ ":exit", .exit, .program),
   ("FunctionDeclaration", .enter, .functionDeclaration),
   ("FunctionDeclaration" ++ ":exit", .exit, .functionDeclaration),
   ("FunctionExpression", .enter, .functionExpression),
   ("FunctionExpression" ++ ":exit", .exit, .functionExpression),
   ("ArrowFunctionExpression", .enter, .arrowFunctionExpression),
   ("ArrowFunctionExpression:exit", .exit, .arrowFunctionExpression),
   ("ThisExpression", .enter, .thisExpression), ("Super", .enter, .super),
   ("ObjectExpression", .enter, .objectExpression), ("Property:exit", .exit, .property)]

theorem names_of_mem_plainKeys {entry : String × Phase × NodeKind} (h : entry ∈ plainKeys) :
    Names entry.1 entry.2.1 entry.2.2 [] := by
  have hKeys : ∀ entry ∈ plainKeys, (splitKey entry.1).2 = entry.2.1 ∧
      Selector.Printer.render? '\'' [⟨⟨some entry.2.2, []⟩, []⟩] = some (splitKey entry.1).1 := by
    decide +kernel
  exact ⟨(hKeys entry h).1, (hKeys entry h).2, fun _ hTested => nomatch hTested⟩

section

variable [RegexEngine] {visit : Visit}
  {react : SourceCode → Place → ArrowScopes → Reaction ArrowScopes}

theorem hears_of_mem_plainKeys : ∀ entry ∈ plainKeys,
    ∀ react : SourceCode → Place → ArrowScopes → Reaction ArrowScopes,
      hears visit ⟨entry.1, react⟩ = true ↔
        visit.phase = entry.2.1 ∧ visit.place.kind = entry.2.2 := by
  intro entry hEntry react
  rw [(names_of_mem_plainKeys hEntry).hears_iff]
  simp

theorem hears_newTarget_iff :
    hears visit ⟨"MetaProperty[meta.name='new'][property.name='target']", react⟩ = true ↔
      visit.phase = .enter ∧ visit.place.kind = .metaProperty ∧
        (visit.place.node.child? .metaWord).bind (fun word => word.text? .ident) = some "new" ∧
        (visit.place.node.child? .property).bind (fun word => word.text? .ident) =
          some "target" := by
  have hKey : Names "MetaProperty[meta.name='new'][property.name='target']" .enter .metaProperty
      [⟨["meta", "name"], .equals (.text "new")⟩,
        ⟨["property", "name"], .equals (.text "target")⟩] := by
    refine ⟨by decide +kernel, by decide +kernel, ?_⟩
    simp only [Selector.IsWritableCompound, List.forall_mem_cons, List.not_mem_nil, false_imp_iff,
      implies_true, and_true]
    exact ⟨⟨by decide +kernel, trivial⟩, by decide +kernel, trivial⟩
  have hMeta : ∀ other : FieldName, other.text = "meta" ↔ other = .metaWord := by
    intro other
    cases other <;> decide
  have hProperty : ∀ other : FieldName, other.text = "property" ↔ other = .property := by
    intro other
    cases other <;> decide
  rw [hKey.hears_iff]
  simp only [List.forall_mem_cons, List.not_mem_nil, false_imp_iff, implies_true, and_true,
    Selector.holds_equals_text_iff, AttributeValue.follow?_child_name_iff (by decide) hMeta,
    AttributeValue.follow?_child_name_iff (by decide) hProperty]

theorem hears_arguments_iff :
    hears visit ⟨"Identifier[name='arguments']", react⟩ = true ↔
      visit.phase = .enter ∧ visit.place.kind = .identifier ∧
        visit.place.node.text? .ident = some "arguments" := by
  have hKey : Names "Identifier[name='arguments']" .enter .identifier
      [⟨["name"], .equals (.text "arguments")⟩] := by
    refine ⟨by decide +kernel, by decide +kernel, ?_⟩
    simp only [Selector.IsWritableCompound, List.mem_singleton, forall_eq]
    exact ⟨by decide +kernel, trivial⟩
  rw [hKey.hears_iff]
  simp only [List.mem_singleton, forall_eq, Selector.holds_equals_text_iff,
    AttributeValue.follow?_name_iff, AttributeValue.node.injEq,
    exists_eq_left']

end

/-- What the listeners come to at a visit. -/
theorem toldAt_eq [RegexEngine] {settings : Settings} {actives : List (ActiveListener ArrowScopes)}
    (h : (listeners settings).mapM activate = .ok actives) (source : SourceCode) (visit : Visit)
    (scopes : ArrowScopes) :
    toldAt source actives visit scopes =
      (reportsAt settings source visit scopes, scopes.hear visit) := by
  rw [toldAt, reactions_filter h]
  simp only [listeners, scopeListeners, List.flatMap_cons, List.flatMap_nil, List.map_cons,
    List.map_nil, remembering, reporting, List.cons_append, List.nil_append, List.append_nil]
  have hKinds := @hears_of_mem_plainKeys _ visit
  simp only [plainKeys, List.forall_mem_cons, List.not_mem_nil, false_imp_iff, implies_true,
    and_true] at hKinds
  obtain ⟨hProgram, hProgramExit, hDeclaration, hDeclarationExit, hExpression, hExpressionExit,
    hArrow, hArrowExit, hThis, hSuper, hObject, hProperty⟩ := hKinds
  obtain ⟨phase, place⟩ := visit
  cases phase
  all_goals
    cases hKind : place.kind
    all_goals
      simp only [hKind, reportsAt, ArrowScopes.hear, List.filter_cons, List.filter_nil, hProgram,
        hProgramExit, hDeclaration, hDeclarationExit, hExpression, hExpressionExit, hArrow,
        hArrowExit, hThis, hSuper, hObject, hProperty, hears_newTarget_iff, hears_arguments_iff,
        reduceCtorEq, and_self, and_false, false_and, true_and, reduceIte]
  case enter.metaProperty =>
    have hAsked : place.BelongsToFunction ↔
        (place.node.child? .metaWord).bind (fun word => word.text? .ident) = some "new" ∧
        (place.node.child? .property).bind (fun word => word.text? .ident) = some "target" := by
      simp [BelongsToFunction, hKind]
    simp only [← hAsked]
    split <;> rfl
  case enter.identifier =>
    by_cases hName : place.node.text? .ident = some "arguments"
    · simp [told, BelongsToFunction, hKind, hName, ← isReference_iff]
    · simp [told, BelongsToFunction, hKind, hName]
  all_goals simp [told, BelongsToFunction, hKind]

theorem accepts_onNode {desk : Desk} {messageId : String}
    (hDeclared : (desk.info.template? messageId).isSome) (node : Node) :
    desk.Accepts (.onNode messageId node) where
  declared := hDeclared
  fixable := by rintro ⟨⟩
  single := by rintro _ ⟨⟩
  suggestions_eq := rfl

theorem accepts_fixableReport {desk : Desk} {messageId : String}
    (hDeclared : (desk.info.template? messageId).isSome) (hFixable : desk.info.fixable.isSome)
    (node : Node) (fix : Option Fix) : desk.Accepts (fixableReport messageId node fix) where
  declared := hDeclared
  fixable _ := hFixable
  single := by
    rintro fixes ⟨⟩
    cases fix <;> simp
  suggestions_eq := rfl

/-- Whatever is reported on a property passes every check. -/
theorem accepts_of_mem_propertyReports {settings : Settings} {source : SourceCode} {place : Place}
    {scopes : ArrowScopes} {desk : Desk} (hInfo : desk.info = info) :
    ∀ report ∈ propertyReports settings source place scopes, desk.Accepts report := by
  have hFixable : ∀ {messageId node fix}, (info.template? messageId).isSome →
      ∀ report ∈ [fixableReport messageId node fix], desk.Accepts report := by
    intro messageId node fix hDeclared
    rw [List.forall_mem_singleton]
    exact accepts_fixableReport (by rwa [hInfo]) (by rw [hInfo]; rfl) node fix
  have hNone : ∀ report ∈ ([] : List Report), desk.Accepts report := by simp
  unfold propertyReports conciseReports longReports variableReports
  dsimp only
  repeat' split
  all_goals first | exact hNone | exact hFixable (by decide)

theorem accepts_of_mem_objectReports {settings : Settings} {object : Node} {desk : Desk}
    (hInfo : desk.info = info) : ∀ report ∈ objectReports settings object, desk.Accepts report := by
  have hOnNode : ∀ {messageId node}, (info.template? messageId).isSome →
      ∀ report ∈ [Report.onNode messageId node], desk.Accepts report := by
    intro messageId node hDeclared
    rw [List.forall_mem_singleton]
    exact accepts_onNode (by rwa [hInfo]) node
  have hNone : ∀ report ∈ ([] : List Report), desk.Accepts report := by simp
  unfold objectReports
  dsimp only
  repeat' split
  all_goals first | exact hNone | exact hOnNode (by decide)

/-- The listeners never fail, and their reports pass every check. -/
theorem isAccepted_of_activate [RegexEngine] {settings : Settings}
    {actives : List (ActiveListener ArrowScopes)}
    (h : (listeners settings).mapM activate = .ok actives) {desk : Desk}
    (hInfo : desk.info = info) : ∀ active ∈ actives, IsAccepted desk active := by
  have hCreated : ∀ listener ∈ listeners settings, ∀ place scopes,
      (listener.react desk.source place scopes).IsAccepted desk := by
    simp only [listeners, scopeListeners, List.flatMap_cons, List.flatMap_nil, List.map_cons,
      List.map_nil, List.cons_append, List.nil_append, List.append_nil, List.forall_mem_cons,
      remembering, reporting]
    have hNone : ∀ report ∈ ([] : List Report), desk.Accepts report := by simp
    refine ⟨?_, ?_, ?_, ?_, ?_, ?_, ?_, ?_, ?_, ?_, ?_, ?_, ?_, ?_, by simp⟩
    case refine_13 => exact fun _ _ => ⟨_, _, rfl, accepts_of_mem_objectReports hInfo⟩
    case refine_14 => exact fun _ _ => ⟨_, _, rfl, accepts_of_mem_propertyReports hInfo⟩
    all_goals exact fun _ _ => ⟨_, [], rfl, hNone⟩
  intro active hActive place scopes
  obtain ⟨listener, hListener, hActivate⟩ := exists_of_mem_mapM h hActive
  rw [react_of_activate hActivate]
  exact hCreated listener hListener place scopes

/-- The messages that ask for the short form of a property. -/
def shortMessages : List String := ["expectedMethodShorthand", "expectedPropertyShorthand"]

/-- The messages that ask for the long form of a method. -/
def methodLongMessages : List String := ["expectedMethodLongform", "expectedLiteralMethodLongform"]

/-- What is reported on an object as a whole does not ask for one property in short form, and there
is no fix for it. -/
theorem unfixed_of_mem_objectReports {settings : Settings} {object : Node} {report : Report}
    (h : report ∈ objectReports settings object) :
    report.messageId ∉ shortMessages ∧ report.fixes = none := by
  revert report
  have hOnNode : ∀ {messageId}, messageId ∉ shortMessages →
      ∀ report ∈ [Report.onNode messageId object],
        report.messageId ∉ shortMessages ∧ report.fixes = none := by
    intro messageId hNot
    rw [List.forall_mem_singleton]
    exact ⟨hNot, rfl⟩
  unfold objectReports
  dsimp only
  repeat' split
  all_goals first | exact hOnNode (by decide) | simp

theorem messageId_ne_of_mem_objectReports {settings : Settings} {object : Node}
    {report : Report} (h : report ∈ objectReports settings object) :
    report.messageId ≠ "expectedMethodShorthand" := fun hMethod =>
  (unfixed_of_mem_objectReports h).1 (by simp [hMethod, shortMessages])

section

variable {settings : Settings} {source : SourceCode} {place value : Place} {scopes : ArrowScopes}
  {property key : Node} {report : Report}

/-- Nothing is reported on a property of a pattern. -/
theorem parent_kind_ne_of_mem_propertyReports
    (h : report ∈ propertyReports settings source place scopes) :
    ∀ parent, place.parent? = some parent → parent.kind ≠ .objectPattern := by
  intro parent hParent hKind
  unfold propertyReports at h
  simp only [hParent, Option.any_some, hKind, beq_self_eq_true, Bool.true_or, if_true] at h
  split at h <;> cases h

/-- What is reported on a property is reported on its short form or on its long form. -/
theorem exists_of_mem_propertyReports (h : report ∈ propertyReports settings source place scopes) :
    ∃ key value, place.node.child? .key = some key ∧ place.child? .value = some value ∧
      isAccessor place.node = false ∧
      (place.node.flag .computed = true → isFunctionValue value.node = true) ∧
      (isConcise place.node = true ∧ report ∈ conciseReports settings source place.node key ∨
        isConcise place.node = false ∧
          report ∈ longReports settings source scopes place.node key value) := by
  unfold propertyReports at h
  dsimp only at h
  split at h
  case h_2 => cases h
  case h_1 key value hKey hValue =>
    split at h
    · cases h
    case isFalse hOwn =>
      simp only [Bool.or_eq_true, not_or, Bool.not_eq_true, Bool.and_eq_true, not_and,
        Bool.not_eq_true', Bool.not_eq_false] at hOwn
      obtain ⟨⟨-, hAccessor⟩, hComputed⟩ := hOwn
      refine ⟨key, value, hKey, hValue, hAccessor, hComputed, ?_⟩
      split at h
      case isTrue hConcise => exact .inl ⟨hConcise, h⟩
      case isFalse hConcise => exact .inr ⟨Bool.eq_false_iff.mpr hConcise, h⟩

/-- The long form is asked for of methods and of names alone. -/
theorem eq_of_mem_conciseReports (h : report ∈ conciseReports settings source property key)
    (hConcise : isConcise property = true) :
    (report.messageId ∈ methodLongMessages ∧ property.flag .method = true ∧
      report = fixableReport report.messageId property (fromMethod? source property)) ∨
    (report.messageId = "expectedPropertyLongform" ∧ property.flag .shorthand = true ∧
      report = fixableReport report.messageId property (some (fromShorthand source key))) := by
  unfold conciseReports at h
  split at h
  case isTrue hNever =>
    obtain rfl := List.mem_singleton.mp h
    exact .inl ⟨List.mem_cons_self, (Bool.and_eq_true_iff.mp hNever).1, rfl⟩
  case isFalse hNever =>
    split at h
    case isTrue hQuoted =>
      obtain rfl := List.mem_singleton.mp h
      exact .inl ⟨List.mem_cons_of_mem _ List.mem_cons_self,
        (Bool.and_eq_true_iff.mp (Bool.and_eq_true_iff.mp hQuoted).1).1, rfl⟩
    case isFalse =>
      split at h
      case isFalse => cases h
      case isTrue hMode =>
        obtain rfl := List.mem_singleton.mp h
        simp only [hMode, Bool.and_true, Bool.not_eq_true] at hNever
        exact .inr ⟨rfl, by simpa [isConcise, hNever] using hConcise, rfl⟩

/-- Of a property in its long form the short one is asked for. -/
theorem messageId_of_mem_longReports
    (h : report ∈ longReports settings source scopes property key value) :
    report.messageId ∈ shortMessages := by
  have hFixable : ∀ {messageId node fix}, messageId ∈ shortMessages →
      report ∈ [fixableReport messageId node fix] → report.messageId ∈ shortMessages := by
    intro messageId node fix hShort hMem
    rwa [List.mem_singleton.mp hMem]
  unfold longReports variableReports at h
  dsimp only at h
  repeat' split at h
  all_goals first | cases h; done | exact hFixable (by decide) h

/-- The short form is asked for of properties in their long form. -/
theorem exists_mem_longReports (h : report ∈ propertyReports settings source place scopes)
    (hShort : report.messageId ∈ shortMessages) :
    ∃ key value, place.node.child? .key = some key ∧ place.child? .value = some value ∧
      isAccessor place.node = false ∧ isConcise place.node = false ∧
      (place.node.flag .computed = true → isFunctionValue value.node = true) ∧
      report ∈ longReports settings source scopes place.node key value := by
  obtain ⟨key, value, hKey, hValue, hAccessor, hComputed, hConcise | ⟨hLong, hReport⟩⟩ :=
    exists_of_mem_propertyReports h
  · have hNot : ∀ messageId ∈ methodLongMessages, messageId ∉ shortMessages := by decide
    rcases eq_of_mem_conciseReports hConcise.2 hConcise.1 with ⟨hMethod, -⟩ | ⟨hName, -⟩
    · exact absurd hShort (hNot _ hMethod)
    · rw [hName] at hShort
      exact absurd hShort (by decide)
  · exact ⟨key, value, hKey, hValue, hAccessor, hLong, hComputed, hReport⟩

/-- A method is asked for where settings ask for methods, and the value is a function that can become
one. -/
theorem eq_of_mem_longReports_method
    (h : report ∈ longReports settings source scopes property key value)
    (hMethod : report.messageId = "expectedMethodShorthand") :
    settings.mode.asksForMethods = true ∧ (value.node.child? .id).isNone = true ∧
      isFunctionValue value.node = true ∧ isExceptedFunction settings property key = false ∧
      isConvertible settings scopes value = true ∧
      report = fixableReport "expectedMethodShorthand" property (toMethod? source property) := by
  unfold longReports at h
  split at h
  case isTrue hFunction =>
    split at h
    case isFalse => cases h
    case isTrue hConvertible =>
      simp only [Bool.and_eq_true, Bool.not_eq_true'] at hFunction hConvertible
      exact ⟨hFunction.1.1, hFunction.1.2, hFunction.2, hConvertible.1, hConvertible.2,
        List.mem_singleton.mp h⟩
  case isFalse =>
    have hOther : ∀ {node fix}, report ∉ [fixableReport "expectedPropertyShorthand" node fix] := by
      intro node fix hMem
      rw [List.mem_singleton.mp hMem] at hMethod
      exact absurd hMethod (show "expectedPropertyShorthand" ≠ "expectedMethodShorthand" by decide)
    unfold variableReports at h
    dsimp only at h
    repeat' split at h
    all_goals first | cases h; done | exact absurd h hOther

/-- A name alone is asked for where settings ask for properties, and the value is a variable. -/
theorem exists_of_mem_longReports_name
    (h : report ∈ longReports settings source scopes property key value)
    (hName : report.messageId = "expectedPropertyShorthand") :
    settings.mode.asksForProperties = true ∧ value.kind = .identifier ∧
      ∃ name, value.node.name? = some name ∧ report =
        fixableReport "expectedPropertyShorthand" property (toShorthand? source property name) := by
  unfold longReports at h
  split at h
  case isTrue =>
    split at h
    case isFalse => cases h
    case isTrue =>
      rw [List.mem_singleton.mp h] at hName
      exact absurd hName (show "expectedMethodShorthand" ≠ "expectedPropertyShorthand" by decide)
  case isFalse =>
    split at h
    case isFalse => cases h
    case isTrue hVariable =>
      simp only [Bool.and_eq_true, beq_iff_eq] at hVariable
      unfold variableReports at h
      dsimp only at h
      split at h
      case h_1 => cases h
      case h_2 name hValue =>
        split at h
        case isTrue => exact ⟨hVariable.1, hVariable.2, name, hValue, List.mem_singleton.mp h⟩
        case isFalse => cases h

/-- What a report on a property as a method says of the value: it is a function, or an arrow
function that was not found to share anything. -/
theorem value_of_mem_propertyReports
    (h : report ∈ propertyReports settings source place scopes)
    (hMethod : report.messageId = "expectedMethodShorthand") :
    report.span = place.span ∧ ∃ value, place.child? .value = some value ∧
      (value.kind = .functionExpression ∨
        value.kind = .arrowFunctionExpression ∧ scopes.shares value = false) := by
  obtain ⟨key, value, -, hValue, -, -, -, hLong⟩ :=
    exists_mem_longReports h (by simp [hMethod, shortMessages])
  obtain ⟨-, -, hFunction, -, hConvertible, rfl⟩ := eq_of_mem_longReports_method hLong hMethod
  refine ⟨rfl, value, hValue, ?_⟩
  simp only [isConvertible, isFunctionValue, Bool.and_eq_true, Bool.or_eq_true, beq_iff_eq,
    Bool.not_eq_true'] at hFunction hConvertible
  rcases hFunction with hKind | hKind
  · exact .inl hKind
  · rcases hConvertible with hExpression | hUnshared
    · exact .inl hExpression
    · exact .inr ⟨hKind, hUnshared.2⟩

/-- Every report on a property is about all of it. -/
theorem span_of_mem_propertyReports (h : report ∈ propertyReports settings source place scopes) :
    report.span = place.span := by
  have hFixable : ∀ {messageId fix}, report ∈ [fixableReport messageId place.node fix] →
      report.span = place.span := by
    intro messageId fix hMem
    rw [List.mem_singleton.mp hMem]
    rfl
  unfold propertyReports conciseReports longReports variableReports at h
  dsimp only at h
  repeat' split at h
  all_goals first | cases h; done | exact hFixable h

/-- Where shorthand is asked for nothing is said of a property in shorthand, but for methods whose
name stands in quotes. -/
theorem propertyReports_of_isConcise (hConcise : isConcise place.node = true)
    (hMode : settings.mode ≠ .never) (hQuotes : place.node.flag .method = true →
      ∀ key, place.node.child? .key = some key →
        (settings.avoidQuotes && isStringLiteral key) = false) :
    propertyReports settings source place scopes = [] := by
  have hNever : (settings.mode == .never) = false := by simpa using hMode
  unfold propertyReports
  dsimp only
  split
  case h_2 => rfl
  case h_1 key value hKey _ =>
    rw [if_pos hConcise]
    have hNone : conciseReports settings source place.node key = [] := by
      unfold conciseReports
      cases hMethod : place.node.flag .method with
      | false => simp [hNever]
      | true => simp [hNever, hQuotes hMethod key hKey]
    rw [hNone, ite_self]

theorem objectReports_eq_nil {object : Node}
    (hMode : settings.mode ≠ .consistent ∧ settings.mode ≠ .consistentAsNeeded) :
    objectReports settings object = [] := by
  simp [objectReports, hMode]

end

/-- The rule with its listeners set up. -/
abbrev active [RegexEngine] (severity : Severity) (options : List Json)
    (actives : List (ActiveListener ArrowScopes)) : ActiveRule :=
  ⟨⟨rule, severity, options⟩, actives⟩

/-- How the rule follows arrow functions, as one of the rules of a pass. -/
structure TracksArrows [RegexEngine] (severity : Severity) (options : List Json)
    (actives : List (ActiveListener ArrowScopes)) (rules : List ActiveRule) (rank : Nat)
    (source : SourceCode) (computeFixes : Bool) : Prop where
  /-- When a property is left whose value is an arrow function, the arrow function was found to
  share something just if it does. -/
  at_exit : ∀ earlier property later,
    source.root.visits = earlier ++ ⟨.exit, property⟩ :: later → property.kind = .property →
      ∀ arrow, property.child? .value = some arrow → arrow.kind = .arrowFunctionExpression →
        ∃ progress, (PassState.after rules source computeFixes earlier).runners[rank]? =
            some ⟨active severity options actives, progress⟩ ∧
          progress.isStopped = false ∧
          (ArrowScopes.shares progress.memory arrow = true ↔ arrow.SharesLexically)
  /-- At the end no function is open. -/
  emptied : ∃ progress,
    (PassState.after rules source computeFixes source.root.visits).runners[rank]? =
      some ⟨active severity options actives, progress⟩ ∧
    ArrowScopes.functions progress.memory = []
  /-- Only a property is reported to want a method, when it is left, and its value is a function or
  an arrow function that shares nothing. -/
  reported : ∀ earlier visit later, source.root.visits = earlier ++ visit :: later →
    ∃ before after new, (PassState.after rules source computeFixes earlier).runners[rank]? =
        some ⟨active severity options actives, before⟩ ∧
      (PassState.after rules source computeFixes (earlier ++ [visit])).runners[rank]? =
        some ⟨active severity options actives, after⟩ ∧
      after.log.filed = before.log.filed ++ new ∧
      ∀ filed ∈ new, filed.diagnostic.messageId = some "expectedMethodShorthand" →
        visit.phase = .exit ∧ visit.place.kind = .property ∧
          filed.diagnostic.span = visit.place.span ∧
          ∃ value, visit.place.child? .value = some value ∧
            (value.kind = .functionExpression ∨
              value.kind = .arrowFunctionExpression ∧ ¬value.SharesLexically)

/-- The root of what a source is read as is a program, and nothing below it is one. -/
theorem isWholeProgram_of_parse {text : String} {options : ParseOptions} {parsed : Parsed}
    (h : parse text options = .ok parsed) : (Place.root parsed.program).IsWholeProgram := by
  obtain ⟨hLies, -⟩ := lies_of_parse h
  refine ⟨hLies.kind_eq, fun place hPlace child hChild => ?_⟩
  rcases mem_descendants_iff.mp (mem_descendants_of_mem_children hPlace hChild) with
    rfl | ⟨first, hFirst, hBelow⟩
  · obtain ⟨_, _, hAscents⟩ := ascents_of_mem_children hChild
    cases hAscents
  · refine (hLies.aligned child.node (Node.mem_forest.mpr ⟨first.node, ?_, ?_⟩)).isPart.kind_ne
    · exact node_mem_of_mem_children hFirst
    · exact node_mem_subtree hBelow

theorem child?_mem_children {place child : Place} {field : FieldName}
    (h : place.child? field = some child) : child ∈ place.children := by
  unfold Place.child? at h
  split at h
  · exact List.mem_of_mem_filter (List.mem_of_mem_head? h)
  · cases h

section

variable [RegexEngine] {settings : Settings} {actives : List (ActiveListener ArrowScopes)}
  (hActivate : (listeners settings).mapM activate = .ok actives) {desk : Desk}
  (hInfo : desk.info = info)
include hActivate hInfo

/-- After any visits the rule goes on, and what it remembers is what the visits come to. -/
theorem after_spec (visits : List Visit) :
    (Progress.after desk actives visits ⟨{}, {}, false⟩).isStopped = false ∧
      (Progress.after desk actives visits ⟨{}, {}, false⟩).memory =
        visits.foldl ArrowScopes.hear {} := by
  have hStart : (⟨{}, {}, false⟩ : Progress ArrowScopes).isStopped = false := rfl
  obtain ⟨hGoing, hMemory⟩ :=
    after_of_isAccepted (isAccepted_of_activate hActivate hInfo) visits hStart
  refine ⟨hGoing, hMemory.trans ?_⟩
  unfold remembered
  simp only [toldAt_eq hActivate]

/-- At one more visit the rule files what it reports there. -/
theorem exists_filed_concat (visits : List Visit) (visit : Visit) :
    ∃ new, (Progress.after desk actives (visits ++ [visit]) ⟨{}, {}, false⟩).log.filed =
        (Progress.after desk actives visits ⟨{}, {}, false⟩).log.filed ++ new ∧
      List.Forall₂ Desk.Files
        (reportsAt settings desk.source visit (visits.foldl ArrowScopes.hear {})) new := by
  obtain ⟨hGoing, hMemory⟩ := after_spec hActivate hInfo visits
  obtain ⟨later, new, hHear, hFiled, hNew⟩ :=
    exists_hear (isAccepted_of_activate hActivate hInfo) visit hGoing
  refine ⟨new, ?_, ?_⟩
  · rw [after_concat, hHear]
    exact hFiled
  · rwa [toldAt_eq hActivate, hMemory] at hNew

end

/-- A finding of the rule is what it reports at some visit. -/
theorem exists_visit_of_mem_findingsOf [RegexEngine] {settings : Settings}
    {actives : List (ActiveListener ArrowScopes)}
    (hActivate : (listeners settings).mapM activate = .ok actives) {severity : Severity}
    {options : List Json} {rules : List ActiveRule} {rank : Nat}
    (hRule : rules[rank]? = some (active severity options actives)) {computeFixes : Bool}
    {source : SourceCode} {finding : Finding}
    (hFinding : finding ∈ (Pass.ofRules rules computeFixes source).findingsOf rank) :
    ∃ visit ∈ source.root.visits, ∃ scopes,
      ∃ report ∈ reportsAt settings source visit scopes,
        ∃ specificity, Desk.Files report ⟨finding.diagnostic, specificity⟩ := by
  obtain ⟨visit, hVisit, scopes, report, hReport, hFiles⟩ :=
    Pass.exists_report_of_mem_findingsOf hRule (isAccepted_of_activate hActivate rfl) hFinding
  have hTold := congrArg (fun told => report ∈ told.1) (toldAt_eq hActivate source visit scopes)
  exact ⟨visit, hVisit, scopes, report, hTold.mp hReport, hFiles⟩

/-- The listeners of the rule are those for some settings. -/
theorem exists_settings_of_listeners [RegexEngine] {severity : Severity} {ruleOptions : List Json}
    {actives : List (ActiveListener ArrowScopes)}
    (h : (⟨rule, severity, ruleOptions⟩ : ConfiguredRule).listeners = .ok actives) :
    ∃ settings, (listeners settings).mapM activate = .ok actives := by
  obtain ⟨created, hCreated, hActivate⟩ := exists_of_bind_eq_ok h
  obtain ⟨settings, -, hSettings⟩ := exists_of_bind_eq_ok hCreated
  exact ⟨settings, (Except.ok.inj hSettings) ▸ hActivate⟩

/-- The rule follows arrow functions in every program, whatever other rules there are. -/
theorem parse_tracksArrows [RegexEngine] {text : String} {parseOptions : ParseOptions}
    {parsed : Parsed}
    (hParse : parse text parseOptions = .ok parsed) {severity : Severity} {options : List Json}
    {actives : List (ActiveListener ArrowScopes)}
    (hListeners : (⟨rule, severity, options⟩ : ConfiguredRule).listeners = .ok actives)
    {rules : List ActiveRule} {rank : Nat}
    (hRule : rules[rank]? = some (active severity options actives)) (computeFixes : Bool) :
    TracksArrows severity options actives rules rank { text, parsed } computeFixes := by
  obtain ⟨settings, hActivate⟩ := exists_settings_of_listeners hListeners
  obtain ⟨-, arena, hStores, hAst⟩ := lies_of_parse hParse
  have hTree : parsed.ast.IsTree := hAst ▸ hStores.isTree
  have hHolds : parsed.ast.Holds parsed.program := hAst ▸ hStores.holds
  have hNodup := hHolds.nodup_descendants hTree
  have hWhole := isWholeProgram_of_parse hParse
  have hShares : ∀ {earlier property later arrow},
      (Place.root parsed.program).visits = earlier ++ ⟨.exit, property⟩ :: later →
        property.child? .value = some arrow → arrow.kind = .arrowFunctionExpression →
          ((earlier.foldl ArrowScopes.hear {}).shares arrow = true ↔ arrow.SharesLexically) := by
    intro earlier property later arrow hVisits hArrow hKind
    rw [visits_eq_events] at hVisits
    exact ArrowScopes.shares_iff hWhole hNodup hVisits (child?_mem_children hArrow) hKind
  have hAlone := PassState.getElem?_runners_after hRule { text, parsed } computeFixes
  have hSpec := @after_spec _ _ _ hActivate
    ((active severity options actives).desk { text, parsed } computeFixes) rfl
  refine ⟨?_, ⟨_, hAlone _, ?_⟩, ?_⟩
  · intro earlier property later hVisits _ arrow hArrow hKind
    obtain ⟨hGoing, hMemory⟩ := hSpec earlier
    refine ⟨_, hAlone earlier, hGoing, ?_⟩
    exact hMemory ▸ hShares hVisits hArrow hKind
  · refine (congrArg ArrowScopes.functions (hSpec _).2).trans ?_
    rw [visits_eq_events]
    exact ArrowScopes.functions_eq_nil hWhole
  · intro earlier visit later hVisits
    obtain ⟨new, hFiled, hNew⟩ := @exists_filed_concat _ _ _ hActivate
      ((active severity options actives).desk { text, parsed } computeFixes) rfl earlier visit
    refine ⟨_, _, new, hAlone earlier, hAlone (earlier ++ [visit]), hFiled, ?_⟩
    intro filed hMem hMethod
    obtain ⟨report, hReport, hId, hSpan⟩ := Desk.exists_report_of_mem hNew hMem
    have hReported : report.messageId = "expectedMethodShorthand" :=
      Option.some.inj (hId.symm.trans hMethod)
    obtain ⟨phase, place⟩ := visit
    unfold reportsAt at hReport
    split at hReport
    case h_1 => exact absurd hReported (messageId_ne_of_mem_objectReports hReport)
    case h_2 hPhase hKind =>
      obtain rfl : phase = .exit := hPhase
      obtain ⟨hOwn, value, hValue, hFunction⟩ := value_of_mem_propertyReports hReport hReported
      refine ⟨rfl, hKind, hSpan.trans hOwn, value, hValue, hFunction.imp_right ?_⟩
      rintro ⟨hArrow, hUnshared⟩
      exact ⟨hArrow, fun h => by simp [(hShares hVisits hValue hArrow).mpr h] at hUnshared⟩
    case h_3 => cases hReport

/-- In `({ a: () => { return () => this } })` the arrow functions are followed. -/
theorem parse_tracksArrows_nested :
    ∃ parsed actives,
      parse "(\x7b a: () => \x7b return () => this \x7d \x7d)" default = .ok parsed ∧
      (⟨rule, .error, []⟩ : ConfiguredRule).listeners = .ok actives ∧
      TracksArrows .error [] actives [active .error [] actives] 0
        ⟨"(\x7b a: () => \x7b return () => this \x7d \x7d)", parsed⟩ true := by
  have hReads :
      (parse "(\x7b a: () => \x7b return () => this \x7d \x7d)" default).isOk = true := by
    decide +kernel
  obtain ⟨parsed, hParsed⟩ := exists_eq_ok_of_isOk hReads
  have hOk : (⟨rule, .error, []⟩ : ConfiguredRule).listeners.isOk = true := by decide +kernel
  obtain ⟨actives, hActives⟩ := exists_eq_ok_of_isOk hOk
  exact ⟨parsed, actives, hParsed, hActives, parse_tracksArrows hParsed hActives rfl true⟩

end EcmaLint.Rules.ObjectShorthand
