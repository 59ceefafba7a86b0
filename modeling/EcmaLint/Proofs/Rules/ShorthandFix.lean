import EcmaLint.Proofs.Edit.Merge
import EcmaLint.Proofs.Exchange.Shortening
import EcmaLint.Proofs.Rules.MethodFix
import EcmaLint.Proofs.Rules.ObjectShorthand
import EcmaLint.Proofs.Tree.Lineage

/-! What the fixes for shorthand in object literals make of a program. The text that a fix puts in
the place of a property is that of the property in its short form, so the new text is a program too.
But for the property it is the same program, and the rule finds nothing on the property again. -/
namespace EcmaLint

open Grammar Lexer Node Exchange

/-- Where the text of a fix stands in the text that it makes. -/
def Fix.newSpan (fix : Fix) : Span :=
  ⟨fix.span.start, fix.span.start + Text.byteLength fix.text.toList⟩

/-- Only objects and patterns have properties. -/
theorem NodeKind.isObject_of_accepts {kind : NodeKind} :
    ∀ form ∈ kind.forms, ∀ field ∈ form, field.2.accepts .property = true →
      kind = .objectExpression ∨ kind = .objectPattern := by
  cases kind
  all_goals
    simp only [forms, functionForm, classForm, List.forall_mem_cons, List.not_mem_nil,
      false_imp_iff, implies_true, and_true]
  all_goals
    simp [Part.accepts, isStatement, isExpression, isBinding, isTarget, isReference, isElement,
      isArgument, isMember, isPatternMember]

namespace Place

/-- A place that holds a member of an object. -/
def IsMember (object place : Place) : Prop :=
  object.kind = .objectExpression ∧ place.kind = .property ∧ place ∈ object.children

section

variable {source : String} {options : ParseOptions} {parsed : Parsed}
  (hParse : parse source options = .ok parsed)
include hParse

/-- A property that is in no pattern is a member of an object. -/
theorem exists_isMember : ∀ place ∈ (root parsed.program).descendants, place.kind = .property →
    (∀ parent, place.parent? = some parent → parent.kind ≠ .objectPattern) →
      ∃ object ∈ (root parsed.program).descendants, IsMember object place := by
  obtain ⟨hLies, -⟩ := lies_of_parse hParse
  have hShaped : parsed.program.Shaped := (shaped_of_parse hParse).shaped
  refine forall_descendants (fun hKind => ?_) fun place hPlace _ child hChild hKind hOwn => ?_
  · cases hKind.symm.trans hLies.kind_eq
  · obtain ⟨name, -, hNamed⟩ := exists_field?_of_mem_children hChild
    obtain ⟨form, hForm, -, part, hPart, hAccepts⟩ :=
      (hShaped _ (node_mem_subtree hPlace)).exists_part hNamed
    rw [show child.node.kind = .property from hKind] at hAccepts
    rcases NodeKind.isObject_of_accepts form hForm (name, part) hPart hAccepts with hObject | hPattern
    · exact ⟨place, hPlace, hObject, hKind, hChild⟩
    · exact absurd hPattern (hOwn place (parent?_of_mem_children hChild))

/-- Two members of objects that stand in one place are one, as objects start before their members. -/
theorem eq_of_isMember {object first other second : Place}
    (hObject : object ∈ (root parsed.program).descendants) (hFirst : IsMember object first)
    (hOther : other ∈ (root parsed.program).descendants) (hSecond : IsMember other second)
    (hSpan : first.span = second.span) : first = second := by
  obtain ⟨hLies, -⟩ := lies_of_parse hParse
  have hShaped : parsed.program.Shaped := (shaped_of_parse hParse).shaped
  have hNests := nests_of_liesOver hLies
  have hStarts : ∀ {object place}, object ∈ (root parsed.program).descendants →
      IsMember object place → object.span.start < place.span.start := by
    rintro object place hObject ⟨hKind, -, hChild⟩
    exact (aligned_of_liesOver hLies hObject (by rw [hKind]; decide)).isPart.start_lt hKind _
      (node_mem_of_mem_children hChild)
  have hIn : ∀ {object place}, object ∈ (root parsed.program).descendants →
      IsMember object place → place ∈ (root parsed.program).descendants :=
    fun hObject hMember => mem_descendants_of_mem_children hObject hMember.2.2
  -- the object that holds a member cannot lie inside the other member
  have hNotBelow : ∀ {object place start}, object ∈ (root parsed.program).descendants →
      IsMember object place → start ∈ (root parsed.program).descendants → place ∈ start.descendants →
        place.span = start.span → place = start := by
    intro object place start hObject hMember hStart hBelow hSame
    by_contra hNe
    have hAbove := mem_ancestors_of_ne hBelow hNe
    rw [ancestors_of_mem_children hMember.2.2] at hAbove
    have hLt := hStarts hObject hMember
    have hLe : start.span.start ≤ object.span.start := by
      rcases List.mem_cons.mp hAbove with rfl | hAbove
      · exact Nat.le_refl _
      · exact (inside_of_mem_descendants (fun place hPlace =>
          hNests place (mem_descendants_trans hStart hPlace)) object
            (mem_descendants_of_mem_ancestors object hObject hAbove)).1
    rw [hSame] at hLt
    omega
  have hNonempty := (aligned_of_liesOver hLies (hIn hObject hFirst)
    (by rw [hFirst.2.1]; decide)).start_lt_stop
  rcases mem_descendants_of_span_eq hShaped hNests (hIn hObject hFirst) (hIn hOther hSecond)
    (fun hKind => absurd (hKind.symm.trans hFirst.2.1) (by decide))
    (fun hKind => absurd (hKind.symm.trans hSecond.2.1) (by decide)) hNonempty hSpan with h | h
  · exact hNotBelow hObject hFirst (hIn hOther hSecond) h hSpan
  · exact (hNotBelow hOther hSecond (hIn hObject hFirst) h hSpan.symm).symm

end

end Place

namespace Rules.ObjectShorthand

open Place

/-- The tokens of a program are those in front of a property and those that its reading starts with. -/
theorem tokens_eq_of_reads {source : String} {options : ParseOptions} {parsed : Parsed}
    (hParse : parse source options = .ok parsed) {lead : List Char} {front out back : List Chunk}
    {n : Nat} {context : Context} {cursor later : Cursor} {property : Node}
    (hLayout : Layout source lead (front ++ (out ++ back))) (hEnds : EndsWithToken out)
    (hReads : ReadsChunks lead front out back n context cursor property later) :
    SourceCode.tokens ⟨source, parsed⟩ =
      (lexemes (Text.byteLength lead) none front ++ cursor.rest).map Lexeme.token := by
  rw [hReads.rest_eq, hReads.later_eq, ← lexemes_append_of_endsWithToken lead front hEnds,
    map_token_lexemes]
  exact (hLayout.exists_run_of_parse hParse).1

section

variable {source : String} {options : ParseOptions} {parsed : Parsed} {property : Node} {fix : Fix}
  (hParse : parse source options = .ok parsed) {lead : List Char} {front out back : List Chunk}
  (h : Stands source options.year property lead front out back)
  (hFix : toMethod? ⟨source, parsed⟩ property = some fix) {n : Nat} {context : Context}
  {cursor later : Cursor} (reading : MethodReading lead front out n context cursor property later)
  (hReads : ReadsChunks lead front out back n context cursor property later)
include hParse h hFix hReads

/-- However a property with a function is read, the fix that makes a method of it puts the text of the
method there, and there is no comment between the key and the function. -/
theorem toMethod?_of_reading : fix = ⟨property.span, String.ofList (text reading.chunks)⟩ ∧
    ∃ last ∈ SourceCode.tokens ⟨source, parsed⟩,
      last.span.stop = Text.byteLength (lead ++ text (front ++ reading.key)) ∧
      SourceCode.commentsExistBetween ⟨source, parsed⟩ last.span reading.value.span = false := by
  obtain ⟨hLies, -⟩ := lies_of_parse hParse
  have hOrder : Token.InOrder (SourceCode.tokens ⟨source, parsed⟩) := hLies.inOrder
  have hSource : source.toList = lead ++ text (front ++ (reading.key ++ (reading.head ++
      (reading.params ++ (reading.arrow ++ (reading.block ++ (reading.closes ++ back))))))) := by
    refine h.layout.source_eq.trans
      ((congrArg (fun chunks => lead ++ text (front ++ (chunks ++ back))) reading.out_eq).trans ?_)
    simp
  have hStart : property.span = ⟨Text.byteLength (lead ++ text front), property.span.stop⟩ := by
    rw [h.span_eq]
  rw [hStart]
  exact toMethod?_eq_some reading.functionParts reading.cut hSource hOrder reading.propertyParts
    hReads.sound (hReads.size_pos h.starts) (hReads.isSpelt h.layout h.ends)
    (tokens_eq_of_reads hParse h.layout h.ends hReads) hFix

/-- However a property with a function is read, the fix that makes a method of it puts the text of the
method there. -/
theorem fix_eq_of_reading : fix = ⟨property.span, String.ofList (text reading.chunks)⟩ :=
  (toMethod?_of_reading hParse h hFix reading hReads).1

end

/-- A fix makes a program of a program. Something short stands in the place of a property, and but
for the spans all else is as it was. -/
structure Shortens (source : String) (options : ParseOptions) (program property : Node) (fix : Fix)
    (short : Node → Prop) (newSource : String) (parsed : Parsed) : Prop where
  applied : fix.applyTo? source = some newSource
  parses : parse newSource options = .ok parsed
  alike : program.Alike (fun _ _ => True)
    (fun node other => node = property ∧ short other ∧ other.span = fix.newSpan) parsed.program
  present : ∃ object ∈ parsed.program.subtree, object.kind = .objectExpression ∧
    ∃ other ∈ object.children, short other ∧ other.span = fix.newSpan

section

variable {source : String} {options : ParseOptions} {parsed : Parsed} {object property : Node}
  {fix : Fix} (hParse : parse source options = .ok parsed)
  (hObject : object ∈ forest [parsed.program]) (hKind : object.kind = .objectExpression)
  (hChild : property ∈ object.children) (hProperty : property.kind = .property)
include hParse hObject hKind hChild hProperty

/-- Where chunks that are read as something short may stand for the property, a fix that puts their
text in its place shortens it. -/
theorem exists_shortens {lead : List Char} {front out back into : List Chunk} {short : Node → Prop}
    (h : Stands source options.year property lead front out back)
    (hLayout : Layout (String.ofList (lead ++ text (front ++ (into ++ back)))) lead
      (front ++ (into ++ back)))
    (hStarts : StartsWithToken into) (hEnds : EndsWithToken into)
    (hFirst : ∀ lexeme ∈ (lexemes (Text.byteLength (lead ++ text front)) (newlineAfter none front)
      into).head?, lexeme.token.kind ≠ .punctuator ∨ lexeme.token.text ∈ ["async", "*", "["])
    (hKeeps : KeepsTargets fun node other => node = property ∧ short other)
    (hAnew : ∀ becomes, (ofChunks lead front out into back options.year property becomes).ReadsAnew
      short)
    (hFix : fix = ⟨property.span, String.ofList (text into)⟩) :
    ∃ newSource parsed', Shortens source options parsed.program property fix short newSource
      parsed' := by
  have hSpan := h.span_eq
  have hNew : fix.newSpan = ⟨Text.byteLength (lead ++ text front),
      Text.byteLength (lead ++ text (front ++ into))⟩ := by
    rw [Fix.newSpan, hFix, hSpan]
    simp only [String.toList_ofList, byteLength_text_append]
  have hApplied : fix.applyTo? source =
      some (String.ofList (lead ++ text (front ++ (into ++ back)))) := by
    rw [hFix, hSpan]
    exact applyTo?_exchange h.layout.source_eq into
  have hSpelt := (hLayout.inOrder_and_isSpelt none).2
  rw [lexemes_append_of_endsWithToken lead front hEnds] at hSpelt
  obtain ⟨parsed', hParse', hAlike, hPresent⟩ := h.exists_parse hParse hObject hKind hChild
    hProperty hLayout hStarts hEnds (fun lexeme hLexeme =>
      is_eq_false_of_spelt (hSpelt lexeme (by
        exact List.mem_append_right _ (List.mem_append_left _ (List.mem_of_mem_head? hLexeme))))
        (hFirst lexeme hLexeme)) hKeeps hAnew
  rw [← hNew] at hAlike hPresent
  exact ⟨_, parsed', hApplied, hParse', hAlike, hPresent⟩

variable (hYear : 2015 ≤ options.year) (hLong : property.IsLong)
include hYear hLong

/-- The fix that puts a variable under its own name into short form does so. -/
theorem exists_shortens_of_toShorthand? {value : Node} {name : String}
    (hComputed : property.flag .computed = false) (hValue : property.child? .value = some value)
    (hName : value.name? = some name) (hFix : toShorthand? ⟨source, parsed⟩ property name = some fix) :
    ∃ newSource parsed', Shortens source options parsed.program property fix property.IsNameFor
      newSource parsed' := by
  obtain ⟨lead, front, out, back, h⟩ := exists_stands hParse hObject hKind hChild hProperty
  obtain ⟨n, context, cursor, later, -, hReads, -⟩ := h.reads
  obtain ⟨-, -, -, hSpelt, -, hPlain⟩ :=
    hReads.exists_name h.layout h.starts h.ends hLong hComputed hValue hName
  have hLayout := hReads.layout_of_name h.layout h.starts h.mark hSpelt hPlain
  obtain ⟨_, _, -, -, -, hWord⟩ := exists_word_of_spelt hSpelt
  refine exists_shortens hParse hObject hKind hChild hProperty h hLayout ⟨_, [], _, rfl, rfl⟩
    ⟨[], _, _, rfl, rfl⟩ ?_ (keepsTargets_name hProperty)
    (fun _ => readsAnew_name h.layout h.starts h.ends hLong hComputed hValue hName hYear) ?_
  · rintro _ ⟨⟩
    refine .inl ?_
    dsimp only
    rw [hWord]
    decide
  · unfold toShorthand? at hFix
    split at hFix
    · obtain rfl := Option.some.inj hFix
      simp [Chunk.word]
    · cases hFix

/-- The fix that makes a method of a function does so. -/
theorem exists_shortens_of_toMethod? (hFunction : HoldsFunction property)
    (hFix : toMethod? ⟨source, parsed⟩ property = some fix) :
    ∃ newSource parsed', Shortens source options parsed.program property fix property.IsMethodFor
      newSource parsed' := by
  obtain ⟨lead, front, out, back, h⟩ := exists_stands hParse hObject hKind hChild hProperty
  obtain ⟨n, context, cursor, later, -, hReads, -⟩ := h.reads
  obtain ⟨reading⟩ := hReads.exists_methodReading h.layout h.starts h.ends hLong hFunction
  have hText := fun {n context cursor later} =>
    @fix_eq_of_reading source options parsed property fix hParse lead front out back h hFix n context
      cursor later
  have hLayout := reading.layout hReads h.layout h.starts h.ends h.mark
  have hInto : ∀ {n context cursor later}
      (other : MethodReading lead front out n context cursor property later),
      ReadsChunks lead front out back n context cursor property later →
        reading.chunks = other.chunks := by
    intro n context cursor later other hOther
    have hSame : text reading.chunks = text other.chunks := by
      have hFixes := congrArg (fun fix => fix.text.toList)
        ((hText reading hReads).symm.trans (hText other hOther))
      simpa using hFixes
    have hLayout' := other.layout hOther h.layout h.starts h.ends h.mark
    rw [text_append, text_append, ← hSame, ← text_append, ← text_append] at hLayout'
    exact List.append_cancel_right (List.append_cancel_left (hLayout.chunks_eq hLayout'))
  exact exists_shortens hParse hObject hKind hChild hProperty h hLayout
    reading.startsWithToken_chunks reading.endsWithToken_chunks
    (reading.first_of_chunks (hReads.isSpelt h.layout h.ends)) (keepsTargets_method hProperty)
    (fun _ => readsAnew_method h.layout hLayout h.starts h.ends reading.endsWithToken_chunks hLong
      hFunction hYear hInto) (hText reading hReads)

end

/-- What a property was shortened to is a member of an object. -/
theorem Shortens.exists_isMember_short {source newSource : String} {options : ParseOptions}
    {program property : Node} {fix : Fix} {short : Node → Prop} {parsed : Parsed}
    (h : Shortens source options program property fix short newSource parsed)
    (hKind : ∀ other, short other → other.kind = .property) :
    ∃ object ∈ (root parsed.program).descendants, ∃ member, IsMember object member ∧
      short member.node ∧ member.span = fix.newSpan := by
  obtain ⟨node, hNode, hNodeKind, other, hOther, hShort, hSpan⟩ := h.present
  obtain ⟨object, hObject, rfl⟩ : ∃ object ∈ (root parsed.program).descendants,
      object.node = node := by
    rw [show parsed.program = (root parsed.program).node from rfl, ← map_node_descendants] at hNode
    exact List.mem_map.mp hNode
  obtain ⟨member, hMember, rfl⟩ : ∃ member ∈ object.children, member.node = other := by
    rw [← map_node_children] at hOther
    exact List.mem_map.mp hOther
  exact ⟨object, hObject, member, ⟨hNodeKind, hKind _ hShort, hMember⟩, hShort, hSpan⟩

/-- What a message asks a property to become. -/
inductive AsksFor : String → (Node → Node → Prop) → Prop
  | method : AsksFor "expectedMethodShorthand" Node.IsMethodFor
  | name : AsksFor "expectedPropertyShorthand" Node.IsNameFor

section

variable {settings : Settings} {source : SourceCode} {place : Place} {scopes : ArrowScopes}
  {property key : Node} {report : Report} {messageId : String} {short : Node → Node → Prop}

theorem AsksFor.mem_shortMessages (h : AsksFor messageId short) : messageId ∈ shortMessages := by
  cases h <;> decide

theorem AsksFor.kind_eq (h : AsksFor messageId short) {other : Node} (hShort : short property other) :
    other.kind = .property := by
  cases h with
  | method =>
      cases hShort with
      | mk _ _ _ hKind => exact hKind
  | name =>
      cases hShort with
      | mk _ _ _ hKind => exact hKind

theorem isLong_of_not_isConcise (hAccessor : isAccessor property = false)
    (hConcise : isConcise property = false) : property.IsLong := by
  simp only [isConcise, Bool.or_eq_false_iff] at hConcise
  simp only [isAccessor, Bool.or_eq_false_iff, beq_eq_false_iff_ne] at hAccessor
  exact ⟨hConcise.2, hConcise.1, by simpa using hAccessor⟩

/-- A report that carries a fix carries the one that was made for it. -/
theorem eq_some_of_fixes {made : Option Fix} {fix : Fix}
    (h : (fixableReport messageId property made).fixes = some [fix]) : made = some fix := by
  have hList : made.toList = [fix] := Option.some.inj h
  cases made with
  | none => cases hList
  | some only => rw [(List.cons.inj hList).1]

/-- What can become a method is a function without a name, or an arrow function with a block. -/
theorem holdsFunction_of_isConvertible {value : Place}
    (hHeld : property.child? .value = some value.node) (hId : (value.node.child? .id).isNone = true)
    (hFunction : isFunctionValue value.node = true)
    (hConvertible : isConvertible settings scopes value = true) : HoldsFunction property := by
  refine ⟨value.node, hHeld, ?_⟩
  simp only [isConvertible, isFunctionValue, Bool.and_eq_true, Bool.or_eq_true, beq_iff_eq,
    Option.any_eq_true] at hFunction hConvertible
  rcases hFunction with hExpression | hArrow
  · exact .inl ⟨hExpression, Option.isNone_iff_eq_none.mp hId⟩
  · rcases hConvertible with hExpression | ⟨⟨-, body, hBody, hBlock⟩, -⟩
    · exact absurd (hArrow.symm.trans hExpression) (by decide)
    · exact .inr ⟨hArrow, body, hBody, hBlock⟩

/-- A key is computed only if the value is a function, so it is not if the value is a variable. -/
theorem computed_eq_false {value : Place} (hIdentifier : value.kind = .identifier)
    (hComputed : property.flag .computed = true → isFunctionValue value.node = true) :
    property.flag .computed = false := by
  refine Bool.eq_false_iff.mpr fun hIs => ?_
  have hFunction := hComputed hIs
  simp only [isFunctionValue, Bool.or_eq_true, beq_iff_eq] at hFunction
  rcases hFunction with hKind | hKind <;> exact absurd (hIdentifier.symm.trans hKind) (by decide)

/-- A method in the place of a property is not reported where the property was to become one. -/
theorem propertyReports_of_isMethodFor (h : property.IsMethodFor place.node)
    (hKey : property.child? .key = some key) (hMode : settings.mode.asksForMethods = true)
    (hExcepted : isExceptedFunction settings property key = false) :
    propertyReports settings source place scopes = [] := by
  cases h with
  | @mk oldKey newKey _ _ _ _ _ _ _ _ _ hFields _ _ _ hNew _ _ hMatches =>
      obtain rfl : oldKey = key := by
        rw [Node.child?, Node.field?, hFields] at hKey
        exact Option.some.inj hKey
      have hMethod : place.node.flag .method = true := by
        rw [Node.flag, Node.field?, hNew]
        rfl
      have hNever : settings.mode ≠ .never := by
        intro hMode'
        rw [hMode'] at hMode
        cases hMode
      refine propertyReports_of_isConcise (by simp [isConcise, hMethod]) hNever fun _ found hFound => ?_
      obtain rfl : newKey = found := by
        rw [Node.child?, Node.field?, hNew] at hFound
        exact Option.some.inj hFound
      have hSame : isStringLiteral newKey = isStringLiteral oldKey := by
        rw [isStringLiteral, isStringLiteral, hMatches.kind_eq, hMatches.text?_eq]
      rw [hSame]
      simp only [isExceptedFunction, Bool.or_eq_false_iff] at hExcepted
      exact hExcepted.2

/-- A name alone is not reported where names alone are asked for. -/
theorem propertyReports_of_isNameFor (h : property.IsNameFor place.node)
    (hMode : settings.mode.asksForProperties = true) :
    propertyReports settings source place scopes = [] := by
  cases h with
  | mk _ _ _ _ hNew =>
      have hShorthand : place.node.flag .shorthand = true := by
        rw [Node.flag, Node.field?, hNew]
        rfl
      have hMethod : place.node.flag .method = false := by
        rw [Node.flag, Node.field?, hNew]
        rfl
      have hNever : settings.mode ≠ .never := by
        intro hMode'
        rw [hMode'] at hMode
        cases hMode
      exact propertyReports_of_isConcise (by simp [isConcise, hShorthand]) hNever
        (by simp [hMethod])

end

/-- A finding with a fix is what is reported on a property, with the fix of that report. -/
theorem exists_mem_propertyReports_of_finding [RegexEngine] {settings : Settings}
    {actives : List (ActiveListener ArrowScopes)}
    (hActivate : (listeners settings).mapM Listener.activate = .ok actives) {severity : Severity}
    {ruleOptions : List Json} {rules : List ActiveRule} {rank : Nat}
    (hRule : rules[rank]? = some (active severity ruleOptions actives)) {computeFixes : Bool}
    {source : SourceCode} {finding : Finding}
    (hFinding : finding ∈ (Pass.ofRules rules computeFixes source).findingsOf rank) {fix : Fix}
    (hFix : finding.diagnostic.fix = some fix) :
    ∃ place ∈ source.root.descendants, place.kind = .property ∧
      ∃ scopes, ∃ report ∈ propertyReports settings source place scopes,
        finding.diagnostic.messageId = some report.messageId ∧
        finding.diagnostic.span = place.span ∧ report.fixes = some [fix] := by
  obtain ⟨⟨phase, place⟩, hVisit, scopes, report, hReport, specificity, hFiles⟩ :=
    exists_visit_of_mem_findingsOf hActivate hRule hFinding
  rw [SourceCode.root, visits_eq_events, mem_events] at hVisit
  have hFixes := hFiles.fixes_eq fix hFix
  unfold reportsAt at hReport
  split at hReport
  case h_1 => cases (unfixed_of_mem_objectReports hReport).2.symm.trans hFixes
  case h_3 => cases hReport
  case h_2 _ hKind =>
    exact ⟨place, hVisit, hKind, scopes, report, hReport, hFiles.messageId_eq,
      hFiles.span_eq.trans (span_of_mem_propertyReports hReport), hFixes⟩

/-- If what is short is not reported, the rule finds nothing where the property was shortened. -/
theorem Shortens.span_ne_of_mem_findingsOf [RegexEngine] {source newSource : String}
    {options : ParseOptions}
    {program property : Node} {fix : Fix} {short : Node → Prop} {parsed : Parsed}
    (h : Shortens source options program property fix short newSource parsed)
    (hKind : ∀ other, short other → other.kind = .property) {settings : Settings}
    {actives : List (ActiveListener ArrowScopes)}
    (hActivate : (listeners settings).mapM Listener.activate = .ok actives) {severity : Severity}
    {ruleOptions : List Json} {rules : List ActiveRule} {rank : Nat}
    (hRule : rules[rank]? = some (active severity ruleOptions actives)) {computeFixes : Bool}
    (hModes : settings.mode ≠ .consistent ∧ settings.mode ≠ .consistentAsNeeded)
    (hSilent : ∀ source place scopes, short place.node →
      propertyReports settings source place scopes = []) :
    ∀ finding ∈ (Pass.ofRules rules computeFixes ⟨newSource, parsed⟩).findingsOf rank,
      finding.diagnostic.span ≠ fix.newSpan := by
  intro finding hFinding hSpan
  obtain ⟨object, hObject, member, hMember, hShort, hMemberSpan⟩ := h.exists_isMember_short hKind
  obtain ⟨⟨phase, place⟩, hVisit, scopes, report, hReport, specificity, hFiles⟩ :=
    exists_visit_of_mem_findingsOf hActivate hRule hFinding
  rw [SourceCode.root, visits_eq_events, mem_events] at hVisit
  unfold reportsAt at hReport
  split at hReport
  case h_1 =>
    rw [objectReports_eq_nil hModes] at hReport
    cases hReport
  case h_3 => cases hReport
  case h_2 _ hPlaceKind =>
    -- what is found there is found on the property in its short form
    obtain ⟨other, hOther, hPlace⟩ := exists_isMember h.parses place hVisit hPlaceKind
      (parent_kind_ne_of_mem_propertyReports hReport)
    have hPlaceSpan := hFiles.span_eq.trans (span_of_mem_propertyReports hReport)
    obtain rfl := eq_of_isMember h.parses hOther hPlace hObject hMember
      (hPlaceSpan.symm.trans (hSpan.trans hMemberSpan.symm))
    dsimp only at hReport
    rw [hSilent _ _ _ hShort] at hReport
    cases hReport

section

variable {source : String} {options : ParseOptions} {parsed : Parsed}
  (hParse : parse source options = .ok parsed) (hYear : 2015 ≤ options.year)
include hParse hYear

omit hYear in
/-- A property that is reported is a member of an object. -/
theorem exists_object_of_mem_propertyReports {settings : Settings} {place : Place}
    {scopes : ArrowScopes} {report : Report} (hPlace : place ∈ (root parsed.program).descendants)
    (hKind : place.kind = .property)
    (hReport : report ∈ propertyReports settings ⟨source, parsed⟩ place scopes) :
    ∃ object ∈ forest [parsed.program], object.kind = .objectExpression ∧
      place.node ∈ object.children := by
  obtain ⟨object, hObject, hObjectKind, -, hChild⟩ :=
    exists_isMember hParse place hPlace hKind (parent_kind_ne_of_mem_propertyReports hReport)
  have hBelow : object.node ∈ parsed.program.subtree := node_mem_subtree hObject
  exact ⟨object.node, by simpa using hBelow, hObjectKind, node_mem_of_mem_children hChild⟩

/-- A fix of a report shortens the property that the report is about, as its message says, and in the
short form the property is not reported. -/
theorem exists_shortens_of_mem_propertyReports {settings : Settings} {place : Place}
    {scopes : ArrowScopes} {report : Report} {messageId : String} {short : Node → Node → Prop}
    {fix : Fix} (hPlace : place ∈ (root parsed.program).descendants) (hKind : place.kind = .property)
    (hReport : report ∈ propertyReports settings ⟨source, parsed⟩ place scopes)
    (hAsks : AsksFor messageId short) (hMessage : report.messageId = messageId)
    (hFix : report.fixes = some [fix]) :
    (∃ newSource parsed', Shortens source options parsed.program place.node fix (short place.node)
      newSource parsed') ∧
      (settings.mode ≠ .consistent ∧ settings.mode ≠ .consistentAsNeeded) ∧
      ∀ newSource other newScopes, short place.node other.node →
        propertyReports settings newSource other newScopes = [] := by
  obtain ⟨key, value, hKey, hValue, hAccessor, hConcise, hComputed, hLong⟩ :=
    exists_mem_longReports hReport (hMessage ▸ hAsks.mem_shortMessages)
  have hIsLong := isLong_of_not_isConcise hAccessor hConcise
  have hShaped : parsed.program.Shaped := (shaped_of_parse hParse).shaped
  have hHeld := node_of_child? (hShaped _ (node_mem_subtree hPlace)) hValue
  obtain ⟨object, hIn, hObjectKind, hMember⟩ :=
    exists_object_of_mem_propertyReports hParse hPlace hKind hReport
  cases hAsks with
  | method =>
      obtain ⟨hMode, hId, hFunction, hExcepted, hConvertible, hEq⟩ :=
        eq_of_mem_longReports_method hLong hMessage
      have hHolds := holdsFunction_of_isConvertible hHeld hId hFunction hConvertible
      refine ⟨exists_shortens_of_toMethod? hParse hIn hObjectKind hMember hKind hYear hIsLong hHolds
        (eq_some_of_fixes (hEq ▸ hFix)), ?_, fun _ _ _ hShort =>
          propertyReports_of_isMethodFor hShort hKey hMode hExcepted⟩
      constructor <;> intro hEq <;> rw [hEq] at hMode <;> cases hMode
  | name =>
      obtain ⟨hMode, hIdentifier, name, hName, hEq⟩ := exists_of_mem_longReports_name hLong hMessage
      have hPlain := computed_eq_false hIdentifier hComputed
      refine ⟨exists_shortens_of_toShorthand? hParse hIn hObjectKind hMember hKind hYear hIsLong hPlain
        hHeld hName (eq_some_of_fixes (hEq ▸ hFix)), ?_,
        fun _ _ _ hShort => propertyReports_of_isNameFor hShort hMode⟩
      constructor <;> intro hEq <;> rw [hEq] at hMode <;> cases hMode

/-- The fixes of the rule shorten properties as its messages say, and do not lead to other findings
of the rule on the same properties. -/
theorem parse_shortens [RegexEngine] {severity : Severity} {ruleOptions : List Json}
    {actives : List (ActiveListener ArrowScopes)}
    (hListeners : (⟨rule, severity, ruleOptions⟩ : ConfiguredRule).listeners = .ok actives)
    {rules : List ActiveRule} {rank : Nat}
    (hRule : rules[rank]? = some (active severity ruleOptions actives)) {computeFixes : Bool}
    {finding : Finding}
    (hFinding : finding ∈ (Pass.ofRules rules computeFixes ⟨source, parsed⟩).findingsOf rank)
    {messageId : String} {short : Node → Node → Prop} (hAsks : AsksFor messageId short)
    (hMessage : finding.diagnostic.messageId = some messageId) {fix : Fix}
    (hFix : finding.diagnostic.fix = some fix) :
    ∃ property ∈ parsed.program.subtree, property.kind = .property ∧
      property.span = finding.diagnostic.span ∧
      ∃ newSource parsed', Shortens source options parsed.program property fix (short property)
          newSource parsed' ∧
        ∀ again ∈ (Pass.ofRules rules computeFixes ⟨newSource, parsed'⟩).findingsOf rank,
          again.diagnostic.span ≠ fix.newSpan := by
  obtain ⟨settings, hActivate⟩ := exists_settings_of_listeners hListeners
  obtain ⟨place, hPlace, hKind, scopes, report, hReport, hReported, hSpan, hFixes⟩ :=
    exists_mem_propertyReports_of_finding hActivate hRule hFinding hFix
  obtain ⟨⟨newSource, parsed', hShortens⟩, hModes, hSilent⟩ :=
    exists_shortens_of_mem_propertyReports hParse hYear hPlace hKind hReport hAsks
      (Option.some.inj (hReported.symm.trans hMessage)) hFixes
  exact ⟨place.node, node_mem_subtree hPlace, hKind, hSpan.symm, newSource, parsed', hShortens,
    hShortens.span_ne_of_mem_findingsOf (fun other => hAsks.kind_eq) hActivate hRule hModes hSilent⟩

end

/-- A generator among the members of an object, and a variable under its own name. -/
def longMembers : String := "(\x7b a: async function* (b) \x7b \x7d, c: c \x7d)"

/-- What makes a method of the generator. -/
def methodFix : Fix := ⟨⟨3, 29⟩, "async *a (b) \x7b \x7d"⟩

/-- In `({ a: async function* (b) { }, c: c })` the function becomes a method. -/
theorem parse_shortens_generator :
    ∃ parsed actives, parse longMembers default = .ok parsed ∧
      (⟨rule, .error, []⟩ : ConfiguredRule).listeners = .ok actives ∧
      ∃ finding ∈ (Pass.ofRules [active .error [] actives] true ⟨longMembers, parsed⟩).findingsOf 0,
        finding.diagnostic.messageId = some "expectedMethodShorthand" ∧
        finding.diagnostic.fix = some methodFix ∧
        ∃ property newSource parsed', Shortens longMembers default parsed.program property methodFix
            property.IsMethodFor newSource parsed' ∧
          ∀ again ∈ (Pass.ofRules [active .error [] actives] true ⟨newSource, parsed'⟩).findingsOf 0,
            again.diagnostic.span ≠ methodFix.newSpan := by
  have hReads : (parse longMembers default).isOk = true := by decide +kernel
  obtain ⟨parsed, hParsed⟩ := exists_eq_ok_of_isOk hReads
  have hOk : (⟨rule, .error, []⟩ : ConfiguredRule).listeners.isOk = true := by decide +kernel
  obtain ⟨actives, hActives⟩ := exists_eq_ok_of_isOk hOk
  have hFiled : (match parse longMembers default,
        (⟨rule, .error, []⟩ : ConfiguredRule).listeners with
      | .ok parsed, .ok actives =>
          ((active .error [] actives).log ⟨longMembers, parsed⟩ true).filed.any fun filed =>
            filed.diagnostic.messageId == some "expectedMethodShorthand" &&
              filed.diagnostic.fix == some methodFix
      | _, _ => false) = true := by
    decide +kernel
  simp only [hParsed, hActives, List.any_eq_true, Bool.and_eq_true, beq_iff_eq] at hFiled
  obtain ⟨filed, hMem, hMessage, hFix⟩ := hFiled
  have hPerm := Pass.perm_findingsOf (show [active .error [] actives][0]? = some _ from rfl) true
    ⟨longMembers, parsed⟩
  obtain ⟨finding, hFinding, hSame⟩ := List.mem_map.mp (hPerm.symm.subset (List.mem_map_of_mem hMem))
  rw [← hSame] at hMessage hFix
  obtain ⟨property, -, -, -, newSource, parsed', hShortens, hSilent⟩ :=
    parse_shortens hParsed (by decide) hActives rfl hFinding .method hMessage hFix
  exact ⟨parsed, actives, hParsed, hActives, finding, hFinding, hMessage, hFix, property, newSource,
    parsed', hShortens, hSilent⟩

end Rules.ObjectShorthand

end EcmaLint
