import EcmaLint.Proofs.Exchange.Lengthening
import EcmaLint.Proofs.Lint.Queries
import EcmaLint.Proofs.Rules.ShorthandFix
import EcmaLint.Proofs.Token.Comments

/-! What becomes of comments when a property of an object is converted. The text of every fix is put
together of copies of stretches of the program, so the comments in these stretches stay. A fix that
makes a name alone of a variable is not given if there are comments in the property, and one that
makes a method of a function is not given if there are comments between its key and the function. But
nobody looks for comments between the words of a function, in front of an arrow, or between the
modifiers of a method and its key: these are lost. -/
namespace EcmaLint

open Exchange Grammar Lexer Node

/-- A fix copies some stretches of a text into the place of its span, and words without slashes between
them. In the new text there are the comments outside of the span and in what was copied. -/
structure Fix.CarriesOver (fix : Fix) (source : String) (comments : List Comment)
    (copies : List Span) : Prop where
  assembles : Assembles source fix.text.toList copies
  within : ∀ copy ∈ copies, copy.within fix.span = true
  apart : copies.Pairwise fun earlier later => earlier.stop ≤ later.start
  exists_tokenize : ∃ newSource out, fix.applyTo? source = some newSource ∧
    tokenize newSource = .ok out ∧ out.comments.map Comment.content =
      (comments.filter fun comment => comment.stays fix.span copies).map Comment.content

namespace Lexer

variable {source : String} {lead : List Char} {front back : List Chunk} {splices : List Splice}

/-- The comments of a program are those of its chunks. -/
theorem Layout.comments_eq {chunks : List Chunk} {options : ParseOptions} {parsed : Parsed}
    (h : Layout source lead chunks) (hParse : parse source options = .ok parsed) :
    parsed.comments = (layBehind lead chunks).comments := by
  obtain ⟨_, hTokenize, hParse⟩ := exists_of_bind_eq_ok hParse
  cases h.tokenize_eq.symm.trans hTokenize
  obtain ⟨_, -, ⟨⟩⟩ := exists_of_bind_eq_ok hParse
  rfl

/-- A fix that exchanges some parts of a stretch and keeps the others carries comments over. -/
theorem carriesOver_of_splices {fix : Fix}
    (hLayout : Layout source lead (front ++ (Splice.before splices ++ back)))
    (hNew : Layout (String.ofList (lead ++ text (front ++ (Splice.after splices ++ back)))) lead
      (front ++ (Splice.after splices ++ back))) (hPlain : ∀ splice ∈ splices, splice.IsPlain)
    (hSpan : fix.span = ⟨Text.byteLength (lead ++ text front),
      Text.byteLength (lead ++ text (front ++ Splice.before splices))⟩)
    (hText : fix.text = String.ofList (text (Splice.after splices))) :
    fix.CarriesOver source (layBehind lead (front ++ (Splice.before splices ++ back))).comments
      (Splice.keptSpans (Text.byteLength (lead ++ text front)) splices) where
  assembles := by
    rw [hText, String.toList_ofList]
    exact Splice.assembles hPlain hLayout.source_eq
  within := by
    intro copy hCopy
    obtain ⟨hStart, hStop⟩ := Splice.bounds_of_mem_keptSpans hCopy
    rw [← byteLength_text_append] at hStop
    exact Span.within_iff.mpr (hSpan ▸ ⟨hStart, hStop⟩)
  apart := Splice.pairwise_keptSpans
  exists_tokenize := by
    obtain ⟨_, hRun⟩ := hLayout.run
    have hApplied := applyTo?_exchange hLayout.source_eq (Splice.after splices)
    rw [← hSpan, ← hText] at hApplied
    rw [hSpan]
    exact ⟨_, _, hApplied, hNew.tokenize_eq, Splice.map_content_exchange hPlain hRun.text_ne_nil⟩

end Lexer

namespace Exchange

variable {lead : List Char} {front out chunks : List Chunk} {n : Nat} {context : Context}
  {cursor later : Cursor} {property : Node}

namespace HeadReading

variable (reading : HeadReading lead front chunks property)

/-- What becomes of a method that is made a function: its modifiers go, and the word `function` is put
behind its key. -/
def splices : List Splice :=
  [.exchanged reading.before [], .kept reading.key,
    .exchanged [] (headerChunks (reading.value.flag .async) (reading.value.flag .generator))]

theorem before_splices : Splice.before reading.splices = reading.before ++ reading.key := by
  simp [splices, Splice.before, Splice.old]

theorem after_splices : Splice.after reading.splices = reading.key ++
    headerChunks (reading.value.flag .async) (reading.value.flag .generator) := by
  simp [splices, Splice.after, Splice.new]

theorem isPlain_splices : ∀ splice ∈ reading.splices, splice.IsPlain := by
  simp only [splices, List.forall_mem_cons, List.not_mem_nil, false_imp_iff, implies_true, and_true]
  refine ⟨⟨rfl, List.not_mem_nil⟩, trivial, ?_⟩
  cases reading.value.flag .async <;> cases reading.value.flag .generator <;> exact ⟨rfl, by decide⟩

theorem child_key : property.child? .key = some reading.keyNode := by
  rw [Node.child?, Node.field?, reading.fields_eq]
  rfl

theorem child_value : property.child? .value = some reading.value := by
  rw [Node.child?, Node.field?, reading.fields_eq]
  rfl

theorem flag_computed : property.flag .computed = reading.computed := by
  rw [Node.flag, Node.field?, reading.fields_eq]
  rfl

end HeadReading

namespace MethodReading

variable (reading : MethodReading lead front out n context cursor property later)

/-- What becomes of a function that is made a method: the key, the parameters and the body stay. -/
def splices : List Splice :=
  [.exchanged [] (modifierChunks reading.isAsync reading.isGenerator), .kept reading.key,
    .exchanged reading.head (if reading.isBare then [.mark '('] else []), .kept reading.params,
    .exchanged reading.arrow (if reading.isBare then [.mark ')'] else []), .kept reading.block,
    .exchanged reading.closes []]

theorem before_splices : Splice.before reading.splices = out := by
  refine Eq.trans ?_ reading.out_eq.symm
  simp [splices, Splice.before, Splice.old]

theorem after_splices : Splice.after reading.splices = reading.chunks := by
  simp only [splices, Splice.after, MethodReading.chunks, methodChunks, paramsChunks]
  cases reading.isBare <;> simp [Splice.new]

theorem isPlain_splices : ∀ splice ∈ reading.splices, splice.IsPlain := by
  simp only [splices, List.forall_mem_cons, List.not_mem_nil, false_imp_iff, implies_true, and_true]
  refine ⟨?_, trivial, ?_, trivial, ?_, trivial, rfl, List.not_mem_nil⟩
  · cases reading.isAsync <;> cases reading.isGenerator <;> exact ⟨rfl, by decide⟩
  · cases reading.isBare <;> exact ⟨rfl, by decide⟩
  · cases reading.isBare <;> exact ⟨rfl, by decide⟩

theorem child_value : property.child? .value = some reading.value := by
  rw [Node.child?, Node.field?, reading.propertyParts.fields_eq]
  rfl

/-- The value starts with a token. -/
theorem exists_start : ∃ lexeme ∈ cursor.rest,
    lexeme.token.span.start = reading.value.span.start := by
  obtain ⟨⟨_, hFirst, hStart⟩, -⟩ := reading.propertyParts.unwraps.bounds
  obtain ⟨lexeme, hLexeme, rfl⟩ := List.mem_map.mp (List.mem_of_mem_head? (Option.mem_def.mpr hFirst))
  refine ⟨lexeme, ?_, hStart⟩
  rw [reading.propertyParts.rest_eq]
  simp [hLexeme]

end MethodReading

end Exchange

namespace Rules.ObjectShorthand

open Place

/-- What the rule makes of a property, and under which message. -/
inductive Converts (source : SourceCode) (property : Node) : String → Fix → Prop
  | toMethod {fix : Fix} (hLong : property.IsLong) (hFunction : HoldsFunction property)
      (hFix : toMethod? source property = some fix) :
      Converts source property "expectedMethodShorthand" fix
  | toShorthand {fix : Fix} {value : Node} {name : String} (hLong : property.IsLong)
      (hComputed : property.flag .computed = false) (hValue : property.child? .value = some value)
      (hName : value.name? = some name) (hFix : toShorthand? source property name = some fix) :
      Converts source property "expectedPropertyShorthand" fix
  | fromMethod {messageId : String} {fix : Fix} (hMessage : messageId ∈ methodLongMessages)
      (hMethod : property.flag .method = true) (hFix : fromMethod? source property = some fix) :
      Converts source property messageId fix
  | fromShorthand {key : Node} (hShorthand : property.flag .shorthand = true)
      (hKey : property.child? .key = some key) :
      Converts source property "expectedPropertyLongform" (fromShorthand source key)

/-- Where a comment stands that may be lost: behind the start of a function that becomes a method, or
between the modifiers and the key of a method that becomes a function. -/
inductive MayLose (property : Node) (comment : Comment) : String → Prop
  | toMethod {value : Node} (hValue : property.child? .value = some value)
      (hBehind : value.span.start < comment.span.start) :
      MayLose property comment "expectedMethodShorthand"
  | fromMethod {key : Node} {messageId : String} (hMessage : messageId ∈ methodLongMessages)
      (hKey : property.child? .key = some key) (hBefore : comment.span.stop ≤ key.span.start) :
      MayLose property comment messageId

/-- A fix carries the comments of a program over, but for those that it may lose. -/
def Spares (source : SourceCode) (property : Node) (messageId : String) (fix : Fix) : Prop :=
  ∃ copies, fix.CarriesOver source.text source.comments copies ∧
    ∀ comment ∈ source.comments, comment.stays fix.span copies = false →
      MayLose property comment messageId

section

variable {source : String} {options : ParseOptions} {parsed : Parsed} {property : Node}
  {messageId : String} {fix : Fix} (hParse : parse source options = .ok parsed)
include hParse

/-- A fix that exchanges parts of a stretch loses the comments of these parts at most. -/
theorem spares_of_splices {lead : List Char} {front back : List Chunk} {splices : List Splice}
    (hLayout : Layout source lead (front ++ (Splice.before splices ++ back)))
    (hNew : Layout (String.ofList (lead ++ text (front ++ (Splice.after splices ++ back)))) lead
      (front ++ (Splice.after splices ++ back))) (hPlain : ∀ splice ∈ splices, splice.IsPlain)
    (hSpan : fix.span = ⟨Text.byteLength (lead ++ text front),
      Text.byteLength (lead ++ text (front ++ Splice.before splices))⟩)
    (hText : fix.text = String.ofList (text (Splice.after splices)))
    (hLost : ∀ comment ∈ parsed.comments, comment.span.within fix.span = true →
      (∀ copy ∈ Splice.keptSpans (Text.byteLength (lead ++ text front)) splices,
        comment.span.within copy = false) → MayLose property comment messageId) :
    Spares ⟨source, parsed⟩ property messageId fix := by
  have hCarries := carriesOver_of_splices hLayout hNew hPlain hSpan hText
  rw [← hLayout.comments_eq hParse] at hCarries
  refine ⟨_, hCarries, fun comment hComment hStays => ?_⟩
  obtain ⟨hWithin, hNone⟩ := Comment.stays_eq_false_iff.mp hStays
  exact hLost comment hComment hWithin hNone

/-- No comment stands in a token of the program. -/
theorem token_apart {token : Token} (hToken : token ∈ SourceCode.tokens ⟨source, parsed⟩)
    {comment : Comment} (hComment : comment ∈ parsed.comments) :
    token.span.stop ≤ comment.span.start ∨ comment.span.stop ≤ token.span.start :=
  (cuts_of_parse hParse).token_apart_comment token hToken comment hComment

variable {lead : List Char} {front out back : List Chunk}
  (h : Stands source options.year property lead front out back)
include h

/-- A fix that makes a name alone of a property is only given if there are no comments in it. -/
theorem spares_toShorthand {value : Node} {name : String} (hLong : property.IsLong)
    (hComputed : property.flag .computed = false) (hValue : property.child? .value = some value)
    (hName : value.name? = some name)
    (hFix : toShorthand? ⟨source, parsed⟩ property name = some fix) :
    Spares ⟨source, parsed⟩ property "expectedPropertyShorthand" fix := by
  obtain ⟨n, context, cursor, later, -, hReads, -⟩ := h.reads
  obtain ⟨-, -, -, hSpelt, -, hMarks⟩ :=
    hReads.exists_name h.layout h.starts h.ends hLong hComputed hValue hName
  obtain ⟨c, cs, hWord, hStart, hParts, -⟩ := exists_word_of_spelt hSpelt
  unfold toShorthand? at hFix
  split at hFix
  case isFalse => cases hFix
  case isTrue hNone =>
  obtain rfl := Option.some.inj hFix
  have hBefore : Splice.before [.exchanged out [.word name.toList]] = out := List.append_nil out
  have hLayout := h.layout
  have hSpan := h.span_eq
  rw [← hBefore] at hLayout hSpan
  refine spares_of_splices hParse hLayout
    (hReads.layout_of_name h.layout h.starts h.mark hSpelt hMarks) ?_ hSpan ?_ ?_
  · rw [List.forall_mem_singleton, hWord]
    exact Splice.isPlain_word hStart hParts out
  · simp [Splice.after, Splice.new, Chunk.word]
  · intro comment hComment hWithin
    have hAnswers := @SourceCode.answersByPlace_of_cuts ⟨source, parsed⟩ (cuts_of_parse hParse)
    rw [hAnswers.commentsIn, List.isEmpty_iff] at hNone
    exact absurd hWithin (List.filter_eq_nil_iff.mp hNone comment hComment)

/-- A fix that writes a name once more loses nothing. -/
theorem spares_fromShorthand {key : Node} (hShorthand : property.flag .shorthand = true)
    (hKey : property.child? .key = some key) :
    Spares ⟨source, parsed⟩ property "expectedPropertyLongform"
      (fromShorthand ⟨source, parsed⟩ key) := by
  obtain ⟨n, context, cursor, later, -, hReads, -⟩ := h.reads
  obtain ⟨keyNode, lexeme, chunks, behind, hChild, hKeySpan, hKind, hChunks, hStarts, hEnds,
    hLexemes⟩ := hReads.exists_shorthand h.starts h.ends hShorthand
  obtain rfl := Option.some.inj (hKey.symm.trans hChild)
  have hSpelt : lexeme.token.IsSpelt := by
    refine hReads.isSpelt h.layout h.ends lexeme ?_
    rw [hReads.rest_eq_lexemes h.ends, hChunks, lexemes_append, hLexemes]
    exact List.mem_cons_self
  have hLayout := h.layout
  rw [hChunks] at hLayout
  have hNew := layout_of_name hLayout hStarts hEnds hLexemes hKind hSpelt h.mark
  -- the key lies over its only token
  have hSpan : key.span = ⟨Text.byteLength (lead ++ text front),
      Text.byteLength (lead ++ text (front ++ chunks))⟩ := by
    obtain ⟨⟨_, hFirst, hStart⟩, ⟨_, hLast, hStop⟩⟩ :=
      @bounds_lexemes (Text.byteLength (lead ++ text front)) (newlineAfter none front) _ hStarts hEnds
    rw [hLexemes] at hFirst hLast
    obtain rfl := Option.some.inj hFirst
    obtain rfl := Option.some.inj hLast
    rw [hKeySpan, byteLength_text_append]
    exact congrArg₂ Span.mk hStart hStop
  have hCopy : SourceCode.textOf ⟨source, parsed⟩ key.span = String.ofList (text chunks) := by
    rw [hSpan]
    exact textOf_eq behind hLayout.source_eq
  have hBefore : Splice.before [.exchanged [] (.mark ':' :: .space :: chunks)] = [] := rfl
  have hAfter : Splice.after [.exchanged [] (.mark ':' :: .space :: chunks)] =
      .mark ':' :: .space :: chunks := List.append_nil _
  refine @spares_of_splices _ _ _ _ _ _ hParse lead (front ++ chunks) behind
    [.exchanged [] (.mark ':' :: .space :: chunks)] ?_ ?_ ?_ ?_ ?_ ?_
  · rw [hBefore, List.append_assoc]
    exact hLayout
  · rw [hAfter, List.append_assoc]
    exact hNew
  · rw [List.forall_mem_singleton]
    obtain ⟨chunk, rfl, hChunkKind, hText⟩ := exists_eq_singleton_of_lexemes hStarts hEnds hLexemes
    rw [Token.IsSpelt, hKind] at hSpelt
    obtain ⟨c, cs, hWord, hStart, hParts, -⟩ := exists_word_of_spelt hSpelt
    have hSlash := (Splice.isPlain_word hStart hParts []).2
    refine ⟨by simp [contents, Chunk.mark, Chunk.space, hChunkKind], ?_⟩
    simpa [Chunk.mark, Chunk.space, Chunk.word, hText, hWord] using hSlash
  · rw [fromShorthand, Fix.insertAfter, Span.point, hSpan, hBefore, List.append_nil]
  · rw [fromShorthand, Fix.insertAfter, hCopy, hAfter, ← String.toList_inj]
    simp [Chunk.mark, Chunk.space]
  · intro comment hComment hWithin
    have hNonempty := ((cuts_of_parse hParse).spans_from comment.span
      (List.mem_append_right _ (List.mem_map_of_mem hComment))).2
    have hInside := Span.within_iff.mp hWithin
    dsimp only [fromShorthand, Fix.insertAfter, Span.point] at hInside
    omega

/-- The fix that makes a function of a method starts with the method and ends with its key, which it
copies. -/
theorem fromMethod?_of_reading (hFix : fromMethod? ⟨source, parsed⟩ property = some fix) {n : Nat}
    {context : Context} {cursor later : Cursor}
    (hReads : ReadsChunks lead front out back n context cursor property later)
    (reading : HeadReading lead front (out ++ back) property)
    (hSpelt : ∀ lexeme ∈ reading.keys, lexeme.token.IsSpelt) :
    fix = ⟨⟨Text.byteLength (lead ++ text front), Text.byteLength (lead ++ text (front ++
        Splice.before reading.splices))⟩, String.ofList (text (Splice.after reading.splices))⟩ ∧
      ∃ first ∈ SourceCode.tokens ⟨source, parsed⟩,
        first.span.start = Text.byteLength (lead ++ text (front ++ reading.before)) ∧
        first.span.start ≤ reading.keyNode.span.start := by
  obtain ⟨hLies, -⟩ := lies_of_parse hParse
  have hOrder : Token.InOrder (SourceCode.tokens ⟨source, parsed⟩) := hLies.inOrder
  have hTokens := tokens_eq_of_reads hParse h.layout h.ends hReads
  rw [hReads.rest_eq_lexemes h.ends, reading.lexemes_eq, ← List.append_assoc] at hTokens
  obtain ⟨keyFirst, hKeyFirst, hKeyStart⟩ := reading.cut.keys_hold.exists_head reading.cut.key_starts
  obtain ⟨keyLast, hKeyLast, hKeyStop⟩ := reading.cut.keys_hold.exists_last reading.cut.key_ends
  obtain ⟨_, hFirst, _, hLast, hKeyTokens⟩ := @keyTokens?_eq_of_readsKey _ _ _ _ _ _ _ _ []
    reading.child_key reading.child_value reading.flag_computed reading.readsKey hSpelt hTokens hOrder
    ⟨_, rfl, reading.value_start.symm⟩
  obtain rfl := Option.some.inj (hKeyFirst.symm.trans hFirst)
  obtain rfl := Option.some.inj (hKeyLast.symm.trans hLast)
  have hText : source.toList = lead ++ text ((front ++ reading.before) ++ (reading.key ++
      reading.behind)) := by
    rw [List.append_assoc, ← reading.chunks_eq]
    exact h.layout.source_eq
  have hKeyText : textFromTo ⟨source, parsed⟩ keyFirst.token keyLast.token =
      String.ofList (text reading.key) := by
    rw [textFromTo, hKeyStart, hKeyStop]
    exact textOf_eq _ hText
  refine ⟨?_, keyFirst.token, ?_, hKeyStart, ?_⟩
  · have hWords : ": " ++ ((if reading.value.flag .async = true then "async " else "") ++
        "function" ++ if reading.value.flag .generator = true then "*" else "") = String.ofList
          (text (headerChunks (reading.value.flag .async) (reading.value.flag .generator))) := by
      cases reading.value.flag .async <;> cases reading.value.flag .generator <;> decide
    unfold fromMethod? at hFix
    rw [reading.child_value, hKeyTokens] at hFix
    obtain rfl := Option.some.inj hFix
    rw [reading.before_splices, reading.after_splices, ← List.append_assoc, ← hKeyStop, text_append,
      String.ofList_append, ← hWords, ← hKeyText, h.span_eq, String.append_assoc]
  · rw [hTokens]
    exact List.mem_map_of_mem (List.mem_append_right _ (List.mem_append_left _
      (List.mem_of_mem_head? hKeyFirst)))
  · simp only [hTokens, List.map_append] at hOrder
    exact reading.readsKey.start_le hOrder.append_right.append_left keyFirst hKeyFirst

/-- A fix that makes a function of a method loses comments in front of the key at most. -/
theorem spares_fromMethod (hMessage : messageId ∈ methodLongMessages)
    (hMethod : property.flag .method = true)
    (hFix : fromMethod? ⟨source, parsed⟩ property = some fix) :
    Spares ⟨source, parsed⟩ property messageId fix := by
  obtain ⟨n, context, cursor, later, -, hReads, -⟩ := h.reads
  obtain ⟨reading⟩ := hReads.exists_headReading h.starts h.ends hMethod
  have hSpelt : ∀ lexeme ∈ reading.keys, lexeme.token.IsSpelt := fun lexeme hLexeme =>
    hReads.isSpelt h.layout h.ends lexeme (by
      rw [hReads.rest_eq_lexemes h.ends, reading.lexemes_eq]
      simp [hLexeme])
  obtain ⟨rfl, first, hFirst, hStart, hLe⟩ :=
    fromMethod?_of_reading hParse h hFix hReads reading hSpelt
  obtain ⟨hLies, -⟩ := lies_of_parse hParse
  have hLayout : Layout source lead (front ++ (Splice.before reading.splices ++ reading.behind)) := by
    rw [reading.before_splices, List.append_assoc, ← reading.chunks_eq]
    exact h.layout
  have hNew := reading.layout h.layout (h.starts.append back) h.mark hSpelt
    (reading.value.flag .async) (reading.value.flag .generator)
  rw [← List.append_assoc reading.key, ← reading.after_splices] at hNew
  refine spares_of_splices hParse hLayout hNew reading.isPlain_splices rfl rfl ?_
  intro comment hComment hWithin hNone
  refine .fromMethod hMessage reading.child_key (Nat.le_trans ?_ hLe)
  -- behind the start of the key all is copied
  refine (token_apart hParse hFirst hComment).resolve_left fun hBehind => ?_
  have hInside := (Span.within_iff.mp hWithin).2
  dsimp only at hInside
  rw [reading.before_splices, ← List.append_assoc, byteLength_text_append, byteLength_text_append]
    at hInside
  rw [byteLength_text_append] at hStart
  have hCopied := Bool.eq_false_iff.mp (hNone _ List.mem_cons_self)
  have hNonempty := hLies.inOrder.nonempty first hFirst
  exact hCopied (Span.within_iff.mpr ⟨by dsimp only [Splice.old]; omega, hInside⟩)

/-- A fix that makes a method of a function loses comments behind the start of the function at most. -/
theorem spares_toMethod (hLong : property.IsLong) (hFunction : HoldsFunction property)
    (hFix : toMethod? ⟨source, parsed⟩ property = some fix) :
    Spares ⟨source, parsed⟩ property "expectedMethodShorthand" fix := by
  obtain ⟨n, context, cursor, later, -, hReads, -⟩ := h.reads
  obtain ⟨reading⟩ := hReads.exists_methodReading h.layout h.starts h.ends hLong hFunction
  obtain ⟨rfl, last, hLast, hLastStop, hGuard⟩ :=
    toMethod?_of_reading hParse h hFix reading hReads
  obtain ⟨start, hStart, hStartEq⟩ := reading.exists_start
  have hStartMem : start.token ∈ SourceCode.tokens ⟨source, parsed⟩ := by
    rw [tokens_eq_of_reads hParse h.layout h.ends hReads]
    exact List.mem_map_of_mem (List.mem_append_right _ hStart)
  obtain ⟨hLies, -⟩ := lies_of_parse hParse
  have hLayout := h.layout
  have hNew := reading.layout hReads h.layout h.starts h.ends h.mark
  rw [← reading.after_splices] at hNew
  have hSpan := h.span_eq
  rw [← reading.before_splices] at hLayout hSpan
  refine spares_of_splices hParse hLayout hNew reading.isPlain_splices hSpan
    (by rw [reading.after_splices]) ?_
  intro comment hComment hWithin hNone
  refine .toMethod reading.child_value ?_
  have hAnswers := @SourceCode.answersByPlace_of_cuts ⟨source, parsed⟩ (cuts_of_parse hParse)
  have hBetween : ¬(last.span.stop ≤ comment.span.start ∧
      comment.span.stop ≤ reading.value.span.start) := fun hBetween =>
    Bool.eq_false_iff.mp hGuard ((hAnswers.commentsBetween _ _).mpr ⟨comment, hComment, hBetween⟩)
  -- the comment does not stand in the key, as that is copied
  have hBehind : last.span.stop ≤ comment.span.start := by
    refine (token_apart hParse hLast hComment).resolve_right fun hBefore => ?_
    have hCopied := Bool.eq_false_iff.mp (hNone _ List.mem_cons_self)
    have hNonempty := hLies.inOrder.nonempty last hLast
    have hInside := (Span.within_iff.mp hWithin).1
    rw [byteLength_text_append] at hLastStop
    rw [h.span_eq] at hInside
    refine hCopied (Span.within_iff.mpr ⟨hInside, ?_⟩)
    dsimp only [Splice.old, text_nil, Text.byteLength_nil]
    omega
  rcases token_apart hParse hStartMem hComment with hLater | hEarlier
  · have hNonempty := hLies.inOrder.nonempty _ hStartMem
    omega
  · exact absurd ⟨hBehind, hStartEq ▸ hEarlier⟩ hBetween

/-- Whatever the rule makes of a property, only those comments are lost that may be. -/
theorem Converts.spares (hConverts : Converts ⟨source, parsed⟩ property messageId fix) :
    Spares ⟨source, parsed⟩ property messageId fix := by
  cases hConverts with
  | toMethod hLong hFunction hFix => exact spares_toMethod hParse h hLong hFunction hFix
  | toShorthand hLong hComputed hValue hName hFix =>
      exact spares_toShorthand hParse h hLong hComputed hValue hName hFix
  | fromMethod hMessage hMethod hFix => exact spares_fromMethod hParse h hMessage hMethod hFix
  | fromShorthand hShorthand hKey => exact spares_fromShorthand hParse h hShorthand hKey

end

section

variable {source : String} {options : ParseOptions} {parsed : Parsed}
  (hParse : parse source options = .ok parsed)
include hParse

/-- The fix of a report converts the property that the report is about. -/
theorem converts_of_mem_propertyReports {settings : Settings} {place : Place}
    {scopes : ArrowScopes} {report : Report} {fix : Fix}
    (hPlace : place ∈ (root parsed.program).descendants)
    (hReport : report ∈ propertyReports settings ⟨source, parsed⟩ place scopes)
    (hFix : report.fixes = some [fix]) :
    Converts ⟨source, parsed⟩ place.node report.messageId fix := by
  obtain ⟨key, value, hKey, hValue, hAccessor, hComputed, ⟨hConcise, hReport⟩ | ⟨hConcise, hReport⟩⟩ :=
    exists_of_mem_propertyReports hReport
  · rcases eq_of_mem_conciseReports hReport hConcise with ⟨hMessage, hMethod, hEq⟩ |
      ⟨hMessage, hShorthand, hEq⟩
    · exact .fromMethod hMessage hMethod (eq_some_of_fixes (hEq ▸ hFix))
    · rw [hMessage]
      obtain rfl := Option.some.inj (eq_some_of_fixes (hEq ▸ hFix))
      exact .fromShorthand hShorthand hKey
  · have hIsLong := isLong_of_not_isConcise hAccessor hConcise
    have hShaped : parsed.program.Shaped := (shaped_of_parse hParse).shaped
    have hHeld := node_of_child? (hShaped _ (node_mem_subtree hPlace)) hValue
    rcases List.mem_pair.mp (messageId_of_mem_longReports hReport) with hMessage | hMessage
    · obtain ⟨-, hId, hFunction, -, hConvertible, hEq⟩ :=
        eq_of_mem_longReports_method hReport hMessage
      rw [hMessage]
      exact .toMethod hIsLong (holdsFunction_of_isConvertible hHeld hId hFunction hConvertible)
        (eq_some_of_fixes (hEq ▸ hFix))
    · obtain ⟨-, hIdentifier, name, hName, hEq⟩ := exists_of_mem_longReports_name hReport hMessage
      rw [hMessage]
      exact .toShorthand hIsLong (computed_eq_false hIdentifier hComputed) hHeld hName
        (eq_some_of_fixes (hEq ▸ hFix))

/-- The new text of every fix of the rule can be scanned, and has the comments of the program in it but
for those that the fix may lose. -/
theorem parse_sparesComments [RegexEngine] {severity : Severity} {ruleOptions : List Json}
    {actives : List (ActiveListener ArrowScopes)}
    (hListeners : (⟨rule, severity, ruleOptions⟩ : ConfiguredRule).listeners = .ok actives)
    {rules : List ActiveRule} {rank : Nat}
    (hRule : rules[rank]? = some (active severity ruleOptions actives)) {computeFixes : Bool}
    {finding : Finding}
    (hFinding : finding ∈ (Pass.ofRules rules computeFixes ⟨source, parsed⟩).findingsOf rank)
    {fix : Fix} (hFix : finding.diagnostic.fix = some fix) :
    ∃ property ∈ parsed.program.subtree, property.kind = .property ∧
      property.span = finding.diagnostic.span ∧
      ∃ messageId, finding.diagnostic.messageId = some messageId ∧
        Spares ⟨source, parsed⟩ property messageId fix := by
  obtain ⟨settings, hActivate⟩ := exists_settings_of_listeners hListeners
  obtain ⟨place, hPlace, hKind, scopes, report, hReport, hMessage, hSpan, hFixes⟩ :=
    exists_mem_propertyReports_of_finding hActivate hRule hFinding hFix
  obtain ⟨object, hObject, hObjectKind, hChild⟩ :=
    exists_object_of_mem_propertyReports hParse hPlace hKind hReport
  obtain ⟨lead, front, out, back, hStands⟩ :=
    exists_stands hParse hObject hObjectKind hChild hKind
  exact ⟨place.node, node_mem_subtree hPlace, hKind, hSpan.symm, report.messageId, hMessage,
    (converts_of_mem_propertyReports hParse hPlace hReport hFixes).spares hParse hStands⟩

end

/-- A comment between the words of a function. -/
def asyncMember : String := "(\x7by: async /* c */ function() \x7b\x7d\x7d)"

/-- It is not in the text that is put there. -/
example : (match parse asyncMember default, (⟨rule, .error, []⟩ : ConfiguredRule).listeners with
    | .ok parsed, .ok actives =>
        ((active .error [] actives).log ⟨asyncMember, parsed⟩ true).filed.any fun filed =>
          filed.diagnostic.fix == some ⟨⟨2, 32⟩, "async y() \x7b\x7d"⟩
    | _, _ => false) = true := by
  decide +kernel

end Rules.ObjectShorthand

end EcmaLint
