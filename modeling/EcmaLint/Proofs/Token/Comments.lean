import EcmaLint.Proofs.Token.Layout

/-! Comments in a text that is put together anew. What the comments of a text say can be read off
its chunks. Where some stretches of a text are kept and others are exchanged for words and marks, the
comments stay that lie in a stretch that is kept or outside of all of them, and no others. -/
namespace EcmaLint

theorem Span.within_iff {inner outer : Span} :
    inner.within outer = true ↔ outer.start ≤ inner.start ∧ inner.stop ≤ outer.stop := by
  simp [within]

namespace Comment

/-- What a comment says, wherever it stands. -/
def content (comment : Comment) : CommentKind × String := (comment.kind, comment.text)

/-- Whether a comment is still there if a stretch is exchanged for a text with copies of some spans
in it. -/
def stays (comment : Comment) (span : Span) (copies : List Span) : Bool :=
  !comment.span.within span || copies.any fun copy => comment.span.within copy

theorem stays_of_not_within {comment : Comment} {span : Span} (copies : List Span)
    (h : span.start ≤ comment.span.start → span.stop < comment.span.stop) :
    comment.stays span copies = true := by
  suffices hNot : comment.span.within span = false by simp [stays, hNot]
  refine Bool.eq_false_iff.mpr fun hWithin => ?_
  have hInside := Span.within_iff.mp hWithin
  omega

theorem stays_of_within {comment : Comment} {span : Span} (copies : List Span)
    (hStart : span.start ≤ comment.span.start) (hStop : comment.span.stop ≤ span.stop) :
    comment.stays span copies = copies.any fun copy => comment.span.within copy := by
  simp [stays, Span.within_iff.mpr ⟨hStart, hStop⟩]

theorem stays_eq_false_iff {comment : Comment} {span : Span} {copies : List Span} :
    comment.stays span copies = false ↔ comment.span.within span = true ∧
      ∀ copy ∈ copies, comment.span.within copy = false := by
  simp [stays]

end Comment

/-- A text is put together of words without a slash and of copies of stretches of another text. -/
inductive Assembles (source : String) : List Char → List Span → Prop
  | nil : Assembles source [] []
  | word {word rest : List Char} {copies : List Span} (hSlash : '/' ∉ word)
      (h : Assembles source rest copies) : Assembles source (word ++ rest) copies
  | copy {span : Span} {text : String} {rest : List Char} {copies : List Span}
      (hText : span.text? source = some text) (h : Assembles source rest copies) :
      Assembles source (text.toList ++ rest) (span :: copies)

namespace Lexer

variable {offset : Nat} {first second chunks : List Chunk}

/-- What the comments among some chunks say. -/
def contents (chunks : List Chunk) : List (CommentKind × String) :=
  chunks.filterMap fun chunk =>
    match chunk.kind with
    | .comment kind => some (kind, String.ofList (commentBody kind chunk.text))
    | _ => none

@[simp] theorem contents_append : contents (first ++ second) = contents first ++ contents second :=
  List.filterMap_append

theorem map_content_lay : (lay offset chunks).comments.map Comment.content = contents chunks := by
  induction chunks generalizing offset with
  | nil => rfl
  | cons chunk chunks ih =>
      obtain ⟨kind, chunk⟩ := chunk
      rw [lay, contents, List.filterMap_cons, ← contents, ← @ih (offset + Text.byteLength chunk)]
      cases kind <;> rfl

/-- Every comment lies inside of the chunks. -/
theorem bounds_of_mem_comments (hNonempty : ∀ chunk ∈ chunks, chunk.text ≠ []) {comment : Comment}
    (h : comment ∈ (lay offset chunks).comments) :
    offset ≤ comment.span.start ∧ comment.span.start < comment.span.stop ∧
      comment.span.stop ≤ offset + Text.byteLength (text chunks) := by
  induction chunks generalizing offset with
  | nil => cases h
  | cons chunk chunks ih =>
      obtain ⟨hChunk, hRest⟩ := List.forall_mem_cons.mp hNonempty
      obtain ⟨kind, chunk⟩ := chunk
      have hPos : Text.byteLength chunk ≠ 0 := fun hZero =>
        hChunk (Text.eq_nil_of_byteLength_eq_zero hZero)
      rw [text_cons, Text.byteLength_append, ← Nat.add_assoc]
      have hLater : comment ∈ (lay (offset + Text.byteLength chunk) chunks).comments →
          offset ≤ comment.span.start ∧ comment.span.start < comment.span.stop ∧
            comment.span.stop ≤ offset + Text.byteLength chunk + Text.byteLength (text chunks) := by
        intro hMem
        obtain ⟨hStart, hBounds⟩ := ih hRest hMem
        exact ⟨by omega, hBounds⟩
      cases kind with
      | blank | token => exact hLater h
      | comment kind =>
          rcases List.mem_cons.mp h with rfl | hMem
          · exact ⟨Nat.le_refl _, by dsimp only; omega, by dsimp only; omega⟩
          · exact hLater hMem

/-- A stretch of a text that is kept, or one with what is put in its place. -/
inductive Splice where
  | kept (chunks : List Chunk)
  | exchanged (old new : List Chunk)

namespace Splice

/-- The chunks that stand there before the exchange. -/
def old : Splice → List Chunk
  | kept chunks | exchanged chunks _ => chunks

/-- The chunks that stand there after the exchange. -/
def new : Splice → List Chunk
  | kept chunks | exchanged _ chunks => chunks

/-- Neither a comment nor a slash is put in the place of a stretch. -/
def IsPlain : Splice → Prop
  | kept _ => True
  | exchanged _ new => contents new = [] ∧ '/' ∉ text new

theorem isPlain_word {c : Char} {cs : List Char} (hStart : Text.isWordStart c = true)
    (hParts : ∀ d ∈ cs, Text.isWordPart d = true) (old : List Chunk) :
    (exchanged old [.word (c :: cs)]).IsPlain := by
  refine ⟨rfl, fun hSlash => ?_⟩
  rcases List.mem_cons.mp (by simpa [Chunk.word] using hSlash) with rfl | hMem
  · exact absurd hStart (by decide +kernel)
  · exact absurd (hParts '/' hMem) (by decide +kernel)

def before (splices : List Splice) : List Chunk := splices.flatMap old

def after (splices : List Splice) : List Chunk := splices.flatMap new

/-- Where the stretches stand that are kept. -/
def keptSpans (offset : Nat) : List Splice → List Span
  | [] => []
  | kept chunks :: splices =>
      ⟨offset, offset + Text.byteLength (text chunks)⟩ ::
        keptSpans (offset + Text.byteLength (text chunks)) splices
  | exchanged old _ :: splices => keptSpans (offset + Text.byteLength (text old)) splices

variable {splice : Splice} {splices : List Splice} {span : Span}

@[simp] theorem before_cons : before (splice :: splices) = splice.old ++ before splices := rfl

@[simp] theorem after_cons : after (splice :: splices) = splice.new ++ after splices := rfl

theorem bounds_of_mem_keptSpans (h : span ∈ keptSpans offset splices) :
    offset ≤ span.start ∧ span.stop ≤ offset + Text.byteLength (text (before splices)) := by
  induction splices generalizing offset with
  | nil => cases h
  | cons splice splices ih =>
      rw [before_cons, text_append, Text.byteLength_append]
      have hLater : span ∈ keptSpans (offset + Text.byteLength (text splice.old)) splices →
          offset ≤ span.start ∧ span.stop ≤ offset + (Text.byteLength (text splice.old) +
            Text.byteLength (text (before splices))) := by
        intro hMem
        obtain ⟨hStart, hStop⟩ := ih hMem
        omega
      cases splice with
      | exchanged => exact hLater h
      | kept chunks =>
          rcases List.mem_cons.mp h with rfl | hMem
          · dsimp only [old]
            omega
          · exact hLater hMem

theorem pairwise_keptSpans :
    (keptSpans offset splices).Pairwise fun earlier later => earlier.stop ≤ later.start := by
  induction splices generalizing offset with
  | nil => exact .nil
  | cons splice splices ih =>
      cases splice with
      | exchanged => exact ih
      | kept => exact .cons (fun _ hMem => (bounds_of_mem_keptSpans hMem).1) ih

/-- Of the comments in some stretches those stay that lie in a stretch that is kept. -/
theorem map_content_filter (hPlain : ∀ splice ∈ splices, splice.IsPlain)
    (hNonempty : ∀ chunk ∈ before splices, chunk.text ≠ []) :
    ((lay offset (before splices)).comments.filter fun comment =>
      (keptSpans offset splices).any fun span => comment.span.within span).map Comment.content =
        contents (after splices) := by
  induction splices generalizing offset with
  | nil => rfl
  | cons splice splices ih =>
      obtain ⟨hSplice, hParts⟩ := List.forall_mem_cons.mp hPlain
      rw [before_cons] at hNonempty
      obtain ⟨hOld, hRest⟩ := List.forall_mem_append.mp hNonempty
      rw [before_cons, after_cons, lay_append, List.filter_append, List.map_append, contents_append]
      -- no later stretch reaches back to the comments of this one
      have hLater : ∀ comment ∈ (lay offset splice.old).comments,
          ((keptSpans (offset + Text.byteLength (text splice.old)) splices).any fun span =>
            comment.span.within span) = false := by
        intro comment hComment
        obtain ⟨-, hLt, hStop⟩ := bounds_of_mem_comments hOld hComment
        refine List.any_eq_false.mpr fun span hSpan hWithin => ?_
        have hLe := (bounds_of_mem_keptSpans hSpan).1
        have hInside := Span.within_iff.mp hWithin
        omega
      cases splice with
      | exchanged old new =>
          have hNone := List.filter_eq_nil_iff.mpr fun comment hComment =>
            Bool.eq_false_iff.mp (hLater comment hComment)
          exact congrArg₂ (· ++ ·) ((congrArg _ hNone).trans hSplice.1.symm) (ih hParts hRest)
      | kept chunks =>
          rw [List.filter_eq_self.mpr, map_content_lay]
          · rw [← @ih (offset + Text.byteLength (text chunks)) hParts hRest]
            refine congrArg (_ ++ ·) (congrArg _ (List.filter_congr fun comment hComment => ?_))
            obtain ⟨hStart, hLt, -⟩ := bounds_of_mem_comments hRest hComment
            rw [keptSpans, List.any_cons]
            have hNot : comment.span.within ⟨offset, offset + Text.byteLength (text chunks)⟩ =
                false := by
              refine Bool.eq_false_iff.mpr fun hWithin => ?_
              have hInside := (Span.within_iff.mp hWithin).2
              dsimp only [old] at hStart hInside
              omega
            rw [hNot, Bool.false_or]
          · intro comment hComment
            obtain ⟨hStart, -, hStop⟩ := bounds_of_mem_comments hOld hComment
            dsimp only [old] at hStop
            rw [keptSpans, List.any_cons, Span.within_iff.mpr ⟨hStart, hStop⟩, Bool.true_or]

/-- What stands there after the exchange is put together of copies of what is kept. -/
theorem assembles {source : String} {lead : List Char} {front back : List Chunk}
    (hPlain : ∀ splice ∈ splices, splice.IsPlain)
    (hSource : source.toList = lead ++ text (front ++ (before splices ++ back))) :
    Assembles source (text (after splices))
      (keptSpans (Text.byteLength (lead ++ text front)) splices) := by
  induction splices generalizing front with
  | nil => exact .nil
  | cons splice splices ih =>
      obtain ⟨hSplice, hParts⟩ := List.forall_mem_cons.mp hPlain
      have hRest := @ih (front ++ splice.old) hParts (by
        rw [hSource, before_cons, List.append_assoc, List.append_assoc])
      rw [byteLength_text_append] at hRest
      rw [after_cons, text_append]
      cases splice with
      | exchanged old new => exact .word hSplice.2 hRest
      | kept chunks =>
          have hCut : Span.text? ⟨Text.byteLength (lead ++ text front),
              Text.byteLength (lead ++ text front) + Text.byteLength (text chunks)⟩ source =
                some (String.ofList (text chunks)) := by
            have hCut : source.toList = (lead ++ text front) ++ text chunks ++
                text (before splices ++ back) := by
              simp [hSource, old]
            exact Cuts.text?_of_append hCut
          have hCopy := Assembles.copy hCut hRest
          rw [String.toList_ofList] at hCopy
          exact hCopy

/-- If a stretch of a text is exchanged in parts, those comments stay that lie outside of it or in a
part that is kept. -/
theorem map_content_exchange {lead : List Char} {front back : List Chunk}
    (hPlain : ∀ splice ∈ splices, splice.IsPlain)
    (hNonempty : ∀ chunk ∈ front ++ (before splices ++ back), chunk.text ≠ []) :
    (layBehind lead (front ++ (after splices ++ back))).comments.map Comment.content =
      ((layBehind lead (front ++ (before splices ++ back))).comments.filter fun comment =>
        comment.stays ⟨Text.byteLength (lead ++ text front),
          Text.byteLength (lead ++ text (front ++ before splices))⟩
          (keptSpans (Text.byteLength (lead ++ text front)) splices)).map Comment.content := by
  obtain ⟨hFront, hRest⟩ := List.forall_mem_append.mp hNonempty
  obtain ⟨hBefore, hBack⟩ := List.forall_mem_append.mp hRest
  have hStop := byteLength_text_append lead front (before splices)
  have hStart := Text.byteLength_append lead (text front)
  simp only [layBehind, lay_append, List.filter_append, List.map_append, map_content_lay, hStop,
    hStart]
  rw [List.filter_eq_self.mpr, List.filter_eq_self.mpr, map_content_lay]
  · refine congrArg (_ ++ ·) (congrArg (_ ++ ·) (congrArg₂ _ ?_ ?_))
    · rw [← map_content_filter hPlain hBefore]
      refine congrArg _ (List.filter_congr fun comment hComment => ?_)
      obtain ⟨hLe, -, hLast⟩ := bounds_of_mem_comments hBefore hComment
      exact (Comment.stays_of_within _ hLe hLast).symm
    · rw [List.filter_eq_self.mpr, map_content_lay]
      intro comment hComment
      obtain ⟨hLe, hLt, -⟩ := bounds_of_mem_comments hBack hComment
      exact Comment.stays_of_not_within _ fun _ => by dsimp only; omega
  · intro comment hComment
    obtain ⟨-, hLt, hLast⟩ := bounds_of_mem_comments hFront hComment
    exact Comment.stays_of_not_within _ fun hIn => by dsimp only at hIn ⊢; omega
  · -- the line that opens a text is not empty
    intro comment hComment
    unfold openingComments at hComment
    split at hComment
    · cases hComment
    · rename_i hLead
      obtain rfl := List.mem_singleton.mp hComment
      have hPos : Text.byteLength lead ≠ 0 := fun hZero =>
        hLead (by simp [Text.eq_nil_of_byteLength_eq_zero hZero])
      exact Comment.stays_of_not_within _ fun hIn => by dsimp only at hIn ⊢; omega

end Splice

end Lexer

end EcmaLint
