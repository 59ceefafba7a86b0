import Mathlib.Data.List.Infix
import Mathlib.Data.List.TakeWhile
import EcmaLint.Lint.Filing

/-! Filling message templates. A template is read once from left to right: a placeholder goes
from the first opening to the first closing after it, and what follows is a template again. So
values that are put in are never looked at, and a template of which no name is known stays as it
is. -/
namespace EcmaLint

namespace Text

/-- A text is cut in two at the first place where a needle occurs: the needle stands between the
two parts, and nowhere that starts further to the left. -/
structure CutsAt (needle text before after : List Char) : Prop where
  eq_append : text = before ++ needle ++ after
  not_earlier : ¬ needle <:+: before ++ needle.dropLast

/-- A place is found in a text exactly if the needle occurs in it. -/
theorem cutAt?_eq_none {needle text : List Char} (hNeedle : needle ≠ []) :
    cutAt? needle text = none ↔ ¬ needle <:+: text := by
  induction text with
  | nil => simp [cutAt?, hNeedle]
  | cons c cs ih =>
      rw [cutAt?, List.infix_cons_iff, not_or, ← ih]
      split <;> simp_all

/-- The place that is found is the first one. -/
theorem CutsAt.of_cutAt? {needle text before after : List Char} (hNeedle : needle ≠ [])
    (h : cutAt? needle text = some (before, after)) : CutsAt needle text before after := by
  induction text generalizing before after with
  | nil => simp [cutAt?, hNeedle] at h
  | cons c cs ih =>
      rw [cutAt?] at h
      split at h
      case isTrue hHere =>
        obtain ⟨rest, hText⟩ := List.isPrefixOf_iff_prefix.mp hHere
        rw [← hText, List.drop_left, Option.some.injEq, Prod.mk.injEq] at h
        obtain ⟨rfl, rfl⟩ := h
        refine ⟨by simp [hText], fun hInfix => ?_⟩
        have := hInfix.length_le
        have := List.length_pos_iff.mpr hNeedle
        simp only [List.nil_append, List.length_dropLast] at *
        omega
      case isFalse hNotHere =>
        obtain ⟨⟨front, back⟩, hLater, hParts⟩ := Option.map_eq_some_iff.mp h
        obtain ⟨rfl, rfl⟩ := Prod.mk.inj hParts
        obtain ⟨hText, hFirst⟩ := ih hLater
        refine ⟨by simp [hText], fun hInfix => ?_⟩
        rcases List.infix_cons_iff.mp hInfix with hPrefix | hInfix
        · refine hNotHere (List.isPrefixOf_iff_prefix.mpr (hPrefix.trans ?_))
          rw [hText, List.append_assoc, ← List.cons_append]
          exact (List.prefix_append_right_inj (c :: front)).mpr <|
            (List.dropLast_prefix needle).trans (List.prefix_append _ _)
        · exact hFirst hInfix

/-- The first place is found. -/
theorem CutsAt.cutAt?_eq {needle text before after : List Char} (hNeedle : needle ≠ [])
    (h : CutsAt needle text before after) : cutAt? needle text = some (before, after) := by
  obtain ⟨rfl, hFirst⟩ := h
  induction before with
  | nil =>
      obtain ⟨c, cs, rfl⟩ := List.exists_cons_of_ne_nil hNeedle
      simp [cutAt?]
  | cons c cs ih =>
      have hNotHere : ¬ needle <+: (c :: cs) ++ needle ++ after := by
        intro hPrefix
        rw [List.append_assoc] at hPrefix
        have hShorter : (c :: cs) ++ needle.dropLast <+: (c :: cs) ++ (needle ++ after) :=
          (List.prefix_append_right_inj _).mpr <|
            (List.dropLast_prefix needle).trans (List.prefix_append _ _)
        refine hFirst (List.prefix_of_prefix_length_le hPrefix hShorter ?_).isInfix
        simp only [List.length_append, List.length_cons, List.length_dropLast]
        omega
      have hLater := ih fun hInfix => hFirst (List.infix_cons hInfix)
      simp only [List.cons_append] at hNotHere ⊢
      rw [cutAt?, if_neg (mt List.isPrefixOf_iff_prefix.mp hNotHere), hLater]
      rfl

/-- White space around a text does not count when it is trimmed. -/
theorem trim_around {left name right : List Char} (hLeft : ∀ c ∈ left, isWhiteSpace c)
    (hRight : ∀ c ∈ right, isWhiteSpace c) : trim (left ++ name ++ right) = trim name := by
  have hStart : trimStart (left ++ name ++ right) = trimStart (name ++ right) := by
    rw [List.append_assoc, trimStart, List.dropWhile_append_of_pos hLeft, trimStart]
  rw [trim, hStart, trim]
  congr 1
  unfold trimStart
  rw [List.dropWhile_append]
  split
  case isTrue hBlank =>
    have hName : name.dropWhile isWhiteSpace = [] := List.isEmpty_iff.mp hBlank
    rw [hName, List.dropWhile_eq_nil_iff.2 hRight]
  case isFalse =>
    rw [List.reverse_append, List.dropWhile_append_of_pos (by simpa using hRight)]

end Text

namespace Message

/-- A part of a template: a text without placeholders, or a placeholder with white space on the
two sides of its name. -/
inductive Segment where
  | literal (text : List Char)
  | placeholder (left name right : List Char)

namespace Segment

/-- There is no opening brace in a literal, and there are no braces in a name. -/
def IsPlain : Segment → Prop
  | literal text => '{' ∉ text
  | placeholder left name right =>
      (∀ c ∈ left, Text.isWhiteSpace c) ∧ '{' ∉ name ∧ '}' ∉ name ∧
        ∀ c ∈ right, Text.isWhiteSpace c

instance : DecidablePred IsPlain
  | literal text => inferInstanceAs (Decidable ('{' ∉ text))
  | placeholder left name right =>
      decidable_of_iff (left.all Text.isWhiteSpace ∧ '{' ∉ name ∧ '}' ∉ name ∧
        right.all Text.isWhiteSpace) (by simp only [IsPlain, List.all_eq_true])

def written : Segment → List Char
  | literal text => text
  | placeholder left name right => ['{', '{'] ++ (left ++ name ++ right) ++ ['}', '}']

/-- What stands for a segment when a template is filled: for a placeholder the value of the first
pair that has the trimmed name as its key, or the placeholder as it is written. -/
def filled (data : List (String × String)) : Segment → List Char
  | literal text => text
  | placeholder left name right =>
      match data.find? fun pair => pair.1 == String.ofList (Text.trim name) with
      | some pair => pair.2.toList
      | none => (placeholder left name right).written

end Segment

/-- The text of a placeholder between its braces, for the placeholders that are met when a
template is read once from left to right. -/
inductive HasPlaceholder : List Char → List Char → Prop where
  | first {template before behind inside rest : List Char}
      (opens : Text.CutsAt opening template before behind)
      (closes : Text.CutsAt closing behind inside rest) : HasPlaceholder template inside
  | later {template before behind inside rest other : List Char}
      (opens : Text.CutsAt opening template before behind)
      (closes : Text.CutsAt closing behind inside rest)
      (further : HasPlaceholder rest other) : HasPlaceholder template other

variable (data : List (String × String))

theorem fillChars_of_cutsAt {template before behind inside rest : List Char}
    (opens : Text.CutsAt opening template before behind)
    (closes : Text.CutsAt closing behind inside rest) :
    fillChars data template = before ++ substitute data inside ++ fillChars data rest := by
  have hOpens := opens.cutAt?_eq (by simp [opening])
  have hCloses := closes.cutAt?_eq (by simp [closing])
  rw [fillChars]
  split
  · simp_all
  · rename_i hHere
    obtain ⟨rfl, rfl⟩ := Prod.mk.inj (Option.some.inj (hOpens.symm.trans hHere))
    split
    · simp_all
    · rename_i hThere
      obtain ⟨rfl, rfl⟩ := Prod.mk.inj (Option.some.inj (hCloses.symm.trans hThere))
      rfl

theorem fillChars_of_not_infix {template : List Char} (h : ¬ opening <:+: template) :
    fillChars data template = template := by
  have hNone := (Text.cutAt?_eq_none (by simp [opening])).mpr h
  rw [fillChars]
  split <;> simp_all

/-- An opening takes two braces, so it does not start before the first one. -/
theorem cutsAt_of_not_mem {brace : Char} {before : List Char} (h : brace ∉ before)
    (after : List Char) :
    Text.CutsAt [brace, brace] (before ++ [brace, brace] ++ after) before after := by
  refine ⟨rfl, fun hInfix => ?_⟩
  have hCount := hInfix.sublist.count_le brace
  simp [List.count_eq_zero_of_not_mem h] at hCount

variable {data}

theorem lookup_eq_find? (key : String) :
    data.lookup key = (data.find? fun pair => pair.1 == key).map Prod.snd := by
  induction data with
  | nil => rfl
  | cons pair rest ih =>
      rw [List.lookup_cons, List.find?_cons, BEq.comm]
      split <;> simp_all

theorem filled_placeholder {left name right : List Char} (hLeft : ∀ c ∈ left, Text.isWhiteSpace c)
    (hRight : ∀ c ∈ right, Text.isWhiteSpace c) :
    (Segment.placeholder left name right).filled data =
      substitute data (left ++ name ++ right) := by
  rw [substitute, Text.trim_around hLeft hRight, lookup_eq_find?, Segment.filled]
  cases data.find? fun pair => pair.1 == String.ofList (Text.trim name) <;> rfl

variable (data) in
/-- A text without opening braces stays in front of segments that are filled. -/
theorem fillChars_segments {front : List Char} {segments : List Segment} (hFront : '{' ∉ front)
    (hPlain : ∀ segment ∈ segments, segment.IsPlain) :
    fillChars data (front ++ segments.flatMap Segment.written) =
      front ++ segments.flatMap (Segment.filled data) := by
  induction segments generalizing front with
  | nil =>
      rw [List.flatMap_nil, List.append_nil, List.flatMap_nil, List.append_nil]
      exact fillChars_of_not_infix data fun hInfix => hFront (hInfix.subset (by simp [opening]))
  | cons segment later ih =>
      obtain ⟨hSegment, hLater⟩ := List.forall_mem_cons.mp hPlain
      rw [List.flatMap_cons, List.flatMap_cons]
      cases segment with
      | literal text =>
          rw [← List.append_assoc, Segment.written, ih (by simp_all [Segment.IsPlain]) hLater,
            List.append_assoc, Segment.filled]
      | placeholder left name right =>
          obtain ⟨hLeft, -, hName, hRight⟩ := hSegment
          have hInside : '}' ∉ left ++ name ++ right := by
            have hBlank : ¬ Text.isWhiteSpace '}' := by decide
            simp only [List.mem_append, not_or]
            exact ⟨⟨fun hMem => hBlank (hLeft _ hMem), hName⟩, fun hMem => hBlank (hRight _ hMem)⟩
          have hOpens := cutsAt_of_not_mem hFront
            (left ++ name ++ right ++ closing ++ later.flatMap Segment.written)
          have hCloses := cutsAt_of_not_mem hInside (later.flatMap Segment.written)
          have hRest := ih List.not_mem_nil hLater
          rw [List.nil_append, List.nil_append] at hRest
          have hFilled := fillChars_of_cutsAt data hOpens hCloses
          rw [filled_placeholder hLeft hRight, ← hRest]
          simpa [Segment.written, closing] using hFilled

/-- Only a known name changes a template. -/
theorem fillChars_of_unknown {template : List Char}
    (h : ∀ inside, HasPlaceholder template inside →
      ∀ pair ∈ data, pair.1 ≠ String.ofList (Text.trim inside)) :
    fillChars data template = template := by
  fun_induction fillChars data template with
  | case1 template hNone => rfl
  | case2 template before behind hOpens hNone => rfl
  | case3 template before behind hOpens inside rest hCloses ih =>
      have opens := Text.CutsAt.of_cutAt? (by simp [opening]) hOpens
      have closes := Text.CutsAt.of_cutAt? (by simp [closing]) hCloses
      have hUnknown :
          data.find? (fun pair => pair.1 == String.ofList (Text.trim inside)) = none := by
        simpa using h inside (.first opens closes)
      rw [ih fun other hOther => h other (.later opens closes hOther), substitute, lookup_eq_find?,
        hUnknown, opens.eq_append, closes.eq_append]
      simp

/-- A template of literals and placeholders is filled segment by segment, whatever the values
are: each placeholder is replaced by the value of the first pair with its name, or left as it is
written if there is none. And whatever a template is, it stays as it is if none of the names in
its placeholders is known. -/
theorem fill_substitutesOnce (data : List (String × String)) :
    (∀ segments : List Segment, (∀ segment ∈ segments, segment.IsPlain) →
      fill (String.ofList (segments.flatMap Segment.written)) data =
        String.ofList (segments.flatMap (Segment.filled data))) ∧
    ∀ template : String,
      (∀ inside, HasPlaceholder template.toList inside →
        ∀ pair ∈ data, pair.1 ≠ String.ofList (Text.trim inside)) →
      fill template data = template := by
  constructor
  · intro segments hPlain
    have hFilled := fillChars_segments data List.not_mem_nil hPlain
    rw [List.nil_append, List.nil_append] at hFilled
    rw [fill, String.toList_ofList, hFilled]
  · intro template hUnknown
    rw [fill, fillChars_of_unknown hUnknown, String.ofList_toList]

/-- A value with braces in it is put in as it stands, a name that is not known stays with its
white space, and an opening without a closing is no placeholder. -/
theorem fill_substitutesOnce_braces :
    fill "a{{ x }}{{y }}b" [("x", "{{y}}"), ("x", "z")] = "a{{y}}{{y }}b" ∧
    fill "a \x7b\x7b b" [("b", "c")] = "a \x7b\x7b b" := by
  have hFilled := (fill_substitutesOnce [("x", "{{y}}"), ("x", "z")]).1
    [.literal ['a'], .placeholder [' '] ['x'] [' '], .placeholder [] ['y'] [' '], .literal ['b']]
    (by decide)
  have hUnclosed := (fill_substitutesOnce [("b", "c")]).2 "a \x7b\x7b b" (by
    intro inside hInside
    have hOpening :
        Text.cutAt? opening "a \x7b\x7b b".toList = some ("a ".toList, " b".toList) := by
      decide +kernel
    cases hInside with
    | first opens closes | later opens closes further =>
        have hHere := (opens.cutAt?_eq (by simp [opening])).symm.trans hOpening
        obtain ⟨rfl, rfl⟩ := Prod.mk.inj (Option.some.inj hHere)
        cases closes.cutAt?_eq (by simp [closing]))
  exact ⟨hFilled.trans (by decide +kernel), hUnclosed⟩

end Message

end EcmaLint
