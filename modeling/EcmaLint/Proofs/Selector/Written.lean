import Mathlib.Data.List.Infix
import Mathlib.Data.List.TakeWhile
import EcmaLint.Selector.Basic
import EcmaLint.Selector.Reader

/-! Written forms of selectors. A selector has one plain form for each sort of quotes, and every
form that comes from a plain one by choosing the quotes of each string and by putting white space
around commas, child combinators and comparisons and just inside brackets. All of them are read
back as the selector. -/
namespace EcmaLint

namespace Selector

open Reader

/-- White space, perhaps none. -/
def IsSpace (text : List Char) : Prop := ∀ c ∈ text, Text.isWhiteSpace c

/-- A name that a path may have: it starts like a word or with a digit. -/
structure IsSegment (segment : String) : Prop where
  starts : segment.toList.head?.any fun c => isNameStart c || c.isDigit
  parts : ∀ c ∈ segment.toList, isNamePart c

instance (segment : String) : Decidable (IsSegment segment) :=
  decidable_of_iff
    ((segment.toList.head?.any fun c => isNameStart c || c.isDigit) = true ∧
      segment.toList.all isNamePart = true)
    ⟨fun ⟨starts, parts⟩ => ⟨starts, List.all_eq_true.mp parts⟩,
      fun ⟨starts, parts⟩ => ⟨starts, List.all_eq_true.mpr parts⟩⟩

def IsPath (path : List String) : Prop := path ≠ [] ∧ ∀ segment ∈ path, IsSegment segment

instance (path : List String) : Decidable (IsPath path) :=
  inferInstanceAs (Decidable (path ≠ [] ∧ ∀ segment ∈ path, IsSegment segment))

/-- A test whether there is a value, or a comparison with a text, a truth value or null. -/
def IsPlainTest : AttributeTest → Prop
  | .isPresent => True
  | .equals literal | .differs literal =>
      match literal with
      | .text _ | .bool _ | .null => True
      | .number _ | .pattern _ => False

def IsWritableCompound (compound : Compound) : Prop :=
  ∀ tested ∈ compound.attributes, IsPath tested.path ∧ IsPlainTest tested.test

/-- Every path is one that can be written, and every test has a plain form. -/
def IsWritable (complex : Complex) : Prop :=
  ∀ compound ∈ complex.compounds, IsWritableCompound compound

/-- The forms of a literal. Strings stand in quotes, with a backslash before each backslash and
each such quote. -/
inductive WritesLiteral : SelectorLiteral → List Char → Prop where
  | text {quote : Char} (value : String) (isQuote : quote = '\'' ∨ quote = '"') :
      WritesLiteral (.text value) (quote :: Printer.escape quote value.toList ++ [quote])
  | yes : WritesLiteral (.bool true) "true".toList
  | no : WritesLiteral (.bool false) "false".toList
  | null : WritesLiteral .null "null".toList

inductive WritesTest : AttributeTest → List Char → Prop where
  | isPresent : WritesTest .isPresent []
  | equals {literal : SelectorLiteral} {left right text : List Char} (before : IsSpace left)
      (after : IsSpace right) (writes : WritesLiteral literal text) :
      WritesTest (.equals literal) (left ++ "=".toList ++ right ++ text)
  | differs {literal : SelectorLiteral} {left right text : List Char} (before : IsSpace left)
      (after : IsSpace right) (writes : WritesLiteral literal text) :
      WritesTest (.differs literal) (left ++ "!=".toList ++ right ++ text)

inductive WritesAttribute : Attribute → List Char → Prop where
  | bracketed {path : List String} {test : AttributeTest} {left right text : List Char}
      (isPath : IsPath path) (inside : IsSpace left) (behind : IsSpace right)
      (writes : WritesTest test text) :
      WritesAttribute ⟨path, test⟩
        ('[' :: left ++ (".".intercalate path).toList ++ text ++ right ++ [']'])

/-- The forms of a compound: its kind, if it names one, and its attributes, or a star if there is
nothing else. -/
inductive WritesCompound : Compound → List Char → Prop where
  | kind (kind : NodeKind) {attributes : List Attribute} {texts : List (List Char)}
      (writes : List.Forall₂ WritesAttribute attributes texts) :
      WritesCompound ⟨some kind, attributes⟩ (kind.name.toList ++ texts.flatten)
  | star : WritesCompound ⟨none, []⟩ ['*']
  | attributes {attributes : List Attribute} {texts : List (List Char)}
      (isSome : attributes ≠ []) (writes : List.Forall₂ WritesAttribute attributes texts) :
      WritesCompound ⟨none, attributes⟩ texts.flatten

inductive WritesCombinator : Combinator → List Char → Prop where
  | child {left right : List Char} (before : IsSpace left) (after : IsSpace right) :
      WritesCombinator .child (left ++ ">".toList ++ right)
  | descendant {space : List Char} (isSpace : IsSpace space) (isSome : space ≠ []) :
      WritesCombinator .descendant space

inductive WritesComplex : Complex → List Char → Prop where
  | single {compound : Compound} {text : List Char} (writes : WritesCompound compound text) :
      WritesComplex ⟨compound, []⟩ text
  | joined {above compound : Compound} {context : List (Combinator × Compound)}
      {combinator : Combinator} {front between text : List Char}
      (former : WritesComplex ⟨above, context⟩ front)
      (joins : WritesCombinator combinator between) (writes : WritesCompound compound text) :
      WritesComplex ⟨compound, (combinator, above) :: context⟩ (front ++ between ++ text)

/-- The forms of alternatives. There may be white space at the two ends as well. -/
inductive Writes : List Complex → List Char → Prop where
  | last {complex : Complex} {left text right : List Char} (before : IsSpace left)
      (writes : WritesComplex complex text) (after : IsSpace right) :
      Writes [complex] (left ++ text ++ right)
  | more {complex : Complex} {later : List Complex} {left text right rest : List Char}
      (before : IsSpace left) (writes : WritesComplex complex text) (after : IsSpace right)
      (others : Writes later rest) :
      Writes (complex :: later) (left ++ text ++ right ++ ",".toList ++ rest)

theorem isSpace_nil : IsSpace [] := fun _ h => nomatch h

theorem isSpace_single : IsSpace [' '] := by
  simp only [IsSpace, List.mem_singleton, forall_eq]
  decide

/-- White space may be put in front of alternatives. -/
theorem Writes.behind {alternatives : List Complex} {space text : List Char}
    (hSpace : IsSpace space) (h : Writes alternatives text) :
    Writes alternatives (space ++ text) := by
  have hLonger : ∀ left, IsSpace left → IsSpace (space ++ left) := fun left hLeft c hMem =>
    (List.mem_append.mp hMem).elim (hSpace c) (hLeft c)
  cases h with
  | last before writes after =>
      simpa [List.append_assoc] using Writes.last (hLonger _ before) writes after
  | more before writes after others =>
      simpa [List.append_assoc] using Writes.more (hLonger _ before) writes after others

section Plain

variable {quote : Char} (hQuote : quote = '\'' ∨ quote = '"')
include hQuote

/-- The plain form of a literal, and of the tests against it. -/
theorem exists_writesTest {test : AttributeTest} (h : IsPlainTest test) :
    ∃ text, Printer.test? quote test = some text ∧ WritesTest test text := by
  have hLiteral : ∀ literal, IsPlainTest (.equals literal) →
      ∃ text, Printer.literal? quote literal = some text ∧ WritesLiteral literal text := by
    intro literal hPlain
    cases literal with
    | text value => exact ⟨_, rfl, .text value hQuote⟩
    | bool value =>
        cases value
        · exact ⟨_, rfl, .no⟩
        · exact ⟨_, rfl, .yes⟩
    | null => exact ⟨_, rfl, .null⟩
    | number value | pattern value => exact hPlain.elim
  cases test with
  | isPresent => exact ⟨_, rfl, .isPresent⟩
  | equals literal =>
      obtain ⟨text, hPlain, hWrites⟩ := hLiteral literal h
      exact ⟨_, by rw [Printer.test?, hPlain]; rfl, .equals isSpace_nil isSpace_nil hWrites⟩
  | differs literal =>
      obtain ⟨text, hPlain, hWrites⟩ := hLiteral literal h
      exact ⟨_, by rw [Printer.test?, hPlain]; rfl, .differs isSpace_nil isSpace_nil hWrites⟩

theorem exists_writesAttributes {attributes : List Attribute}
    (h : ∀ tested ∈ attributes, IsPath tested.path ∧ IsPlainTest tested.test) :
    ∃ texts, attributes.mapM (Printer.attribute? quote) = some texts ∧
      List.Forall₂ WritesAttribute attributes texts := by
  induction attributes with
  | nil => exact ⟨[], rfl, .nil⟩
  | cons tested rest ih =>
      obtain ⟨⟨hPath, hTest⟩, hRest⟩ := List.forall_mem_cons.mp h
      obtain ⟨text, hPlain, hWrites⟩ := exists_writesTest hQuote hTest
      obtain ⟨texts, hPlains, hAll⟩ := ih hRest
      refine ⟨('[' :: (".".intercalate tested.path).toList ++ text ++ [']']) :: texts, ?_, ?_⟩
      · simp [List.mapM_cons, Printer.attribute?, hPlain, hPlains]
      · exact .cons (by simpa using
          WritesAttribute.bracketed hPath isSpace_nil isSpace_nil hWrites) hAll

theorem exists_writesCompound {compound : Compound} (h : IsWritableCompound compound) :
    ∃ text, Printer.compound? quote compound = some text ∧ WritesCompound compound text := by
  obtain ⟨kind, attributes⟩ := compound
  obtain ⟨texts, hPlain, hWrites⟩ := exists_writesAttributes hQuote h
  cases kind with
  | some kind => exact ⟨_, by simp [Printer.compound?, hPlain], .kind kind hWrites⟩
  | none =>
      cases attributes with
      | nil => exact ⟨_, by simp [Printer.compound?], .star⟩
      | cons tested rest =>
          exact ⟨_, by simp [Printer.compound?, hPlain], .attributes (by simp) hWrites⟩

theorem exists_writesComplex {complex : Complex} (h : IsWritable complex) :
    ∃ text, Printer.complex? quote complex = some text ∧ WritesComplex complex text := by
  obtain ⟨subject, context⟩ := complex
  induction context generalizing subject with
  | nil =>
      obtain ⟨text, hPlain, hWrites⟩ :=
        exists_writesCompound hQuote (h subject List.mem_cons_self)
      exact ⟨text, by simp [Printer.complex?, Printer.context?, hPlain], .single hWrites⟩
  | cons joint rest ih =>
      obtain ⟨combinator, above⟩ := joint
      obtain ⟨text, hPlain, hWrites⟩ :=
        exists_writesCompound hQuote (h subject List.mem_cons_self)
      obtain ⟨front, hFront, hFormer⟩ := ih above fun compound hCompound =>
        h compound (List.mem_cons_of_mem _ hCompound)
      have hJoins : WritesCombinator combinator (Printer.combinator combinator) := by
        cases combinator with
        | child => exact .child isSpace_single isSpace_single
        | descendant => exact .descendant isSpace_single (List.cons_ne_nil _ _)
      refine ⟨front ++ Printer.combinator combinator ++ text, ?_, .joined hFormer hJoins hWrites⟩
      simp only [Printer.complex?, Printer.context?, Option.bind_eq_bind, hPlain] at hFront ⊢
      obtain ⟨farther, hFarther, hFront⟩ := Option.bind_eq_some_iff.mp hFront
      obtain ⟨near, hNear, hFront⟩ := Option.bind_eq_some_iff.mp hFront
      obtain rfl := Option.some.inj hFront
      simp [hFarther, hNear]

/-- Alternatives that can be written have a plain form, and it is one of the written forms. -/
theorem exists_writes {alternatives : List Complex} (hSome : alternatives ≠ [])
    (h : ∀ complex ∈ alternatives, IsWritable complex) :
    ∃ text, Printer.render? quote alternatives = some (String.ofList text) ∧
      Writes alternatives text := by
  have hTexts : ∃ texts, alternatives.mapM (Printer.complex? quote) = some texts ∧
      Writes alternatives (", ".toList.intercalate texts) := by
    induction alternatives with
    | nil => exact absurd rfl hSome
    | cons complex later ih =>
        obtain ⟨hComplex, hLater⟩ := List.forall_mem_cons.mp h
        obtain ⟨text, hPlain, hWrites⟩ := exists_writesComplex hQuote hComplex
        cases later with
        | nil =>
            refine ⟨[text], by simp [hPlain], ?_⟩
            simpa using Writes.last isSpace_nil hWrites isSpace_nil
        | cons next others =>
            obtain ⟨texts, hPlains, hAll⟩ := ih (List.cons_ne_nil _ _) hLater
            refine ⟨text :: texts, by rw [List.mapM_cons, hPlain, hPlains]; rfl, ?_⟩
            rw [List.mapM_cons] at hPlains
            obtain ⟨second, -, hPlains⟩ := Option.bind_eq_some_iff.mp hPlains
            obtain ⟨rest, -, hPlains⟩ := Option.bind_eq_some_iff.mp hPlains
            obtain rfl := Option.some.inj hPlains
            rw [List.intercalate_cons_cons]
            simpa using Writes.more isSpace_nil hWrites isSpace_nil (hAll.behind isSpace_single)
  obtain ⟨texts, hPlain, hWrites⟩ := hTexts
  exact ⟨_, by simp [Printer.render?, hPlain], hWrites⟩

end Plain

end Selector

end EcmaLint
