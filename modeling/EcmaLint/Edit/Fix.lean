import EcmaLint.Text.Bytes
import EcmaLint.Text.Span

/-! Fixes: replacements of a span of a text. A fix with an empty text deletes, one with
an empty span inserts.

One fix in place of many. The fixes that belong together are joined with the text
between them, so that either all of them are applied or none.

The choice of fixes to apply at once. Fixes are taken in source order, each unless it
conflicts with one that was taken before; a fix that has to wait gets its turn when the
changed text is looked at again. -/
namespace EcmaLint

structure Fix where
  span : Span
  text : String
  deriving DecidableEq, Repr, Inhabited

namespace Fix

def insertBefore (span : Span) (text : String) : Fix := ⟨.point span.start, text⟩

def insertAfter (span : Span) (text : String) : Fix := ⟨.point span.stop, text⟩

def remove (span : Span) : Fix := ⟨span, ""⟩

def isDeletion (fix : Fix) : Bool := fix.text.isEmpty && !fix.span.isEmpty

def isInsertion (fix : Fix) : Bool := fix.span.isEmpty && !fix.text.isEmpty

/-- A fix fits a text if both ends of its span are character boundaries in order. -/
def fits (fix : Fix) (source : String) : Bool := (fix.span.text? source).isSome

/-- A text with the span of a fix replaced. There is none if the fix does not fit. -/
def applyTo? (fix : Fix) (source : String) : Option String :=
  if fix.span.start ≤ fix.span.stop then do
    let (before, tail) ← Text.splitAt? fix.span.start source.toList
    let (_, after) ← Text.splitAt? (fix.span.stop - fix.span.start) tail
    return String.ofList (before ++ fix.text.toList ++ after)
  else
    none

/-- The order in which fixes are looked at: by start, then by end. -/
def le (a b : Fix) : Bool :=
  a.span.start < b.span.start || (a.span.start == b.span.start && a.span.stop ≤ b.span.stop)

/-- Apply fixes one after the other, the last of the list first. Of fixes in source order
none then moves the span of another. A fix that does not fit changes nothing. -/
def applyAll (fixes : List Fix) (source : String) : String :=
  fixes.foldr (fun fix text => (fix.applyTo? text).getD text) source

end Fix

/-- Two fixes that cannot be joined because they overlap. -/
structure Overlap where
  first : Span
  second : Span
  deriving DecidableEq, Repr

namespace Fix

/-- The first two neighbours that overlap. -/
def firstOverlap? : List Fix → Option Overlap
  | first :: second :: rest =>
      if second.span.start < first.span.stop then some ⟨first.span, second.span⟩
      else firstOverlap? (second :: rest)
  | _ => none

/-- The texts of fixes with the text between them, from an offset on. -/
def joined (source : String) : Nat → List Fix → String
  | _, [] => ""
  | offset, fix :: rest =>
      ((Span.mk offset fix.span.start).text? source).getD "" ++ fix.text ++
        joined source fix.span.stop rest

/-- The end of the last fix, or an offset if there is none. -/
def lastStop (offset : Nat) (fixes : List Fix) : Nat :=
  (fixes.getLast?.map fun fix => fix.span.stop).getD offset

/-- One fix that does what all the given fixes do. Fixes at one place keep the order in
which they were proposed. -/
def merge (source : String) : List Fix → Except Overlap Fix
  | [fix] => .ok fix
  | fixes =>
      let sorted := fixes.mergeSort le
      match firstOverlap? sorted with
      | some overlap => .error overlap
      | none =>
          let start := (sorted.head?.map fun fix => fix.span.start).getD 0
          .ok ⟨⟨start, lastStop start sorted⟩, joined source start sorted⟩

end Fix

/-- A fix offered, by an owner of some rank. -/
structure Offer (α : Type) where
  owner : α
  rank : Nat
  fix : Fix

/-- What was taken of the offers, and what has to wait. -/
structure Selection (α : Type) where
  accepted : List (Offer α)
  deferred : List (Offer α)

/-- Whether two spans, of which `later` does not come before `earlier`, cannot both be
replaced. Spans may touch, but the order of two insertions at one place would be
arbitrary. -/
def Span.conflicts (earlier later : Span) : Bool :=
  if earlier.isEmpty && later.isEmpty then earlier.start == later.start
  else later.start < earlier.stop

namespace Selection

variable {α : Type}

/-- The order in which offers are looked at: by fix, then by rank. -/
def le (a b : Offer α) : Bool :=
  a.fix.le b.fix && (!b.fix.le a.fix || a.rank ≤ b.rank)

/-- Go through offers, given the span that was taken last. As spans come in order, an offer
that conflicts with any span taken so far conflicts with the last one. -/
def take : Option Span → List (Offer α) → Selection α
  | _, [] => ⟨[], []⟩
  | last, offer :: rest =>
      if last.any fun span => span.conflicts offer.fix.span then
        let later := take last rest
        ⟨later.accepted, offer :: later.deferred⟩
      else
        let later := take (some offer.fix.span) rest
        ⟨offer :: later.accepted, later.deferred⟩

end Selection

/-- The offers that are taken together, and those that have to wait. -/
def Selection.of {α : Type} (offers : List (Offer α)) : Selection α :=
  take none (offers.mergeSort le)

end EcmaLint
