import Mathlib.Data.List.Induction
import EcmaLint.Conformance.Tester
import EcmaLint.Proofs.Conformance.RoundTrip

/-! Test cases that stand twice. Cases are told apart by what is written of them, and as no two of
them are written alike, a case is found to stand twice just if there is an equal one before it. The
keys of what came before are kept in a list, and the first key that is in it is told. -/
namespace EcmaLint.Conformance

open Json

/-- One of a list is like one before it, and nothing that stands before it is like anything
earlier. -/
def FirstRepeat {α : Type} (Same : α → α → Prop) (list : List α) (one : α) : Prop :=
  ∃ before after, list = before ++ one :: after ∧ (∃ other ∈ before, Same other one) ∧
    before.Pairwise fun a b => ¬ Same a b

theorem exists_firstRepeat_iff_not_pairwise {α : Type} {Same : α → α → Prop} {list : List α} :
    (∃ one, FirstRepeat Same list one) ↔ ¬ list.Pairwise fun a b => ¬ Same a b := by
  constructor
  · rintro ⟨one, before, after, rfl, ⟨other, hOther, hSame⟩, -⟩ hApart
    exact (List.pairwise_append.mp hApart).2.2 other hOther one List.mem_cons_self hSame
  · intro hSame
    -- from the back, as the last one is the first repeat only if none stands before it
    induction list using List.reverseRecOn with
    | nil => exact absurd .nil hSame
    | append_singleton front last ih =>
        by_cases hFront : front.Pairwise fun a b => ¬ Same a b
        · have hLast : ∃ other ∈ front, Same other last := by
            simpa [List.pairwise_append, hFront] using hSame
          exact ⟨last, front, [], rfl, hLast, hFront⟩
        · obtain ⟨one, before, after, rfl, hRepeats, hApart⟩ := ih hFront
          refine ⟨one, before, after ++ [last], ?_, hRepeats, hApart⟩
          rw [List.append_assoc, List.cons_append]

/-- There is a first repeat just if two of a list are the same. -/
theorem exists_firstRepeat_iff {α : Type} {Same : α → α → Prop} {list : List α} :
    (∃ one, FirstRepeat Same list one) ↔
      ∃ one other, [one, other].Sublist list ∧ Same one other := by
  rw [exists_firstRepeat_iff_not_pairwise, List.pairwise_iff_forall_sublist]
  simp only [not_forall, not_not, exists_prop]

section

variable {α : Type} {key : α → String} {Same : α → α → Prop} {list : List α}

theorem firstRepeated?_seen_eq_some_iff {seen : List String} {one : α} :
    firstRepeated? key seen list = some one ↔ ∃ before after, list = before ++ one :: after ∧
      (key one ∈ seen ∨ ∃ other ∈ before, key other = key one) ∧
      (∀ a ∈ before, key a ∉ seen) ∧ before.Pairwise fun a b => key a ≠ key b := by
  induction list generalizing seen with
  | nil => simp [firstRepeated?]
  | cons first rest ih =>
      rw [firstRepeated?]
      by_cases hSeen : key first ∈ seen
      · rw [if_pos (List.contains_iff_mem.mpr hSeen)]
        constructor
        · rintro ⟨⟩
          exact ⟨[], rest, rfl, .inl hSeen, nofun, .nil⟩
        · rintro ⟨before, after, hList, -, hNew, -⟩
          cases before with
          | nil => rw [(List.cons.inj hList).1]
          | cons head before =>
              rw [(List.cons.inj hList).1] at hSeen
              exact absurd hSeen (hNew head List.mem_cons_self)
      · rw [if_neg (mt List.contains_iff_mem.mp hSeen), ih]
        constructor
        · rintro ⟨before, after, rfl, hRepeats, hNew, hApart⟩
          refine ⟨first :: before, after, rfl, ?_, ?_, ?_⟩ <;> grind [List.pairwise_cons]
        · rintro ⟨before, after, hList, hRepeats, hNew, hApart⟩
          cases before with
          | nil => grind
          | cons head before =>
              obtain ⟨rfl, rfl⟩ := List.cons.inj hList
              refine ⟨before, after, rfl, ?_, ?_, ?_⟩ <;> grind [List.pairwise_cons]

theorem firstRepeated?_seen_eq_none_iff {seen : List String} :
    firstRepeated? key seen list = none ↔
      (∀ a ∈ list, key a ∉ seen) ∧ list.Pairwise fun a b => key a ≠ key b := by
  induction list generalizing seen with
  | nil => simp [firstRepeated?]
  | cons first rest ih =>
      rw [firstRepeated?]
      by_cases hSeen : key first ∈ seen
      · rw [if_pos (List.contains_iff_mem.mpr hSeen)]
        simp [hSeen]
      · rw [if_neg (mt List.contains_iff_mem.mp hSeen), ih]
        grind [List.pairwise_cons]

/-- The first repeat by key is the first repeat, if the keys tell apart what is not the same. -/
theorem firstRepeated?_eq_some_iff (h : ∀ a ∈ list, ∀ b ∈ list, key a = key b ↔ Same a b)
    {one : α} : firstRepeated? key [] list = some one ↔ FirstRepeat Same list one := by
  rw [firstRepeated?_seen_eq_some_iff]
  constructor
  · rintro ⟨before, after, rfl, hRepeats, -, hApart⟩
    obtain hNone | ⟨other, hOther, hKey⟩ := hRepeats
    · cases hNone
    · refine ⟨before, after, rfl, ⟨other, hOther, (h _ (by simp [hOther]) _ (by simp)).mp hKey⟩, ?_⟩
      apply hApart.imp_of_mem
      intro a b ha hb hKeys hSame
      exact hKeys ((h a (by simp [ha]) b (by simp [hb])).mpr hSame)
  · rintro ⟨before, after, rfl, ⟨other, hOther, hSame⟩, hApart⟩
    refine ⟨before, after, rfl, .inr ⟨other, hOther, ?_⟩, fun _ _ => List.not_mem_nil, ?_⟩
    · exact (h _ (by simp [hOther]) _ (by simp)).mpr hSame
    · apply hApart.imp_of_mem
      intro a b ha hb hOthers hKey
      exact hOthers ((h a (by simp [ha]) b (by simp [hb])).mp hKey)

theorem firstRepeated?_eq_none_iff (h : ∀ a ∈ list, ∀ b ∈ list, key a = key b ↔ Same a b) :
    firstRepeated? key [] list = none ↔ list.Pairwise fun a b => ¬ Same a b := by
  rw [firstRepeated?_seen_eq_none_iff, and_iff_right fun _ _ => List.not_mem_nil]
  constructor
  · intro hApart
    apply hApart.imp_of_mem
    intro a b ha hb hKeys hSame
    exact hKeys ((h a ha b hb).mpr hSame)
  · intro hApart
    apply hApart.imp_of_mem
    intro a b ha hb hOthers hKey
    exact hOthers ((h a ha b hb).mp hKey)

end

/-- A list of whole values is whole. -/
theorem isWhole_array {items : List Json} (h : ∀ item ∈ items, item.IsWhole) :
    (Json.array items).IsWhole := by
  obtain ⟨levels, hLevels⟩ := exists_forall_fits h
  exact ⟨levels + 1, .array hLevels⟩

namespace ValidCase

/-- Valid cases with the same code, options and parse options, in whatever form and under whatever
name they are written. -/
structure Same (first second : ValidCase) : Prop where
  text : first.text = second.text
  options : first.options = second.options
  parseOptions : first.parseOptions = second.parseOptions

/-- The value that the key of a case is the text of. -/
def keyJson (valid : ValidCase) : Json :=
  .array [.string valid.text, .array valid.options,
    orNull (valid.parseOptions.map ParseOptions.toJson)]

theorem isOrdered_keyJson {valid : ValidCase} (h : ∀ option ∈ valid.options, option.IsOrdered) :
    valid.keyJson.IsOrdered := by
  apply Json.IsOrdered.array
  simp only [List.forall_mem_cons]
  exact ⟨.string _, .array h, isOrdered_parseOptions _, nofun⟩

theorem isWhole_keyJson {valid : ValidCase} (hEdition : IsSupported valid.parseOptions)
    (hWhole : ∀ option ∈ valid.options, option.IsWhole) : valid.keyJson.IsWhole := by
  apply isWhole_array
  simp only [List.forall_mem_cons]
  exact ⟨⟨0, .string 0 _⟩, isWhole_array hWhole, ⟨1, fits_parseOptions hEdition 0⟩, nofun⟩

theorem same_of_keyJson_eq {first second : ValidCase} (hFirst : IsSupported first.parseOptions)
    (hSecond : IsSupported second.parseOptions) (h : first.keyJson = second.keyJson) :
    first.Same second := by
  simp only [keyJson, Json.array.injEq, List.cons.injEq, Json.string.injEq, and_true] at h
  obtain ⟨hText, hOptions, hParse⟩ := h
  -- parse options that are written alike are read back as one and the same
  have hRead := decode_parseOptions hFirst
  rw [hParse, decode_parseOptions hSecond] at hRead
  exact ⟨hText, hOptions, (Except.ok.inj hRead).symm⟩

theorem Same.key_eq {first second : ValidCase} (h : first.Same second) :
    first.key = second.key := by
  rw [key, key, h.text, h.options, h.parseOptions]

end ValidCase

namespace InvalidCase

theorem isWhole_toJson {invalid : InvalidCase} (h : invalid.IsProper)
    (hEdition : IsSupported invalid.parseOptions)
    (hWhole : ∀ option ∈ invalid.options, option.IsWhole) : invalid.toJson.IsWhole := by
  obtain ⟨levels, hLevels⟩ := exists_forall_fits hWhole
  exact ⟨_, fits_toJson h hEdition fun option hOption =>
    (hLevels option hOption).mono (Nat.le_add_right levels 4)⟩

/-- What is written of a case can be read, so no other case is written like it. -/
theorem eq_of_toJson_eq {first second : InvalidCase} (hFirst : first.IsProper)
    (hSecond : second.IsProper) (hEdition : IsSupported first.parseOptions)
    (hOther : IsSupported second.parseOptions) (h : first.toJson = second.toJson) :
    first = second := by
  have hRead := decode_toJson hFirst hEdition
  rw [h, decode_toJson hSecond hOther] at hRead
  exact (Except.ok.inj hRead).symm

end InvalidCase

namespace TestCases

section

variable {cases : TestCases}

/-- The keys of valid cases tell apart what is not the same. -/
theorem key_eq_iff_same (h : cases.IsProper) (hEditions : cases.IsSupported)
    (hWhole : ∀ option ∈ cases.options, option.IsWhole) :
    ∀ a ∈ cases.valid, ∀ b ∈ cases.valid, a.key = b.key ↔ a.Same b := by
  rw [options, List.forall_mem_append] at hWhole
  have hKeys : ∀ one ∈ cases.valid, one.keyJson.IsWhole := by
    intro one hOne
    apply ValidCase.isWhole_keyJson (hEditions.valid one hOne)
    intro option hOption
    exact hWhole.1 option (List.mem_flatMap.mpr ⟨one, hOne, hOption⟩)
  intro a ha b hb
  constructor
  · intro hKey
    apply ValidCase.same_of_keyJson_eq (hEditions.valid a ha) (hEditions.valid b hb)
    exact eq_of_render_eq (hKeys a ha) (hKeys b hb) (ValidCase.isOrdered_keyJson (h.valid a ha))
      (ValidCase.isOrdered_keyJson (h.valid b hb)) hKey
  · exact ValidCase.Same.key_eq

/-- The keys of invalid cases tell all of them apart. -/
theorem key_eq_iff_eq (h : cases.IsProper) (hEditions : cases.IsSupported)
    (hWhole : ∀ option ∈ cases.options, option.IsWhole) :
    ∀ a ∈ cases.invalid, ∀ b ∈ cases.invalid, a.key = b.key ↔ a = b := by
  rw [options, List.forall_mem_append] at hWhole
  have hTexts : ∀ one ∈ cases.invalid, one.toJson.IsWhole := by
    intro one hOne
    apply InvalidCase.isWhole_toJson (h.invalid one hOne) (hEditions.invalid one hOne)
    intro option hOption
    exact hWhole.2 option (List.mem_flatMap.mpr ⟨one, hOne, hOption⟩)
  intro a ha b hb
  constructor
  · intro hKey
    apply InvalidCase.eq_of_toJson_eq (h.invalid a ha) (h.invalid b hb) (hEditions.invalid a ha)
      (hEditions.invalid b hb)
    exact eq_of_render_eq (hTexts a ha) (hTexts b hb)
      (InvalidCase.isOrdered_toJson (h.invalid a ha))
      (InvalidCase.isOrdered_toJson (h.invalid b hb)) hKey
  · exact congrArg InvalidCase.key

/-- What stands twice is the first valid case that is the same as one before it, or, if there is
none, the first invalid case that is equal to one before it. -/
theorem checkDuplicates_eq_error_iff
    (hValid : ∀ a ∈ cases.valid, ∀ b ∈ cases.valid, a.key = b.key ↔ a.Same b)
    (hInvalid : ∀ a ∈ cases.invalid, ∀ b ∈ cases.invalid, a.key = b.key ↔ a = b)
    {cause : ConformanceError} : checkDuplicates cases = .error cause ↔
      (∃ one, FirstRepeat ValidCase.Same cases.valid one ∧
        cause = .duplicateCase .valid one.text) ∨
      (cases.valid.Pairwise fun a b => ¬ a.Same b) ∧
        ∃ one, FirstRepeat Eq cases.invalid one ∧ cause = .duplicateCase .invalid one.code := by
  simp only [← firstRepeated?_eq_some_iff hValid, ← firstRepeated?_eq_none_iff hValid,
    ← firstRepeated?_eq_some_iff hInvalid, checkDuplicates]
  cases firstRepeated? ValidCase.key [] cases.valid with
  | some valid => simp [eq_comm]
  | none =>
      cases firstRepeated? InvalidCase.key [] cases.invalid with
      | some invalid => simp [eq_comm]
      | none => simp

end

/-- Test cases are read back as they were written, from the value and, as far as the reader goes
down, from the text. So nothing but what is there twice is found to stand twice: the first valid
case that is the same as one before it, in whatever form the two are written, and if there is none,
the first invalid case that is equal to one before it. -/
theorem decode_toJson_and_checkDuplicates_iff {cases : TestCases} (h : cases.IsProper)
    (hEditions : cases.IsSupported) (hWhole : ∀ option ∈ cases.options, option.IsWhole) :
    decode decoder cases.toJson = .ok cases ∧
    ((∀ option ∈ cases.options, option.Fits 123) →
      ofJsonText cases.toJson.render = .ok cases) ∧
    (∀ cause, checkDuplicates cases = .error cause ↔
      (∃ one, FirstRepeat ValidCase.Same cases.valid one ∧
        cause = .duplicateCase .valid one.text) ∨
      (cases.valid.Pairwise fun a b => ¬ a.Same b) ∧
        ∃ one, FirstRepeat Eq cases.invalid one ∧ cause = .duplicateCase .invalid one.code) ∧
    ((∃ code, checkDuplicates cases = .error (.duplicateCase .valid code)) ↔
      ∃ one other, [one, other].Sublist cases.valid ∧ one.Same other) ∧
    ((∃ code, checkDuplicates cases = .error (.duplicateCase .invalid code)) ↔
      (cases.valid.Pairwise fun a b => ¬ a.Same b) ∧ ¬ cases.invalid.Nodup) := by
  have hCauses := @checkDuplicates_eq_error_iff cases (key_eq_iff_same h hEditions hWhole)
    (key_eq_iff_eq h hEditions hWhole)
  refine ⟨decode_toJson h hEditions, ofJsonText_render h hEditions, fun cause => hCauses, ?_, ?_⟩
  · rw [← exists_firstRepeat_iff]
    simp [hCauses]
  · rw [List.Nodup, ← exists_firstRepeat_iff_not_pairwise]
    simp [hCauses]

/-- A valid case in both of its forms, and invalid cases that differ in what is said of the output
only. -/
theorem decode_toJson_and_checkDuplicates_iff_twice :
    let again : ValidCase := .detailed ⟨"a", [], none, some "again"⟩
    let invalid : InvalidCase :=
      { code := "b", options := [.array [.number (.negative 1)]], parseOptions := some ⟨2015⟩,
        errors := .list [{ data := some [("name", "a")], line := some 1 }], output := .unchanged }
    let cases : TestCases := ⟨[.code "a", again], [invalid, { invalid with output := .unstated }]⟩
    decode decoder cases.toJson = .ok cases ∧ ofJsonText cases.toJson.render = .ok cases ∧
      checkDuplicates cases = .error (.duplicateCase .valid "a") := by
  intro again invalid cases
  have hAlike : ∀ one ∈ cases.invalid, one.options = invalid.options ∧
      one.parseOptions = invalid.parseOptions ∧ one.errors = invalid.errors ∧
      one.passes = invalid.passes := by
    simp [cases]
  have hErrors : invalid.errors.IsProper := by
    simp only [invalid, ExpectedErrors.IsProper, List.forall_mem_cons]
    exact ⟨by constructor <;> simp [IsSorted], List.forall_mem_nil _⟩
  have hProper : cases.IsProper := by
    constructor
    · simp [cases, again, ValidCase.options]
    · intro one hOne
      obtain ⟨hOptions, -, hSame, hPasses⟩ := hAlike one hOne
      refine ⟨?_, hSame ▸ hErrors, hPasses ▸ by decide⟩
      rw [hOptions]
      simp [invalid, IsOrdered.array, IsOrdered.number]
  have hEditions : cases.IsSupported := by
    constructor
    · simp [cases, again, ValidCase.parseOptions, Conformance.IsSupported]
    · intro one hOne
      rw [(hAlike one hOne).2.1]
      simp [invalid, Conformance.IsSupported, ParseOptions.isSupported, ParseOptions.latest]
  have hFits : ∀ option ∈ cases.options, option.Fits 123 := by
    have hNested : ∀ option ∈ cases.options, option = .array [.number (.negative 1)] := by
      simp [cases, again, invalid, options, ValidCase.options]
    intro option hOption
    rw [hNested option hOption]
    apply Fits.array
    simp only [List.forall_mem_cons]
    exact ⟨.negative _ (by decide) (by decide), List.forall_mem_nil _⟩
  obtain ⟨hValue, hText, hCauses, -, -⟩ :=
    decode_toJson_and_checkDuplicates_iff hProper hEditions fun option hOption =>
      ⟨123, hFits option hOption⟩
  have hRepeat : FirstRepeat ValidCase.Same cases.valid again :=
    ⟨[.code "a"], [], rfl, ⟨_, List.mem_cons_self, rfl, rfl, rfl⟩, List.pairwise_singleton _ _⟩
  exact ⟨hValue, hText hFits, (hCauses _).mpr (.inl ⟨again, hRepeat, rfl⟩)⟩

end TestCases

end EcmaLint.Conformance
