import EcmaLint.Json.Decode
import EcmaLint.Json.Printer
import EcmaLint.Proofs.Json.Ordered

/-! Values read back from their own texts. A value that is nested no deeper than the reader goes,
with whole numbers of 64 bits, is what reading its text finds, and so decoding its text is decoding
the value. -/
namespace EcmaLint.Json

/-- The values whose texts can be read back: at most so many lists and objects stand in one another,
and every number is a whole one that is kept exactly. -/
inductive Fits : Nat → Json → Prop where
  | null (levels : Nat) : Fits levels .null
  | bool (levels : Nat) (value : Bool) : Fits levels (.bool value)
  | natural (levels : Nat) {value : Nat} (h : value ≤ Reader.largestNatural) :
      Fits levels (.number (.natural value))
  | negative (levels : Nat) {size : Nat} (hPos : 0 < size) (h : size ≤ Nat.pow 2 63) :
      Fits levels (.number (.negative size))
  | string (levels : Nat) (value : String) : Fits levels (.string value)
  | array {levels : Nat} {items : List Json} (h : ∀ item ∈ items, Fits levels item) :
      Fits (levels + 1) (.array items)
  | object {levels : Nat} {members : List (String × Json)}
      (h : ∀ member ∈ members, Fits levels member.2) : Fits (levels + 1) (.object members)

theorem Fits.ofMembers {levels : Nat} {members : List (String × Json)}
    (h : ∀ member ∈ members, member.2.Fits levels) : (ofMembers members).Fits (levels + 1) :=
  .object fun member hMember => h member (mem_of_mem_sortMembers hMember)

namespace Reader

theorem hexDigit?_digitChar : ∀ n < 16, Text.hexDigit? (Nat.digitChar n) = some n := by decide

/-- A control character is found again from its code. -/
theorem unicodeEscape_control {c : Char} (h : c.toNat < 0x20) (rest : List Char) :
    unicodeEscape ('0' :: '0' :: Nat.digitChar (c.toNat / 16) :: Nat.digitChar (c.toNat % 16) ::
      rest) = .ok (c, rest) := by
  have hZero : Text.hexDigit? '0' = some 0 := hexDigit?_digitChar 0 (by decide)
  have hCode : hexEscape ('0' :: '0' :: Nat.digitChar (c.toNat / 16) ::
      Nat.digitChar (c.toNat % 16) :: rest) = .ok (c.toNat, rest) := by
    have hSum : c.toNat / 16 * 16 + c.toNat % 16 = c.toNat := Nat.div_add_mod' _ _
    simp [hexEscape, Text.hexDigits?, hZero, hexDigit?_digitChar (c.toNat / 16) (by omega),
      hexDigit?_digitChar (c.toNat % 16) (by omega), hSum]
  have hLow : Text.isLowSurrogate c.toNat = false := by
    simp only [Text.isLowSurrogate, Bool.and_eq_false_iff, decide_eq_false_iff_not]
    omega
  have hHigh : Text.isHighSurrogate c.toNat = false := by
    simp only [Text.isHighSurrogate, Bool.and_eq_false_iff, decide_eq_false_iff_not]
    omega
  rw [unicodeEscape, hCode]
  simp [bind, Except.bind, pure, Except.pure, hLow, hHigh, Char.ofNat_toNat]

/-- One step reads what stands for one character. -/
theorem stringBody_escapedChar (fuel : Nat) (seen : List Char) (c : Char) (rest : List Char) :
    stringBody (fuel + 1) seen (escapedChar c ++ rest) = stringBody fuel (c :: seen) rest := by
  unfold escapedChar
  split
  case h_8 _ hQuote hBackslash _ _ _ _ _ =>
    split
    case isTrue hControl =>
      simp only [List.cons_append, List.nil_append, stringBody, escape,
        unicodeEscape_control hControl]
    case isFalse hPlain =>
      have hStep : stringBody (fuel + 1) seen (c :: rest) =
          if c.toNat < 0x20 then .error .controlCharacter
          else stringBody fuel (c :: seen) rest :=
        stringBody.eq_5 seen fuel c rest hQuote hBackslash
      rw [List.cons_append, List.nil_append, hStep, if_neg hPlain]
  all_goals rfl

theorem stringBody_flatMap {text : List Char} :
    ∀ {fuel : Nat} (seen rest : List Char), text.length < fuel →
      stringBody fuel seen (text.flatMap escapedChar ++ '"' :: rest) =
        .ok (String.ofList (seen.reverse ++ text), rest) := by
  induction text with
  | nil =>
      intro fuel seen rest hFuel
      obtain ⟨fuel, rfl⟩ := Nat.exists_eq_succ_of_ne_zero (by omega : fuel ≠ 0)
      simp [stringBody]
  | cons c text ih =>
      intro fuel seen rest hFuel
      obtain ⟨fuel, rfl⟩ := Nat.exists_eq_succ_of_ne_zero (by omega : fuel ≠ 0)
      rw [List.length_cons] at hFuel
      rw [List.flatMap_cons, List.append_assoc, stringBody_escapedChar, ih _ _ (by omega)]
      simp

theorem toList_renderString (text : String) :
    (renderString text).toList = '"' :: (text.toList.flatMap escapedChar ++ ['"']) :=
  String.toList_ofList

theorem length_le_flatMap_escapedChar (text : List Char) :
    text.length ≤ (text.flatMap escapedChar).length := by
  have hPos : ∀ c, 0 < (escapedChar c).length := by
    intro c
    unfold escapedChar
    split <;> first | simp | (split <;> simp)
  induction text with
  | nil => simp
  | cons c text ih =>
      have := hPos c
      simp only [List.flatMap_cons, List.length_cons, List.length_append]
      omega

/-- A string is read up to its closing quote. -/
theorem string_renderString (text : String) (rest : List Char) :
    string (text.toList.flatMap escapedChar ++ '"' :: rest) = .ok (text, rest) := by
  have hFuel : text.toList.length <
      (text.toList.flatMap escapedChar ++ '"' :: rest).length + 1 := by
    have := length_le_flatMap_escapedChar text.toList
    simp only [List.length_append]
    omega
  rw [string, stringBody_flatMap [] rest hFuel]
  simp

/-- What may stand behind a value: another one, or the end of what it is part of. -/
def Closes (rest : List Char) : Prop :=
  ∀ c ∈ rest.head?, c = ',' ∨ c = ']' ∨ c = '\x7d'

theorem Closes.head_not_isDigit {rest : List Char} (h : Closes rest) :
    ∀ c ∈ rest.head?, c.isDigit = false := by
  intro c hc
  rcases h c hc with rfl | rfl | rfl <;> rfl

theorem le_ofDigitChars (digits : List Char) (start : Nat) :
    start ≤ Nat.ofDigitChars 10 digits start := by
  induction digits generalizing start with
  | nil => exact Nat.le_refl _
  | cons c digits ih =>
      rw [Nat.ofDigitChars_cons]
      have := ih (10 * start + (c.toNat - '0'.toNat))
      omega

/-- All digits of a number that fits are kept. -/
theorem fittingDigits_append {digits rest : List Char} (hDigits : ∀ c ∈ digits, c.isDigit = true)
    (hRest : ∀ c ∈ rest.head?, c.isDigit = false) {start : Nat} (count : Nat)
    (hFits : Nat.ofDigitChars 10 digits start ≤ largestNatural) :
    fittingDigits start count (digits ++ rest) =
      (Nat.ofDigitChars 10 digits start, count + digits.length, rest) := by
  induction digits generalizing start count with
  | nil =>
      cases rest with
      | nil => rfl
      | cons c rest =>
          have hc : c.isDigit = false := hRest c rfl
          simp [fittingDigits, hc, Nat.ofDigitChars]
  | cons c digits ih =>
      obtain ⟨hc, hDigits⟩ := List.forall_mem_cons.mp hDigits
      rw [Nat.ofDigitChars_cons] at hFits ⊢
      have hNext : 10 * start + (c.toNat - '0'.toNat) ≤ largestNatural :=
        Nat.le_trans (le_ofDigitChars digits _) hFits
      rw [List.cons_append, fittingDigits, if_pos hc, Nat.mul_comm start 10]
      dsimp only
      rw [if_pos hNext, ih hDigits (count + 1) hFits, List.length_cons, Nat.add_assoc,
        Nat.add_comm 1]

theorem head?_toDigits_eq_zero {n : Nat} (h : (Nat.toDigits 10 n).head? = some '0') : n = 0 := by
  induction n using Nat.strongRecOn with
  | ind n ih =>
      by_cases hSmall : n < 10
      · rw [Nat.toDigits_of_lt_base hSmall] at h
        exact Nat.digitChar_eq_zero.mp (Option.some.inj h)
      · have hLarge : 10 ≤ n := Nat.le_of_not_lt hSmall
        have hHead : (Nat.toDigits 10 (n / 10)).head? = some '0' := by
          rw [Nat.toDigits_of_base_le (by decide) hLarge, List.head?_append] at h
          rwa [List.head?_eq_some_head Nat.toDigits_ne_nil] at h ⊢
        have hZero := ih (n / 10) (by omega) hHead
        omega

/-- A whole number of 64 bits is read digit by digit, up to what cannot belong to it. -/
theorem number_toDigits {n : Nat} (hFits : n ≤ largestNatural) (negative : Bool)
    {rest : List Char} (hRest : Closes rest) :
    number negative (Nat.toDigits 10 n ++ rest) =
      if !negative then .ok (.natural n, rest)
      else if n = 0 || Nat.pow 2 63 < n then .ok (.double (-Float.ofNat n), rest)
      else .ok (.negative n, rest) := by
  have hDigits : ∀ c ∈ Nat.toDigits 10 n, c.isDigit = true := fun c hc =>
    Nat.isDigit_of_mem_toDigits (by decide) (by decide) hc
  have hRead : fittingDigits 0 0 (Nat.toDigits 10 n ++ rest) =
      (n, (Nat.toDigits 10 n).length, rest) := by
    have hValue : Nat.ofDigitChars 10 (Nat.toDigits 10 n) 0 = n := Nat.ofDigitChars_ten_toDigits
    rw [fittingDigits_append hDigits hRest.head_not_isDigit 0 (by rwa [hValue]), hValue,
      Nat.zero_add]
  have hLeading : ∀ {c : Char} {digits : List Char}, Nat.toDigits 10 n = c :: digits →
      (c == '0' && (digits ++ rest).head?.any Char.isDigit) = false := by
    intro c digits hCons
    by_cases hZero : c = '0'
    · have hn : n = 0 := head?_toDigits_eq_zero (by rw [hCons, hZero]; rfl)
      subst hn
      obtain ⟨-, rfl⟩ := List.cons.inj hCons
      cases hHead : rest.head? with
      | none => simp [hHead]
      | some next => simp [hHead, hRest.head_not_isDigit next hHead]
    · simp [hZero]
  have hNoDigits : rest.takeWhile Char.isDigit = [] := by
    cases rest with
    | nil => rfl
    | cons c rest => simp [hRest.head_not_isDigit c rfl]
  cases hCons : Nat.toDigits 10 n with
  | nil => exact absurd hCons Nat.toDigits_ne_nil
  | cons c digits =>
      rw [hCons] at hRead hDigits
      have hc : c.isDigit = true := hDigits c List.mem_cons_self
      rw [List.cons_append] at hRead ⊢
      rw [number, hRead]
      simp only [hc, hLeading hCons, hNoDigits]
      cases rest with
      | nil => simp
      | cons next rest => rcases hRest next rfl with rfl | rfl | rfl <;> simp

theorem skipBlanks_cons {c : Char} (h : isBlank c = false) (cs : List Char) :
    skipBlanks (c :: cs) = c :: cs := by
  simp [skipBlanks, h]

theorem word_append (letters : List Char) (value : Document) (rest : List Char) :
    word letters value (letters ++ rest) = ⟨value, some rest⟩ := by
  induction letters with
  | nil => rfl
  | cons letter letters ih => rw [List.cons_append, word, if_pos rfl, ih]

/-- A text that can begin a value: no blank, and no end of a list. -/
def Opens (text : List Char) : Prop := ∃ c cs, text = c :: cs ∧ isBlank c = false ∧ c ≠ ']'

theorem Opens.append {text : List Char} (h : Opens text) (rest : List Char) :
    Opens (text ++ rest) := by
  obtain ⟨c, cs, rfl, hOpens⟩ := h
  exact ⟨c, cs ++ rest, rfl, hOpens⟩

theorem Opens.length_pos {text : List Char} (h : Opens text) : 0 < text.length := by
  obtain ⟨c, cs, rfl, -⟩ := h
  exact Nat.succ_pos _

/-- The text of an item or a member, which stands behind a comma unless it is the first one. -/
def lead (first : Bool) (text : List Char) : List Char := if first then text else ',' :: text

theorem nextItem_lead (first : Bool) {text : List Char} (h : Opens text) :
    nextItem first (lead first text) = .ok (some text) := by
  obtain ⟨c, cs, rfl, hBlank, hEnd⟩ := h
  cases first with
  | true =>
      rw [lead, if_pos rfl, nextItem, skipBlanks_cons hBlank]
      split <;> simp_all
  | false =>
      have hComma : skipBlanks (',' :: c :: cs) = ',' :: c :: cs := skipBlanks_cons (by decide) _
      have hItem : skipBlanks (c :: cs) = c :: cs := skipBlanks_cons hBlank cs
      simp [lead, nextItem, hComma, hItem, hEnd]

theorem nextMember_lead (first : Bool) (cs : List Char) :
    nextMember first (lead first ('"' :: cs)) = .ok (some cs) := by
  cases first <;> rfl

/-- The reader finds a value in its own text, given enough steps and levels. -/
def Finds (levels : Nat) (json : Json) : Prop :=
  ∀ (fuel depth : Nat) (rest : List Char), json.render.toList.length ≤ fuel → levels < depth →
    Closes rest → value fuel depth (json.render.toList ++ rest) = ⟨.ofJson json, some rest⟩

theorem isDigit_head_toDigits {n : Nat} {c : Char} {digits : List Char}
    (h : Nat.toDigits 10 n = c :: digits) : c.isDigit = true :=
  Nat.isDigit_of_mem_toDigits (by decide) (by decide) (h ▸ List.mem_cons_self)

theorem opens_of_isDigit {c : Char} (h : c.isDigit = true) (cs : List Char) : Opens (c :: cs) := by
  refine ⟨c, cs, rfl, ?_, ?_⟩
  · rw [Bool.eq_false_iff]
    intro hBlank
    simp only [isBlank, Bool.or_eq_true, beq_iff_eq] at hBlank
    rcases hBlank with ((rfl | rfl) | rfl) | rfl <;> exact absurd h (by decide)
  · rintro rfl
    exact absurd h (by decide)

/-- Whatever fits begins in a way of its own. -/
theorem opens_render {levels : Nat} {json : Json} (h : Fits levels json) :
    Opens json.render.toList := by
  cases h with
  | null => exact ⟨'n', "ull".toList, rfl, by decide⟩
  | bool levels value =>
      cases value with
      | true => exact ⟨'t', "rue".toList, rfl, by decide⟩
      | false => exact ⟨'f', "alse".toList, rfl, by decide⟩
  | @natural _ value =>
      rw [render, Number.render, Nat.toString_eq_ofList_toDigits, String.toList_ofList]
      cases hCons : Nat.toDigits 10 value with
      | nil => exact absurd hCons Nat.toDigits_ne_nil
      | cons c digits => exact opens_of_isDigit (isDigit_head_toDigits hCons) digits
  | negative =>
      rw [render, Number.render, String.toList_append]
      exact ⟨'-', _, rfl, by decide⟩
  | string levels value =>
      rw [render, toList_renderString]
      exact ⟨'"', _, rfl, by decide⟩
  | array =>
      rw [render, String.toList_append, String.toList_append]
      exact ⟨'[', _, rfl, by decide⟩
  | object =>
      rw [render, String.toList_append, String.toList_append]
      exact ⟨'\x7b', _, rfl, by decide⟩

theorem items_end (fuel depth : Nat) (first : Bool) (rest : List Char) :
    items (fuel + 1) depth first (']' :: rest) = ⟨([], none), some rest⟩ := by
  cases first <;> rfl

theorem members_end (fuel depth : Nat) (first : Bool) (rest : List Char) :
    members (fuel + 1) depth first ('\x7d' :: rest) = ⟨([], none), some rest⟩ := by
  cases first <;> rfl

theorem toList_renderItems_cons (item next : Json) (later : List Json) :
    (renderItems (item :: next :: later)).toList =
      item.render.toList ++ lead false (renderItems (next :: later)).toList := by
  rw [renderItems]
  · simp [lead]
  · simp

theorem toList_renderMembers_cons (member next : String × Json) (later : List (String × Json)) :
    (renderMembers (member :: next :: later)).toList =
      (renderMembers [member]).toList ++ lead false (renderMembers (next :: later)).toList := by
  rw [renderMembers, renderMembers]
  · simp [lead]
  · simp

theorem lead_append (first : Bool) (text rest : List Char) :
    lead first text ++ rest = lead first (text ++ rest) := by
  cases first <;> rfl

theorem closes_lead (text : List Char) : Closes (lead false text) := by
  simp [Closes, lead]

/-- One item is read off its own text, and then what stands behind it. -/
theorem items_lead {levels fuel depth : Nat} {item : Json} {more : List Char} (first : Bool)
    (hFits : Fits levels item) (hFinds : Finds levels item) (hDepth : levels < depth)
    (hFuel : item.render.toList.length ≤ fuel) (hMore : Closes more) :
    items (fuel + 1) depth first (lead first (item.render.toList ++ more)) =
      ⟨(.ofJson item :: (items fuel depth false more).result.1,
        (items fuel depth false more).result.2), (items fuel depth false more).rest⟩ := by
  rw [items, nextItem_lead first ((opens_render hFits).append more)]
  dsimp only
  rw [hFinds fuel depth more hFuel hDepth hMore]

/-- One member is read off its own text, and then what stands behind it. -/
theorem members_lead {levels fuel depth : Nat} {name : String} {json : Json} {more : List Char}
    (first : Bool) (hFinds : Finds levels json) (hDepth : levels < depth)
    (hFuel : json.render.toList.length ≤ fuel) (hMore : Closes more) :
    members (fuel + 1) depth first (lead first ((renderMembers [(name, json)]).toList ++ more)) =
      ⟨((name, .ofJson json) :: (members fuel depth false more).result.1,
        (members fuel depth false more).result.2), (members fuel depth false more).rest⟩ := by
  have hText : (renderMembers [(name, json)]).toList ++ more =
      '"' :: (name.toList.flatMap escapedChar ++ '"' :: ':' :: (json.render.toList ++ more)) := by
    simp [renderMembers, toList_renderString]
  have hColon : ∀ cs, afterColon (':' :: cs) = .ok cs := fun cs => rfl
  rw [hText, members, nextMember_lead]
  dsimp only
  rw [string_renderString]
  dsimp only
  rw [hColon]
  dsimp only
  rw [hFinds fuel depth more hFuel hDepth hMore]

/-- The items of a list are found one by one. -/
theorem items_renderItems {levels depth : Nat} (hDepth : levels < depth) (rest : List Char)
    {later : List Json} :
    ∀ {item : Json} {first : Bool} {fuel : Nat},
      (∀ other ∈ item :: later, Fits levels other ∧ Finds levels other) →
      (renderItems (item :: later)).toList.length < fuel →
      items fuel depth first (lead first ((renderItems (item :: later)).toList ++ ']' :: rest)) =
        ⟨(Document.ofItems (item :: later), none), some rest⟩ := by
  induction later with
  | nil =>
      intro item first fuel h hFuel
      obtain ⟨hFits, hFinds⟩ := h item List.mem_cons_self
      have hLength := (opens_render hFits).length_pos
      rw [renderItems] at hFuel ⊢
      obtain ⟨fuel, rfl⟩ := Nat.exists_eq_add_of_le' (by omega : 2 ≤ fuel)
      rw [items_lead first hFits hFinds hDepth (by omega) (by simp [Closes]), items_end]
      rfl
  | cons next later ih =>
      intro item first fuel h hFuel
      obtain ⟨⟨hFits, hFinds⟩, hLater⟩ := List.forall_mem_cons.mp h
      obtain ⟨fuel, rfl⟩ := Nat.exists_eq_succ_of_ne_zero (by omega : fuel ≠ 0)
      rw [toList_renderItems_cons] at hFuel ⊢
      rw [List.length_append, lead, if_neg Bool.false_ne_true, List.length_cons] at hFuel
      rw [List.append_assoc, lead_append, items_lead first hFits hFinds hDepth (by omega)
        (closes_lead _), ih hLater (by omega)]
      rfl

/-- The members of an object are found one by one. -/
theorem members_renderMembers {levels depth : Nat} (hDepth : levels < depth) (rest : List Char)
    {later : List (String × Json)} :
    ∀ {member : String × Json} {first : Bool} {fuel : Nat},
      (∀ other ∈ member :: later, Finds levels other.2) →
      (renderMembers (member :: later)).toList.length < fuel →
      members fuel depth first
          (lead first ((renderMembers (member :: later)).toList ++ '\x7d' :: rest)) =
        ⟨(Document.ofMembers (member :: later), none), some rest⟩ := by
  have hMember : ∀ (name : String) (json : Json), json.render.toList.length + 1 ≤
      (renderMembers [(name, json)]).toList.length := fun name json => by
    have hColon : (":" : String).toList.length = 1 := rfl
    simp only [renderMembers, String.toList_append, List.length_append, hColon]
    omega
  induction later with
  | nil =>
      intro (name, json) first fuel h hFuel
      have hFinds : Finds levels json := h _ List.mem_cons_self
      have hLength := hMember name json
      obtain ⟨fuel, rfl⟩ := Nat.exists_eq_add_of_le' (by omega : 2 ≤ fuel)
      rw [members_lead first hFinds hDepth (by omega) (by simp [Closes]), members_end]
      rfl
  | cons next later ih =>
      intro (name, json) first fuel h hFuel
      have hFinds : Finds levels json := h _ List.mem_cons_self
      have hLater : ∀ other ∈ next :: later, Finds levels other.2 := fun other hOther =>
        h other (List.mem_cons_of_mem _ hOther)
      have hLength := hMember name json
      obtain ⟨fuel, rfl⟩ := Nat.exists_eq_succ_of_ne_zero (by omega : fuel ≠ 0)
      rw [toList_renderMembers_cons] at hFuel ⊢
      rw [List.length_append, lead, if_neg Bool.false_ne_true, List.length_cons] at hFuel
      rw [List.append_assoc, lead_append, members_lead first hFinds hDepth (by omega)
        (closes_lead _), ih hLater (by omega)]
      rfl

theorem value_of_isDigit {c : Char} (h : c.isDigit = true) (fuel depth : Nat) (cs : List Char) :
    value (fuel + 1) depth (c :: cs) = scalar .number (number false (c :: cs)) := by
  obtain ⟨_, _, hCons, hBlank, -⟩ := opens_of_isDigit h cs
  obtain ⟨rfl, rfl⟩ := List.cons.inj hCons
  have hOther : ∀ other : Char, other.isDigit = false → c ≠ other := by
    rintro other hOther rfl
    exact absurd h (by simp [hOther])
  rw [value, skipBlanks_cons hBlank]
  split <;> simp_all

/-- Reading a value takes one step and those for what stands in it. -/
theorem finds_of_step {levels : Nat} {json : Json} (hFits : Fits levels json)
    (h : ∀ (fuel depth : Nat) (rest : List Char), json.render.toList.length ≤ fuel + 1 →
      levels < depth → Closes rest →
      value (fuel + 1) depth (json.render.toList ++ rest) = ⟨.ofJson json, some rest⟩) :
    Finds levels json := by
  have hPos := (opens_render hFits).length_pos
  intro fuel depth rest hFuel
  obtain ⟨fuel, rfl⟩ := Nat.exists_eq_succ_of_ne_zero (by omega : fuel ≠ 0)
  exact h fuel depth rest hFuel

theorem value_natural {n : Nat} (h : n ≤ largestNatural) (fuel depth : Nat) {rest : List Char}
    (hRest : Closes rest) :
    value (fuel + 1) depth ((toString n).toList ++ rest) =
      ⟨.number (.natural n), some rest⟩ := by
  have hRead := number_toDigits h false hRest
  rw [Nat.toString_eq_ofList_toDigits, String.toList_ofList]
  cases hCons : Nat.toDigits 10 n with
  | nil => exact absurd hCons Nat.toDigits_ne_nil
  | cons c digits =>
      rw [hCons, List.cons_append] at hRead
      rw [List.cons_append, value_of_isDigit (isDigit_head_toDigits hCons), hRead]
      rfl

theorem value_negative {size : Nat} (hPos : 0 < size) (hSize : size ≤ Nat.pow 2 63)
    (fuel depth : Nat) {rest : List Char} (hRest : Closes rest) :
    value (fuel + 1) depth ('-' :: ((toString size).toList ++ rest)) =
      ⟨.number (.negative size), some rest⟩ := by
  have hLarge : size ≤ largestNatural := Nat.le_trans hSize (by decide)
  have hKept : ¬(size = 0 || Nat.pow 2 63 < size) = true := by
    simp only [Bool.or_eq_true, decide_eq_true_eq]
    omega
  have hRead := number_toDigits hLarge true hRest
  rw [Bool.not_true, if_neg Bool.false_ne_true, if_neg hKept] at hRead
  rw [Nat.toString_eq_ofList_toDigits, String.toList_ofList, value, skipBlanks_cons (by decide)]
  exact congrArg (scalar .number) hRead

theorem value_bracket {fuel depth : Nat} (hDepth : 1 < depth) (cs : List Char) :
    value (fuel + 1) depth ('[' :: cs) =
      ⟨.array (items fuel (depth - 1) true cs).result.1 (items fuel (depth - 1) true cs).result.2,
        (items fuel (depth - 1) true cs).rest⟩ :=
  if_neg (Nat.not_le_of_lt hDepth)

theorem value_brace {fuel depth : Nat} (hDepth : 1 < depth) (cs : List Char) :
    value (fuel + 1) depth ('\x7b' :: cs) =
      ⟨.object (members fuel (depth - 1) true cs).result.1
          (members fuel (depth - 1) true cs).result.2,
        (members fuel (depth - 1) true cs).rest⟩ :=
  if_neg (Nat.not_le_of_lt hDepth)

theorem value_array {levels fuel depth : Nat} {list : List Json}
    (h : ∀ item ∈ list, Fits levels item ∧ Finds levels item) (hDepth : levels + 1 < depth)
    (hFuel : (renderItems list).toList.length < fuel) (rest : List Char) :
    value (fuel + 1) depth ('[' :: ((renderItems list).toList ++ ']' :: rest)) =
      ⟨.array (Document.ofItems list) none, some rest⟩ := by
  rw [value_bracket (by omega)]
  cases list with
  | nil =>
      obtain ⟨fuel, rfl⟩ := Nat.exists_eq_succ_of_ne_zero (by omega : fuel ≠ 0)
      rw [renderItems, String.toList_empty, List.nil_append, items_end]
      rfl
  | cons item later =>
      have hRead :=
        @items_renderItems levels (depth - 1) (by omega) rest later item true fuel h hFuel
      rw [lead, if_pos rfl] at hRead
      rw [hRead]

theorem value_object {levels fuel depth : Nat} {list : List (String × Json)}
    (h : ∀ member ∈ list, Finds levels member.2) (hDepth : levels + 1 < depth)
    (hFuel : (renderMembers list).toList.length < fuel) (rest : List Char) :
    value (fuel + 1) depth ('\x7b' :: ((renderMembers list).toList ++ '\x7d' :: rest)) =
      ⟨.object (Document.ofMembers list) none, some rest⟩ := by
  rw [value_brace (by omega)]
  cases list with
  | nil =>
      obtain ⟨fuel, rfl⟩ := Nat.exists_eq_succ_of_ne_zero (by omega : fuel ≠ 0)
      rw [renderMembers, String.toList_empty, List.nil_append, members_end]
      rfl
  | cons member later =>
      have hRead :=
        @members_renderMembers levels (depth - 1) (by omega) rest later member true fuel h hFuel
      rw [lead, if_pos rfl] at hRead
      rw [hRead]

/-- Every value that fits is found in its own text. -/
theorem finds_of_fits {levels : Nat} {json : Json} (h : Fits levels json) : Finds levels json := by
  induction h with
  | null levels =>
      exact finds_of_step (.null levels) fun fuel depth rest _ _ _ =>
        word_append "ull".toList .null rest
  | bool levels value =>
      refine finds_of_step (.bool levels value) fun fuel depth rest _ _ _ => ?_
      cases value with
      | true => exact word_append "rue".toList (.bool true) rest
      | false => exact word_append "alse".toList (.bool false) rest
  | natural levels hValue =>
      exact finds_of_step (.natural levels hValue) fun fuel depth rest _ _ hRest =>
        value_natural hValue fuel depth hRest
  | negative levels hPos hSize =>
      refine finds_of_step (.negative levels hPos hSize) fun fuel depth rest _ _ hRest => ?_
      rw [render, Number.render, String.toList_append, List.append_assoc]
      exact value_negative hPos hSize fuel depth hRest
  | string levels text =>
      refine finds_of_step (.string levels text) fun fuel depth rest _ _ _ => ?_
      rw [render, toList_renderString, List.cons_append, List.append_assoc, value,
        skipBlanks_cons (by decide)]
      exact congrArg (scalar .string) (string_renderString text rest)
  | @array levels list h ih =>
      refine finds_of_step (.array h) fun fuel depth rest hFuel hDepth _ => ?_
      have hText : (Json.array list).render.toList =
          '[' :: ((renderItems list).toList ++ [']']) := by
        simp [render]
      rw [hText] at hFuel ⊢
      rw [List.cons_append, List.append_assoc]
      refine value_array (fun item hItem => ⟨h item hItem, ih item hItem⟩) hDepth ?_ rest
      simp only [List.length_cons, List.length_append, List.length_nil] at hFuel
      omega
  | @object levels list h ih =>
      refine finds_of_step (.object h) fun fuel depth rest hFuel hDepth _ => ?_
      have hText : (Json.object list).render.toList =
          '\x7b' :: ((renderMembers list).toList ++ ['\x7d']) := by
        simp [render]
      rw [hText] at hFuel ⊢
      rw [List.cons_append, List.append_assoc]
      refine value_object ih hDepth ?_ rest
      simp only [List.length_cons, List.length_append, List.length_nil] at hFuel
      omega

end Reader

theorem Fits.mono {json : Json} {levels more : Nat} (h : Fits levels json) (hMore : levels ≤ more) :
    Fits more json := by
  induction h generalizing more with
  | null => exact .null more
  | bool _ value => exact .bool more value
  | natural _ hValue => exact .natural more hValue
  | negative _ hPos hSize => exact .negative more hPos hSize
  | string _ value => exact .string more value
  | array _ ih =>
      obtain ⟨deeper, rfl⟩ := Nat.exists_eq_add_of_le' (Nat.le_trans (Nat.le_add_left 1 _) hMore)
      exact .array fun item hItem => ih item hItem (Nat.le_of_succ_le_succ hMore)
  | object _ ih =>
      obtain ⟨deeper, rfl⟩ := Nat.exists_eq_add_of_le' (Nat.le_trans (Nat.le_add_left 1 _) hMore)
      exact .object fun member hMember => ih member hMember (Nat.le_of_succ_le_succ hMore)

/-- Every number in a value is a whole one that is kept exactly, however deep it stands. -/
def IsWhole (json : Json) : Prop := ∃ levels, Fits levels json

/-- Whole values all fit at the level of the deepest one. -/
theorem exists_forall_fits {items : List Json} (h : ∀ item ∈ items, item.IsWhole) :
    ∃ levels, ∀ item ∈ items, Fits levels item := by
  induction items with
  | nil => exact ⟨0, nofun⟩
  | cons first rest ih =>
      obtain ⟨hFirst, hRest⟩ := List.forall_mem_cons.mp h
      obtain ⟨own, hOwn⟩ := hFirst
      obtain ⟨levels, hLevels⟩ := ih hRest
      refine ⟨max own levels, List.forall_mem_cons.mpr ⟨hOwn.mono (Nat.le_max_left _ _), ?_⟩⟩
      exact fun item hItem => (hLevels item hItem).mono (Nat.le_max_right _ _)

/-- No two values have the same text, however deep they are: a reader that goes down far enough
finds both of them in it. -/
theorem eq_of_render_eq {first second : Json} (hFirst : first.IsWhole) (hSecond : second.IsWhole)
    (hOrdered : first.IsOrdered) (hOther : second.IsOrdered) (h : first.render = second.render) :
    first = second := by
  obtain ⟨levels, hFirst⟩ := hFirst
  obtain ⟨others, hSecond⟩ := hSecond
  have hRead := Reader.finds_of_fits hFirst _ (levels + others + 1) [] (Nat.le_refl _) (by omega)
    (by simp [Reader.Closes])
  have hReread := Reader.finds_of_fits hSecond _ (levels + others + 1) [] (Nat.le_refl _) (by omega)
    (by simp [Reader.Closes])
  rw [← h, hRead] at hReread
  have hDocument : Document.ofJson first = .ofJson second := congrArg Reader.Reading.result hReread
  have hValue := Document.toJson_ofJson hOrdered
  rw [hDocument, Document.toJson_ofJson hOther] at hValue
  exact (Except.ok.inj hValue).symm

/-- The levels of nesting that the reader goes down. -/
theorem readText_render {json : Json} (h : Fits 127 json) :
    readText json.render = ⟨.ofJson json, none⟩ := by
  have hRead := Reader.finds_of_fits h (2 * json.render.toList.length + 2) Reader.deepest []
    (by omega) (by decide) (by simp [Reader.Closes])
  rw [List.append_nil] at hRead
  simp only [readText, hRead]
  rfl

/-- Decoding the text of a value is decoding the value. -/
theorem decodeText_render {α : Type} (decoder : Decoder α) {json : Json} (h : Fits 127 json) :
    decodeText decoder json.render = decode decoder json := by
  simp only [decodeText, readText_render h, decode]
  cases decoder (.ofJson json) <;> rfl

end EcmaLint.Json
