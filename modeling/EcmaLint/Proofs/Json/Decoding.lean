import Mathlib.Data.List.Nodup
import EcmaLint.Proofs.Json.Ordered
import EcmaLint.Proofs.Json.Reading

/-! What decoders read back. There is one law for each way of making a decoder: if its parts read
back the values that a JSON value was written from, then so does the whole.

Records whose fields may be left out. A record is written from its fields in any order, those
without a value do not show, and the members come in the order of their names. A reader that takes
each field as it comes, and leaves the others as they were, finds every field again.

What decoders give. What holds of all that its parts give holds of what a decoder gives,
whatever the document is like. There is one law for each way of making a decoder. -/
namespace EcmaLint.Json

section

variable {α σ : Type}

theorem decode_string (text : String) : decode Decoder.string (.string text) = .ok text := rfl

/-- The decoder for any value reads a value in order as it is. -/
theorem decode_value {json : Json} (h : json.IsOrdered) : decode Decoder.value json = .ok json := by
  rw [decode, Decoder.value, Document.toJson_ofJson h]
  rfl

theorem decode_optional {decoder : Decoder α} {json : Json} {result : α} (hSome : json ≠ .null)
    (h : decode decoder json = .ok result) :
    decode (Decoder.optional decoder) json = .ok (some result) := by
  rw [decode] at h
  cases json with
  | null => exact absurd rfl hSome
  | bool | number | string | array | object =>
      rw [decode, Document.ofJson, Decoder.optional, ← Document.ofJson, h]
      · rfl
      · exact fun hNull => by cases hNull

/-- Items are read one by one. -/
theorem items_ofItems {decoder : Decoder α} {write : α → Json} {list : List α}
    (h : ∀ a ∈ list, decode decoder (write a) = .ok a) :
    Decoder.items decoder (Document.ofItems (list.map write)) = .ok list := by
  induction list with
  | nil => rfl
  | cons first rest ih =>
      obtain ⟨hFirst, hRest⟩ := List.forall_mem_cons.mp h
      rw [decode] at hFirst
      rw [List.map_cons, Document.ofItems, Decoder.items, hFirst, ih hRest]
      rfl

theorem decode_list {decoder : Decoder α} {write : α → Json} {values : List α}
    (h : ∀ a ∈ values, decode decoder (write a) = .ok a) :
    decode (Decoder.list decoder) (.array (values.map write)) = .ok values := by
  rw [decode, Document.ofJson, Decoder.list, items_ofItems h]
  rfl

/-- The members of a map are read one by one, behind those that were read before. -/
theorem foldMembers_insertMember {decoder : Decoder α} {write : α → Json}
    {entries seen : List (String × α)}
    (hSorted : (seen ++ entries).Pairwise fun a b => a.1 < b.1)
    (h : ∀ entry ∈ entries, decode decoder (write entry.2) = .ok entry.2) :
    Decoder.foldMembers (fun seen name document => do
        return insertMember name (← decoder document) seen) seen
      (Document.ofMembers (entries.map fun (name, a) => (name, write a))) =
        .ok (seen ++ entries) := by
  induction entries generalizing seen with
  | nil =>
      rw [List.append_nil]
      rfl
  | cons entry rest ih =>
      obtain ⟨name, a⟩ := entry
      obtain ⟨hEntry, hRest⟩ := List.forall_mem_cons.mp h
      have hBefore : ∀ other ∈ seen, other.1 < name := fun other hOther =>
        (List.pairwise_append.mp hSorted).2.2 other hOther (name, a) List.mem_cons_self
      rw [decode] at hEntry
      rw [List.map_cons, Document.ofMembers, Decoder.foldMembers, hEntry]
      simp only [bind, Except.bind, pure, Except.pure]
      rw [insertMember_of_forall_lt hBefore]
      have hNext := @ih (seen ++ [(name, a)]) (by simpa using hSorted) hRest
      simpa [bind, Except.bind, pure, Except.pure] using hNext

theorem decode_map {decoder : Decoder α} {write : α → Json} {entries : List (String × α)}
    (hSorted : entries.Pairwise fun a b => a.1 < b.1)
    (h : ∀ entry ∈ entries, decode decoder (write entry.2) = .ok entry.2) :
    decode (Decoder.map decoder) (.object (entries.map fun (name, a) => (name, write a))) =
      .ok entries := by
  rw [decode, Document.ofJson, Decoder.map, foldMembers_insertMember (by simpa using hSorted) h]
  rfl

/-- Of several forms the first one counts that fits. -/
theorem decode_firstOf {type : String} {refused rest : List (Decoder α)} {form : Decoder α}
    {json : Json} {result : α} (hOrdered : json.IsOrdered)
    (hRefused : ∀ other ∈ refused, (decode other json).toOption = none)
    (h : decode form json = .ok result) :
    decode (Decoder.firstOf type (refused ++ form :: rest)) json = .ok result := by
  have hNone : refused.findSome? (fun other => (other (.ofJson json)).toOption) = none :=
    List.findSome?_eq_none_iff.mpr hRefused
  have hForm : (form (.ofJson json)).toOption = some result := by
    rw [decode] at h
    rw [h]
    rfl
  rw [decode, Decoder.firstOf, Decoder.value, Document.toJson_ofJson hOrdered,
    List.findSome?_append, hNone, Option.none_or, List.findSome?_cons, hForm]
  rfl

/-- A record that is written as an object is read member by member. -/
theorem decode_record_object {type : String} {start state : σ}
    {step : σ → String → Document → Except DecodeError σ} {finish : σ → Except DecodeError α}
    {fromItems : List Document → Option Fault → Except DecodeError (α × List Document)}
    {members : List (String × Json)}
    (h : Decoder.foldMembers step start (Document.ofMembers members) = .ok state) :
    decode (Decoder.record type start step finish fromItems) (.object members) = finish state := by
  rw [decode, Document.ofJson, Decoder.record, h]
  rfl

end

/-- The members for fields, of which those without a value are left out. -/
def written (fields : List (String × Option Json)) : List (String × Json) :=
  fields.flatMap fun field => optionalMember field.1 field.2

/-- What holds of all values of the fields holds of all members. -/
theorem forall_mem_written {P : Json → Prop} {fields : List (String × Option Json)}
    (h : ∀ field ∈ fields, ∀ json ∈ field.2, P json) : ∀ member ∈ written fields, P member.2 := by
  intro member hMember
  obtain ⟨⟨name, value⟩, hField, hMember⟩ := List.mem_flatMap.mp hMember
  rw [optionalMember, Option.mem_toList, Option.map_eq_some_iff] at hMember
  obtain ⟨json, hJson, rfl⟩ := hMember
  exact h (name, value) hField json hJson

theorem forall_mem_map {α : Type} {P : Json → Prop} {write : α → Json} {value : Option α}
    (h : ∀ a ∈ value, P (write a)) : ∀ json ∈ value.map write, P json := by
  intro json hJson
  obtain ⟨a, hValue, rfl⟩ := Option.map_eq_some_iff.mp hJson
  exact h a hValue

theorem isOrdered_written {fields : List (String × Option Json)}
    (h : ∀ field ∈ fields, ∀ json ∈ field.2, json.IsOrdered) :
    (ofMembers (written fields)).IsOrdered :=
  isOrdered_ofMembers (forall_mem_written h)

theorem fits_written {fields : List (String × Option Json)} {levels : Nat}
    (h : ∀ field ∈ fields, ∀ json ∈ field.2, json.Fits levels) :
    (ofMembers (written fields)).Fits (levels + 1) :=
  .ofMembers (forall_mem_written h)

section

variable {α : Type} {members : List (String × α)}

theorem insertMember_perm {name : String} {value : α} (h : name ∉ members.map Prod.fst) :
    (insertMember name value members).Perm ((name, value) :: members) := by
  induction members with
  | nil => exact List.Perm.refl _
  | cons first rest ih =>
      obtain ⟨other, old⟩ := first
      rw [List.map_cons, List.mem_cons, not_or] at h
      rw [insertMember]
      by_cases hBefore : name < other
      · rw [if_pos hBefore]
      · rw [if_neg hBefore, if_neg h.1]
        exact ((ih h.2).cons _).trans (.swap _ _ _)

/-- Sorting members with different names does no more than to reorder them. -/
theorem sortMembers_perm (h : (members.map Prod.fst).Nodup) :
    (sortMembers members).Perm members := by
  have hFold : ∀ rest sorted : List (String × α), ((rest ++ sorted).map Prod.fst).Nodup →
      (rest.foldl (fun sorted (name, value) => insertMember name value sorted) sorted).Perm
        (rest ++ sorted) := by
    intro rest
    induction rest with
    | nil => exact fun sorted _ => List.Perm.refl _
    | cons first rest ih =>
        intro sorted hNodup
        obtain ⟨name, value⟩ := first
        rw [List.cons_append, List.map_cons, List.nodup_cons, List.map_append,
          List.mem_append, not_or] at hNodup
        have hInsert : (insertMember name value sorted).Perm ((name, value) :: sorted) :=
          insertMember_perm hNodup.1.2
        have hMoved : (rest ++ insertMember name value sorted).Perm
            ((name, value) :: (rest ++ sorted)) :=
          (hInsert.append_left rest).trans List.perm_middle
        apply (ih _ _).trans hMoved
        rw [(hMoved.map Prod.fst).nodup_iff, List.map_cons, List.nodup_cons, List.map_append,
          List.mem_append, not_or]
        exact hNodup
  have hAll := hFold members [] (by rwa [List.append_nil])
  rwa [List.append_nil] at hAll

/-- There is one order in which members with different names are sorted. -/
theorem sortMembers_eq_of_perm {sorted : List (String × α)} (hPerm : members.Perm sorted)
    (hSorted : sorted.Pairwise fun a b => a.1 < b.1) : sortMembers members = sorted := by
  have hNames : (sorted.map Prod.fst).Nodup :=
    List.pairwise_map.mpr (hSorted.imp fun {a b} (hLess : a.1 < b.1) (hEq : a.1 = b.1) =>
      String.lt_irrefl b.1 (hEq ▸ hLess))
  have hSame : (sortMembers members).Perm sorted :=
    (sortMembers_perm ((hPerm.map Prod.fst).nodup_iff.mpr hNames)).trans hPerm
  apply hSame.eq_of_pairwise _ (pairwise_sortMembers members) hSorted
  intro a b _ _ hLess hGreater
  exact absurd hGreater (String.lt_asymm hLess)

end

/-- Members in the order of their fields are in order. -/
theorem pairwise_written {fields : List (String × Option Json)}
    (h : fields.Pairwise fun a b => a.1 < b.1) :
    (written fields).Pairwise fun a b => a.1 < b.1 := by
  apply List.pairwise_flatMap.mpr
  constructor
  · rintro ⟨name, value⟩ -
    cases value with
    | none => exact List.Pairwise.nil
    | some json => exact List.pairwise_singleton _ _
  · apply h.imp
    rintro ⟨name, value⟩ ⟨other, later⟩ hLess member hMember next hNext
    simp only [optionalMember, Option.mem_toList, Option.map_eq_some_iff] at hMember hNext
    obtain ⟨_, -, rfl⟩ := hMember
    obtain ⟨_, -, rfl⟩ := hNext
    exact hLess

/-- A record has its members in the order of their names. -/
theorem ofMembers_written {fields : List (String × Option Json)}
    (hNames : (fields.map Prod.fst).Nodup) :
    ofMembers (written fields) = .object (written (sortMembers fields)) := by
  apply congrArg Json.object
  apply sortMembers_eq_of_perm
  · exact (sortMembers_perm hNames).symm.flatMap_right _
  · exact pairwise_written (pairwise_sortMembers fields)

section

variable {σ α : Type} {step : σ → String → Document → Except DecodeError σ} {state result : σ}
  {decoder : Decoder α} {name : String}

/-- A field that is there is read, and then the others are. -/
theorem foldMembers_member (set : σ → Option α → σ) {value : α} {json : Json}
    {fields : List (String × Option Json)}
    (hStep : ∀ document, step state name document = (do
      let read ← Decoder.once name none decoder document
      return set state read))
    (hRead : decode decoder json = .ok value)
    (hRest : Decoder.foldMembers step (set state (some value))
      (Document.ofMembers (written fields)) = .ok result) :
    Decoder.foldMembers step state (Document.ofMembers (written ((name, some json) :: fields))) =
      .ok result := by
  have hHere : step state name (.ofJson json) = .ok (set state (some value)) := by
    rw [decode] at hRead
    rw [hStep, Decoder.once, hRead]
    rfl
  have hMembers : Document.ofMembers (written ((name, some json) :: fields)) =
      (name, .ofJson json) :: Document.ofMembers (written fields) := rfl
  rw [hMembers, Decoder.foldMembers, hHere]
  exact hRest

/-- A field that may be missing is read if it is there, and left as it was if it is not. -/
theorem foldMembers_field (set : σ → Option (Option α) → σ) {write : α → Json} {value : Option α}
    {fields : List (String × Option Json)}
    (hStep : ∀ document, step state name document = (do
      let read ← Decoder.once name none (Decoder.optional decoder) document
      return set state read))
    (hUnset : set state none = state) (hNull : ∀ a, write a ≠ .null)
    (hRead : ∀ a ∈ value, decode decoder (write a) = .ok a)
    (hRest : Decoder.foldMembers step (set state (value.map some))
      (Document.ofMembers (written fields)) = .ok result) :
    Decoder.foldMembers step state
      (Document.ofMembers (written ((name, value.map write) :: fields))) = .ok result := by
  cases value with
  | none =>
      rw [Option.map_none, hUnset] at hRest
      exact hRest
  | some a =>
      exact foldMembers_member set hStep (decode_optional (hNull a) (hRead a rfl)) hRest

end

namespace Decoder

variable {α β σ : Type}

/-- All values that a decoder gives have a property. -/
def Gives (decoder : Decoder α) (P : α → Prop) : Prop :=
  ∀ ⦃document value⦄, decoder document = .ok value → P value

theorem gives_value : Gives value IsOrdered := by
  intro document json h
  rw [value] at h
  cases hJson : document.toJson with
  | ok other =>
      rw [hJson] at h
      cases h
      exact Document.isOrdered_of_toJson hJson
  | error fault =>
      rw [hJson] at h
      cases h

theorem gives_natural {type : String} {largest : Nat} :
    Gives (natural type largest) fun n => n ≤ largest := by
  intro document n h
  unfold natural at h
  split at h
  · split at h
    · cases h
      assumption
    · cases h
  · cases h
  · cases h

/-- What every step of going through the members keeps is kept to the end. -/
theorem foldMembers_keeps {step : σ → String → Document → Except DecodeError σ} {Keeps : σ → Prop}
    (hStep : ∀ {state name document next}, Keeps state → step state name document = .ok next →
      Keeps next)
    {start state : σ} {members : List (String × Document)} (hStart : Keeps start)
    (h : foldMembers step start members = .ok state) : Keeps state := by
  induction members generalizing start with
  | nil =>
      cases h
      exact hStart
  | cons member rest ih =>
      obtain ⟨name, document⟩ := member
      obtain ⟨next, hNext, h⟩ := exists_of_bind_eq_ok h
      exact ih (hStep hStart hNext) h

/-- A record is read into a state that keeps an invariant, or from a list of its fields. -/
theorem gives_record {P : α → Prop} {type : String} {start : σ}
    {step : σ → String → Document → Except DecodeError σ} {finish : σ → Except DecodeError α}
    {fromItems : List Document → Option Fault → Except DecodeError (α × List Document)}
    (Keeps : σ → Prop) (hStart : Keeps start)
    (hStep : ∀ {state name document next}, Keeps state → step state name document = .ok next →
      Keeps next)
    (hFinish : ∀ {state value}, Keeps state → finish state = .ok value → P value)
    (hItems : ∀ {documents ending value rest}, fromItems documents ending = .ok (value, rest) →
      P value) : (record type start step finish fromItems).Gives P := by
  intro document value hValue
  unfold record at hValue
  split at hValue
  · obtain ⟨state, hState, hValue⟩ := exists_of_bind_eq_ok hValue
    obtain ⟨-, -, hValue⟩ := exists_of_bind_eq_ok hValue
    exact hFinish (foldMembers_keeps hStep hStart hState) hValue
  · obtain ⟨⟨read, rest⟩, hRead, hValue⟩ := exists_of_bind_eq_ok hValue
    obtain ⟨-, -, hValue⟩ := exists_of_bind_eq_ok hValue
    cases hValue
    exact hItems hRead
  · cases hValue

section

variable {decoder : Decoder α} {P : α → Prop}

theorem Gives.map {Q : β → Prop} {f : α → β} (h : decoder.Gives P) (hMap : ∀ a, P a → Q (f a)) :
    Gives (fun document => f <$> decoder document) Q := by
  intro document value (hValue : f <$> decoder document = .ok value)
  cases hRead : decoder document with
  | ok a =>
      rw [hRead] at hValue
      cases hValue
      exact hMap a (h hRead)
  | error cause =>
      rw [hRead] at hValue
      cases hValue

theorem Gives.some (h : decoder.Gives P) :
    Gives (fun document => Option.some <$> decoder document) fun value => ∀ a ∈ value, P a :=
  h.map fun _ ha _ hb => Option.some.inj hb ▸ ha

theorem Gives.optional (h : decoder.Gives P) :
    (Decoder.optional decoder).Gives fun value => ∀ a ∈ value, P a := by
  intro document value hValue
  unfold Decoder.optional at hValue
  split at hValue
  · cases hValue
    nofun
  · exact h.some hValue

theorem Gives.items (h : decoder.Gives P) {documents : List Document} {values : List α}
    (hValues : Decoder.items decoder documents = .ok values) : ∀ value ∈ values, P value := by
  induction documents generalizing values with
  | nil =>
      cases hValues
      nofun
  | cons document rest ih =>
      obtain ⟨first, hFirst, hValues⟩ := exists_of_bind_eq_ok hValues
      obtain ⟨others, hOthers, hValues⟩ := exists_of_bind_eq_ok hValues
      cases hValues
      exact List.forall_mem_cons.mpr ⟨h hFirst, ih hOthers⟩

theorem Gives.list (h : decoder.Gives P) :
    (Decoder.list decoder).Gives fun values => ∀ value ∈ values, P value := by
  intro document values hValues
  unfold Decoder.list at hValues
  split at hValues
  · obtain ⟨read, hRead, hValues⟩ := exists_of_bind_eq_ok hValues
    obtain ⟨-, -, hValues⟩ := exists_of_bind_eq_ok hValues
    cases hValues
    exact h.items hRead
  · cases hValues

/-- The members of a map are kept in the order of their names. -/
theorem gives_map : (Decoder.map decoder).Gives fun entries =>
    entries.Pairwise fun a b => a.1 < b.1 := by
  intro document entries hEntries
  unfold Decoder.map at hEntries
  split at hEntries
  · obtain ⟨read, hRead, hEntries⟩ := exists_of_bind_eq_ok hEntries
    obtain ⟨-, -, hEntries⟩ := exists_of_bind_eq_ok hEntries
    cases hEntries
    apply foldMembers_keeps _ List.Pairwise.nil hRead
    intro seen name document next hSeen hNext
    obtain ⟨a, -, hNext⟩ := exists_of_bind_eq_ok hNext
    cases hNext
    exact pairwise_insertMember hSeen
  · cases hEntries

theorem Gives.firstOf {type : String} {forms : List (Decoder α)}
    (h : ∀ form ∈ forms, form.Gives P) : (Decoder.firstOf type forms).Gives P := by
  intro document value hValue
  obtain ⟨-, -, hValue⟩ := exists_of_bind_eq_ok hValue
  split at hValue
  · next found hFound =>
    cases hValue
    obtain ⟨form, hForm, hRead⟩ := List.exists_of_findSome?_eq_some hFound
    cases hResult : form document with
    | ok other =>
        rw [hResult] at hRead
        cases hRead
        exact h form hForm hResult
    | error cause =>
        rw [hResult] at hRead
        cases hRead
  · cases hValue

theorem Gives.once (h : decoder.Gives P) {name : String} {seen value : Option α}
    {document : Document} (hValue : Decoder.once name seen decoder document = .ok value) :
    ∀ a ∈ value, P a := by
  rw [Decoder.once] at hValue
  split at hValue
  · cases hValue
  · exact h.some hValue

theorem Gives.nextItem (h : decoder.Gives P) {documents rest : List Document}
    {ending : Option Fault} {value : Option α}
    (hValue : Decoder.nextItem decoder documents ending = .ok (value, rest)) :
    ∀ a ∈ value, P a := by
  cases documents with
  | nil =>
      obtain ⟨-, -, hValue⟩ := exists_of_bind_eq_ok hValue
      cases hValue
      nofun
  | cons document others =>
      obtain ⟨a, hRead, hValue⟩ := exists_of_bind_eq_ok hValue
      cases hValue
      rintro b ⟨⟩
      exact h hRead

/-- A field of a record is read, and the record stays as it has to be if what was read is. -/
theorem Gives.keeps {Keeps : σ → Prop} {set : Option α → σ} {name : String} {seen : Option α}
    {document : Document} {next : σ} (h : decoder.Gives P)
    (hNext : (do return set (← Decoder.once name seen decoder document)) = .ok next)
    (hSet : ∀ read, (∀ a ∈ read, P a) → Keeps (set read)) : Keeps next := by
  obtain ⟨read, hRead, hNext⟩ := exists_of_bind_eq_ok hNext
  cases hNext
  exact hSet read (h.once hRead)

end

theorem gives_any {decoder : Decoder α} : decoder.Gives fun _ => True := fun _ _ _ => trivial

theorem gives_natural32 : Gives natural32 fun n => n < Nat.pow 2 32 :=
  fun _ _ h => Nat.lt_of_le_sub_one (by decide) (gives_natural h)

theorem gives_natural64 : Gives natural64 fun n => n < Nat.pow 2 64 :=
  fun _ _ h => Nat.lt_of_le_sub_one (by decide) (gives_natural h)

/-- What holds of a value that may be missing or `null` holds of the value. -/
theorem forall_mem_join {P : α → Prop} {value : Option (Option α)}
    (h : ∀ read ∈ value, ∀ a ∈ read, P a) : ∀ a ∈ value.join, P a := by
  intro a hValue
  exact h (some a) (Option.join_eq_some_iff.mp hValue) a rfl

/-- What holds of the members of a list that may be missing holds of the members of the list. -/
theorem forall_mem_getD {P : α → Prop} {values : Option (List α)}
    (h : ∀ list ∈ values, ∀ value ∈ list, P value) : ∀ value ∈ values.getD [], P value := by
  cases values with
  | none => nofun
  | some list => exact h list rfl

end Decoder

end EcmaLint.Json
