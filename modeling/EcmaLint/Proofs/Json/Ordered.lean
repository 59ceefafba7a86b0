import EcmaLint.Config.Basic
import EcmaLint.Json.Decode
import EcmaLint.Proofs.Except

/-! Values in order. The members of an object come in the order of their names, each name once.
Every value that is read off a document is in order, and a value in order is what reading its
own document gives back. -/
namespace EcmaLint.Json

/-- The members of every object in a value are in the order of their names, each name once. -/
inductive IsOrdered : Json → Prop where
  | null : IsOrdered .null
  | bool (value : Bool) : IsOrdered (.bool value)
  | number (value : Number) : IsOrdered (.number value)
  | string (value : String) : IsOrdered (.string value)
  | array {items : List Json} (h : ∀ item ∈ items, IsOrdered item) : IsOrdered (.array items)
  | object {members : List (String × Json)}
      (hSorted : members.Pairwise fun a b => a.1 < b.1)
      (h : ∀ member ∈ members, IsOrdered member.2) : IsOrdered (.object members)

section

variable {α : Type} {members : List (String × α)} {name : String} {value : α}

/-- A member with a name behind all others is put at the end. -/
theorem insertMember_of_forall_lt (h : ∀ member ∈ members, member.1 < name) :
    insertMember name value members = members ++ [(name, value)] := by
  induction members with
  | nil => rfl
  | cons first rest ih =>
      obtain ⟨other, old⟩ := first
      obtain ⟨hOther, hRest⟩ := List.forall_mem_cons.mp h
      have hLater : ¬name < other := String.lt_asymm hOther
      have hNe : name ≠ other := fun hEq => String.lt_irrefl other (hEq ▸ hOther)
      rw [insertMember, if_neg hLater, if_neg hNe, ih hRest]
      rfl

/-- Putting members in order behind members in order appends them. -/
theorem foldl_insertMember_append {sorted rest : List (String × α)}
    (h : (sorted ++ rest).Pairwise fun a b => a.1 < b.1) :
    rest.foldl (fun sorted (name, value) => insertMember name value sorted) sorted =
      sorted ++ rest := by
  induction rest generalizing sorted with
  | nil => exact (List.append_nil sorted).symm
  | cons first rest ih =>
      obtain ⟨name, value⟩ := first
      have hBefore : ∀ member ∈ sorted, member.1 < name := fun member hMember =>
        (List.pairwise_append.mp h).2.2 member hMember (name, value) List.mem_cons_self
      rw [List.foldl_cons]
      dsimp only
      rw [insertMember_of_forall_lt hBefore, ih]
      · simp
      · simpa using h

theorem sortMembers_of_pairwise (h : members.Pairwise fun a b => a.1 < b.1) :
    sortMembers members = members :=
  foldl_insertMember_append h

theorem pairwise_sortMembers (members : List (String × α)) :
    (sortMembers members).Pairwise fun a b => a.1 < b.1 :=
  List.foldlRecOn members _ List.Pairwise.nil fun _ hSorted _ _ => pairwise_insertMember hSorted

theorem mem_of_mem_sortMembers {member : String × α} (h : member ∈ sortMembers members) :
    member ∈ members := by
  have hFold : ∀ (rest sorted : List (String × α)),
      member ∈ rest.foldl (fun sorted (name, value) => insertMember name value sorted) sorted →
        member ∈ sorted ∨ member ∈ rest := by
    intro rest
    induction rest with
    | nil => exact fun sorted hMember => Or.inl hMember
    | cons first rest ih =>
        intro sorted hMember
        rcases ih _ hMember with hSorted | hRest
        · rcases mem_insertMember hSorted with hFirst | hSorted
          · exact Or.inr (hFirst ▸ List.mem_cons_self)
          · exact Or.inl hSorted
        · exact Or.inr (List.mem_cons_of_mem _ hRest)
  simpa using hFold members [] h

end

/-- An object made of values in order is in order. -/
theorem isOrdered_ofMembers {members : List (String × Json)}
    (h : ∀ member ∈ members, member.2.IsOrdered) : (ofMembers members).IsOrdered :=
  .object (pairwise_sortMembers members) fun member hMember =>
    h member (mem_of_mem_sortMembers hMember)

namespace Document

theorem toItems_ofItems {items : List Json}
    (h : ∀ item ∈ items, (ofJson item).toJson = .ok item) :
    toItems (ofItems items) = .ok items := by
  induction items with
  | nil => rfl
  | cons item rest ih =>
      obtain ⟨hItem, hRest⟩ := List.forall_mem_cons.mp h
      rw [ofItems, toItems, hItem, ih hRest]
      rfl

theorem toMembers_ofMembers {members : List (String × Json)}
    (h : ∀ member ∈ members, (ofJson member.2).toJson = .ok member.2) :
    toMembers (ofMembers members) = .ok members := by
  induction members with
  | nil => rfl
  | cons member rest ih =>
      obtain ⟨name, value⟩ := member
      obtain ⟨hMember, hRest⟩ := List.forall_mem_cons.mp h
      rw [ofMembers, toMembers, hMember, ih hRest]
      rfl

/-- A value in order is the value of its document. -/
theorem toJson_ofJson {json : Json} (h : json.IsOrdered) : (ofJson json).toJson = .ok json := by
  induction h with
  | null | bool | number | string => rfl
  | array _ ih =>
      rw [ofJson, toJson, toItems_ofItems ih]
      rfl
  | object hSorted _ ih =>
      rw [ofJson, toJson, toMembers_ofMembers ih]
      simp only [bind, Except.bind, closing, pure, Except.pure, sortMembers_of_pairwise hSorted]

mutual

/-- The value that is read off a document is in order, whatever the document is like. -/
theorem isOrdered_of_toJson : ∀ {document : Document} {json : Json},
    document.toJson = .ok json → json.IsOrdered
  | .broken _, _, h => nomatch h
  | .null, _, rfl => .null
  | .bool value, _, rfl => .bool value
  | .number value, _, rfl => .number value
  | .string value, _, rfl => .string value
  | .array items ending, json, h => by
      rw [toJson] at h
      obtain ⟨values, hItems, h⟩ := exists_of_bind_eq_ok h
      obtain ⟨_, _, h⟩ := exists_of_bind_eq_ok h
      cases h
      exact .array (isOrdered_of_toItems hItems)
  | .object members ending, json, h => by
      rw [toJson] at h
      obtain ⟨entries, hMembers, h⟩ := exists_of_bind_eq_ok h
      obtain ⟨_, _, h⟩ := exists_of_bind_eq_ok h
      cases h
      exact isOrdered_ofMembers (isOrdered_of_toMembers hMembers)

theorem isOrdered_of_toItems : ∀ {items : List Document} {values : List Json},
    toItems items = .ok values → ∀ value ∈ values, value.IsOrdered
  | [], _, rfl => fun _ h => nomatch h
  | item :: rest, values, h => by
      rw [toItems] at h
      obtain ⟨first, hFirst, h⟩ := exists_of_bind_eq_ok h
      obtain ⟨others, hRest, h⟩ := exists_of_bind_eq_ok h
      cases h
      exact List.forall_mem_cons.mpr ⟨isOrdered_of_toJson hFirst, isOrdered_of_toItems hRest⟩

theorem isOrdered_of_toMembers : ∀ {members : List (String × Document)}
    {entries : List (String × Json)}, toMembers members = .ok entries →
      ∀ entry ∈ entries, entry.2.IsOrdered
  | [], _, rfl => fun _ h => nomatch h
  | (name, document) :: rest, entries, h => by
      rw [toMembers] at h
      obtain ⟨value, hValue, h⟩ := exists_of_bind_eq_ok h
      obtain ⟨others, hRest, h⟩ := exists_of_bind_eq_ok h
      cases h
      exact List.forall_mem_cons.mpr ⟨isOrdered_of_toJson hValue, isOrdered_of_toMembers hRest⟩

end

end Document

/-- All that is read off JSON texts is in order. -/
theorem isOrdered_of_parse {text : String} {json : Json} (h : parse text = .ok json) :
    json.IsOrdered := by
  unfold parse at h
  obtain ⟨value, hValue, h⟩ := exists_of_bind_eq_ok h
  obtain ⟨_, _, h⟩ := exists_of_bind_eq_ok h
  cases h
  exact Document.isOrdered_of_toJson hValue

end EcmaLint.Json
