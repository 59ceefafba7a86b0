import Mathlib.Data.List.Forall2

/-! Results that may be errors. What is made of several results succeeds just if all of them do. -/
namespace EcmaLint

universe u v

theorem exists_eq_ok_of_isOk {α ε : Type*} {result : Except ε α} (h : result.isOk = true) :
    ∃ value, result = .ok value := by
  cases result with
  | ok value => exact ⟨value, rfl⟩
  | error cause => cases h

theorem exists_of_bind_eq_ok {ε : Type u} {α β : Type v} {first : Except ε α}
    {next : α → Except ε β} {result : β} (h : first >>= next = .ok result) :
    ∃ value, first = .ok value ∧ next value = .ok result := by
  cases first with
  | ok value => exact ⟨value, rfl, h⟩
  | error cause => cases h

/-- Mapping succeeds just if it succeeds for every member. -/
theorem mapM_eq_ok_iff {α β ε : Type*} {f : α → Except ε β} {list : List α} {results : List β} :
    list.mapM f = .ok results ↔ List.Forall₂ (fun a b => f a = .ok b) list results := by
  induction list generalizing results with
  | nil =>
      rw [List.mapM_nil, List.forall₂_nil_left_iff]
      exact ⟨fun h => (Except.ok.inj h).symm, fun h => h ▸ rfl⟩
  | cons a rest ih =>
      rw [List.mapM_cons, List.forall₂_cons_left_iff]
      constructor
      · intro h
        obtain ⟨b, hHead, hTail⟩ := exists_of_bind_eq_ok h
        obtain ⟨others, hRest, hResult⟩ := exists_of_bind_eq_ok hTail
        exact ⟨b, others, hHead, ih.mp hRest, (Except.ok.inj hResult).symm⟩
      · rintro ⟨b, others, hHead, hRest, rfl⟩
        rw [hHead, ih.mpr hRest]
        rfl

theorem exists_of_mem_mapM {α β ε : Type*} {f : α → Except ε β} {list : List α} {results : List β}
    (h : list.mapM f = .ok results) {result : β} (hResult : result ∈ results) :
    ∃ a ∈ list, f a = .ok result := by
  have hEach := mapM_eq_ok_iff.mp h
  clear h
  induction hEach with
  | nil => cases hResult
  | @cons a _ _ _ hHead _ ih =>
      rcases List.mem_cons.mp hResult with rfl | hRest
      · exact ⟨a, List.mem_cons_self, hHead⟩
      · obtain ⟨other, hOther, hOk⟩ := ih hRest
        exact ⟨other, List.mem_cons_of_mem _ hOther, hOk⟩

end EcmaLint
