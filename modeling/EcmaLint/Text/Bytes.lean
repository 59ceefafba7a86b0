/-! Texts measured in UTF-8 bytes. Offsets into a program are byte offsets, while texts are read
character by character, so every cut goes through `splitAt?`, which refuses an offset that lies
inside a character or past the end. A text can be replaced wherever it occurs. -/
namespace EcmaLint.Text

/-- Number of bytes in the UTF-8 encoding of a text. -/
def byteLength : List Char → Nat
  | [] => 0
  | c :: cs => c.utf8Size + byteLength cs

@[simp]
theorem byteLength_append (a b : List Char) :
    byteLength (a ++ b) = byteLength a + byteLength b := by
  induction a with
  | nil => simp [byteLength]
  | cons c cs ih => simp [byteLength, ih, Nat.add_assoc]

/-- Cut a text in two at a byte offset. There is no cut inside a character and
none past the end. -/
def splitAt? : Nat → List Char → Option (List Char × List Char)
  | 0, cs => some ([], cs)
  | _ + 1, [] => none
  | n + 1, c :: cs =>
      if c.utf8Size ≤ n + 1 then
        (splitAt? (n + 1 - c.utf8Size) cs).map fun (front, back) => (c :: front, back)
      else
        none

/-- The two parts of a cut are the text, and the first has the asked length. -/
theorem splitAt?_eq_some {offset : Nat} {cs front back : List Char}
    (h : splitAt? offset cs = some (front, back)) :
    front ++ back = cs ∧ byteLength front = offset := by
  induction cs generalizing offset front back with
  | nil => cases offset <;> simp_all [splitAt?, byteLength]
  | cons c cs ih =>
    cases offset with
    | zero => simp_all [splitAt?, byteLength]
    | succ n =>
      simp only [splitAt?] at h
      split at h
      · rename_i hc
        obtain ⟨⟨f, b⟩, hs, he⟩ := Option.map_eq_some_iff.1 h
        simp only [Prod.mk.injEq] at he
        obtain ⟨rfl, rfl⟩ := he
        obtain ⟨h1, h2⟩ := ih hs
        simp [byteLength, h1, h2]
        omega
      · simp at h

/-- The text between two byte offsets, if both are character boundaries in order. -/
def slice? (start stop : Nat) (cs : List Char) : Option (List Char) :=
  if start ≤ stop then do
    let (_, tail) ← splitAt? start cs
    let (middle, _) ← splitAt? (stop - start) tail
    pure middle
  else
    none

/-- The first place where `needle` occurs, as the text before it and the text after it. -/
def cutAt? (needle : List Char) : List Char → Option (List Char × List Char)
  | [] => if needle.isEmpty then some ([], []) else none
  | c :: cs =>
      if needle.isPrefixOf (c :: cs) then
        some ([], (c :: cs).drop needle.length)
      else
        (cutAt? needle cs).map fun (front, back) => (c :: front, back)

theorem length_of_cutAt? {needle cs front back : List Char}
    (h : cutAt? needle cs = some (front, back)) (nonempty : needle ≠ []) :
    back.length < cs.length := by
  induction cs generalizing front back with
  | nil => cases needle <;> simp_all [cutAt?]
  | cons c cs ih =>
    simp only [cutAt?] at h
    split at h
    · simp only [Option.some.injEq, Prod.mk.injEq] at h
      obtain ⟨-, rfl⟩ := h
      have : 0 < needle.length := List.length_pos_iff.2 nonempty
      simp only [List.length_drop, List.length_cons]
      omega
    · obtain ⟨⟨f, b⟩, hs, he⟩ := Option.map_eq_some_iff.1 h
      simp only [Prod.mk.injEq] at he
      obtain ⟨-, rfl⟩ := he
      have := ih hs
      simp only [List.length_cons]
      omega

/-- Replace every occurrence of `needle`, from left to right. What was put in is not looked
at again. A text with an empty needle stays as it is. -/
def replaceAll (needle replacement : List Char) (text : List Char) : List Char :=
  if _nonempty : needle = [] then text
  else
    match _found : cutAt? needle text with
    | none => text
    | some (before, after) => before ++ replacement ++ replaceAll needle replacement after
termination_by text.length
decreasing_by exact length_of_cutAt? _found _nonempty

/-- The number of occurrences of `needle` that do not overlap, from left to right. -/
def countOccurrences (needle text : List Char) : Nat :=
  if _nonempty : needle = [] then 0
  else
    match _found : cutAt? needle text with
    | none => 0
    | some (_, after) => countOccurrences needle after + 1
termination_by text.length
decreasing_by exact length_of_cutAt? _found _nonempty

end EcmaLint.Text
