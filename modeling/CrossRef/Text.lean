namespace CrossRef.Text

/-- Bytes of the UTF-8 form; offsets into a text count them. -/
def size (cs : List Char) : Nat := cs.foldr (fun c n => c.utf8Size + n) 0

@[simp] theorem size_nil : size [] = 0 := rfl

@[simp] theorem size_cons (c : Char) (cs : List Char) : size (c :: cs) = c.utf8Size + size cs := by
  simp [size]

@[simp] theorem size_append (as bs : List Char) : size (as ++ bs) = size as + size bs := by
  induction as with
  | nil => simp
  | cons c as ih => simp [ih, Nat.add_assoc]

def bytes (cs : List Char) : List UInt8 := cs.flatMap String.utf8EncodeChar

theorem length_bytes (cs : List Char) : (bytes cs).length = size cs := by
  induction cs with
  | nil => rfl
  | cons c cs ih => simp_all [bytes]

/-- Cuts a text after `n` bytes; nothing where byte `n` lies inside a character or past the end. -/
def splitAt? : Nat → List Char → Option (List Char × List Char)
  | 0, cs => some ([], cs)
  | _ + 1, [] => none
  | n + 1, c :: cs =>
    if c.utf8Size ≤ n + 1 then
      (splitAt? (n + 1 - c.utf8Size) cs).map fun (before, behind) => (c :: before, behind)
    else none

theorem splitAt?_append (as bs : List Char) : splitAt? (size as) (as ++ bs) = some (as, bs) := by
  induction as with
  | nil => simp [splitAt?]
  | cons c as ih =>
    have hc := c.utf8Size_pos
    obtain ⟨n, hn⟩ : ∃ n, size (c :: as) = n + 1 :=
      ⟨size (c :: as) - 1, by simp; omega⟩
    have hr : n + 1 - c.utf8Size = size as := by simp at hn; omega
    have hle : c.utf8Size ≤ n + 1 := by simp at hn; omega
    rw [hn, List.cons_append, splitAt?, if_pos hle, hr, ih]
    rfl

theorem eq_of_splitAt? {n : Nat} {cs as bs : List Char} (h : splitAt? n cs = some (as, bs)) :
    cs = as ++ bs ∧ size as = n := by
  induction cs generalizing n as with
  | nil => cases n <;> simp_all [splitAt?]
  | cons c cs ih =>
    cases n with
    | zero => simp_all [splitAt?]
    | succ n =>
      rw [splitAt?] at h
      split at h
      case isTrue hle =>
        obtain ⟨⟨a, b⟩, hab, he⟩ := Option.map_eq_some_iff.1 h
        obtain ⟨rfl, rfl⟩ := Prod.mk.inj he
        obtain ⟨rfl, hs⟩ := ih hab
        exact ⟨rfl, by simp [hs]; omega⟩
      case isFalse => simp at h

theorem splitAt?_eq_some_iff {n : Nat} {cs as bs : List Char} :
    splitAt? n cs = some (as, bs) ↔ cs = as ++ bs ∧ size as = n := by
  constructor
  · exact eq_of_splitAt?
  · rintro ⟨rfl, rfl⟩
    exact splitAt?_append as bs

def split {α : Type} [DecidableEq α] (separator : α) : List α → List (List α)
  | [] => [[]]
  | a :: rest =>
    if a = separator then [] :: split separator rest
    else match split separator rest with
      | [] => [[a]]
      | first :: others => (a :: first) :: others

end CrossRef.Text
