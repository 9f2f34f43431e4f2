namespace CrossRef

/-- Puts `x` at its place; an entry of the same key gives way. -/
def putByKey {α : Type} (key : α → String) (x : α) : List α → List α
  | [] => [x]
  | y :: ys =>
    if key x < key y then x :: y :: ys
    else if key x = key y then x :: ys
    else y :: putByKey key x ys

theorem mem_putByKey {α : Type} {key : α → String} {x z : α} {ys : List α}
    (h : z ∈ putByKey key x ys) : z = x ∨ z ∈ ys := by
  induction ys with
  | nil => simpa [putByKey] using h
  | cons y ys ih =>
    rw [putByKey] at h
    split at h
    · simpa using h
    · split at h
      · rcases List.mem_cons.1 h with h | h <;> simp [h]
      · rcases List.mem_cons.1 h with h | h
        · simp [h]
        · rcases ih h with h | h <;> simp [h]

theorem putByKey_ascending {α : Type} {key : α → String} (x : α) {ys : List α}
    (h : ys.Pairwise fun a b => key a < key b) :
    (putByKey key x ys).Pairwise fun a b => key a < key b := by
  induction ys with
  | nil => simp [putByKey]
  | cons y ys ih =>
    obtain ⟨hy, hys⟩ := List.pairwise_cons.1 h
    rw [putByKey]
    split
    case isTrue hlt =>
      refine List.pairwise_cons.2 ⟨fun z hz => ?_, h⟩
      rcases List.mem_cons.1 hz with rfl | hz
      · exact hlt
      · exact String.lt_trans hlt (hy z hz)
    case isFalse hge =>
      split
      case isTrue heq => exact List.pairwise_cons.2 ⟨fun z hz => heq ▸ hy z hz, hys⟩
      case isFalse hne =>
        refine List.pairwise_cons.2 ⟨fun z hz => ?_, ih hys⟩
        rcases mem_putByKey hz with rfl | hz
        · grind
        · exact hy z hz

/-- Entries in ascending order of their keys, which compare by code point. -/
structure Catalog {α : Type} (key : α → String) where
  toList : List α
  ascending : toList.Pairwise fun a b => key a < key b
  deriving DecidableEq

namespace Catalog

variable {α : Type} {key : α → String}

protected def empty : Catalog key := ⟨[], .nil⟩

instance : Inhabited (Catalog key) := ⟨.empty⟩

def put (c : Catalog key) (x : α) : Catalog key :=
  ⟨putByKey key x c.toList, putByKey_ascending x c.ascending⟩

def ofList (xs : List α) : Catalog key := xs.foldl put .empty

def union (c d : Catalog key) : Catalog key := d.toList.foldl put c

end Catalog

abbrev TextSet := Catalog (id : String → String)

end CrossRef
