import CrossRef.Json.Printer
import CrossRef.Json.Reader
import Mathlib.Tactic.Common

namespace CrossRef.Json

mutual

/-- Whether all numbers in a value are whole. -/
def isWhole : Json → Bool
  | .null => true
  | .bool _ => true
  | .number (.whole _) => true
  | .number (.decimal ..) => false
  | .text _ => true
  | .array items => itemsWhole items
  | .object members => membersWhole members

def itemsWhole : List Json → Bool
  | [] => true
  | j :: rest => isWhole j && itemsWhole rest

def membersWhole : List (Text × Json) → Bool
  | [] => true
  | (_, j) :: rest => isWhole j && membersWhole rest

end

/-- What may follow a value: nothing, or what separates or closes. -/
def Follows (rest : List Char) : Prop :=
  ∀ c ∈ rest.head?, c = ',' ∨ c = ']' ∨ c = '\x7d'

theorem follows_nil : Follows [] := by
  intro c hc
  cases hc

theorem follows_cons {c : Char} {rest : List Char} (h : c = ',' ∨ c = ']' ∨ c = '\x7d') :
    Follows (c :: rest) := by
  intro c' hc
  cases hc
  exact h

theorem zero_of_leading_zero (n : Nat) (h : (Nat.toDigits 10 n).head? = some '0') : n = 0 := by
  induction n using Nat.strongRecOn with
  | ind n ih =>
    rw [Nat.toDigits_eq_if (by omega)] at h
    split at h
    case isTrue hlt => simpa using h
    case isFalse hge =>
      have hne : Nat.toDigits 10 (n / 10) ≠ [] := Nat.toDigits_ne_nil
      rw [List.head?_append, List.head?_eq_some_head hne, Option.some_or] at h
      rw [← List.head?_eq_some_head hne] at h
      have hzero := ih (n / 10) (by omega) h
      omega

theorem natOfDigits_toDigits (n : Nat) : Decimal.natOfDigits (Nat.toDigits 10 n) = n := by
  have h := Nat.ofDigitChars_ten_toDigits (n := n)
  rw [Nat.ofDigitChars_eq_foldl] at h
  exact h

theorem not_isDigit_of_follows {rest : List Char} (h : Follows rest) :
    ∀ c ∈ rest.head?, c.isDigit = false := by
  intro c hc
  rcases h c hc with rfl | rfl | rfl
  all_goals rfl

theorem readDigits_append {ds rest : List Char} (hne : ds ≠ [])
    (hds : ∀ c ∈ ds, c.isDigit = true) (hrest : ∀ c ∈ rest.head?, c.isDigit = false) :
    readDigits (ds ++ rest) = some (ds, rest) := by
  have htake : rest.takeWhile Char.isDigit = [] := by
    cases rest with
    | nil => rfl
    | cons c rest => simp [hrest c rfl]
  have hdrop : rest.dropWhile Char.isDigit = rest := by
    cases rest with
    | nil => rfl
    | cons c rest => simp [hrest c rfl]
  have htake' : (ds ++ rest).takeWhile Char.isDigit = ds := by
    rw [List.takeWhile_append_of_pos hds, htake, List.append_nil]
  have hdrop' : (ds ++ rest).dropWhile Char.isDigit = rest := by
    rw [List.dropWhile_append_of_pos hds, hdrop]
  unfold readDigits
  rw [htake', hdrop']
  cases ds with
  | nil => exact absurd rfl hne
  | cons d ds => rfl

theorem readFraction_of_follows {rest : List Char} (h : Follows rest) :
    readFraction rest = some (none, rest) := by
  cases rest with
  | nil => rfl
  | cons c rest => rcases h c rfl with rfl | rfl | rfl <;> rfl

theorem readExponent_of_follows {rest : List Char} (h : Follows rest) :
    readExponent rest = some (none, rest) := by
  cases rest with
  | nil => rfl
  | cons c rest => rcases h c rfl with rfl | rfl | rfl <;> rfl

theorem readUnsigned_toDigits (negative : Bool) (n : Nat) {rest : List Char} (h : Follows rest)
    (hn : negative = true → n ≠ 0) :
    readUnsigned negative (Nat.toDigits 10 n ++ rest) =
      some (.whole (if negative then -(n : Int) else n), rest) := by
  have hdigits : readDigits (Nat.toDigits 10 n ++ rest) = some (Nat.toDigits 10 n, rest) :=
    readDigits_append Nat.toDigits_ne_nil
      (fun c hc => Nat.isDigit_of_mem_toDigits (by omega) (by omega) hc) (not_isDigit_of_follows h)
  have hlead : ¬ ((Nat.toDigits 10 n).head? = some '0' ∧ (Nat.toDigits 10 n).length ≠ 1) := by
    rintro ⟨hhead, hlen⟩
    obtain rfl := zero_of_leading_zero n hhead
    exact hlen rfl
  simp only [readUnsigned, hdigits, Option.bind_eq_bind, Option.bind_some, if_neg hlead,
    readFraction_of_follows h, readExponent_of_follows h, natOfDigits_toDigits]
  cases negative with
  | false => rfl
  | true => simp [hn rfl]

theorem head_toDigits (n : Nat) : ∃ d ds, Nat.toDigits 10 n = d :: ds ∧ d.isDigit = true := by
  obtain ⟨d, ds, h⟩ := List.exists_cons_of_ne_nil (Nat.toDigits_ne_nil (n := n) (b := 10))
  exact ⟨d, ds, h, Nat.isDigit_of_mem_toDigits (by omega) (by omega) (h ▸ List.mem_cons_self)⟩

theorem ne_of_isDigit {d : Char} (h : d.isDigit = true) :
    d ≠ 'n' ∧ d ≠ 't' ∧ d ≠ 'f' ∧ d ≠ '"' ∧ d ≠ '[' ∧ d ≠ '\x7b' ∧ d ≠ '-' ∧ d ≠ ']' := by
  refine ⟨?_, ?_, ?_, ?_, ?_, ?_, ?_, ?_⟩
  all_goals
    rintro rfl
    revert h
    decide

/-- A whole number is written as its digits, behind a minus sign if it is negative. -/
theorem print_whole (n : Int) :
    (Number.whole n).print = if n < 0 then '-' :: Nat.toDigits 10 n.natAbs
      else Nat.toDigits 10 n.natAbs := by
  cases n with
  | ofNat n =>
    have hn : ¬ Int.ofNat n < 0 := by simp
    rw [if_neg hn]
    change (Nat.repr n).toList = _
    rw [Nat.toList_repr]
    rfl
  | negSucc n =>
    rw [if_pos (Int.negSucc_lt_zero n)]
    change ("-" ++ Nat.repr (n + 1)).toList = _
    rw [String.toList_append, Nat.toList_repr]
    rfl

theorem readNumber_print (n : Int) {rest : List Char} (h : Follows rest) :
    readNumber ((Number.whole n).print ++ rest) = some (.whole n, rest) := by
  rw [print_whole]
  by_cases hn : n < 0
  · rw [if_pos hn, List.cons_append, readNumber, readUnsigned_toDigits true _ h (by omega)]
    have hvalue : -(n.natAbs : Int) = n := by omega
    rw [if_pos rfl, hvalue]
  · obtain ⟨d, ds, hds, hd⟩ := head_toDigits n.natAbs
    have hminus := (ne_of_isDigit hd).2.2.2.2.2.2.1
    have hread := readUnsigned_toDigits false n.natAbs h (by simp)
    have hvalue : (n.natAbs : Int) = n := by omega
    rw [if_neg hn, hds, List.cons_append]
    rw [hds, List.cons_append] at hread
    rw [readNumber.eq_def]
    split
    case h_1 hc => exact absurd (List.cons.inj hc).1 hminus
    case h_2 => rwa [if_neg Bool.false_ne_true, hvalue] at hread

theorem hexValue?_hexDigit : ∀ n < 16, Decimal.hexValue? (hexDigit n) = some n := by decide

theorem natOfHex?_control (n : Nat) (h : n < 32) :
    Decimal.natOfHex? ['0', '0', hexDigit (n / 16), hexDigit (n % 16)] = some n := by
  have hhigh := hexValue?_hexDigit (n / 16) (by omega)
  have hlow := hexValue?_hexDigit (n % 16) (by omega)
  have hzero : Decimal.hexValue? '0' = some 0 := by decide
  have hvalue : 16 * (n / 16) + n % 16 = n := by omega
  simp [Decimal.natOfHex?, hhigh, hlow, hzero, hvalue]

/-- How a character is read that was written on its own. -/
def pieceOf (c : Char) : Piece :=
  if c.toNat < 0x20 ∧ c ≠ '\x08' ∧ c ≠ '\x0c' ∧ c ≠ '\n' ∧ c ≠ '\r' ∧ c ≠ '\t' then .unit c.toNat
  else .char c

theorem readPieces_shortEscape {e c : Char} (cs : List Char) (h : shortEscape? e = some c)
    (hu : e ≠ 'u') :
    readPieces ('\\' :: e :: cs) = (readPieces cs).map fun p => (.char c :: p.1, p.2) := by
  rw [readPieces]
  · rw [h, Option.bind_eq_bind, Option.bind_some]
    cases readPieces cs <;> rfl
  · intro a b c d rest he
    exact absurd he hu

theorem readPieces_plain {c : Char} (cs : List Char) (hquote : c ≠ '"') (hslash : c ≠ '\\')
    (hge : ¬ c.toNat < 0x20) :
    readPieces (c :: cs) = (readPieces cs).map fun p => (.char c :: p.1, p.2) := by
  rw [readPieces]
  · rw [if_neg fun h => h.elim hge hslash]
  · exact hquote
  · intro _ _ _ _ _ h
    exact absurd h hslash
  · intro _ _ h
    exact absurd h hslash

theorem readPieces_escapeChar (c : Char) (cs : List Char) :
    readPieces (escapeChar c ++ cs) =
      (readPieces cs).map fun p => (pieceOf c :: p.1, p.2) := by
  unfold escapeChar
  split
  case h_8 _ h1 h2 h3 h4 h5 h6 h7 =>
    split
    case isTrue hlt =>
      have hpiece : pieceOf c = .unit c.toNat := if_pos ⟨hlt, h3, h4, h5, h6, h7⟩
      have hhex := natOfHex?_control c.toNat hlt
      simp only [List.cons_append, List.nil_append, readPieces, hhex, hpiece]
      cases readPieces cs <;> rfl
    case isFalse hge =>
      have hpiece : pieceOf c = .char c := if_neg fun h => hge h.1
      rw [hpiece]
      exact readPieces_plain cs h1 h2 hge
  all_goals exact readPieces_shortEscape cs rfl (by decide)

theorem readPieces_quoted (cs rest : List Char) :
    readPieces (cs.flatMap escapeChar ++ '"' :: rest) = some (cs.map pieceOf, rest) := by
  induction cs with
  | nil => simp [readPieces]
  | cons c cs ih =>
    rw [List.flatMap_cons, List.append_assoc, readPieces_escapeChar, ih]
    rfl

theorem spell_pieceOf (c : Char) (pieces : List Piece) :
    spell (pieceOf c :: pieces) = (spell pieces).map (c :: ·) := by
  unfold pieceOf
  split
  case isTrue h =>
    have hhigh : isHighHalf c.toNat = false := by
      have hlt := h.1
      simp [isHighHalf]
      omega
    have hlow : isLowHalf c.toNat = false := by
      have hlt := h.1
      simp [isLowHalf]
      omega
    have hvalue : Char.ofNat c.toNat = c := Char.ofNat_toNat c
    cases pieces with
    | nil => simp [spell, hhigh, hlow, hvalue]
    | cons piece pieces => cases piece <;> simp [spell, hhigh, hlow, hvalue]
  case isFalse => rw [spell]

theorem spell_map_pieceOf (cs : List Char) : spell (cs.map pieceOf) = some cs := by
  induction cs with
  | nil => rfl
  | cons c cs ih => rw [List.map_cons, spell_pieceOf, ih, Option.map_some]

theorem readString_quote (t : Text) (rest : List Char) :
    ∃ cs, quote t = '"' :: cs ∧ readString (cs ++ rest) = some (t, rest) := by
  cases t with
  | none => exact ⟨"\\ud800\"".toList, rfl, by simp [readString, readPieces, Decimal.natOfHex?,
      Decimal.hexValue?, spell, isHighHalf]⟩
  | some s =>
    refine ⟨s.toList.flatMap escapeChar ++ ['"'], rfl, ?_⟩
    rw [List.append_assoc, List.cons_append, List.nil_append, readString, readPieces_quoted]
    simp [spell_map_pieceOf]

theorem skipBlanks_of_head {c : Char} (cs : List Char) (h : isBlank c = false) :
    skipBlanks (c :: cs) = c :: cs := by
  rw [skipBlanks, List.dropWhile_cons_of_neg (by simp [h])]

/-- No value begins with a blank or like the end of an array. -/
theorem print_head (j : Json) (h : isWhole j = true) :
    ∃ c cs, print j = c :: cs ∧ isBlank c = false ∧ c ≠ ']' := by
  cases j with
  | null => exact ⟨'n', _, rfl, by decide⟩
  | bool b => cases b with
    | true => exact ⟨'t', _, rfl, by decide⟩
    | false => exact ⟨'f', _, rfl, by decide⟩
  | number n => cases n with
    | decimal => simp [isWhole] at h
    | whole n =>
      rw [print, print_whole]
      split
      · exact ⟨'-', _, rfl, by decide⟩
      · obtain ⟨d, ds, hds, hd⟩ := head_toDigits n.natAbs
        have hblank : isBlank d = false := by
          have hne : d ≠ ' ' ∧ d ≠ '\t' ∧ d ≠ '\n' ∧ d ≠ '\r' := by
            refine ⟨?_, ?_, ?_, ?_⟩
            all_goals
              rintro rfl
              revert hd
              decide
          simp [isBlank, hne]
        exact ⟨d, ds, hds, hblank, (ne_of_isDigit hd).2.2.2.2.2.2.2⟩
  | text t => cases t with
    | none => exact ⟨'"', _, rfl, by decide⟩
    | some s => exact ⟨'"', _, rfl, by decide⟩
  | array items => exact ⟨'[', _, rfl, by decide⟩
  | object members => exact ⟨'\x7b', _, rfl, by decide⟩

theorem readValue_number (n : Nat) (i : Int) {rest : List Char} (h : Follows rest) :
    readValue (n + 1) ((Number.whole i).print ++ rest) = some (.number (.whole i), rest) := by
  have hread := readNumber_print i h
  have hhead : ∃ c cs, (Number.whole i).print ++ rest = c :: cs ∧
      c ≠ 'n' ∧ c ≠ 't' ∧ c ≠ 'f' ∧ c ≠ '"' ∧ c ≠ '[' ∧ c ≠ '\x7b' := by
    rw [print_whole]
    split
    · exact ⟨'-', _, rfl, by decide⟩
    · obtain ⟨d, ds, hds, hd⟩ := head_toDigits i.natAbs
      obtain ⟨hn, ht, hf, hq, ha, ho, -⟩ := ne_of_isDigit hd
      exact ⟨d, ds ++ rest, by rw [hds, List.cons_append], hn, ht, hf, hq, ha, ho⟩
  obtain ⟨c, cs, hcs, hn, ht, hf, hq, ha, ho⟩ := hhead
  rw [hcs] at hread ⊢
  rw [readValue.eq_def]
  simp only
  split
  case h_7 => rw [hread, Option.map_some]
  all_goals simp_all

theorem printItems_head (j : Json) (items : List Json) (h : isWhole j = true) :
    ∃ c cs, printItems (j :: items) = c :: cs ∧ isBlank c = false ∧ c ≠ ']' := by
  obtain ⟨c, cs, hcs, hc⟩ := print_head j h
  cases items with
  | nil => exact ⟨c, cs, by rw [printItems, hcs], hc⟩
  | cons k items => exact ⟨c, _, by rw [printItems, hcs, List.cons_append], hc⟩

section Steps

variable {n : Nat} {j : Json} {items : List Json} {members : List (Text × Json)} {name : Text}
variable {c : Char} {cs ds rest : List Char}

theorem readValue_array (hblank : isBlank c = false) (hclose : c ≠ ']')
    (h : readItems n (c :: cs) = some (items, rest)) :
    readValue (n + 1) ('[' :: c :: cs) = some (.array items, rest) := by
  rw [readValue, skipBlanks_of_head cs hblank]
  split
  case h_1 he => exact absurd (List.cons.inj he).1 hclose
  case h_2 => rw [h, Option.map_some]

theorem readValue_object (hblank : isBlank c = false) (hclose : c ≠ '\x7d')
    (h : readMembers n (c :: cs) = some (members, rest)) :
    readValue (n + 1) ('\x7b' :: c :: cs) = some (.object members, rest) := by
  rw [readValue, skipBlanks_of_head cs hblank]
  split
  case h_1 he => exact absurd (List.cons.inj he).1 hclose
  case h_2 => rw [h, Option.map_some]

theorem readItems_last (h : readValue n cs = some (j, ']' :: rest)) :
    readItems (n + 1) cs = some ([j], rest) := by
  simp [readItems, h, skipBlanks, isBlank]

theorem readItems_next (h : readValue n cs = some (j, ',' :: c :: ds))
    (hblank : isBlank c = false) (hrest : readItems n (c :: ds) = some (items, rest)) :
    readItems (n + 1) cs = some (j :: items, rest) := by
  have hcomma : skipBlanks (',' :: c :: ds) = ',' :: c :: ds := skipBlanks_of_head _ rfl
  simp [readItems, h, hcomma, skipBlanks_of_head ds hblank, hrest]

theorem readMembers_last (hname : readString cs = some (name, ':' :: c :: ds))
    (hblank : isBlank c = false) (h : readValue n (c :: ds) = some (j, '\x7d' :: rest)) :
    readMembers (n + 1) ('"' :: cs) = some ([(name, j)], rest) := by
  have hcolon : skipBlanks (':' :: c :: ds) = ':' :: c :: ds := skipBlanks_of_head _ rfl
  have hclose : skipBlanks ('\x7d' :: rest) = '\x7d' :: rest := skipBlanks_of_head _ rfl
  simp [readMembers, hname, hcolon, skipBlanks_of_head ds hblank, h, hclose]

theorem readMembers_next {d : Char} {es : List Char}
    (hname : readString cs = some (name, ':' :: c :: ds)) (hblank : isBlank c = false)
    (h : readValue n (c :: ds) = some (j, ',' :: d :: es)) (hnext : isBlank d = false)
    (hrest : readMembers n (d :: es) = some (members, rest)) :
    readMembers (n + 1) ('"' :: cs) = some ((name, j) :: members, rest) := by
  have hcolon : skipBlanks (':' :: c :: ds) = ':' :: c :: ds := skipBlanks_of_head _ rfl
  have hcomma : skipBlanks (',' :: d :: es) = ',' :: d :: es := skipBlanks_of_head _ rfl
  simp [readMembers, hname, hcolon, skipBlanks_of_head ds hblank, h, hcomma,
    skipBlanks_of_head es hnext, hrest]

end Steps

theorem printMembers_head (name : Text) (j : Json) (members : List (Text × Json)) :
    ∃ cs, printMembers ((name, j) :: members) = '"' :: cs := by
  obtain ⟨cs, hcs, -⟩ := readString_quote name []
  cases members with
  | nil => exact ⟨_, by rw [printMembers, hcs, List.cons_append]⟩
  | cons m members => exact ⟨_, by rw [printMembers, hcs, List.cons_append, List.cons_append]⟩

mutual

-- Every call below takes at least one character, except that the first item and the first member
-- start where the array or the object has been entered: hence the one call more.
theorem readValue_print : ∀ (j : Json) (n : Nat) (rest : List Char), isWhole j = true →
    2 * (print j).length ≤ n → Follows rest → readValue n (print j ++ rest) = some (j, rest)
  | .null, n + 1, rest, _, _, _ => by
    simp [print, readValue]
  | .bool true, n + 1, rest, _, _, _ => by
    simp [print, readValue]
  | .bool false, n + 1, rest, _, _, _ => by
    simp [print, readValue]
  | .number (.whole i), n + 1, rest, _, _, hrest => readValue_number n i hrest
  | .number (.decimal ..), _, _, h, _, _ => by
    simp [isWhole] at h
  | .text t, n + 1, rest, _, _, _ => by
    obtain ⟨cs, hcs, hread⟩ := readString_quote t rest
    rw [print, hcs, List.cons_append, readValue, hread, Option.map_some]
  | .array [], n + 1, rest, _, _, _ => by
    simp [print, printItems, readValue, skipBlanks, isBlank]
  | .array (j :: items), n + 1, rest, h, hn, _ => by
    have hwhole : isWhole j = true ∧ itemsWhole items = true := by
      simpa [isWhole, itemsWhole] using h
    have hlen : 2 * (printItems (j :: items)).length + 1 ≤ n := by
      simp only [print, List.length_cons, List.length_append, List.length_nil] at hn
      omega
    have hread := readItems_print j items n rest hwhole.1 hwhole.2 hlen
    obtain ⟨c, cs, hcs, hblank, hclose⟩ := printItems_head j items hwhole.1
    rw [hcs, List.cons_append] at hread
    have hprint : print (.array (j :: items)) ++ rest = '[' :: c :: (cs ++ ']' :: rest) := by
      simp [print, hcs]
    rw [hprint]
    exact readValue_array hblank hclose hread
  | .object [], n + 1, rest, _, _, _ => by
    simp [print, printMembers, readValue, skipBlanks, isBlank]
  | .object ((name, j) :: members), n + 1, rest, h, hn, _ => by
    have hwhole : isWhole j = true ∧ membersWhole members = true := by
      simpa [isWhole, membersWhole] using h
    have hlen : 2 * (printMembers ((name, j) :: members)).length + 1 ≤ n := by
      simp only [print, List.length_cons, List.length_append, List.length_nil] at hn
      omega
    have hread := readMembers_print name j members n rest hwhole.1 hwhole.2 hlen
    obtain ⟨cs, hcs⟩ := printMembers_head name j members
    rw [hcs, List.cons_append] at hread
    have hprint : print (.object ((name, j) :: members)) ++ rest =
        '\x7b' :: '"' :: (cs ++ '\x7d' :: rest) := by
      simp [print, hcs]
    rw [hprint]
    exact readValue_object rfl (by decide) hread
  | j, 0, rest, h, hn, _ => by
    obtain ⟨c, cs, hcs, -⟩ := print_head j h
    simp [hcs] at hn

theorem readItems_print : ∀ (j : Json) (items : List Json) (n : Nat) (rest : List Char),
    isWhole j = true → itemsWhole items = true →
    2 * (printItems (j :: items)).length + 1 ≤ n →
    readItems n (printItems (j :: items) ++ ']' :: rest) = some (j :: items, rest)
  | j, [], n + 1, rest, h, _, hn => by
    rw [printItems] at hn ⊢
    have hread := readValue_print j n (']' :: rest) h (by omega) (follows_cons (by decide))
    exact readItems_last hread
  | j, k :: items, n + 1, rest, h, hitems, hn => by
    have hwhole : isWhole k = true ∧ itemsWhole items = true := by
      simpa [itemsWhole] using hitems
    rw [printItems] at hn ⊢
    simp only [List.length_append, List.length_cons] at hn
    obtain ⟨c, cs, hcs, hblank, -⟩ := printItems_head k items hwhole.1
    have hrest := readItems_print k items n rest hwhole.1 hwhole.2 (by omega)
    have hread := readValue_print j n (',' :: (printItems (k :: items) ++ ']' :: rest)) h
      (by omega) (follows_cons (by decide))
    rw [hcs, List.cons_append] at hrest hread
    rw [List.append_assoc, List.cons_append, hcs, List.cons_append]
    exact readItems_next hread hblank hrest
  | _, _, 0, _, _, _, hn => by
    omega

theorem readMembers_print : ∀ (name : Text) (j : Json) (members : List (Text × Json)) (n : Nat)
    (rest : List Char), isWhole j = true → membersWhole members = true →
    2 * (printMembers ((name, j) :: members)).length + 1 ≤ n →
    readMembers n (printMembers ((name, j) :: members) ++ '\x7d' :: rest) =
      some ((name, j) :: members, rest)
  | name, j, [], n + 1, rest, h, _, hn => by
    rw [printMembers] at hn ⊢
    simp only [List.length_append, List.length_cons] at hn
    have hread := readValue_print j n ('\x7d' :: rest) h (by omega) (follows_cons (by decide))
    obtain ⟨c, cs, hcs, hblank, -⟩ := print_head j h
    obtain ⟨qs, hqs, hname⟩ := readString_quote name (':' :: (print j ++ '\x7d' :: rest))
    rw [hcs, List.cons_append] at hread hname
    rw [List.append_assoc, List.cons_append, hqs, hcs, List.cons_append, List.cons_append]
    exact readMembers_last hname hblank hread
  | name, j, (name', k) :: members, n + 1, rest, h, hmembers, hn => by
    have hwhole : isWhole k = true ∧ membersWhole members = true := by
      simpa [membersWhole] using hmembers
    rw [printMembers] at hn ⊢
    simp only [List.length_append, List.length_cons] at hn
    have hrest := readMembers_print name' k members n rest hwhole.1 hwhole.2 (by omega)
    obtain ⟨ds, hds⟩ := printMembers_head name' k members
    have hread := readValue_print j n
      (',' :: (printMembers ((name', k) :: members) ++ '\x7d' :: rest)) h (by omega)
      (follows_cons (by decide))
    obtain ⟨c, cs, hcs, hblank, -⟩ := print_head j h
    obtain ⟨qs, hqs, hname⟩ := readString_quote name
      (':' :: (print j ++ ',' :: (printMembers ((name', k) :: members) ++ '\x7d' :: rest)))
    rw [hds, List.cons_append] at hrest hread hname
    rw [hcs, List.cons_append] at hread hname
    have hprint : quote name ++ ':' :: print j ++ ',' :: printMembers ((name', k) :: members) ++
        '\x7d' :: rest = '"' :: (qs ++ ':' :: c :: (cs ++ ',' :: '"' :: (ds ++ '\x7d' :: rest))) := by
      simp [hqs, hcs, hds]
    rw [hprint]
    exact readMembers_next hname hblank hread rfl hrest
  | _, _, _, 0, _, _, _, hn => by
    omega

end

/-- A value whose numbers are whole reads back from its compact form. -/
theorem parse?_compact (j : Json) (h : isWhole j = true) : parse? j.compact = some j := by
  obtain ⟨c, cs, hcs, hblank, -⟩ := print_head j h
  have hread := readValue_print j (2 * (print j).length + 1) [] h (by omega) follows_nil
  rw [List.append_nil] at hread
  have hskip : skipBlanks (print j) = print j := by
    rw [hcs]
    exact skipBlanks_of_head cs hblank
  have htext : (compact j).toList = print j := String.toList_ofList
  simp only [parse?, htext, hskip, hread]
  rfl

end CrossRef.Json
