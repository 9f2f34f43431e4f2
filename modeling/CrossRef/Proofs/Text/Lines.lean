import CrossRef.Text.Lines
import Mathlib.Order.Nat
import Mathlib.Tactic.Common

namespace CrossRef.Text

theorem newline_notin_bytes {c : Char} (h : c ≠ '\n') : 10 ∉ String.utf8EncodeChar c := by
  have hval : c.val.toNat ≠ 10 := by
    intro he
    exact h (Char.ext (UInt32.toNat_inj.1 he))
  have hbyte : ∀ n : Nat, n < 256 → n ≠ 10 → (10 : UInt8) ≠ UInt8.ofNat n := by
    intro n hn hne he
    have hnat := congrArg UInt8.toNat he
    rw [UInt8.toNat_ofNat_of_lt' hn] at hnat
    exact hne hnat.symm
  unfold String.utf8EncodeChar
  simp only
  split
  · simp only [List.mem_singleton]
    exact hbyte _ (by omega) hval
  · split
    · simp only [List.mem_cons, List.not_mem_nil, or_false, not_or]
      exact ⟨hbyte _ (by omega) (by omega), hbyte _ (by omega) (by omega)⟩
    · split
      · simp only [List.mem_cons, List.not_mem_nil, or_false, not_or]
        exact ⟨hbyte _ (by omega) (by omega), hbyte _ (by omega) (by omega),
          hbyte _ (by omega) (by omega)⟩
      · simp only [List.mem_cons, List.not_mem_nil, or_false, not_or]
        exact ⟨hbyte _ (by omega) (by omega), hbyte _ (by omega) (by omega),
          hbyte _ (by omega) (by omega), hbyte _ (by omega) (by omega)⟩

theorem pos_lt_of_mem_startsBehind {pos start : Nat} {cs : List Char}
    (h : start ∈ startsBehind pos cs) : pos < start := by
  induction cs generalizing pos with
  | nil => simp [startsBehind] at h
  | cons c cs ih =>
    have hsize := c.utf8Size_pos
    rw [startsBehind] at h
    split at h
    · rcases List.mem_cons.1 h with rfl | h
      · omega
      · have hpos := ih h
        omega
    · have hpos := ih h
      omega

theorem startsBehind_ascending (pos : Nat) (cs : List Char) :
    (startsBehind pos cs).Pairwise (· < ·) := by
  induction cs generalizing pos with
  | nil => simp [startsBehind]
  | cons c cs ih =>
    rw [startsBehind]
    split
    · exact List.pairwise_cons.2 ⟨fun start h => pos_lt_of_mem_startsBehind h, ih _⟩
    · exact ih _

/-- The line starts up to an offset are the newlines among the bytes before it. -/
theorem countP_startsBehind (pos offset : Nat) (cs : List Char) :
    (startsBehind pos cs).countP (fun start => start ≤ offset) =
      ((bytes cs).take (offset - pos)).count 10 := by
  induction cs generalizing pos with
  | nil => simp [startsBehind, bytes]
  | cons c cs ih =>
    have hbytes : bytes (c :: cs) = String.utf8EncodeChar c ++ bytes cs := by simp [bytes]
    have hlen : (String.utf8EncodeChar c).length = c.utf8Size := String.length_utf8EncodeChar c
    rw [startsBehind, hbytes, List.take_append, List.count_append, hlen, Nat.sub_sub]
    by_cases hc : c = '\n'
    · subst hc
      have hone : String.utf8EncodeChar '\n' = [10] := rfl
      have hsize : '\n'.utf8Size = 1 := rfl
      rw [if_pos rfl, hsize, List.countP_cons, ih, hone, Nat.add_comm]
      by_cases hle : pos + 1 ≤ offset
      · obtain ⟨n, hn⟩ : ∃ n, offset - pos = n + 1 := ⟨offset - pos - 1, by omega⟩
        simp [hn, hle]
      · have hzero : offset - pos = 0 := by omega
        simp [hzero, hle]
    · have hnone : ((String.utf8EncodeChar c).take (offset - pos)).count 10 = 0 :=
        List.count_eq_zero.2 fun h => newline_notin_bytes hc (List.mem_of_mem_take h)
      rw [if_neg hc, ih, hnone, Nat.zero_add]

theorem count_bytes (cs : List Char) : (bytes cs).count 10 = cs.count '\n' := by
  induction cs with
  | nil => rfl
  | cons c cs ih =>
    have hbytes : bytes (c :: cs) = String.utf8EncodeChar c ++ bytes cs := by simp [bytes]
    rw [hbytes, List.count_append, ih, List.count_cons, Nat.add_comm]
    by_cases hc : c = '\n'
    · subst hc
      rfl
    · rw [List.count_eq_zero.2 (newline_notin_bytes hc), if_neg (by simpa using hc)]

theorem count_take_bytes {before behind : List Char} {c : Char} {offset : Nat}
    (hle : size before ≤ offset) (hlt : offset < size before + c.utf8Size) :
    ((bytes (before ++ c :: behind)).take offset).count 10 = before.count '\n' := by
  have hsplit : bytes (before ++ c :: behind) =
      bytes before ++ (String.utf8EncodeChar c ++ bytes behind) := by simp [bytes]
  have hlength : (String.utf8EncodeChar c).length = c.utf8Size := String.length_utf8EncodeChar c
  have hbehind : offset - size before - c.utf8Size = 0 := by omega
  have hinner : ((String.utf8EncodeChar c).take (offset - size before)).count 10 = 0 := by
    by_cases hc : c = '\n'
    · have hone : c.utf8Size = 1 := by rw [hc]; rfl
      have hzero : offset - size before = 0 := by omega
      rw [hzero, List.take_zero, List.count_nil]
    · exact List.count_eq_zero.2 fun h => newline_notin_bytes hc (List.mem_of_mem_take h)
  rw [hsplit, List.take_append, List.count_append, length_bytes,
    List.take_of_length_le ((length_bytes before).trans_le hle), count_bytes, List.take_append,
    List.count_append, hlength, hbehind, hinner, List.take_zero, List.count_nil, Nat.add_zero]

/-- The number of newlines among the bytes from `i` up to `j`. -/
def newlines (text : String) (i j : Nat) : Nat := (((bytes text.toList).take j).drop i).count 10

theorem newlines_split (text : String) {i j : Nat} (h : i ≤ j) :
    newlines text 0 j = newlines text 0 i + newlines text i j := by
  have hfront : ((bytes text.toList).take j).take i = (bytes text.toList).take i := by
    rw [List.take_take, Nat.min_eq_left h]
  unfold newlines
  rw [List.drop_zero, List.drop_zero, ← hfront, ← List.count_append, List.take_append_drop]

theorem length_startsBehind (pos : Nat) (cs : List Char) :
    (startsBehind pos cs).length = cs.count '\n' := by
  induction cs generalizing pos with
  | nil => rfl
  | cons c cs ih =>
    rw [startsBehind, List.count_cons]
    split <;> simp_all

namespace LineTable

/-- The search keeps all entries up to the offset in front of the range and all above it behind. -/
theorem searchAbove_spec (starts : Array Nat) (offset lo hi : Nat) (hlo : lo ≤ hi)
    (hhi : hi ≤ starts.size) (hs : starts.toList.Pairwise (· < ·))
    (hbefore : ∀ i (h : i < starts.size), i < lo → starts[i] ≤ offset)
    (hbehind : ∀ i (h : i < starts.size), hi ≤ i → offset < starts[i]) :
    searchAbove starts offset lo hi ≤ starts.size ∧
      (∀ i (h : i < starts.size), i < searchAbove starts offset lo hi → starts[i] ≤ offset) ∧
      ∀ i (h : i < starts.size), searchAbove starts offset lo hi ≤ i → offset < starts[i] := by
  have hmono : ∀ i j (hi : i < starts.size) (hj : j < starts.size), i < j → starts[i] < starts[j] :=
    fun i j hi hj hij => List.pairwise_iff_getElem.1 hs i j hi hj hij
  fun_induction searchAbove starts offset lo hi with
  | case1 lo hi h mid hmid hle ih =>
    refine ih (by omega) hhi (fun i hi hlt => ?_) hbehind
    rcases Nat.lt_or_eq_of_le (Nat.lt_succ_iff.1 hlt) with hlt | rfl
    · exact (hmono i mid hi hmid hlt).le.trans hle
    · exact hle
  | case2 lo hi h mid hmid hgt ih =>
    apply ih (by omega) (by omega) hbefore
    intro i hi hle
    rcases Nat.lt_or_eq_of_le hle with hlt | rfl
    · exact (by omega : offset < starts[mid]).trans (hmono mid i hmid hi hlt)
    · omega
  | case3 lo hi h =>
    have heq : lo = hi := by omega
    exact ⟨hlo.trans hhi, hbefore, heq ▸ hbehind⟩

theorem startsUpTo_eq_countP (t : LineTable) (offset : Nat) (hs : t.starts.toList.Pairwise (· < ·)) :
    t.startsUpTo offset = t.starts.toList.countP (fun start => start ≤ offset) := by
  obtain ⟨hle, hbefore, hbehind⟩ := searchAbove_spec t.starts offset 0 t.starts.size (Nat.zero_le _)
    le_rfl hs (fun i _ hi => absurd hi (Nat.not_lt_zero i)) fun i h hi => absurd h (by omega)
  unfold startsUpTo
  generalize searchAbove t.starts offset 0 t.starts.size = n at hle hbefore hbehind
  have hfront : (t.starts.toList.take n).countP (fun start => start ≤ offset) = n := by
    rw [List.countP_eq_length.2, List.length_take, Array.length_toList, Nat.min_eq_left hle]
    intro start h
    obtain ⟨i, hi, rfl⟩ := List.mem_take_iff_getElem.1 h
    simpa using hbefore i (by simp at hi; omega) (by omega)
  have hback : (t.starts.toList.drop n).countP (fun start => start ≤ offset) = 0 := by
    apply List.countP_eq_zero.2
    intro start h
    obtain ⟨i, hi, rfl⟩ := List.mem_drop_iff_getElem.1 h
    simpa using hbehind (n + i) (by simp at hi; omega) (by omega)
  calc n = (t.starts.toList.take n).countP (fun start => start ≤ offset) +
        (t.starts.toList.drop n).countP (fun start => start ≤ offset) := by rw [hfront, hback]; rfl
    _ = _ := by rw [← List.countP_append, List.take_append_drop]

theorem starts_ascending (text : String) : (ofText text).starts.toList.Pairwise (· < ·) :=
  List.pairwise_cons.2 ⟨fun _ h => pos_lt_of_mem_startsBehind h, startsBehind_ascending 0 _⟩

/-- A byte stands behind as many newlines as there are lines before its own. -/
theorem startsUpTo_ofText (text : String) (offset : Nat) :
    (ofText text).startsUpTo offset = 1 + ((bytes text.toList).take offset).count 10 := by
  rw [startsUpTo_eq_countP _ _ (starts_ascending text)]
  change (0 :: startsBehind 0 text.toList).countP (fun start => start ≤ offset) = _
  rw [List.countP_cons, countP_startsBehind, Nat.sub_zero]
  simp [Nat.add_comm]

theorem lineCount_ofText (text : String) :
    (ofText text).lineCount = 1 + text.toList.count '\n' := by
  simp [lineCount, ofText, length_startsBehind, Nat.add_comm]

theorem lineAt_pos (text : String) (offset : Nat) : 0 < ((ofText text).lineAt offset).toNat := by
  have hsize : 0 < UInt32.size - 1 := by decide
  rw [lineAt, startsUpTo_ofText, UInt32.toNat_ofNat_of_lt' (by omega)]
  omega

/-- The line of an offset, as far as 32 bits reach. -/
theorem toNat_lineAt (text : String) (offset : Nat) :
    ((ofText text).lineAt offset).toNat =
      min (UInt32.size - 1) (1 + newlines text 0 offset) := by
  have hsize : 0 < UInt32.size := by decide
  have hcount : newlines text 0 offset = ((bytes text.toList).take offset).count 10 := rfl
  rw [lineAt, startsUpTo_ofText, hcount, UInt32.toNat_ofNat_of_lt' (by omega), Nat.min_comm]

/-- A character stands on the line that all its bytes are on. -/
theorem lineAt_char {text : String} {before behind : List Char} {c : Char} {offset : Nat}
    (hlines : (ofText text).lineCount < UInt32.size) (htext : text.toList = before ++ c :: behind)
    (hle : size before ≤ offset) (hlt : offset < size before + c.utf8Size) :
    ((ofText text).lineAt offset).toNat = 1 + before.count '\n' := by
  have hcount : 1 + before.count '\n' < UInt32.size := by
    rw [lineCount_ofText, htext, List.count_append] at hlines
    omega
  rw [lineAt, startsUpTo_ofText, htext, count_take_bytes hle hlt,
    Nat.min_eq_left (Nat.le_sub_one_of_lt hcount), UInt32.toNat_ofNat_of_lt' hcount]

/-- The table of a text begins with 0, ascends and has an entry for each line. The line of an offset,
inside a character or past the end as well, is one more than the number of newlines in front of it,
as far as 32 bits reach. So a later offset is on a later line by the newlines in between. -/
theorem lineAt_counts (text : String) :
    (ofText text).starts.toList.head? = some 0 ∧
    (ofText text).starts.toList.Pairwise (· < ·) ∧
    (ofText text).lineCount = 1 + (bytes text.toList).count 10 ∧
    (∀ offset, ((ofText text).lineAt offset).toNat =
      min (UInt32.size - 1) (1 + newlines text 0 offset)) ∧
    ∀ i j, i ≤ j → (ofText text).lineAt i ≤ (ofText text).lineAt j ∧
      (1 + newlines text 0 j < UInt32.size →
        ((ofText text).lineAt j).toNat - ((ofText text).lineAt i).toNat = newlines text i j) := by
  refine ⟨rfl, starts_ascending text, ?_, toNat_lineAt text, ?_⟩
  · rw [lineCount_ofText, count_bytes]
  intro i j hle
  have hi := toNat_lineAt text i
  have hj := toNat_lineAt text j
  have hsplit := newlines_split text hle
  constructor
  · rw [UInt32.le_iff_toNat_le]
    omega
  · intro hsmall
    omega

/-- Offsets on a newline, inside a character and past the end. -/
theorem lineAt_counts_offsets :
    let text := "a\n\n\u00fc\nb"
    (ofText text).lineAt 2 ≤ (ofText text).lineAt 4 ∧ 1 + newlines text 0 4 < UInt32.size ∧
      ((ofText text).lineAt 4).toNat - ((ofText text).lineAt 2).toNat = newlines text 2 4 ∧
      newlines text 2 4 = 1 ∧ ((ofText text).lineAt 100).toNat = 4 := by
  intro text
  have hsmall : 1 + newlines text 0 4 < UInt32.size := by decide +kernel
  obtain ⟨-, -, -, hline, hlater⟩ := lineAt_counts text
  obtain ⟨hle, hdiff⟩ := hlater 2 4 (by decide)
  have hend : min (UInt32.size - 1) (1 + newlines text 0 100) = 4 := by decide +kernel
  exact ⟨hle, hsmall, hdiff hsmall, by decide +kernel, (hline 100).trans hend⟩

end LineTable

end CrossRef.Text
