import BindingProxy.Text.Position
import Mathlib.Tactic.Lemma

/-!
# Lines of a text

A line map is made of characters, and the offsets that it is asked about count bytes.  The bytes of
a text alone tell the position of an offset: no byte of another character looks like a line feed, so
the line feeds among the bytes are those among the characters.  This holds for every offset, inside a
character and past the end too.
-/

namespace BindingProxy

/-- The bytes of a text. -/
def bytesOf (text : String) : List UInt8 := text.toUTF8.data.toList

/-- The offsets of the line feeds before an offset, in increasing order. -/
def feedsBefore (bytes : List UInt8) (offset : Nat) : List Nat :=
  (List.range offset).filter fun i => bytes[i]? = some 10

/-- The position of an offset: the line feeds before it are counted, and the column is counted from
just after the last one of them, or from the beginning. -/
def Position.ofBytes (bytes : List UInt8) (offset : Nat) : Position :=
  let feeds := feedsBefore bytes offset
  ⟨1 + feeds.length, offset - feeds.getLast?.elim 0 (· + 1) + 1⟩

/-! ### Bytes of characters -/

lemma bytesOf_eq (text : String) : bytesOf text = text.toList.flatMap String.utf8EncodeChar := by
  rw [bytesOf, String.toUTF8, ← String.utf8Encode_toList, List.utf8Encode,
    List.toList_data_toByteArray]

lemma length_bytesOf (text : String) : (bytesOf text).length = byteWidth text.toList := by
  rw [bytesOf_eq]
  induction text.toList with
  | nil => rfl
  | cons c cs ih =>
    rw [List.flatMap_cons, List.length_append, String.length_utf8EncodeChar, ih, byteWidth_cons]

/-- Only the line feed has a byte that looks like one. -/
lemma not_mem_utf8EncodeChar {c : Char} (h : c ≠ '\n') : 10 ∉ String.utf8EncodeChar c := by
  have hne : c.val.toNat ≠ 10 := fun heq => h (Char.ext (UInt32.toNat_inj.1 heq))
  have hbytes : ∀ ns : List Nat, (∀ n ∈ ns, n < 256 ∧ n ≠ 10) → 10 ∉ ns.map UInt8.ofNat := by
    intro ns hns hmem
    obtain ⟨n, hn, heq⟩ := List.mem_map.1 hmem
    have hnat := congrArg UInt8.toNat heq
    rw [UInt8.toNat_ofNat_of_lt' (hns n hn).1] at hnat
    exact (hns n hn).2 hnat
  unfold String.utf8EncodeChar
  extract_lets v
  have hv : v ≠ 10 := hne
  split
  · exact hbytes [v] (by simp only [List.forall_mem_singleton]; omega)
  -- In longer forms every byte is above those of the ASCII characters.
  have hlong : ∀ ns : List Nat, (∀ n ∈ ns, 128 ≤ n ∧ n < 256) → 10 ∉ ns.map UInt8.ofNat :=
    fun ns hns => hbytes ns fun n hn => ⟨(hns n hn).2, by have := (hns n hn).1; omega⟩
  split
  · exact hlong [_, _] (by simp only [List.mem_cons, List.not_mem_nil]; grind)
  split
  · exact hlong [_, _, _] (by simp only [List.mem_cons, List.not_mem_nil]; grind)
  · exact hlong [_, _, _, _] (by simp only [List.mem_cons, List.not_mem_nil]; grind)

/-! ### Line feeds before an offset -/

section

variable {front : List UInt8}

/-- The line feeds in the front come before those that follow it. -/
lemma feedsBefore_append {n : Nat} (hn : front.length = n) (bytes : List UInt8) (offset : Nat) :
    feedsBefore (front ++ bytes) (n + offset) =
      feedsBefore front n ++ (feedsBefore bytes offset).map (n + ·) := by
  subst hn
  rw [feedsBefore, List.range_add, List.filter_append, List.filter_map]
  congr 1
  · refine List.filter_congr fun i hi => ?_
    rw [List.getElem?_append_left (List.mem_range.1 hi)]
  · congr 1
    refine List.filter_congr fun i _ => ?_
    rw [Function.comp_apply, List.getElem?_append_right (Nat.le_add_right _ _), Nat.add_sub_cancel_left]

/-- Inside the front only its own line feeds count. -/
lemma feedsBefore_append_of_le {offset : Nat} (h : offset ≤ front.length) (bytes : List UInt8) :
    feedsBefore (front ++ bytes) offset = feedsBefore front offset := by
  refine List.filter_congr fun i hi => ?_
  rw [List.getElem?_append_left (Nat.lt_of_lt_of_le (List.mem_range.1 hi) h)]

lemma feedsBefore_eq_nil (h : 10 ∉ front) (offset : Nat) : feedsBefore front offset = [] := by
  refine List.filter_eq_nil_iff.2 fun i _ hi => h ?_
  exact List.mem_of_getElem? (of_decide_eq_true hi)

end

namespace LineMap

/-- Every later line starts later. -/
lemma lt_of_mem_laterStarts {offset start : Nat} {cs : List Char}
    (h : start ∈ laterStarts offset cs) : offset < start := by
  induction cs generalizing offset with
  | nil => cases h
  | cons c cs ih =>
    have hpos := c.utf8Size_pos
    have hlater : start ∈ laterStarts (offset + c.utf8Size) cs → offset < start := fun h => by
      have := ih h
      omega
    rw [laterStarts] at h
    split at h
    · rcases List.mem_cons.1 h with rfl | h
      · omega
      · exact hlater h
    · exact hlater h

/-- No line starts inside the first character. -/
lemma takeWhile_laterStarts_of_lt {start offset : Nat} {c : Char} (h : offset < c.utf8Size)
    (cs : List Char) : (laterStarts start (c :: cs)).takeWhile (· ≤ start + offset) = [] := by
  have hbeyond : ∀ x ∈ laterStarts start (c :: cs), ¬ x ≤ start + offset := by
    intro x hx
    rw [laterStarts] at hx
    split at hx
    · rcases List.mem_cons.1 hx with rfl | hx
      · omega
      · have := lt_of_mem_laterStarts hx
        omega
    · have := lt_of_mem_laterStarts hx
      omega
  cases hstarts : laterStarts start (c :: cs) with
  | nil => rfl
  | cons x xs =>
    rw [hstarts] at hbeyond
    exact List.takeWhile_cons_of_neg (by simpa using hbeyond x List.mem_cons_self)

/-- The lines that start at or before an offset start just after the line feeds before it. -/
lemma takeWhile_laterStarts (start offset : Nat) (cs : List Char) :
    (laterStarts start cs).takeWhile (· ≤ start + offset) =
      (feedsBefore (cs.flatMap String.utf8EncodeChar) offset).map (start + · + 1) := by
  induction cs generalizing start offset with
  | nil => rw [List.flatMap_nil, feedsBefore_eq_nil (by simp)]; rfl
  | cons c cs ih =>
    rw [List.flatMap_cons]
    have hlength : (String.utf8EncodeChar c).length = c.utf8Size := String.length_utf8EncodeChar c
    by_cases hoffset : c.utf8Size ≤ offset
    · obtain ⟨later, rfl⟩ := Nat.exists_eq_add_of_le hoffset
      have hlater := ih (start + c.utf8Size) later
      rw [feedsBefore_append hlength, List.map_append, List.map_map]
      have hmap : (feedsBefore (cs.flatMap String.utf8EncodeChar) later).map
          ((start + · + 1) ∘ (c.utf8Size + ·)) = (laterStarts (start + c.utf8Size) cs).takeWhile
            (· ≤ start + (c.utf8Size + later)) := by
        rw [← Nat.add_assoc, hlater]
        exact List.map_congr_left fun i _ => by simp only [Function.comp_apply]; omega
      rw [hmap, laterStarts]
      by_cases hc : c = '\n'
      · subst hc
        rw [if_pos rfl, List.takeWhile_cons_of_pos (by simp)]
        rfl
      · rw [if_neg hc, feedsBefore_eq_nil (not_mem_utf8EncodeChar hc)]
        rfl
    · rw [takeWhile_laterStarts_of_lt (Nat.lt_of_not_le hoffset),
        feedsBefore_append_of_le (by omega)]
      by_cases hc : c = '\n'
      · subst hc
        have hzero : offset = 0 := by
          have : ('\n').utf8Size = 1 := rfl
          omega
        rw [hzero]
        rfl
      · rw [feedsBefore_eq_nil (not_mem_utf8EncodeChar hc)]
        rfl

/-- The position of an offset as the bytes tell it. -/
lemma position_ofText (text : String) (offset : Nat) :
    (ofText text).position offset = .ofBytes (bytesOf text) offset := by
  have hlater := takeWhile_laterStarts 0 offset text.toList
  rw [← bytesOf_eq, Nat.zero_add] at hlater
  have hbegun : (ofText text).starts.takeWhile (· ≤ offset) =
      0 :: (feedsBefore (bytesOf text) offset).map (· + 1) := by
    rw [ofText, List.takeWhile_cons_of_pos (by simp), hlater]
    simp
  have hlast : (0 :: (feedsBefore (bytesOf text) offset).map (· + 1)).getLastD 0 =
      (feedsBefore (bytesOf text) offset).getLast?.elim 0 (· + 1) := by
    rw [List.getLastD_eq_getLast?, List.getLast?_cons, List.getLast?_map]
    cases (feedsBefore (bytesOf text) offset).getLast? <;> rfl
  rw [position, hbegun, hlast, List.length_cons, List.length_map, Nat.add_comm, Position.ofBytes]

end LineMap

end BindingProxy
