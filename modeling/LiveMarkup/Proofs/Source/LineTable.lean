import LiveMarkup.Source.Lines
set_option autoImplicit false

/-! # Two ways to look up a line

One offset is looked up by counting line feeds before it, many by a binary search in the table of line
starts. Both come to one more than the line feeds among the bytes before the offset, and the column is
told from the start of that line (`LineTable.position_ofSource`). The search is on an ascending table
and ends where its entries pass the offset (`LineTable.passesAt_countUpTo`); of the starts of a source,
as many are at most an offset as there are line feeds before it (`LineTable.countP_startsFrom`). -/

namespace LiveMarkup

open Text

/-! ## Bytes -/

/-- The bytes of a text in UTF-8. -/
def Text.bytes (s : List Char) : List UInt8 := s.flatMap String.utf8EncodeChar

theorem Text.bytes_toList (source : String) :
    bytes source.toList = source.toByteArray.data.toList := by
  rw [← String.utf8Encode_toList, List.utf8Encode, List.toList_data_toByteArray, bytes]

theorem Text.bytes_append (s t : List Char) : bytes (s ++ t) = bytes s ++ bytes t :=
  List.flatMap_append

theorem Text.length_bytes (s : List Char) : (bytes s).length = byteLength s := by
  induction s with
  | nil => rfl
  | cons c s ih =>
      rw [bytes, List.flatMap_cons, List.length_append, String.length_utf8EncodeChar, byteLength]
      exact congrArg (c.utf8Size + ·) ih

/-- The byte of a line feed. -/
def lineFeedByte : UInt8 := 10

/-- No other character has the byte of a line feed in its encoding. -/
theorem lineFeedByte_not_mem {c : Char} (hc : c ≠ '\n') :
    lineFeedByte ∉ String.utf8EncodeChar c := by
  have hval : c.val.toNat ≠ 10 := by
    intro h
    exact hc (Char.ext (UInt32.toNat_inj.mp h))
  have hbyte : ∀ n : Nat, n < 256 → n ≠ 10 → lineFeedByte ≠ UInt8.ofNat n := by
    intro n hlt hne h
    refine hne ?_
    have := congrArg UInt8.toNat h
    rw [UInt8.toNat_ofNat_of_lt' hlt] at this
    exact this.symm
  unfold String.utf8EncodeChar
  dsimp only
  split
  · simpa using hbyte _ (by omega) hval
  · split
    · simp only [List.mem_cons, List.not_mem_nil, or_false, not_or]
      exact ⟨hbyte _ (by omega) (by omega), hbyte _ (by omega) (by omega)⟩
    · split
      · simp only [List.mem_cons, List.not_mem_nil, or_false, not_or]
        exact ⟨hbyte _ (by omega) (by omega), hbyte _ (by omega) (by omega),
          hbyte _ (by omega) (by omega)⟩
      · simp only [List.mem_cons, List.not_mem_nil, or_false, not_or]
        exact ⟨hbyte _ (by omega) (by omega), hbyte _ (by omega) (by omega),
          hbyte _ (by omega) (by omega), hbyte _ (by omega) (by omega)⟩

/-- Of the encoding of a character, only the whole one of a line feed has the byte of a line feed. -/
theorem count_take_utf8EncodeChar (c : Char) (n : Nat) :
    ((String.utf8EncodeChar c).take n).count lineFeedByte =
      if c = '\n' ∧ c.utf8Size ≤ n then 1 else 0 := by
  by_cases hc : c = '\n'
  · subst hc
    cases n with
    | zero => rfl
    | succ n => simp [show String.utf8EncodeChar '\n' = [lineFeedByte] from rfl,
        show '\n'.utf8Size = 1 from rfl]
  · rw [if_neg (fun h => hc h.1)]
    exact List.count_eq_zero.mpr fun h => lineFeedByte_not_mem hc (List.mem_of_mem_take h)

/-- Line feeds before an offset are the bytes of line feeds before it. -/
theorem lineFeedsBefore_eq_count (offset : Nat) (s : List Char) :
    lineFeedsBefore offset s = ((bytes s).take offset).count lineFeedByte := by
  induction s generalizing offset with
  | nil => simp [lineFeedsBefore, bytes]
  | cons c s ih =>
      rw [lineFeedsBefore, bytes, List.flatMap_cons, ← bytes, List.take_append,
        String.length_utf8EncodeChar, List.count_append, count_take_utf8EncodeChar, ih]
      by_cases hsize : c.utf8Size ≤ offset
      · simp [hsize]
      · simp [hsize, Nat.sub_eq_zero_of_le (Nat.le_of_not_le hsize)]

namespace LineTable

/-! ## The starts of a source -/

/-- Every start is just past a line feed. -/
theorem exists_of_mem_startsFrom {base start : Nat} {s : List Char}
    (hsize : base + byteLength s ≤ Span.limit) (h : start ∈ startsFrom base s) :
    ∃ before after, s = before ++ '\n' :: after ∧ start = base + byteLength before + 1 := by
  induction s generalizing base with
  | nil => simp [startsFrom] at h
  | cons c s ih =>
      rw [byteLength, ← Nat.add_assoc] at hsize
      have hlater : start ∈ startsFrom (base + c.utf8Size) s →
          ∃ before after, c :: s = before ++ '\n' :: after ∧
            start = base + byteLength before + 1 := by
        intro h
        obtain ⟨before, after, rfl, rfl⟩ := ih hsize h
        exact ⟨c :: before, after, rfl, by rw [byteLength]; omega⟩
      rw [startsFrom] at h
      split at h
      next hc =>
        subst hc
        rcases List.mem_cons.mp h with rfl | h
        · refine ⟨[], s, rfl, ?_⟩
          rw [Nat.min_eq_left (by omega)]
          rfl
        · exact hlater h
      next => exact hlater h

/-- The starts are in ascending order, and none is before the first line feed. -/
theorem ascending_startsFrom {base : Nat} {s : List Char}
    (hsize : base + byteLength s ≤ Span.limit) :
    (∀ start ∈ startsFrom base s, base < start) ∧ (startsFrom base s).Pairwise (· < ·) := by
  induction s generalizing base with
  | nil => simp [startsFrom]
  | cons c s ih =>
      rw [byteLength, ← Nat.add_assoc] at hsize
      obtain ⟨hbehind, hpairwise⟩ := ih hsize
      have hpos := c.utf8Size_pos
      rw [startsFrom]
      split
      · rw [Nat.min_eq_left (by omega)]
        refine ⟨List.forall_mem_cons.mpr ⟨by omega, fun start h => ?_⟩, .cons hbehind hpairwise⟩
        exact Nat.lt_of_le_of_lt (Nat.le_add_right _ _) (hbehind start h)
      · exact ⟨fun start h => Nat.lt_of_le_of_lt (Nat.le_add_right _ _) (hbehind start h), hpairwise⟩

/-- As many starts are at most an offset as there are line feeds before it. -/
theorem countP_startsFrom {base : Nat} {s : List Char} (hsize : base + byteLength s ≤ Span.limit)
    (offset : Nat) : (startsFrom base s).countP (· ≤ base + offset) = lineFeedsBefore offset s := by
  induction s generalizing base offset with
  | nil => rfl
  | cons c s ih =>
      rw [byteLength, ← Nat.add_assoc] at hsize
      rw [startsFrom, lineFeedsBefore]
      by_cases hpast : c.utf8Size ≤ offset
      · have hrest := ih hsize (offset - c.utf8Size)
        rw [Nat.add_assoc, Nat.add_sub_cancel' hpast] at hrest
        rw [if_pos hpast]
        split
        · rw [List.countP_cons, hrest, Nat.min_eq_left (by omega), if_pos (by simpa using hpast),
            Nat.add_comm]
        · rw [hrest, Nat.zero_add]
      · -- all starts are past the first character
        have hnone : (startsFrom (base + c.utf8Size) s).countP (· ≤ base + offset) = 0 := by
          refine List.countP_eq_zero.mpr fun start h => ?_
          have := (ascending_startsFrom hsize).1 start h
          simp only [decide_eq_true_eq]
          omega
        rw [if_neg hpast]
        split
        · rw [List.countP_cons, hnone, Nat.min_eq_left (by omega), if_neg (by simpa using hpast)]
        · exact hnone

/-! ## The search -/

theorem getElem_mono {starts : Array Nat} (hascending : starts.toList.Pairwise (· < ·)) {i j : Nat}
    (hi : i < starts.size) (hj : j < starts.size) (hij : i ≤ j) : starts[i] ≤ starts[j] := by
  rcases Nat.lt_or_eq_of_le hij with hlt | rfl
  · exact Nat.le_of_lt (List.pairwise_iff_getElem.mp hascending i j hi hj hlt)
  · exact Nat.le_refl _

/-- The entries of a table pass an offset at an index: those before it do not, the others do. -/
structure PassesAt (starts : Array Nat) (offset index : Nat) : Prop where
  le_size : index ≤ starts.size
  below : ∀ i (h : i < starts.size), i < index → starts[i] ≤ offset
  above : ∀ i (h : i < starts.size), index ≤ i → offset < starts[i]

/-- The search keeps the place where the entries pass the offset between its bounds. -/
theorem passesAt_countUpTo {starts : Array Nat} {offset lo hi : Nat}
    (hascending : starts.toList.Pairwise (· < ·)) (hlo : lo ≤ hi) (hhi : hi ≤ starts.size)
    (hbelow : ∀ i (h : i < starts.size), i < lo → starts[i] ≤ offset)
    (habove : ∀ i (h : i < starts.size), hi ≤ i → offset < starts[i]) :
    PassesAt starts offset (countUpTo starts offset lo hi) := by
  fun_induction countUpTo starts offset lo hi with
  | case1 lo hi hlt mid hmid ih =>
      have hsize : mid < starts.size := by omega
      rw [Array.getElem?_eq_getElem hsize, Option.any_some, decide_eq_true_eq] at hmid
      refine ih (by omega) hhi (fun i h hi' => ?_) habove
      exact Nat.le_trans (getElem_mono hascending h hsize (by omega)) hmid
  | case2 lo hi hlt mid hmid ih =>
      have hsize : mid < starts.size := by omega
      rw [Array.getElem?_eq_getElem hsize, Option.any_some, decide_eq_true_eq, Nat.not_le] at hmid
      refine ih (by omega) (by omega) hbelow fun i h hi' => ?_
      exact Nat.lt_of_lt_of_le hmid (getElem_mono hascending hsize h hi')
  | case3 lo hi hlt =>
      obtain rfl : lo = hi := by omega
      exact ⟨hhi, hbelow, habove⟩

/-- Where the entries pass an offset is told by their number. -/
theorem PassesAt.countP {starts : Array Nat} {offset index : Nat}
    (h : PassesAt starts offset index) : starts.toList.countP (· ≤ offset) = index := by
  have htake : (starts.toList.take index).countP (· ≤ offset) = index := by
    rw [List.countP_eq_length.mpr, List.length_take, Array.length_toList,
      Nat.min_eq_left h.le_size]
    intro start hstart
    obtain ⟨i, hi, rfl⟩ := List.mem_take_iff_getElem.mp hstart
    rw [Array.length_toList] at hi
    simpa using h.below i (by omega) (by omega)
  have hdrop : (starts.toList.drop index).countP (· ≤ offset) = 0 := by
    refine List.countP_eq_zero.mpr fun start hstart => ?_
    obtain ⟨i, hi, rfl⟩ := List.mem_drop_iff_getElem.mp hstart
    rw [Array.length_toList] at hi
    simpa using h.above (index + i) (by omega) (by omega)
  rw [← List.take_append_drop index starts.toList, List.countP_append, htake, hdrop, Nat.add_zero]

/-- The search over a whole ascending table finds the place. -/
theorem passesAt_search {starts : Array Nat} (hascending : starts.toList.Pairwise (· < ·))
    (offset : Nat) : PassesAt starts offset (countUpTo starts offset 0 starts.size) :=
  passesAt_countUpTo hascending (Nat.zero_le _) (Nat.le_refl _)
    (fun _ _ h => absurd h (Nat.not_lt_zero _)) fun _ h hle => absurd h (Nat.not_lt_of_le hle)

/-- The last entry that is at most an offset, and no other entry lies between the two. -/
theorem PassesAt.exists_last {starts : Array Nat} {offset index : Nat}
    (h : PassesAt starts offset index) (hascending : starts.toList.Pairwise (· < ·))
    (hpos : 0 < index) :
    ∃ start ∈ starts.toList, starts[index - 1]? = some start ∧ start ≤ offset ∧
      starts.toList.countP (· ≤ start) = index := by
  have hle := h.le_size
  have hindex : index - 1 < starts.size := by omega
  refine ⟨starts[index - 1], Array.getElem_mem_toList hindex, Array.getElem?_eq_getElem hindex,
    h.below _ hindex (by omega), PassesAt.countP ⟨hle, fun i hi hlt => ?_, fun i hi hlt => ?_⟩⟩
  · exact getElem_mono hascending hi hindex (by omega)
  · exact Nat.lt_of_le_of_lt (h.below _ hindex (by omega)) (h.above i hi hlt)

/-! ## Lines and columns -/

/-- The bytes from `start` on up to an offset begin a line and hold no line feed. -/
structure StartsLine (bytes : List UInt8) (start offset : Nat) : Prop where
  atStart : start = 0 ∨ bytes[start - 1]? = some lineFeedByte
  noLineFeed : lineFeedByte ∉ (bytes.take offset).drop start

section

variable {source : List Char}

theorem starts_ofSource : (ofSource source).starts.toList = 0 :: startsFrom 0 source := rfl

theorem ascending_ofSource (hsize : byteLength source ≤ Span.limit) :
    (ofSource source).starts.toList.Pairwise (· < ·) := by
  rw [← Nat.zero_add (byteLength source)] at hsize
  obtain ⟨hpos, hpairwise⟩ := ascending_startsFrom hsize
  exact .cons hpos hpairwise

theorem countP_ofSource (hsize : byteLength source ≤ Span.limit) (offset : Nat) :
    (ofSource source).starts.toList.countP (· ≤ offset) = LiveMarkup.lineAt source offset := by
  rw [← Nat.zero_add (byteLength source)] at hsize
  have hrest := countP_startsFrom hsize offset
  rw [Nat.zero_add] at hrest
  rw [starts_ofSource, List.countP_cons, hrest, if_pos (by simp), LiveMarkup.lineAt]

theorem passesAt_ofSource (hsize : byteLength source ≤ Span.limit) (offset : Nat) :
    countUpTo (ofSource source).starts offset 0 (ofSource source).starts.size =
        LiveMarkup.lineAt source offset ∧
      PassesAt (ofSource source).starts offset (LiveMarkup.lineAt source offset) := by
  have hpasses := passesAt_search (ascending_ofSource hsize) offset
  have hline := hpasses.countP.symm.trans (countP_ofSource hsize offset)
  exact ⟨hline, hline ▸ hpasses⟩

/-- The table gives the line that one pass over the source gives. -/
theorem lineAt_ofSource (hsize : byteLength source ≤ Span.limit) (offset : Nat) :
    (ofSource source).lineAt offset = LiveMarkup.lineAt source offset := by
  rw [lineAt, (passesAt_ofSource hsize offset).1]
  exact Nat.max_eq_right (Nat.le_add_left _ _)

/-- The entry of the table for the line of an offset is the start of that line. -/
theorem exists_start_ofSource (hsize : byteLength source ≤ Span.limit) (offset : Nat) :
    ∃ start, (ofSource source).starts[LiveMarkup.lineAt source offset - 1]? = some start ∧
      start ≤ offset ∧ StartsLine (bytes source) start offset := by
  obtain ⟨start, hmem, hstart, hle, hcount⟩ :=
    (passesAt_ofSource hsize offset).2.exists_last (ascending_ofSource hsize) (Nat.succ_pos _)
  refine ⟨start, hstart, hle, ?_, ?_⟩
  · rw [starts_ofSource] at hmem
    rcases List.mem_cons.mp hmem with hzero | hmem
    · exact .inl hzero
    · obtain ⟨before, after, rfl, rfl⟩ := exists_of_mem_startsFrom (by omega) hmem
      refine .inr ?_
      rw [bytes_append, Nat.zero_add, Nat.add_sub_cancel, ← length_bytes,
        List.getElem?_append_right (Nat.le_refl _), Nat.sub_self]
      rfl
  · -- the start and the offset have the same line feeds before them
    have hsame : LiveMarkup.lineAt source start = LiveMarkup.lineAt source offset :=
      (countP_ofSource hsize start).symm.trans hcount
    rw [LiveMarkup.lineAt, LiveMarkup.lineAt, Nat.add_right_cancel_iff, lineFeedsBefore_eq_count,
      lineFeedsBefore_eq_count, ← List.take_append_drop start ((bytes source).take offset),
      List.take_take, Nat.min_eq_left hle, List.count_append] at hsame
    exact List.count_eq_zero.mp (by omega)

end

/-- The line of an offset is one more than the line feeds among the bytes before it, by the table and by
one pass over the source; and the offset stands in its column behind the start of that line. Lines and
columns do not outgrow 32 bits, and the start is an entry of the table. -/
theorem position_ofSource (source : String) (offset : Nat)
    (hsize : byteLength source.toList < UInt32.size) (hoffset : offset < Span.limit) :
    let bytes := source.toByteArray.data.toList
    let line := 1 + (bytes.take (min offset bytes.length)).count lineFeedByte
    let table := ofSource source.toList
    table.lineAt offset = line ∧ LiveMarkup.lineAt source.toList offset = line ∧
      line ≤ Span.limit ∧
      ∃ start column, table.position offset = (line, column) ∧
        table.starts[line - 1]? = some start ∧ StartsLine bytes start offset ∧
        start + (column - 1) = offset ∧ 1 ≤ column ∧ column ≤ Span.limit := by
  intro bytes line table
  have hlimit : byteLength source.toList ≤ Span.limit := Nat.le_sub_one_of_lt hsize
  have hbytes : bytes = Text.bytes source.toList := (bytes_toList source).symm
  have hline : LiveMarkup.lineAt source.toList offset = line := by
    show _ = 1 + (bytes.take (min offset bytes.length)).count lineFeedByte
    rw [LiveMarkup.lineAt, lineFeedsBefore_eq_count, ← hbytes, Nat.add_comm,
      ← List.take_eq_take_min]
  have hfew : (bytes.take (min offset bytes.length)).count lineFeedByte ≤ offset :=
    Nat.le_trans List.count_le_length (by rw [List.length_take]; omega)
  obtain ⟨start, hstart, hle, hstarts⟩ := exists_start_ofSource hlimit offset
  rw [hline] at hstart
  rw [← hbytes] at hstarts
  refine ⟨(lineAt_ofSource hlimit offset).trans hline, hline, by omega, start, offset - start + 1,
    ?_, hstart, hstarts, by omega, by omega, by omega⟩
  rw [position, lineAt_ofSource hlimit, hline, hstart]
  rfl

/-- The second of two line feeds is alone on its line; an offset past the end is on the last one. -/
theorem position_ofSource_blank :
    byteLength "é\n\nb".toList < UInt32.size ∧ 3 < Span.limit ∧ 9 < Span.limit ∧
      LiveMarkup.lineAt "é\n\nb".toList 3 = 2 ∧ LiveMarkup.lineAt "é\n\nb".toList 9 = 3 ∧
      (∃ start column, (ofSource "é\n\nb".toList).position 3 = (2, column) ∧
        (ofSource "é\n\nb".toList).starts[1]? = some start ∧ start + (column - 1) = 3) ∧
      ∃ start column, (ofSource "é\n\nb".toList).position 9 = (3, column) ∧
        (ofSource "é\n\nb".toList).starts[2]? = some start ∧ start + (column - 1) = 9 := by
  have hsize : byteLength "é\n\nb".toList < UInt32.size := by decide
  obtain ⟨-, hline, -, start, column, hposition, hstart, -, hcolumn, -, -⟩ :=
    position_ofSource "é\n\nb" 3 hsize (by decide)
  obtain ⟨-, hline', -, start', column', hposition', hstart', -, hcolumn', -, -⟩ :=
    position_ofSource "é\n\nb" 9 hsize (by decide)
  exact ⟨hsize, by decide, by decide, hline, hline', ⟨start, column, hposition, hstart, hcolumn⟩,
    start', column', hposition', hstart', hcolumn'⟩

end LineTable

end LiveMarkup
