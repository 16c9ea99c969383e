import FluentFixtures.Command.Console
import FluentFixtures.Proofs.Command.Markup
import FluentFixtures.Proofs.Json.Printable
import FluentFixtures.Proofs.Text.Lines

/-!
# The console without colours

Breaking a text into lines loses nothing of it, and leaves lines that fit as they
are. So the console without colours is lawful: `lawful_plain`. It prints documents
of printable strings with each part on a line of its own: `printsJson_plain`.
-/

namespace FluentFixtures.Command.Console

variable {width : Nat} {s t word line : Text} {c : CodePoint} {rest : List Text}

/-! ## Control codes and tabs -/

/-- Whether a text has no control codes. -/
def IsPlain (t : Text) : Prop := ∀ c ∈ t, 0x20 ≤ c.val

theorem IsPlain.not_mem (h : IsPlain t) (hc : c.val < 0x20) : c ∉ t :=
  fun hmem => absurd (h c hmem) (by omega)

theorem isDropped_eq_false (h : c = 0x0A ∨ 0x20 ≤ c.val) : isDropped c = false := by
  rcases h with rfl | h
  · rfl
  · have hne (n : CodePoint) (hn : n.val < 0x20) : c ≠ n := by
      rintro rfl
      omega
    simp [isDropped, hne 0x07 (by decide), hne 0x08 (by decide), hne 0x0B (by decide),
      hne 0x0C (by decide), hne 0x0D (by decide)]

theorem filter_isDropped (h : ∀ c ∈ t, c = 0x0A ∨ 0x20 ≤ c.val) :
    (t.filter fun c => !isDropped c) = t := by
  refine List.filter_eq_self.mpr fun c hc => ?_
  rw [isDropped_eq_false (h c hc)]
  rfl

theorem expandTabs_of_isPlain (h : IsPlain t) : expandTabs t = t := by
  have hcut : Text.splitOn 0x09 t = [t] := Text.splitOn_of_not_mem (h.not_mem (by decide))
  rw [expandTabs, hcut]
  rfl

theorem prefix_expandTabs (hs : IsPlain s) (t : Text) : s <+: expandTabs (s ++ t) := by
  obtain ⟨piece, pieces, -, hcut⟩ :=
    Text.splitOn_append_of_not_mem (hs.not_mem (c := 0x09) (by decide)) t
  rw [expandTabs, hcut]
  cases pieces with
  | nil => exact List.prefix_append s piece
  | cons next rest =>
    simp only [expandParts, padded, List.append_assoc]
    exact List.prefix_append s _

theorem mem_of_mem_expandParts {parts : List Text} (h : c ∈ expandParts parts) :
    c = 0x20 ∨ ∃ part ∈ parts, c ∈ part := by
  fun_induction expandParts parts with
  | case1 => cases h
  | case2 part => exact .inr ⟨part, List.mem_cons_self, h⟩
  | case3 part next rest ih =>
    rcases List.mem_append.mp h with h | h
    · simp only [padded, List.mem_append, List.mem_singleton, List.mem_replicate] at h
      rcases h with (h | h) | h
      · exact .inr ⟨part, List.mem_cons_self, h⟩
      · exact .inl h
      · exact .inl h.2
    · exact (ih h).imp_right fun ⟨found, hfound, hc⟩ => ⟨found, List.mem_cons_of_mem part hfound, hc⟩

theorem mem_of_mem_splitOn {separator : CodePoint} {piece : Text}
    (hpiece : piece ∈ Text.splitOn separator t) (h : c ∈ piece) : c ∈ t := by
  rw [← Text.joinWith_splitOn separator t]
  exact Text.mem_joinWith_of_mem hpiece h

theorem mem_of_mem_expandTabs (h : c ∈ expandTabs t) : c = 0x20 ∨ c ∈ t :=
  (mem_of_mem_expandParts h).imp_right fun ⟨_, hpart, hc⟩ => mem_of_mem_splitOn hpart hc

/-! ## Words -/

theorem cellsOf_append (s t : Text) : cellsOf (s ++ t) = cellsOf s + cellsOf t := by
  induction s with
  | nil => exact (Nat.zero_add _).symm
  | cons c s ih => rw [List.cons_append, cellsOf, cellsOf, ih, Nat.add_assoc]

theorem trimEnd_isPrefix (t : Text) : trimEnd t <+: t := by
  have hsuffix := List.dropWhile_suffix Markup.isSpace (l := t.reverse)
  rw [← List.reverse_prefix, List.reverse_reverse] at hsuffix
  exact hsuffix

theorem cellsOf_le_of_prefix (h : s <+: t) : cellsOf s ≤ cellsOf t := by
  obtain ⟨rest, rfl⟩ := h
  rw [cellsOf_append]
  exact Nat.le_add_right _ _

theorem cellsOf_trimEnd_le (t : Text) : cellsOf (trimEnd t) ≤ cellsOf t :=
  cellsOf_le_of_prefix (trimEnd_isPrefix t)

theorem exists_words_cons (c : CodePoint) (t : Text) :
    ∃ word rest, words (c :: t) = (c :: word) :: rest := by
  cases t with
  | nil => exact ⟨[], [], rfl⟩
  | cons d t =>
    rw [words]
    split
    · exact ⟨[], _, rfl⟩
    · split
      · exact ⟨_, _, rfl⟩
      · exact ⟨[], [], rfl⟩

theorem flatten_words (t : Text) : (words t).flatten = t := by
  fun_induction words t with
  | case1 => rfl
  | case2 c => rfl
  | case3 c d rest h ih => rw [List.flatten_cons, ih]; rfl
  | case4 c d rest h word more hwords ih =>
    rw [hwords] at ih
    exact congrArg (c :: ·) ih
  | case5 c d rest h hwords ih =>
    obtain ⟨word, more, hcons⟩ := exists_words_cons d rest
    cases hcons.symm.trans hwords

/-- Whether a text is a word with the white space after it. -/
def IsWord (word : Text) : Prop := ∃ body blanks, word = body ++ blanks ∧
  (∀ c ∈ body, Markup.isSpace c = false) ∧ ∀ c ∈ blanks, Markup.isSpace c = true

theorem isWord_singleton (c : CodePoint) : IsWord [c] := by
  cases hc : Markup.isSpace c with
  | false => exact ⟨[c], [], rfl, List.forall_mem_singleton.mpr hc, nofun⟩
  | true => exact ⟨[], [c], rfl, nofun, List.forall_mem_singleton.mpr hc⟩

/-- A word goes on to the front unless white space would be put before it. -/
theorem IsWord.cons {d : CodePoint} (h : IsWord (d :: word))
    (hspace : (Markup.isSpace c && !Markup.isSpace d) = false) : IsWord (c :: d :: word) := by
  obtain ⟨body, blanks, hword, hbody, hblanks⟩ := h
  cases hc : Markup.isSpace c with
  | false =>
    exact ⟨c :: body, blanks, congrArg (c :: ·) hword, List.forall_mem_cons.mpr ⟨hc, hbody⟩, hblanks⟩
  | true =>
    have hd : Markup.isSpace d = true := by simpa [hc] using hspace
    cases body with
    | nil =>
      exact ⟨[], c :: blanks, congrArg (c :: ·) hword, nofun, List.forall_mem_cons.mpr ⟨hc, hblanks⟩⟩
    | cons e body =>
      obtain ⟨rfl, -⟩ := List.cons.inj hword
      cases hd.symm.trans (hbody d List.mem_cons_self)

theorem isWord_of_mem_words (t : Text) : ∀ word ∈ words t, IsWord word := by
  fun_induction words t with
  | case1 => exact nofun
  | case2 c => exact List.forall_mem_singleton.mpr (isWord_singleton c)
  | case3 c d rest hspace ih => exact List.forall_mem_cons.mpr ⟨isWord_singleton c, ih⟩
  | case4 c d rest hspace first more hwords ih =>
    obtain ⟨first', more', hcons⟩ := exists_words_cons d rest
    obtain ⟨hfirst, -⟩ := List.cons.inj (hwords.symm.trans hcons)
    rw [hwords, hfirst] at ih
    obtain ⟨hword, hmore⟩ := List.forall_mem_cons.mp ih
    rw [hfirst]
    exact List.forall_mem_cons.mpr ⟨hword.cons (by simpa using hspace), hmore⟩
  | case5 c d rest hspace hwords ih => exact List.forall_mem_singleton.mpr (isWord_singleton c)

/-! ## Lines of a width -/

theorem flatten_fold (width : Nat) (piece word : Text) :
    (fold width piece word).flatten = piece ++ word := by
  induction word generalizing piece with
  | nil => simp [fold]
  | cons c word ih =>
    rw [fold]
    split
    · rw [ih]
      simp
    · rw [List.flatten_cons, ih]
      simp

theorem fold_ne_nil (width : Nat) (piece word : Text) : fold width piece word ≠ [] := by
  induction word generalizing piece with
  | nil => exact List.cons_ne_nil _ _
  | cons c word ih =>
    rw [fold]
    split
    · exact ih _
    · exact List.cons_ne_nil _ _

/-- Nothing is lost on the way to lines. -/
theorem flatten_fill (width : Nat) (line : Text) (parts : List Text) :
    (fill width line parts).flatten = line ++ parts.flatten := by
  induction parts generalizing line with
  | nil => simp [fill]
  | cons word rest ih =>
    have hline : (if line.isEmpty then [] else [line]).flatten = line := by
      cases line <;> simp
    have hpieces : (fold width [] word).dropLast.flatten ++ (fold width [] word).getLast?.getD [] =
        word := by
      have hne := fold_ne_nil width [] word
      have hfold := flatten_fold width [] word
      rw [← List.dropLast_append_getLast hne] at hfold
      rw [List.getLast?_eq_some_getLast hne]
      simpa using hfold
    rw [fill]
    split
    · rw [ih]
      simp
    · simp only
      split
      · rw [List.flatten_append, hline, ih]
        simp
      · rw [List.flatten_append, List.flatten_append, hline, ih, List.append_assoc,
          ← List.append_assoc _ _ rest.flatten, hpieces]
        simp

/-- Words that fit on the line that has begun stay on it. -/
theorem fill_of_fits {parts : List Text} (h : cellsOf (line ++ parts.flatten) ≤ width) :
    fill width line parts = [line ++ parts.flatten] := by
  induction parts generalizing line with
  | nil => simp [fill]
  | cons word rest ih =>
    have htrim := cellsOf_trimEnd_le word
    rw [List.flatten_cons] at h ⊢
    have hroom : cellsOf line + cellsOf (trimEnd word) ≤ width := by
      simp only [cellsOf_append] at h
      omega
    rw [← List.append_assoc] at h ⊢
    rw [fill, if_pos hroom, ih h]

theorem crop_of_fits (h : line.length ≤ width) : crop width line = line :=
  List.take_of_length_le (h.trans (Nat.le_max_right _ _))

theorem wrap_of_fits (hcells : cellsOf line ≤ width) (hlength : line.length ≤ width) :
    wrap width line = [line] := by
  have hflatten := flatten_words (line.dropWhile Markup.isSpace)
  unfold wrap
  split
  · rw [crop_of_fits hlength]
  · next first rest hwords =>
    have hline : [] ++ ((line.takeWhile Markup.isSpace ++ first) :: rest).flatten = line := by
      rw [hwords, List.flatten_cons] at hflatten
      rw [List.nil_append, List.flatten_cons, List.append_assoc, hflatten,
        List.takeWhile_append_dropWhile]
    rw [fill_of_fits (by rwa [hline]), hline, List.map_singleton, crop_of_fits hlength]

theorem lines_of_fits (hpoints : ∀ c ∈ t, c = 0x0A ∨ 0x20 ≤ c.val)
    (hfits : ∀ line ∈ Text.splitOn 0x0A t, cellsOf line ≤ width ∧ line.length ≤ width) :
    lines width t = t ++ [0x0A] := by
  have hsame : ∀ line ∈ Text.splitOn 0x0A t, wrap width (expandTabs line) = [line] := by
    intro line hline
    have hplain : IsPlain line := by
      intro c hc
      refine (hpoints c (mem_of_mem_splitOn hline hc)).resolve_left ?_
      rintro rfl
      exact Text.not_mem_of_mem_splitOn hline hc
    rw [expandTabs_of_isPlain hplain]
    exact wrap_of_fits (hfits line hline).1 (hfits line hline).2
  rw [lines, filter_isDropped hpoints, List.flatMap_congr hsame, List.flatMap_singleton',
    Text.joinWith_splitOn]

theorem mem_of_mem_wrap {piece : Text} (hpiece : piece ∈ wrap width line) (h : c ∈ piece) :
    c ∈ line := by
  have hflatten := flatten_words (line.dropWhile Markup.isSpace)
  unfold wrap at hpiece
  split at hpiece
  · rw [List.mem_singleton.mp hpiece] at h
    exact List.mem_of_mem_take h
  · next first rest hwords =>
    obtain ⟨full, hfull, rfl⟩ := List.mem_map.mp hpiece
    have hmem : c ∈ (fill width [] ((line.takeWhile Markup.isSpace ++ first) :: rest)).flatten :=
      List.mem_flatten.mpr ⟨full, hfull, List.mem_of_mem_take h⟩
    rw [hwords, List.flatten_cons] at hflatten
    rwa [flatten_fill, List.nil_append, List.flatten_cons, List.append_assoc, hflatten,
      List.takeWhile_append_dropWhile] at hmem

theorem mem_of_mem_lines (h : c ∈ lines width t) : c = 0x20 ∨ c = 0x0A ∨ c ∈ t := by
  rcases List.mem_append.mp h with h | h
  · rcases Text.mem_joinWith h with h | ⟨piece, hpiece, hc⟩
    · exact .inr (.inl (List.mem_singleton.mp h))
    · obtain ⟨line, hline, hpiece⟩ := List.mem_flatMap.mp hpiece
      rcases mem_of_mem_expandTabs (mem_of_mem_wrap hpiece hc) with h | h
      · exact .inl h
      · exact .inr (.inr (List.mem_of_mem_filter (mem_of_mem_splitOn hline h)))
  · exact .inr (.inl (List.mem_singleton.mp h))

/-! ## Words at the start -/

theorem prefix_fill (hline : line ≠ []) (parts : List Text) :
    ∃ first more, fill width line parts = first :: more ∧ line <+: first := by
  induction parts generalizing line with
  | nil => exact ⟨line, [], rfl, List.prefix_rfl⟩
  | cons word rest ih =>
    have hbegun : line.isEmpty = false := by simpa using hline
    rw [fill]
    split
    · obtain ⟨first, more, hfill, hbegins⟩ := ih (List.append_ne_nil_of_left_ne_nil hline word)
      exact ⟨first, more, hfill, (List.prefix_append line word).trans hbegins⟩
    · simp only [hbegun, Bool.false_eq_true, if_false]
      split
      · exact ⟨line, _, rfl, List.prefix_rfl⟩
      · exact ⟨line, _, rfl, List.prefix_rfl⟩

theorem trimEnd_append {blanks : Text} (h : ∀ c ∈ blanks, Markup.isSpace c = true) (s : Text) :
    trimEnd (s ++ blanks) = trimEnd s := by
  have hreverse : ∀ c ∈ blanks.reverse, Markup.isSpace c = true := fun c hc =>
    h c (List.mem_reverse.mp hc)
  rw [trimEnd, List.reverse_append, List.dropWhile_append_of_pos hreverse, trimEnd]

/-- Behind a space a word has no more than white space. -/
theorem IsWord.trimEnd_isPrefix {more : Text} (h : IsWord (s ++ 0x20 :: more)) :
    trimEnd (s ++ 0x20 :: more) <+: s := by
  obtain ⟨body, blanks, hword, hbody, hblanks⟩ := h
  have hmore : ∀ c ∈ 0x20 :: more, Markup.isSpace c = true := by
    rcases List.append_eq_append_iff.mp hword with ⟨inner, rfl, hinner⟩ | ⟨inner, rfl, rfl⟩
    · cases inner with
      | nil =>
        rw [List.nil_append] at hinner
        rwa [hinner]
      | cons c inner =>
        obtain ⟨rfl, -⟩ := List.cons.inj hinner
        cases hbody 0x20 (List.mem_append_right _ List.mem_cons_self)
    · exact fun c hc => hblanks c (List.mem_append_right _ hc)
  rw [trimEnd_append hmore]
  exact Console.trimEnd_isPrefix s

/-- Words that fit on the first line are its start. -/
theorem prefix_fill_of_fits {parts : List Text} (hparts : ∀ word ∈ parts, IsWord word)
    (hroom : cellsOf s ≤ width) (hline : line <+: s) (hs : s ++ [0x20] <+: line ++ parts.flatten) :
    ∃ first more, fill width line parts = first :: more ∧ s <+: first := by
  induction parts generalizing line with
  | nil =>
    have hlength := hs.length_le
    have hshort := hline.length_le
    simp only [List.flatten_nil, List.append_nil, List.length_append, List.length_singleton] at hlength
    omega
  | cons word rest ih =>
    obtain ⟨hword, hrest⟩ := List.forall_mem_cons.mp hparts
    rw [List.flatten_cons, ← List.append_assoc] at hs
    by_cases hinside : line ++ word <+: s
    · have hfits : cellsOf line + cellsOf (trimEnd word) ≤ width := by
        have htrim := cellsOf_trimEnd_le word
        have hcells := cellsOf_le_of_prefix hinside
        rw [cellsOf_append] at hcells
        omega
      rw [fill, if_pos hfits]
      exact ih hrest hinside hs
    · -- The word goes on behind the words, with the space there at its end.
      obtain ⟨more, hmore⟩ : s ++ [0x20] <+: line ++ word := by
        rcases List.prefix_or_prefix_of_prefix hs (List.prefix_append _ _) with h | h
        · exact h
        · rcases List.prefix_concat_iff.mp h with h | h
          · exact h ▸ List.prefix_rfl
          · exact absurd h hinside
      obtain ⟨begun, rfl⟩ := hline
      obtain rfl : word = begun ++ 0x20 :: more := by simpa using hmore.symm
      have hfits : cellsOf line + cellsOf (trimEnd (begun ++ 0x20 :: more)) ≤ width := by
        have htrim := cellsOf_le_of_prefix hword.trimEnd_isPrefix
        rw [cellsOf_append] at hroom
        omega
      have hne : line ++ (begun ++ 0x20 :: more) ≠ [] := by simp
      obtain ⟨first, rest', hfill, hbegins⟩ := prefix_fill hne rest
      rw [fill, if_pos hfits]
      refine ⟨first, rest', hfill, List.IsPrefix.trans ?_ hbegins⟩
      rw [← List.append_assoc]
      exact List.prefix_append _ _

theorem prefix_wrap {width : Nat} (hroom : cellsOf (c :: s) ≤ width) (hlength : (c :: s).length ≤ width)
    (hstart : Markup.isSpace c = false) (hs : c :: s ++ [0x20] <+: line) :
    ∃ first more, wrap width line = first :: more ∧ c :: s <+: first := by
  obtain ⟨rest, rfl⟩ := hs
  have hneg : ¬ Markup.isSpace c = true := by simp [hstart]
  have hdrop : (c :: s ++ [0x20] ++ rest).dropWhile Markup.isSpace = c :: s ++ [0x20] ++ rest :=
    List.dropWhile_cons_of_neg hneg
  have htake : (c :: s ++ [0x20] ++ rest).takeWhile Markup.isSpace = [] :=
    List.takeWhile_cons_of_neg hneg
  have hparts := isWord_of_mem_words (c :: s ++ [0x20] ++ rest)
  have hflatten := flatten_words (c :: s ++ [0x20] ++ rest)
  rw [wrap, hdrop, htake]
  split
  · next hwords =>
    rw [hwords] at hflatten
    cases hflatten
  · next first more hwords =>
    rw [hwords] at hparts hflatten
    have hbegins : c :: s ++ [0x20] <+: [] ++ (first :: more).flatten := by
      rw [List.nil_append, hflatten]
      exact List.prefix_append _ _
    obtain ⟨start, others, hfill, hstart⟩ :=
      prefix_fill_of_fits hparts hroom List.nil_prefix hbegins
    rw [List.nil_append, hfill, List.map_cons]
    refine ⟨_, _, rfl, List.prefix_take_iff.mpr ⟨hstart, hlength.trans (Nat.le_max_right _ _)⟩⟩

/-- Words at the start of a text that fit on a line are put out first. -/
theorem prefix_lines (hplain : IsPlain (c :: s)) (hroom : cellsOf (c :: s) ≤ width)
    (hlength : (c :: s).length ≤ width) (hstart : Markup.isSpace c = false)
    (hs : c :: s ++ [0x20] <+: t) : c :: s <+: lines width t := by
  obtain ⟨rest, rfl⟩ := hs
  have hbegins : IsPlain (c :: s ++ [0x20]) := by
    refine List.forall_mem_append.mpr ⟨hplain, List.forall_mem_singleton.mpr ?_⟩
    exact Nat.le_refl 0x20
  have hkept := filter_isDropped fun d hd => .inr (hbegins d hd)
  obtain ⟨piece, pieces, -, hcut⟩ := Text.splitOn_append_of_not_mem
    (hbegins.not_mem (c := 0x0A) (by decide)) (rest.filter fun c => !isDropped c)
  obtain ⟨first, more, hwrap, hstarts⟩ := prefix_wrap hroom hlength hstart
    (prefix_expandTabs hbegins piece)
  rw [lines, List.filter_append, hkept, hcut]
  simp only [List.flatMap_cons, hwrap]
  exact (hstarts.trans (Text.prefix_joinWith _ _ _)).trans (List.prefix_append _ _)

/-! ## Messages -/

variable {message : Message}

theorem printable_opening {span : Span} (h : span.Sound) : span.opening.PrintableAscii := by
  obtain ⟨hstyle, -, -, -, -, -⟩ := h
  unfold Span.opening
  split
  · next style heq =>
    have hletters : ∀ c ∈ style, 0x61 ≤ c.val ∧ c.val ≤ 0x7A := by
      simpa using (hstyle style heq).2
    have hletter : Text.PrintableAscii style := fun c hc => by
      have hc := hletters c hc
      omega
    have hopen : Text.PrintableAscii [0x5B] := by decide
    have hclose : Text.PrintableAscii [0x5D] := by decide
    exact List.forall_mem_append.mpr ⟨List.forall_mem_append.mpr ⟨hopen, hletter⟩, hclose⟩
  · exact nofun

theorem printable_closing (span : Span) : span.closing.PrintableAscii := by
  unfold Span.closing
  split <;> decide

theorem isSurrogate_escape (ht : ∀ c ∈ t, c.isSurrogate = false) (hc : c ∈ Markup.escape t) :
    c.isSurrogate = false := by
  rcases Markup.mem_of_mem_escape hc with hc | rfl
  · exact ht c hc
  · rfl

theorem isSurrogate_outside {outside : Option Text}
    (h : ∀ c ∈ outside.getD [], c.isSurrogate = false)
    (hc : c ∈ (outside.map Markup.escape).getD []) : c.isSurrogate = false := by
  cases outside with
  | none => cases hc
  | some t => exact isSurrogate_escape h hc

theorem isSurrogate_span {span : Span} (hspan : span.Sound)
    (h : ∀ c ∈ span.plain, c.isSurrogate = false) (hc : c ∈ span.markup Markup.escape) :
    c.isSurrogate = false := by
  simp only [Span.plain, List.forall_mem_append] at h
  simp only [Span.markup, List.mem_append] at hc
  rcases hc with (hc | hc | hc | hc) | hc
  · exact Json.isSurrogate_of_printable (printable_opening hspan) c hc
  · exact h.1 c hc
  · exact isSurrogate_outside h.2.1 hc
  · exact h.2.2 c hc
  · exact Json.isSurrogate_of_printable (printable_closing span) c hc

theorem isSurrogate_markup (h : message.Sound) (hbytes : message.Encodable)
    (hc : c ∈ message.markup Markup.escape) : c.isSurrogate = false := by
  simp only [Message.Encodable, Message.plain, List.forall_mem_append] at hbytes
  rcases List.mem_append.mp hc with hc | hc
  · obtain ⟨span, hspan, hc⟩ := List.mem_flatMap.mp hc
    refine isSurrogate_span (h.spans span hspan) (fun d hd => ?_) hc
    exact hbytes.1 d (List.mem_flatMap.mpr ⟨span, hspan, hd⟩)
  · exact isSurrogate_outside hbytes.2 hc

/-- A sound message is put out as the lines of what its markup shows. -/
theorem say_plain (width : Nat) (h : message.Sound) : ∃ shown,
    (plain width).say message = put (lines width shown) ∧
      ((∀ span ∈ message.spans, Markup.IsUnmarkedIn span.outside) →
        Markup.IsUnmarkedIn message.last → shown = message.plain) ∧
      message.opening <+: shown ∧ ∀ c ∈ shown, c ∈ message.markup Markup.escape := by
  obtain ⟨shown, hrender, hplain, hopening⟩ := Markup.render_markup h
  refine ⟨shown, ?_, hplain, hopening, fun c hc => Markup.mem_of_mem_render hrender hc⟩
  show ((Markup.render (message.markup Markup.escape)).mapError _).bind _ = _
  rw [hrender]
  rfl

theorem put_of_encodable (ht : ∀ c ∈ t, c.isSurrogate = false) : put t = .ok t := by
  have hnone : ¬ t.any CodePoint.isSurrogate = true := by
    simp only [List.any_eq_true, not_exists, not_and, Bool.not_eq_true]
    exact ht
  rw [put, if_neg hnone]

theorem isSpace_of_printable (hc : 0x20 ≤ c.val ∧ c.val ≤ 0x7E) (hne : c ≠ 0x20) :
    Markup.isSpace c = false := by
  have hval : c.val ≠ 0x20 := fun h => hne (Fin.ext h)
  simp [Markup.isSpace, Script.isBlank, Script.isAsciiBlank, Script.wideBlanks]
  omega

theorem isUnmarked_of_ordinary (h : message.Ordinary) :
    (∀ span ∈ message.spans, Markup.IsUnmarkedIn span.outside) ∧
      Markup.IsUnmarkedIn message.last := by
  have hbracket : 0x5B ∉ message.plain := fun hc => (h.points 0x5B hc).2 rfl
  simp only [Message.plain, List.mem_append, List.mem_flatMap, not_or, not_exists, not_and] at hbracket
  constructor
  · intro span hspan t ht
    have hnone := hbracket.1 span hspan
    simp only [Span.plain, List.mem_append, not_or, ht, Option.getD_some] at hnone
    exact ⟨hnone.2.1, h.spans span hspan t ht⟩
  · intro t ht
    have hnone := hbracket.2
    rw [ht] at hnone
    exact ⟨hnone, h.last t ht⟩

theorem shows_plain (width : Nat) (h : message.Sound) (hbytes : message.Encodable) :
    ∃ output, (plain width).Shows message output := by
  obtain ⟨shown, hsay, hplain, hopening, hmem⟩ := say_plain width h
  have hput : put (lines width shown) = .ok (lines width shown) := by
    refine put_of_encodable fun c hc => ?_
    rcases mem_of_mem_lines hc with rfl | rfl | hc
    · rfl
    · rfl
    · exact isSurrogate_markup h hbytes (hmem c hc)
  refine ⟨lines width shown, ?_⟩
  constructor
  case printed => rw [hsay, hput]
  case line =>
    intro hordinary hfits
    obtain ⟨hspans, hlast⟩ := isUnmarked_of_ordinary hordinary
    rw [hplain hspans hlast]
    exact lines_of_fits (fun c hc => (hordinary.points c hc).1) hfits
  case start =>
    intro words more hwords hprintable _ hhead ⟨hcells, hlength⟩
    cases words with
    | nil => exact List.nil_prefix
    | cons c words =>
      have hc : c ≠ 0x20 := fun hc => hhead (congrArg some hc)
      have hspace := isSpace_of_printable (hprintable c List.mem_cons_self) hc
      have hbegins : c :: words ++ [0x20] <+: message.opening := by
        rw [hwords]
        exact ⟨more, by simp⟩
      exact prefix_lines (fun d hd => (hprintable d hd).1) hcells hlength hspace
        (hbegins.trans hopening)

theorem lawful_plain (width : Nat) : (plain width).Lawful where
  escape_adds _ _ hc := Markup.mem_of_mem_escape hc
  escape_unmarked _ hbracket hbackslash := Markup.escape_of_isUnmarked ⟨hbracket, hbackslash⟩
  shows _ h hbytes := shows_plain width h hbytes

theorem printsJson_plain (width : Nat) : (plain width).PrintsJson := by
  intro document t hread ht
  have hlines : Json.PrintableLines (Json.render shownIndent 0 t) := Json.printableLines_render ht 0
  have hfeed : Text.IsSpacing [0x0A] := List.forall_mem_singleton.mpr (.inr rfl)
  have hput : put (Json.render shownIndent 0 t ++ [0x0A]) =
      .ok (Json.render shownIndent 0 t ++ [0x0A]) :=
    put_of_encodable (hlines.append (.of_spacing hfeed)).isSurrogate
  show ((Json.read document).mapError _).bind _ = _
  rw [hread]
  exact hput

end FluentFixtures.Command.Console
