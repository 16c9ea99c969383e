import FluentFixtures.Command.Markup
import FluentFixtures.Proofs.Command.Laws
import FluentFixtures.Proofs.Faults
import Mathlib.Data.List.Basic
import Mathlib.Data.List.TakeWhile
import Mathlib.Tactic.Common

/-!
# What markup shows

In an escaped text no tag counts, and none is made up with what comes after it as
long as that `Seals` it: `segmentsAfter_escaped`. So the tags of a sound message
are those of its styles, and it is shown, whatever comes from outside:
`render_markup`.
-/

namespace FluentFixtures.Command.Markup

variable {t u s body after : Text} {done : Text} {c : CodePoint}

/-! ## Tags and segments -/

theorem tagAt?_eq_some_iff : tagAt? t = some (body, after) ↔
    ∃ start inner, t = 0x5B :: start :: (inner ++ 0x5D :: after) ∧ isTagStart start = true ∧
      (∀ c ∈ inner, isBracket c = false) ∧ body = start :: inner := by
  constructor
  · intro h
    unfold tagAt? at h
    split at h
    · next bracket start rest =>
      split at h
      · next hstart =>
        simp only [Bool.and_eq_true, decide_eq_true_eq] at hstart
        split at h
        · next closing more hrest =>
          split at h
          · next hclosing =>
            cases h
            refine ⟨start, rest.takeWhile fun c => !isBracket c, ?_, hstart.2, ?_, rfl⟩
            · rw [← show closing = 0x5D from hclosing, ← hrest, List.takeWhile_append_dropWhile,
                hstart.1]
              rfl
            · intro c hc
              simpa using List.mem_takeWhile_imp hc
          · cases h
        · cases h
      · cases h
    · cases h
  · rintro ⟨start, inner, rfl, hstart, hinner, rfl⟩
    have hkept : ∀ c ∈ inner, (!isBracket c) = true := fun c hc => by rw [hinner c hc]; rfl
    have hopen : (decide ((0x5B : CodePoint) = '[') && isTagStart start) = true := by
      rw [hstart]
      rfl
    have hdrop : (0x5D :: after).dropWhile (fun c => !isBracket c) = 0x5D :: after :=
      List.dropWhile_cons_of_neg (by decide)
    have htake : (0x5D :: after).takeWhile (fun c => !isBracket c) = [] :=
      List.takeWhile_cons_of_neg (by decide)
    rw [tagAt?, if_pos hopen, List.dropWhile_append_of_pos hkept, hdrop,
      List.takeWhile_append_of_pos hkept, htake, List.append_nil]
    rfl

theorem tagAt?_cons (hc : c ≠ 0x5B) : tagAt? (c :: t) = none := by
  refine Option.eq_none_iff_forall_ne_some.mpr ?_
  rintro ⟨body, after⟩ htag
  obtain ⟨start, inner, htext, -⟩ := tagAt?_eq_some_iff.mp htag
  exact hc (List.cons.inj htext).1

@[simp] theorem segmentsAfter_nil (done : Text) :
    segmentsAfter done [] = [.plain done.reverse] := by
  rw [segmentsAfter]

theorem segmentsAfter_tag (h : tagAt? (t.dropWhile isBackslash) = some (body, after)) :
    segmentsAfter done t = .plain done.reverse ::
      .tag (t.takeWhile isBackslash).length body :: segmentsAfter [] after := by
  cases t with
  | nil => cases h
  | cons c rest =>
    rw [segmentsAfter]
    split
    · next body' after' h' =>
      cases h.symm.trans h'
      rfl
    · next h' => cases h.symm.trans h'

theorem segmentsAfter_char (h : tagAt? ((c :: t).dropWhile isBackslash) = none) :
    segmentsAfter done (c :: t) = segmentsAfter (c :: done) t := by
  rw [segmentsAfter]
  split
  · next h' => cases h.symm.trans h'
  · rfl

/-- A text is at its end, starts with a tag after backslashes, or starts with something else. -/
theorem induct_segments {P : Text → Prop} (nil : P [])
    (tag : ∀ t body after, tagAt? (t.dropWhile isBackslash) = some (body, after) → P after → P t)
    (char : ∀ c t, tagAt? ((c :: t).dropWhile isBackslash) = none → P t → P (c :: t))
    (t : Text) : P t := by
  cases t with
  | nil => exact nil
  | cons c t =>
    cases h : tagAt? ((c :: t).dropWhile isBackslash) with
    | none => exact char c t h (induct_segments nil tag char t)
    | some found => exact tag (c :: t) found.1 found.2 h (induct_segments nil tag char found.2)
termination_by t.length
decreasing_by
  · simp
  · exact Nat.lt_of_lt_of_le (tagAt?_length h) (List.dropWhile_sublist isBackslash).length_le

/-- What is before a text is in its first segment. -/
theorem segmentsAfter_eq (t : Text) : ∃ first rest, ∀ done,
    segmentsAfter done t = .plain (done.reverse ++ first) :: rest := by
  induction t using induct_segments with
  | nil => exact ⟨[], [], fun done => by simp⟩
  | tag t body after h _ =>
    exact ⟨[], _, fun done => by rw [segmentsAfter_tag h, List.append_nil]⟩
  | char c t h ih =>
    obtain ⟨first, rest, ih⟩ := ih
    exact ⟨c :: first, rest, fun done => by simp [segmentsAfter_char h, ih]⟩

theorem source_segmentsAfter (t done : Text) :
    (segmentsAfter done t).flatMap Segment.source = done.reverse ++ t := by
  induction t using induct_segments generalizing done with
  | nil => simp [Segment.source]
  | tag t body after h ih =>
    obtain ⟨start, inner, htext, -, -, rfl⟩ := tagAt?_eq_some_iff.mp h
    have hbackslashes : List.replicate (t.takeWhile isBackslash).length backslash =
        t.takeWhile isBackslash := by
      refine (List.eq_replicate_iff.mpr ⟨rfl, fun c hc => ?_⟩).symm
      have hback : isBackslash c = true := List.mem_takeWhile_imp hc
      exact of_decide_eq_true hback
    have ht : t.takeWhile isBackslash ++ (Segment.bracketed (start :: inner) ++ after) = t := by
      have hbracketed : Segment.bracketed (start :: inner) ++ after = t.dropWhile isBackslash := by
        rw [htext]
        simp [Segment.bracketed]
      rw [hbracketed, List.takeWhile_append_dropWhile]
    rw [segmentsAfter_tag h, List.flatMap_cons, List.flatMap_cons, ih, Segment.source,
      Segment.source, hbackslashes, List.append_assoc]
    exact congrArg (done.reverse ++ ·) ht
  | char c t h ih => simp [segmentsAfter_char h, ih]

/-! ## Escaped tags -/

/-- The text with its tags escaped. -/
def escaped (t : Text) : Text := (segments t).flatMap Segment.escaped

@[simp] theorem escaped_nil : escaped [] = [] := by simp [escaped, segments, Segment.escaped]

theorem escaped_tag (h : tagAt? (t.dropWhile isBackslash) = some (body, after)) :
    escaped t = List.replicate (2 * (t.takeWhile isBackslash).length + 1) backslash ++
      Segment.bracketed body ++ escaped after := by
  rw [escaped, segments, segmentsAfter_tag h]
  rfl

theorem escaped_char (h : tagAt? ((c :: t).dropWhile isBackslash) = none) :
    escaped (c :: t) = c :: escaped t := by
  obtain ⟨first, rest, hsegments⟩ := segmentsAfter_eq t
  simp [escaped, segments, segmentsAfter_char h, hsegments, Segment.escaped]

/-- At its end a text may get a backslash more, if it has one there. -/
theorem escape_eq (t : Text) : ∃ more, escape t = escaped t ++ more ∧
    (more = [] ∨ more = [backslash]) ∧ (backslash ∉ escaped t → more = []) := by
  dsimp only [escape]
  split
  · next h =>
    have ht : escaped t = [] := List.reverse_eq_nil_iff.mp h
    exact ⟨[], by rw [ht, List.append_nil], .inl rfl, fun _ => rfl⟩
  · next c h =>
    have hreverse : (escaped t).reverse = [c] := h
    have ht : escaped t = [c] := by simpa using congrArg List.reverse hreverse
    rw [ht]
    split
    · next hc => exact ⟨[c], rfl, .inr (by rw [hc]), fun hnone => absurd hc (by simp_all)⟩
    · exact ⟨[], rfl, .inl rfl, fun _ => rfl⟩
  · next c d rest h =>
    have ht : (escaped t).reverse = c :: d :: rest := h
    have hmem : c ∈ escaped t := List.mem_reverse.mp (ht ▸ List.mem_cons_self)
    split
    · next hc =>
      simp only [Bool.and_eq_true, decide_eq_true_eq] at hc
      exact ⟨[c], rfl, .inr (by rw [hc.1]), fun hnone => absurd (hc.1 ▸ hmem) hnone⟩
    · exact ⟨[], (List.append_nil _).symm, .inl rfl, fun _ => rfl⟩

/-! ## After an escaped text -/

/-- Whether the first bracket in a text, if any, is a left one. -/
def OpensFirst (t : Text) : Prop :=
  ∀ c ∈ (t.dropWhile fun c => !isBracket c).head?, c ≠ 0x5D

/-- Whether a text makes up no tag with an escaped text before it. -/
structure Seals (u : Text) : Prop where
  close : OpensFirst u
  tag : tagAt? (u.dropWhile isBackslash) = none

theorem seals_nil : Seals [] where
  close _ h := by cases h
  tag := rfl

theorem opensFirst_cons (hc : isBracket c = false) : OpensFirst (c :: t) ↔ OpensFirst t := by
  simp [OpensFirst, hc]

theorem opensFirst_bracket (hc : isBracket c = true) : OpensFirst (c :: t) ↔ c ≠ 0x5D := by
  simp [OpensFirst, hc]

theorem opensFirst_append (h : ∀ c ∈ s, isBracket c = false) : OpensFirst (s ++ t) ↔ OpensFirst t := by
  induction s with
  | nil => rfl
  | cons c s ih =>
    obtain ⟨hc, hs⟩ := List.forall_mem_cons.mp h
    rw [List.cons_append, opensFirst_cons hc, ih hs]

theorem Seals.more {more : Text} (hmore : more = [] ∨ more = [backslash]) (hu : Seals u) :
    Seals (more ++ u) := by
  rcases hmore with rfl | rfl
  · exact hu
  · constructor
    case close => exact (opensFirst_cons rfl).mpr hu.close
    case tag =>
      have hback : isBackslash backslash = true := rfl
      rw [List.singleton_append, List.dropWhile_cons_of_pos hback]
      exact hu.tag

theorem exists_of_not_opensFirst (h : ¬ OpensFirst t) :
    ∃ inner after, t = inner ++ 0x5D :: after ∧ ∀ c ∈ inner, isBracket c = false := by
  simp only [OpensFirst, not_forall, not_not] at h
  obtain ⟨c, hc, rfl⟩ := h
  obtain ⟨after, hafter⟩ := List.head?_eq_some_iff.mp hc
  refine ⟨t.takeWhile fun c => !isBracket c, after, ?_, ?_⟩
  · rw [← hafter, List.takeWhile_append_dropWhile]
  · intro c hc
    simpa using List.mem_takeWhile_imp hc

theorem isBracket_of_mem_replicate {n : Nat} :
    ∀ c ∈ List.replicate n backslash, isBracket c = false := by
  intro c hc
  rw [List.eq_of_mem_replicate hc]
  rfl

theorem OpensFirst.escaped (ht : OpensFirst t) (hu : OpensFirst u) :
    OpensFirst (escaped t ++ u) := by
  induction t using induct_segments with
  | nil => simpa using hu
  | tag t body after h _ =>
    rw [escaped_tag h]
    simp only [List.append_assoc]
    rw [opensFirst_append isBracket_of_mem_replicate]
    exact (opensFirst_bracket rfl).mpr (by decide)
  | char c t h ih =>
    rw [escaped_char h, List.cons_append]
    by_cases hc : isBracket c = true
    · rw [opensFirst_bracket hc] at ht ⊢
      exact ht
    · rw [Bool.not_eq_true] at hc
      rw [opensFirst_cons hc] at ht ⊢
      exact ih ht

theorem isBracket_of_isTagStart (h : isTagStart c = true) : isBracket c = false := by
  rw [← Bool.not_eq_true]
  intro hbracket
  simp only [isBracket, Bool.or_eq_true, decide_eq_true_eq] at hbracket
  rcases hbracket with rfl | rfl <;> cases h

/-- Without a tag at its start, a text that is escaped and sealed has none there either. -/
theorem tagAt?_escaped (hs : ∀ c ∈ s.head?, isBackslash c = false) (h : tagAt? s = none)
    (hu : Seals u) : tagAt? (escaped s ++ u) = none := by
  refine Option.eq_none_iff_forall_ne_some.mpr ?_
  rintro ⟨body, after⟩ htag
  obtain ⟨start, inner, htext, hstart, hinner, -⟩ := tagAt?_eq_some_iff.mp htag
  have hclosing : ¬ OpensFirst (inner ++ 0x5D :: after) := by
    rw [opensFirst_append hinner, opensFirst_bracket rfl]
    exact fun h => h rfl
  cases s with
  | nil =>
    have hnone := hu.tag
    have hneg : ¬ isBackslash 0x5B = true := by decide
    rw [escaped_nil, List.nil_append] at htag htext
    rw [htext, List.dropWhile_cons_of_neg hneg, ← htext, htag] at hnone
    cases hnone
  | cons c s =>
    have hneg : ¬ isBackslash c = true := by simp [hs c rfl]
    have hnone : tagAt? ((c :: s).dropWhile isBackslash) = none := by
      rwa [List.dropWhile_cons_of_neg hneg]
    rw [escaped_char hnone, List.cons_append] at htext
    obtain ⟨rfl, hrest⟩ := List.cons.inj htext
    cases s with
    | nil =>
      have hopens := hu.close
      rw [escaped_nil, List.nil_append] at hrest
      rw [hrest, opensFirst_cons (isBracket_of_isTagStart hstart)] at hopens
      exact hclosing hopens
    | cons d s =>
      cases hd : tagAt? ((d :: s).dropWhile isBackslash) with
      | some found =>
        -- The text goes on with a backslash, which starts no tag.
        rw [escaped_tag hd, List.append_assoc, List.append_assoc] at hrest
        obtain ⟨rfl, -⟩ := List.cons.inj hrest
        cases hstart
      | none =>
        rw [escaped_char hd, List.cons_append] at hrest
        obtain ⟨rfl, hinside⟩ := List.cons.inj hrest
        have hopens : OpensFirst s := by
          by_contra hcloses
          obtain ⟨inner', after', rfl, hinner'⟩ := exists_of_not_opensFirst hcloses
          cases h.symm.trans (tagAt?_eq_some_iff.mpr ⟨d, inner', rfl, hstart, hinner', rfl⟩)
        have hgoes := hopens.escaped hu.close
        rw [hinside] at hgoes
        exact hclosing hgoes

theorem tagAt?_dropWhile_escaped (h : tagAt? (t.dropWhile isBackslash) = none) (hu : Seals u) :
    tagAt? ((escaped t ++ u).dropWhile isBackslash) = none := by
  induction t with
  | nil => simpa using hu.tag
  | cons c t ih =>
    cases hc : isBackslash c with
    | true => 
      rw [escaped_char h, List.cons_append, List.dropWhile_cons_of_pos hc]
      rw [List.dropWhile_cons_of_pos hc] at h
      exact ih h
    | false =>
      have hneg : ¬ isBackslash c = true := by simp [hc]
      have hchar := escaped_char h
      rw [List.dropWhile_cons_of_neg hneg] at h
      have htag := tagAt?_escaped (s := c :: t) (by simpa using hc) h hu
      rw [hchar, List.cons_append] at htag ⊢
      rwa [List.dropWhile_cons_of_neg hneg]

/-- Whether a segment is no tag that counts. -/
def Segment.IsQuiet : Segment → Prop
  | .plain _ => True
  | .tag n _ => n % 2 = 1

theorem isQuiet_plain (t : Text) : (Segment.plain t).IsQuiet := trivial

/-- In an escaped text no tag counts, and what seals it goes on after it. -/
theorem segmentsAfter_escaped (t : Text) (done : Text) : ∃ quiet last,
    (∀ segment ∈ quiet, Segment.IsQuiet segment) ∧
      ∀ u, Seals u → segmentsAfter done (escaped t ++ u) = quiet ++ segmentsAfter last u := by
  induction t using induct_segments generalizing done with
  | nil => exact ⟨[], done, by simp, fun u _ => by simp⟩
  | tag t body after h ih =>
    obtain ⟨quiet, last, hquiet, ih⟩ := ih []
    let n := 2 * (t.takeWhile isBackslash).length + 1
    refine ⟨.plain done.reverse :: .tag n body :: quiet, last, ?_, fun u hu => ?_⟩
    · simp only [List.forall_mem_cons]
      exact ⟨trivial, by simp only [Segment.IsQuiet, n]; omega, hquiet⟩
    · obtain ⟨start, inner, -, hstart, hinner, rfl⟩ := tagAt?_eq_some_iff.mp h
      have hbackslashes : ∀ c ∈ List.replicate n backslash, isBackslash c = true := by
        intro c hc
        rw [List.eq_of_mem_replicate hc]
        rfl
      have htext : escaped t ++ u = List.replicate n backslash ++
          (0x5B :: start :: (inner ++ 0x5D :: (escaped after ++ u))) := by
        simp [escaped_tag h, Segment.bracketed, n]
      have hdrop : (escaped t ++ u).dropWhile isBackslash =
          0x5B :: start :: (inner ++ 0x5D :: (escaped after ++ u)) := by
        rw [htext, List.dropWhile_append_of_pos hbackslashes]
        rfl
      have htake : (escaped t ++ u).takeWhile isBackslash = List.replicate n backslash := by
        rw [htext, List.takeWhile_append_of_pos hbackslashes]
        exact List.append_nil _
      have htag : tagAt? ((escaped t ++ u).dropWhile isBackslash) =
          some (start :: inner, escaped after ++ u) :=
        tagAt?_eq_some_iff.mpr ⟨start, inner, hdrop, hstart, hinner, rfl⟩
      rw [segmentsAfter_tag htag, htake, List.length_replicate, ih u hu]
      rfl
  | char c t h ih =>
    obtain ⟨quiet, last, hquiet, ih⟩ := ih (c :: done)
    refine ⟨quiet, last, hquiet, fun u hu => ?_⟩
    have hnone := tagAt?_dropWhile_escaped h hu
    rw [escaped_char h, List.cons_append] at hnone ⊢
    rw [segmentsAfter_char hnone, ih u hu]

/-! ## What is shown -/

theorem dropBackslashes_append (hs : ∀ c ∈ s.getLast?, isBackslash c = false) (t : Text) :
    Segment.dropBackslashes (s ++ t) = Segment.dropBackslashes s ++ Segment.dropBackslashes t := by
  fun_induction Segment.dropBackslashes s with
  | case1 => rfl
  | case2 c =>
    have hc : c ≠ backslash := by simpa [isBackslash] using hs c rfl
    cases t with
    | nil => rfl
    | cons d t => simp [Segment.dropBackslashes, hc]
  | case3 c d rest h ih =>
    have hrest := ih (by simpa using hs)
    simp_all [Segment.dropBackslashes]
  | case4 c d rest h ih =>
    have hrest := ih (by simpa using hs)
    simp_all [Segment.dropBackslashes]

theorem dropBackslashes_of_not_mem (h : 0x5B ∉ t) : Segment.dropBackslashes t = t := by
  fun_induction Segment.dropBackslashes t with
  | case1 => rfl
  | case2 c => rfl
  | case3 c d rest hcd ih =>
    simp only [Bool.and_eq_true, decide_eq_true_eq] at hcd
    obtain ⟨-, rfl⟩ := hcd
    exact absurd (List.mem_cons_of_mem c List.mem_cons_self) h
  | case4 c d rest hcd ih => rw [ih fun hmem => h (List.mem_cons_of_mem c hmem)]

theorem tagAt?_of_not_mem (h : 0x5B ∉ t) : tagAt? t = none := by
  cases t with
  | nil => rfl
  | cons c t => exact tagAt?_cons fun hc => h (hc ▸ List.mem_cons_self)

theorem segmentsAfter_of_not_mem (h : 0x5B ∉ t) (done : Text) :
    segmentsAfter done t = [.plain (done.reverse ++ t)] := by
  induction t generalizing done with
  | nil => simp
  | cons c t ih =>
    have hnone : tagAt? ((c :: t).dropWhile isBackslash) = none :=
      tagAt?_of_not_mem fun hmem => h ((List.dropWhile_sublist isBackslash).mem hmem)
    rw [segmentsAfter_char hnone, ih fun hmem => h (List.mem_cons_of_mem c hmem)]
    simp

/-- Whether a text is not followed by what its last backslash could change. -/
def EndsQuiet (p u : Text) : Prop := p.getLast? ≠ some 0x5C ∨ u = []

theorem EndsQuiet.of_cons (h : EndsQuiet (c :: s) u) (hs : s ≠ []) : EndsQuiet s u := by
  rwa [EndsQuiet, List.getLast?_cons_of_ne_nil hs] at h

theorem tagAt?_dropWhile_append (h : 0x5B ∉ s) (hne : s ≠ []) (hquiet : EndsQuiet s u) :
    tagAt? ((s ++ u).dropWhile isBackslash) = none := by
  induction s with
  | nil => exact absurd rfl hne
  | cons c s ih =>
    simp only [List.mem_cons, not_or] at h
    cases hc : isBackslash c with
    | false =>
      rw [List.cons_append, List.dropWhile_cons_of_neg (by simp [hc])]
      exact tagAt?_cons (Ne.symm h.1)
    | true =>
      rw [List.cons_append, List.dropWhile_cons_of_pos hc]
      by_cases hs : s = []
      · subst hs
        rcases hquiet with hlast | rfl
        · exact absurd (congrArg some (of_decide_eq_true hc)) hlast
        · rfl
      · exact ih h.2 hs (hquiet.of_cons hs)

/-- A text without left brackets is in the segment before the rest. -/
theorem segmentsAfter_append (h : 0x5B ∉ s) (hquiet : EndsQuiet s u) (done : Text) :
    segmentsAfter done (s ++ u) = segmentsAfter (s.reverse ++ done) u := by
  induction s generalizing done with
  | nil => rfl
  | cons c s ih =>
    have hnone := tagAt?_dropWhile_append h (List.cons_ne_nil c s) hquiet
    have hrest : EndsQuiet s u := by
      by_cases hs : s = []
      · exact .inl (by simp [hs])
      · exact hquiet.of_cons hs
    rw [List.cons_append] at hnone ⊢
    rw [segmentsAfter_char hnone, ih (fun hmem => h (List.mem_cons_of_mem c hmem)) hrest]
    simp

/-- What is shown of segments. -/
def shownAll (segments : List Segment) : Text := segments.flatMap Segment.shown

theorem renderFrom_cons {segment : Segment} (h : segment.IsQuiet) (names : List Text)
    (position : Nat) (rest : List Segment) : renderFrom names position (segment :: rest) =
      (renderFrom names (position + segment.source.length) rest).map (segment.shown ++ ·) := by
  cases segment with
  | plain t => rfl
  | tag n body =>
    have hodd : n % 2 = 1 := h
    rw [renderFrom, if_pos hodd]
    rfl

theorem renderFrom_tag {n : Nat} (h : n % 2 ≠ 1) {names names' : List Text} {position : Nat}
    (hfollow : follow names (position + n) (Tag.ofBody body) = .ok names') (rest : List Segment) :
    renderFrom names position (.tag n body :: rest) =
      (renderFrom names' (position + (Segment.tag n body).source.length) rest).map
        ((Segment.tag n body).shown ++ ·) := by
  rw [renderFrom, if_neg h, hfollow]
  rfl

theorem renderFrom_append (names : List Text) (position : Nat) {quiet : List Segment}
    (h : ∀ segment ∈ quiet, Segment.IsQuiet segment) (more : List Segment) : ∃ position',
    renderFrom names position (quiet ++ more) =
      (renderFrom names position' more).map (shownAll quiet ++ ·) := by
  induction quiet generalizing position with
  | nil => exact ⟨position, (congrFun Except.map_id _).symm⟩
  | cons segment quiet ih =>
    obtain ⟨hsegment, hquiet⟩ := List.forall_mem_cons.mp h
    obtain ⟨position', hrest⟩ := ih (position + segment.source.length) hquiet
    refine ⟨position', ?_⟩
    rw [List.cons_append, renderFrom_cons hsegment, hrest]
    cases renderFrom names position' more with
    | error e => rfl
    | ok after => simp [Except.map, shownAll]

/-! ## Texts without markup -/

/-- Whether a text has no brackets that open tags and no backslashes. -/
def IsUnmarked (t : Text) : Prop := 0x5B ∉ t ∧ backslash ∉ t

theorem escaped_of_not_mem (h : 0x5B ∉ t) : escaped t = t := by
  rw [escaped, segments, segmentsAfter_of_not_mem h]
  simp [Segment.escaped]

theorem mem_of_mem_escape (h : c ∈ escape t) : c ∈ t ∨ c = backslash := by
  have hescaped (h : c ∈ escaped t) : c ∈ t ∨ c = backslash := by
    have hsource := source_segmentsAfter t []
    rw [List.reverse_nil, List.nil_append] at hsource
    obtain ⟨segment, hsegment, hc⟩ := List.mem_flatMap.mp h
    rw [← hsource, List.mem_flatMap]
    cases segment with
    | plain s => exact .inl ⟨_, hsegment, hc⟩
    | tag n body =>
      rcases List.mem_append.mp hc with hc | hc
      · exact .inr (List.eq_of_mem_replicate hc)
      · exact .inl ⟨_, hsegment, List.mem_append_right _ hc⟩
  obtain ⟨more, hescape, hmore, -⟩ := escape_eq t
  rw [hescape, List.mem_append] at h
  rcases h with h | h
  · exact hescaped h
  · rcases hmore with rfl | rfl
    · cases h
    · exact .inr (List.mem_singleton.mp h)

theorem escape_of_isUnmarked (h : IsUnmarked t) : escape t = t := by
  have hescaped := escaped_of_not_mem h.1
  obtain ⟨more, hescape, -, hmore⟩ := escape_eq t
  rw [hescape, hescaped, hmore (hescaped.symm ▸ h.2), List.append_nil]

/-! ## Parts of a message -/

/-- Whether a part of a text shows something before the rest, and leaves open the tags that were. -/
def Gives (p out u : Text) : Prop :=
  ∀ names position, ∃ position', renderFrom names position (segments (p ++ u)) =
    (renderFrom names position' (segments u)).map (out ++ ·)

variable {p q out out' : Text}

theorem map_append_map (result : Except MarkupError Text) (s t : Text) :
    (result.map (t ++ ·)).map (s ++ ·) = result.map ((s ++ t) ++ ·) := by
  cases result with
  | error e => rfl
  | ok text => exact congrArg Except.ok (List.append_assoc s t text).symm

theorem Gives.append (hp : Gives p out (q ++ u)) (hq : Gives q out' u) :
    Gives (p ++ q) (out ++ out') u := by
  intro names position
  obtain ⟨position', hp⟩ := hp names position
  obtain ⟨position'', hq⟩ := hq names position'
  exact ⟨position'', by rw [List.append_assoc, hp, hq, map_append_map]⟩

theorem renderFrom_segmentsAfter {done : Text} (hquiet : EndsQuiet done.reverse u)
    (names : List Text) (position : Nat) : ∃ position',
      renderFrom names position (segmentsAfter done u) =
        (renderFrom names position' (segments u)).map (Segment.dropBackslashes done.reverse ++ ·) := by
  obtain ⟨first, rest, hsegments⟩ := segmentsAfter_eq u
  have hdrop : Segment.dropBackslashes (done.reverse ++ first) =
      Segment.dropBackslashes done.reverse ++ Segment.dropBackslashes first := by
    rcases hquiet with hlast | rfl
    · refine dropBackslashes_append (fun c hc => decide_eq_false fun hback => ?_) first
      rw [hc, hback] at hlast
      exact hlast rfl
    · obtain rfl : first = [] := by
        have hnil := hsegments []
        rw [segmentsAfter_nil] at hnil
        exact (Segment.plain.inj (List.cons.inj hnil).1).symm
      rw [List.append_nil]
      exact (List.append_nil _).symm
  refine ⟨position + done.length, ?_⟩
  rw [segments, hsegments, hsegments, renderFrom_cons (isQuiet_plain _),
    renderFrom_cons (isQuiet_plain _), map_append_map]
  simp only [Segment.shown, Segment.source, hdrop, List.reverse_nil, List.nil_append,
    List.length_append, List.length_reverse, Nat.add_assoc]

theorem gives_plain (h : 0x5B ∉ p) (hquiet : EndsQuiet p u) : Gives p p u := by
  intro names position
  have hdone : EndsQuiet (p.reverse ++ []).reverse u := by simpa using hquiet
  obtain ⟨position', hrest⟩ := renderFrom_segmentsAfter hdone names position
  refine ⟨position', ?_⟩
  rw [segments, segmentsAfter_append h hquiet, hrest, List.append_nil, List.reverse_reverse,
    dropBackslashes_of_not_mem h]

theorem endsQuiet_append {after : Text} (h : after ≠ [] ∧ after.getLast? ≠ some 0x5C ∨ u = [])
    (s : Text) : EndsQuiet (s ++ after) u := by
  refine h.imp_left fun ⟨hne, hlast⟩ => ?_
  rwa [List.getLast?_append_of_ne_nil _ hne]

theorem exists_gives_escape (t : Text) {after : Text} (hafter : 0x5B ∉ after)
    (hend : after ≠ [] ∧ after.getLast? ≠ some 0x5C ∨ u = []) (hseals : Seals (after ++ u)) :
    ∃ out, Gives (escape t ++ after) out u := by
  obtain ⟨more, hescape, hmore, -⟩ := escape_eq t
  obtain ⟨quiet, last, hquiets, hsegments⟩ := segmentsAfter_escaped t []
  let done := (more ++ after).reverse ++ last
  have hbracket : 0x5B ∉ more ++ after := by
    rw [List.mem_append, not_or]
    refine ⟨?_, hafter⟩
    rcases hmore with rfl | rfl <;> decide
  have htext : segments (escape t ++ after ++ u) = quiet ++ segmentsAfter done u := by
    rw [← segmentsAfter_append hbracket (endsQuiet_append hend more), hescape,
      List.append_assoc more after u, ← hsegments _ (hseals.more hmore)]
    simp only [segments, List.append_assoc]
  have hdone : EndsQuiet done.reverse u := by
    have hlast := endsQuiet_append hend (last.reverse ++ more)
    simpa [done, List.append_assoc] using hlast
  refine ⟨shownAll quiet ++ Segment.dropBackslashes done.reverse, fun names position => ?_⟩
  obtain ⟨position', hrest⟩ := renderFrom_append names position hquiets (segmentsAfter done u)
  obtain ⟨position'', hdone⟩ := renderFrom_segmentsAfter hdone names position'
  exact ⟨position'', by rw [htext, hrest, hdone, map_append_map]⟩

/-- An escaped text is shown as it is if it has nothing to escape. -/
theorem gives_escape (t : Text) {after : Text} (hafter : 0x5B ∉ after)
    (hend : after ≠ [] ∧ after.getLast? ≠ some 0x5C ∨ u = []) (hseals : Seals (after ++ u)) :
    ∃ out, Gives (escape t ++ after) out u ∧ (IsUnmarked t → out = t ++ after) := by
  by_cases hunmarked : IsUnmarked t
  · have hmem : 0x5B ∉ t ++ after := by
      rw [List.mem_append, not_or]
      exact ⟨hunmarked.1, hafter⟩
    refine ⟨t ++ after, ?_, fun _ => rfl⟩
    rw [escape_of_isUnmarked hunmarked]
    exact gives_plain hmem (endsQuiet_append hend t)
  · obtain ⟨out, hout⟩ := exists_gives_escape t hafter hend hseals
    exact ⟨out, hout, fun h => absurd h hunmarked⟩

/-! ## Styles -/

theorem segments_bracketed {start : CodePoint} {inner : Text} (hstart : isTagStart start = true)
    (hinner : ∀ c ∈ inner, isBracket c = false) (u : Text) :
    segments (Segment.bracketed (start :: inner) ++ u) =
      .plain [] :: .tag 0 (start :: inner) :: segments u := by
  have htext : Segment.bracketed (start :: inner) ++ u = 0x5B :: start :: (inner ++ 0x5D :: u) := by
    simp [Segment.bracketed]
  have hneg : ¬ isBackslash 0x5B = true := by decide
  have hfound : tagAt? ((Segment.bracketed (start :: inner) ++ u).dropWhile isBackslash) =
      some (start :: inner, u) := by
    rw [htext, List.dropWhile_cons_of_neg hneg]
    exact tagAt?_eq_some_iff.mpr ⟨start, inner, rfl, hstart, hinner, rfl⟩
  have hnone : (Segment.bracketed (start :: inner) ++ u).takeWhile isBackslash = [] := by
    rw [htext, List.takeWhile_cons_of_neg hneg]
  rw [segments, segmentsAfter_tag hfound, hnone]
  rfl

theorem renderFrom_bracketed {start : CodePoint} {inner : Text} (hstart : isTagStart start = true)
    (hinner : ∀ c ∈ inner, isBracket c = false) {names names' : List Text} {position : Nat}
    (hfollow : follow names position (Tag.ofBody (start :: inner)) = .ok names') (u : Text) :
    ∃ position', renderFrom names position (segments (Segment.bracketed (start :: inner) ++ u)) =
      renderFrom names' position' (segments u) := by
  have hempty : position + (Segment.plain []).source.length = position := rfl
  refine ⟨position + (Segment.tag 0 (start :: inner)).source.length, ?_⟩
  rw [segments_bracketed hstart hinner, renderFrom_cons (isQuiet_plain []), hempty,
    renderFrom_tag (by decide) hfollow]
  exact (congrFun Except.map_id _).trans (congrFun Except.map_id _)

theorem renderFrom_style {style : Text} (h : IsStyle style) (names : List Text) (position : Nat)
    (u : Text) : ∃ name position', renderFrom names position
      (segments (Segment.bracketed style ++ u)) = renderFrom (name :: names) position' (segments u) := by
  obtain ⟨hne, hletters⟩ := h
  obtain ⟨start, inner, rfl⟩ := List.exists_cons_of_ne_nil hne
  have hletter : ∀ c ∈ start :: inner, 0x61 ≤ c.val ∧ c.val ≤ 0x7A := by simpa using hletters
  have hother {c d : CodePoint} (hc : c ∈ start :: inner) (hd : d.val < 0x61) : c ≠ d := by
    rintro rfl
    exact absurd (hletter c hc).1 (by omega)
  have hstart : isTagStart start = true := by
    simp [isTagStart, hletter start List.mem_cons_self]
  have hinner : ∀ c ∈ inner, isBracket c = false := by
    intro c hc
    have hmem := List.mem_cons_of_mem start hc
    rw [isBracket, decide_eq_false (hother hmem (d := '[') (by decide)),
      decide_eq_false (hother hmem (d := ']') (by decide))]
    rfl
  have hname : (Tag.ofBody (start :: inner)).name = start :: inner :=
    List.takeWhile_eq_self_iff.mpr fun c hc => by
      simpa using hother hc (d := 0x3D) (by decide)
  have hfollow : follow names position (Tag.ofBody (start :: inner)) =
      .ok (normalName (start :: inner) :: names) := by
    unfold follow
    rw [hname]
    exact if_neg (hother List.mem_cons_self (d := '/') (by decide))
  obtain ⟨position', hrest⟩ := renderFrom_bracketed hstart hinner hfollow u
  exact ⟨_, position', hrest⟩

theorem renderFrom_close (name : Text) (names : List Text) (position : Nat) (u : Text) :
    ∃ position', renderFrom (name :: names) position (segments (("[/]" : Text) ++ u)) =
      renderFrom names position' (segments u) :=
  have hstart : isTagStart 0x2F = true := rfl
  renderFrom_bracketed hstart (fun _ h => absurd h List.not_mem_nil) rfl u

/-- A part in a style shows what it shows without. -/
theorem Gives.styled {style : Text} (hstyle : IsStyle style)
    (h : Gives p out (("[/]" : Text) ++ u)) :
    Gives (Segment.bracketed style ++ p ++ ("[/]" : Text)) out u := by
  intro names position
  obtain ⟨name, position₁, hopen⟩ := renderFrom_style hstyle names position (p ++ (("[/]" : Text) ++ u))
  obtain ⟨position₂, hinside⟩ := h (name :: names) position₁
  obtain ⟨position₃, hclose⟩ := renderFrom_close name names position₂ u
  refine ⟨position₃, ?_⟩
  rw [← hclose, ← hinside, ← hopen]
  simp only [List.append_assoc]

/-! ## Messages -/

/-- Whether a text from outside has nothing to escape. -/
def IsUnmarkedIn (outside : Option Text) : Prop := ∀ t, outside = some t → IsUnmarked t

/-- The text of a span is shown, if what is behind it seals it. -/
theorem gives_inside {style outside : Option Text} {before after : Text}
    (hspan : Span.Sound ⟨style, before, outside, after⟩)
    (hu : outside = none ∨ OpensFirst u) : ∃ out,
      Gives (before ++ ((outside.map escape).getD [] ++ after)) (before ++ out) u ∧
        (IsUnmarkedIn outside → out = outside.getD [] ++ after) := by
  obtain ⟨-, hbefore, hlast, hafter, hend, houtside⟩ := hspan
  have hfirst (q : Text) : Gives before before (q ++ u) := gives_plain hbefore (.inl hlast)
  cases outside with
  | none =>
    exact ⟨after, (hfirst _).append (gives_plain hafter.1 (.inl hend)), fun _ => rfl⟩
  | some t =>
    have hne : after ≠ [] := houtside.resolve_left nofun
    have hnone : ∀ c ∈ after, isBracket c = false := by
      intro c hc
      rw [← Bool.not_eq_true]
      intro hbracket
      simp only [isBracket, Bool.or_eq_true, decide_eq_true_eq] at hbracket
      rcases hbracket with rfl | rfl
      · exact hafter.1 hc
      · exact hafter.2 hc
    have hseals : Seals (after ++ u) :=
      ⟨(opensFirst_append hnone).mpr (hu.resolve_left nofun),
        tagAt?_dropWhile_append hafter.1 hne (.inl hend)⟩
    obtain ⟨out, hout, hshown⟩ := gives_escape t hafter.1 (.inl ⟨hne, hend⟩) hseals
    exact ⟨out, (hfirst _).append hout, fun h => hshown (h t rfl)⟩

theorem gives_span {span : Span} (hspan : span.Sound)
    (hu : span.style = none → span.outside ≠ none → u = []) : ∃ out,
      Gives (span.markup escape) (span.before ++ out) u ∧
        (IsUnmarkedIn span.outside → span.before ++ out = span.plain) := by
  obtain ⟨style, before, outside, after⟩ := span
  cases style with
  | none =>
    have hopens : outside = none ∨ OpensFirst u := by
      by_cases houtside : outside = none
      · exact .inl houtside
      · rw [hu rfl houtside]
        exact .inr seals_nil.close
    obtain ⟨out, hout, hshown⟩ := gives_inside hspan hopens
    refine ⟨out, ?_, fun h => congrArg (before ++ ·) (hshown h)⟩
    rw [Span.markup, Span.opening, Span.closing]
    simpa using hout
  | some style =>
    have hstyle : IsStyle style := by
      cases hspan with
      | mk hstyle => exact hstyle style rfl
    have hopens : OpensFirst (("[/]" : Text) ++ u) := (opensFirst_bracket rfl).mpr (by decide)
    obtain ⟨out, hout, hshown⟩ := gives_inside hspan (.inr hopens)
    exact ⟨out, hout.styled hstyle, fun h => congrArg (before ++ ·) (hshown h)⟩

/-- Spans are shown one after another, before a text from outside. -/
theorem gives_spans {last : Option Text} {spans : List Span} (hspans : ∀ span ∈ spans, span.Sound)
    (hapart : Message.Apart last spans) : ∃ out,
      Gives (spans.flatMap (Span.markup escape)) out ((last.map escape).getD []) ∧
        ((∀ span ∈ spans, IsUnmarkedIn span.outside) → out = spans.flatMap Span.plain) ∧
        (spans.head?.map Span.before).getD [] <+: out := by
  induction spans with
  | nil =>
    refine ⟨[], fun names position => ⟨position, ?_⟩, fun _ => rfl, List.prefix_rfl⟩
    exact (congrFun Except.map_id _).symm
  | cons span spans ih =>
    obtain ⟨hspan, hspans⟩ := List.forall_mem_cons.mp hspans
    obtain ⟨hends, hapart⟩ := hapart
    obtain ⟨rest, hrest, hshownRest, -⟩ := ih hspans hapart
    obtain ⟨out, hout, hshown⟩ := gives_span
      (u := spans.flatMap (Span.markup escape) ++ (last.map escape).getD []) hspan
      fun hstyle houtside => by
        obtain ⟨rfl, rfl⟩ := hends hstyle houtside
        rfl
    refine ⟨span.before ++ out ++ rest, hout.append hrest, fun h => ?_, ?_⟩
    · obtain ⟨hfirst, hothers⟩ := List.forall_mem_cons.mp h
      rw [hshown hfirst, hshownRest hothers]
      rfl
    · rw [List.append_assoc]
      exact List.prefix_append _ _

/-- A sound message is shown, with what stands before all texts from outside in front, and as it is
if these have nothing to escape. -/
theorem render_markup {message : Message} (h : message.Sound) : ∃ out,
    render (message.markup escape) = .ok out ∧
      ((∀ span ∈ message.spans, IsUnmarkedIn span.outside) → IsUnmarkedIn message.last →
        out = message.plain) ∧
      message.opening <+: out := by
  obtain ⟨spans, last⟩ := message
  obtain ⟨out, hout, hshown, hopening⟩ := gives_spans h.spans h.apart
  obtain ⟨end', hend, hshownEnd⟩ : ∃ out', Gives ((last.map escape).getD []) out' [] ∧
      (IsUnmarkedIn last → out' = last.getD []) := by
    cases last with
    | none => exact ⟨[], gives_plain List.not_mem_nil (.inr rfl), fun _ => rfl⟩
    | some t =>
      obtain ⟨out', hout', hshown'⟩ := gives_escape t List.not_mem_nil (.inr rfl) seals_nil
      rw [List.append_nil] at hout' hshown'
      exact ⟨out', hout', fun h => hshown' (h t rfl)⟩
  rw [← List.append_nil ((last.map escape).getD [])] at hout
  obtain ⟨position, hrender⟩ := hout.append hend [] 0
  rw [List.append_nil] at hrender
  refine ⟨out ++ end', ?_, fun hspans hlast => ?_, hopening.trans (List.prefix_append _ _)⟩
  · have hnil : renderFrom [] position (segments []) = .ok [] := by
      rw [segments, segmentsAfter_nil]
      rfl
    rw [hnil] at hrender
    rw [render, Message.markup, hrender]
    exact congrArg Except.ok (List.append_nil _)
  · rw [hshown hspans, hshownEnd hlast]
    rfl

/-! ## What is shown comes from the text -/

theorem mem_of_mem_dropBackslashes (h : c ∈ Segment.dropBackslashes t) : c ∈ t := by
  fun_induction Segment.dropBackslashes t with
  | case1 => exact h
  | case2 d => exact h
  | case3 d e rest hde ih => exact List.mem_cons_of_mem d (ih h)
  | case4 d e rest hde ih =>
    rcases List.mem_cons.mp h with rfl | h
    · exact List.mem_cons_self
    · exact List.mem_cons_of_mem d (ih h)

theorem mem_source_of_mem_shown {segment : Segment} (h : c ∈ segment.shown) : c ∈ segment.source := by
  cases segment with
  | plain t => exact mem_of_mem_dropBackslashes h
  | tag n body =>
    rcases List.mem_append.mp h with h | h
    · obtain ⟨hn, rfl⟩ := List.mem_replicate.mp h
      exact List.mem_append_left _ (List.mem_replicate.mpr ⟨by omega, rfl⟩)
    · split at h
      · exact List.mem_append_right _ h
      · cases h

theorem eq_shownAll_of_renderFrom {names : List Text} {position : Nat} {segments : List Segment}
    (h : renderFrom names position segments = .ok out) : out = shownAll segments := by
  induction segments generalizing names position out with
  | nil =>
    cases h
    rfl
  | cons segment rest ih =>
    obtain ⟨names', position', hrest⟩ : ∃ names' position',
        (renderFrom names' position' rest).map (segment.shown ++ ·) = .ok out := by
      by_cases hquiet : segment.IsQuiet
      · rw [renderFrom_cons hquiet] at h
        exact ⟨_, _, h⟩
      · cases segment with
        | plain t => exact absurd trivial hquiet
        | tag n body =>
          have heven : ¬ n % 2 = 1 := hquiet
          cases hfollow : follow names (position + n) (Tag.ofBody body) with
          | error e =>
            rw [renderFrom, if_neg heven, hfollow] at h
            cases h
          | ok names' =>
            rw [renderFrom_tag heven hfollow] at h
            exact ⟨_, _, h⟩
    obtain ⟨after, hafter, rfl⟩ := map_eq_ok_iff.mp hrest
    rw [ih hafter]
    rfl

theorem mem_of_mem_render (h : render t = .ok out) (hc : c ∈ out) : c ∈ t := by
  rw [eq_shownAll_of_renderFrom h, shownAll, List.mem_flatMap] at hc
  obtain ⟨segment, hsegment, hc⟩ := hc
  have hsource := source_segmentsAfter t []
  rw [List.reverse_nil, List.nil_append] at hsource
  rw [← hsource]
  exact List.mem_flatMap.mpr ⟨segment, hsegment, mem_source_of_mem_shown hc⟩

end FluentFixtures.Command.Markup
