import FluentFixtures.Proofs.Command.Laws
import FluentFixtures.Proofs.Text.Decimal
import FluentFixtures.Proofs.Text.Surrogate

/-!
# The messages of the program

The markup of all messages is that of their styles, whatever comes from outside,
and a message on a file with an ordinary name is ordinary.
-/

namespace FluentFixtures

namespace Text

variable {s t : Text}

theorem hasPicture_append_of_not_mem (hs : 0x3A ∉ s) (t : Text) :
    hasPicture (s ++ t) = hasPicture t := by
  induction s with
  | nil => rfl
  | cons c s ih =>
    simp only [List.mem_cons, not_or] at hs
    rw [List.cons_append, hasPicture, ih hs.2, decide_eq_false (Ne.symm hs.1)]
    rfl

theorem hasPicture_of_not_mem (ht : 0x3A ∉ t) : hasPicture t = false := by
  have h := hasPicture_append_of_not_mem ht []
  rwa [List.append_nil] at h

theorem takeWhile_append_space (s t : Text) :
    (s ++ 0x20 :: t).takeWhile (· ≠ 0x20) = s.takeWhile (· ≠ 0x20) := by
  induction s with
  | nil => rfl
  | cons c s ih => rw [List.cons_append, List.takeWhile_cons, List.takeWhile_cons, ih]

/-- No picture has a space in its name. -/
theorem hasPicture_append_space (s t : Text) :
    hasPicture (s ++ 0x20 :: t) = (hasPicture s || hasPicture t) := by
  induction s with
  | nil => rfl
  | cons c s ih =>
    rw [List.cons_append, hasPicture, ih, takeWhile_append_space, hasPicture, Bool.or_assoc]

/-- Whether a text can be in a message: it has bytes, and no control codes but line feeds and no left
brackets. -/
def IsClear (t : Text) : Prop :=
  ∀ c ∈ t, (c = 0x0A ∨ 0x20 ≤ c.val) ∧ c ≠ 0x5B ∧ c.isSurrogate = false

instance (t : Text) : Decidable t.IsClear :=
  decidable_of_iff (t.all fun c => (c = 0x0A || 0x20 ≤ c.val) && c ≠ 0x5B && !c.isSurrogate)
    (by simp [IsClear, and_assoc])

theorem IsClear.append (hs : s.IsClear) (ht : t.IsClear) : (s ++ t).IsClear :=
  List.forall_mem_append.mpr ⟨hs, ht⟩

theorem IsClear.not_mem (h : t.IsClear) : 0x5B ∉ t := fun hmem => (h _ hmem).2.1 rfl

theorem val_of_mem_decimal {n : Nat} {c : CodePoint} (h : c ∈ decimal n) :
    0x30 ≤ c.val ∧ c.val ≤ 0x39 := by
  have hdigit := digits_decimal n c h
  simpa only [CodePoint.isDigit, Bool.and_eq_true, decide_eq_true_eq] using hdigit

theorem isClear_decimal (n : Nat) : (decimal n).IsClear := by
  intro c hc
  obtain ⟨hlower, hupper⟩ := val_of_mem_decimal hc
  refine ⟨.inr (by omega), ?_, CodePoint.isSurrogate_eq_false.mpr (.inl (by omega))⟩
  rintro rfl
  exact absurd hupper (by decide)

theorem colon_not_mem_decimal (n : Nat) : 0x3A ∉ decimal n := fun hc =>
  absurd (val_of_mem_decimal hc).2 (by decide)

end Text

namespace Command

/-- Whether a name is shown as it is: it has bytes, and no control codes, no left brackets and
backslashes, and no colons, which may spell pictures. -/
def IsOrdinary (t : Text) : Prop :=
  ∀ c ∈ t, 0x20 ≤ c.val ∧ c ≠ 0x5B ∧ c ≠ 0x5C ∧ c ≠ 0x3A ∧ c.isSurrogate = false

instance (t : Text) : Decidable (IsOrdinary t) :=
  decidable_of_iff
    (t.all fun c => 0x20 ≤ c.val && c ≠ 0x5B && c ≠ 0x5C && c ≠ 0x3A && !c.isSurrogate)
    (by simp [IsOrdinary, and_assoc])

namespace IsOrdinary

variable {t : Text}

theorem isClear (h : IsOrdinary t) : t.IsClear := fun c hc =>
  ⟨.inr (h c hc).1, (h c hc).2.1, (h c hc).2.2.2.2⟩

theorem backslash_not_mem (h : IsOrdinary t) : 0x5C ∉ t := fun hc => (h _ hc).2.2.1 rfl

theorem colon_not_mem (h : IsOrdinary t) : 0x3A ∉ t := fun hc => (h _ hc).2.2.2.1 rfl

end IsOrdinary

/-! ## Sound messages -/

namespace Message

theorem sound_failedLoad (path fault : Text) : (failedLoad path fault).Sound where
  spans := List.forall_mem_cons.mpr
    ⟨⟨by decide, by decide, by decide, by decide, by decide, .inr (by decide)⟩,
      List.forall_mem_singleton.mpr
        ⟨by decide, by decide, by decide, by decide, by decide, .inl rfl⟩⟩
  apart := ⟨nofun, fun _ h => absurd rfl h, trivial⟩

theorem sound_nothing {pattern : Text} (hpattern : 0x5B ∉ pattern) (directory : Text) :
    (nothing pattern directory).Sound where
  spans := by
    refine List.forall_mem_singleton.mpr
      ⟨by decide, ?_, ?_, by decide, by decide, .inr (by decide)⟩
    · simp only [List.mem_append, not_or]
      exact ⟨by decide, hpattern, by decide⟩
    · rw [← List.append_assoc, List.getLast?_append]
      exact fun h => by cases h
  apart := ⟨nofun, trivial⟩

theorem sound_saved (name : Text) : (saved name).Sound where
  spans := List.forall_mem_singleton.mpr
    ⟨by decide, by decide, by decide, by decide, by decide, .inr (by decide)⟩
  apart := ⟨fun _ _ => ⟨rfl, rfl⟩, trivial⟩

theorem sound_stale (name : Text) : (stale name).Sound where
  spans := List.forall_mem_cons.mpr
    ⟨⟨by decide, by decide, by decide, by decide, by decide, .inl rfl⟩,
      List.forall_mem_cons.mpr
        ⟨⟨by decide, by decide, by decide, by decide, by decide, .inl rfl⟩,
          List.forall_mem_singleton.mpr
            ⟨by decide, by decide, by decide, by decide, by decide, .inr (by decide)⟩⟩⟩
  apart := ⟨fun _ h => absurd rfl h, nofun, fun _ _ => ⟨rfl, rfl⟩, trivial⟩

theorem sound_malformed (name : Text) {t : Text} (ht : t.IsClear) (hlast : t.getLast? ≠ some 0x5C) :
    (malformed name t).Sound where
  spans := by
    refine List.forall_mem_cons.mpr
      ⟨⟨by decide, by decide, by decide, by decide, by decide, .inr (by decide)⟩,
        List.forall_mem_singleton.mpr ⟨by decide, ?_, ?_, by decide, by decide, .inl rfl⟩⟩
    · exact (Text.IsClear.append (by decide) ht).not_mem
    · rw [List.getLast?_append]
      cases h : t.getLast? with
      | none => decide
      | some c => rwa [h] at hlast
  apart := ⟨nofun, fun _ h => absurd rfl h, trivial⟩

theorem isClear_count (stale files : Nat) : ((" " : Text) ++ Text.decimal stale ++ (" of " : Text) ++
    Text.decimal files ++ (" file(s) would change" : Text)).IsClear :=
  .append (.append (.append (.append (by decide) (Text.isClear_decimal stale)) (by decide))
    (Text.isClear_decimal files)) (by decide)

theorem sound_failedCheck (stale files : Nat) : (failedCheck stale files).Sound where
  spans := by
    refine List.forall_mem_cons.mpr
      ⟨⟨by decide, by decide, by decide, by decide, by decide, .inl rfl⟩,
        List.forall_mem_cons.mpr
          ⟨⟨by decide, by decide, by decide, by decide, by decide, .inl rfl⟩,
            List.forall_mem_singleton.mpr ⟨by decide, ?_, ?_, by decide, by decide, .inl rfl⟩⟩⟩
    · exact (isClear_count stale files).not_mem
    · rw [List.getLast?_append]
      exact fun h => by cases h
  apart := ⟨fun _ h => absurd rfl h, nofun, fun _ h => absurd rfl h, trivial⟩

theorem isClear_files (files : Nat) :
    ((" " : Text) ++ Text.decimal files ++ (" file(s) already normalized" : Text)).IsClear :=
  .append (.append (by decide) (Text.isClear_decimal files)) (by decide)

theorem sound_passedCheck (files : Nat) : (passedCheck files).Sound where
  spans := by
    refine List.forall_mem_cons.mpr
      ⟨⟨by decide, by decide, by decide, by decide, by decide, .inl rfl⟩,
        List.forall_mem_singleton.mpr ⟨by decide, ?_, ?_, by decide, by decide, .inl rfl⟩⟩
    · exact (isClear_files files).not_mem
    · rw [List.getLast?_append]
      exact fun h => by cases h
  apart := ⟨nofun, fun _ h => absurd rfl h, trivial⟩

/-! ## Ordinary messages -/

theorem encodable_of_isClear {message : Message} (h : message.plain.IsClear) : message.Encodable :=
  fun c hc => (h c hc).2.2

/-- A message has one text from outside, a name, or none. -/
theorem ordinary_of_isClear {message : Message} {name : Text} (hname : IsOrdinary name)
    (h : message.plain.IsClear) (hspans : ∀ span ∈ message.spans, ∀ t ∈ span.outside, t = name)
    (hlast : message.last = none) (hpictures : message.plain.hasPicture = false) :
    message.Ordinary where
  points c hc := ⟨(h c hc).1, (h c hc).2.1⟩
  spans span hspan t ht := by
    rw [hspans span hspan t ht]
    exact hname.backslash_not_mem
  last t ht := by
    rw [hlast] at ht
    cases ht
  pictures := hpictures

theorem plain_saved (name : Text) :
    (saved name).plain = ("The file \"" : Text) ++ (name ++ ("\" has been saved!" : Text)) := by
  simp [saved, plain, Span.plain]

theorem plain_stale (name : Text) :
    (stale name).plain = ("  x " : Text) ++ (name ++ (" is not normalized" : Text)) := by
  simp [stale, plain, Span.plain]
  rfl

theorem plain_malformed (name fault : Text) : (malformed name fault).plain =
    (("Failed to parse " : Text) ++ name) ++ (0x3A :: 0x20 :: fault) := by
  simp [malformed, plain, Span.plain]
  rfl

theorem plain_nothing (pattern directory : Text) : (nothing pattern directory).plain =
    (("No files matching " : Text) ++ pattern) ++ ((" in " : Text) ++ (directory ++ ("." : Text))) := by
  simp [nothing, plain, Span.plain]

section Names

variable {name : Text} (hname : IsOrdinary name)

include hname

theorem isClear_saved : (saved name).plain.IsClear := by
  rw [plain_saved]
  exact .append (by decide) (.append hname.isClear (by decide))

theorem ordinary_saved : (saved name).Ordinary := by
  refine ordinary_of_isClear hname (isClear_saved hname) ?_ rfl ?_
  · simp [saved]
  · rw [plain_saved, Text.hasPicture_append_of_not_mem (by decide),
      Text.hasPicture_append_of_not_mem hname.colon_not_mem]
    decide

theorem isClear_stale : (stale name).plain.IsClear := by
  rw [plain_stale]
  exact .append (by decide) (.append hname.isClear (by decide))

theorem ordinary_stale : (stale name).Ordinary := by
  refine ordinary_of_isClear hname (isClear_stale hname) ?_ rfl ?_
  · simp [stale]
  · rw [plain_stale, Text.hasPicture_append_of_not_mem (by decide),
      Text.hasPicture_append_of_not_mem hname.colon_not_mem]
    decide

theorem isClear_malformed {fault : Text} (hfault : fault.IsClear) :
    (malformed name fault).plain.IsClear := by
  rw [plain_malformed]
  refine .append (.append (by decide) hname.isClear) ?_
  have hmark : Text.IsClear [0x3A, 0x20] := by decide
  exact hmark.append hfault

theorem ordinary_malformed {fault : Text} (hfault : fault.IsClear)
    (hpictures : fault.hasPicture = false) : (malformed name fault).Ordinary := by
  refine ordinary_of_isClear hname (isClear_malformed hname hfault) ?_ rfl ?_
  · simp [malformed]
  · have hnone : 0x3A ∉ ("Failed to parse " : Text) ++ name := by
      rw [List.mem_append, not_or]
      exact ⟨by decide, hname.colon_not_mem⟩
    have hmark := Text.hasPicture_append_space [0x3A] fault
    rw [plain_malformed, Text.hasPicture_append_of_not_mem hnone]
    exact hmark.trans hpictures

theorem ordinary_nothing {pattern : Text} (hpattern : IsOrdinary pattern) :
    (nothing pattern name).Ordinary := by
  refine ordinary_of_isClear hname ?_ ?_ rfl ?_
  · rw [plain_nothing]
    exact .append (.append (by decide) hpattern.isClear)
      (.append (by decide) (.append hname.isClear (by decide)))
  · simp [nothing]
  · have hnone : 0x3A ∉ ("No files matching " : Text) ++ pattern := by
      rw [List.mem_append, not_or]
      exact ⟨by decide, hpattern.colon_not_mem⟩
    rw [plain_nothing, Text.hasPicture_append_of_not_mem hnone,
      Text.hasPicture_append_of_not_mem (by decide),
      Text.hasPicture_append_of_not_mem hname.colon_not_mem]
    decide

end Names

/-! ## Counts and faults -/

theorem ordinary_of_static {message : Message} (h : message.plain.IsClear)
    (hcolon : 0x3A ∉ message.plain) (hspans : ∀ span ∈ message.spans, span.outside = none)
    (hlast : message.last = none) : message.Ordinary := by
  have hnil : IsOrdinary [] := nofun
  refine ordinary_of_isClear hnil h (fun span hspan t ht => ?_) hlast
    (Text.hasPicture_of_not_mem hcolon)
  rw [hspans span hspan] at ht
  cases ht

theorem plain_failedCheck (stale files : Nat) : (failedCheck stale files).plain =
    ("\nFAIL" : Text) ++ ((" " : Text) ++ Text.decimal stale ++ (" of " : Text) ++
      Text.decimal files ++ (" file(s) would change" : Text)) := by
  simp [failedCheck, plain, Span.plain]
  rfl

theorem isClear_failedCheck (stale files : Nat) : (failedCheck stale files).plain.IsClear := by
  rw [plain_failedCheck]
  exact .append (by decide) (isClear_count stale files)

theorem ordinary_failedCheck (stale files : Nat) : (failedCheck stale files).Ordinary := by
  refine ordinary_of_static (isClear_failedCheck stale files) ?_ (by simp [failedCheck]) rfl
  rw [plain_failedCheck]
  simp only [List.mem_append, not_or]
  exact ⟨by decide, ⟨⟨⟨by decide, Text.colon_not_mem_decimal stale⟩, by decide⟩,
    Text.colon_not_mem_decimal files⟩, by decide⟩

theorem plain_passedCheck (files : Nat) : (passedCheck files).plain =
    ("OK" : Text) ++ ((" " : Text) ++ Text.decimal files ++
      (" file(s) already normalized" : Text)) := by
  simp [passedCheck, plain, Span.plain]

theorem isClear_passedCheck (files : Nat) : (passedCheck files).plain.IsClear := by
  rw [plain_passedCheck]
  exact .append (by decide) (isClear_files files)

theorem ordinary_passedCheck (files : Nat) : (passedCheck files).Ordinary := by
  refine ordinary_of_static (isClear_passedCheck files) ?_ (by simp [passedCheck]) rfl
  rw [plain_passedCheck]
  simp only [List.mem_append, not_or]
  exact ⟨by decide, ⟨by decide, Text.colon_not_mem_decimal files⟩, by decide⟩

end Message

end Command

namespace Json

theorem SyntaxFault.isClear_message (fault : SyntaxFault) : fault.message.IsClear := by
  cases fault with
  | inString fault => cases fault <;> decide
  | _ => decide

theorem Place.isClear_message (place : Place) : place.message.IsClear := by
  have hdecimal := Text.isClear_decimal
  exact .append (.append (.append (.append (.append (.append (by decide) (hdecimal _))
    (by decide)) (hdecimal _)) (by decide)) (hdecimal _)) (by decide)

theorem Place.colon_not_mem_message (place : Place) : 0x3A ∉ place.message := by
  have hdecimal := Text.colon_not_mem_decimal
  simp only [Place.message, List.mem_append, not_or]
  exact ⟨⟨⟨⟨⟨⟨by decide, hdecimal _⟩, by decide⟩, hdecimal _⟩, by decide⟩, hdecimal _⟩, by decide⟩

variable (fault : SyntaxFault) (place : Place)

theorem ReadError.isClear_malformed : (malformed fault place).message.IsClear :=
  (fault.isClear_message.append (by decide)).append place.isClear_message

theorem ReadError.getLast?_malformed : (malformed fault place).message.getLast? ≠ some 0x5C := by
  simp only [message, Place.message]
  rw [List.getLast?_append, List.getLast?_append]
  exact fun h => by cases h

/-- A colon in a fault has a space or a quote behind it. -/
theorem ReadError.hasPicture_malformed : (malformed fault place).message.hasPicture = false := by
  have htext : (malformed fault place).message =
      (fault.message ++ [0x3A]) ++ 0x20 :: place.message := by
    simp only [message, List.append_assoc]
    rfl
  have hfault : (fault.message ++ [0x3A]).hasPicture = false := by
    cases fault with
    | inString fault => cases fault <;> decide
    | _ => decide
  rw [htext, Text.hasPicture_append_space, hfault,
    Text.hasPicture_of_not_mem place.colon_not_mem_message]
  rfl

end Json

namespace Command

/-! ## Legible messages -/

/-- Whether a lawful console shows a message as it is meant to be read, if it fits. -/
structure Message.Legible (message : Message) : Prop where
  sound : message.Sound
  ordinary : message.Ordinary
  encodable : message.Encodable

namespace Message

variable {name : Text}

theorem legible_saved (hname : IsOrdinary name) : (saved name).Legible where
  sound := sound_saved name
  ordinary := ordinary_saved hname
  encodable := encodable_of_isClear (isClear_saved hname)

theorem legible_stale (hname : IsOrdinary name) : (stale name).Legible where
  sound := sound_stale name
  ordinary := ordinary_stale hname
  encodable := encodable_of_isClear (isClear_stale hname)

theorem legible_malformed (hname : IsOrdinary name) (fault : Json.SyntaxFault) (place : Json.Place) :
    (malformed name (Json.ReadError.malformed fault place).message).Legible :=
  have hfault := Json.ReadError.isClear_malformed fault place
  { sound := sound_malformed name hfault (Json.ReadError.getLast?_malformed fault place)
    ordinary := ordinary_malformed hname hfault (Json.ReadError.hasPicture_malformed fault place)
    encodable := encodable_of_isClear (isClear_malformed hname hfault) }

theorem legible_failedCheck (stale files : Nat) : (failedCheck stale files).Legible where
  sound := sound_failedCheck stale files
  ordinary := ordinary_failedCheck stale files
  encodable := encodable_of_isClear (isClear_failedCheck stale files)

theorem legible_passedCheck (files : Nat) : (passedCheck files).Legible where
  sound := sound_passedCheck files
  ordinary := ordinary_passedCheck files
  encodable := encodable_of_isClear (isClear_passedCheck files)

end Message

theorem Console.Lawful.shows_of_legible {console : Console} {message : Message}
    (h : console.Lawful) (hmessage : message.Legible) : ∃ output, console.Shows message output :=
  h.shows message hmessage.sound hmessage.encodable

end Command

end FluentFixtures
