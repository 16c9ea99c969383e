import FluentFixtures.Text.Basic

/-!
# Universal newlines

A text file may end its lines with a line feed, a carriage return or both.
`unify` turns each of the three into a line feed.
-/

namespace FluentFixtures.Newline

def lineFeed : CodePoint := 0x0A
def carriageReturn : CodePoint := 0x0D

/-- The text with a line feed for every line end; `afterReturn` says that the code point before
was a carriage return, whose line feed is already out. -/
def unifyFrom (afterReturn : Bool) : Text → Text
  | [] => []
  | c :: rest =>
    if c = carriageReturn then lineFeed :: unifyFrom true rest
    else if afterReturn && c = lineFeed then unifyFrom false rest
    else c :: unifyFrom false rest

def unify (t : Text) : Text := unifyFrom false t

theorem mem_of_mem_unifyFrom {c : CodePoint} {t : Text} :
    ∀ {afterReturn : Bool}, c ∈ unifyFrom afterReturn t → c = lineFeed ∨ c ∈ t := by
  induction t with
  | nil => exact fun h => absurd h List.not_mem_nil
  | cons d rest ih =>
    intro afterReturn h
    unfold unifyFrom at h
    split at h
    · rcases List.mem_cons.mp h with h | h
      · exact .inl h
      · exact (ih h).imp_right (List.mem_cons_of_mem d)
    · split at h
      · exact (ih h).imp_right (List.mem_cons_of_mem d)
      · rcases List.mem_cons.mp h with h | h
        · exact .inr (List.mem_cons.mpr (.inl h))
        · exact (ih h).imp_right (List.mem_cons_of_mem d)

theorem mem_of_mem_unify {c : CodePoint} {t : Text} (h : c ∈ unify t) : c = lineFeed ∨ c ∈ t :=
  mem_of_mem_unifyFrom h

theorem unify_eq_self {t : Text} (h : carriageReturn ∉ t) : unify t = t := by
  induction t with
  | nil => rfl
  | cons c rest ih =>
    have hc : ¬ c = carriageReturn := fun e => h (e ▸ List.mem_cons_self)
    have hrest : unifyFrom false rest = rest := ih fun hmem => h (List.mem_cons_of_mem c hmem)
    rw [unify, unifyFrom, if_neg hc, Bool.false_and, hrest]
    rfl

end FluentFixtures.Newline
