import FluentFixtures.Json.Writer
import FluentFixtures.Proofs.Json.Quoted

/-!
# The text of a document

The finished text of a container, piece by piece: marks, line feeds with their
spaces, quoted names and the texts of what is inside.
-/

namespace FluentFixtures.Json

theorem escape_quote (s : Text) :
    Surrogate.escape (quote s) = 0x22 :: (pointTexts s ++ [0x22]) := by
  have hquote : quote s = [0x22] ++ (s.flatMap escapePoint ++ [0x22]) := rfl
  have hmark : Surrogate.escape [0x22] = [0x22] := rfl
  rw [hquote, Surrogate.escape_append, Surrogate.escape_append, escape_flatMap_escapePoint, hmark,
    List.singleton_append]

theorem blank_newline (indent depth : Nat) : Blank (newline indent depth) := by
  intro c hc
  rcases List.mem_cons.mp hc with rfl | hc
  · decide
  · rw [List.eq_of_mem_replicate hc]
    decide

theorem escape_newline (indent depth : Nat) :
    Surrogate.escape (newline indent depth) = newline indent depth := by
  apply Surrogate.escape_eq_self
  intro c hc
  rcases blank_newline indent depth c hc with rfl | rfl | rfl | rfl <;> rfl

section Texts

variable (indent depth : Nat) (t : Tree) (items : List Tree) (name : Text) (fields : Fields)

theorem escape_render_seq :
    Surrogate.escape (render indent depth (.seq (t :: items))) =
      0x5B :: (newline indent (depth + 1) ++ Surrogate.escape (render indent (depth + 1) t) ++
        Surrogate.escape (renderItems indent (depth + 1) items) ++ newline indent depth ++
          [0x5D]) := by
  have hopen : Surrogate.escape [0x5B] = [0x5B] := rfl
  have hclose : Surrogate.escape [0x5D] = [0x5D] := rfl
  simp only [render, Surrogate.escape_append, escape_newline, hopen, hclose]
  rfl

theorem escape_renderItems :
    Surrogate.escape (renderItems indent depth (t :: items)) =
      0x2C :: (newline indent depth ++ Surrogate.escape (render indent depth t) ++
        Surrogate.escape (renderItems indent depth items)) := by
  have hcomma : Surrogate.escape [0x2C] = [0x2C] := rfl
  simp only [renderItems, Surrogate.escape_append, escape_newline, hcomma]
  rfl

theorem escape_render_keyed :
    Surrogate.escape (render indent depth (.keyed ((name, t) :: fields))) =
      0x7B :: (newline indent (depth + 1) ++ Surrogate.escape (quote name) ++ [0x3A, 0x20] ++
        Surrogate.escape (render indent (depth + 1) t) ++
          Surrogate.escape (renderFields indent (depth + 1) fields) ++ newline indent depth ++
            [0x7D]) := by
  have hopen : Surrogate.escape [0x7B] = [0x7B] := rfl
  have hclose : Surrogate.escape [0x7D] = [0x7D] := rfl
  have hcolon : Surrogate.escape [0x3A, 0x20] = [0x3A, 0x20] := rfl
  simp only [render, Surrogate.escape_append, escape_newline, hopen, hclose, hcolon]
  rfl

theorem escape_renderFields :
    Surrogate.escape (renderFields indent depth ((name, t) :: fields)) =
      0x2C :: (newline indent depth ++ Surrogate.escape (quote name) ++ [0x3A, 0x20] ++
        Surrogate.escape (render indent depth t) ++
          Surrogate.escape (renderFields indent depth fields)) := by
  have hcomma : Surrogate.escape [0x2C] = [0x2C] := rfl
  have hcolon : Surrogate.escape [0x3A, 0x20] = [0x3A, 0x20] := rfl
  simp only [renderFields, Surrogate.escape_append, escape_newline, hcomma, hcolon]
  rfl

end Texts

end FluentFixtures.Json
