import Mathlib.Data.List.Nodup
import SlotCompiler.Diagnostic.Basic

/-!
# Messages tell problems apart

Different problems have different messages (`Problem.message_injective`), so diagnostics with the
same message at the same place are the same.
-/

set_option autoImplicit false

namespace SlotCompiler

namespace Problem

/-- The problems that no name of the source is part of. -/
def unnamed : List Problem :=
  [.invalidCharacter, .expressionExpected, .declaredNameExpected, .equalsExpected, .controlFlow,
    .leftParenthesisExpected, .rightParenthesisExpected, .commaExpected, .parameterExpected,
    .leftBraceExpected, .rightBraceExpected, .notAssignable, .integerOutOfRange]

theorem mem_unnamed_or (problem : Problem) :
    problem ∈ unnamed ∨ ∃ name, problem = .unknownIdentifier name := by
  cases problem with
  | unknownIdentifier name => exact .inr ⟨name, rfl⟩
  | _ => exact .inl (by decide)

theorem head_append {first : String} {character : Char}
    (begins : first.toList.head? = some character) (second : String) :
    (first ++ second).toList.head? = some character := by
  rw [String.toList_append, List.head?_append, begins, Option.some_or]

/-- Only a message about an unknown identifier begins with this letter. -/
theorem head_message_unknownIdentifier (name : String) :
    (unknownIdentifier name).message.toList.head? = some 'U' := by
  have begins : "Unknown identifier '".toList.head? = some 'U' := by decide +kernel
  exact head_append (head_append begins name) "'"

theorem head_message_unnamed :
    ∀ problem ∈ unnamed, problem.message.toList.head? ≠ some 'U' := by
  decide +kernel

theorem nodup_message_unnamed : (unnamed.map message).Nodup := by decide +kernel

/-- **Different problems have different messages.** -/
theorem message_injective : Function.Injective message := by
  intro first second same
  rcases mem_unnamed_or first with member | ⟨name, rfl⟩
  · rcases mem_unnamed_or second with member' | ⟨name, rfl⟩
    · exact List.inj_on_of_nodup_map nodup_message_unnamed member member' same
    · exact absurd (same ▸ head_message_unknownIdentifier name) (head_message_unnamed first member)
  · rcases mem_unnamed_or second with member' | ⟨name', rfl⟩
    · exact absurd (same ▸ head_message_unknownIdentifier name)
        (head_message_unnamed second member')
    · have same : "Unknown identifier '" ++ name ++ "'" = "Unknown identifier '" ++ name' ++ "'" :=
        same
      rw [String.append_left_inj, String.append_right_inj] at same
      rw [same]

end Problem

/-- Diagnostics with the same message at the same place are the same. -/
theorem Diagnostic.message_span_injective :
    Function.Injective fun diagnostic : Diagnostic => (diagnostic.message, diagnostic.span) := by
  rintro ⟨problem, span⟩ ⟨problem', span'⟩ same
  rw [Prod.mk.injEq] at same
  obtain rfl := Problem.message_injective same.1
  obtain rfl : span = span' := same.2
  rfl

end SlotCompiler
