import SlotCompiler.Proofs.Compilation.Verdict
import SlotCompiler.Proofs.Text.Encoding

/-!
# Extents

The extent of a piece of a tree is the number of tokens that it takes at the least: commas and the
parentheses of groups leave nothing in a tree, so they are not counted.  No derivation has fewer
tokens than its tree has extent (`Grammar.Body.extent_le`).  Everything that grows with a tree can
therefore be measured by its extent, and is bounded by the length of its source
(`Source.extent_le_tokens`) and of the bytes that the source is read from
(`Source.extent_le_bytes`).
-/

set_option autoImplicit false

namespace SlotCompiler

/-! ## Extents of trees -/

mutual

/-- How many tokens an expression takes at the least. -/
def Expression.extent : Expression → Nat
  | .name _ => 1
  | .integer _ => 1
  | .null _ => 1
  | .call callee arguments => 3 + callee.extent + argumentExtent arguments
  | .unary _ operand _ => 1 + operand.extent
  | .binary _ left right _ => left.extent + 1 + right.extent
  | .function parameters body _ => 5 + parameters.length + bodyExtent body

/-- How many tokens some arguments take at the least. -/
def argumentExtent : List Expression → Nat
  | [] => 0
  | argument :: arguments => argument.extent + argumentExtent arguments

/-- How many tokens a statement takes at the least. -/
def Statement.extent : Statement → Nat
  | .declare _ initializer => 3 + initializer.extent
  | .return value => 1 + value.extent
  | .assign target value => target.extent + 1 + value.extent
  | .evaluate value => value.extent

/-- How many tokens some statements take at the least. -/
def bodyExtent : List Statement → Nat
  | [] => 0
  | statement :: body => statement.extent + bodyExtent body

end

theorem argumentExtent_append (earlier later : List Expression) :
    argumentExtent (earlier ++ later) = argumentExtent earlier + argumentExtent later := by
  induction earlier with
  | nil => rw [List.nil_append, argumentExtent, Nat.zero_add]
  | cons argument earlier ih =>
      rw [List.cons_append, argumentExtent, argumentExtent, ih, Nat.add_assoc]

theorem bodyExtent_append (earlier later : List Statement) :
    bodyExtent (earlier ++ later) = bodyExtent earlier + bodyExtent later := by
  induction earlier with
  | nil => rw [List.nil_append, bodyExtent, Nat.zero_add]
  | cons statement earlier ih =>
      rw [List.cons_append, bodyExtent, bodyExtent, ih, Nat.add_assoc]

/-! ## Extents of derived trees -/

namespace Grammar

theorem ParameterList.length_le {used : List Token} {names : List String}
    (list : ParameterList used names) : names.length ≤ used.length := by
  induction list with
  | first => exact Nat.le_refl 1
  | next _ _ _ ih =>
      rw [List.length_append, List.length_append]
      exact Nat.add_le_add ih (Nat.le_succ 1)

theorem Parameters.length_le {used : List Token} {names : List String}
    (list : Parameters used names) : names.length ≤ used.length := by
  cases list with
  | none => exact Nat.le_refl 0
  | some list => exact list.length_le

mutual

/-- A sum is derived from as many tokens as its extent, or more. -/
theorem Sum.extent_le : ∀ {used : List Token} {value : Expression}, Sum used value →
    value.extent ≤ used.length
  | _, _, .product only => only.extent_le
  | _, _, .join earlier _ last => by
      have left := earlier.extent_le
      have right := last.extent_le
      rw [Expression.extent, List.length_append, List.length_cons]
      omega

theorem Product.extent_le : ∀ {used : List Token} {value : Expression}, Product used value →
    value.extent ≤ used.length
  | _, _, .unary only => only.extent_le
  | _, _, .join earlier _ last => by
      have left := earlier.extent_le
      have right := last.extent_le
      rw [Expression.extent, List.length_append, List.length_cons]
      omega

theorem Unary.extent_le : ∀ {used : List Token} {value : Expression}, Unary used value →
    value.extent ≤ used.length
  | _, _, .primary bare => bare.extent_le
  | _, _, .sign _ operand => by
      have inner := operand.extent_le
      rw [Expression.extent, List.length_cons]
      omega

theorem Primary.extent_le : ∀ {used : List Token} {value : Expression}, Primary used value →
    value.extent ≤ used.length
  | _, _, .name _ => Nat.le_refl 1
  | _, _, .integer _ => Nat.le_refl 1
  | _, _, .null _ => Nat.le_refl 1
  | _, _, .parentheses _ inner _ => by
      have inside := inner.extent_le
      rw [List.length_cons, List.length_append]
      omega
  | _, _, .call _ called _ list _ => by
      have callee := called.extent_le
      have arguments := list.extent_le
      rw [Expression.extent]
      simp only [List.length_cons, List.length_append]
      omega
  | _, _, .function _ _ list _ _ inner _ => by
      have parameters := list.length_le
      have body := inner.extent_le
      rw [Expression.extent]
      simp only [List.length_cons, List.length_append]
      omega

theorem Arguments.extent_le : ∀ {used : List Token} {values : List Expression},
    Arguments used values → argumentExtent values ≤ used.length
  | _, _, .none => Nat.le_refl 0
  | _, _, .some list => list.extent_le

theorem ArgumentList.extent_le : ∀ {used : List Token} {values : List Expression},
    ArgumentList used values → argumentExtent values ≤ used.length
  | _, _, .first only => only.extent_le
  | _, _, .next earlier _ argument => by
      have before := earlier.extent_le
      have last := argument.extent_le
      rw [argumentExtent_append, List.length_append, List.length_cons, argumentExtent,
        argumentExtent]
      omega

theorem Sentence.extent_le : ∀ {used : List Token} {statement : Statement},
    Sentence used statement → statement.extent ≤ used.length
  | _, _, .declare _ _ _ initializer => by
      have value := initializer.extent_le
      rw [Statement.extent]
      simp only [List.length_cons]
      omega
  | _, _, .return _ result => by
      have value := result.extent_le
      rw [Statement.extent, List.length_cons]
      omega
  | _, _, .assign assigned _ result => by
      have target := assigned.extent_le
      have value := result.extent_le
      rw [Statement.extent, List.length_append, List.length_cons]
      omega
  | _, _, .evaluate only => only.extent_le

/-- **A body is derived from as many tokens as its extent**, or more. -/
theorem Body.extent_le : ∀ {used : List Token} {body : List Statement}, Body used body →
    bodyExtent body ≤ used.length
  | _, _, .none => Nat.le_refl 0
  | _, _, .next earlier final => by
      have before := earlier.extent_le
      have last := final.extent_le
      rw [bodyExtent_append, List.length_append, bodyExtent, bodyExtent]
      omega

end

end Grammar

/-! ## Extents of sources -/

namespace Source

variable {source : Source}

/-- **What is found in a source without setbacks** is at most as large as the source has tokens. -/
theorem extent_le_tokens (smooth : (Parser.ofSource source).setbacks = []) :
    bodyExtent (Parser.ofSource source).found ≤ source.tokens.length := by
  cases Parser.derives_found smooth with
  | body derived => exact derived.extent_le

/-- What is found in a file is at most as large as the file. -/
theorem extent_le_bytes {bytes : List UInt8}
    (smooth : (Parser.ofSource (.ofBytes bytes)).setbacks = []) :
    bodyExtent (Parser.ofSource (.ofBytes bytes)).found ≤ bytes.length := by
  calc bodyExtent (Parser.ofSource (.ofBytes bytes)).found
      ≤ (ofBytes bytes).tokens.length := extent_le_tokens smooth
    _ ≤ (ofBytes bytes).text.length := (ofBytes bytes).length_tokens_le
    _ ≤ bytes.length := Utf8.length_decode_le bytes

end Source

end SlotCompiler
