import SlotCompiler.Proofs.Parsing.Grammar

/-!
# Where the parts of a tree come from

Every name, integer and mark of a derived tree is the span of one of the tokens that it is derived
from, and every name that is kept as a text is the text of one of them (`Grammar.Unit.origin`).
-/

set_option autoImplicit false

namespace SlotCompiler

/-! ## Trees over tokens -/

/-- A span is the place of one of some tokens. -/
def Marks (tokens : List Token) (span : Span) : Prop := ∃ token ∈ tokens, token.span = span

/-- A span is the place of one of some tokens that has a kind. -/
def MarksKind (tokens : List Token) (kind : Token.Kind) (span : Span) : Prop :=
  ∃ token ∈ tokens, token.kind = kind ∧ token.span = span

/-- A text is a name among some tokens. -/
def Names (tokens : List Token) (name : String) : Prop :=
  ∃ token ∈ tokens, token.kind = .identifier ∧ token.text = name

theorem MarksKind.marks {tokens : List Token} {kind : Token.Kind} {span : Span}
    (marks : MarksKind tokens kind span) : Marks tokens span := by
  obtain ⟨token, member, -, same⟩ := marks
  exact ⟨token, member, same⟩

mutual

/-- All parts of an expression are from among some tokens. -/
def Expression.From (tokens : List Token) : Expression → Prop
  | .name span => MarksKind tokens .identifier span
  | .integer span => MarksKind tokens .integer span
  | .null span => Marks tokens span
  | .call callee arguments => callee.From tokens ∧ ArgumentsFrom tokens arguments
  | .unary _ operand mark => operand.From tokens ∧ Marks tokens mark
  | .binary _ left right mark => left.From tokens ∧ right.From tokens ∧ Marks tokens mark
  | .function parameters body mark =>
    (∀ name ∈ parameters, Names tokens name) ∧ BodyFrom tokens body ∧ Marks tokens mark

/-- All parts of some arguments are from among some tokens. -/
def ArgumentsFrom (tokens : List Token) : List Expression → Prop
  | [] => True
  | argument :: arguments => argument.From tokens ∧ ArgumentsFrom tokens arguments

/-- All parts of a statement are from among some tokens. -/
def Statement.From (tokens : List Token) : Statement → Prop
  | .declare name initializer => Names tokens name ∧ initializer.From tokens
  | .return value => value.From tokens
  | .assign target value => target.From tokens ∧ value.From tokens
  | .evaluate value => value.From tokens

/-- All parts of a body are from among some tokens. -/
def BodyFrom (tokens : List Token) : List Statement → Prop
  | [] => True
  | statement :: body => statement.From tokens ∧ BodyFrom tokens body

end

/-- All parts of a function are from among some tokens. -/
def FunctionSource.From (tokens : List Token) (function : FunctionSource) : Prop :=
  (∀ name ∈ function.parameters, Names tokens name) ∧ BodyFrom tokens function.body

variable {tokens : List Token}

theorem argumentsFrom_append {earlier later : List Expression} :
    ArgumentsFrom tokens (earlier ++ later) ↔
      ArgumentsFrom tokens earlier ∧ ArgumentsFrom tokens later := by
  induction earlier with
  | nil => rw [List.nil_append, ArgumentsFrom, true_and]
  | cons argument earlier ih =>
      rw [List.cons_append, ArgumentsFrom, ArgumentsFrom, ih, and_assoc]

theorem bodyFrom_append {earlier later : List Statement} :
    BodyFrom tokens (earlier ++ later) ↔ BodyFrom tokens earlier ∧ BodyFrom tokens later := by
  induction earlier with
  | nil => rw [List.nil_append, BodyFrom, true_and]
  | cons statement earlier ih => rw [List.cons_append, BodyFrom, BodyFrom, ih, and_assoc]

/-- Messages about an expression point at one of its tokens. -/
theorem Expression.From.location : ∀ {expression : Expression}, expression.From tokens →
    Marks tokens expression.location
  | .name _, origin => MarksKind.marks origin
  | .integer _, origin => MarksKind.marks origin
  | .null _, origin => origin
  | .call _ _, origin => by
      rw [Expression.location]
      exact Expression.From.location origin.1
  | .unary _ _ _, origin => origin.2
  | .binary _ _ _ _, origin => origin.2.2
  | .function _ _ _, origin => origin.2.2

/-! ## Derived trees -/

namespace Grammar

variable {used : List Token}

theorem ParameterList.origin {names : List String} (list : ParameterList used names)
    (within : used ⊆ tokens) : ∀ name ∈ names, Names tokens name := by
  induction list with
  | first identifier =>
      rw [List.forall_mem_singleton]
      exact ⟨_, within List.mem_cons_self, identifier, rfl⟩
  | @next earlier names comma name _ _ identifier ih =>
      rw [List.forall_mem_append, List.forall_mem_singleton]
      refine ⟨ih fun token member => within (List.mem_append_left _ member), name, within ?_,
        identifier, rfl⟩
      exact List.mem_append_right _ (List.mem_cons_of_mem _ List.mem_cons_self)

theorem Parameters.origin {names : List String} (list : Parameters used names)
    (within : used ⊆ tokens) : ∀ name ∈ names, Names tokens name := by
  cases list with
  | none => exact List.forall_mem_nil _
  | some list => exact list.origin within

mutual

/-- A derived sum comes from its tokens. -/
theorem Sum.origin : ∀ {used : List Token} {value : Expression}, Sum used value →
    used ⊆ tokens → value.From tokens
  | _, _, .product only, within => only.origin within
  | _, _, .join earlier _ last, within => by
      rw [List.append_subset, List.cons_subset] at within
      exact ⟨earlier.origin within.1, last.origin within.2.2, _, within.2.1, rfl⟩

theorem Product.origin : ∀ {used : List Token} {value : Expression}, Product used value →
    used ⊆ tokens → value.From tokens
  | _, _, .unary only, within => only.origin within
  | _, _, .join earlier _ last, within => by
      rw [List.append_subset, List.cons_subset] at within
      exact ⟨earlier.origin within.1, last.origin within.2.2, _, within.2.1, rfl⟩

theorem Unary.origin : ∀ {used : List Token} {value : Expression}, Unary used value →
    used ⊆ tokens → value.From tokens
  | _, _, .primary bare, within => bare.origin within
  | _, _, .sign _ operand, within => by
      rw [List.cons_subset] at within
      exact ⟨operand.origin within.2, _, within.1, rfl⟩

theorem Primary.origin : ∀ {used : List Token} {value : Expression}, Primary used value →
    used ⊆ tokens → value.From tokens
  | _, _, .name identifier, within => ⟨_, within List.mem_cons_self, identifier, rfl⟩
  | _, _, .integer digits, within => ⟨_, within List.mem_cons_self, digits, rfl⟩
  | _, _, .null _, within => ⟨_, within List.mem_cons_self, rfl⟩
  | _, _, .parentheses _ inner _, within => by
      rw [List.cons_subset, List.append_subset] at within
      exact inner.origin within.2.1
  | _, _, .call _ called _ list _, within => by
      rw [List.cons_subset, List.append_subset, List.cons_subset, List.append_subset] at within
      exact ⟨called.origin within.2.1, list.origin within.2.2.2.1⟩
  | _, _, .function _ _ list _ _ inner _, within => by
      simp only [List.cons_subset, List.append_subset] at within
      obtain ⟨word, -, names, -, -, body, -⟩ := within
      exact ⟨list.origin names, inner.origin body, _, word, rfl⟩

theorem Arguments.origin : ∀ {used : List Token} {values : List Expression},
    Arguments used values → used ⊆ tokens → ArgumentsFrom tokens values
  | _, _, .none, _ => trivial
  | _, _, .some list, within => list.origin within

theorem ArgumentList.origin : ∀ {used : List Token} {values : List Expression},
    ArgumentList used values → used ⊆ tokens → ArgumentsFrom tokens values
  | _, _, .first only, within => ⟨only.origin within, trivial⟩
  | _, _, .next earlier _ argument, within => by
      rw [List.append_subset, List.cons_subset] at within
      exact argumentsFrom_append.mpr
        ⟨earlier.origin within.1, argument.origin within.2.2, trivial⟩

theorem Sentence.origin : ∀ {used : List Token} {statement : Statement},
    Sentence used statement → used ⊆ tokens → statement.From tokens
  | _, _, .declare _ identifier _ initializer, within => by
      rw [List.cons_subset, List.cons_subset, List.cons_subset] at within
      exact ⟨⟨_, within.2.1, identifier, rfl⟩, initializer.origin within.2.2.2⟩
  | _, _, .return _ result, within => result.origin (List.cons_subset.mp within).2
  | _, _, .assign assigned _ result, within => by
      rw [List.append_subset, List.cons_subset] at within
      exact ⟨assigned.origin within.1, result.origin within.2.2⟩
  | _, _, .evaluate only, within => only.origin within

/-- All parts of a derived body come from its tokens. -/
theorem Body.origin : ∀ {used : List Token} {body : List Statement}, Body used body →
    used ⊆ tokens → BodyFrom tokens body
  | _, _, .none, _ => trivial
  | _, _, .next earlier final, within => by
      rw [List.append_subset] at within
      exact bodyFrom_append.mpr ⟨earlier.origin within.1, final.origin within.2, trivial⟩

end

/-- **All parts of a derived tree come from its tokens.** -/
theorem Unit.origin {tree : FunctionSource} (derived : Unit used tree) (within : used ⊆ tokens) :
    tree.From tokens := by
  cases derived with
  | body inner => exact ⟨List.forall_mem_nil _, inner.origin within⟩

end Grammar

end SlotCompiler
