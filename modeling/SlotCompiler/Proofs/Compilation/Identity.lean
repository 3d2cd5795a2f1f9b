import Mathlib.Data.List.Nodup
import Mathlib.Logic.Equiv.Basic
import SlotCompiler.Proofs.Compilation.Verdict
import SlotCompiler.Proofs.Generation.Numerals
import SlotCompiler.Proofs.Generation.Relocation
import SlotCompiler.Proofs.Parsing.Derivation
import SlotCompiler.Proofs.Parsing.Lockstep
import SlotCompiler.Proofs.Parsing.Repetition
import SlotCompiler.Wire.Unit

/-!
# Sources in other words

Blanks, the lines of tokens, zeros in front of integers and the choice of names do not matter: if
two sources have tokens of the same kinds in the same order, with the same numbers and with names
that are renamed without being confused (`Source.Renames`), then both have the same unit or none
has one, and the first problem of both is at the same token (`Source.Renames.compile_eq`).

The two sources agree in no place.  So what stands at a place in one is compared with what stands at
the place of the token of the same index in the other (`Relocation.between`).  Parsers stay in step
under this relocation up to the first setback, and trees that are relocated are lowered alike.
-/

set_option autoImplicit false

namespace SlotCompiler

/-! ## Other words -/

/-- A token is another one in other words: it is of the same kind, renamed if it is a name, and for
the same number if it is an integer. -/
structure Token.Renames (rename : String → String) (first second : Token) : Prop where
  kind : second.kind = first.kind
  name : first.kind = .identifier → second.text = rename first.text
  number : first.kind = .integer → ∃ number, IntegerLiteral.Denotes first.text number ∧
    IntegerLiteral.Denotes second.text number

theorem Token.Renames.read?_eq {rename : String → String} {first second : Token}
    (renames : first.Renames rename second) (integer : first.kind = .integer) :
    IntegerLiteral.read? second.text = IntegerLiteral.read? first.text := by
  obtain ⟨number, here, there⟩ := renames.number integer
  rw [here.read?_eq, there.read?_eq]

namespace Source

/-- A source is another one in other words: token by token, and different names stay different. -/
structure Renames (rename : String → String) (first second : Source) : Prop where
  tokens : List.Forall₂ (Token.Renames rename) first.tokens second.tokens
  injective : Set.InjOn rename {name | Names first.tokens name}

end Source

/-- Two diagnostics are about the same problem, up to a renaming, at the tokens of one index. -/
def Diagnostic.Corresponds (rename : String → String) (first second : Source)
    (diagnostic diagnostic' : Diagnostic) : Prop :=
  diagnostic'.problem = diagnostic.problem.rename rename ∧
    ∃ (index : Nat) (token token' : Token), first.stream[index]? = some token ∧
      second.stream[index]? = some token' ∧ token.span = diagnostic.span ∧
      token'.span = diagnostic'.span

/-- Why a token is refused does not mention a name. -/
theorem Refusal.Of.rename_problem {token : Token} {refusal : Refusal}
    (refused : Refusal.Of token refusal) (rename : String → String) :
    refusal.problem.rename rename = refusal.problem := by
  have expectation : ∀ {problem : Problem}, problem.isExpectation = true →
      problem.rename rename = problem := by
    intro problem expected
    cases problem with
    | unknownIdentifier name => cases expected
    | _ => rfl
  have consumed : ∀ {problem : Problem}, problem.rename rename = problem →
      (consume problem token).problem.rename rename = (consume problem token).problem := by
    intro problem same
    unfold consume
    dsimp only
    split
    · rfl
    · exact same
  cases refused with
  | left expected => exact expectation expected
  | used expected => exact consumed (expectation expected)
  | controlFlow reserved => exact consumed rfl

/-! ## From token to token -/

/-- The place of a token goes to that of the token of the same index. -/
def Relocation.between (rename : String → String) (first second : Source) : Relocation where
  place span :=
    (second.stream.map Token.span).getD ((first.stream.map Token.span).idxOf span) span
  rename := rename

/-- No two tokens stand at one place. -/
theorem Source.nodup_stream (source : Source) : (source.stream.map Token.span).Nodup := by
  rw [List.Nodup, List.pairwise_map]
  have ordered : source.stream.Pairwise Token.IsBefore := Parser.ordered_ofSource source
  exact ordered.imp fun before same =>
    absurd (congrArg Span.start same) (Nat.ne_of_lt before.1)

theorem Source.getElem?_stream (source : Source) {index : Nat}
    (inside : index < source.tokens.length) :
    source.stream[index]? = some source.tokens[index] := by
  rw [stream, List.getElem?_append_left inside, List.getElem?_eq_getElem inside]

theorem Source.getElem?_stream_length (source : Source) :
    source.stream[source.tokens.length]? = some source.endToken :=
  List.getElem?_concat_length

theorem Relocation.place_between (rename : String → String) {first second : Source} {index : Nat}
    {token token' : Token} (here : first.stream[index]? = some token)
    (there : second.stream[index]? = some token') :
    (between rename first second).place token.span = token'.span := by
  have found : (first.stream.map Token.span).idxOf token.span = index := by
    obtain ⟨inside, rfl⟩ := List.getElem?_eq_some_iff.mp here
    have inside' : index < (first.stream.map Token.span).length := by rwa [List.length_map]
    rw [← List.getElem_map (h := inside')]
    exact first.nodup_stream.idxOf_getElem index inside'
  simp only [between, found, List.getD_eq_getElem?_getD, List.getElem?_map, there, Option.map_some,
    Option.getD_some]

namespace Source.Renames

variable {rename : String → String} {first second : Source}

theorem stream (same : first.Renames rename second) :
    List.Forall₂ (Token.Renames rename) first.stream second.stream := by
  have final : first.endToken.Renames rename second.endToken := by
    refine ⟨by rw [first.kind_endToken, second.kind_endToken], ?_, ?_⟩ <;>
      rw [first.kind_endToken] <;> exact nofun
  exact List.rel_append same.tokens (.cons final .nil)

/-- Tokens of one index go to each other. -/
theorem moves_of_getElem? (same : first.Renames rename second) (index : Nat) {token token' : Token}
    (here : first.stream[index]? = some token) (there : second.stream[index]? = some token') :
    token.Moves (.between rename first second) token' := by
  have place := Relocation.place_between rename here there
  obtain ⟨inside, rfl⟩ := List.getElem?_eq_some_iff.mp here
  obtain ⟨inside', rfl⟩ := List.getElem?_eq_some_iff.mp there
  have renames := same.stream.get inside inside'
  exact ⟨renames.kind, place.symm, renames.name⟩

/-- Every token goes to one in other words. -/
theorem exists_of_mem (same : first.Renames rename second) {token : Token}
    (member : token ∈ first.tokens) : ∃ token' ∈ second.tokens,
      token.Renames rename token' ∧ token.Moves (.between rename first second) token' := by
  obtain ⟨index, inside, rfl⟩ := List.mem_iff_getElem.mp member
  have inside' : index < second.tokens.length := by rwa [← same.tokens.length_eq]
  exact ⟨second.tokens[index], List.getElem_mem inside', same.tokens.get inside inside',
    same.moves_of_getElem? index (first.getElem?_stream inside) (second.getElem?_stream inside')⟩

/-- **Parsers in front of the two sources are in step.** -/
theorem moves (same : first.Renames rename second) :
    (Parser.ofSource first).Moves (.between rename first second) (Parser.ofSource second) where
  rest := List.forall₂_iff_get.mpr ⟨same.tokens.length_eq, fun index inside inside' =>
    same.moves_of_getElem? index (first.getElem?_stream inside) (second.getElem?_stream inside')⟩
  final := by
    have there := second.getElem?_stream_length
    rw [← same.tokens.length_eq] at there
    exact same.moves_of_getElem? _ first.getElem?_stream_length there

/-- What stands at the tokens of one source stands at those of the other. -/
theorem carries (same : first.Renames rename second) :
    (Relocation.between rename first second).Carries first.tokens first second where
  name token member identifier := by
    obtain ⟨token', member', renames, moves⟩ := same.exists_of_mem member
    rw [← moves.span, second.extract_span member']
    exact ⟨first.extract_span member, renames.name identifier⟩
  integer token member digits := by
    obtain ⟨token', member', renames, moves⟩ := same.exists_of_mem member
    rw [← moves.span, second.extract_span member', first.extract_span member]
    exact renames.read?_eq digits
  injective := same.injective

/-! ## Verdicts -/

/-- A diagnostic about a token corresponds to the one that is carried over. -/
theorem corresponds_carry (same : first.Renames rename second) {diagnostic : Diagnostic}
    (located : Marks first.stream diagnostic.span) :
    diagnostic.Corresponds rename first second
      (diagnostic.carry (.between rename first second)) := by
  obtain ⟨token, member, at_⟩ := located
  obtain ⟨index, inside, rfl⟩ := List.mem_iff_getElem.mp member
  have here := List.getElem?_eq_getElem inside
  have inside' : index < second.stream.length := by rwa [← same.stream.length_eq]
  have there := List.getElem?_eq_getElem inside'
  refine ⟨rfl, index, _, _, here, there, at_, ?_⟩
  rw [← Relocation.place_between rename here there, at_]
  rfl

/-- **Both sources have the same verdict**: a unit, or corresponding diagnostics. -/
theorem verdict_cases (same : first.Renames rename second) :
    (∃ unit, first.verdict = .ok unit ∧ second.verdict = .ok unit) ∨
      ∃ diagnostic diagnostic', first.verdict = .error diagnostic ∧
        second.verdict = .error diagnostic' ∧
        diagnostic.Corresponds rename first second diagnostic' := by
  rcases same.moves.run with
    ⟨smooth, smooth', found⟩ | ⟨setback, setback', head, head', token, refusal⟩
  · have derived : Grammar.Unit first.tokens ⟨[], (Parser.ofSource first).found⟩ :=
      Parser.derives_found smooth
    rw [verdict_of_smooth smooth, verdict_of_smooth smooth', found]
    rcases FunctionSource.carried_lower same.carries (derived.origin (List.Subset.refl _)) with
      accepted | ⟨diagnostic, ⟨token, member, at_⟩, here, there⟩
    · exact .inl accepted
    · exact .inr ⟨diagnostic, _, here, there,
        same.corresponds_carry ⟨token, List.mem_append_left _ member, at_⟩⟩
  · have member := List.mem_of_head? head
    have located := Parser.token_mem_remaining _ setback member
    have carried : setback'.diagnostic =
        setback.diagnostic.carry (.between rename first second) := by
      have refused := Parser.refusal_of_mem_setbacks _ setback member
      simp only [Setback.diagnostic, Mishap.diagnostic, Diagnostic.carry, refusal, token.span,
        refused.rename_problem]
    refine .inr ⟨_, _, verdict_of_setback head, verdict_of_setback head', ?_⟩
    rw [carried]
    exact same.corresponds_carry ⟨_, located, rfl⟩

/-- **Compilation sees only the words.** Whoever listens, two sources that differ in blanks, in the
lines of tokens, in zeros in front of integers and in the choice of names have units of the same
bytes, or none has a unit.  In the latter case, a listener that gives up at once is told one thing
about each source: the same problem, up to the renaming, at the token of the same index. -/
theorem compile_eq (same : first.Renames rename second) {σ τ : Type} [Listener σ] [Listener τ]
    (listener : σ) (other : τ) :
    (first.compile listener).1.map CodeUnit.encode =
        (second.compile other).1.map CodeUnit.encode ∧
      ((∃ unit, (first.compile listener).1 = .ok unit ∧ (second.compile other).1 = .ok unit ∧
          first.heard = [] ∧ second.heard = []) ∨
        ((first.compile listener).1 = .error .problemsFound ∧
          (second.compile other).1 = .error .problemsFound ∧
          ∃ diagnostic diagnostic', first.heard = [diagnostic] ∧ second.heard = [diagnostic'] ∧
            diagnostic.Corresponds rename first second diagnostic')) := by
  rw [first.compile_eq_verdict, second.compile_eq_verdict]
  rcases same.verdict_cases with
    ⟨unit, here, there⟩ | ⟨diagnostic, diagnostic', here, there, corresponds⟩
  · rw [here, there]
    exact ⟨rfl, .inl ⟨unit, rfl, rfl, heard_of_unit here, heard_of_unit there⟩⟩
  · rw [here, there]
    exact ⟨rfl, .inr ⟨rfl, rfl, _, _, heard_of_diagnostic here, heard_of_diagnostic there,
      corresponds⟩⟩

end Source.Renames

namespace Source

/-- A source with two names and a number. -/
def plainWords : Source := .ofString "var a = 7 var b = a"

/-- The names of `plainWords` exchanged, other blanks, and zeros in front of the number. -/
def otherWords : Source := .ofString "var b=\n  007\nvar a = b"

theorem renames_otherWords : plainWords.Renames (Equiv.swap "a" "b") otherWords where
  tokens := by
    have read : List.Forall₂ (fun first second : Token => second.kind = first.kind ∧
        (first.kind = .identifier → second.text = Equiv.swap "a" "b" first.text) ∧
        (first.kind = .integer → IntegerLiteral.read? first.text = some 7 ∧
          IntegerLiteral.read? second.text = some 7)) plainWords.tokens otherWords.tokens := by
      decide +kernel
    refine read.imp fun first second ⟨kind, name, number⟩ => ⟨kind, name, fun integer => ⟨7, ?_⟩⟩
    obtain ⟨here, there⟩ := number integer
    exact ⟨IntegerLiteral.read?_eq_some_iff.mp here, IntegerLiteral.read?_eq_some_iff.mp there⟩
  injective := (Equiv.swap "a" "b").injective.injOn

/-- `otherWords` is accepted because `plainWords` is, and has the same bytes. -/
theorem compile_otherWords :
    plainWords.Renames (Equiv.swap "a" "b") otherWords ∧ otherWords.heard = [] ∧
      (plainWords.compile (Transcript.always .stop)).1.map CodeUnit.encode =
        (otherWords.compile (Transcript.always .resume)).1.map CodeUnit.encode := by
  have accepted : plainWords.heard = [] := by decide +kernel
  obtain ⟨bytes, outcomes⟩ := Renames.compile_eq renames_otherWords (Transcript.always .stop)
    (Transcript.always .resume)
  refine ⟨renames_otherWords, ?_, bytes⟩
  rcases outcomes with ⟨_, -, -, -, silent⟩ | ⟨-, -, _, _, told, -⟩
  · exact silent
  · cases accepted.symm.trans told

end Source

end SlotCompiler
