import SlotCompiler.Proofs.Parsing.Closing
import SlotCompiler.Proofs.Scanning.Places

/-!
# The first error stands at the first wrong token

Reading follows the kinds of the tokens and nothing else.  Tokens of the same kinds lead to
positions of the same shape (`Position.Leads.alike`), and such positions refuse the same kinds.  So
whatever stands behind it, a token that is refused first is refused first in every source whose
tokens have the same kinds up to it.  The tokens in front of it, on the other hand, lead to a
position that can be completed.  So the location of the first error is the first token that cannot
go on with the program (`Parser.valid_prefix`).
-/

set_option autoImplicit false

namespace SlotCompiler

/-! ## Positions of one shape -/

/-- Everything about tokens is forgotten but their kinds. -/
def Relocation.forget : Relocation where
  place _ := ⟨0, 0⟩
  rename _ := ""

theorem Token.moves_forget {token other : Token} (same : other.kind = token.kind) :
    token.Moves .forget (other.relocate .forget) := ⟨same, rfl, fun _ => rfl⟩

namespace Position

variable {goal : Goal}

/-- Two positions are the same but for spans and names. -/
def Alike (position other : Position goal) : Prop :=
  position.relocate .forget = other.relocate .forget

variable {position other next last : Position goal} {token token' : Token}

theorem Alike.refl (position : Position goal) : position.Alike position := rfl

/-- Positions of one shape accept tokens of one kind alike. -/
theorem Alike.accept? (alike : position.Alike other) (same : token'.kind = token.kind) :
    (position.accept? token).map (relocate .forget) =
      (other.accept? token').map (relocate .forget) := by
  rw [← position.accept?_relocate (Token.moves_forget same),
    ← other.accept?_relocate (Token.moves_forget rfl), alike]

theorem Alike.accept?_eq_none (alike : position.Alike other) (same : token'.kind = token.kind)
    (rejected : position.accept? token = none) : other.accept? token' = none := by
  have both := alike.accept? same
  rw [rejected] at both
  exact Option.map_eq_none_iff.mp both.symm

theorem Alike.accept?_eq_some (alike : position.Alike other) (same : token'.kind = token.kind)
    (accepted : position.accept? token = some next) :
    ∃ next', other.accept? token' = some next' ∧ next.Alike next' := by
  have both := alike.accept? same
  rw [accepted] at both
  obtain ⟨next', accepted', shape⟩ := Option.map_eq_some_iff.mp both.symm
  exact ⟨next', accepted', shape.symm⟩

/-- Positions of one shape halt alike at tokens of one kind. -/
theorem Alike.halt (alike : position.Alike other) (same : token'.kind = token.kind) :
    (position.halt token).map (goal.relocate .forget) =
      (other.halt token').map (goal.relocate .forget) := by
  rw [← position.halt_relocate (Token.moves_forget same),
    ← other.halt_relocate (Token.moves_forget rfl), alike]

theorem Alike.halt_eq_error (alike : position.Alike other) (same : token'.kind = token.kind)
    {refusal : Refusal} (halted : position.halt token = .error refusal) :
    other.halt token' = .error refusal := by
  have both := alike.halt same
  rw [halted] at both
  cases halted' : other.halt token' with
  | ok result =>
      rw [halted'] at both
      cases both
  | error refusal' =>
      rw [halted'] at both
      cases both
      rfl

theorem Alike.halt_eq_ok (alike : position.Alike other) (same : token'.kind = token.kind)
    {result : goal.Result} (halted : position.halt token = .ok result) :
    ∃ result', other.halt token' = .ok result' := by
  have both := alike.halt same
  rw [halted] at both
  cases halted' : other.halt token' with
  | ok result' => exact ⟨result', rfl⟩
  | error refusal =>
      rw [halted'] at both
      cases both

/-- **Tokens of the same kinds lead to positions of one shape.** -/
theorem Leads.alike {used used' : List Token} (leads : position.Leads used last)
    (alike : position.Alike other) (same : used'.map Token.kind = used.map Token.kind) :
    ∃ last', other.Leads used' last' ∧ last.Alike last' := by
  induction leads generalizing other used' with
  | here position =>
      rw [List.map_eq_nil_iff.mp same]
      exact ⟨other, .here other, alike⟩
  | step fits further ih =>
      obtain ⟨token', more', rfl, kind, kinds⟩ := List.map_eq_cons_iff.mp same
      obtain ⟨next', fits', shape⟩ := alike.accept?_eq_some kind fits
      obtain ⟨last', further', shape'⟩ := ih shape kinds
      exact ⟨last', .step fits' further', shape'⟩

/-! ## Where reading stops -/

variable {final : Token} {trail : Trail} {tokens used more : List Token} {stop : Token}

/-- Reading follows some tokens up to one that does not fit. -/
theorem exists_stop (ends : ∀ position : Position goal, position.accept? final = none)
    (position : Position goal) (tokens : List Token) :
    ∃ used stop more last, tokens ++ [final] = used ++ stop :: more ∧
      position.Leads used last ∧ last.accept? stop = none := by
  induction tokens generalizing position with
  | nil => exact ⟨[], final, [], position, rfl, .here _, ends position⟩
  | cons token tokens ih =>
      cases accepted : position.accept? token with
      | some next =>
          obtain ⟨used, stop, more, last, whole, leads, rejected⟩ := ih next
          exact ⟨token :: used, stop, more, last, congrArg (token :: ·) whole,
            .step accepted leads, rejected⟩
      | none => exact ⟨[], token, tokens ++ [final], position, rfl, .here _, accepted⟩

/-- How reading ends at the first token that does not fit. -/
theorem read_of_stop (whole : tokens ++ [final] = used ++ stop :: more)
    (leads : position.Leads used last) (rejected : last.accept? stop = none) (trail : Trail) :
    (∀ result, last.halt stop = .ok result →
      (position.read final trail tokens).outcome = .ok result ∧
        (position.read final trail tokens).rest ++ [final] = stop :: more) ∧
    (∀ refusal, last.halt stop = .error refusal →
      (position.read final trail tokens).outcome = .error ⟨stop, refusal, last.openBodies⟩) := by
  obtain ⟨rest, rfl, behind⟩ := exists_rest_of_concat whole
  obtain ⟨later, same⟩ := leads.read final trail rest
  obtain ⟨kept, used', reading⟩ : ∃ kept used', last.read final later rest =
      last.stopAt stop kept used' later ∧ kept ++ [final] = stop :: more := by
    cases rest with
    | nil =>
        obtain ⟨rfl, rfl⟩ := List.cons.inj behind
        exact ⟨[], [], rfl, rfl⟩
    | cons token rest =>
        obtain ⟨rfl, further⟩ := List.cons.inj behind
        exact ⟨token :: rest, rest, read_of_reject rejected, behind⟩
  rw [same, reading.1, stopAt]
  constructor
  · intro result halted
    rw [halted]
    exact ⟨rfl, reading.2⟩
  · intro refusal halted
    rw [halted]
    dsimp only
    split <;> rfl

end Position

/-! ## One statement -/

namespace Parser

variable {parser : Parser} {used more : List Token} {stop : Token} {last : Position .statement}

/-- The last token of all fits nowhere. -/
theorem accept?_final (parser : Parser) {goal : Goal} (position : Position goal) :
    position.accept? parser.final = none :=
  position.accept?_of_improper (by rw [parser.final_kind]; rfl)

/-- A parser follows some tokens up to one that does not fit. -/
structure FollowsTo (parser : Parser) (used : List Token) (stop : Token) (more : List Token)
    (last : Position .statement) : Prop where
  remaining : parser.remaining = used ++ stop :: more
  leads : (Position.statement .goal).Leads used last
  rejected : last.accept? stop = none

theorem exists_followsTo (parser : Parser) :
    ∃ used stop more last, parser.FollowsTo used stop more last := by
  obtain ⟨used, stop, more, last, whole, leads, rejected⟩ :=
    Position.exists_stop parser.accept?_final (.statement .goal) parser.rest
  exact ⟨used, stop, more, last, whole, leads, rejected⟩

theorem FollowsTo.statement_of_ok (follows : parser.FollowsTo used stop more last)
    {statement : Statement} (halted : last.halt stop = .ok statement) :
    parser.statement.1 = .ok statement ∧ parser.statement.2.remaining = stop :: more :=
  (Position.read_of_stop follows.remaining follows.leads follows.rejected parser.trail).1 _ halted

theorem FollowsTo.statement_of_error (follows : parser.FollowsTo used stop more last)
    {refusal : Refusal} (halted : last.halt stop = .error refusal) :
    parser.statement.1 = .error ⟨stop, refusal, last.openBodies⟩ :=
  (Position.read_of_stop follows.remaining follows.leads follows.rejected parser.trail).2 _ halted

/-- Nothing is complete in front of a statement. -/
theorem FollowsTo.ne_nil (follows : parser.FollowsTo used stop more last) {statement : Statement}
    (halted : last.halt stop = .ok statement) : used ≠ [] := by
  rintro rfl
  cases follows.leads with
  | here => cases halted

/-- **Parsers in front of tokens of the same kinds** follow them to tokens of one kind. -/
theorem FollowsTo.alike (follows : parser.FollowsTo used stop more last) {other : Parser}
    {kinds : List Token.Kind} (same : used.map Token.kind ++ stop.kind :: kinds <+:
      other.remaining.map Token.kind) :
    ∃ used' stop' more' last', other.FollowsTo used' stop' more' last' ∧
      used'.map Token.kind = used.map Token.kind ∧ stop'.kind = stop.kind ∧ last.Alike last' ∧
      kinds <+: more'.map Token.kind := by
  obtain ⟨rest, whole⟩ := same
  rw [List.append_assoc] at whole
  obtain ⟨used', behind, split_, usedKinds, behindKinds⟩ := List.map_eq_append_iff.mp whole.symm
  obtain ⟨stop', more', rfl, kind, moreKinds⟩ := List.map_eq_cons_iff.mp behindKinds
  obtain ⟨last', leads, shape⟩ := follows.leads.alike (.refl _) usedKinds
  exact ⟨used', stop', more', last', ⟨split_, leads, shape.accept?_eq_none kind follows.rejected⟩,
    usedKinds, kind, shape, rest, moreKinds.symm⟩

/-- There is something to read in front of a token that does not fit, unless it is the last one of
all. -/
theorem FollowsTo.rest_ne_nil (follows : parser.FollowsTo used stop more last)
    (begun : used ≠ [] ∨ stop.kind ≠ .endOfFile) : parser.rest ≠ [] := by
  intro none
  have whole := follows.remaining
  rw [Parser.remaining, none, List.nil_append, List.singleton_eq_append_iff] at whole
  rcases whole with ⟨rfl, same⟩ | ⟨-, same⟩
  · obtain ⟨rfl, -⟩ := List.cons.inj same
    exact begun.elim (· rfl) (· parser.final_kind)
  · cases same

/-- Behind a statement that is read, the run goes on in front of the token that did not fit. -/
theorem FollowsTo.setbacks_of_ok (follows : parser.FollowsTo used stop more last)
    {statement : Statement} (halted : last.halt stop = .ok statement) :
    parser.setbacks = parser.statement.2.setbacks ∧
      parser.statement.2.remaining = stop :: more :=
  have read := follows.statement_of_ok halted
  ⟨Parser.setbacks_of_ok (follows.rest_ne_nil (.inl (follows.ne_nil halted))) read.1, read.2⟩

/-! ## Tokens that can be completed -/

/-- Tokens of some kinds complete some tokens to those of a program.  Where there are none there is
nothing to complete. -/
def Completable (tokens : List Token) : Prop :=
  ∃ kinds : List Token.Kind, (∀ kind ∈ kinds, kind.isProper = true) ∧ (tokens = [] → kinds = []) ∧
    ∀ more : List Token, more.map Token.kind = kinds →
      ∀ parser : Parser, parser.rest = tokens ++ more → parser.setbacks = []

theorem completable_nil : Completable [] := by
  refine ⟨[], List.forall_mem_nil _, fun _ => rfl, fun more same parser rest => ?_⟩
  rw [List.map_eq_nil_iff.mp same] at rest
  exact setbacks_of_nil rest

/-- What is begun of a statement can be completed. -/
theorem completable_of_leads (leads : (Position.statement .goal).Leads used last)
    (begun : used ≠ []) : Completable used := by
  refine ⟨last.closing, last.isProper_of_mem_closing, fun none => absurd none begun, ?_⟩
  intro more same parser rest
  obtain ⟨last', result, further, complete⟩ := last.completes_closing more same
  have follows : parser.FollowsTo (used ++ more) parser.final [] last' :=
    ⟨congrArg (· ++ [parser.final]) rest, leads.trans further,
      parser.accept?_final last'⟩
  obtain ⟨goesOn, behind⟩ := follows.setbacks_of_ok (complete.halts parser.final)
  rw [goesOn]
  exact setbacks_of_nil (List.append_cancel_right behind)

/-- A statement in front of tokens that can be completed and do not go on with the statement. -/
theorem Completable.read {tokens : List Token} (completable : Completable tokens)
    (leads : (Position.statement .goal).Leads used last) {statement : Statement}
    (halted : last.halt stop = .ok statement)
    (apart : ∀ token ∈ tokens.head?, last.accept? token = none) : Completable (used ++ tokens) := by
  obtain ⟨kinds, proper, none, completed⟩ := completable
  refine ⟨kinds, proper, fun nil => none (List.append_eq_nil_iff.mp nil).2, ?_⟩
  intro more same parser rest
  obtain ⟨stop', more', behind, rejected⟩ : ∃ stop' more',
      tokens ++ more ++ [parser.final] = stop' :: more' ∧ last.accept? stop' = Option.none := by
    cases tokens with
    | nil =>
        rw [List.map_eq_nil_iff.mp (same.trans (none rfl))]
        exact ⟨parser.final, [], rfl, parser.accept?_final last⟩
    | cons first tokens => exact ⟨first, _, rfl, apart first rfl⟩
  have whole : parser.remaining = used ++ stop' :: more' := by
    rw [Parser.remaining, rest, List.append_assoc, List.append_assoc, ← List.append_assoc tokens,
      behind]
  have follows : parser.FollowsTo used stop' more' last := ⟨whole, leads, rejected⟩
  obtain ⟨goesOn, remaining⟩ :=
    follows.setbacks_of_ok ((Position.complete_of_halt halted).halts stop')
  rw [goesOn]
  exact completed more same _ (List.append_cancel_right (remaining.trans behind.symm))

/-! ## Tokens that begin no program -/

/-- No program has tokens of some kinds at its front. -/
def Hopeless (kinds : List Token.Kind) : Prop :=
  ∀ parser : Parser, kinds <+: parser.remaining.map Token.kind → parser.setbacks ≠ []

/-- A statement in front of kinds that begin no program. -/
theorem Hopeless.read {kinds : List Token.Kind} (hopeless : Hopeless (stop.kind :: kinds))
    (follows : parser.FollowsTo used stop more last) {statement : Statement}
    (halted : last.halt stop = .ok statement) :
    Hopeless (used.map Token.kind ++ stop.kind :: kinds) := by
  intro other same
  obtain ⟨used', stop', more', last', follows', -, kind, shape, further⟩ := follows.alike same
  obtain ⟨result', halted'⟩ := shape.halt_eq_ok kind halted
  obtain ⟨goesOn, behind⟩ := follows'.setbacks_of_ok halted'
  rw [goesOn]
  refine hopeless _ ?_
  rw [behind, List.map_cons, kind]
  exact List.cons_prefix_cons.mpr ⟨rfl, further⟩

/-- A token that is refused begins no program behind tokens of the same kinds. -/
theorem hopeless_of_error (follows : parser.FollowsTo used stop more last) {refusal : Refusal}
    (halted : last.halt stop = .error refusal) (begun : used ≠ [] ∨ stop.kind ≠ .endOfFile) :
    Hopeless (used.map Token.kind ++ [stop.kind]) := by
  intro other same
  obtain ⟨used', stop', more', last', follows', usedKinds, kind, shape, -⟩ := follows.alike same
  have begun' : used' ≠ [] ∨ stop'.kind ≠ .endOfFile := by
    rw [kind]
    refine begun.imp_left fun some none => some ?_
    rw [none] at usedKinds
    exact List.map_eq_nil_iff.mp usedKinds.symm
  rw [setbacks_of_error (follows'.rest_ne_nil begun')
    (follows'.statement_of_error (shape.halt_eq_error kind halted))]
  exact List.cons_ne_nil _ _

/-! ## Where a run goes wrong -/

/-- The tokens in front of a token can be completed, but not with that token. -/
structure GoesWrong (parser : Parser) (before : List Token) (token : Token) : Prop where
  remaining : ∃ behind, parser.remaining = before ++ token :: behind
  completable : Completable before
  hopeless : Hopeless ((before ++ [token]).map Token.kind)

/-- What goes wrong behind a statement that is read goes wrong in front of it. -/
theorem GoesWrong.read {before : List Token} {token : Token} {statement : Statement}
    (done : parser.statement.1 = .ok statement)
    (wrong : parser.statement.2.GoesWrong before token) :
    ∃ used, parser.GoesWrong (used ++ before) token := by
  obtain ⟨used, stop, more, last, follows⟩ := parser.exists_followsTo
  cases halted : last.halt stop with
  | error refusal => cases done.symm.trans (follows.statement_of_error halted)
  | ok result =>
      obtain ⟨behind, whole⟩ := wrong.remaining
      rw [(follows.setbacks_of_ok halted).2] at whole
      have first : (before ++ [token]).head? = some stop := by
        cases before <;> exact congrArg some (List.cons.inj whole).1.symm
      refine ⟨used, ⟨behind, ?_⟩, ?_, ?_⟩
      · rw [follows.remaining, whole, List.append_assoc]
      · refine wrong.completable.read follows.leads halted fun token member => ?_
        cases before with
        | nil => cases member
        | cons _ before =>
            cases member
            cases first
            exact follows.rejected
      · obtain ⟨further, same⟩ := List.head?_eq_some_iff.mp first
        have hopeless := wrong.hopeless
        rw [List.append_assoc, same]
        rw [same] at hopeless
        rw [List.map_append]
        exact hopeless.read follows halted

/-- A statement that is not read goes wrong at the token that is refused. -/
theorem goesWrong_of_error {mishap : Mishap}
    (kinds : ∀ token ∈ parser.rest, token.kind ≠ .endOfFile) (some : parser.rest ≠ [])
    (failed : parser.statement.1 = .error mishap) :
    ∃ used, parser.GoesWrong used mishap.token := by
  obtain ⟨used, stop, more, last, follows⟩ := parser.exists_followsTo
  cases halted : last.halt stop with
  | ok result => cases failed.symm.trans (follows.statement_of_ok halted).1
  | error refusal =>
      cases failed.symm.trans (follows.statement_of_error halted)
      rcases eq_or_ne used [] with rfl | begun
      · obtain ⟨token, tokens, rest⟩ := List.exists_cons_of_ne_nil some
        have whole := follows.remaining
        rw [Parser.remaining, rest] at whole
        obtain ⟨rfl, -⟩ := List.cons.inj whole
        have begun := kinds token (rest ▸ List.mem_cons_self)
        exact ⟨[], ⟨more, follows.remaining⟩, completable_nil,
          hopeless_of_error follows halted (.inr begun)⟩
      · refine ⟨used, ⟨more, follows.remaining⟩, completable_of_leads follows.leads begun, ?_⟩
        rw [List.map_append]
        exact hopeless_of_error follows halted (.inl begun)

/-- **The first setback of a run is where it goes wrong.** -/
theorem goesWrong_of_setback {setback : Setback} (parser : Parser)
    (kinds : ∀ token ∈ parser.rest, token.kind ≠ .endOfFile)
    (first : parser.setbacks.head? = some setback) :
    ∃ before, parser.GoesWrong before setback.mishap.token := by
  induction parser using run_induction with
  | ended parser none =>
      rw [setbacks_of_nil none] at first
      cases first
  | read parser statement more done ih =>
      rw [setbacks_of_ok more done] at first
      have kinds' : ∀ token ∈ parser.statement.2.rest, token.kind ≠ .endOfFile :=
        fun token member => kinds token (Position.rest_read_suffix.subset member)
      obtain ⟨before, wrong⟩ := ih kinds' first
      obtain ⟨used, wrong⟩ := wrong.read done
      exact ⟨used ++ before, wrong⟩
  | recovered parser mishap more failed ih =>
      rw [setbacks_of_error more failed] at first
      cases first
      exact goesWrong_of_error kinds more failed

/-! ## One source -/

section Source

variable {σ : Type} [Listener σ] {listener : σ} {source : Source}

/-- Whether a listener gets the tree of a source. -/
def Accepts (listener : σ) (source : Source) : Prop :=
  ∃ tree, (unit listener (.ofSource source)).1 = .ok tree

/-- Only what is read without setbacks is accepted by a listener that gives up at once. -/
theorem accepts_iff (stops : Listener.Stops listener) :
    Accepts listener source ↔ (ofSource source).setbacks = [] := by
  unfold Accepts unit
  dsimp only
  rw [statements_of_stops stops]
  cases (ofSource source).setbacks with
  | nil => exact ⟨fun _ => rfl, fun _ => ⟨_, rfl⟩⟩
  | cons setback setbacks => exact ⟨nofun, nofun⟩

theorem head?_setbacks_of_error (stops : Listener.Stops listener) {diagnostic : Diagnostic}
    (rejected : (unit listener (.ofSource source)).1 = .error diagnostic) :
    ∃ setback, (ofSource source).setbacks.head? = some setback ∧
      setback.diagnostic = diagnostic := by
  unfold unit at rejected
  dsimp only at rejected
  rw [statements_of_stops stops] at rejected
  cases run : (ofSource source).setbacks with
  | nil =>
      rw [run] at rejected
      cases rejected
  | cons setback setbacks =>
      rw [run] at rejected
      cases rejected
      exact ⟨setback, rfl, rfl⟩

/-- Kinds of the vocabulary can be written behind any tokens of a source. -/
theorem exists_text_behind {before behind : List Token} {token : Token} {kinds : List Token.Kind}
    (whole : source.stream = before ++ token :: behind)
    (proper : ∀ kind ∈ kinds, kind.isProper = true) :
    ∃ front back more, source.text = front ++ back ∧ Utf8.size front = token.span.start ∧
      ∃ further : List Token, (Source.ofText (front ++ more)).tokens = before ++ further ∧
        further.map Token.kind = kinds := by
  obtain ⟨rest, front, back, parts, first⟩ := Source.exists_parts_of_stream whole
  obtain ⟨words, tokens, rfl⟩ := Token.Kind.exists_words proper
  refine ⟨front, back, words.flatMap (' ' :: ·.toList), parts.text,
    (parts.start_of_head first).1.symm, _,
    parts.tokens_front (beginsBlank_flatMap words), ?_⟩
  have scanned := @Cursor.scan_spaced _ _ (spaced_flatMap words) tokens
    ⟨words.flatMap (' ' :: ·.toList), Utf8.size front, front.count '\n'⟩ rfl
  have same := scanned.flip.imp fun token word spells => spells.2
  exact List.forall₂_eq_eq_eq ▸ List.forall₂_map_left_iff.mpr (List.forall₂_map_right_iff.mpr same)

/-- **The first error stands at the first token that cannot go on with the program**: the tokens in
front of it can be completed to a program, and no program has tokens of the same kinds up to it. -/
theorem valid_prefix (stops : Listener.Stops listener) {diagnostic : Diagnostic}
    (rejected : (unit listener (.ofSource source)).1 = .error diagnostic) :
    ∃ before token behind, source.stream = before ++ token :: behind ∧
      token.span = diagnostic.span ∧
      (∃ front back more, source.text = front ++ back ∧ Utf8.size front = token.span.start ∧
        Accepts listener (.ofText (front ++ more)) ∧
        before <+: (Source.ofText (front ++ more)).tokens) ∧
      ∀ other, Accepts listener other →
        ¬ (before ++ [token]).map Token.kind <+: other.stream.map Token.kind := by
  obtain ⟨setback, first, rfl⟩ := head?_setbacks_of_error stops rejected
  obtain ⟨before, wrong⟩ := (ofSource source).goesWrong_of_setback
    (fun _ member => source.kind_ne_endOfFile member) first
  obtain ⟨behind, whole⟩ := wrong.remaining
  obtain ⟨kinds, proper, -, completed⟩ := wrong.completable
  refine ⟨before, setback.mishap.token, behind, whole, rfl, ?_, ?_⟩
  · obtain ⟨front, back, more, text, size, further, tokens, same⟩ :=
      exists_text_behind whole proper
    refine ⟨front, back, more, text, size, (accepts_iff stops).mpr ?_, further, tokens.symm⟩
    exact completed further same _ tokens
  · intro other accepted same
    exact wrong.hopeless (.ofSource other) same ((accepts_iff stops).mp accepted)

/-- A listener that gives up at once gets the first statement's mishap. -/
theorem unit_of_failed (stops : Listener.Stops listener) (more : parser.rest ≠ []) {mishap : Mishap}
    (failed : parser.statement.1 = .error mishap) :
    (unit listener parser).1 = .error mishap.diagnostic := by
  unfold unit
  dsimp only
  rw [statements_of_stops stops, setbacks_of_error more failed]
  rfl

/-- The parenthesis behind the comma in `call f(a, b,)` is the first token that cannot go on, and in
`return (a` that is the end. -/
theorem valid_prefix_of_arguments :
    (∃ before token behind,
      (Source.ofString "call f(a, b,)").stream = before ++ token :: behind ∧
        token.span = ⟨12, 13⟩ ∧
        (∃ front back more, "call f(a, b,)".toList = front ++ back ∧
          Utf8.size front = token.span.start ∧
          Accepts (Transcript.always .stop) (.ofText (front ++ more)) ∧
          before <+: (Source.ofText (front ++ more)).tokens) ∧
        ∀ other, Accepts (Transcript.always .stop) other →
          ¬ (before ++ [token]).map Token.kind <+: other.stream.map Token.kind) ∧
    ∃ before token behind, (Source.ofString "return (a").stream = before ++ token :: behind ∧
      token.span = ⟨9, 9⟩ ∧
      (∃ front back more, "return (a".toList = front ++ back ∧
        Utf8.size front = token.span.start ∧
        Accepts (Transcript.always .stop) (.ofText (front ++ more)) ∧
        before <+: (Source.ofText (front ++ more)).tokens) ∧
      ∀ other, Accepts (Transcript.always .stop) other →
        ¬ (before ++ [token]).map Token.kind <+: other.stream.map Token.kind := by
  constructor
  · have failed := mishap_setback?.mp (show
      (ofSource (.ofString "call f(a, b,)")).setback?.map Setback.mishap =
        some ⟨⟨.symbol .rightParenthesis, ")", ⟨12, 13⟩, 0⟩, ⟨.expressionExpected, true⟩, 0⟩ by
      decide +kernel)
    have more : (ofSource (.ofString "call f(a, b,)")).rest ≠ [] := by decide +kernel
    exact valid_prefix Transcript.stops_always
      (unit_of_failed Transcript.stops_always more failed)
  · have failed := mishap_setback?.mp (show
      (ofSource (.ofString "return (a")).setback?.map Setback.mishap =
        some ⟨⟨.endOfFile, "", ⟨9, 9⟩, 0⟩, ⟨.rightParenthesisExpected, true⟩, 0⟩ by
      decide +kernel)
    have more : (ofSource (.ofString "return (a")).rest ≠ [] := by decide +kernel
    exact valid_prefix Transcript.stops_always
      (unit_of_failed Transcript.stops_always more failed)

end Source

end Parser

end SlotCompiler
