import ScriptCompiler.Proofs.Continuation.Scanning
import ScriptCompiler.Proofs.Parse.Programs
import ScriptCompiler.Proofs.Parse.Stream
import ScriptCompiler.Proofs.Resolution.Statements
import ScriptCompiler.Proofs.Resolution.Uses

/-!
# Names in expressions and programs

What the identifiers of expressions are read as, level by level, and from that those of a program.
-/

/-!
## Expressions

What operands, operators and assignments are read from, level by level. An identifier is read as a
local variable just if the scopes show it and no parenthesis follows at once; otherwise it is a
message without a receiver.
-/

/-! ### Capital letters

Scanning makes a constant of a word just if it starts with a capital letter. So the first letter of
a name tells whether it was read from a constant or from an identifier.
-/

namespace ScriptCompiler.Token

/-- Constants start with a capital letter, and identifiers do not. -/
def Kind.IsCased : Kind → Prop
  | .identifier name => startsUpper name = false
  | .constant name => startsUpper name = true
  | _ => True

namespace Lexeme

variable {start : Position} {c : Char} {rest : List Char}

theorem isCased_either (single : Punct) (longer : List (Char × Punct)) :
    (either single rest longer).Says Kind.IsCased := by
  unfold either
  split <;> trivial

theorem isCased_sigilName {sigil : Char} {what : String} {make : String → Kind}
    (h : ∀ name, (make name).IsCased) :
    (sigilName start sigil what make rest).Says Kind.IsCased := by
  unfold sigilName
  dsimp only
  split <;> exact h _

theorem isCased_number : (number start c rest).Says Kind.IsCased := by
  unfold number
  dsimp only
  split <;> trivial

theorem startsUpper_ofList (c : Char) (rest : List Char) :
    startsUpper (String.ofList (c :: rest)) = isUpper c := by
  rw [startsUpper, String.toList_ofList, List.head?_cons, Option.any_some]

theorem isCased_lowerName (h : (isLower c || c = '_') = true) :
    (lowerName c rest).Says Kind.IsCased := by
  unfold lowerName
  dsimp only
  split
  · trivial
  · exact (startsUpper_ofList c _).trans (classes_of_lower h).2

theorem isCased_upperName (h : isUpper c = true) : (upperName c rest).Says Kind.IsCased :=
  (startsUpper_ofList c _).trans h

theorem isCased_wideName (h : isWide c = true) : (wideName c rest).Says Kind.IsCased :=
  (startsUpper_ofList c _).trans (classes_of_wide h).2.2

theorem isCased_ofChar : (ofChar start c rest).Says Kind.IsCased := by
  unfold ofChar
  split
  all_goals try first | exact isCased_either _ _ | trivial
  case h_5 =>
    unfold instanceName
    split
    · trivial
    · exact isCased_sigilName fun _ => trivial
  case h_6 => exact isCased_sigilName fun _ => trivial
  case h_7 =>
    unfold colon
    dsimp only
    repeat' split
    all_goals trivial
  case h_10 =>
    split
    · trivial
    · exact isCased_either _ _
  case h_27 =>
    split
    · exact isCased_number
    split
    · next lower => exact isCased_lowerName lower
    split
    · next upper => exact isCased_upperName upper
    split
    · next wide => exact isCased_wideName wide
    · trivial

end Lexeme

/-- **Constants and identifiers.** -/
theorem isCased_scanFrom (file : SourceFile) (last : Option Kind) (log : Log) (cursor : Cursor) :
    ∀ t ∈ (scanFrom file last log cursor).tokens, t.kind.IsCased :=
  says_scanFrom trivial (fun _ _ _ => Lexeme.isCased_ofChar) file last log cursor

end ScriptCompiler.Token

namespace ScriptCompiler.Resolution

open Parse

variable {stream : Stream} {levels : Nat} {s : State}

/-- A capital first letter tells the constants of the stream from the identifiers. -/
def Cased (stream : Stream) : Prop :=
  ∀ t ∈ stream.tokens, t.kind.IsCased

theorem Cased.current {k : Token.Kind} (cased : Cased stream) (hs : s.In stream)
    (hk : s.current.kind = k) : k.IsCased :=
  hk ▸ cased s.current (hs.subset List.mem_cons_self)

theorem isQuiet_simple {k : Token.Kind} {form : Form} (h : simple? k = some form) :
    isQuiet k = true := by
  cases k with
  | keyword word => cases word <;> first | rfl | cases h
  | _ => first | rfl | cases h

section Expressions

variable (cased : Cased stream) (he : ∀ s, Hears stream (expression levels) s TracedNode)

include he

/-! ### Operands -/

theorem hears_parenthesized (hk : s.current.kind = .punct .openParen) :
    Hears stream (parenthesized (expression levels)) s TracedNode := by
  unfold parenthesized
  refine .currentSpan (.pass (by rw [hk]; rfl) ?_)
  refine Hears.bind (Q := TracedNode) (.withDoBlocks (.skipNewlines fun s => hears_statement he))
    fun inner es s₁ h => .skipNewlines fun s => .expect rfl fun s => .previousSpan (.pure ?_)
  rwa [List.append_nil]

include cased

/-- An identifier is the read of a local variable or a message. -/
theorem hears_identifier {name : String} {start : Span} (hk : s.current.kind = .identifier name) :
    Hears stream (do
      advance
      if (← isLocal name) && !(← atParenArgs) then
        return ⟨.localVar name, start.merge (← previousSpan)⟩
      else call (expression levels) none name) s TracedNode := by
  refine .from_ fun hs => ?_
  have more : s.rest ≠ [] := hs.rest_ne_nil (hk ▸ nofun)
  have applied : opensArgs s.next.remaining = (mentionAt s name).applied := by
    rw [State.remaining_next more]
    rfl
  by_cases read : (mentionAt s name).IsRead s.scopes
  · refine .mention .read hk nofun read (.isLocal (.atParenArgs ?_))
    have seen : State.sees name s.scopes = true := read.2
    rw [applied, read.1, State.scopes_next, seen]
    exact .previousSpan (.pure (.read (mentionAt s name)))
  · refine .mention .called hk nofun read (.isLocal (.atParenArgs ?_))
    rw [applied, State.scopes_next, if_neg]
    · have lower : Token.startsUpper name = false := cased.current hs hk
      have named : Called name [.mention (mentionAt s name) .called] :=
        Called.name (m := mentionAt s name) lower
      exact (hears_call he none name).mono fun node es h => h.call named
    · intro both
      rw [Bool.and_eq_true, Bool.not_eq_true'] at both
      exact read ⟨both.2, both.1⟩

theorem hears_primary : Hears stream (primary (expression levels)) s TracedNode := by
  unfold primary
  refine .currentSpan ?_
  extract_lets finish
  have finished {form : Form} {es : List Event} (h : Traced form es) (s : State) :
      Hears stream (finish form) s fun node es' => TracedNode node (es ++ es') :=
    .previousSpan (.pure (by rwa [List.append_nil]))
  have called {name : String} (h : IsFixed name) (s : State) :
      Hears stream (call (expression levels) none name) s TracedNode :=
    (hears_call he none name).mono fun node es hr => hr.call (.fixed h)
  refine .kind ?_
  split
  · next form hform => exact .pass (isQuiet_simple hform) (finished (.simple hform) _)
  split
  · next hk => exact hears_identifier cased he hk
  · next name hk =>
    refine .from_ fun hs => .pass (by rw [hk]; rfl) (.atParenArgs ?_)
    have fixed : IsFixed name := .inl (cased.current hs hk)
    split
    · exact called fixed _
    · exact finished (.call (.fixed fixed) .nil .none) _
  · next hk => exact .pass (by rw [hk]; rfl) (called (.inr (.inl rfl)) _)
  · next hk => exact .pass (by rw [hk]; rfl) (called (.inr (.inr rfl)) _)
  · next hk =>
    refine .pass (by rw [hk]; rfl) ((hears_bracketedArgs he rfl).bind fun args es s₁ ha => ?_)
    exact finished (.array ha) s₁
  · next hk => exact hears_parenthesized he hk
  · next hk => exact hears_ifBlock he hk
  · next hk => exact hears_unlessBlock he hk
  · next hk => exact hears_loopBlock he _ hk rfl
  · next hk => exact hears_loopBlock he _ hk rfl
  · next hk => exact hears_beginBlock he hk
  · next hk => exact hears_classBlock he hk
  · next hk => exact hears_moduleBlock he hk
  · next hk => exact hears_methodBlock he hk
  · exact .unsupported _ _ _
  · exact .unsupported _ _ _
  · exact .reject _

/-! ### What follows an operand -/

omit cased he in
theorem hears_scopedName : Hears stream scopedName s Spelled := by
  unfold scopedName
  refine .kind ?_
  split
  · next name hk =>
    have hn : methodName? s.current.kind = some name := by rw [hk]; rfl
    exact .spelled hn fun es h => .pure (by rwa [List.append_nil])
  · next name hk =>
    have hn : methodName? s.current.kind = some name := by rw [hk]; rfl
    exact .spelled hn fun es h => .pure (by rwa [List.append_nil])
  · exact .reject _

omit cased he in
theorem hears_calledName : Hears stream calledName s Spelled := by
  unfold calledName
  refine .kind ?_
  split
  · next name hn => exact .spelled hn fun es h => .pure (by rwa [List.append_nil])
  · exact .reject _

omit cased in
theorem hears_postfixOf {node : Node} {es : List Event} (hn : TracedNode node es) :
    Hears stream (postfixOf (expression levels) node) s fun node es' =>
      TracedNode node (es ++ es') := by
  unfold postfixOf
  refine .repeating (I := TracedNode) (fun node es s hn => ?_) hn
  unfold postfixRound
  extract_lets finish
  have called {name : String} {es' : List Event} (h : Spelled name es') (s : State) :
      Hears stream (do return .again (← call (expression levels) (some node) name) :
        Parser (Round Node Node)) s
        fun r es'' => Hears.Round TracedNode TracedNode r (es ++ .point :: (es' ++ es'')) := by
    refine (hears_call he (some node) name).bind fun node' es'' s₁ hr => .pure ?_
    rw [List.append_nil]
    exact hr.message hn (.name h)
  refine .kind ?_
  split
  · next hk =>
    exact .point (.inl hk) (hears_calledName.bind fun name es' s₁ h => called h s₁)
  · next hk =>
    refine .followingKind ?_
    split
    · exact .pass (by rw [hk]; rfl) (.pure (by rwa [List.append_nil]))
    · exact .pure (by rwa [List.append_nil])
  · next hk =>
    refine .point (.inr hk) (hears_scopedName.bind fun name es' s₁ h => .atParenArgs ?_)
    split
    · refine .previousSpan (.pure ?_)
      exact .message hn (.name h) .nil .none
    · exact called h s₁
  · next hk =>
    refine .spaceBefore ?_
    split
    · exact .pure (by rwa [List.append_nil])
    · refine .pass (by rw [hk]; rfl) ((hears_bracketedArgs he rfl).bind fun args es' s₁ ha => ?_)
      exact .previousSpan (.pure (.message hn .operator ha .none))
  · exact .pure (by rwa [List.append_nil])

/-! ### Operators -/

theorem hears_unary : Hears stream (unary (expression levels)) s TracedNode := by
  unfold unary
  refine .repeats (I := Nothing) ?_ rfl
  rintro signs _ s rfl
  have signed {operand : Node} {es : List Event} (h : TracedNode operand es) (s : State) :
      Hears stream (do return .done (applySigns signs (← postfixOf (expression levels) operand)) :
        Parser (Round (List (String × Span)) Node)) s
        fun r es' => Hears.Round Nothing TracedNode r (es ++ es') := by
    refine (hears_postfixOf he h).bind fun node es' s₁ hn => .pure ?_
    rw [List.append_nil]
    exact hn.applySigns
  refine .currentSpan (.kind ?_)
  split
  · next hk =>
    refine .pass (by rw [hk]; rfl) (.kind ?_)
    split
    · next value hk' =>
      refine .pass (by rw [hk']; rfl) (.previousSpan ?_)
      have literal {span : Span} : TracedNode ⟨.integer (-value), span⟩ [] :=
        .simple (k := .integer (-value)) rfl
      exact signed literal _
    · exact .pure rfl
  · next hk => exact .pass (by rw [hk]; rfl) (.pure rfl)
  · exact .unsupported _ _ _
  · exact (hears_primary cased he).bind fun operand es s₁ h => signed h s₁

omit cased he in
theorem hears_leftGrouped {operand : Parser Node} {ops : List Punct}
    (quiet : ∀ mark ∈ ops, isQuiet (.punct mark) = true)
    (ho : ∀ s, Hears stream operand s TracedNode) :
    Hears stream (leftGrouped ops operand) s TracedNode := by
  unfold leftGrouped
  refine (ho s).bind fun left es s₁ hl => .repeating (I := TracedNode) (fun left es s hl => ?_) hl
  refine .kind ?_
  split
  · next mark hk =>
    split
    · next h =>
      have mem : mark ∈ ops := List.contains_iff_mem.mp h
      refine .pass (by rw [hk]; exact quiet mark mem) ((ho _).bind fun right es' s₁ hr => ?_)
      refine .pure ?_
      rw [List.append_nil]
      exact Traced.binary mark.text hl hr
    · exact .pure (by rwa [List.append_nil])
  · exact .pure (by rwa [List.append_nil])

omit cased he in
theorem hears_foldl_leftGrouped (ranks : List (List Punct)) {operand : Parser Node}
    (quiet : ∀ ops ∈ ranks, ∀ mark ∈ ops, isQuiet (.punct mark) = true)
    (ho : ∀ s, Hears stream operand s TracedNode) (s : State) :
    Hears stream (ranks.foldl (fun operand ops => leftGrouped ops operand) operand) s
      TracedNode := by
  induction ranks generalizing operand with
  | nil => exact ho s
  | cons ops ranks ih =>
    rw [List.forall_mem_cons] at quiet
    exact ih quiet.2 fun s => hears_leftGrouped quiet.1 ho

omit cased he in
theorem isQuiet_ranks : ∀ ops ∈ ranks, ∀ mark ∈ ops, isQuiet (.punct mark) = true := by
  decide

theorem hears_logical : Hears stream (logical (expression levels)) s TracedNode := by
  unfold logical
  refine (hears_foldl_leftGrouped ranks isQuiet_ranks (fun s => hears_unary cased he) s).bind
    fun left es s₁ hl => .kind ?_
  split
  · exact .of_none rfl
  · exact .pure (by rwa [List.append_nil])

/-! ### Assignment -/

omit cased in
/-- The right-hand side of an assignment. -/
theorem hears_assignTo {target : Target} {current : Node} {how : Parse.Assignment} {start : Span}
    {post : Node → List Event → Prop}
    (plain : ∀ right es span, how = .plain → TracedNode right es →
      post ⟨.assign target right, span⟩ es)
    (compound : ∀ op right es span, how = .compound op → TracedNode right es →
      post ⟨.assign target (binary current op right), span⟩ es) :
    Hears stream (assignTo (expression levels) target current how start) s post := by
  unfold assignTo
  refine .skipNewlines fun s => (he s).bind fun right es s₁ hr => .previousSpan (.pure ?_)
  rw [List.append_nil]
  cases how with
  | plain => exact plain right es _ rfl hr
  | compound op => exact compound op right es _ rfl hr

omit cased he in
theorem isQuiet_assignment {k : Token.Kind} {how : Parse.Assignment}
    (h : assignment? k = some how) : isQuiet k = true := by
  cases k with
  | punct mark => cases mark <;> first | rfl | cases h
  | _ => cases h

omit cased in
theorem hears_assignExpression {start : Span} {left : Node} {how : Parse.Assignment}
    {es : List Event} (hk : assignment? s.current.kind = some how) (hl : TracedNode left es) :
    Hears stream (assignExpression (expression levels) start left how) s fun node es' =>
      TracedNode node (es ++ es') := by
  unfold assignExpression
  refine .currentSpan (.pass (isQuiet_assignment hk) ?_)
  split
  · next target ht =>
    obtain ⟨rfl, other⟩ := Traced.target ht hl
    refine hears_assignTo he (fun right es span _ hr => .store hr other) ?_
    exact fun op right es span _ hr => .store (Traced.binary op hl hr) other
  · split
    · next hr =>
      refine (he _).bind fun value es' s₁ hv => .previousSpan (.pure ?_)
      rw [List.append_nil]
      exact Traced.writer hr hl hv
    · split
      · exact .unsupported _ _ _
      · exact .reject _

omit cased he in
theorem localAssignment_cases {k k' : Token.Kind} {name : String} {how : Parse.Assignment}
    (h : localAssignment? k k' = some (name, how)) :
    k = .identifier name ∧ assignment? k' = some how := by
  unfold localAssignment? at h
  split at h
  · split at h
    · cases h
    · obtain ⟨how', hk', same⟩ := Option.map_eq_some_iff.mp h
      cases same
      exact ⟨rfl, hk'⟩
  · cases h

theorem hears_assignment : Hears stream (assignment (expression levels)) s TracedNode := by
  unfold assignment
  refine .currentSpan (.kind (.followingKind ?_))
  split
  · next name how h =>
    obtain ⟨hk, hk'⟩ := localAssignment_cases h
    refine .from_ fun hs => ?_
    have quiet : isQuiet (s.next.bind name).current.kind = true := by
      rw [State.current_bind, hs.current_next (hk ▸ nofun)]
      exact isQuiet_assignment hk'
    refine .bound hk (q := advance >>= fun _ => assignTo (expression levels) (.localVar name)
      ⟨.localVar name, s.current.span⟩ how s.current.span) ?_ (.pass quiet ?_)
    · rw [run_advance, run_advance, run_advance, State.next_bind]
      rfl
    · refine hears_assignTo he (fun right es span _ hr => .assign (mentionAt s name) hr) ?_
      exact fun op right es span _ hr => .update (mentionAt s name) hr
  · refine (hears_logical cased he).bind fun left es s₁ hl => .kind ?_
    split
    · next how hk => exact hears_assignExpression he hk hl
    · exact .pure (by rwa [List.append_nil])

end Expressions

/-! ### All levels -/

theorem hears_expression (cased : Cased stream) (levels : Nat) (s : State) :
    Hears stream (expression levels) s TracedNode := by
  induction levels generalizing s with
  | zero => exact .currentSpan (.reject _)
  | succ levels ih => exact hears_assignment cased ih

end ScriptCompiler.Resolution

/-!
## Local variables and messages of a program

A program is read from what its text says in its order, and every identifier is read as a local
variable or sent as a message just as the bindings before it say. One statement is neither: a word
that names a directive, with a file after it, is that directive.
-/

namespace ScriptCompiler.Resolution

open Parse

variable {stream : Stream} {s : State} {name source : String} {known : List String} {nodes : Body}

theorem hears_program (cased : Cased stream) : Hears stream program s TracedAll := by
  unfold program
  refine (hears_body (hears_expression cased maxDepth) []).bind fun statements es s₁ h => ?_
  have all : TracedAll statements (es ++ []) := by rwa [List.append_nil]
  refine .at_ (.isFull ?_)
  extract_lets jp
  split
  · exact .of_fault [] ((Goes.unexpected _).bind fun _ s₂ _ m₂ h₂ => .pure ⟨all, h₂.2⟩)
  · exact .pure all

theorem cased_ofFile (file : SourceFile) : Cased (.ofFile file) :=
  Token.isCased_scanFrom file none .empty _

/-- Nothing is left where a program without faults ends. -/
theorem marks_of_program (hs : s.In stream) {s' : State} (hr : program.run s = (some nodes, s'))
    (clean : s'.log.total = 0) : marks s'.remaining = [] := by
  have outcome := goes_program (n := 0) hs (Nat.zero_le _)
  rw [hr] at outcome
  obtain ⟨-, full | isEnd⟩ := outcome.gives nodes rfl clean
  · rw [Log.isFull, clean] at full
    exact absurd full (by decide)
  · have last := (outcome.moves.into hs).rest_eq_nil_iff.mpr isEnd
    rw [State.remaining, last, marks, mark?_of_isQuiet (by rw [isEnd]; rfl)]
    rfl

/-- **Local variables and messages.** A program is read from events that are the identifiers of its
text, in their order. Of those that bind nothing and name no definition and no message to a
receiver, an identifier is a local variable of the program just if no parenthesis follows at once
and it is visible: its name is known from the start or was bound before, and no class, module or
method was entered in between that is still open. Otherwise it is a message without a receiver, or
the word of a directive. -/
theorem read_iff_of_parse (h : parse name source known = .ok nodes) :
    ∃ events, TracedAll nodes events
      ∧ events.filterMap Event.mark? = marks (Token.scan (.ofText name source)).tokens
      ∧ ∀ before m role after, events = before ++ .mention m role :: after →
        role = .read ∨ role = .called →
          (∃ node, Body.Contains nodes node ∧ Shows node.form m role)
            ∧ (role = .read ↔ m.applied = false ∧ Visible known before m.name) := by
  obtain ⟨s', hr, clean⟩ := run_program_of_parse h
  let stream : Stream := .ofFile (.ofText name source)
  have start : (State.start (.ofText name source) stream.tokens known).remaining
      = stream.tokens := remaining_start stream _ known
  have hs : (State.start (.ofText name source) stream.tokens known).In stream := ⟨[], start⟩
  obtain ⟨-, events, traced, meets⟩ := hears_program (cased_ofFile _) hs nodes s' hr
  obtain ⟨shown, -, resolved, nested⟩ := meets clean
  refine ⟨events, traced, ?_, ?_⟩
  · rw [start, marks_of_program hs hr clean, List.append_nil] at shown
    exact shown.symm
  · rintro before m role after rfl use
    obtain ⟨top, mem, there⟩ := traced.shownIn (List.mem_append_right _ List.mem_cons_self)
    obtain ⟨node, inside, shows_⟩ := there.inside
    exact ⟨⟨node, ⟨top, mem, inside⟩, shows_⟩, resolved.read_iff nested use⟩

/-- A variable that is read in a block, and a name in a method that is a message. -/
def scopesText : String :=
  "x = 1\nf do |y|\n  x + y + k\nend\ndef g(z)\n  x + z + k\nend\n"

theorem read_iff_of_parse_scopesText :
    ∃ nodes, parse "main" scopesText ["k"] = .ok nodes
      ∧ ∃ events, TracedAll nodes events
        ∧ events.filterMap Event.mark? = marks (Token.scan (.ofText "main" scopesText)).tokens
        ∧ ∀ before m role after, events = before ++ .mention m role :: after →
          role = .read ∨ role = .called →
            (∃ node, Body.Contains nodes node ∧ Shows node.form m role)
              ∧ (role = .read ↔ m.applied = false ∧ Visible ["k"] before m.name) := by
  have ok : (parse "main" scopesText ["k"]).isOk = true := by decide +kernel
  cases h : parse "main" scopesText ["k"] with
  | error failure =>
    rw [h] at ok
    cases ok
  | ok nodes => exact ⟨nodes, rfl, read_iff_of_parse h⟩

/-- The directive that is all of a program. -/
def soleDirective? : Except ParseFailure Body → Option (DirectiveKind × String)
  | .ok [⟨.directive kind path, _⟩] => some (kind, path)
  | _ => none

theorem exists_of_soleDirective? {parsed : Except ParseFailure Body} {kind : DirectiveKind}
    {path : String} (h : soleDirective? parsed = some (kind, path)) :
    ∃ span, parsed = .ok [⟨.directive kind path, span⟩] := by
  unfold soleDirective? at h
  split at h
  · next span =>
    cases h
    exact ⟨span, rfl⟩
  · cases h

/-- The one identifier of this text is not bound and no parenthesis follows it, and there is no
message in the program. -/
theorem directive_of_require :
    (∃ span, marks (Token.scan (.ofText "main" "require \"a\"")).tokens
        = [.mention ⟨"require", span, false⟩])
      ∧ ∃ span, parse "main" "require \"a\"" [] = .ok [⟨.directive .require "a", span⟩] := by
  constructor
  · exact ⟨⟨1, 1, 1, 7⟩, by decide +kernel⟩
  · exact exists_of_soleDirective? (by decide +kernel)

end ScriptCompiler.Resolution
