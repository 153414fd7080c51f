import ScriptCompiler.Proofs.Parse.Programs
import ScriptCompiler.Proofs.Resolution.Rules

/-!
# Statements, calls and definitions

What everything but an expression is read from, if the expressions in it are read from what their
trees say.
-/

/-!
## Statements and calls

What statements, bodies, parameters, arguments and blocks are read from, if the expressions in them
are read from what their trees say.
-/

namespace ScriptCompiler.Resolution

open Parse

variable {stream : Stream} {levels : Nat} {s : State}

/-- A node was read from a text with these events. -/
abbrev TracedNode (node : Node) (es : List Event) : Prop :=
  Traced node.form es

/-! ### Statements -/

theorem isLeading_modifier {k : Token.Kind} {m : Modifier} (h : modifier? k = some m) :
    ∃ word, k = .keyword word ∧ isLeading word = true := by
  cases k with
  | keyword word => cases word <;> first | exact ⟨_, rfl, rfl⟩ | cases h
  | _ => cases h

section Expressions

variable (he : ∀ s, Hears stream (expression levels) s TracedNode)

include he

theorem hears_statement : Hears stream (statement (expression levels)) s TracedNode := by
  unfold statement
  refine .currentSpan ((he s).bind fun first es₁ s₁ h₁ => ?_)
  refine Hears.bind (Q := fun whole es => TracedNode whole (es₁ ++ es)) ?_
    fun whole es₂ s₂ h₂ => .kind ?_
  · refine .repeating (I := TracedNode) (fun stmt es s hs => .kind ?_) h₁.asDirective
    split
    · exact .pure (by rwa [List.append_nil])
    · next m hm =>
      obtain ⟨word, hk, leading⟩ := isLeading_modifier hm
      refine .word hk leading ((he _).bind fun condition es' s' hc => .previousSpan (.pure ?_))
      rw [List.append_nil]
      exact hs.apply m hc
  · split
    · exact .of_none rfl
    · exact .pure (by rwa [List.append_nil])

theorem hears_body (terminators : List Token.Kind) :
    Hears stream (body (expression levels) terminators) s TracedAll := by
  unfold body
  refine .repeats (I := fun done es => TracedAll done.reverse es) (fun done es s h => ?_) .nil
  have ended : TracedAll done.reverse (es ++ []) := by rwa [List.append_nil]
  unfold bodyRound
  refine .skipNewlines fun s => .kind ?_
  split
  · exact .pure ended
  refine .isFull ?_
  split
  · exact .pure ended
  refine .attempt [] (hears_statement he) (goes_statement (goes_expression levels))
    (fun s₁ fault => ?_) fun stmt es' s₁ hs => .kind ?_
  · exact (goes_synchronize fault).bind fun _ _ _ _ _ => .pure ended
  · have more : TracedAll (stmt :: done).reverse (es ++ (es' ++ [])) := by
      rw [List.append_nil, List.reverse_cons]
      exact h.concat hs
    split
    · exact .pure more
    · refine .of_fault [] ((Goes.unexpected _).bind fun _ s₂ _ m₂ h₂ => ?_)
      refine (goes_synchronize h₂.2).bind fun _ s₃ _ m₃ _ => .pure ⟨more, ?_⟩
      exact Nat.lt_of_lt_of_le h₂.2 m₃.log

end Expressions

/-! ### Parameters -/

theorem hears_param : Hears stream param s fun p es => Bound [p.name] es := by
  unfold param
  refine .currentSpan (.kind ?_)
  split
  · next name hk =>
    -- a default value is no part of the language
    by_cases ha : s.next.current.kind = .punct .assign
    · refine .of_none ?_
      rw [run_advance, run_at, decide_eq_true ha, if_pos rfl]
      rfl
    · refine .bound hk (q := pure (.positional name)) ?_ (.pure ?_)
      · rw [run_advance, run_at, decide_eq_false ha, if_neg Bool.false_ne_true]
        rfl
      · exact .cons (mentionAt s name) .nil
  · next hk =>
    refine .pass (by rw [hk]; rfl) (.expectBound fun m s => .pure ?_)
    exact .cons m .nil
  · exact .unsupported _ _ _
  · exact .unsupported _ _ _
  · exact .reject _

theorem hears_params (close : Token.Kind) :
    Hears stream (params close) s fun names es => Bound (names.map Param.name) es := by
  unfold params
  refine .repeats (I := fun done es => Bound (done.reverse.map Param.name) es)
    (fun done es s h => hears_param.bind fun p es' s₁ hp => ?_) .nil
  have more : Bound ((p :: done).reverse.map Param.name) (es ++ (es' ++ [])) := by
    rw [List.append_nil, List.reverse_cons, List.map_append]
    exact h.append hp
  refine .ifAt (fun _ => .pure more) fun _ => .ifEat rfl (fun _ => ?_) fun _ => .pure more
  extract_lets jp
  split
  · exact .skipNewlines fun s => .pure more
  · exact .pure more

/-! ### Arguments -/

/-- One more argument. -/
theorem TracedAll.more {arg : Node} {done : List Node} {es es' : List Event}
    (h : TracedAll done.reverse es) (ha : TracedNode arg es') :
    TracedAll (arg :: done).reverse (es ++ (es' ++ [])) := by
  rw [List.append_nil, List.reverse_cons]
  exact h.concat ha

section Expressions

variable (he : ∀ s, Hears stream (expression levels) s TracedNode)

include he

theorem hears_argument : Hears stream (argument (expression levels)) s TracedNode := by
  unfold argument
  refine .kind ?_
  split
  · exact .of_none rfl
  · exact .of_none rfl
  · refine (he s).bind fun arg es s₁ h => .ifAt (fun _ => .of_none rfl) fun _ => .pure ?_
    rwa [List.append_nil]

theorem hears_commandArgs : Hears stream (commandArgs (expression levels)) s TracedAll := by
  unfold commandArgs
  refine .withDoBlocks (.repeats (I := fun done es => TracedAll done.reverse es)
    (fun done es s h => (hears_argument he).bind fun arg es' s₁ ha => ?_) .nil)
  refine .ifEat rfl (fun _ => .skipNewlines fun s => .pure ?_) fun _ => .pure ?_
  · exact h.more ha
  · exact h.more ha

theorem hears_bracketedArgs {close : Punct} (hc : isQuiet (.punct close) = true) :
    Hears stream (bracketedArgs (expression levels) close) s TracedAll := by
  unfold bracketedArgs
  refine .withDoBlocks (.skipNewlines fun s => ?_)
  refine Hears.bind (Q := TracedAll) (.repeats (I := fun done es => TracedAll done.reverse es)
    (fun done es s h => ?_) .nil) fun args es s₁ ha => ?_
  · refine .ifAt (fun _ => .pure (by rwa [List.append_nil])) fun _ => ?_
    refine (hears_argument he).bind fun arg es' s₁ ha => .skipNewlines fun s₂ => ?_
    refine .ifEat rfl (fun _ => .skipNewlines fun s => .pure ?_) fun _ => .pure ?_
    · exact h.more ha
    · exact h.more ha
  · refine .skipNewlines fun s => .expect hc fun s => .pure ?_
    rwa [List.append_nil]

/-! ### Blocks -/

theorem hears_blockRest {close : Token.Kind} (hc : isQuiet close = true) :
    Hears stream (blockRest (expression levels) close) s fun block es =>
      TracedBlock (some block) es := by
  unfold blockRest
  refine .withDoBlocks (.inScope (.skipNewlines fun s => ?_))
  extract_lets jp jp'
  have rest (names : List Param) {es : List Event} (hp : Bound (names.map Param.name) es)
      (s : State) : Hears stream (jp names) s fun block es' =>
        TracedBlock (some block) (.enter false :: (es ++ es' ++ [.leave])) := by
    refine (hears_body he _).bind fun statements es' s₁ hb => .expect hc fun s => .pure ?_
    rw [List.append_nil]
    exact .some hp hb
  have bar (names : List Param) {es : List Event} (hp : Bound (names.map Param.name) es)
      (s : State) : Hears stream (jp' names) s fun block es' =>
        TracedBlock (some block) (.enter false :: (es ++ es' ++ [.leave])) :=
    .expect rfl fun s => rest names hp s
  refine .ifEat rfl (fun _ => .ifAt (fun _ => ?_) fun _ => ?_) fun _ => ?_
  · exact bar [] .nil _
  · exact (hears_params _).bind fun names es s₁ hp => bar names hp _
  · refine .andThen ?_ fun _ s => rest [] .nil s
    exact .eat (fun h => .pass (by rw [h]; rfl) (.pure rfl)) fun _ => .pure rfl

theorem hears_callBlock (command : Bool) :
    Hears stream (callBlock (expression levels) command) s TracedBlock := by
  unfold callBlock
  refine .at_ ?_
  split
  · next h =>
    rw [Bool.and_eq_true, decide_eq_true_eq] at h
    refine .pass (by rw [h.2]; rfl) ((hears_blockRest he rfl).bind fun block es s₁ hb => .pure ?_)
    rwa [List.append_nil]
  · refine .get (.at_ ?_)
    split
    · next h =>
      rw [Bool.and_eq_true, decide_eq_true_eq] at h
      refine .pass (by rw [h.2]; rfl) ((hears_blockRest he rfl).bind fun block es s₁ hb => .pure ?_)
      rwa [List.append_nil]
    · exact .pure .none

/-! ### Calls -/

omit he in
theorem kind_of_opensArgs (h : opensArgs s.remaining = true) :
    s.current.kind = .punct .openParen := by
  rw [State.remaining, opensArgs, Bool.and_eq_true, decide_eq_true_eq] at h
  exact h.1

theorem hears_call (receiver : Option Node) (name : String) :
    Hears stream (call (expression levels) receiver name) s (TracedRest receiver name) := by
  unfold call
  extract_lets jp
  have rest (start : Span) : Hears stream (jp start) s (TracedRest receiver name) := by
    refine .atParenArgs (.startsCommandArgs fun command => ?_)
    extract_lets jp'
    have block (args : Bool × List Node) {es : List Event} (ha : TracedAll args.2 es) (s : State) :
        Hears stream (jp' args) s fun node es' => TracedRest receiver name node (es ++ es') := by
      refine (hears_callBlock he _).bind fun block es' s₁ hb => .previousSpan (.pure ?_)
      rw [List.append_nil]
      exact .mk ha hb
    split
    · next h =>
      refine .pass (by rw [kind_of_opensArgs h]; rfl) ((hears_bracketedArgs he rfl).bind ?_)
      exact fun args es s ha => block (false, args) ha s
    · split
      · exact (hears_commandArgs he).bind fun args es s ha => block (true, args) ha s
      · exact block (false, []) .nil _
  cases receiver with
  | none => exact .previousSpan (rest _)
  | some node => exact rest _

end Expressions

end ScriptCompiler.Resolution

/-!
## Definitions and control flow

What conditionals, loops, protected bodies, classes, modules and methods are read from, if the
expressions in them are read from what their trees say.
-/

namespace ScriptCompiler.Resolution

open Parse

variable {stream : Stream} {levels : Nat} {s : State}

/-- A clause was read that runs after an exception, if there is one. -/
inductive TracedClause : Option (Option String × Body) → List Event → Prop
  | none : TracedClause none []
  | some {variable_ : Option String} {handler : Body} {es es' : List Event}
    (hv : Bound variable_.toList es) (hh : TracedAll handler es') :
    TracedClause (some (variable_, handler)) (es ++ es')

section Expressions

variable (he : ∀ s, Hears stream (expression levels) s TracedNode)

include he

/-! ### Protected bodies -/

theorem hears_rescueClause :
    Hears stream (rescueClause (expression levels)) s TracedClause := by
  unfold rescueClause
  refine .ifEat rfl (fun _ => .kind ?_) fun _ => .pure .none
  extract_lets jp jp'
  have handled (variable_ : Option String) {es : List Event} (hv : Bound variable_.toList es)
      (s : State) : Hears stream (jp variable_) s fun r es' => TracedClause r (es ++ es') := by
    refine (hears_body he _).bind fun handler es' s₁ hh => .ifAt (fun _ => .of_none rfl) fun _ => ?_
    refine .pure ?_
    rw [List.append_nil]
    exact .some hv hh
  have rest (s : State) : Hears stream (jp' ()) s TracedClause := by
    refine .ifEat rfl (fun _ => .expectBound fun m s => ?_) fun _ => handled none .nil _
    exact handled (some m.name) (.cons m .nil) s
  split
  · exact .of_none rfl
  · exact rest _

theorem hears_rescueTail {protected_ : Body} {es : List Event} (hp : TracedAll protected_ es) :
    Hears stream (rescueTail (expression levels) protected_) s fun form es' =>
      Traced form (es ++ es') := by
  unfold rescueTail
  refine (hears_rescueClause he).bind fun clause es₁ s₁ hc => .currentSpan ?_
  extract_lets jp
  have rest (otherwise : Option Body) {es₂ : List Event} (ho : TracedOptional otherwise es₂)
      (s : State) : Hears stream (jp otherwise) s fun form es' =>
        Traced form (es ++ (es₁ ++ (es₂ ++ es'))) := by
    refine .ifAt (fun _ => .of_none rfl) fun _ => ?_
    cases hc with
    | some hv hh =>
      refine .pure ?_
      rw [List.append_nil, List.append_assoc]
      exact .rescue hp hv hh ho
    | none =>
      cases ho with
      | some _ => exact .reject _
      | none =>
        refine .pure ?_
        simpa only [List.append_nil] using hp.sequence
  refine .ifEat rfl (fun _ => ?_) fun _ => rest none .none _
  exact (hears_body he _).bind fun otherwise es₂ s₂ ho => rest (some otherwise) (.some ho) s₂

theorem hears_beginBlock (hk : s.current.kind = .keyword .beginKw) :
    Hears stream (beginBlock (expression levels)) s TracedNode := by
  unfold beginBlock
  refine .currentSpan (.pass (by rw [hk]; rfl) ?_)
  refine (hears_body he _).bind fun protected_ es s₁ hp => ?_
  refine (hears_rescueTail he hp).bind fun form es' s₂ hf => ?_
  refine .expect rfl fun s => .previousSpan (.pure ?_)
  rwa [List.append_nil]

/-! ### Conditionals and loops -/

omit he in
theorem hears_skipThen : Hears stream skipThen s Nothing := by
  unfold skipThen
  exact .skipNewlines fun s => .ifEat rfl (fun _ => .skipsNewlines) fun _ => .pure rfl

theorem hears_elseClause :
    Hears stream (elseClause (expression levels)) s TracedOptional := by
  unfold elseClause
  refine .ifEat rfl (fun _ => ?_) fun _ => .pure .none
  refine (hears_body he _).bind fun body es s₁ hb => .pure ?_
  rw [List.append_nil]
  exact .some hb

theorem hears_branch : Hears stream (branch (expression levels)) s TracedBranch := by
  unfold branch
  refine (he s).bind fun condition es s₁ hc => hears_skipThen.andThen fun _ s₂ => ?_
  refine (hears_body he _).bind fun statements es' s₃ hb => .pure ?_
  rw [List.append_nil]
  exact .mk hc hb

theorem hears_ifBlock (hk : s.current.kind = .keyword .ifKw) :
    Hears stream (ifBlock (expression levels)) s TracedNode := by
  unfold ifBlock
  refine .currentSpan (.word hk rfl ((hears_branch he).bind fun first es s₁ hfirst => ?_))
  have one : TracedBranches [first] (.word :: es) := TracedBranches.concat .nil hfirst
  refine Hears.bind (Q := fun branches es' => TracedBranches branches (.word :: es ++ es'))
    (.repeating (I := fun done es => TracedBranches done.reverse es) (fun done es s h => ?_) one)
    fun branches es' s₂ hb => ?_
  · refine .eat (fun hk => ?_) fun _ => .pure (by rwa [List.append_nil])
    refine .word hk rfl ((hears_branch he).bind fun b es' s₁ hb => .pure ?_)
    show TracedBranches (b :: done).reverse _
    rw [List.append_nil, List.reverse_cons]
    exact h.concat hb
  · refine (hears_elseClause he).bind fun otherwise es'' s₃ ho => .expect rfl fun s => ?_
    refine .previousSpan (.pure ?_)
    rw [List.append_nil, ← List.append_assoc, ← List.cons_append]
    exact .conditional hb ho

theorem hears_unlessBlock (hk : s.current.kind = .keyword .unlessKw) :
    Hears stream (unlessBlock (expression levels)) s TracedNode := by
  unfold unlessBlock
  refine .currentSpan (.word hk rfl ((he _).bind fun condition es s₁ hc => ?_))
  refine hears_skipThen.andThen fun _ s₂ => ?_
  refine (hears_body he _).bind fun statements es' s₃ hb => ?_
  refine (hears_elseClause he).bind fun otherwise es'' s₄ ho => .expect rfl fun s => ?_
  refine .previousSpan (.pure ?_)
  have one : TracedBranches [⟨negate condition, statements⟩] (.word :: (es ++ es')) :=
    TracedBranches.concat .nil (.mk hc.negate hb)
  have whole := Traced.conditional one ho
  rw [List.cons_append, List.append_assoc] at whole
  rwa [List.append_nil]

theorem hears_loopBlock (loop : LoopKind) {word : Keyword}
    (hk : s.current.kind = .keyword word) (leading : isLeading word = true) :
    Hears stream (loopBlock (expression levels) loop) s TracedNode := by
  unfold loopBlock
  refine .currentSpan (.word hk leading ?_)
  refine (Hears.withDoBlocks (he _)).bind fun condition es s₁ hc => ?_
  refine .andThen ?_ fun _ s₂ => ?_
  · exact .eat (fun h => .pass (by rw [h]; rfl) (.pure rfl)) fun _ => .pure rfl
  refine (hears_body he _).bind fun statements es' s₃ hb => .expect rfl fun s => ?_
  refine .previousSpan (.pure ?_)
  rw [List.append_nil]
  exact .loop hc hb

/-! ### Classes and modules -/

omit he in
theorem hears_rejectScoped : Hears stream rejectScoped s Nothing := by
  unfold rejectScoped
  exact .ifAt (fun _ => .of_none rfl) fun _ => .pure rfl

theorem hears_namespaceBody :
    Hears stream (namespaceBody (expression levels)) s fun body es =>
      ∃ es', TracedAll body es' ∧ es = .enter true :: (es' ++ [.leave]) := by
  unfold namespaceBody
  refine Hears.bind (Q := fun body es => ∃ es', TracedAll body es'
    ∧ es = .enter true :: (es' ++ [.leave])) (.inScope ?_) fun body es s₁ hb => ?_
  · exact (hears_body he _).mono fun body es hb => ⟨es, hb, rfl⟩
  · exact .expect rfl fun s => .pure (by rwa [List.append_nil])

theorem hears_classBlock (hk : s.current.kind = .keyword .classKw) :
    Hears stream (classBlock (expression levels)) s TracedNode := by
  unfold classBlock
  refine .currentSpan (.pass (by rw [hk]; rfl) (.ifAt (fun _ => .of_none rfl) fun _ => ?_))
  refine .expectConstant fun name s => hears_rejectScoped.andThen fun _ s => ?_
  extract_lets jp
  have rest (superclass : Option String) (s : State) :
      Hears stream (jp superclass) s TracedNode := by
    refine (hears_namespaceBody he).bind ?_
    rintro body _ s₁ ⟨es, hb, rfl⟩
    refine .previousSpan (.pure ?_)
    rw [List.append_nil]
    exact .classDef hb
  refine .ifEat rfl (fun _ => ?_) fun _ => rest none _
  refine .expectConstant fun superclass s => hears_rejectScoped.andThen fun _ s => ?_
  exact rest (some superclass) s

theorem hears_moduleBlock (hk : s.current.kind = .keyword .moduleKw) :
    Hears stream (moduleBlock (expression levels)) s TracedNode := by
  unfold moduleBlock
  refine .currentSpan (.pass (by rw [hk]; rfl) ?_)
  refine .expectConstant fun name s => hears_rejectScoped.andThen fun _ s => ?_
  refine (hears_namespaceBody he).bind ?_
  rintro body _ s₁ ⟨es, hb, rfl⟩
  refine .previousSpan (.pure ?_)
  rw [List.append_nil]
  exact .moduleDef hb

/-! ### Methods -/

omit he in
theorem hears_writerMark : Hears stream writerMark s Nothing := by
  unfold writerMark
  refine .at_ (.spaceBefore ?_)
  split
  · next h =>
    rw [Bool.and_eq_true, decide_eq_true_eq] at h
    exact .pass (by rw [h.1]; rfl) (.pure rfl)
  · exact .pure rfl

omit he in
/-- A name, and perhaps the mark of a writer after it. -/
theorem hears_written {name writer : String} {es : List Event} (hn : Spelled name es)
    (hw : Spelled writer es) :
    Hears stream (do return if ← writerMark then writer else name : Parser String) s
      fun name es' => Spelled name (es ++ es') := by
  refine hears_writerMark.andThen fun written s => .pure ?_
  cases written <;> rwa [List.append_nil]

omit he in
theorem hears_definedName : Hears stream definedName s Spelled := by
  unfold definedName
  refine .kind (.followingKind ?_)
  split
  · next _ _ name hk =>
    have hn : methodName? s.current.kind = some name := by rw [hk]; rfl
    exact .spelled hn fun es hn => hears_written hn hn.writer
  · next _ _ hk =>
    refine .pass (by rw [hk]; rfl) (.expect rfl fun s => ?_)
    have index : Spelled "[]" [] := .other
    exact hears_written index .other
  · next _ _ hk hk' =>
    refine .from_ fun hs => .pass (by rw [hk]; rfl) (.pass ?_ (.pure .other))
    rw [hs.current_next (hk ▸ nofun), hk']
    rfl
  · split
    · next name hn =>
      refine .spelled hn fun es hn => .pure ?_
      rwa [List.append_nil]
    · exact .reject _

omit he in
theorem hears_methodParams :
    Hears stream methodParams s fun names es => Bound (names.map Param.name) es := by
  unfold methodParams
  refine .ifEat rfl (fun _ => ?_) fun _ => ?_
  · refine .skipNewlines fun s => ?_
    extract_lets jp
    have rest (names : List Param) {es : List Event} (h : Bound (names.map Param.name) es)
        (s : State) : Hears stream (jp names) s fun names es' =>
          Bound (names.map Param.name) (es ++ es') := by
      refine .skipNewlines fun s => .expect rfl fun s => .pure ?_
      rwa [List.append_nil]
    refine .ifAt (fun _ => rest [] .nil _) fun _ => ?_
    exact (hears_params _).bind fun names es s h => rest names h s
  · refine .at_ (.at_ ?_)
    split
    · exact .pure .nil
    · exact hears_params _

theorem hears_methodRest (start : Span) {owner : Option String} {name : String}
    {es₁ es₂ : List Event} (ho : Owned owner es₁) (hn : Spelled name es₂) :
    Hears stream (methodRest (expression levels) start owner name) s fun node es =>
      TracedNode node (.word :: (es₁ ++ (es₂ ++ (.enter true :: (es ++ [.leave]))))) := by
  unfold methodRest
  refine hears_methodParams.bind fun params es₃ s₁ hp => ?_
  refine (hears_body he _).bind fun statements es₄ s₂ hb => .at_ (.at_ ?_)
  extract_lets jp
  have rest {statements : Body} {es : List Event} (hb : TracedAll statements es) (s : State) :
      Hears stream (jp statements) s fun node es' => TracedNode node
        (.word :: (es₁ ++ (es₂ ++ (.enter true :: (es₃ ++ (es ++ es') ++ [.leave]))))) := by
    refine .expect rfl fun s => .previousSpan (.pure ?_)
    rw [List.append_nil]
    exact .methodDef ho hn hp hb
  split
  · refine (hears_rescueTail he hb).bind fun form es₅ s₃ hf => .previousSpan ?_
    have one {span : Span} : TracedAll [⟨form, span⟩] (es₄ ++ es₅) := .one hf
    exact (rest one s₃).mono fun node es h => by rwa [List.append_assoc es₄] at h
  · exact rest hb s₂

omit he in
theorem owner_cases {k k' : Token.Kind} {name : String} (h : owner? k k' = some name) :
    k' = .punct .dot ∧ (isQuiet k = true ∨ k = .identifier name) := by
  unfold owner? at h
  split at h
  · exact ⟨rfl, .inl rfl⟩
  · exact ⟨rfl, .inl rfl⟩
  · cases h
    exact ⟨rfl, .inr rfl⟩
  · cases h

omit he in
/-- The owner of a method and the point after it are passed, if there is an owner. -/
theorem hears_owner {f : Unit → Parser Node} {post : Node → List Event → Prop}
    (h : ∀ es s', Owned (owner? s.current.kind s.following.kind) es →
      Hears stream (f ()) s' fun node es' => post node (es ++ es')) :
    Hears stream (if (owner? s.current.kind s.following.kind).isSome = true then
        Parse.advance >>= fun _ => Parse.advance >>= f else f ()) s post := by
  cases ho : owner? s.current.kind s.following.kind with
  | none =>
    rw [ho] at h
    exact h [] s .nobody
  | some name =>
    rw [ho] at h
    obtain ⟨dot, hk⟩ := owner_cases ho
    refine .from_ fun hs => ?_
    rw [Option.isSome_some, if_pos rfl]
    rcases hk with quiet | hk
    · have going : s.current.kind ≠ .endOfInput := by
        intro hk
        rw [hk] at ho
        cases ho
      refine .pass quiet (.point ?_ (h [.point] _ .other))
      rw [hs.current_next going]
      exact .inl dot
    · refine .mention .named hk nofun trivial (.point ?_ ?_)
      · rw [hs.current_next (hk ▸ nofun)]
        exact .inl dot
      · exact h [.mention (mentionAt s name) .named, .point] _ (.name (mentionAt s name))

theorem hears_methodBlock (hk : s.current.kind = .keyword .defKw) :
    Hears stream (methodBlock (expression levels)) s TracedNode := by
  unfold methodBlock
  refine .currentSpan (.word hk rfl (.kind (.followingKind ?_)))
  refine hears_owner fun es s' ho => hears_definedName.bind fun name es' s₁ hn => .inScope ?_
  exact hears_methodRest he _ ho hn

end Expressions

end ScriptCompiler.Resolution
