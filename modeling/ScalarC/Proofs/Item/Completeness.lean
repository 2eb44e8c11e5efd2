import ScalarC.Proofs.Command.Completeness
import ScalarC.Proofs.Item.Initializers
import ScalarC.Proofs.Item.Soundness

/-!
The parsers of declarations find every program of the grammar. On the tokens of
an item they do what its effect says, whatever stands behind them; items behind
it see of it no more than `exports` says, which for a function is its name and
its types.
-/

namespace ScalarC

open Parse

def State.enter (state : State) (function : Option Enclosing) : State := { state with function }

@[simp] theorem State.enter_scope (state : State) (function : Option Enclosing) :
    (state.enter function).scope = state.scope := rfl

@[simp] theorem State.enter_loopDepth (state : State) (function : Option Enclosing) :
    (state.enter function).loopDepth = state.loopDepth := rfl

namespace Item

def exports : Item → Scope → Scope
  | global constant type name _, scope =>
      let entry : Variable :=
        ⟨name.text, type, if constant then .globalConstant else .globalVariable⟩
      { scope with globals := entry :: scope.globals }
  | function returnType name parameters _, scope =>
      let signature : Signature := ⟨returnType, parameters.map Prod.snd⟩
      ⟨scope.globals, (name.text, signature) :: scope.functions, none⟩

def tag : Item → Tag
  | global .. => .globalVar
  | function .. => .function

/-- What every item leaves where it is accepted: a node of its own kind and name, and what it
exports. -/
structure Leaves (item : Item) (scope : Scope) (found : Node × Scope) : Prop where
  tag : found.1.tag = item.tag
  name : found.1.value = some (.name item.name.text)
  exports : found.2 = item.exports scope

/-- The faults that an item can have though the grammar derives it. -/
inductive Excuses : Item → GrammarFault → Prop where
  | constant {type : DataType} {name : Token} :
      Excuses (.global true type name none) (.constWithoutValue name.text)
  | jump {returnType : Option DataType} {name : Token} {parameters : List (Token × DataType)}
      {body : List Command} {word : String} :
      Command.StraysAmong word body →
      Excuses (.function returnType name parameters body) (.jumpOutsideLoop word)

abbrev Effect := Scope → Except ParseError (Node × Scope)

namespace Effect

def value (constant : Bool) (type : DataType) (name : Token) :
    Option Literal → Except ParseError (List Node)
  | some literal => do
      let node ← literal.node type
      return [node]
  | none =>
      if constant then .error (.malformed (.constWithoutValue name.text) name.location) else .ok []

def global (constant : Bool) (type : DataType) (name : Token) (literal : Option Literal) :
    Effect := fun scope => do
  let entry ← scope.declareGlobal name.text type constant name.location
  let nodes ← value constant type name literal
  return (⟨.globalVar, some (.name name.text), some type, nodes⟩, entry.2)

def parameters : List (Token × DataType) → Scope → Except ParseError Scope
  | [], scope => .ok scope
  | (name, type) :: others, scope => do
      let entry ← scope.declareParameter name.text type name.location
      parameters others entry.2

def function (returnType : Option DataType) (name : Token) (given : List (Token × DataType))
    (body : Command.Effect (List Node)) : Effect := fun scope => do
  let entered ← parameters given scope.enterFunction
  let declared ←
    entered.declareFunction name.text ⟨returnType, given.map Prod.snd⟩ name.location
  let inner ← body ⟨name.text, returnType⟩ 0 declared
  return (⟨.function, some (.name name.text), returnType,
    [⟨.parameters, none, none, given.map parameterNode⟩, ⟨.body, none, none, inner.1⟩]⟩,
    inner.2.exitFunction)

end Effect

structure Does (tokens : List Token) (item : Item) (effect : Effect) : Prop where
  declaration {state : State} {rest : List Token} : state.function = none →
    state.loopDepth = 0 → state.unread = tokens ++ rest →
    outcome Declaration.declaration state =
      effect state.scope >>= fun found => .ok (found.1, state.past rest found.2)
  admits {allowed : ParseError → Prop} : (∀ error, error.IsSemantic → allowed error) →
    (∀ token ∈ tokens, token.kind = .number → Literal.Tolerated allowed token.text) →
    (∀ fault, item.Excuses fault → ∀ place, allowed (.malformed fault place)) →
    ∀ scope, Admissible allowed (item.Leaves scope) (effect scope)

/-! Changes of the scope or the function alone. -/

theorem declare_past (declaration : Scope → Except ParseError (Variable × Scope))
    (state : State) :
    outcome (declare declaration) state =
      declaration state.scope >>= fun declared =>
        .ok ((), state.past state.unread declared.2) := by
  rw [outcome_declare]
  rfl

theorem setScope_past (scope : Scope) (state : State) :
    outcome (setScope scope) state = .ok ((), state.past state.unread scope) := rfl

theorem setEnclosing_enter (function : Option Enclosing) (state : State) :
    outcome (setEnclosing function) state = .ok ((), state.enter function) := rfl

/-! Global variables. -/

theorem value_performs {tokens rest : List Token} {literal : Option Literal} {semicolon : Token}
    {state : State} (isValue : Value tokens literal)
    (isEnd : semicolon.toLexeme = .punctuation ";")
    (unread : state.unread = tokens ++ semicolon :: rest) (name : Token) (type : DataType)
    (constant : Bool) :
    outcome (Declaration.globalValue name type constant) state =
      Effect.value constant type name literal >>= fun nodes =>
        .ok (nodes, state.behind (semicolon :: rest)) := by
  cases isValue with
  | none =>
      have next : state.next = semicolon := State.next_cons unread
      have unset : outcome (accept (.operator "=")) state = .ok (false, state) :=
        outcome_accept_other (by rw [next, isEnd]; decide)
      have same : state.behind (semicolon :: rest) = state := State.past_self unread
      cases constant <;> simp [Declaration.globalValue, unset, Effect.value, same]
  | @plain mark number isMark isNumber =>
      have set := outcome_accept
        (show state.unread = mark :: number :: semicolon :: rest from unread) isMark
      have performs := (Constant.plain isNumber).initializer_performs
        (state.behind_unread (number :: semicolon :: rest)) type
      simp [Declaration.globalValue, set, performs, Effect.value]
  | @negative mark minus number isMark isMinus isNumber =>
      have set := outcome_accept
        (show state.unread = mark :: minus :: number :: semicolon :: rest from unread) isMark
      have performs := (Constant.negative isMinus isNumber).initializer_performs
        (state.behind_unread (minus :: number :: semicolon :: rest)) type
      simp [Declaration.globalValue, set, performs, Effect.value]

theorem value_opens {tokens : List Token} {literal : Option Literal} {semicolon : Token}
    (isValue : Value tokens literal) (isEnd : semicolon.toLexeme = .punctuation ";")
    (rest : List Token) :
    ∃ token others, tokens ++ semicolon :: rest = token :: others ∧
      token.toLexeme ≠ .punctuation "(" := by
  cases isValue with
  | none => exact ⟨_, _, rfl, by rw [isEnd]; decide⟩
  | plain isMark | negative isMark => exact ⟨_, _, rfl, by rw [isMark]; decide⟩

theorem global_performs {word name semicolon : Token} {type : DataType} {tokens rest : List Token}
    {literal : Option Literal} {constant : Bool} {state : State} (names : word.Declares type)
    (isName : name.kind = .identifier) (isValue : Value tokens literal)
    (isEnd : semicolon.toLexeme = .punctuation ";")
    (begun : outcome (accept (.keyword "const")) state =
      .ok (constant, state.behind (word :: name :: (tokens ++ semicolon :: rest)))) :
    outcome Declaration.global state =
      Effect.global constant type name literal state.scope >>= fun found =>
        .ok (found.1, state.past rest found.2) := by
  have typed := Command.declaredType_of_declares
    (state.behind_unread (word :: name :: (tokens ++ semicolon :: rest))) names isName
  have named := Command.outcome_expectIdentifier
    (state.behind_unread (name :: (tokens ++ semicolon :: rest))) isName
  obtain ⟨token, others, opens, noFunction⟩ := value_opens isValue isEnd rest
  have next : (state.behind (tokens ++ semicolon :: rest)).next = token := by
    rw [opens]
    rfl
  have valued (scope : Scope) := value_performs isValue isEnd
    (state.past_unread (tokens ++ semicolon :: rest) scope) name type constant
  have ended (scope : Scope) := outcome_expect (state.past_unread (semicolon :: rest) scope) isEnd
    "after global declaration"
  simp [-outcome_declare, declare_past, Declaration.global, begun, typed, named, next, noFunction,
    valued, expectPunctuation, ended, Effect.global]

theorem set_admissible {allowed : ParseError → Prop}
    (semantic : ∀ error, error.IsSemantic → allowed error) {literal : Literal}
    (tolerated : Literal.Tolerated allowed literal.text) {constant : Bool} {type : DataType}
    {name : Token} :
    Admissible allowed (fun _ => True) (Effect.value constant type name (some literal)) :=
  (Literal.node_admissible (ParseError.IsTyping.allowed semantic) tolerated type).bind
    fun _ _ => .intro

theorem global_admits {allowed : ParseError → Prop}
    (semantic : ∀ error, error.IsSemantic → allowed error) {tokens : List Token}
    {literal : Option Literal} (isValue : Value tokens literal)
    (numbers : ∀ token ∈ tokens, token.kind = .number → Literal.Tolerated allowed token.text)
    {constant : Bool} {type : DataType} {name : Token}
    (excused : ∀ fault, (Item.global constant type name literal).Excuses fault →
      ∀ place, allowed (.malformed fault place)) (scope : Scope) :
    Admissible allowed ((Item.global constant type name literal).Leaves scope)
      (Effect.global constant type name literal scope) := by
  have declared : Admissible allowed
      (fun found => found.2 = (Item.global constant type name literal).exports scope)
      (scope.declareGlobal name.text type constant name.location) :=
    Scope.declareGlobal_admissible semantic ..
  refine declared.bind fun entry exported => ?_
  have valued : Admissible allowed (fun _ => True) (Effect.value constant type name literal) := by
    cases isValue with
    | none =>
        cases constant with
        | false => trivial
        | true => exact excused _ .constant _
    | plain _ isNumber | negative _ _ isNumber =>
        refine set_admissible semantic ?_
        exact numbers _ (by simp) isNumber
  refine valued.bind fun nodes _ => ?_
  exact ⟨rfl, rfl, exported⟩

theorem declaration_names {word : Token} {type : DataType} (names : word.Declares type) :
    word.isStatementWord = false ∧ word.toLexeme ≠ .keyword "const" ∧
      word.toLexeme ≠ .keyword "void" := by
  obtain ⟨opensNothing, other⟩ :=
    Command.typeWords_open_nothing _ (Command.declares_word names)
  simp only [List.mem_cons, not_or] at other
  refine ⟨by simp [Lexeme.isStatementWord, opensNothing], fun same => other.1 ?_,
    fun same => other.2.1 ?_⟩
  · rw [same]; rfl
  · rw [same]; rfl

theorem does_global {word name semicolon : Token} {type : DataType} {tokens : List Token}
    {literal : Option Literal} (names : word.Declares type) (isName : name.kind = .identifier)
    (isValue : Value tokens literal) (isEnd : semicolon.toLexeme = .punctuation ";") :
    Does (word :: name :: tokens ++ [semicolon]) (.global false type name literal)
      (.global false type name literal) := by
  refine ⟨fun {state rest} _ _ unread => ?_, fun semantic numbers excused =>
    global_admits semantic isValue (fun token member => numbers token (by simp [member])) excused⟩
  have spread : state.unread = word :: name :: (tokens ++ semicolon :: rest) := by
    simpa using unread
  have next := State.next_cons spread
  obtain ⟨noStatement, noConst, _⟩ := declaration_names names
  obtain ⟨token, others, opens, noFunction⟩ := value_opens isValue isEnd rest
  have begun : outcome (accept (.keyword "const")) state =
      .ok (false, state.behind (word :: name :: (tokens ++ semicolon :: rest))) := by
    rw [outcome_accept_other (next.symm ▸ noConst), ← spread, State.behind_self]
  rw [← global_performs names isName isValue isEnd begun]
  simp [Declaration.declaration, next, noStatement, noConst, spread, opens, noFunction]

theorem does_constant {first word name semicolon : Token} {type : DataType} {tokens : List Token}
    {literal : Option Literal} (isConst : first.toLexeme = .keyword "const")
    (names : word.Declares type) (isName : name.kind = .identifier)
    (isValue : Value tokens literal) (isEnd : semicolon.toLexeme = .punctuation ";") :
    Does (first :: word :: name :: tokens ++ [semicolon]) (.global true type name literal)
      (.global true type name literal) := by
  refine ⟨fun {state rest} _ _ unread => ?_, fun semantic numbers excused =>
    global_admits semantic isValue (fun token member => numbers token (by simp [member])) excused⟩
  have spread : state.unread = first :: word :: name :: (tokens ++ semicolon :: rest) := by
    simpa using unread
  have noStatement : (Lexeme.keyword "const").isStatementWord = false := rfl
  rw [← global_performs names isName isValue isEnd (outcome_accept spread isConst)]
  simp [Declaration.declaration, State.next_cons spread, noStatement, isConst]

/-! Functions. -/

theorem parameterList_performs {tokens : List Token} {given : List (Token × DataType)}
    (listed : Listed Token.Declares tokens given) {bound : Nat} {state : State} {closing : Token}
    {rest : List Token} (enough : tokens.length ≤ bound)
    (unread : state.unread = tokens ++ closing :: rest)
    (isClosing : closing.toLexeme = .punctuation ")") :
    outcome (Declaration.parameterList bound) state =
      Effect.parameters given state.scope >>= fun scope =>
        .ok (given.map (fun parameter => (parameter.1.text, parameter.2)),
          state.past (closing :: rest) scope) := by
  induction listed generalizing bound state with
  | @last word name type names isName =>
      obtain ⟨bound, rfl⟩ := Nat.exists_eq_succ_of_ne_zero (show bound ≠ 0 by simp at enough; omega)
      have spread : state.unread = word :: name :: closing :: rest := unread
      have typed := Command.declaredType_of_declares spread names isName
      have named := Command.outcome_expectIdentifier
        (state.behind_unread (name :: closing :: rest)) isName
      have ends (scope : Scope) : outcome (accept (.punctuation ","))
          (state.past (closing :: rest) scope) = .ok (false, state.past (closing :: rest) scope) :=
        outcome_accept_other (by rw [State.next_past_cons, isClosing]; decide)
      simp [-outcome_declare, declare_past, Declaration.parameterList, typed, named, ends,
        Effect.parameters]
  | @further word name comma type tokens parameters names isName isComma _ ih =>
      simp only [List.length_cons] at enough
      obtain ⟨bound, rfl⟩ := Nat.exists_eq_succ_of_ne_zero (show bound ≠ 0 by omega)
      have spread : state.unread = word :: name :: comma :: (tokens ++ closing :: rest) := unread
      have typed := Command.declaredType_of_declares spread names isName
      have named := Command.outcome_expectIdentifier
        (state.behind_unread (name :: comma :: (tokens ++ closing :: rest))) isName
      have goes (scope : Scope) :=
        outcome_accept (state.past_unread (comma :: (tokens ++ closing :: rest)) scope) isComma
      have others (scope : Scope) := ih (show _ ≤ bound by omega)
        (state.past_unread (tokens ++ closing :: rest) scope)
      simp [-outcome_declare, declare_past, Declaration.parameterList, typed, named, goes, others,
        Effect.parameters]

theorem Listed.start {names : Token → DataType → Prop} {tokens : List Token}
    {given : List (Token × DataType)} (listed : Listed names tokens given) :
    ∃ word others type, tokens = word :: others ∧ names word type := by
  cases listed with
  | last names | further names => exact ⟨_, _, _, rfl, names⟩

theorem parameters_performs {tokens : List Token} {given : List (Token × DataType)}
    (isList : Parameters Token.Declares tokens given) {state : State} {closing : Token}
    {rest : List Token} (unread : state.unread = tokens ++ closing :: rest)
    (isClosing : closing.toLexeme = .punctuation ")") :
    outcome Declaration.parameters state =
      Effect.parameters given state.scope >>= fun scope =>
        .ok (given.map (fun parameter => (parameter.1.text, parameter.2)),
          state.past (closing :: rest) scope) := by
  cases isList with
  | none =>
      have next : state.next = closing := State.next_cons unread
      have same := State.past_self (show state.unread = closing :: rest from unread)
      simp [Declaration.parameters, next, isClosing, Effect.parameters, same]
  | @void word isVoid =>
      have spread : state.unread = word :: closing :: rest := unread
      simp [Declaration.parameters, State.next_cons spread, isVoid, spread, isClosing,
        outcome_advance spread, Effect.parameters, State.behind_eq_past]
  | listed listed =>
      have performs := parameterList_performs listed
        (show _ ≤ state.unread.length by simp [unread]) unread isClosing
      obtain ⟨word, others, type, rfl, names⟩ := listed.start
      have next : state.next = word := State.next_cons unread
      have noClosing := Command.declares_not_mark names ")"
      have noVoid := (declaration_names names).2.2
      simp [Declaration.parameters, next, noClosing, noVoid, performs]

theorem returnType_performs {state : State} {word name : Token} {rest : List Token}
    {returnType : Option DataType} (returns : Returns Token.Declares word returnType)
    (isName : name.kind = .identifier) (unread : state.unread = word :: name :: rest) :
    outcome Declaration.returnType state = .ok (returnType, state.behind (name :: rest)) := by
  cases returns with
  | void isVoid => simp [Declaration.returnType, outcome_accept unread isVoid]
  | type names =>
      have other : state.next.toLexeme ≠ .keyword "void" := by
        rw [State.next_cons unread]
        exact (declaration_names names).2.2
      simp [Declaration.returnType, outcome_accept_other other,
        Command.declaredType_of_declares unread names isName]

theorem functionBody_performs {state : State} {left right : Token} {tokens rest : List Token}
    {body : List Command} {effect : Command.Effect (List Node)} (outside : state.function = none)
    (isLeft : left.toLexeme = .punctuation "\x7b") (all : Command.DoesAll tokens body effect)
    (isRight : right.toLexeme = .punctuation "\x7d")
    (unread : state.unread = left :: (tokens ++ right :: rest)) (enclosing : Enclosing) :
    outcome (Declaration.functionBody enclosing) state =
      effect enclosing state.loopDepth state.scope >>= fun found =>
        .ok (found.1, state.past rest found.2) := by
  have spread : (state.enter (some enclosing)).unread = left :: (tokens ++ right :: rest) := unread
  have opened := outcome_expect spread isLeft "before function body"
  have inside : ((state.enter (some enclosing)).behind (tokens ++ right :: rest)).function =
      some enclosing := rfl
  have ran := all.braced (Command.covers_statement tokens.length) (Nat.le_refl _) inside rfl isRight
    "after function body"
  have closed (scope : Scope) :
      ((state.enter (some enclosing)).past rest scope).enter none = state.past rest scope := by
    rw [← outside]
    rfl
  rw [Command.Performs] at ran
  simp [-outcome_setEnclosing, setEnclosing_enter, Declaration.functionBody, expectPunctuation,
    opened, ran, closed]

theorem parameters_admissible {allowed : ParseError → Prop}
    (semantic : ∀ error, error.IsSemantic → allowed error) {scope : Scope}
    (framed : scope.locals.isSome = true) (given : List (Token × DataType)) :
    Admissible allowed scope.Continues (Effect.parameters given scope) := by
  induction given generalizing scope with
  | nil => exact .refl framed
  | cons parameter given ih =>
      have declared : Admissible allowed (fun entry => scope.Continues entry.2)
          (scope.declareParameter parameter.1.text parameter.2 parameter.1.location) :=
        Command.Effect.declareInFunction_admissible semantic framed ..
      exact declared.bind fun _ goes => (ih goes.framed).mono fun _ rest => goes.trans rest

theorem function_admits {allowed : ParseError → Prop}
    (semantic : ∀ error, error.IsSemantic → allowed error) {body : List Command}
    {effect : Command.Effect (List Node)}
    (admits : effect.Admits allowed (Command.StraysAmong · body)) {returnType : Option DataType}
    {name : Token} {parameters : List (Token × DataType)}
    (excused : ∀ fault, (function returnType name parameters body).Excuses fault →
      ∀ place, allowed (.malformed fault place)) (scope : Scope) :
    Admissible allowed ((function returnType name parameters body).Leaves scope)
      (Effect.function returnType name parameters effect scope) := by
  have framed : scope.enterFunction.locals.isSome = true := rfl
  refine (parameters_admissible semantic framed parameters).bind ?_
  intro entered enters
  have declared := Scope.declareFunction_admissible semantic entered name.text
    ⟨returnType, parameters.map Prod.snd⟩ name.location
  refine declared.bind fun after same => ?_
  have framed : after.locals.isSome = true := by
    rw [same]
    exact enters.framed
  refine (admits _ _ _ framed fun _ word among => excused _ (.jump among)).bind fun found goes => ?_
  refine ⟨rfl, rfl, ?_⟩
  -- Only the function itself is new in the module.
  change found.2.exitFunction = _
  rw [Scope.exitFunction, goes.globals, goes.functions, same]
  simp only [enters.globals, enters.functions]
  rfl

theorem does_function {word name opening closing left right : Token} {returnType : Option DataType}
    {given tokens : List Token} {parameters : List (Token × DataType)} {body : List Command}
    {effect : Command.Effect (List Node)} (returns : Returns Token.Declares word returnType)
    (isName : name.kind = .identifier) (isOpening : opening.toLexeme = .punctuation "(")
    (isList : Parameters Token.Declares given parameters)
    (isClosing : closing.toLexeme = .punctuation ")") (isLeft : left.toLexeme = .punctuation "\x7b")
    (all : Command.DoesAll tokens body effect) (isRight : right.toLexeme = .punctuation "\x7d") :
    Does (word :: name :: opening :: given ++ closing :: left :: tokens ++ [right])
      (.function returnType name parameters body)
      (.function returnType name parameters effect) := by
  refine ⟨fun {state rest} outside noLoop unread => ?_, fun semantic numbers excused =>
    function_admits semantic (all.admits semantic ?_) excused⟩
  · have spread : state.unread =
        word :: name :: opening :: (given ++ closing :: left :: (tokens ++ right :: rest)) := by
      simpa using unread
    have returned := returnType_performs returns isName spread
    have named := Command.outcome_expectIdentifier (state.behind_unread
      (name :: opening :: (given ++ closing :: left :: (tokens ++ right :: rest)))) isName
    have opened := outcome_expect (state.behind_unread
      (opening :: (given ++ closing :: left :: (tokens ++ right :: rest)))) isOpening
      "after function name"
    have listed (scope : Scope) := parameters_performs isList
      (state.past_unread (given ++ closing :: left :: (tokens ++ right :: rest)) scope) isClosing
    have closed (scope : Scope) := outcome_expect
      (state.past_unread (closing :: left :: (tokens ++ right :: rest)) scope) isClosing
      "after parameters"
    have ran (scope : Scope) (enclosing : Enclosing) := functionBody_performs
      (show (state.past (left :: (tokens ++ right :: rest)) scope).function = none from outside)
      isLeft all isRight rfl enclosing
    have dispatched :
        outcome Declaration.declaration state = outcome Declaration.function state := by
      have next : state.next = word := State.next_cons spread
      have plain : word.isStatementWord = false ∧ word.toLexeme ≠ .keyword "const" := by
        cases returns with
        | void isVoid =>
            rw [isVoid]
            decide
        | type names => exact ⟨(declaration_names names).1, (declaration_names names).2.1⟩
      simp [Declaration.declaration, next, plain, spread, isOpening]
    rw [dispatched]
    simp [-outcome_setScope, setScope_past, Declaration.function, Declaration.enterFunction,
      Declaration.exitFunction, Declaration.declareFunction, returned, named, expectPunctuation,
      opened, listed, closed, ran, Effect.function, noLoop, Function.comp_def]
    rfl
  · exact fun token member => numbers token (by simp [member])

/-- What a derivation promises of the parser of declarations. -/
theorem Derives.does {tokens : List Token} {item : Item}
    (derives : Derives Token.Declares tokens item) : ∃ effect, Does tokens item effect := by
  cases derives with
  | global names isName isValue isEnd => exact ⟨_, does_global names isName isValue isEnd⟩
  | constant isConst names isName isValue isEnd =>
      exact ⟨_, does_constant isConst names isName isValue isEnd⟩
  | function returns isName isOpening isList isClosing isLeft derives isRight =>
      obtain ⟨_, all⟩ := Command.runs_of_derives derives
      exact ⟨_, does_function returns isName isOpening isList isClosing isLeft all isRight⟩

end Item

namespace Program

abbrev Effect := Scope → Except ParseError (List Node × Scope)

def Effect.further (first : Item.Effect) (others : Effect) : Effect := fun scope => do
  let one ← first scope
  let more ← others one.2
  return (one.1 :: more.1, more.2)

theorem declarations_nothing (bound : Nat) {state : State} (nothing : state.unread = []) :
    outcome (declarations bound) state = .ok ([], state) := by
  cases bound <;> simp [declarations, nothing]

theorem declarations_bound {first second : Nat} {state : State} (outside : state.function = none)
    (noLoop : state.loopDepth = 0) (enough : state.unread.length ≤ first)
    (also : state.unread.length ≤ second) :
    outcome (declarations first) state = outcome (declarations second) state := by
  induction first generalizing second state with
  | zero =>
      have nothing : state.unread = [] := List.length_eq_zero_iff.mp (Nat.le_zero.mp enough)
      rw [declarations_nothing _ nothing, declarations_nothing _ nothing]
  | succ first ih =>
      cases second with
      | zero =>
          have nothing : state.unread = [] := List.length_eq_zero_iff.mp (Nat.le_zero.mp also)
          rw [declarations_nothing _ nothing, declarations_nothing _ nothing]
      | succ second =>
          simp only [declarations, outcome_bind, outcome_unreadCount, ok_bind, outcome_ite]
          split
          · rfl
          cases done : outcome Declaration.declaration state with
          | error error => rfl
          | ok found =>
              obtain ⟨tokens, item, passes, derives, _⟩ :=
                Item.declaration_reads outside noLoop done
              -- An item takes a token at least.
              have progress := List.length_pos_iff.mpr derives.ne_nil
              have length := congrArg List.length passes.unread
              rw [List.length_append] at length
              have same := ih (passes.function.trans outside) (passes.loopDepth.trans noLoop)
                (show _ ≤ first by omega) (show _ ≤ second by omega)
              simp [same]

structure Does (tokens : List Token) (items : List Item) (effect : Effect) : Prop where
  declarations {bound : Nat} {state : State} {rest : List Token} : state.function = none →
    state.loopDepth = 0 → state.unread = tokens ++ rest → state.unread.length ≤ bound →
    outcome (Program.declarations bound) state = effect state.scope >>= fun found =>
      outcome (Program.declarations bound) (state.past rest found.2) >>= fun others =>
        .ok (found.1 ++ others.1, others.2)
  admits {allowed : ParseError → Prop} : (∀ error, error.IsSemantic → allowed error) →
    (∀ token ∈ tokens, token.kind = .number → Literal.Tolerated allowed token.text) →
    (∀ item ∈ items, ∀ fault, item.Excuses fault → ∀ place, allowed (.malformed fault place)) →
    ∀ scope, Admissible allowed (fun _ => True) (effect scope)

theorem does_nil : Does [] [] fun scope => .ok ([], scope) := by
  refine ⟨fun {bound state rest} _ _ unread _ => ?_, fun _ _ _ _ => .intro⟩
  have same := State.past_self (show state.unread = rest from unread)
  cases done : outcome (declarations bound) state <;> simp [same, done]

theorem does_cons {first others : List Token} {item : Item} {items : List Item}
    {effect : Item.Effect} {further : Effect} (some : first ≠ [])
    (one : item.Does first effect) (more : Does others items further) :
    Does (first ++ others) (item :: items) (.further effect further) := by
  refine ⟨fun {bound state rest} outside noLoop unread enough => ?_,
    fun semantic numbers excused scope => ?_⟩
  · have present := List.length_pos_iff.mpr some
    rw [List.append_assoc] at unread
    have length := congrArg List.length unread
    simp only [List.length_append] at length
    obtain ⟨bound, rfl⟩ := Nat.exists_eq_succ_of_ne_zero (show bound ≠ 0 by omega)
    have left : state.unread ≠ [] := by
      intro nothing
      simp [nothing] at length
      omega
    have step : outcome (declarations (bound + 1)) state =
        outcome Declaration.declaration state >>= fun found =>
          outcome (declarations bound) found.2 >>= fun others =>
            .ok (found.1 :: others.1, others.2) := by
      simp [declarations, left]
    have ran := one.declaration outside noLoop unread
    -- One of the bound is used up, which is still enough.
    have bounded (scope : Scope) :
        outcome (declarations bound) (state.past (others ++ rest) scope) =
          outcome (declarations (bound + 1)) (state.past (others ++ rest) scope) :=
      declarations_bound outside noLoop (by simp; omega) (by simp; omega)
    have rested (scope : Scope) :
        outcome (declarations (bound + 1)) (state.past (others ++ rest) scope) = _ :=
      more.declarations outside noLoop rfl (by simp; omega)
    rw [step, ran]
    simp [bounded, rested, Effect.further]
  · obtain ⟨inFirst, inOthers⟩ := List.forall_mem_append.mp numbers
    obtain ⟨excusesOne, excusesMore⟩ := List.forall_mem_cons.mp excused
    refine (one.admits semantic inFirst excusesOne scope).bind fun found _ => ?_
    exact (more.admits semantic inOthers excusesMore found.2).bind fun _ _ => .intro

theorem Derives.does {tokens : List Token} {items : List Item}
    (derives : Derives Token.Declares tokens items) : ∃ effect, Does tokens items effect := by
  induction derives with
  | nil => exact ⟨_, does_nil⟩
  | cons first _ ih =>
      obtain ⟨_, one⟩ := first.does
      obtain ⟨_, more⟩ := ih
      exact ⟨_, does_cons first.ne_nil one more⟩

end Program

def State.before (tokens : List Token) (finish : Token) (closes : finish.kind = .endOfInput) :
    State :=
  ⟨tokens, finish, Scope.empty, none, 0, closes⟩

theorem State.ofTokens_closed {tokens : List Token} {finish : Token}
    (closes : finish.kind = .endOfInput) (inner : ∀ token ∈ tokens, token.kind ≠ .endOfInput) :
    State.ofTokens (tokens ++ [finish]) = .ok (State.before tokens finish closes) := by
  have none : tokens.reverse.find? (fun token => token.kind = .endOfInput) = none := by
    simpa using inner
  simp [State.ofTokens, none, closes, State.before]

namespace Program

theorem parse_closed {tokens : List Token} {finish : Token} (closes : finish.kind = .endOfInput)
    (inner : ∀ token ∈ tokens, token.kind ≠ .endOfInput) {bound : Nat}
    (enough : tokens.length ≤ bound) :
    parse (tokens ++ [finish]) =
      outcome (declarations bound) (State.before tokens finish closes) >>= fun found =>
        .ok ⟨.module, none, none, found.1⟩ := by
  have bounded : outcome (declarations tokens.length) (State.before tokens finish closes) = _ :=
    declarations_bound rfl rfl (Nat.le_refl _) enough
  have ran : outcome Program.module (State.before tokens finish closes) =
      outcome (declarations bound) (State.before tokens finish closes) >>= fun found =>
        .ok (⟨.module, none, none, found.1⟩, found.2) := by
    simp only [Program.module, outcome_bind, outcome_unreadCount, ok_bind, outcome_pure]
    rw [← bounded]
    rfl
  have read : parse (tokens ++ [finish]) =
      outcome Program.module (State.before tokens finish closes) >>= fun found =>
        .ok found.1 := by
    rw [parse_eq_outcome, State.ofTokens_closed closes inner, ok_bind]
  rw [read, ran, bind_assoc]
  rfl

/-- The tree of a program is what its items do and what is read behind them in their scope. -/
theorem Does.parse_append {tokens rest : List Token} {items : List Item} {effect : Effect}
    (does : Does tokens items effect) {finish : Token} (closes : finish.kind = .endOfInput)
    (inner : ∀ token ∈ tokens ++ rest, token.kind ≠ .endOfInput) {bound : Nat}
    (enough : (tokens ++ rest).length ≤ bound) :
    parse (tokens ++ rest ++ [finish]) = effect Scope.empty >>= fun known =>
      outcome (Program.declarations bound) ((State.before rest finish closes).past rest known.2)
        >>= fun others => .ok ⟨.module, none, none, known.1 ++ others.1⟩ := by
  have ran :
      outcome (Program.declarations bound) (State.before (tokens ++ rest) finish closes) = _ :=
    Does.declarations does rfl rfl rfl enough
  rw [parse_closed closes inner enough, ran]
  simp only [bind_assoc, ok_bind]
  rfl

theorem Does.parse_all {tokens : List Token} {items : List Item} {effect : Effect}
    (does : Does tokens items effect) {finish : Token} (closes : finish.kind = .endOfInput)
    (inner : ∀ token ∈ tokens, token.kind ≠ .endOfInput) :
    parse (tokens ++ [finish]) = effect Scope.empty >>= fun found =>
      .ok ⟨.module, none, none, found.1⟩ := by
  have read := does.parse_append closes (show ∀ token ∈ tokens ++ [], _ by simpa using inner)
    (show _ ≤ tokens.length by simp)
  simpa [declarations_nothing _ (State.past_unread _ _ _)] using read

end Program

end ScalarC
