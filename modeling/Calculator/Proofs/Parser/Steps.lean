import Calculator.Parser.Program

/-!
# Running the rules of the parser

What one step of each rule does, and the principle by which a property of all rules is proved: a
relation between steps that the primitive steps keep is kept by every rule.
-/

set_option autoImplicit false

namespace Calculator

/-!
## Sequences of steps
-/

section Sequences

variable {α β : Type} {step : ParserM α} {next : α → ParserM β} {parser after final : Parser}

theorem get_bind_run (next : Parser → ParserM β) (parser : Parser) :
    (get >>= next) parser = next parser parser := rfl

theorem modify_bind_run (change : Parser → Parser) (next : Unit → ParserM β) (parser : Parser) :
    (modify change >>= next) parser = next () (change parser) := rfl

theorem bind_run_ok {value : α} (ran : step parser = .ok value after) :
    (step >>= next) parser = next value after := by
  show EStateM.bind step next parser = _
  simp only [EStateM.bind, ran]

theorem bind_run_error {error : ParseError} (ran : step parser = .error error after) :
    (step >>= next) parser = .error error after := by
  show EStateM.bind step next parser = _
  simp only [EStateM.bind, ran]

theorem bind_run_congr {other : ParserM α} {start : Parser} (same : step parser = other start) :
    (step >>= next) parser = (other >>= next) start := by
  cases ran : step parser with
  | ok value middle => rw [bind_run_ok ran, bind_run_ok (same.symm.trans ran)]
  | error error middle => rw [bind_run_error ran, bind_run_error (same.symm.trans ran)]

theorem bind_run_ok_components {result : β} (ran : (step >>= next) parser = .ok result final) :
    ∃ value middle, step parser = .ok value middle ∧ next value middle = .ok result final := by
  cases first : step parser with
  | ok value middle => exact ⟨value, middle, rfl, by rw [bind_run_ok first] at ran; exact ran⟩
  | error error middle =>
      rw [bind_run_error first] at ran
      cases ran

theorem bind_run_error_cases {error : ParseError}
    (ran : (step >>= next) parser = .error error final) :
    step parser = .error error final ∨
      ∃ value middle, step parser = .ok value middle ∧ next value middle = .error error final := by
  cases first : step parser with
  | ok value middle =>
      rw [bind_run_ok first] at ran
      exact .inr ⟨value, middle, rfl, ran⟩
  | error error middle =>
      rw [bind_run_error first] at ran
      cases ran
      exact .inl rfl

end Sequences

abbrev parseWithin (levels : Nat) : Precedence → ParserM Node :=
  parseNode levels

/-- The parser that a step ends at, whether it succeeds or fails. -/
def Parser.after {α : Type} (step : ParserM α) (parser : Parser) : Parser :=
  match step parser with
  | .ok _ after => after
  | .error _ after => after

/-!
## Primitive steps
-/

section Primitives

variable {parser : Parser}

theorem branch_run_ok {expr : Expr} {tallest : Nat} (fits : tallest < maxNesting) :
    Node.branch (m := ParserM) expr tallest parser =
      .ok { expr, height := tallest + 1 } parser := by
  simp only [Node.branch, fits, ↓reduceIte]
  rfl

theorem branch_run_error {expr : Expr} {tallest : Nat} (tall : ¬ tallest < maxNesting) :
    Node.branch (m := ParserM) expr tallest parser = .error (.tooDeep maxNesting) parser := by
  simp only [Node.branch, tall, ↓reduceIte]
  rfl

theorem nested_run_ok {α : Type} {step : ParserM α} {value : α} {after : Parser}
    (shallow : parser.depth < maxNesting) (ran : step parser.descend = .ok value after) :
    nested step parser = .ok value after.ascend := by
  rw [nested, get_bind_run, if_pos shallow, modify_bind_run]
  simp only [tryFinally, tryFinally', Functor.map, EStateM.map, ran]
  rfl

theorem nested_run_error {α : Type} {step : ParserM α} {error : ParseError} {after : Parser}
    (shallow : parser.depth < maxNesting) (ran : step parser.descend = .error error after) :
    nested step parser = .error error after.ascend := by
  rw [nested, get_bind_run, if_pos shallow, modify_bind_run]
  simp only [tryFinally, tryFinally', Functor.map, EStateM.map, ran]
  rfl

theorem nested_run_refused {α : Type} {step : ParserM α} (deep : ¬ parser.depth < maxNesting) :
    nested step parser = .error (.tooDeep maxNesting) parser := by
  rw [nested, get_bind_run, if_neg deep]
  rfl

theorem nested_run_congr {α : Type} {step other : ParserM α} {parser : Parser}
    (same : step parser.descend = other parser.descend) :
    nested step parser = nested other parser := by
  by_cases shallow : parser.depth < maxNesting
  · cases ran : step parser.descend with
    | ok value after =>
        rw [nested_run_ok shallow ran, nested_run_ok shallow (same.symm.trans ran)]
    | error error after =>
        rw [nested_run_error shallow ran, nested_run_error shallow (same.symm.trans ran)]
  · rw [nested_run_refused shallow, nested_run_refused shallow]

theorem expectClosing_run_ok (closing : parser.lookahead = .rightParen) :
    expectClosing (m := ParserM) parser = .ok () parser.advance := by
  rw [expectClosing, get_bind_run, closing]
  rfl

theorem expectClosing_run_error (other : parser.lookahead ≠ .rightParen) :
    expectClosing (m := ParserM) parser =
      .error (.unexpected ")" parser.lookahead.text) parser := by
  rw [expectClosing, get_bind_run]
  generalize parser.lookahead = token at other
  cases token <;> first | rfl | exact absurd rfl other

end Primitives

/-!
## Rules
-/

section Rules

variable {operand : Precedence → ParserM Node} {parser : Parser}

theorem parseSigned_run (sign : Sign) :
    parseSigned operand sign parser =
      (operand .sign >>= fun node => Node.branch (.signed sign node.expr) node.height)
        parser.advance := rfl

theorem parseGroup_run :
    parseGroup operand parser =
      (operand .lowest >>= fun node => expectClosing >>= fun _ => pure node) parser.advance := rfl

theorem parsePrimary_run :
    parsePrimary operand parser =
      match parser.current with
      | .number value => .ok { expr := .number value, height := 1 } parser
      | .identifier name => .ok { expr := .identifier name, height := 1 } parser
      | .plus => parseSigned operand .plus parser
      | .minus => parseSigned operand .minus parser
      | .leftParen => parseGroup operand parser
      | .illegal text => .error (.illegal text) parser
      | token => .error (.noExpression token.text) parser := by
  rw [parsePrimary, get_bind_run]
  generalize parser.current = token
  cases token <;> rfl

theorem parseBinary_run (left : Node) (operator : Operator) :
    parseBinary operand left operator parser =
      (operand operator.rightPrecedence >>= fun right =>
        Node.branch (.binary left.expr operator right.expr) (max left.height right.height))
        parser.advance := rfl

theorem parseCall_run (function : Node) :
    parseCall operand function parser =
      (parseArguments operand >>= fun (arguments, tallest) =>
        Node.branch (.call function.expr arguments) (max function.height tallest)) parser := rfl

theorem parseExtension_run (left : Node) :
    parseExtension operand left parser =
      match parser.current with
      | .leftParen => parseCall operand left parser
      | token =>
          match Operator.ofToken? token with
          | some operator => parseBinary operand left operator parser
          | none => .error (.noOperator token.text) parser := by
  rw [parseExtension, get_bind_run]
  generalize parser.current = token
  cases token <;> rfl

theorem parseArguments_run_empty (closing : parser.lookahead = .rightParen) :
    parseArguments operand parser = .ok ([], 0) parser.advance := by
  rw [parseArguments, get_bind_run, closing]
  rfl

theorem parseArguments_run (other : parser.lookahead ≠ .rightParen) :
    parseArguments operand parser =
      (parseArgumentsWithin operand parser.tokens [] 0 >>= fun result =>
        expectClosing >>= fun _ => pure result) parser := by
  rw [parseArguments, get_bind_run]
  generalize shape : parser.lookahead = token at other
  cases token <;> first | rfl | exact absurd rfl other

theorem climb_run (threshold : Precedence) (left : Node) :
    climb operand threshold left parser =
      climbWithin operand threshold parser.tokens left parser := rfl

theorem parseClimbing_run (threshold : Precedence) :
    parseClimbing operand threshold parser =
      (parsePrimary operand >>= climb operand threshold) parser := rfl

end Rules

theorem parseExpression_run (threshold : Precedence) (parser : Parser) :
    parseExpression threshold parser =
      (parseWithin maxNesting threshold >>= fun node => pure node.expr) parser := rfl

/-!
## Relations between steps
-/

section Relations

variable {m n : Type → Type}
variable [Monad m] [MonadBuild m] [MonadState Parser m] [MonadExcept ParseError m]
variable [Monad n] [MonadBuild n] [MonadState Parser n] [MonadExcept ParseError n]
variable [MonadFinally m] [MonadFinally n]

/-- A relation between the steps of two monads, or a property of the steps of one, that primitive
steps have and that sequences and nesting keep. -/
structure StepRelation (Related : {α : Type} → m α → n α → Prop) : Prop where
  value {α : Type} (value : α) : Related (pure value) (pure value)
  node (node : Node) : Related (build node) (build node)
  failure {α : Type} (error : ParseError) : Related (α := α) (throw error) (throw error)
  state : Related get get
  advance : Related (modify Parser.advance) (modify Parser.advance)
  sequence {α β : Type} {left : m α} {right : n α} {leftNext : α → m β} {rightNext : α → n β} :
    Related left right → (∀ value, Related (leftNext value) (rightNext value)) →
    Related (left >>= leftNext) (right >>= rightNext)
  inside {α : Type} {left : m α} {right : n α} :
    Related left right → Related (nested left) (nested right)

/-- A relation between steps that is kept by every step that looks at nothing but the tokens. -/
structure TokenRelation (Related : {α : Type} → m α → n α → Prop) : Prop where
  value {α : Type} (value : α) : Related (pure value) (pure value)
  node (node : Node) : Related (build node) (build node)
  failure {α : Type} (error : ParseError) : Related (α := α) (throw error) (throw error)
  look {α : Type} {leftNext : Parser → m α} {rightNext : Parser → n α} :
    (∀ parser, leftNext parser = leftNext { tokens := parser.tokens }) →
    (∀ parser, rightNext parser = rightNext { tokens := parser.tokens }) →
    (∀ parser, Related (leftNext parser) (rightNext parser)) →
    Related (get >>= leftNext) (get >>= rightNext)
  advance : Related (modify Parser.advance) (modify Parser.advance)
  sequence {α β : Type} {left : m α} {right : n α} {leftNext : α → m β} {rightNext : α → n β} :
    Related left right → (∀ value, Related (leftNext value) (rightNext value)) →
    Related (left >>= leftNext) (right >>= rightNext)
  inside {α : Type} {left : m α} {right : n α} :
    Related left right → Related (nested left) (nested right)

theorem StepRelation.onTokens {Related : {α : Type} → m α → n α → Prop}
    (relation : StepRelation @Related) : TokenRelation @Related where
  value := relation.value
  node := relation.node
  failure := relation.failure
  look _ _ alike := relation.sequence relation.state alike
  advance := relation.advance
  sequence := relation.sequence
  inside := relation.inside

/-- A relation between steps that is kept by every step that looks at nothing but the current token
and the lookahead. The loops are bounded by all tokens that are left; they keep it if they do so
under every bound. -/
structure WindowRelation (Related : {α : Type} → m α → n α → Prop) : Prop where
  value {α : Type} (value : α) : Related (pure value) (pure value)
  node (node : Node) : Related (build node) (build node)
  failure {α : Type} (error : ParseError) : Related (α := α) (throw error) (throw error)
  look {α : Type} {leftNext : Parser → m α} {rightNext : Parser → n α} :
    (∀ parser other, parser.current = other.current → parser.lookahead = other.lookahead →
      leftNext parser = leftNext other) →
    (∀ parser other, parser.current = other.current → parser.lookahead = other.lookahead →
      rightNext parser = rightNext other) →
    (∀ parser, Related (leftNext parser) (rightNext parser)) →
    Related (get >>= leftNext) (get >>= rightNext)
  advance : Related (modify Parser.advance) (modify Parser.advance)
  sequence {α β : Type} {left : m α} {right : n α} {leftNext : α → m β} {rightNext : α → n β} :
    Related left right → (∀ value, Related (leftNext value) (rightNext value)) →
    Related (left >>= leftNext) (right >>= rightNext)
  inside {α : Type} {left : m α} {right : n α} :
    Related left right → Related (nested left) (nested right)
  climbing {left : Precedence → m Node} {right : Precedence → n Node} {threshold : Precedence}
    {node : Node} :
    (∀ threshold, Related (left threshold) (right threshold)) →
    (∀ bound, Related (climbWithin left threshold bound node)
      (climbWithin right threshold bound node)) →
    Related (climb left threshold node) (climb right threshold node)
  listing {α : Type} {left : Precedence → m Node} {right : Precedence → n Node}
    {leftNext : List Expr × Nat → m α} {rightNext : List Expr × Nat → n α} :
    (∀ threshold, Related (left threshold) (right threshold)) →
    (∀ bound, Related (parseArgumentsWithin left bound [] 0 >>= leftNext)
      (parseArgumentsWithin right bound [] 0 >>= rightNext)) →
    Related (get >>= fun parser => parseArgumentsWithin left parser.tokens [] 0 >>= leftNext)
      (get >>= fun parser => parseArgumentsWithin right parser.tokens [] 0 >>= rightNext)

theorem TokenRelation.onWindows {Related : {α : Type} → m α → n α → Prop}
    (relation : TokenRelation @Related) : WindowRelation @Related where
  value := relation.value
  node := relation.node
  failure := relation.failure
  look left right alike := relation.look (fun parser => left parser _ rfl rfl)
    (fun parser => right parser _ rfl rfl) alike
  advance := relation.advance
  sequence := relation.sequence
  inside := relation.inside
  climbing _ bounded :=
    relation.look (fun _ => rfl) (fun _ => rfl) fun parser => bounded parser.tokens
  listing _ bounded :=
    relation.look (fun _ => rfl) (fun _ => rfl) fun parser => bounded parser.tokens

namespace WindowRelation

variable {Related : {α : Type} → m α → n α → Prop} (relation : WindowRelation @Related)
include relation

private theorem leaf (expr : Expr) : Related (Node.leaf expr) (Node.leaf expr) :=
  relation.node _

theorem branch (expr : Expr) (tallest : Nat) :
    Related (Node.branch expr tallest) (Node.branch expr tallest) := by
  unfold Node.branch
  split
  · exact relation.node _
  · exact relation.failure _

theorem expectClosing : Related (α := Unit) expectClosing expectClosing := by
  refine relation.look (by intros; simp only [*]) (by intros; simp only [*]) fun parser => ?_
  split
  · exact relation.advance
  · exact relation.failure _

variable (left : Precedence → m Node) (right : Precedence → n Node)
variable (operands : ∀ threshold, Related (left threshold) (right threshold))
include operands

private theorem parseSigned (sign : Sign) :
    Related (parseSigned left sign) (parseSigned right sign) :=
  relation.sequence relation.advance fun _ =>
    relation.sequence (operands .sign) fun _ => relation.branch _ _

private theorem parseGroup : Related (parseGroup left) (parseGroup right) :=
  relation.sequence relation.advance fun _ =>
    relation.sequence (operands .lowest) fun _ =>
      relation.sequence relation.expectClosing fun _ => relation.value _

theorem parsePrimary : Related (parsePrimary left) (parsePrimary right) := by
  refine relation.look (by intros; simp only [*]) (by intros; simp only [*]) fun parser => ?_
  split
  · exact relation.leaf _
  · exact relation.leaf _
  · exact relation.parseSigned left right operands .plus
  · exact relation.parseSigned left right operands .minus
  · exact relation.parseGroup left right operands
  · exact relation.failure _
  · exact relation.failure _

private theorem parseBinary (node : Node) (operator : Operator) :
    Related (parseBinary left node operator) (parseBinary right node operator) :=
  relation.sequence relation.advance fun _ =>
    relation.sequence (operands _) fun _ => relation.branch _ _

private theorem parseArgumentsWithin (bound : List Token) (read : List Expr) (tallest : Nat) :
    Related (parseArgumentsWithin left bound read tallest)
      (parseArgumentsWithin right bound read tallest) := by
  induction bound generalizing read tallest with
  | nil => exact relation.value _
  | cons _ bound ih =>
      refine relation.sequence relation.advance fun _ => ?_
      refine relation.sequence (operands .lowest) fun argument => ?_
      refine relation.look (by intros; simp only [*]) (by intros; simp only [*]) fun parser => ?_
      split
      · exact relation.sequence relation.advance fun _ => ih _ _
      · exact relation.value _

private theorem parseArguments : Related (parseArguments left) (parseArguments right) := by
  refine relation.look (by intros; simp only [*]) (by intros; simp only [*]) fun parser => ?_
  split
  · exact relation.sequence relation.advance fun _ => relation.value _
  · refine relation.listing operands fun bound => ?_
    refine relation.sequence (relation.parseArgumentsWithin left right operands _ _ _)
      fun result => ?_
    exact relation.sequence relation.expectClosing fun _ => relation.value _

private theorem parseCall (function : Node) :
    Related (parseCall left function) (parseCall right function) :=
  relation.sequence (relation.parseArguments left right operands) fun _ => relation.branch _ _

theorem parseExtension (node : Node) :
    Related (parseExtension left node) (parseExtension right node) := by
  refine relation.look (by intros; simp only [*]) (by intros; simp only [*]) fun parser => ?_
  split
  · exact relation.parseCall left right operands node
  · split
    · exact relation.parseBinary left right operands node _
    · exact relation.failure _

private theorem climbWithin (threshold : Precedence) (bound : List Token) (node : Node) :
    Related (climbWithin left threshold bound node) (climbWithin right threshold bound node) := by
  induction bound generalizing node with
  | nil => exact relation.value _
  | cons _ bound ih =>
      refine relation.look (by intros; simp only [*]) (by intros; simp only [*]) fun parser => ?_
      split
      · refine relation.sequence relation.advance fun _ => ?_
        exact relation.sequence (relation.parseExtension left right operands node) ih
      · exact relation.value _

private theorem climb (threshold : Precedence) (node : Node) :
    Related (climb left threshold node) (climb right threshold node) :=
  relation.climbing operands fun bound =>
    relation.climbWithin left right operands threshold bound node

theorem parseClimbing (threshold : Precedence) :
    Related (parseClimbing left threshold) (parseClimbing right threshold) :=
  relation.sequence (relation.parsePrimary left right operands)
    (relation.climb left right operands threshold)

omit operands in
/-- What the primitive steps keep, reading an expression keeps at every level. -/
theorem parseNode (levels : Nat) (threshold : Precedence) :
    Related (parseNode (m := m) levels threshold) (parseNode (m := n) levels threshold) := by
  induction levels generalizing threshold with
  | zero => exact relation.failure _
  | succ levels ih => exact relation.inside (relation.parseClimbing _ _ ih threshold)

end WindowRelation

theorem TokenRelation.parseNode {Related : {α : Type} → m α → n α → Prop}
    (relation : TokenRelation @Related) (levels : Nat) (threshold : Precedence) :
    Related (Calculator.parseNode (m := m) levels threshold)
      (Calculator.parseNode (m := n) levels threshold) :=
  relation.onWindows.parseNode levels threshold

end Relations

/-!
## Where steps lead
-/

/-- A parser that got from one to the other by consuming tokens alone. -/
structure Parser.LeadsTo (start final : Parser) : Prop where
  depth : final.depth = start.depth
  errors : final.errors = start.errors
  tokens : final.tokens <:+ start.tokens

namespace Parser.LeadsTo

theorem refl (parser : Parser) : parser.LeadsTo parser :=
  ⟨rfl, rfl, List.suffix_rfl⟩

theorem trans {start middle final : Parser} (first : start.LeadsTo middle)
    (second : middle.LeadsTo final) : start.LeadsTo final where
  depth := second.depth.trans first.depth
  errors := second.errors.trans first.errors
  tokens := second.tokens.trans first.tokens

theorem advance (parser : Parser) : parser.LeadsTo parser.advance :=
  ⟨rfl, rfl, List.tail_suffix _⟩

end Parser.LeadsTo

/-- A step that consumes tokens and changes nothing else, also when it fails. -/
def ConsumesOnly {α : Type} (step : ParserM α) : Prop :=
  ∀ parser : Parser, parser.LeadsTo (parser.after step)

theorem ConsumesOnly.of_ok {α : Type} {step : ParserM α} {parser after : Parser} {value : α}
    (consumes : ConsumesOnly step) (ran : step parser = .ok value after) :
    parser.LeadsTo after := by
  have leads := consumes parser
  simp only [Parser.after, ran] at leads
  exact leads

theorem ConsumesOnly.of_error {α : Type} {step : ParserM α} {parser after : Parser}
    {error : ParseError} (consumes : ConsumesOnly step) (ran : step parser = .error error after) :
    parser.LeadsTo after := by
  have leads := consumes parser
  simp only [Parser.after, ran] at leads
  exact leads

theorem ConsumesOnly.bind {α β : Type} {step : ParserM α} {next : α → ParserM β}
    (first : ConsumesOnly step) (second : ∀ value, ConsumesOnly (next value)) :
    ConsumesOnly (step >>= next) := by
  intro parser
  cases ran : step parser with
  | ok value middle =>
      have rest := second value middle
      simp only [Parser.after, bind_run_ok ran] at rest ⊢
      exact (first.of_ok ran).trans rest
  | error error middle =>
      simp only [Parser.after, bind_run_error ran]
      exact first.of_error ran

theorem ConsumesOnly.nested {α : Type} {step : ParserM α} (inner : ConsumesOnly step) :
    ConsumesOnly (nested step) := by
  intro parser
  by_cases shallow : parser.depth < maxNesting
  · cases ran : step parser.descend with
    | ok value after =>
        have leads := inner.of_ok ran
        simp only [Parser.after, nested_run_ok shallow ran]
        exact ⟨by simp [Parser.ascend, leads.depth, Parser.descend], leads.errors, leads.tokens⟩
    | error error after =>
        have leads := inner.of_error ran
        simp only [Parser.after, nested_run_error shallow ran]
        exact ⟨by simp [Parser.ascend, leads.depth, Parser.descend], leads.errors, leads.tokens⟩
  · simp only [Parser.after, nested_run_refused shallow]
    exact .refl parser

theorem consumesOnly_relation :
    StepRelation (m := ParserM) (n := ParserM) fun step _ => ConsumesOnly step where
  value _ := .refl
  node _ := .refl
  failure _ := .refl
  state := .refl
  advance := .advance
  sequence := .bind
  inside := .nested

theorem parseWithin_consumesOnly (levels : Nat) (threshold : Precedence) :
    ConsumesOnly (parseWithin levels threshold) :=
  consumesOnly_relation.onTokens.parseNode levels threshold

/-!
## Loops
-/

section Loops

variable {operand : Precedence → ParserM Node}

theorem climbWithin_run_cons (threshold : Precedence) (token : Token) (bound : List Token)
    (left : Node) (parser : Parser) :
    climbWithin operand threshold (token :: bound) left parser =
      if threshold < Precedence.of parser.lookahead then
        (parseExtension operand left >>= climbWithin operand threshold bound) parser.advance
      else
        .ok left parser := by
  rw [climbWithin, get_bind_run]
  split <;> rfl

theorem parseArgumentsWithin_run_cons (token : Token) (bound : List Token) (read : List Expr)
    (tallest : Nat) (parser : Parser) :
    parseArgumentsWithin operand (token :: bound) read tallest parser =
      (operand .lowest >>= fun argument after =>
        match after.lookahead with
        | .comma =>
            parseArgumentsWithin operand bound (argument.expr :: read)
              (max tallest argument.height) after.advance
        | _ => .ok ((argument.expr :: read).reverse, max tallest argument.height) after)
        parser.advance := by
  rw [parseArgumentsWithin, modify_bind_run]
  refine congrFun (congrArg (operand .lowest >>= ·) ?_) _
  funext argument after
  rw [get_bind_run]
  generalize after.lookahead = token
  cases token <;> rfl

theorem not_lt_lowest (threshold : Precedence) : ¬ threshold < Precedence.lowest :=
  Nat.not_lt_zero _

/-- A lookahead that binds at all is a token that is left behind the current one. -/
theorem advance_tokens_length_lt {threshold : Precedence} {parser : Parser}
    (continues : threshold < Precedence.of parser.lookahead) :
    parser.advance.tokens.length < parser.tokens.length := by
  cases shape : parser.tokens with
  | nil =>
      simp only [Parser.lookahead, shape, List.tail_nil, List.headD_nil] at continues
      exact absurd continues (not_lt_lowest threshold)
  | cons token rest => simp [Parser.advance, shape]

theorem climbWithin_run_stop {threshold : Precedence} {left : Node} {parser : Parser}
    (stops : ¬ threshold < Precedence.of parser.lookahead) (bound : List Token) :
    climbWithin operand threshold bound left parser = .ok left parser := by
  cases bound with
  | nil => rfl
  | cons token bound => rw [climbWithin_run_cons, if_neg stops]

theorem climb_run_stop {threshold : Precedence} {left : Node} {parser : Parser}
    (stops : ¬ threshold < Precedence.of parser.lookahead) :
    climb operand threshold left parser = .ok left parser :=
  climbWithin_run_stop stops parser.tokens

variable (consumes : ∀ threshold, ConsumesOnly (operand threshold))
include consumes

theorem parseExtension_consumesOnly (left : Node) : ConsumesOnly (parseExtension operand left) :=
  consumesOnly_relation.onTokens.onWindows.parseExtension operand operand consumes left

/-- A bound with a token for each that is left never ends the loop. -/
theorem climbWithin_run_eq {threshold : Precedence} {left : Node} {parser : Parser}
    {bound other : List Token} (enough : parser.tokens.length ≤ bound.length)
    (otherEnough : parser.tokens.length ≤ other.length) :
    climbWithin operand threshold bound left parser =
      climbWithin operand threshold other left parser := by
  by_cases continues : threshold < Precedence.of parser.lookahead
  · have shorter := advance_tokens_length_lt continues
    induction bound generalizing left parser other with
    | nil => exact absurd (Nat.lt_of_lt_of_le shorter enough) (Nat.not_lt_zero _)
    | cons token bound ih =>
        cases other with
        | nil => exact absurd (Nat.lt_of_lt_of_le shorter otherEnough) (Nat.not_lt_zero _)
        | cons otherToken other =>
            simp only [List.length_cons] at enough otherEnough
            rw [climbWithin_run_cons, climbWithin_run_cons, if_pos continues, if_pos continues]
            cases ran : parseExtension operand left parser.advance with
            | error error after => rw [bind_run_error ran, bind_run_error ran]
            | ok extended after =>
                rw [bind_run_ok ran, bind_run_ok ran]
                have fewer :=
                  ((parseExtension_consumesOnly consumes left).of_ok ran).tokens.length_le
                by_cases further : threshold < Precedence.of after.lookahead
                · exact ih (by omega) (by omega) further (advance_tokens_length_lt further)
                · rw [climbWithin_run_stop further, climbWithin_run_stop further]
  · rw [climbWithin_run_stop continues, climbWithin_run_stop continues]

theorem climb_run_extend {threshold : Precedence} {left : Node} {parser : Parser}
    (continues : threshold < Precedence.of parser.lookahead) :
    climb operand threshold left parser =
      (parseExtension operand left >>= climb operand threshold) parser.advance := by
  have shorter := advance_tokens_length_lt continues
  rw [climb_run]
  cases shape : parser.tokens with
  | nil => exact absurd shorter (by simp [shape])
  | cons token bound =>
      rw [climbWithin_run_cons, if_pos continues]
      cases ran : parseExtension operand left parser.advance with
      | error error after => rw [bind_run_error ran, bind_run_error ran]
      | ok extended after =>
          rw [bind_run_ok ran, bind_run_ok ran, climb_run]
          have fewer := ((parseExtension_consumesOnly consumes left).of_ok ran).tokens.length_le
          refine climbWithin_run_eq consumes ?_ (Nat.le_refl _)
          rw [shape, List.length_cons] at shorter
          omega

end Loops

end Calculator
