import LangCheck.Grammar.Tables
import LangCheck.Proofs.Grammar.Passing
import LangCheck.Syntax.Program

/-!
# How programs are written

The productions of the grammar, as rules that tell which lists of tokens spell which trees
(`Expr.Spelled`, `Stmt.Spelled`, `Program.Spelled`).  The texts of tokens count only for names,
numbers and strings.  There is one freedom: an else block that holds exactly one `if` is written in
braces, or as that `if` directly behind the `else`.

The rules are given a `Placement`, which tells the spans that a node may have.  With `Placement.free`
only the shape of the tree counts; with `Placement.tight` each node spans the tokens that it is
written with, as in a tree that was read from them.
-/

namespace LangCheck

/-- Which spans a node may have, given the tokens that it is written with. -/
abbrev Placement := List Token → Span → Prop

namespace Placement

/-- Every span will do. -/
def free : Placement := fun _ _ => True

/-- A node spans its tokens, from the first to the last. -/
def tight : Placement := fun ts span => span = .covering ts

end Placement

/-! ## Operators, types and literals -/

/-- The kind of token that a binary operator is written with. -/
def BinaryOp.kind : BinaryOp → Kind
  | add => .plus
  | subtract => .minus
  | multiply => .star
  | divide => .slash
  | modulo => .percent
  | less => .less
  | lessEqual => .lessEqual
  | greater => .greater
  | greaterEqual => .greaterEqual
  | equal => .equal
  | notEqual => .notEqual
  | and => .and
  | or => .or

namespace UnaryOp

/-- The kind of token that an operator of one operand is written with. -/
def kind : UnaryOp → Kind
  | not => .not
  | negate => .minus
  | preIncrement | postIncrement => .plusPlus
  | preDecrement | postDecrement => .minusMinus

/-- Whether an operator is written behind its operand. -/
def isPostfix : UnaryOp → Bool
  | not | negate | preIncrement | preDecrement => false
  | postIncrement | postDecrement => true

end UnaryOp

/-- The kind of token that an assignment operator is written with. -/
def AssignOp.kind : AssignOp → Kind
  | assign => .assign
  | add => .plusAssign
  | subtract => .minusAssign
  | multiply => .starAssign
  | divide => .slashAssign
  | modulo => .percentAssign
  | increment => .plusPlus
  | decrement => .minusMinus

/-- The word that a type is written with.  The unknown type cannot be written. -/
def Ty.kind? : Ty → Option Kind
  | int => some .intWord
  | float => some .floatWord
  | double => some .doubleWord
  | string => some .stringWord
  | bool => some .boolWord
  | void => some .voidWord
  | unknown => none

namespace Literal

/-- A token is the literal. -/
def Spelled (t : Token) : Literal → Prop
  | number text => t.kind = .number ∧ t.text = text
  | string text => t.kind = .text ∧ t.text = text
  | bool true => t.kind = .trueWord
  | bool false => t.kind = .falseWord

/-- What stands behind the minus sign of a number that begins with one. -/
def negated? : Literal → Option String
  | number text => match text.toList with
    | '-' :: rest => some (String.ofList rest)
    | _ => none
  | _ => none

lemma negated?_eq_some_iff {value : Literal} {text : String} :
    value.negated? = some text ↔ value = .number ("-" ++ text) := by
  cases value with
  | number whole =>
    have hwhole : whole = "-" ++ text ↔ whole.toList = '-' :: text.toList := by
      rw [← String.toList_inj]
      simp
    rw [number.injEq, hwhole, negated?]
    split
    · next rest hrest =>
      rw [hrest, Option.some.injEq, List.cons.injEq, ← String.toList_inj, String.toList_ofList]
      simp
    · next hne =>
      simp only [reduceCtorEq, false_iff]
      exact fun heq => hne _ heq
  | _ => simp [negated?]

end Literal

/-! ## Expressions -/

mutual

/-- Tokens spell an expression. -/
inductive Expr.Spelled (P : Placement) : List Token → Expr → Prop
  | literal {t : Token} {value : Literal} {span : Span} :
      value.Spelled t → P [t] span → Expr.Spelled P [t] (.literal value span)
  | symbol {t : Token} {span : Span} :
      t.kind = .name → P [t] span → Expr.Spelled P [t] (.symbol t.text span)
  | call {name opened closed : Token} {ts : List Token} {es : List Expr} {span : Span} :
      name.kind = .name → opened.kind = .openParen → Expr.ArgumentsSpelled P ts es →
      closed.kind = .closeParen → P (name :: opened :: (ts ++ [closed])) span →
        Expr.Spelled P (name :: opened :: (ts ++ [closed])) (.call name.text es span)
  | group {opened closed : Token} {ts : List Token} {e : Expr} {span : Span} :
      opened.kind = .openParen → Expr.Spelled P ts e → closed.kind = .closeParen →
      P (opened :: (ts ++ [closed])) span →
        Expr.Spelled P (opened :: (ts ++ [closed])) (.group e span)
  | sign {op : UnaryOp} {t : Token} {ts : List Token} {e : Expr} {span : Span} :
      op.isPostfix = false → t.kind = op.kind → Expr.Spelled P ts e → P (t :: ts) span →
        Expr.Spelled P (t :: ts) (.unary op e span)
  | step {op : UnaryOp} {t : Token} {ts : List Token} {e : Expr} {span : Span} :
      op.isPostfix = true → Expr.Spelled P ts e → t.kind = op.kind → P (ts ++ [t]) span →
        Expr.Spelled P (ts ++ [t]) (.unary op e span)
  | binary {op : BinaryOp} {t : Token} {ts us : List Token} {left right : Expr} {span : Span} :
      Expr.Spelled P ts left → t.kind = op.kind → Expr.Spelled P us right → P (ts ++ t :: us) span →
        Expr.Spelled P (ts ++ t :: us) (.binary op left right span)

/-- Tokens spell the arguments of a call: expressions with commas between them. -/
inductive Expr.ArgumentsSpelled (P : Placement) : List Token → List Expr → Prop
  | none : Expr.ArgumentsSpelled P [] []
  | last {ts : List Token} {e : Expr} : Expr.Spelled P ts e → Expr.ArgumentsSpelled P ts [e]
  | more {ts us : List Token} {comma : Token} {e f : Expr} {es : List Expr} :
      Expr.Spelled P ts e → comma.kind = .comma → Expr.ArgumentsSpelled P us (f :: es) →
        Expr.ArgumentsSpelled P (ts ++ comma :: us) (e :: f :: es)

end

/-- Tokens spell an expression, or there is none and there are no tokens. -/
def Expr.SpelledIfAny (P : Placement) (ts : List Token) : Option Expr → Prop
  | none => ts = []
  | some e => e.Spelled P ts

/-! ## Declarations and assignments -/

/-- Tokens are the word `const`, or there are none. -/
def ConstSpelled (ts : List Token) : Bool → Prop
  | true => ∃ t, ts = [t] ∧ t.kind = .constWord
  | false => ts = []

/-- Tokens are an equals sign and an expression, or there are none. -/
def InitializerSpelled (P : Placement) (ts : List Token) : Option Expr → Prop
  | none => ts = []
  | some e => ∃ t us, ts = t :: us ∧ t.kind = .assign ∧ e.Spelled P us

/-- Tokens spell a declaration, the semicolon left out. -/
inductive VarDecl.Spelled (P : Placement) : List Token → VarDecl → Prop
  | intro {cs vs : List Token} {word name : Token} {isConst : Bool} {ty : Ty} {value : Option Expr}
      {span : Span} :
      ConstSpelled cs isConst → ty.kind? = some word.kind → name.kind = .name →
      InitializerSpelled P vs value → P (cs ++ word :: name :: vs) span →
        VarDecl.Spelled P (cs ++ word :: name :: vs) ⟨name.text, ty, isConst, value, span⟩

/-- Tokens spell an assignment, the semicolon left out. -/
inductive Assignment.Spelled (P : Placement) : List Token → Assignment → Prop
  | value {name t : Token} {us : List Token} {op : AssignOp} {e : Expr} {span : Span} :
      name.kind = .name → t.kind = op.kind → op.takesValue = true → e.Spelled P us →
      P (name :: t :: us) span → Assignment.Spelled P (name :: t :: us) ⟨name.text, op, some e, span⟩
  | step {name t : Token} {op : AssignOp} {span : Span} :
      name.kind = .name → t.kind = op.kind → op.takesValue = false →
      P [name, t] span → Assignment.Spelled P [name, t] ⟨name.text, op, none, span⟩

/-! ## Statements -/

/-- Tokens are a word and a condition in parentheses. -/
inductive ConditionSpelled (P : Placement) (word : Kind) : List Token → Expr → Prop
  | intro {first opened closed : Token} {ts : List Token} {e : Expr} :
      first.kind = word → opened.kind = .openParen → e.Spelled P ts → closed.kind = .closeParen →
        ConditionSpelled P word (first :: opened :: (ts ++ [closed])) e

/-- Tokens spell what the header of a `for` begins with. -/
inductive InitSpelled (P : Placement) : List Token → Option Stmt → Prop
  | none : InitSpelled P [] none
  | declaration {ts : List Token} {d : VarDecl} :
      d.Spelled P ts → InitSpelled P ts (some (.declaration d))
  | assignment {ts : List Token} {a : Assignment} :
      a.Spelled P ts → InitSpelled P ts (some (.assignment a))

/-- Tokens spell what the header of a `for` ends with. -/
inductive UpdateSpelled (P : Placement) : List Token → Option Stmt → Prop
  | none : UpdateSpelled P [] none
  | assignment {ts : List Token} {a : Assignment} :
      a.Spelled P ts → UpdateSpelled P ts (some (.assignment a))

/-- Tokens are the header of a `for`. -/
inductive ForSpelled (P : Placement) :
    List Token → Option Stmt → Option Expr → Option Stmt → Prop
  | intro {first opened second third closed : Token} {is ts us : List Token} {init : Option Stmt}
      {condition : Option Expr} {update : Option Stmt} :
      first.kind = .forWord → opened.kind = .openParen → InitSpelled P is init →
      second.kind = .semicolon → Expr.SpelledIfAny P ts condition → third.kind = .semicolon →
      UpdateSpelled P us update → closed.kind = .closeParen →
        ForSpelled P (first :: opened :: (is ++ second :: (ts ++ third :: (us ++ [closed]))))
          init condition update

/-- Whether a statement is an `if`. -/
def Stmt.isConditional : Stmt → Bool
  | conditional .. => true
  | _ => false

mutual

/-- Tokens spell a statement. -/
inductive Stmt.Spelled (P : Placement) : List Token → Stmt → Prop
  | declaration {ts : List Token} {d : VarDecl} {semicolon : Token} :
      d.Spelled P ts → semicolon.kind = .semicolon →
        Stmt.Spelled P (ts ++ [semicolon]) (.declaration d)
  | assignment {ts : List Token} {a : Assignment} {semicolon : Token} :
      a.Spelled P ts → semicolon.kind = .semicolon →
        Stmt.Spelled P (ts ++ [semicolon]) (.assignment a)
  | call {ts : List Token} {callee : String} {arguments : List Expr} {span : Span}
      {semicolon : Token} :
      Expr.Spelled P ts (.call callee arguments span) → semicolon.kind = .semicolon →
        Stmt.Spelled P (ts ++ [semicolon]) (.call ⟨callee, arguments, span⟩)
  | returning {word semicolon : Token} {ts : List Token} {value : Option Expr} {span : Span} :
      word.kind = .returnWord → Expr.SpelledIfAny P ts value → semicolon.kind = .semicolon →
      P (word :: (ts ++ [semicolon])) span →
        Stmt.Spelled P (word :: (ts ++ [semicolon])) (.returning value span)
  | conditional {hs ts us : List Token} {condition : Expr} {thenBlock : Block}
      {elseBlock : Option Block} {span : Span} :
      ConditionSpelled P .ifWord hs condition → BlockOf.Spelled P ts thenBlock →
      Stmt.ElseSpelled P us elseBlock → P (hs ++ (ts ++ us)) span →
        Stmt.Spelled P (hs ++ (ts ++ us)) (.conditional condition thenBlock elseBlock span)
  | whileLoop {hs ts : List Token} {condition : Expr} {body : Block} {span : Span} :
      ConditionSpelled P .whileWord hs condition → BlockOf.Spelled P ts body → P (hs ++ ts) span →
        Stmt.Spelled P (hs ++ ts) (.whileLoop condition body span)
  | forLoop {hs ts : List Token} {init : Option Stmt} {condition : Option Expr}
      {update : Option Stmt} {body : Block} {span : Span} :
      ForSpelled P hs init condition update → BlockOf.Spelled P ts body → P (hs ++ ts) span →
        Stmt.Spelled P (hs ++ ts) (.forLoop init condition update body span)

/-- Tokens spell an else part, or there is none.  A block that holds one `if` may be written without
braces. -/
inductive Stmt.ElseSpelled (P : Placement) : List Token → Option Block → Prop
  | none : Stmt.ElseSpelled P [] none
  | block {word : Token} {ts : List Token} {b : Block} :
      word.kind = .elseWord → BlockOf.Spelled P ts b → Stmt.ElseSpelled P (word :: ts) (some b)
  | nested {word : Token} {ts : List Token} {s : Stmt} {span : Span} :
      word.kind = .elseWord → s.isConditional = true → Stmt.Spelled P ts s → P ts span →
        Stmt.ElseSpelled P (word :: ts) (some ⟨[s], span⟩)

/-- Tokens spell a block. -/
inductive BlockOf.Spelled (P : Placement) : List Token → Block → Prop
  | intro {opened closed : Token} {ts : List Token} {body : List Stmt} {span : Span} :
      opened.kind = .openBrace → Stmt.AllSpelled P ts body → closed.kind = .closeBrace →
      P (opened :: (ts ++ [closed])) span →
        BlockOf.Spelled P (opened :: (ts ++ [closed])) ⟨body, span⟩

/-- Tokens spell statements, one after the other. -/
inductive Stmt.AllSpelled (P : Placement) : List Token → List Stmt → Prop
  | nil : Stmt.AllSpelled P [] []
  | cons {ts us : List Token} {s : Stmt} {ss : List Stmt} :
      Stmt.Spelled P ts s → Stmt.AllSpelled P us ss → Stmt.AllSpelled P (ts ++ us) (s :: ss)

end

/-! ## Programs -/

/-- Tokens spell a parameter. -/
inductive Parameter.Spelled (P : Placement) : List Token → Parameter → Prop
  | intro {word name : Token} {ty : Ty} {span : Span} :
      ty.kind? = some word.kind → name.kind = .name → P [word, name] span →
        Parameter.Spelled P [word, name] ⟨name.text, ty, span⟩

/-- Tokens spell parameters, with commas between them. -/
inductive ParametersSpelled (P : Placement) : List Token → List Parameter → Prop
  | none : ParametersSpelled P [] []
  | last {ts : List Token} {q : Parameter} : q.Spelled P ts → ParametersSpelled P ts [q]
  | more {ts us : List Token} {comma : Token} {q r : Parameter} {qs : List Parameter} :
      q.Spelled P ts → comma.kind = .comma → ParametersSpelled P us (r :: qs) →
        ParametersSpelled P (ts ++ comma :: us) (q :: r :: qs)

/-- Tokens spell the literal that initialises a global variable.  A number with a minus sign in front
is written as two tokens. -/
inductive Literal.GlobalSpelled : List Token → Literal → Prop
  | literal {t : Token} {value : Literal} :
      value.negated? = none → value.Spelled t → GlobalSpelled [t] value
  | negated {minus number : Token} {value : Literal} :
      value.negated? = some number.text → minus.kind = .minus → number.kind = .number →
        GlobalSpelled [minus, number] value

/-- Tokens are an equals sign and the literal of a global variable, or there are none. -/
def GlobalInitializerSpelled (ts : List Token) : Option Literal → Prop
  | none => ts = []
  | some value => ∃ t us, ts = t :: us ∧ t.kind = .assign ∧ value.GlobalSpelled us

/-- Tokens spell an item. -/
inductive Item.Spelled (P : Placement) : List Token → Item → Prop
  | global {cs vs : List Token} {word name semicolon : Token} {isConst : Bool} {ty : Ty}
      {value : Option Literal} {span : Span} :
      ConstSpelled cs isConst → ty.kind? = some word.kind → name.kind = .name →
      GlobalInitializerSpelled vs value → semicolon.kind = .semicolon →
      P (cs ++ word :: name :: (vs ++ [semicolon])) span →
        Item.Spelled P (cs ++ word :: name :: (vs ++ [semicolon]))
          (.global ⟨name.text, ty, isConst, value, span⟩)
  | function {word name opened closed : Token} {ts us : List Token} {ty : Ty} {qs : List Parameter}
      {body : Block} {span : Span} :
      ty.kind? = some word.kind → name.kind = .name → opened.kind = .openParen →
      ParametersSpelled P ts qs → closed.kind = .closeParen → BlockOf.Spelled P us body →
      P (word :: name :: opened :: (ts ++ closed :: us)) span →
        Item.Spelled P (word :: name :: opened :: (ts ++ closed :: us))
          (.function ⟨name.text, ty, qs, body, span⟩)

/-- Tokens spell items, one after the other. -/
inductive Item.AllSpelled (P : Placement) : List Token → List Item → Prop
  | nil : Item.AllSpelled P [] []
  | cons {ts us : List Token} {item : Item} {items : List Item} :
      item.Spelled P ts → Item.AllSpelled P us items → Item.AllSpelled P (ts ++ us) (item :: items)

/-- Tokens spell a program. -/
def Program.Spelled (p : Program) (ts : List Token) : Prop := Item.AllSpelled .free ts p.items

end LangCheck
