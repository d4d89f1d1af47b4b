import ComputedField.Operator
import ComputedField.Token.Basic
import ComputedField.Value.Basic

/-!
# Expressions

The tree of a formula. Every node keeps the token it came from, for diagnostics, and a note of the
caller's choice: nothing after reading, the static type after checking.
-/

set_option autoImplicit false

namespace ComputedField

/-- What every node carries beside its form. -/
structure Tag (α : Type) where
  token : Token
  note : α
deriving DecidableEq, Repr, Inhabited

/-- Expressions whose nodes are noted with an `α`. -/
inductive Expr (α : Type) where
  | literal (tag : Tag α) (value : Literal)
  | var (tag : Tag α) (name : String)
  | unary (tag : Tag α) (op : UnaryOp) (operand : Expr α)
  | binary (tag : Tag α) (op : BinaryOp) (left right : Expr α)
  | assignment (tag : Tag α) (target value : Expr α)
  | conditional (tag : Tag α) (condition onTrue onFalse : Expr α)
  | element (tag : Tag α) (array index : Expr α)
  | call (tag : Tag α) (name : String) (arguments : List (Expr α))
  /-- statements, whose last one gives the value -/
  | sequence (tag : Tag α) (statements : List (Expr α))
deriving Repr, Inhabited

/-- An expression as it was read. -/
abbrev RawExpr := Expr Unit

/-- An expression whose nodes are noted with their static types. -/
abbrev TypedExpr := Expr (Option Ty)

namespace Expr

variable {α β : Type}

def tag : Expr α → Tag α
  | literal t _ | var t _ | unary t _ _ | binary t _ _ _ | assignment t _ _
  | conditional t _ _ _ | element t _ _ | call t _ _ | sequence t _ => t

def token (e : Expr α) : Token := e.tag.token

def pos (e : Expr α) : Position := e.token.pos

/-- The static type; unknown where only null can come out. -/
def type (e : TypedExpr) : Option Ty := e.tag.note

/-- The same node with another tag. -/
def withTag (t : Tag α) : Expr α → Expr α
  | literal _ v => literal t v
  | var _ x => var t x
  | unary _ op x => unary t op x
  | binary _ op l r => binary t op l r
  | assignment _ x v => assignment t x v
  | conditional _ c x y => conditional t c x y
  | element _ a i => element t a i
  | call _ f as => call t f as
  | sequence _ ss => sequence t ss

/-- The same node with another note. -/
def withNote (e : Expr α) (note : α) : Expr α := e.withTag { e.tag with note }

def literal? : Expr α → Option Literal
  | literal _ v => some v
  | _ => none

def isNullLiteral (e : Expr α) : Bool := e.literal? == some .null

/-- How tightly the node holds together when it is written. A negative number binds like the sign
that it is written with. -/
def precedence : Expr α → Nat
  | literal _ v => if v.isNegative then Precedence.unary else Precedence.primary
  | var .. | element .. | call .. | unary _ .group _ => Precedence.primary
  | unary .. => Precedence.unary
  | binary _ op _ _ => op.precedence
  | assignment .. => Precedence.assignment
  | conditional .. => Precedence.conditional
  | sequence .. => Precedence.sequence

/-! ## Places and effects -/

/-- A variable, or elements taken from one. -/
def isPlace : Expr α → Bool
  | var .. => true
  | element _ a _ => a.isPlace
  | _ => false

/-- The place that an assignment to this expression writes. Parentheses are looked through, and an
assignment stands for the place of its right side. -/
def target? : Expr α → Option (Expr α)
  | e@(var ..) => some e
  | e@(element _ a _) => if a.isPlace then some e else none
  | unary _ .group x => x.target?
  | assignment _ _ v => v.target?
  | _ => none

/-- The variable that a place is, or takes its elements from. -/
def root? : Expr α → Option (Tag α × String)
  | var t x => some (t, x)
  | element _ a _ => a.root?
  | _ => none

def isAssignment : Expr α → Bool
  | assignment .. => true
  | _ => false

mutual

/-- Sure neither to fail nor to change anything. Calls and assignments may have effects; division,
remainder and power may fail. -/
def isPure : Expr α → Bool
  | literal .. | var .. => true
  | unary _ _ x => x.isPure
  | binary _ op l r => !op.mayFail && l.isPure && r.isPure
  | element _ a i => a.isPure && i.isPure
  | conditional _ c x y => c.isPure && x.isPure && y.isPure
  | sequence _ ss => arePure ss
  | assignment .. | call .. => false

def arePure : List (Expr α) → Bool
  | [] => true
  | e :: es => e.isPure && arePure es

end

/-! ## Comparing trees -/

mutual

/-- The same tree up to tokens and notes. Literals are compared as values. -/
def sameShape : Expr α → Expr β → Bool
  | literal _ v, literal _ w => v.same w
  | var _ x, var _ y => x == y
  | unary _ o x, unary _ p y => o == p && x.sameShape y
  | binary _ o l r, binary _ p l' r' => o == p && l.sameShape l' && r.sameShape r'
  | assignment _ x v, assignment _ y w => x.sameShape y && v.sameShape w
  | conditional _ c x y, conditional _ c' x' y' =>
    c.sameShape c' && x.sameShape x' && y.sameShape y'
  | element _ a i, element _ b j => a.sameShape b && i.sameShape j
  | call _ f as, call _ g bs => f == g && sameShapes as bs
  | sequence _ ss, sequence _ ts => sameShapes ss ts
  | _, _ => false

def sameShapes : List (Expr α) → List (Expr β) → Bool
  | [], [] => true
  | a :: as, b :: bs => a.sameShape b && sameShapes as bs
  | _, _ => false

end

mutual

/-- The node and all below it, each with its depth, a node before its children. -/
def nodesFrom (depth : Nat) : Expr α → List (Nat × Expr α)
  | e@(literal ..) | e@(var ..) => [(depth, e)]
  | e@(unary _ _ x) => (depth, e) :: x.nodesFrom (depth + 1)
  | e@(binary _ _ l r) => (depth, e) :: (l.nodesFrom (depth + 1) ++ r.nodesFrom (depth + 1))
  | e@(assignment _ x v) => (depth, e) :: (x.nodesFrom (depth + 1) ++ v.nodesFrom (depth + 1))
  | e@(conditional _ c x y) =>
    (depth, e) :: (c.nodesFrom (depth + 1) ++ x.nodesFrom (depth + 1) ++ y.nodesFrom (depth + 1))
  | e@(element _ a i) => (depth, e) :: (a.nodesFrom (depth + 1) ++ i.nodesFrom (depth + 1))
  | e@(call _ _ as) => (depth, e) :: listNodesFrom (depth + 1) as
  | e@(sequence _ ss) => (depth, e) :: listNodesFrom (depth + 1) ss

def listNodesFrom (depth : Nat) : List (Expr α) → List (Nat × Expr α)
  | [] => []
  | e :: es => e.nodesFrom depth ++ listNodesFrom depth es

end

/-- All nodes with their depths, the root first and at depth zero. -/
def nodes (e : Expr α) : List (Nat × Expr α) := e.nodesFrom 0

/-- The tokens of all nodes. -/
def tokens (e : Expr α) : List Token := e.nodes.map fun n => n.2.token

/-- The same tree, tokens included. -/
def identical (a b : Expr α) : Bool := a.sameShape b && a.tokens == b.tokens

/-- A place has a variable at its root. -/
theorem isSome_root? (e : Expr α) : e.root?.isSome = e.isPlace := by
  fun_induction root? e <;> simp_all [isPlace]

@[simp] theorem tag_withTag (t : Tag α) (e : Expr α) : (e.withTag t).tag = t := by
  cases e <;> rfl

@[simp] theorem type_withNote (t : Option Ty) (e : TypedExpr) : (e.withNote t).type = t := by
  simp [withNote, type]

@[simp] theorem token_withNote (note : α) (e : Expr α) : (e.withNote note).token = e.token := by
  simp [withNote, token]

end Expr

end ComputedField
