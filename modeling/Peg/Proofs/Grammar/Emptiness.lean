import Peg.Engine.Action

/-!
# What may match the empty text

A rule that goes by the form of an expression alone and errs on the side of the empty text. It is
the least such rule, so that an expression that refers to itself is only taken for possibly empty
if there is a reason apart from the reference.
-/
namespace Peg

/-- Whether a terminal may match without going on. One that never matches may not. -/
def Terminal.mayBeEmpty : Terminal → Bool
  | literal text | insensitive text => text.isEmpty
  | skipChars count => count == 0
  | charRange .. | any | newline | alwaysFail => false
  | startOfInput | endOfInput | skipUntil .. | empty => true
  | peek | pop | peekAll | popAll | peekSlice .. | drop => true

/-- An expression may match the empty text, as far as its form tells. -/
inductive PossiblyEmpty (env : Env) : Expr → Prop
  | terminal {leaf : Terminal} : leaf.mayBeEmpty = true → PossiblyEmpty env (.terminal leaf)
  | seq {first : Expr} {rest : List Expr} :
      (∀ part ∈ first :: rest, PossiblyEmpty env part) → PossiblyEmpty env (.seq first rest)
  | choice {first part : Expr} {rest : List Expr} :
      part ∈ first :: rest → PossiblyEmpty env part → PossiblyEmpty env (.choice first rest)
  | opt {body : Expr} : PossiblyEmpty env (.opt body)
  | repNone {body : Expr} {max : Option Nat} : PossiblyEmpty env (.rep body 0 max)
  | rep {body : Expr} {min : Nat} {max : Option Nat} :
      PossiblyEmpty env body → PossiblyEmpty env (.rep body min max)
  | positive {body : Expr} : PossiblyEmpty env (.positive body)
  | negative {body : Expr} : PossiblyEmpty env (.negative body)
  | restorable {body : Expr} : PossiblyEmpty env body → PossiblyEmpty env (.restorable body)
  | push {body : Expr} : PossiblyEmpty env body → PossiblyEmpty env (.push body)
  | rule {tag : Nat} {name : String} {kind : RuleKind} {body : Expr} :
      PossiblyEmpty env body → PossiblyEmpty env (.rule tag name kind body)
  | ref {name : String} {target : Expr} :
      env.rules.lookup name = some target → PossiblyEmpty env target →
      PossiblyEmpty env (.ref name)
  | lazy {cell : LazyCell} {target : Expr} :
      env.definitions.resolve cell = .ok target → PossiblyEmpty env target →
      PossiblyEmpty env (.lazy cell)
  | ignored : PossiblyEmpty env .ignored
  | pair {body : Expr} : PossiblyEmpty env body → PossiblyEmpty env (.pair body)

end Peg
