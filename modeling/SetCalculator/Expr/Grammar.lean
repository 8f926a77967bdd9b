import SetCalculator.Expr
import SetCalculator.Registry
import SetCalculator.Token

/-!
# The grammar of programs

`Spells registry tokens e` says that a sequence of tokens is the program of an
expression. It is the grammar that `Expr.ofTokens` reads, stated without a
reader: a file name spells the loading of that source, and between the brackets
of a call stand the name of a function of the registry and what spells the
arguments, of which there is at least one. What the brackets look like does not
matter.
-/

namespace SetCalculator

mutual

/-- The tokens are the program of the expression. -/
inductive Spells (registry : Registry) : List Token → Expr → Prop where
  | load (source : String) : Spells registry [.fileName source] (.load source)
  | call {name : String} {f : SetFunction} {tokens : List Token}
      {args : List Expr} (opening closing : String)
      (known : registry.get? name = some f) (some_arg : args ≠ [])
      (spelled : SpellsAll registry tokens args) :
      Spells registry
        (⟨.callStart, opening⟩ :: .functionName name ::
          (tokens ++ [⟨.callEnd, closing⟩]))
        (.call f args)

/-- The tokens are the programs of the expressions, one after the other. -/
inductive SpellsAll (registry : Registry) : List Token → List Expr → Prop where
  | nil : SpellsAll registry [] []
  | cons {first rest : List Token} {e : Expr} {es : List Expr}
      (head : Spells registry first e) (tail : SpellsAll registry rest es) :
      SpellsAll registry (first ++ rest) (e :: es)

end

/-- The words of the file names among some tokens, in order. -/
def Token.fileNames (tokens : List Token) : List String :=
  (tokens.filter fun token => token.kind = .fileName).map Token.raw

end SetCalculator
