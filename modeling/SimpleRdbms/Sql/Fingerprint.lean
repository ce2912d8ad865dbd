import SimpleRdbms.Sql.ByteLexer

/-!
# Fingerprints

A statement with each literal replaced by a question mark. Nothing is returned where the source would panic.
-/

namespace SimpleRdbms.Sql

def isLiteral : TokenKind → Bool
  | .integerLiteral _ | .floatLiteral _ | .stringLiteral _ => true
  | _ => false

def trimEnd (sql : Text) (start : Nat) : Nat → Option Nat
  | 0 => some 0
  | last + 1 =>
    if start < last + 1 then
      match sql.asBytes[last]? with
      | some byte => if Lexer.isAsciiWhitespace byte then trimEnd sql start last else some (last + 1)
      | none => none
    else some (last + 1)

def fingerprintFrom (sql out : Text) (cursor : Nat) : List Token → Option Text
  | token :: next :: rest => do
      let start := token.offset
      let out := out ++ (← sql.slice cursor start)
      let stop ← trimEnd sql start next.offset
      let shown ← if isLiteral token.kind then some ['?'] else sql.slice start stop
      fingerprintFrom sql (out ++ shown) stop (next :: rest)
  | _ => do return out ++ (← sql.slice cursor sql.asBytes.length)

def fingerprint (sql : Text) : Option Text :=
  match Lexer.tokenize sql with
  | .ok tokens => fingerprintFrom sql [] 0 tokens
  | .error (.sql _) => some ['?']
  | .error _ => none

end SimpleRdbms.Sql
