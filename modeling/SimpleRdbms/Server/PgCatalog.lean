import Mathlib.Data.List.DropRight
import SimpleRdbms.Sql.Parser

/-!
# Introspection queries answered without the engine

Of an answer only its shape is kept. Characters whose lower or upper case has no ASCII counterpart are left as they are,
which no comparison with an ASCII word can tell.
-/

namespace SimpleRdbms.Server
open SimpleRdbms.Sql

def isWhitespace (c : Char) : Bool :=
  let code := c.toNat
  (0x09 ≤ code && code ≤ 0x0d) || code == 0x20 || code == 0x85 || code == 0xa0 || code == 0x1680 ||
    (0x2000 ≤ code && code ≤ 0x200a) || code == 0x2028 || code == 0x2029 || code == 0x202f ||
    code == 0x205f || code == 0x3000

/-- The Kelvin sign and the dotted capital I are the only characters beyond ASCII with an ASCII letter in
their lower case. -/
def toLowercase (c : Char) : Text :=
  if c == '\u212a' then ['k'] else if c == '\u0130' then ['i', '\u0307'] else [c.toLower]

def trimEndMatches (c : Char) (text : Text) : Text := text.rdropWhile (· == c)

def trim (text : Text) : Text := (text.dropWhile isWhitespace).rdropWhile isWhitespace

/-- Where `normalize` is in the text; `blockOpen` is before the star that opens a comment. -/
inductive NormalizeMode where
  | code
  | string
  | lineComment
  | blockOpen
  | blockComment (star : Bool)

def normalizeFrom : NormalizeMode → Bool → Bool → Text → Text
  | _, _, _, [] => []
  | .string, _, _, c :: rest => c :: normalizeFrom (if c == '\'' then .code else .string) true false rest
  | .lineComment, started, pending, c :: rest =>
    normalizeFrom (if c == '\n' then .code else .lineComment) started pending rest
  | .blockOpen, started, pending, _ :: rest => normalizeFrom (.blockComment false) started pending rest
  | .blockComment star, started, pending, c :: rest =>
    normalizeFrom (if star && c == '/' then .code else .blockComment (c == '*')) started pending rest
  | .code, started, pending, c :: rest =>
    let blank := if pending && started then [' '] else []
    if c == '\'' then blank ++ c :: normalizeFrom .string true false rest
    else if c == '-' && rest.head? == some '-' then normalizeFrom .lineComment started true rest
    else if c == '/' && rest.head? == some '*' then normalizeFrom .blockOpen started true rest
    else if isWhitespace c then normalizeFrom .code started true rest
    else blank ++ toLowercase c ++ normalizeFrom .code true false rest

def normalize (sql : Text) : Text := trim (trimEndMatches ';' (normalizeFrom .code false false sql))

def wordAfterFrom : List Text → Option Text
  | [] => none
  | word :: rest => if word = "from".toList then rest.head? else wordAfterFrom rest

def relationAfterFrom (normalized : Text) : Option Text := wordAfterFrom (normalized.splitOn ' ')

def relationMatches (token relation : Text) : Bool :=
  token == relation || token == "pg_catalog.".toList ++ relation

def recognizesRelation (normalized relation : Text) : Bool :=
  (relationAfterFrom normalized).any (relationMatches · relation)

inductive Shape where
  | pgNamespace | pgClass | pgAttribute | pgType | pgDatabase | pgRoles | pgUser | pgSettings
  | unrecognizedPgRelation
deriving DecidableEq, Repr

def answerRelation (relation : Text) (shape : Shape) (normalized : Text) : Option Shape :=
  if recognizesRelation normalized relation then some shape else none

def answerPgNamespace : Text → Option Shape := answerRelation "pg_namespace".toList .pgNamespace

def answerPgClass : Text → Option Shape := answerRelation "pg_class".toList .pgClass

def answerPgAttribute : Text → Option Shape := answerRelation "pg_attribute".toList .pgAttribute

def answerPgType : Text → Option Shape := answerRelation "pg_type".toList .pgType

def answerPgDatabase : Text → Option Shape := answerRelation "pg_database".toList .pgDatabase

def answerPgRoles : Text → Option Shape := answerRelation "pg_roles".toList .pgRoles

def answerPgUser : Text → Option Shape := answerRelation "pg_user".toList .pgUser

def answerPgSettings : Text → Option Shape := answerRelation "pg_settings".toList .pgSettings

def stripCatalog (token : Text) : Text :=
  if "pg_catalog.".toList.isPrefixOf token then token.drop "pg_catalog.".length else token

def isPgRelation (token : Text) : Bool := "pg_".toList.isPrefixOf (stripCatalog token)

def answerUnrecognizedPgRelation (normalized : Text) : Option Shape :=
  (relationAfterFrom normalized).bind fun relation =>
    if isPgRelation relation then some .unrecognizedPgRelation else none

def shadowsARealTable (tableNames : List Text) (normalized : Text) : Bool :=
  (relationAfterFrom normalized).any fun relation =>
    !"pg_catalog.".toList.isPrefixOf relation && isPgRelation relation &&
      tableNames.any (·.eqIgnoreAsciiCase relation)

def answer (tableNames : List Text) (sql : Text) : Option Shape :=
  let normalized := normalize sql
  if shadowsARealTable tableNames normalized then none
  else
    answerPgNamespace normalized <|> answerPgClass normalized <|> answerPgAttribute normalized <|>
      answerPgType normalized <|> answerPgDatabase normalized <|> answerPgRoles normalized <|>
      answerPgUser normalized <|> answerPgSettings normalized <|> answerUnrecognizedPgRelation normalized

end SimpleRdbms.Server
