import Mathlib.Data.List.TakeWhile
import SimpleRdbms.Sql.Lexer

namespace SimpleRdbms.Sql

theorem toNat_toUpper (c : Char) :
    c.toUpper.toNat = if 97 ≤ c.toNat ∧ c.toNat ≤ 122 then c.toNat - 32 else c.toNat := by
  unfold Char.toUpper
  split
  · rename_i lower
    have range : 97 ≤ c.toNat ∧ c.toNat ≤ 122 := by simpa [UInt32.le_iff_toNat_le] using lower
    rw [if_pos range]
    change (c.val + 4294967264).toNat = c.toNat - 32
    rw [UInt32.toNat_add]
    change (c.toNat + 4294967264) % 2 ^ 32 = c.toNat - 32
    omega
  · rename_i lower
    rw [if_neg]
    simpa [UInt32.le_iff_toNat_le] using lower

variable {c : Char} {rest after source input : Text} {start : Nat} {kind : TokenKind}

theorem isUpper_iff : c.isUpper = true ↔ 65 ≤ c.toNat ∧ c.toNat ≤ 90 := by
  delta Char.isUpper
  simp only [decide_eq_true_eq, ge_iff_le, UInt32.le_iff_toNat_le]
  rfl

theorem isLower_iff : c.isLower = true ↔ 97 ≤ c.toNat ∧ c.toNat ≤ 122 := by
  delta Char.isLower
  simp only [Bool.and_eq_true, decide_eq_true_eq, ge_iff_le, UInt32.le_iff_toNat_le]
  rfl

theorem isDigit_iff : c.isDigit = true ↔ 48 ≤ c.toNat ∧ c.toNat ≤ 57 := by
  delta Char.isDigit
  simp only [Bool.and_eq_true, decide_eq_true_eq, ge_iff_le, UInt32.le_iff_toNat_le]
  rfl

theorem isWordStart_iff : isWordStart c = true ↔
    c.toNat = 95 ∨ 65 ≤ c.toNat ∧ c.toNat ≤ 90 ∨ 97 ≤ c.toNat ∧ c.toNat ≤ 122 := by
  have underscore : c = '_' ↔ c.toNat = 95 := Char.toNat_inj.symm
  change (c == '_' || (c.isUpper || c.isLower)) = true ↔ _
  rw [Bool.or_eq_true, Bool.or_eq_true, beq_iff_eq, underscore, isUpper_iff, isLower_iff]

theorem isWordChar_iff : isWordChar c = true ↔
    c.toNat = 95 ∨ 65 ≤ c.toNat ∧ c.toNat ≤ 90 ∨ 97 ≤ c.toNat ∧ c.toNat ≤ 122 ∨ 48 ≤ c.toNat ∧ c.toNat ≤ 57 := by
  have underscore : c = '_' ↔ c.toNat = 95 := Char.toNat_inj.symm
  change (c == '_' || (c.isUpper || c.isLower || c.isDigit)) = true ↔ _
  rw [Bool.or_eq_true, Bool.or_eq_true, Bool.or_eq_true, beq_iff_eq, underscore, isUpper_iff, isLower_iff,
    isDigit_iff, or_assoc]

theorem isWordChar_of_isWordStart (start : isWordStart c = true) : isWordChar c = true := by
  rw [isWordStart_iff] at start
  rw [isWordChar_iff]
  omega

def isSymbol (c : Char) : Bool := c.isDigit || ",;()*.+=<>!$".toList.contains c

inductive Quoted : Text → Text → Prop where
  | close : Quoted [] ['\'']
  | escape {value body : Text} : Quoted value body → Quoted ('\'' :: value) ('\'' :: '\'' :: body)
  | char {c : Char} {value body : Text} : c ≠ '\'' → Quoted value body → Quoted (c :: value) (c :: body)

inductive Spelling : TokenKind → Text → Text → Prop where
  | word {c : Char} {source after : Text} (first : isWordStart c = true)
      (chars : ∀ d ∈ c :: source, isWordChar d = true) (maximal : ∀ d ∈ after.head?, isWordChar d = false) :
      Spelling (wordKind (c :: source)) (c :: source) after
  | string {value body after : Text} (quoted : Quoted value body) :
      Spelling (.stringLiteral value) ('\'' :: body) after
  | minus {after : Text} : Spelling .minus ['-'] after
  | slash {after : Text} : Spelling .slash ['/'] after
  | symbols {kind : TokenKind} {source after : Text} (nonempty : source ≠ [])
      (chars : ∀ d ∈ source, isSymbol d = true) (inside : kind ≠ .eof) : Spelling kind source after

theorem lexString_quoted {acc value : Text} (lexed : lexString acc rest = some (value, after)) :
    ∃ tail body, value = acc ++ tail ∧ rest = body ++ after ∧ Quoted tail body := by
  fun_induction lexString acc rest with
  | case1 => simp at lexed
  | case2 acc rest ih =>
    obtain ⟨tail, body, rfl, rfl, quoted⟩ := ih lexed
    exact ⟨'\'' :: tail, '\'' :: '\'' :: body, by simp, rfl, .escape quoted⟩
  | case3 acc rest =>
    simp only [Option.some.injEq, Prod.mk.injEq] at lexed
    obtain ⟨rfl, rfl⟩ := lexed
    exact ⟨[], ['\''], by simp, rfl, .close⟩
  | case4 acc c rest notEscape notClose ih =>
    obtain ⟨tail, body, rfl, rfl, quoted⟩ := ih lexed
    refine ⟨c :: tail, c :: body, by simp, rfl, .char ?_ quoted⟩
    rintro rfl
    exact notClose rfl

theorem isSymbol_of_isDigit (digit : c.isDigit = true) : isSymbol c = true := by
  simp [isSymbol, digit]

theorem takeWhile_isDigit_symbols (text : Text) : ∀ c ∈ text.takeWhile Char.isDigit, isSymbol c = true :=
  fun _ member => isSymbol_of_isDigit (List.mem_takeWhile_imp member)

theorem lexNumber_spelling (digit : c.isDigit = true) (lexed : lexNumber (c :: rest) start = .ok (kind, after)) :
    ∃ source, c :: rest = source ++ after ∧ Spelling kind source after := by
  have split := List.takeWhile_append_dropWhile (p := Char.isDigit) (l := c :: rest)
  have nonempty : (c :: rest).takeWhile Char.isDigit ≠ [] := by simp [digit]
  have digits := takeWhile_isDigit_symbols (c :: rest)
  unfold lexNumber at lexed
  dsimp only at lexed
  split at lexed
  · rename_i fraction
    simp only [Except.ok.injEq, Prod.mk.injEq] at lexed
    obtain ⟨rfl, rfl⟩ := lexed
    generalize (c :: rest).takeWhile Char.isDigit = front at *
    cases back : (c :: rest).dropWhile Char.isDigit with
    | nil => simp [back] at fraction
    | cons d more =>
      rw [back] at fraction split
      obtain ⟨rfl, -⟩ : d = '.' ∧ _ := by simpa using fraction
      refine ⟨front ++ '.' :: more.takeWhile Char.isDigit, ?_, .symbols (by simp) ?_ nofun⟩
      · rw [← split]
        simp [List.takeWhile_append_dropWhile]
      · intro d member
        rcases List.mem_append.mp member with inFront | inBack
        · exact digits d inFront
        · rcases List.mem_cons.mp inBack with rfl | inFraction
          · rfl
          · exact takeWhile_isDigit_symbols more d inFraction
  · split at lexed
    · simp only [Except.ok.injEq, Prod.mk.injEq] at lexed
      obtain ⟨rfl, rfl⟩ := lexed
      exact ⟨_, split.symm, .symbols nonempty digits nofun⟩
    · simp at lexed

theorem lexDollar_spelling (lexed : lexDollar rest start = .ok (kind, after)) :
    ∃ source, '$' :: rest = source ++ after ∧ Spelling kind source after := by
  unfold lexDollar at lexed
  dsimp only at lexed
  split at lexed
  · simp at lexed
  · simp only [Except.ok.injEq, Prod.mk.injEq] at lexed
    obtain ⟨rfl, rfl⟩ := lexed
    refine ⟨'$' :: rest.takeWhile Char.isDigit, by simp [List.takeWhile_append_dropWhile], .symbols (by simp) ?_ nofun⟩
    intro d member
    rcases List.mem_cons.mp member with rfl | digit
    · rfl
    · exact takeWhile_isDigit_symbols rest d digit

theorem lexIdentOrKeyword_spelling (rest : Text) (first : isWordStart c = true) :
    ∃ source, c :: rest = source ++ (lexIdentOrKeyword (c :: rest)).2 ∧
      Spelling (lexIdentOrKeyword (c :: rest)).1 source (lexIdentOrKeyword (c :: rest)).2 := by
  have wordChar := isWordChar_of_isWordStart first
  refine ⟨(c :: rest).takeWhile isWordChar, List.takeWhile_append_dropWhile.symm, ?_⟩
  have chars : ∀ d ∈ (c :: rest).takeWhile isWordChar, isWordChar d = true :=
    fun d member => List.mem_takeWhile_imp member
  simp only [lexIdentOrKeyword, List.takeWhile_cons_of_pos wordChar] at chars ⊢
  refine .word first chars fun d isNext => ?_
  have stopped := List.head?_dropWhile_not isWordChar (c :: rest)
  rw [Option.mem_def.mp isNext] at stopped
  simpa using stopped

theorem lexPunct_spelling (lexed : lexPunct c rest start = .ok (kind, after)) :
    ∃ source, c :: rest = source ++ after ∧ Spelling kind source after := by
  unfold lexPunct at lexed
  split at lexed
  all_goals
    first
    | simp only [Except.ok.injEq, Prod.mk.injEq, reduceCtorEq] at lexed
  all_goals obtain ⟨rfl, rfl⟩ := lexed
  all_goals
    first
    | exact ⟨['-'], rfl, .minus⟩
    | exact ⟨['/'], rfl, .slash⟩
    | exact ⟨[_], rfl, .symbols (by simp) (List.all_eq_true.mp (by decide)) nofun⟩
    | exact ⟨[_, _], rfl, .symbols (by simp) (List.all_eq_true.mp (by decide)) nofun⟩

theorem lexToken_spelling (lexed : lexToken c rest start = .ok (kind, after)) :
    ∃ source, c :: rest = source ++ after ∧ Spelling kind source after := by
  unfold lexToken at lexed
  split at lexed
  · rename_i digit
    exact lexNumber_spelling digit lexed
  · split at lexed
    · rename_i quote
      obtain rfl : c = '\'' := by simpa using quote
      split at lexed
      · rename_i value tail found
        simp only [Except.ok.injEq, Prod.mk.injEq] at lexed
        obtain ⟨rfl, rfl⟩ := lexed
        obtain ⟨_, body, rfl, rfl, quoted⟩ := lexString_quoted found
        exact ⟨'\'' :: body, rfl, .string quoted⟩
      · simp at lexed
    · split at lexed
      · rename_i dollar
        obtain rfl : c = '$' := by simpa using dollar
        exact lexDollar_spelling lexed
      · split at lexed
        · rename_i first
          simp only [Except.ok.injEq] at lexed
          obtain ⟨source, split, spelling⟩ := lexIdentOrKeyword_spelling rest first
          rw [lexed] at split spelling
          exact ⟨source, split, spelling⟩
        · exact lexPunct_spelling lexed

structure Lexeme where
  gap : Bool
  source : Text
  kind : TokenKind

inductive Lexed : Text → List Lexeme → Prop where
  | done {input : Text} (trivia : skipTrivia false input = []) : Lexed input []
  | cons {input source after : Text} {kind : TokenKind} {lexemes : List Lexeme}
      (trivia : skipTrivia false input = source ++ after) (spelling : Spelling kind source after)
      (rest : Lexed after lexemes) :
      Lexed input ({ gap := input != source ++ after, source, kind } :: lexemes)

theorem skipTrivia_length (comment : Bool) (text : Text) : (skipTrivia comment text).length ≤ text.length := by
  fun_induction skipTrivia comment text <;> simp only [List.length_cons, List.length_nil] at * <;> omega

theorem Spelling.nonempty (spelling : Spelling kind source after) : source ≠ [] := by
  cases spelling with
  | symbols nonempty => exact nonempty
  | word | string | minus | slash => simp

theorem wordKind_ne_eof (word : Text) : wordKind word ≠ .eof := by
  have none_ends : ∀ entry ∈ keywords, entry.2 ≠ .eof := by decide
  unfold wordKind
  cases found : keywords.lookup word.toAsciiUppercase with
  | none => simp
  | some kind =>
    obtain ⟨before, after, same, -⟩ := List.lookup_eq_some_iff.mp found
    exact none_ends (word.toAsciiUppercase, kind) (by rw [same]; simp)

theorem Spelling.ne_eof (spelling : Spelling kind source after) : kind ≠ .eof := by
  cases spelling with
  | word => exact wordKind_ne_eof _
  | symbols _ _ inside => exact inside
  | string | minus | slash => simp

theorem tokenizeFrom_lexed {size fuel : Nat} {tokens : List Token} (enough : input.length < fuel)
    (lexed : tokenizeFrom size fuel input = .ok tokens) :
    ∃ lexemes, Lexed input lexemes ∧ tokens.map Token.kind = lexemes.map Lexeme.kind ++ [.eof] := by
  induction fuel generalizing input tokens with
  | zero => simp at enough
  | succ fuel ih =>
    unfold tokenizeFrom at lexed
    cases trivia : skipTrivia false input with
    | nil =>
      simp only [trivia, Except.ok.injEq] at lexed
      subst lexed
      exact ⟨[], .done trivia, rfl⟩
    | cons c rest =>
      simp only [trivia] at lexed
      cases found : lexToken c rest (size - Text.byteLength (c :: rest)) with
      | error err => simp [found, bind, Except.bind] at lexed
      | ok value =>
        obtain ⟨kind, after⟩ := value
        obtain ⟨source, split, spelling⟩ := lexToken_spelling found
        cases tail : tokenizeFrom size fuel after with
        | error err => simp [found, tail, bind, Except.bind] at lexed
        | ok others =>
          simp only [found, tail, bind, Except.bind, pure, Except.pure, Except.ok.injEq] at lexed
          subst lexed
          have shorter : after.length < fuel := by
            have whole := skipTrivia_length false input
            rw [trivia, split, List.length_append] at whole
            have positive := List.length_pos_iff.mpr spelling.nonempty
            omega
          obtain ⟨lexemes, restLexed, kinds⟩ := ih shorter tail
          exact ⟨_, .cons (trivia.trans split) spelling restLexed, by simp [kinds]⟩

theorem tokenize_lexed {tokens : List Token} (lexed : tokenize input = .ok tokens) :
    ∃ lexemes, Lexed input lexemes ∧ tokens.map Token.kind = lexemes.map Lexeme.kind ++ [.eof] :=
  tokenizeFrom_lexed (Nat.lt_succ_self _) lexed

theorem not_isWordStart_of_isSymbol (symbol : isSymbol c = true) : isWordStart c = false := by
  simp only [isSymbol, Bool.or_eq_true, List.contains_iff_mem] at symbol
  rcases symbol with digit | listed
  · rw [Bool.eq_false_iff, Ne, isWordStart_iff]
    rw [isDigit_iff] at digit
    omega
  · have none_starts : ",;()*.+=<>!$".toList.all (fun d => !isWordStart d) = true := by decide
    simpa using List.all_eq_true.mp none_starts c listed

theorem Spelling.maximal (spelling : Spelling kind source after)
    (word : ∀ c ∈ source.head?, isWordStart c = true) : ∀ c ∈ after.head?, isWordChar c = false := by
  cases spelling with
  | word _ _ maximal => exact maximal
  | string => exact absurd (word '\'' rfl) (by decide)
  | minus => exact absurd (word '-' rfl) (by decide)
  | slash => exact absurd (word '/' rfl) (by decide)
  | symbols nonempty chars =>
    obtain ⟨c, rest, rfl⟩ := List.exists_cons_of_ne_nil nonempty
    have notStart := not_isWordStart_of_isSymbol (chars c List.mem_cons_self)
    simp [notStart] at word

end SimpleRdbms.Sql
