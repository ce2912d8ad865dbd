import SimpleRdbms.Proof.Lexemes
import SimpleRdbms.Server.Wire

namespace SimpleRdbms.Sql.Parser
variable {α β : Type}

theorem run_bind_ok {m : ParseM α} {f : α → ParseM β} {p p' : Parser} {b : β} :
    (m >>= f).run p = .ok (b, p') ↔ ∃ a middle, m.run p = .ok (a, middle) ∧ (f a).run middle = .ok (b, p') := by
  rw [StateT.run_bind]
  cases result : m.run p with
  | error err => simp [bind, Except.bind]
  | ok value =>
    obtain ⟨a, middle⟩ := value
    simp [bind, Except.bind]

theorem run_kind (p : Parser) : Parser.kind.run p = .ok (p.current.kind, p) := rfl

theorem run_unexpected {expected : String} {p p' : Parser} {a : α} :
    (Parser.unexpected expected : ParseM α).run p ≠ .ok (a, p') := by
  intro result
  obtain ⟨state, middle, -, failed⟩ := run_bind_ok.mp result
  dsimp only at failed
  split at failed <;> cases failed

end SimpleRdbms.Sql.Parser

namespace SimpleRdbms.Server
open SimpleRdbms.Sql

theorem visible_of_isWordChar {c : Char} (word : isWordChar c = true) : isWhitespace c = false := by
  rw [isWordChar_iff] at word
  simp only [isWhitespace, Bool.or_eq_false_iff, Bool.and_eq_false_iff, beq_eq_false_iff_ne, decide_eq_false_iff_not]
  omega

theorem isWhitespace_of_ascii {c : Char} (blank : isAsciiWhitespace c = true) : isWhitespace c = true := by
  simp only [isAsciiWhitespace, Bool.or_eq_true, beq_iff_eq] at blank
  rcases blank with (((rfl | rfl) | rfl) | rfl) | rfl <;> rfl

theorem rdropWhile_append {α : Type} (p : α → Bool) (l : List α) :
    ∃ dropped, l = l.rdropWhile p ++ dropped ∧ ∀ a ∈ dropped, p a = true := by
  refine ⟨l.rtakeWhile p, ?_, fun a member => List.mem_rtakeWhile_imp member⟩
  rw [List.rdropWhile, List.rtakeWhile, ← List.reverse_append, List.takeWhile_append_dropWhile, List.reverse_reverse]

theorem splitOnP_head (p : Char → Bool) (text : Text) : ∃ rest, text.splitOnP p = text.takeWhile (!p ·) :: rest := by
  induction text with
  | nil => exact ⟨[], rfl⟩
  | cons c text ih =>
    rw [List.splitOnP_cons_eq_if_modifyHead]
    cases separator : p c with
    | true => exact ⟨text.splitOnP p, by simp [separator]⟩
    | false =>
      obtain ⟨rest, split⟩ := ih
      exact ⟨rest, by simp [separator, split]⟩

theorem head_dropWhile (p : Char → Bool) (text : Text) : ∀ c ∈ (text.dropWhile p).head?, p c = false := by
  intro c head
  have stopped := List.head?_dropWhile_not p text
  rw [Option.mem_def.mp head] at stopped
  simpa using stopped

variable {sql word after text : Text} {c : Char}

theorem statementWords_first {others : List Text} (found : statementWords sql = word :: others) :
    ∃ after, sql.dropWhile isWhitespace = word ++ after ∧
      ∀ c ∈ after.head?, isWhitespace c = true ∨ c = ';' := by
  unfold statementWords at found
  set start := sql.dropWhile isWhitespace with isStart
  have visible : ∀ c ∈ start.head?, isWhitespace c = false := head_dropWhile isWhitespace sql
  obtain ⟨blanks, split₀, areBlanks⟩ := rdropWhile_append isWhitespace start
  obtain ⟨semicolons, split₁, areSemicolons⟩ := rdropWhile_append (· == ';') (trim sql)
  change start = trim sql ++ blanks at split₀
  change trim sql = trimEndMatches ';' (trim sql) ++ semicolons at split₁
  generalize trimEndMatches ';' (trim sql) = body at found split₁
  obtain ⟨trailing, split₂, areTrailing⟩ := rdropWhile_append isWhitespace body
  have whole : start = body ++ (semicolons ++ blanks) := by rw [split₀, split₁, List.append_assoc]
  have bodyVisible : ∀ c ∈ body.head?, isWhitespace c = false := by
    intro c head
    refine visible c ?_
    rw [whole, List.head?_append, Option.mem_def.mp head]
    rfl
  have trimmed : trim body = body.rdropWhile isWhitespace := by
    cases body with
    | nil => rfl
    | cons c rest => rw [trim, List.dropWhile_cons_of_neg (by simp [bodyVisible c rfl])]
  rw [trimmed] at found
  generalize body.rdropWhile isWhitespace = text at found split₂
  obtain ⟨rest, words⟩ := splitOnP_head isWhitespace text
  have isFirst : word = text.takeWhile (!isWhitespace ·) := by
    cases text with
    | nil => simp [splitWhitespace] at found
    | cons c more =>
      have first : isWhitespace c = false := bodyVisible c (by rw [split₂]; rfl)
      rw [splitWhitespace, words, List.filter_cons_of_pos (by simp [first])] at found
      exact (List.cons.inj found).1.symm
  subst isFirst
  refine ⟨text.dropWhile (!isWhitespace ·) ++ (trailing ++ (semicolons ++ blanks)), ?_, ?_⟩
  · rw [whole, split₂]
    nth_rewrite 1 [← List.takeWhile_append_dropWhile (p := (!isWhitespace ·)) (l := text)]
    simp only [List.append_assoc]
  · intro c head
    rw [List.head?_append] at head
    cases next : (text.dropWhile (!isWhitespace ·)).head? with
    | some d =>
      rw [next] at head
      obtain rfl : d = c := by simpa using head
      exact .inl (by simpa using head_dropWhile (!isWhitespace ·) text d next)
    | none =>
      rw [next] at head
      have member : c ∈ trailing ++ (semicolons ++ blanks) := List.mem_of_mem_head? (by simpa using head)
      rcases List.mem_append.mp member with trailing | member
      · exact .inl (areTrailing c trailing)
      · rcases List.mem_append.mp member with semicolon | blank
        · exact .inr (by simpa using areSemicolons c semicolon)
        · exact .inl (areBlanks c blank)

theorem not_isWhitespace_of_isSymbol (symbol : isSymbol c = true) : isWhitespace c = false ∧ c.toNat < 128 := by
  simp only [isSymbol, Bool.or_eq_true, List.contains_iff_mem] at symbol
  rcases symbol with digit | listed
  · have word : isWordChar c = true := by rw [isWordChar_iff]; rw [isDigit_iff] at digit; omega
    exact ⟨visible_of_isWordChar word, by rw [isWordChar_iff] at word; omega⟩
  · have codes : ",;()*.+=<>!$".toList.all (fun d => decide (isWhitespace d = false ∧ d.toNat < 128)) = true := by
      decide
    exact of_decide_eq_true (List.all_eq_true.mp codes c listed)

theorem Spelling_head {kind : TokenKind} {source : Text} (spelling : Spelling kind source after) :
    ∀ c ∈ source.head?, isWhitespace c = false ∧ c.toNat < 128 := by
  intro c head
  cases spelling with
  | word first chars _ =>
    have word := chars c (List.mem_of_mem_head? head)
    exact ⟨visible_of_isWordChar word, by rw [isWordChar_iff] at word; omega⟩
  | string =>
    obtain rfl : '\'' = c := by simpa using head
    decide
  | minus =>
    obtain rfl : '-' = c := by simpa using head
    decide
  | slash =>
    obtain rfl : '/' = c := by simpa using head
    decide
  | symbols _ chars => exact not_isWhitespace_of_isSymbol (chars c (List.mem_of_mem_head? head))

theorem Lexed_head {input : Text} {lexemes : List Lexeme} (lexed : Lexed input lexemes) :
    ∀ c ∈ (skipTrivia false input).head?, isWhitespace c = false ∧ c.toNat < 128 := by
  intro c head
  cases lexed with
  | done trivia => simp [trivia] at head
  | @cons _ source after _ _ trivia spelling _ =>
    obtain ⟨d, more, rfl⟩ := List.exists_cons_of_ne_nil spelling.nonempty
    rw [trivia] at head
    exact Spelling_head spelling c (by simpa using head)

theorem skipTrivia_eq_dropWhile (visible : ∀ c ∈ (skipTrivia false text).head?, isWhitespace c = false)
    (noComment : (text.dropWhile isWhitespace).head? ≠ some '-') :
    skipTrivia false text = text.dropWhile isWhitespace := by
  induction text with
  | nil => rfl
  | cons c rest ih =>
    unfold skipTrivia at visible ⊢
    simp only [Bool.false_eq_true, if_false] at visible ⊢
    cases blank : isAsciiWhitespace c with
    | true =>
      have white := isWhitespace_of_ascii blank
      rw [List.dropWhile_cons_of_pos white] at noComment ⊢
      simp only [blank, if_true] at visible ⊢
      exact ih visible noComment
    | false =>
      simp only [blank, Bool.false_eq_true, if_false] at visible ⊢
      have notDash : (c == '-' && rest.head? == some '-') = false := by
        by_contra dashes
        obtain ⟨rfl, -⟩ : c = '-' ∧ rest.head? = some '-' := by simpa using dashes
        rw [List.dropWhile_cons_of_neg (by decide)] at noComment
        exact noComment rfl
      simp only [notDash, Bool.false_eq_true, if_false] at visible ⊢
      rw [List.dropWhile_cons_of_neg (by simp [visible c rfl])]

theorem letter_of_toUppercase (upper : ∀ d ∈ toUppercase word, d.isUpper = true)
    (member : c ∈ word) : isWordStart c = true ∧ asciiUppercase.lookup c = none ∨ 128 ≤ c.toNat := by
  cases special : asciiUppercase.lookup c with
  | some letters =>
    obtain ⟨before, after, same, -⟩ := List.lookup_eq_some_iff.mp special
    have codes : ∀ entry ∈ asciiUppercase, 128 ≤ entry.1.toNat := by decide
    exact .inr (codes (c, letters) (by rw [same]; simp))
  | none =>
    refine .inl ⟨?_, rfl⟩
    have isUpper : c.toUpper.isUpper = true := by
      refine upper _ (List.mem_flatMap.mpr ⟨c, member, ?_⟩)
      simp [special]
    rw [isUpper_iff, toNat_toUpper] at isUpper
    rw [isWordStart_iff]
    split_ifs at isUpper <;> omega

theorem toUppercase_ascii (ascii : ∀ c ∈ word, asciiUppercase.lookup c = none) :
    toUppercase word = word.toAsciiUppercase := by
  induction word with
  | nil => rfl
  | cons c rest ih =>
    have tail := ih fun d member => ascii d (List.mem_cons_of_mem c member)
    have head := ascii c List.mem_cons_self
    simp only [toUppercase, Text.toAsciiUppercase, List.flatMap_cons, head, Option.getD_none, List.map_cons,
      List.singleton_append] at tail ⊢
    rw [tail]

theorem word_of_spelling {kind : TokenKind} {source : Text} (spelling : Spelling kind source after)
    (start : ∀ c ∈ source.head?, isWordStart c = true) :
    kind = wordKind source ∧ ∀ d ∈ source, isWordChar d = true := by
  cases spelling with
  | word _ chars _ => exact ⟨rfl, chars⟩
  | string => exact absurd (start '\'' rfl) (by decide)
  | minus => exact absurd (start '-' rfl) (by decide)
  | slash => exact absurd (start '/' rfl) (by decide)
  | symbols nonempty chars =>
    obtain ⟨c, rest, rfl⟩ := List.exists_cons_of_ne_nil nonempty
    have notStart := not_isWordStart_of_isSymbol (chars c List.mem_cons_self)
    simp [notStart] at start

theorem takeWhile_of_head {p : Char → Bool} (stops : ∀ c ∈ text.head?, p c = false) : text.takeWhile p = [] := by
  cases text with
  | nil => rfl
  | cons c rest => exact List.takeWhile_cons_of_neg (by simp [stops c rfl])

theorem exists_first_not {p : Char → Bool} (notAll : ¬∀ c ∈ text, p c = true) :
    ∃ front c tail, text = front ++ c :: tail ∧ (∀ d ∈ front, p d = true) ∧ p c = false := by
  induction text with
  | nil => simp at notAll
  | cons c text ih =>
    cases here : p c with
    | false => exact ⟨[], c, text, rfl, by simp, here⟩
    | true =>
      obtain ⟨front, d, tail, rfl, all, stops⟩ := ih fun all => notAll (by simpa [here] using all)
      exact ⟨c :: front, d, tail, rfl, by simpa [here] using all, stops⟩

theorem skipTrivia_nonAscii (rest : Text) (code : 128 ≤ c.toNat) : skipTrivia false (c :: rest) = c :: rest := by
  have blank : isAsciiWhitespace c = false := by
    by_contra blank
    simp only [isAsciiWhitespace, Bool.not_eq_false, Bool.or_eq_true, beq_iff_eq] at blank
    rcases blank with (((rfl | rfl) | rfl) | rfl) | rfl <;> exact absurd code (by decide)
  have dash : c ≠ '-' := by
    rintro rfl
    exact absurd code (by decide)
  simp [skipTrivia, blank, dash]

theorem firstLexeme_of_word {input : Text} {lexemes : List Lexeme} (lexed : Lexed input lexemes)
    (start : input.dropWhile isWhitespace = word ++ after) (ends : ∀ c ∈ after.head?, isWhitespace c = true ∨ c = ';')
    (nonempty : word ≠ []) (upper : ∀ d ∈ toUppercase word, d.isUpper = true) :
    ∃ gap others, lexemes = { gap, source := word, kind := wordKind word } :: others ∧
      word.toAsciiUppercase = toUppercase word := by
  have letters : ∀ c ∈ word, isWordStart c = true ∧ asciiUppercase.lookup c = none ∨ 128 ≤ c.toNat :=
    fun c member => letter_of_toUppercase upper member
  obtain ⟨c, head⟩ : ∃ c, c ∈ word.head? := by
    cases word with
    | nil => exact absurd rfl nonempty
    | cons c more => exact ⟨c, rfl⟩
  have wholeHead : (word ++ after).head? = some c := by rw [List.head?_append, Option.mem_def.mp head]; rfl
  have trivia : skipTrivia false input = word ++ after := by
    refine (skipTrivia_eq_dropWhile (fun d isHead => (Lexed_head lexed d isHead).1) ?_).trans start
    rw [start, wholeHead]
    rintro dash
    obtain rfl : c = '-' := by simpa using dash
    rcases letters '-' (List.mem_of_mem_head? head) with ⟨isStart, -⟩ | code
    · exact absurd isStart (by decide)
    · exact absurd code (by decide)
  have ascii := (Lexed_head lexed c (by rw [trivia, wholeHead]; rfl)).2
  have isStart : isWordStart c = true :=
    (letters c (List.mem_of_mem_head? head)).elim And.left fun code => absurd ascii (Nat.not_lt.mpr code)
  cases lexed with
  | done none =>
    rw [trivia] at none
    simp [none] at wholeHead
  | @cons _ source after' kind others split spelling rest =>
    rw [trivia] at split
    have sourceHead : ∀ d ∈ source.head?, isWordStart d = true := by
      intro d isHead
      rw [split, List.head?_append, Option.mem_def.mp isHead] at wholeHead
      obtain rfl : d = c := by simpa using wholeHead
      exact isStart
    obtain ⟨rfl, chars⟩ := word_of_spelling spelling sourceHead
    have taken : (word ++ after).takeWhile isWordChar = source := by
      rw [split, List.takeWhile_append_of_pos chars, takeWhile_of_head (spelling.maximal sourceHead), List.append_nil]
    -- A character of the word beyond ASCII would begin the next token.
    have all : ∀ d ∈ word, isWordChar d = true := by
      by_contra notAll
      obtain ⟨front, x, tail, rfl, frontChars, notWord⟩ := exists_first_not notAll
      have code : 128 ≤ x.toNat := by
        rcases letters x (by simp) with ⟨isStart, -⟩ | code
        · simp [isWordChar_of_isWordStart isStart] at notWord
        · exact code
      rw [List.append_assoc] at taken split
      have isFront : source = front := by
        rw [← taken, List.takeWhile_append_of_pos frontChars, List.cons_append,
          List.takeWhile_cons_of_neg (by simp [notWord]), List.append_nil]
      have next : after' = x :: (tail ++ after) := by
        rw [isFront] at split
        exact (List.append_cancel_left split).symm
      have token := Lexed_head rest x (by rw [next, skipTrivia_nonAscii _ code]; rfl)
      omega
    have same : source = word := by
      rw [← taken, List.takeWhile_append_of_pos all, takeWhile_of_head, List.append_nil]
      intro d isHead
      rcases ends d isHead with blank | rfl
      · by_contra isWord
        have visible := visible_of_isWordChar (by simpa using isWord)
        simp [blank] at visible
      · decide
    subst same
    refine ⟨_, others, rfl, (toUppercase_ascii fun d member => ?_).symm⟩
    rcases letters d member with ⟨-, absent⟩ | code
    · exact absent
    · have word := chars d member
      rw [isWordChar_iff] at word
      omega

theorem parse_first {tokens : List Token} {statement : Statement} (accepted : parse tokens = .ok statement)
    {word : TokenKind} {rest : List TokenKind} (kinds : tokens.map Token.kind = word :: rest) :
    (word = .begin → statement = .begin) ∧ (word = .commit → statement = .commit) := by
  cases tokens with
  | nil => cases accepted
  | cons current following =>
    have first : current.kind = word := (List.cons.inj kinds).1
    cases ran : Parser.parseAll.run { current, following } with
    | error err => simp [parse, ran, bind, Except.bind] at accepted
    | ok result =>
      obtain ⟨parsed, p'⟩ := result
      simp only [parse, ran, bind, Except.bind, pure, Except.pure, Except.ok.injEq] at accepted
      subst accepted
      obtain ⟨state, p₀, read, ran⟩ := Parser.run_bind_ok.mp ran
      cases read
      obtain ⟨statement, p₁, ranStatement, ran⟩ := Parser.run_bind_ok.mp ran
      obtain ⟨_, _, _, ran⟩ := Parser.run_bind_ok.mp ran
      obtain ⟨_, p₃, _, ran⟩ := Parser.run_bind_ok.mp ran
      have same : statement = parsed := by
        split at ran
        · cases ran
          rfl
        · exact absurd ran Parser.run_unexpected
      subst same
      obtain ⟨kind, middle, read, ranStatement⟩ := Parser.run_bind_ok.mp ranStatement
      rw [Parser.run_kind] at read
      cases read
      constructor <;> rintro rfl <;> simp only [first] at ranStatement <;> cases ranStatement <;> rfl

theorem statementKeyword_of_ne_create {keyword : Text} (found : statementKeyword sql = keyword)
    (nonempty : keyword ≠ []) (notCreate : ¬"CREATE".toList <+: keyword) :
    ∃ word others, statementWords sql = word :: others ∧ word ≠ [] ∧ toUppercase word = keyword := by
  unfold statementKeyword at found
  dsimp only at found
  split at found
  · rename_i create
    refine absurd ?_ notCreate
    rw [← found]
    split
    · exact (by decide : "CREATE".toList <+: "CREATE ".toList).trans (List.prefix_append _ _)
    · exact create ▸ List.prefix_rfl
  · cases words : statementWords sql with
    | nil =>
      rw [words] at found
      exact absurd found.symm nonempty
    | cons word others =>
      rw [words] at found
      refine ⟨word, others, rfl, ?_, found⟩
      rintro rfl
      exact nonempty found.symm

theorem statement_of_keyword {statement : Statement} (accepted : parseSql sql = .ok statement) :
    (statementKeyword sql = "BEGIN".toList → statement = .begin) ∧
      (statementKeyword sql = "COMMIT".toList → statement = .commit) := by
  cases lexes : tokenize sql with
  | error err => simp [parseSql, lexes, bind, Except.bind] at accepted
  | ok tokens =>
    have parsed : parse tokens = .ok statement := by
      simpa [parseSql, lexes, bind, Except.bind] using accepted
    obtain ⟨lexemes, lexed, kinds⟩ := tokenize_lexed lexes
    have first : ∀ keyword : Text, keyword ≠ [] → ¬"CREATE".toList <+: keyword →
        (∀ d ∈ keyword, d.isUpper = true) → statementKeyword sql = keyword →
        ∃ word rest, word.toAsciiUppercase = keyword ∧ tokens.map Token.kind = wordKind word :: rest := by
      intro keyword nonempty notCreate upper found
      obtain ⟨word, others, words, isWord, rfl⟩ := statementKeyword_of_ne_create found nonempty notCreate
      obtain ⟨after, start, ends⟩ := statementWords_first words
      obtain ⟨gap, rest, rfl, same⟩ := firstLexeme_of_word lexed start ends isWord upper
      exact ⟨word, rest.map Lexeme.kind ++ [TokenKind.eof], same, by simpa using kinds⟩
    constructor
    · intro found
      obtain ⟨word, rest, upper, kinds⟩ := first _ (by decide) (by decide) (List.all_eq_true.mp (by decide)) found
      exact (parse_first parsed kinds).1 (by rw [wordKind, upper]; rfl)
    · intro found
      obtain ⟨word, rest, upper, kinds⟩ := first _ (by decide) (by decide) (List.all_eq_true.mp (by decide)) found
      exact (parse_first parsed kinds).2 (by rw [wordKind, upper]; rfl)

end SimpleRdbms.Server
