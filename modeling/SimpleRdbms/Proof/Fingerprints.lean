import Mathlib.Data.List.DropRight
import SimpleRdbms.Proof.LexerBytes
import SimpleRdbms.Sql.Fingerprint

namespace SimpleRdbms.Sql
open SimpleRdbms.Lib Text

structure Piece where
  kind : TokenKind
  source : Text
  trivia : Text

inductive Pieces : Text → List Piece → Prop where
  | done : Pieces [] []
  | next {c : Char} {rest source after trivia : Text} {start : Nat} {kind : TokenKind} {pieces : List Piece}
      (lexed : lexToken c rest start = .ok (kind, after)) (split : c :: rest = source ++ after)
      (skipped : after = trivia ++ skipTrivia false after) (others : Pieces (skipTrivia false after) pieces) :
      Pieces (c :: rest) ({ kind, source, trivia } :: pieces)

structure Segmented (text lead : Text) (pieces : List Piece) : Prop where
  skipped : text = lead ++ skipTrivia false text
  pieces : Pieces (skipTrivia false text) pieces

def Piece.text (piece : Piece) : Text := piece.source ++ piece.trivia

def tokensOf (offset : Nat) : List Piece → List Token
  | [] => [{ kind := .eof, offset }]
  | piece :: rest => { kind := piece.kind, offset } :: tokensOf (offset + piece.text.byteLength) rest

theorem Pieces.text {text : Text} {pieces : List Piece} (segmented : Pieces text pieces) :
    pieces.flatMap Piece.text = text := by
  induction segmented with
  | done => rfl
  | next lexed split skipped others ih =>
    rw [List.flatMap_cons, ih, split, Piece.text, List.append_assoc, ← skipped]

theorem lexToken_start {c : Char} {rest : Text} {start : Nat} {token : TokenKind × Text} (other : Nat)
    (lexed : lexToken c rest start = .ok token) : lexToken c rest other = .ok token := by
  have number (lexed : lexNumber (c :: rest) start = .ok token) : lexNumber (c :: rest) other = .ok token := by
    unfold lexNumber at lexed ⊢
    dsimp only at lexed ⊢
    split
    · rename_i fraction
      rwa [if_pos fraction] at lexed
    · rename_i whole
      rw [if_neg whole] at lexed
      split at lexed
      · rename_i small
        rwa [if_pos small]
      · cases lexed
  have dollar (lexed : lexDollar rest start = .ok token) : lexDollar rest other = .ok token := by
    unfold lexDollar at lexed ⊢
    dsimp only at lexed ⊢
    split at lexed
    · cases lexed
    · rename_i valid
      rwa [if_neg valid]
  have punct (lexed : lexPunct c rest start = .ok token) : lexPunct c rest other = .ok token := by
    unfold lexPunct at lexed ⊢
    split at lexed <;> first | exact lexed | cases lexed
  unfold lexToken at lexed ⊢
  split
  · rename_i digit
    rw [if_pos digit] at lexed
    exact number lexed
  · rename_i notDigit
    rw [if_neg notDigit] at lexed
    split
    · rename_i quote
      rw [if_pos quote] at lexed
      cases body : lexString [] rest with
      | some value =>
        rw [body] at lexed
        exact lexed
      | none =>
        rw [body] at lexed
        cases lexed
    · rename_i notQuote
      rw [if_neg notQuote] at lexed
      split
      · rename_i isDollar
        rw [if_pos isDollar] at lexed
        exact dollar lexed
      · rename_i notDollar
        rw [if_neg notDollar] at lexed
        split
        · rename_i word
          rwa [if_pos word] at lexed
        · rename_i notWord
          rw [if_neg notWord] at lexed
          exact punct lexed

theorem tokenizeFrom_pieces {size fuel : Nat} {text lead : Text} {pieces : List Piece} (enough : text.length < fuel)
    (inside : text.byteLength ≤ size) (segmented : Segmented text lead pieces) :
    tokenizeFrom size fuel text = .ok (tokensOf (size - text.byteLength + lead.byteLength) pieces) := by
  induction fuel generalizing text lead pieces with
  | zero => omega
  | succ fuel ih =>
    obtain ⟨skipped, segmented⟩ := segmented
    have length := congrArg byteLength skipped
    have shorter := (skipTrivia_suffix false text).length_le
    rw [byteLength_append] at length
    rw [tokenizeFrom]
    generalize skipTrivia false text = next at *
    cases segmented with
    | done =>
      have start : size - text.byteLength + lead.byteLength = size := by
        rw [length, show byteLength [] = 0 from rfl]
        omega
      rw [start]
      rfl
    | @next c rest source after trivia _ kind pieces lexed split gap others =>
      have start : size - byteLength (c :: rest) = size - text.byteLength + lead.byteLength := by
        omega
      have source_after := congrArg byteLength split
      obtain ⟨front, isFront⟩ := Lexer.lexToken_suffix lexed
      have fewer := congrArg List.length isFront
      rw [List.length_append] at fewer
      rw [List.length_cons] at shorter
      rw [byteLength_append] at source_after
      have tail := ih (show after.length < fuel by omega) (show after.byteLength ≤ size by omega) ⟨gap, others⟩
      have position : size - after.byteLength + trivia.byteLength =
          size - text.byteLength + lead.byteLength + (source ++ trivia).byteLength := by
        rw [byteLength_append]
        omega
      simp only [start, lexToken_start (size - text.byteLength + lead.byteLength) lexed, ok_bind, tail, position,
        tokensOf]
      rfl

theorem exists_pieces {size fuel : Nat} {text : Text} {tokens : List Token} (enough : text.length < fuel)
    (lexed : tokenizeFrom size fuel text = .ok tokens) : ∃ lead pieces, Segmented text lead pieces := by
  induction fuel generalizing text tokens with
  | zero => omega
  | succ fuel ih =>
    have suffix := skipTrivia_suffix false text
    have shorter := suffix.length_le
    obtain ⟨lead, skipped⟩ := suffix
    refine ⟨lead, ?_⟩
    have segmented : ∃ pieces, Pieces (skipTrivia false text) pieces := by
      rw [tokenizeFrom] at lexed
      generalize skipTrivia false text = next at *
      cases next with
      | nil => exact ⟨[], .done⟩
      | cons c rest =>
        obtain ⟨⟨kind, after⟩, isToken, lexed⟩ := bind_eq_ok.mp lexed
        obtain ⟨others, isOthers, -⟩ := bind_eq_ok.mp lexed
        obtain ⟨source, split, -⟩ := lexToken_spelling isToken
        have fewer := (Lexer.lexToken_suffix isToken).length_le
        rw [List.length_cons] at shorter
        obtain ⟨trivia, pieces, gap, others⟩ := ih (by omega) isOthers
        exact ⟨_, .next isToken split gap others⟩
    exact segmented.imp fun pieces segmented => ⟨skipped.symm, segmented⟩

theorem tokenize_eq_ok {text : Text} {tokens : List Token} : Lexer.tokenize text = .ok tokens ↔
    ∃ lead pieces, Segmented text lead pieces ∧ tokens = tokensOf lead.byteLength pieces := by
  have made {lead : Text} {pieces : List Piece} (segmented : Segmented text lead pieces) :
      Lexer.tokenize text = .ok (tokensOf lead.byteLength pieces) := by
    rw [Lexer.tokenize_eq, tokenize, tokenizeFrom_pieces (Nat.lt_succ_self _) le_rfl segmented, Nat.sub_self,
      Nat.zero_add]
    rfl
  constructor
  · intro lexed
    cases found : tokenize text with
    | error err =>
      rw [Lexer.tokenize_eq, found] at lexed
      cases lexed
    | ok others =>
      obtain ⟨lead, pieces, segmented⟩ := exists_pieces (Nat.lt_succ_self _) found
      exact ⟨lead, pieces, segmented, Except.ok.inj (lexed.symm.trans (made segmented))⟩
  · rintro ⟨lead, pieces, segmented, rfl⟩
    exact made segmented

theorem Quoted.getLast? {value body : Text} (quoted : Quoted value body) : body.getLast? = some '\'' := by
  induction quoted with
  | close => rfl
  | escape _ ih => rw [List.getLast?_cons_cons, List.getLast?_cons, ih]; rfl
  | char _ _ ih => rw [List.getLast?_cons, ih]; rfl

theorem not_blank_of_code {c : Char} (code : 33 ≤ c.toNat) : isAsciiWhitespace c = false := by
  rw [Bool.eq_false_iff]
  intro blank
  simp only [isAsciiWhitespace, Bool.or_eq_true, beq_iff_eq] at blank
  rcases blank with (((rfl | rfl) | rfl) | rfl) | rfl <;> revert code <;> decide

theorem Spelling.last {kind : TokenKind} {source after : Text} (spelling : Spelling kind source after) :
    ∀ c ∈ source.getLast?, isAsciiWhitespace c = false := by
  intro c isLast
  have member : c ∈ source := List.mem_of_getLast? isLast
  apply not_blank_of_code
  cases spelling with
  | word _ chars _ =>
    have := isWordChar_iff.mp (chars c member)
    omega
  | @string value body _ quoted =>
    rw [List.getLast?_cons, quoted.getLast?] at isLast
    cases isLast
    decide
  | minus | slash =>
    cases isLast
    decide
  | symbols _ chars _ =>
    have symbol := chars c member
    simp only [isSymbol, Bool.or_eq_true, List.contains_iff_mem] at symbol
    rcases symbol with digit | listed
    · have := isDigit_iff.mp digit
      omega
    · have table : ",;()*.+=<>!$".toList.all (33 ≤ ·.toNat) = true := by decide
      exact of_decide_eq_true (List.all_eq_true.mp table c listed)

theorem lastByte (front : Text) (c : Char) (rest : Text) : ∃ last byte, (front ++ [c]).byteLength = last + 1 ∧
    (front ++ c :: rest).asBytes[last]? = some byte ∧ Lexer.isAsciiWhitespace byte = isAsciiWhitespace c := by
  obtain ⟨first, others, encoded, range, continued⟩ := utf8EncodeChar_cases c
  have size := String.length_utf8EncodeChar c
  rw [encoded, List.length_cons] at size
  refine ⟨front.byteLength + others.length, (first :: others).getLast (List.cons_ne_nil _ _), ?_, ?_, ?_⟩
  · rw [byteLength_append, byteLength_cons, ← size]
    rfl
  · rw [asBytes_append, asBytes_cons, ← asBytes_length, List.getElem?_append_right (Nat.le_add_right _ _),
      Nat.add_sub_cancel_left, encoded, List.getElem?_append_left (by simp), ← List.getLast?_eq_some_getLast,
        List.getLast?_eq_getElem?]
    rfl
  · rcases range with ⟨ascii, rfl, rfl⟩ | ⟨wide, high⟩
    · exact agrees_whitespace.ascii c ascii
    · refine agrees_whitespace.wide c _ wide ?_
      rcases List.mem_cons.mp (List.getLast_mem (List.cons_ne_nil first others)) with isFirst | isOther
      · rw [isFirst]
        exact UInt8.le_trans (by decide) high
      · exact continued _ isOther

theorem trimEnd_blank {front : Text} (rest : Text) {c : Char} {start : Nat} (inside : start ≤ front.byteLength)
    (blank : isAsciiWhitespace c = true) :
    trimEnd (front ++ c :: rest) start (front ++ [c]).byteLength =
      trimEnd (front ++ c :: rest) start front.byteLength := by
  obtain ⟨last, byte, length, isByte, class_⟩ := lastByte front c rest
  have one := utf8Size_ascii (ascii_of_blank blank)
  have whole := byteLength_append front [c]
  rw [byteLength_cons, one] at whole
  obtain rfl : front.byteLength = last := by
    rw [whole] at length
    simpa [byteLength] using length
  rw [length, trimEnd, if_pos (by omega), isByte]
  dsimp only
  rw [class_, if_pos blank]

theorem trimEnd_kept (front rest : Text) {c : Char} (start : Nat) (kept : isAsciiWhitespace c = false) :
    trimEnd (front ++ c :: rest) start (front ++ [c]).byteLength = some (front ++ [c]).byteLength := by
  obtain ⟨last, byte, length, isByte, class_⟩ := lastByte front c rest
  rw [length, trimEnd]
  split
  · rw [isByte]
    dsimp only
    rw [class_, kept]
    rfl
  · rfl

theorem trimEnd_trivia (front : Text) {source : Text} (trivia rest : Text) (nonempty : source ≠ [])
    (last : ∀ c ∈ source.getLast?, isAsciiWhitespace c = false) :
    trimEnd (front ++ (source ++ (trivia ++ rest))) front.byteLength (front ++ (source ++ trivia)).byteLength =
      some (front ++ (source ++ trivia.rdropWhile isAsciiWhitespace)).byteLength := by
  induction trivia using List.reverseRecOn generalizing rest with
  | nil =>
    obtain ⟨before, c, rfl⟩ := (List.eq_nil_or_concat source).resolve_left nonempty
    have kept := last c (by simp)
    have trimmed := trimEnd_kept (front ++ before) rest front.byteLength kept
    simpa using trimmed
  | append_singleton trivia c ih =>
    cases blank : isAsciiWhitespace c with
    | true =>
      have inside : front.byteLength ≤ (front ++ (source ++ trivia)).byteLength := by
        rw [byteLength_append]
        exact Nat.le_add_right _ _
      have trimmed := trimEnd_blank rest inside blank
      rw [List.rdropWhile_concat_pos _ _ _ blank, ← ih (c :: rest)]
      simpa using trimmed
    | false =>
      have trimmed := trimEnd_kept (front ++ (source ++ trivia)) rest front.byteLength blank
      rw [List.rdropWhile_concat_neg _ _ _ (by simp [blank])]
      simpa using trimmed

def Piece.shown (piece : Piece) : Text :=
  if isLiteral piece.kind then '?' :: piece.trivia.rtakeWhile isAsciiWhitespace else piece.text

structure Piece.Trimmed (piece : Piece) : Prop where
  nonempty : piece.source ≠ []
  last : ∀ c ∈ piece.source.getLast?, isAsciiWhitespace c = false

theorem Pieces.trimmed {text : Text} {pieces : List Piece} (segmented : Pieces text pieces) :
    ∀ piece ∈ pieces, piece.Trimmed := by
  induction segmented with
  | done => simp
  | next lexed split skipped others ih =>
    rw [List.forall_mem_cons]
    refine ⟨?_, ih⟩
    obtain ⟨source, isSource, spelling⟩ := lexToken_spelling lexed
    obtain rfl := List.append_cancel_right (split.symm.trans isSource)
    exact ⟨spelling.nonempty, spelling.last⟩

theorem tokensOf_head (offset : Nat) (pieces : List Piece) : ∃ next rest, tokensOf offset pieces = next :: rest ∧
    next.offset = offset := by
  cases pieces with
  | nil => exact ⟨_, _, rfl, rfl⟩
  | cons piece rest => exact ⟨_, _, rfl, rfl⟩

theorem fingerprintFrom_step {sql out gap shown : Text} {cursor stop : Nat} {token next : Token} {rest : List Token}
    (isGap : sql.slice cursor token.offset = some gap) (isStop : trimEnd sql token.offset next.offset = some stop)
    (isShown : sql.slice token.offset stop = some shown) :
    fingerprintFrom sql out cursor (token :: next :: rest) =
      fingerprintFrom sql (out ++ gap ++ if isLiteral token.kind then ['?'] else shown) stop (next :: rest) := by
  simp only [fingerprintFrom, isGap, isStop, isShown, bind, Option.bind_some]
  split <;> rfl

theorem fingerprintFrom_pieces {pieces : List Piece} (trimmed : ∀ piece ∈ pieces, piece.Trimmed)
    (written pending out : Text) :
    fingerprintFrom (written ++ (pending ++ pieces.flatMap Piece.text)) out written.byteLength
        (tokensOf (written ++ pending).byteLength pieces) =
      some (out ++ (pending ++ pieces.flatMap Piece.shown)) := by
  induction pieces generalizing written pending out with
  | nil =>
    have rest := slice_between written pending []
    rw [List.append_nil] at rest
    rw [tokensOf, fingerprintFrom, List.flatMap_nil, List.flatMap_nil, List.append_nil, asBytes_length, rest]
    · rfl
    · simp
  | cons piece others ih =>
    obtain ⟨kind, source, trivia⟩ := piece
    obtain ⟨nonempty, last⟩ := trimmed _ List.mem_cons_self
    simp only at nonempty last
    have rejoin : trivia.rdropWhile isAsciiWhitespace ++ trivia.rtakeWhile isAsciiWhitespace = trivia :=
      List.rdropWhile_append_rtakeWhile
    have rest := ih (fun other member => trimmed other (List.mem_cons_of_mem _ member))
      (written ++ pending ++ (source ++ trivia.rdropWhile isAsciiWhitespace)) (trivia.rtakeWhile isAsciiWhitespace)
    have gap := slice_between written pending ((source ++ trivia) ++ others.flatMap Piece.text)
    have stop := trimEnd_trivia (written ++ pending) trivia (others.flatMap Piece.text) nonempty last
    have token := slice_between (written ++ pending) (source ++ trivia.rdropWhile isAsciiWhitespace)
      (trivia.rtakeWhile isAsciiWhitespace ++ others.flatMap Piece.text)
    generalize trivia.rdropWhile isAsciiWhitespace = kept at *
    generalize blanks : trivia.rtakeWhile isAsciiWhitespace = pending' at *
    subst rejoin
    have offset : (written ++ pending ++ (source ++ (kept ++ pending'))).byteLength =
        (written ++ pending).byteLength + (source ++ (kept ++ pending')).byteLength := byteLength_append _ _
    obtain ⟨next, tokens, isTokens, isNext⟩ :=
      tokensOf_head ((written ++ pending).byteLength + (source ++ (kept ++ pending')).byteLength) others
    rw [List.flatMap_cons, List.flatMap_cons, Piece.text, tokensOf, Piece.text, isTokens]
    rw [← isNext] at offset
    simp only [List.append_assoc] at gap stop token rest offset isTokens isNext ⊢
    rw [offset] at stop
    rw [fingerprintFrom_step gap stop token]
    have tokensAfter : tokensOf (byteLength (written ++ (pending ++ (source ++ (kept ++ pending'))))) others =
      next :: tokens := by
      rw [offset, isNext]
      exact isTokens
    rw [tokensAfter] at rest
    rw [rest, Piece.shown, blanks]
    dsimp only
    split
    · simp
    · simp [Piece.text]

theorem Segmented.text {text lead : Text} {pieces : List Piece} (segmented : Segmented text lead pieces) :
    lead ++ pieces.flatMap Piece.text = text := by
  rw [segmented.pieces.text, ← segmented.skipped]

theorem fingerprint_segmented {text lead : Text} {pieces : List Piece} (segmented : Segmented text lead pieces) :
    fingerprint text = some (lead ++ pieces.flatMap Piece.shown) := by
  have shown := fingerprintFrom_pieces segmented.pieces.trimmed [] lead []
  rw [List.nil_append, segmented.text] at shown
  rw [fingerprint, tokenize_eq_ok.mpr ⟨lead, pieces, segmented, rfl⟩]
  exact shown

theorem fingerprint_error {text : Text} {err : Lexer.Failure} (failed : Lexer.tokenize text = .error err) :
    fingerprint text = some ['?'] := by
  rw [Lexer.tokenize_eq] at failed
  cases found : tokenize text with
  | ok tokens =>
    rw [found] at failed
    cases failed
  | error other =>
    rw [fingerprint, Lexer.tokenize_eq, found]
    rfl

def Piece.Alike (piece other : Piece) : Prop :=
  piece.trivia = other.trivia ∧
    (isLiteral piece.kind = true ∧ isLiteral other.kind = true ∨ piece.kind = other.kind ∧ piece.source = other.source)

theorem Piece.Alike.shown {piece other : Piece} (alike : piece.Alike other) : piece.shown = other.shown := by
  obtain ⟨trivia, ⟨literal, otherLiteral⟩ | ⟨kind, source⟩⟩ := alike
  · rw [Piece.shown, Piece.shown, if_pos literal, if_pos otherLiteral, trivia]
  · rw [Piece.shown, Piece.shown, Piece.text, Piece.text, kind, source, trivia]

theorem fingerprint_hides_literals (text other : Text) :
    (∀ (lead : Text) (pieces others : List Piece), Segmented text lead pieces → Segmented other lead others →
      List.Forall₂ Piece.Alike pieces others →
      ∃ shown, fingerprint text = some shown ∧ fingerprint other = some shown) ∧
    ∀ err otherErr, Lexer.tokenize text = .error err → Lexer.tokenize other = .error otherErr →
      ∃ shown, fingerprint text = some shown ∧ fingerprint other = some shown := by
  refine ⟨fun lead pieces others segmented otherSegmented alike => ?_, fun err otherErr failed otherFailed => ?_⟩
  · have same : pieces.flatMap Piece.shown = others.flatMap Piece.shown := by
      clear segmented otherSegmented
      induction alike with
      | nil => rfl
      | cons first _ ih => rw [List.flatMap_cons, List.flatMap_cons, first.shown, ih]
    refine ⟨_, fingerprint_segmented segmented, ?_⟩
    rw [fingerprint_segmented otherSegmented, same]
  · exact ⟨_, fingerprint_error failed, fingerprint_error otherFailed⟩

theorem fingerprint_hides_literals_equal : ∃ shown, fingerprint "a = 1".toList = some shown ∧
    fingerprint "a = 'x y'".toList = some shown := by
  have number : Segmented "a = 1".toList []
    [⟨.identifier ['a'], ['a'], [' ']⟩, ⟨.eq, ['='], [' ']⟩, ⟨.integerLiteral 1, ['1'], []⟩] :=
    ⟨rfl, .next (show lexToken 'a' " = 1".toList 0 = .ok (_, " = 1".toList) from rfl) rfl rfl
      (.next (show lexToken '=' " 1".toList 0 = .ok (_, " 1".toList) from rfl) rfl rfl
        (.next (show lexToken '1' [] 0 = .ok (_, []) from rfl) rfl rfl .done))⟩
  have string : Segmented "a = 'x y'".toList []
      [⟨.identifier ['a'], ['a'], [' ']⟩, ⟨.eq, ['='], [' ']⟩, ⟨.stringLiteral "x y".toList, "'x y'".toList, []⟩] :=
    ⟨rfl, .next (show lexToken 'a' " = 'x y'".toList 0 = .ok (_, " = 'x y'".toList) from rfl) rfl rfl
      (.next (show lexToken '=' " 'x y'".toList 0 = .ok (_, " 'x y'".toList) from rfl) rfl rfl
        (.next (show lexToken '\'' "x y'".toList 0 = .ok (_, []) from rfl) rfl rfl .done))⟩
  exact (fingerprint_hides_literals _ _).1 _ _ _ number string
    (.cons ⟨rfl, .inr ⟨rfl, rfl⟩⟩ (.cons ⟨rfl, .inr ⟨rfl, rfl⟩⟩ (.cons ⟨rfl, .inl ⟨rfl, rfl⟩⟩ .nil)))

structure WellPlaced (text : Text) (tokens : List Token) : Prop where
  ends : ∃ front last, tokens = front ++ [{ kind := .eof, offset := last }] ∧ last ≤ text.byteLength ∧
    ∀ token ∈ front, token.kind ≠ .eof
  increasing : (tokens.map Token.offset).Pairwise (· < ·)
  boundary : ∀ token ∈ tokens, text.isCharBoundary token.offset = true

theorem tokensOf_ends {pieces : List Piece} (offset : Nat) (inside : ∀ piece ∈ pieces, piece.kind ≠ .eof) :
    ∃ front, tokensOf offset pieces =
        front ++ [{ kind := .eof, offset := offset + byteLength (pieces.flatMap Piece.text) }] ∧
      ∀ token ∈ front, token.kind ≠ .eof := by
  induction pieces generalizing offset with
  | nil => exact ⟨[], rfl, by simp⟩
  | cons piece rest ih =>
    obtain ⟨front, isFront, others⟩ := ih (offset + piece.text.byteLength) fun other member =>
      inside other (List.mem_cons_of_mem _ member)
    refine ⟨{ kind := piece.kind, offset } :: front, ?_, ?_⟩
    · rw [tokensOf, isFront, List.flatMap_cons, byteLength_append, Nat.add_assoc]
      rfl
    · exact List.forall_mem_cons.mpr ⟨inside piece List.mem_cons_self, others⟩

theorem Piece.Trimmed.positive {piece : Piece} (trimmed : piece.Trimmed) : 0 < piece.text.byteLength := by
  obtain ⟨c, rest, isSource⟩ := List.exists_cons_of_ne_nil trimmed.nonempty
  have := c.utf8Size_pos
  rw [Piece.text, isSource, List.cons_append, byteLength_cons]
  omega

theorem tokensOf_increasing {pieces : List Piece} (offset : Nat) (trimmed : ∀ piece ∈ pieces, piece.Trimmed) :
    ((tokensOf offset pieces).map Token.offset).Pairwise
      (· < ·) ∧ ∀ token ∈ tokensOf offset pieces, offset ≤ token.offset := by
  induction pieces generalizing offset with
  | nil => simp [tokensOf]
  | cons piece rest ih =>
    have positive := (trimmed piece List.mem_cons_self).positive
    obtain ⟨increasing, above⟩ := ih (offset + piece.text.byteLength) fun other member =>
      trimmed other (List.mem_cons_of_mem _ member)
    rw [tokensOf, List.map_cons, List.pairwise_cons, List.forall_mem_cons, List.forall_mem_map]
    refine ⟨⟨fun token member => ?_, increasing⟩, le_rfl, fun token member => ?_⟩
    · have := above token member
      simp only
      omega
    · have := above token member
      omega

theorem tokensOf_boundary (pieces : List Piece) (front : Text) :
    ∀ token ∈ tokensOf front.byteLength pieces,
      (front ++ pieces.flatMap Piece.text).isCharBoundary token.offset = true := by
  induction pieces generalizing front with
  | nil =>
    rw [tokensOf, List.forall_mem_singleton]
    exact isCharBoundary_byteLength front []
  | cons piece rest ih =>
    rw [tokensOf, List.forall_mem_cons]
    refine ⟨isCharBoundary_byteLength front _, ?_⟩
    have others := ih (front ++ piece.text)
    rwa [byteLength_append, List.append_assoc] at others

theorem Pieces.ne_eof {text : Text} {pieces : List Piece} (segmented : Pieces text pieces) :
    ∀ piece ∈ pieces, piece.kind ≠ .eof := by
  induction segmented with
  | done => simp
  | next lexed _ _ _ ih =>
    obtain ⟨_, _, spelling⟩ := lexToken_spelling lexed
    exact List.forall_mem_cons.mpr ⟨spelling.ne_eof, ih⟩

theorem wellPlaced_of_segmented {text lead : Text} {pieces : List Piece} (segmented : Segmented text lead pieces) :
    WellPlaced text (tokensOf lead.byteLength pieces) where
  ends := by
    obtain ⟨front, isFront, others⟩ := tokensOf_ends lead.byteLength segmented.pieces.ne_eof
    refine ⟨front, _, isFront, ?_, others⟩
    rw [← byteLength_append, segmented.text]
  increasing := (tokensOf_increasing _ segmented.pieces.trimmed).1
  boundary := by
    have boundary := tokensOf_boundary pieces lead
    rwa [segmented.text] at boundary

def doubled (value : Text) : Text := value.flatMap fun c => if c = '\'' then ['\'', '\''] else [c]

def quoted (value : Text) : Text := '\'' :: (doubled value ++ ['\''])

theorem lexString_doubled (acc value : Text) : lexString acc (doubled value ++ ['\'']) = some (acc ++ value, []) := by
  induction value generalizing acc with
  | nil => rw [List.append_nil]; rfl
  | cons c rest ih =>
    rw [doubled, List.flatMap_cons]
    by_cases quote : c = '\''
    · subst quote
      exact (ih (acc ++ ['\''])).trans (by simp)
    · have next : lexString acc (c :: (doubled rest ++ ['\''])) = lexString (acc ++ [c]) (doubled rest ++ ['\'']) := by
        rw [lexString]
        · exact fun _ same _ => quote same
        · exact quote
      rw [if_neg quote]
      exact next.trans ((ih (acc ++ [c])).trans (by simp))

theorem segmented_quoted (value : Text) : Segmented (quoted value) [] [⟨.stringLiteral value, quoted value, []⟩] := by
  have lexed : lexToken '\'' (doubled value ++ ['\'']) 0 = .ok (.stringLiteral value, []) := by
    have body := lexString_doubled [] value
    rw [lexToken, if_neg (by decide), if_pos (by decide), body]
    rfl
  exact ⟨rfl, .next lexed (List.append_nil _).symm rfl .done⟩

/-- The lexer ends on every text without a panic, and a string is read back from its literal. -/
theorem lexing_total (text : Text) :
    ((∃ err, Lexer.tokenize text = .error (.sql err)) ∨ ∃ tokens, Lexer.tokenize text = .ok tokens ∧
      WellPlaced text tokens) ∧ (∃ shown, fingerprint text = some shown) ∧
      Lexer.tokenize (quoted text) =
        .ok [{ kind := .stringLiteral text, offset := 0 }, { kind := .eof, offset := (quoted text).byteLength }] := by
  have literal : Lexer.tokenize (quoted text) =
      .ok [{ kind := .stringLiteral text, offset := 0 }, { kind := .eof, offset := (quoted text).byteLength }] := by
    refine tokenize_eq_ok.mpr ⟨[], _, segmented_quoted text, ?_⟩
    rw [tokensOf, tokensOf, Piece.text, List.append_nil, show byteLength [] = 0 from rfl, Nat.zero_add]
  have failed_or (err : Lexer.Failure) (failed : Lexer.tokenize text = .error err) :
      ∃ err, Lexer.tokenize text = .error (.sql err) := by
    rw [Lexer.tokenize_eq] at failed ⊢
    cases found : tokenize text with
    | error err => exact ⟨err, rfl⟩
    | ok tokens =>
      rw [found] at failed
      cases failed
  cases lexed : Lexer.tokenize text with
  | error err =>
    obtain ⟨err, isErr⟩ := failed_or err lexed
    exact ⟨.inl ⟨err, lexed.symm.trans isErr⟩, ⟨_, fingerprint_error lexed⟩, literal⟩
  | ok tokens =>
    obtain ⟨lead, pieces, segmented, rfl⟩ := tokenize_eq_ok.mp lexed
    exact ⟨.inr ⟨_, rfl, wellPlaced_of_segmented segmented⟩, ⟨_, fingerprint_segmented segmented⟩, literal⟩

end SimpleRdbms.Sql
