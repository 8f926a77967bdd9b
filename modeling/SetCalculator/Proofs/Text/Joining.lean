import SetCalculator.Proofs.Text.Classification

/-!
# The tokens of texts with a gap between them

A gap ends whatever word comes before it, so two texts with a gap between them
have the words of the first and then those of the second, and they are read one
after the other: the second only if the first has tokens, and with its words
counted from the end of the first. How wide the gap is, and which blanks it is
made of, shows in no token and in no position.

So a text that spaces words of known kinds has one token for each of them, and
so has the text in which these tokens stand with single spaces.
-/

namespace SetCalculator.Token

variable {a b gap : String} {tokens : List Token}

theorem ofText_gap_of_error (hgap : Text.IsGap gap) {error : UnknownWord}
    (h : ofText a = .error error) : ofText (a ++ gap ++ b) = .error error := by
  obtain ⟨before, after, hwords, hgood, hbad, hposition⟩ :=
    ofText_eq_error_iff.1 h
  refine ofText_eq_error_iff.2
    ⟨before, after ++ Text.words b, ?_, hgood, hbad, hposition⟩
  rw [Text.words_append_gap hgap, hwords, List.append_assoc, List.cons_append]

theorem ofText_gap_of_ok (hgap : Text.IsGap gap) {tokens' : List Token}
    (h : ofText a = .ok tokens) (h' : ofText b = .ok tokens') :
    ofText (a ++ gap ++ b) = .ok (tokens ++ tokens') := by
  obtain ⟨hwords, hkinds⟩ := ofText_eq_ok_iff.1 h
  obtain ⟨hwords', hkinds'⟩ := ofText_eq_ok_iff.1 h'
  refine ofText_eq_ok_iff.2 ⟨?_, List.forall_mem_append.2 ⟨hkinds, hkinds'⟩⟩
  rw [Text.words_append_gap hgap, hwords, hwords', List.map_append]

theorem ofText_gap_of_later_error (hgap : Text.IsGap gap) {word : String}
    {position : Nat} (h : ofText a = .ok tokens)
    (h' : ofText b = .error ⟨word, position⟩) :
    ofText (a ++ gap ++ b) = .error ⟨word, position + tokens.length⟩ := by
  obtain ⟨hwords, hkinds⟩ := ofText_eq_ok_iff.1 h
  obtain ⟨before, after, hwords', hgood, hbad, hposition⟩ :=
    ofText_eq_error_iff.1 h'
  have hknown : ∀ word ∈ tokens.map Token.raw, ∃ kind,
      TokenKind.ofWord? word.toList = some kind :=
    List.forall_mem_map.2 fun token htoken => ⟨_, hkinds token htoken⟩
  refine ofText_eq_error_iff.2 ⟨tokens.map Token.raw ++ before, after, ?_,
    List.forall_mem_append.2 ⟨hknown, hgood⟩, hbad, ?_⟩
  · rw [Text.words_append_gap hgap, hwords, hwords', List.append_assoc]
  · rw [List.length_append, List.length_map, Nat.add_comm, ← hposition]

theorem isWord_of_kind {word : String} {kind : TokenKind}
    (h : TokenKind.ofWord? word.toList = some kind) : Text.IsWord word :=
  (TokenKind.ofWord?_eq_some_iff.1 h).isWord

/-- A text that spaces the words of tokens has these tokens. -/
theorem ofText_of_spaces {text : String}
    (h : Text.Spaces (tokens.map Token.raw) text)
    (hkinds : ∀ token ∈ tokens,
      TokenKind.ofWord? token.raw.toList = some token.kind) :
    ofText text = .ok tokens := by
  refine ofText_eq_ok_iff.2 ⟨h.words_eq ?_, hkinds⟩
  exact List.forall_mem_map.2 fun token htoken =>
    isWord_of_kind (hkinds token htoken)

/-- Two texts with a gap between them are read one after the other: the first
word without a kind is reported as in the text it stands in, its position moved
by the tokens in front, and without one the tokens of the first text are
followed by those of the second. So a text that spaces words of known kinds has
one token for each of them, whatever the spacing, and the texts of these tokens
with single spaces between them are its words with single spaces, which have the
same tokens. -/
theorem ofText_of_texts_with_gaps :
    (∀ a gap b : String, Text.IsGap gap →
      (∀ error, ofText a = .error error →
        ofText (a ++ gap ++ b) = .error error) ∧
      (∀ tokens tokens', ofText a = .ok tokens → ofText b = .ok tokens' →
        ofText (a ++ gap ++ b) = .ok (tokens ++ tokens')) ∧
      (∀ tokens word position, ofText a = .ok tokens →
        ofText b = .error ⟨word, position⟩ →
        ofText (a ++ gap ++ b) = .error ⟨word, position + tokens.length⟩)) ∧
    ∀ (ws : List String) (text : String), Text.Spaces ws text →
      (∀ word ∈ ws, ∃ kind, TokenKind.ofWord? word.toList = some kind) →
      ∃ tokens, ofText text = .ok tokens ∧ tokens.map Token.raw = ws ∧
        (∀ token ∈ tokens,
          TokenKind.ofWord? token.raw.toList = some token.kind) ∧
        " ".intercalate (tokens.map Token.raw) =
          " ".intercalate (Text.words text) ∧
        ofText (" ".intercalate (tokens.map Token.raw)) = .ok tokens := by
  refine ⟨fun a gap b hgap => ⟨?_, ?_, ?_⟩, fun ws text hspaces hknown => ?_⟩
  · exact fun _ h => ofText_gap_of_error hgap h
  · exact fun _ _ h h' => ofText_gap_of_ok hgap h h'
  · exact fun _ _ _ h h' => ofText_gap_of_later_error hgap h h'
  · have hwords : Text.words text = ws := hspaces.words_eq fun word hword =>
      (hknown word hword).elim fun _ => isWord_of_kind
    obtain ⟨tokens, htext⟩ := exists_ofText_eq_ok_iff.2 (by rwa [hwords])
    obtain ⟨hraw, hkinds⟩ := ofText_eq_ok_iff.1 htext
    refine ⟨tokens, htext, hraw.symm.trans hwords, hkinds, by rw [hraw], ?_⟩
    exact ofText_of_spaces (Text.spaces_with_spaces _) hkinds

/-- A seam of a wide blank and a line ending, with more blanks on both sides of
it, and words that are spaced in three ways. -/
theorem ofText_of_texts_with_odd_gaps :
    let tokens : List Token := [.callStart, .functionName "SUM"]
    let tokens' : List Token := [.fileName "a.txt", .callEnd]
    ofText ("\t[ SUM " ++ "\u3000\r\n" ++ "\u00a0a.txt ]\n") =
        .ok (tokens ++ tokens') ∧
      ofText ("\t[ SUM " ++ "\u3000\r\n" ++ "a.txt\u2003b$ ]") =
        .error ⟨"b$", 3⟩ ∧
      ofText ("[ SUM*" ++ "\u3000\r\n" ++ "b$ ]") = .error ⟨"SUM*", 1⟩ ∧
      ∃ tokens, ofText "\u2028[\t \tSUM\u0085a.txt ]" = .ok tokens ∧
        tokens.map Token.raw = ["[", "SUM", "a.txt", "]"] ∧
        " ".intercalate (tokens.map Token.raw) = "[ SUM a.txt ]" ∧
        ofText (" ".intercalate (tokens.map Token.raw)) = .ok tokens := by
  intro tokens tokens'
  obtain ⟨hgaps, hspaced⟩ := ofText_of_texts_with_gaps
  have hgap : Text.IsGap "\u3000\r\n" := by decide
  have hfirst : ofText "\t[ SUM " = .ok tokens := by decide +kernel
  refine ⟨?_, ?_, ?_, ?_⟩
  · obtain ⟨-, hok, -⟩ := hgaps "\t[ SUM " _ "\u00a0a.txt ]\n" hgap
    exact hok tokens tokens' hfirst (by decide +kernel)
  · obtain ⟨-, -, herror⟩ := hgaps "\t[ SUM " _ "a.txt\u2003b$ ]" hgap
    exact herror tokens "b$" 1 hfirst (by decide +kernel)
  · obtain ⟨herror, -⟩ := hgaps "[ SUM*" _ "b$ ]" hgap
    exact herror ⟨"SUM*", 1⟩ (by decide +kernel)
  · have hspaces : Text.Spaces ["[", "SUM", "a.txt", "]"]
        "\u2028[\t \tSUM\u0085a.txt ]" := by
      have hwide : Text.IsBlankText "\u2028" := by decide
      have hthree : Text.IsGap "\t \t" := by decide
      have hnext : Text.IsGap "\u0085" := by decide
      have hspace : Text.IsGap " " := by decide
      exact .front hwide (.gap hthree "[" (.gap hnext "SUM"
        (.gap hspace "a.txt" (.last "]"))))
    have hknown : ∀ word ∈ ["[", "SUM", "a.txt", "]"], ∃ kind,
        TokenKind.ofWord? word.toList = some kind := by
      simp only [List.forall_mem_cons]
      exact ⟨⟨_, rfl⟩, ⟨_, rfl⟩, ⟨_, rfl⟩, ⟨_, rfl⟩, List.forall_mem_nil _⟩
    obtain ⟨tokens, htext, hraw, -, -, hagain⟩ := hspaced _ _ hspaces hknown
    refine ⟨tokens, htext, hraw, ?_, hagain⟩
    rw [hraw]
    decide

end SetCalculator.Token
