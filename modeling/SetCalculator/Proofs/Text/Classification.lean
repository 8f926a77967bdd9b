import SetCalculator.Proofs.Text.Tokens

/-!
# What a word is, and what a text is refused for

Each kind of token has a rule, the set of words that it covers, and no word is
covered by two. A word has the kind whose rule covers all of it, which is what
a scanner finds that takes the longest match at the start of the word and
insists that it ends where the word does: a shorter match says nothing.

So a text has tokens exactly when each of its words is covered by a rule, and
otherwise the first word that no rule covers is reported, with the number of
words before it.
-/

namespace SetCalculator

/-! ## The rules -/

/-- The words that may name a function: a capital letter, then capital letters
and underscores, all of them of ASCII. -/
def IsFunctionName (word : String) : Prop :=
  ∃ first rest, word.toList = first :: rest ∧ ('A' ≤ first ∧ first ≤ 'Z') ∧
    ∀ c ∈ rest, ('A' ≤ c ∧ c ≤ 'Z') ∨ c = '_'

namespace TokenKind

/-- The rule of a kind: the words that it covers. -/
def Covers : TokenKind → String → Prop
  | .callStart, word => word = "["
  | .callEnd, word => word = "]"
  | .functionName, word => IsFunctionName word
  | .fileName, word => IsFileName word

theorem continuesFunctionName_iff {c : Char} :
    continuesFunctionName c = true ↔ ('A' ≤ c ∧ c ≤ 'Z') ∨ c = '_' := by
  simp [continuesFunctionName, isUpper_iff]

theorem ofWord?_of_isUpper {first : Char} {rest : List Char}
    (h : first.isUpper = true) :
    ofWord? (first :: rest) =
      if rest.all continuesFunctionName then some .functionName else none := by
  have hlower : first.isLower = false := by
    rw [Bool.eq_false_iff]
    intro hlower
    rw [not_isUpper_of_isLower hlower] at h
    cases h
  rw [ofWord?_of_ne_bracket (by rintro rfl; cases h) (by rintro rfl; cases h),
    h, hlower]
  rfl

theorem ofWord?_eq_functionName_iff {word : String} :
    ofWord? word.toList = some .functionName ↔ IsFunctionName word := by
  refine ⟨?_, ?_⟩
  · intro h
    rw [ofWord?.eq_def] at h
    split at h
    · cases h
    · cases h
    · cases h
    · next first rest _ _ hword =>
        split at h
        · next hclass =>
            rw [Bool.and_eq_true, List.all_eq_true] at hclass
            refine ⟨first, rest, hword, isUpper_iff.1 hclass.1, ?_⟩
            exact fun c hc => continuesFunctionName_iff.1 (hclass.2 c hc)
        · split at h <;> cases h
  · intro h
    obtain ⟨first, rest, hword, hfirst, hrest⟩ := h
    rw [hword, ofWord?_of_isUpper (isUpper_iff.2 hfirst), if_pos]
    exact List.all_eq_true.2 fun c hc =>
      continuesFunctionName_iff.2 (hrest c hc)

/-- A word has the kind whose rule covers it. -/
theorem ofWord?_eq_some_iff {word : String} {kind : TokenKind} :
    ofWord? word.toList = some kind ↔ kind.Covers word := by
  cases kind with
  | callStart => exact ofWord?_eq_callStart_iff
  | callEnd => exact ofWord?_eq_callEnd_iff
  | functionName => exact ofWord?_eq_functionName_iff
  | fileName => exact ofWord?_eq_fileName_iff

theorem ofWord?_eq_none_iff {word : String} :
    ofWord? word.toList = none ↔ ∀ kind : TokenKind, ¬ kind.Covers word := by
  rw [Option.eq_none_iff_forall_ne_some]
  exact forall_congr' fun kind => not_congr ofWord?_eq_some_iff

theorem Covers.unique {word : String} {kind kind' : TokenKind}
    (h : kind.Covers word) (h' : kind'.Covers word) : kind = kind' := by
  rw [← ofWord?_eq_some_iff] at h h'
  rw [h] at h'
  exact Option.some.inj h'

/-! ## Longest matches -/

/-- The longest beginning of a text that some rule covers, and the kind of that
rule: everything else that a rule covers at the start of the text is part of
it. -/
structure LongestMatch (text : String) (kind : TokenKind) (lexeme : String) :
    Prop where
  start : lexeme.toList <+: text.toList
  covered : kind.Covers lexeme
  longest : ∀ kind' : TokenKind, ∀ shorter, kind'.Covers shorter →
    shorter.toList <+: text.toList → shorter.toList <+: lexeme.toList

theorem LongestMatch.of_covers {word : String} {kind : TokenKind}
    (h : kind.Covers word) : LongestMatch word kind word where
  start := List.prefix_refl _
  covered := h
  longest _ _ _ hstart := hstart

/-- A beginning of a text that takes up all its bytes is all of the text. -/
theorem eq_of_prefix_of_size_eq {lexeme text : String}
    (hstart : lexeme.toList <+: text.toList)
    (hsize : lexeme.utf8ByteSize = text.utf8ByteSize) : lexeme = text := by
  obtain ⟨more, hmore⟩ := hstart
  have htext : text = lexeme ++ String.ofList more := by
    rw [← String.toList_inj, String.toList_append, String.toList_ofList, hmore]
  rw [htext, String.utf8ByteSize_append] at hsize
  have hnothing : String.ofList more = "" :=
    String.utf8ByteSize_eq_zero_iff.1 (by omega)
  rw [htext, hnothing, String.append_empty]

/-- The kind of a word is that of the longest match at its start, provided the
match ends at the last byte of the word. -/
theorem covers_iff_longestMatch {word : String} {kind : TokenKind} :
    kind.Covers word ↔ ∃ lexeme, LongestMatch word kind lexeme ∧
      lexeme.utf8ByteSize = word.utf8ByteSize := by
  refine ⟨fun h => ⟨word, .of_covers h, rfl⟩, ?_⟩
  intro h
  obtain ⟨lexeme, hmatch, hsize⟩ := h
  rw [← eq_of_prefix_of_size_eq hmatch.start hsize]
  exact hmatch.covered

end TokenKind

/-! ## Only words are covered -/

theorem IsFunctionName.isWord {word : String} (h : IsFunctionName word) :
    Text.IsWord word := by
  obtain ⟨first, rest, hword, hfirst, hrest⟩ := h
  refine ⟨fun hempty => ?_, fun c hc => ?_⟩
  · rw [hempty] at hword
    cases hword
  · apply Text.isBlank_of_visible
    have hA : ('A' : Char).toNat = 65 := rfl
    have hZ : ('Z' : Char).toNat = 90 := rfl
    simp only [Char.le_def, UInt32.le_iff_toNat_le, Char.toNat_val]
      at hfirst hrest
    rw [hword, List.mem_cons] at hc
    rcases hc with rfl | hc
    · omega
    · rcases hrest c hc with h | rfl
      · omega
      · decide

theorem TokenKind.Covers.isWord {word : String} {kind : TokenKind}
    (h : kind.Covers word) : Text.IsWord word := by
  cases kind with
  | callStart => rw [h]; exact Text.isWord_of_all (by decide) rfl
  | callEnd => rw [h]; exact Text.isWord_of_all (by decide) rfl
  | functionName => exact IsFunctionName.isWord h
  | fileName => exact IsFileName.isWord h

/-! ## Texts -/

namespace Token

theorem exists_ofWord_eq_ok_iff {word : String} {position : Nat} :
    (∃ token, ofWord word position = .ok token) ↔
      ∃ kind, TokenKind.ofWord? word.toList = some kind := by
  refine ⟨?_, ?_⟩
  · intro h
    obtain ⟨token, htoken⟩ := h
    obtain ⟨rfl, hkind⟩ := ofWord_eq_ok_iff.1 htoken
    exact ⟨token.kind, hkind⟩
  · intro h
    obtain ⟨kind, hkind⟩ := h
    exact ⟨⟨kind, word⟩, ofWord_eq_ok_iff.2 ⟨rfl, hkind⟩⟩

theorem ofWord_eq_error_iff {word : String} {position : Nat}
    {error : UnknownWord} :
    ofWord word position = .error error ↔
      TokenKind.ofWord? word.toList = none ∧ error = ⟨word, position⟩ := by
  rw [ofWord]
  cases hkind : TokenKind.ofWord? word.toList with
  | some kind => simp
  | none => simp [eq_comm]

theorem ofText_eq_ok_iff_forall₂ {text : String} {tokens : List Token} :
    ofText text = .ok tokens ↔
      List.Forall₂ (fun word token => token.raw = word ∧
        TokenKind.ofWord? word.toList = some token.kind)
        (Text.words text) tokens := by
  refine mapM_zipIdx_eq_ok_iff fun word position token => ?_
  rw [ofWord_eq_ok_iff]
  refine ⟨?_, ?_⟩
  · intro h
    obtain ⟨rfl, hkind⟩ := h
    exact ⟨rfl, hkind⟩
  · intro h
    obtain ⟨rfl, hkind⟩ := h
    exact ⟨rfl, hkind⟩

/-- The word that is reported is the first that no rule covers. -/
theorem ofText_eq_error_iff {text : String} {error : UnknownWord} :
    ofText text = .error error ↔
      ∃ before after, Text.words text = before ++ error.word :: after ∧
        (∀ word ∈ before, ∃ kind,
          TokenKind.ofWord? word.toList = some kind) ∧
        TokenKind.ofWord? error.word.toList = none ∧
        error.position = before.length := by
  rw [ofText, mapM_zipIdx_eq_error_iff fun _ _ => exists_ofWord_eq_ok_iff]
  simp only [ofWord_eq_error_iff, Nat.zero_add]
  refine ⟨?_, ?_⟩
  · intro h
    obtain ⟨before, word, after, hwords, hgood, hbad, rfl⟩ := h
    exact ⟨before, after, hwords, hgood, hbad, rfl⟩
  · intro h
    obtain ⟨before, after, hwords, hgood, hbad, hposition⟩ := h
    obtain ⟨word, position⟩ := error
    subst hposition
    exact ⟨before, word, after, hwords, hgood, hbad, rfl⟩

theorem exists_ofText_eq_ok_iff {text : String} :
    (∃ tokens, ofText text = .ok tokens) ↔
      ∀ word ∈ Text.words text, ∃ kind,
        TokenKind.ofWord? word.toList = some kind := by
  refine ⟨?_, ?_⟩
  · intro h word hword
    obtain ⟨tokens, htokens⟩ := h
    obtain ⟨hwords, hkinds⟩ := ofText_eq_ok_iff.1 htokens
    rw [hwords, List.mem_map] at hword
    obtain ⟨token, htoken, rfl⟩ := hword
    exact ⟨token.kind, hkinds token htoken⟩
  · intro h
    cases htext : ofText text with
    | ok tokens => exact ⟨tokens, rfl⟩
    | error error =>
        obtain ⟨before, after, hwords, -, hbad, -⟩ :=
          ofText_eq_error_iff.1 htext
        obtain ⟨kind, hkind⟩ := h error.word (by simp [hwords])
        rw [hbad] at hkind
        cases hkind

/-- Reading a text cuts it into its words, the longest runs without a blank,
and gives each word the kind whose rule covers all of it: the four rules have
no word in common, and a longest match that ends before the word does is none.
There is one token for each word, verbatim, unless some word has no kind; then
the first such word is reported with the number of words before it. -/
theorem ofText_classifies_words (text : String) :
    (∀ (word : String) (kind : TokenKind),
      (TokenKind.ofWord? word.toList = some kind ↔ kind.Covers word) ∧
      (TokenKind.ofWord? word.toList = some kind ↔
        ∃ lexeme, TokenKind.LongestMatch word kind lexeme ∧
          lexeme.utf8ByteSize = word.utf8ByteSize)) ∧
    (∀ (word : String) (kind kind' : TokenKind),
      kind.Covers word → kind'.Covers word → kind = kind') ∧
    (∀ word : String, (¬ Text.IsWord word ∨
      ∀ kind : TokenKind, ¬ kind.Covers word) →
      TokenKind.ofWord? word.toList = none) ∧
    ∃ ws, (∀ ws', Text.CutsInto text.toList ws' ↔ ws' = ws) ∧
      ((∃ tokens, ofText text = .ok tokens) ↔
        ∀ word ∈ ws, ∃ kind, TokenKind.ofWord? word.toList = some kind) ∧
      (∀ tokens, ofText text = .ok tokens ↔
        List.Forall₂ (fun word token => token.raw = word ∧
          TokenKind.ofWord? word.toList = some token.kind) ws tokens) ∧
      (∀ error, ofText text = .error error ↔
        ∃ before after, ws = before ++ error.word :: after ∧
          (∀ word ∈ before, ∃ kind,
            TokenKind.ofWord? word.toList = some kind) ∧
          TokenKind.ofWord? error.word.toList = none ∧
          error.position = before.length) := by
  refine ⟨fun word kind => ⟨?_, ?_⟩, fun _ _ _ => TokenKind.Covers.unique, ?_,
    Text.words text, ?_, ?_, ?_, fun _ => ofText_eq_error_iff⟩
  · exact TokenKind.ofWord?_eq_some_iff
  · rw [TokenKind.ofWord?_eq_some_iff, TokenKind.covers_iff_longestMatch]
  · intro word h
    rw [TokenKind.ofWord?_eq_none_iff]
    rcases h with hword | hnone
    · exact fun kind hcovers => hword hcovers.isWord
    · exact hnone
  · intro ws'
    rw [← Text.words_eq_iff]
    exact eq_comm
  · exact exists_ofText_eq_ok_iff
  · exact fun tokens => ofText_eq_ok_iff_forall₂

end Token

end SetCalculator
