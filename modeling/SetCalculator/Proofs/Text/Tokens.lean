import SetCalculator.Proofs.Numbered
import SetCalculator.Proofs.Text.Words
import SetCalculator.Token

/-!
# The tokens of a text

A text has tokens exactly when each of its words has a kind, and then it has
one token for each word, with that kind and that word (`ofText_eq_ok_iff`). So
how the words are spaced is lost and nothing else is.
-/

namespace SetCalculator

/-! ## File names and brackets -/

/-- The words that may name a source: a small letter, then small letters,
digits, underscores, dots and slashes, all of them of ASCII. -/
def IsFileName (word : String) : Prop :=
  ∃ first rest, word.toList = first :: rest ∧ ('a' ≤ first ∧ first ≤ 'z') ∧
    ∀ c ∈ rest, ('a' ≤ c ∧ c ≤ 'z') ∨ ('0' ≤ c ∧ c ≤ '9') ∨
      c = '_' ∨ c = '.' ∨ c = '/'

theorem isLower_iff {c : Char} : c.isLower = true ↔ 'a' ≤ c ∧ c ≤ 'z' := by
  show (decide ('a' ≤ c) && decide (c ≤ 'z')) = true ↔ _
  rw [Bool.and_eq_true, decide_eq_true_eq, decide_eq_true_eq]

theorem isUpper_iff {c : Char} : c.isUpper = true ↔ 'A' ≤ c ∧ c ≤ 'Z' := by
  show decide ('A' ≤ c ∧ c ≤ 'Z') = true ↔ _
  rw [decide_eq_true_eq]

theorem isDigit_iff {c : Char} : c.isDigit = true ↔ '0' ≤ c ∧ c ≤ '9' := by
  show (decide ('0' ≤ c) && decide (c ≤ '9')) = true ↔ _
  rw [Bool.and_eq_true, decide_eq_true_eq, decide_eq_true_eq]

theorem IsFileName.isWord {word : String} (h : IsFileName word) :
    Text.IsWord word := by
  obtain ⟨first, rest, hword, hfirst, hrest⟩ := h
  refine ⟨fun hempty => ?_, fun c hc => ?_⟩
  · rw [hempty] at hword
    cases hword
  · apply Text.isBlank_of_visible
    have ha : ('a' : Char).toNat = 97 := rfl
    have hz : ('z' : Char).toNat = 122 := rfl
    have h0 : ('0' : Char).toNat = 48 := rfl
    have h9 : ('9' : Char).toNat = 57 := rfl
    simp only [Char.le_def, UInt32.le_iff_toNat_le, Char.toNat_val]
      at hfirst hrest
    rw [hword, List.mem_cons] at hc
    rcases hc with rfl | hc
    · omega
    · rcases hrest c hc with h | h | rfl | rfl | rfl
      · omega
      · omega
      all_goals decide

namespace TokenKind

theorem continuesFileName_iff {c : Char} :
    continuesFileName c = true ↔ ('a' ≤ c ∧ c ≤ 'z') ∨ ('0' ≤ c ∧ c ≤ '9') ∨
      c = '_' ∨ c = '.' ∨ c = '/' := by
  simp [continuesFileName, isLower_iff, isDigit_iff, or_assoc]

theorem not_isUpper_of_isLower {c : Char} (h : c.isLower = true) :
    c.isUpper = false := by
  rw [Bool.eq_false_iff, ne_eq, isUpper_iff]
  rw [isLower_iff] at h
  simp only [Char.le_def, UInt32.le_iff_toNat_le] at h ⊢
  have ha : ('a' : Char).val.toNat = 97 := rfl
  have hz : ('Z' : Char).val.toNat = 90 := rfl
  omega

theorem ofWord?_of_ne_bracket {first : Char} {rest : List Char}
    (hopening : first ≠ '[') (hclosing : first ≠ ']') :
    ofWord? (first :: rest) =
      if first.isUpper && rest.all continuesFunctionName then some .functionName
      else if first.isLower && rest.all continuesFileName then some .fileName
      else none := by
  rw [ofWord?.eq_def]
  split
  · next heq =>
      cases heq
      exact absurd rfl hopening
  · next heq =>
      cases heq
      exact absurd rfl hclosing
  · next heq => cases heq
  · next heq =>
      cases heq
      rfl

theorem ofWord?_of_isLower {first : Char} {rest : List Char}
    (h : first.isLower = true) :
    ofWord? (first :: rest) =
      if rest.all continuesFileName then some .fileName else none := by
  rw [ofWord?_of_ne_bracket (by rintro rfl; cases h) (by rintro rfl; cases h),
    not_isUpper_of_isLower h, h]
  rfl

/-- A word names a source exactly when it is one of the words that may. -/
theorem ofWord?_eq_fileName_iff {word : String} :
    ofWord? word.toList = some .fileName ↔ IsFileName word := by
  refine ⟨?_, ?_⟩
  · intro h
    rw [ofWord?.eq_def] at h
    split at h
    · cases h
    · cases h
    · cases h
    · next first rest _ _ hword =>
        split at h
        · cases h
        · split at h
          · next hclass =>
              rw [Bool.and_eq_true, List.all_eq_true] at hclass
              refine ⟨first, rest, hword, isLower_iff.1 hclass.1, ?_⟩
              exact fun c hc => continuesFileName_iff.1 (hclass.2 c hc)
          · cases h
  · intro h
    obtain ⟨first, rest, hword, hfirst, hrest⟩ := h
    rw [hword, ofWord?_of_isLower (isLower_iff.2 hfirst), if_pos]
    exact List.all_eq_true.2 fun c hc => continuesFileName_iff.2 (hrest c hc)

theorem ofWord?_eq_callStart_iff {word : String} :
    ofWord? word.toList = some .callStart ↔ word = "[" := by
  refine ⟨?_, fun h => by rw [h]; rfl⟩
  intro h
  rw [ofWord?.eq_def] at h
  split at h
  · next hword => exact String.toList_inj.1 hword
  · cases h
  · cases h
  · split at h
    · cases h
    · split at h <;> cases h

theorem ofWord?_eq_callEnd_iff {word : String} :
    ofWord? word.toList = some .callEnd ↔ word = "]" := by
  refine ⟨?_, fun h => by rw [h]; rfl⟩
  intro h
  rw [ofWord?.eq_def] at h
  split at h
  · cases h
  · next hword => exact String.toList_inj.1 hword
  · cases h
  · split at h
    · cases h
    · split at h <;> cases h

end TokenKind

/-! ## From words to tokens -/

namespace Token

theorem ofWord_eq_ok_iff {word : String} {position : Nat} {token : Token} :
    ofWord word position = .ok token ↔
      word = token.raw ∧
        TokenKind.ofWord? token.raw.toList = some token.kind := by
  rw [ofWord]
  refine ⟨?_, ?_⟩
  · intro h
    split at h
    · next kind hkind =>
        cases h
        exact ⟨rfl, hkind⟩
    · cases h
  · intro h
    obtain ⟨rfl, hkind⟩ := h
    rw [hkind]

/-- The tokens of a text are its words, each with its kind. -/
theorem ofText_eq_ok_iff {text : String} {tokens : List Token} :
    ofText text = .ok tokens ↔
      Text.words text = tokens.map Token.raw ∧
        ∀ token ∈ tokens,
          TokenKind.ofWord? token.raw.toList = some token.kind := by
  rw [ofText, mapM_zipIdx_eq_ok_iff fun _ _ _ => ofWord_eq_ok_iff]
  generalize Text.words text = words
  induction words generalizing tokens with
  | nil =>
      rw [List.forall₂_nil_left_iff]
      refine ⟨?_, ?_⟩
      · intro h
        rw [h]
        exact ⟨rfl, List.forall_mem_nil _⟩
      · intro h
        exact List.map_eq_nil_iff.1 h.1.symm
  | cons word words ih =>
      rw [List.forall₂_cons_left_iff]
      refine ⟨?_, ?_⟩
      · intro h
        obtain ⟨token, rest, ⟨rfl, hkind⟩, hrest, rfl⟩ := h
        obtain ⟨hwords, hkinds⟩ := ih.1 hrest
        rw [hwords]
        exact ⟨rfl, List.forall_mem_cons.2 ⟨hkind, hkinds⟩⟩
      · intro h
        obtain ⟨hwords, hkinds⟩ := h
        cases tokens with
        | nil => cases hwords
        | cons token rest =>
            obtain ⟨hword, hwords⟩ := List.cons.inj hwords
            obtain ⟨hkind, hkinds⟩ := List.forall_mem_cons.1 hkinds
            exact ⟨token, rest, ⟨hword, hkind⟩, ih.2 ⟨hwords, hkinds⟩, rfl⟩

end Token

end SetCalculator
