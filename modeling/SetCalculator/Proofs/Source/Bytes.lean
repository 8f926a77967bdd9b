import SetCalculator.Proofs.Text.Lines
import SetCalculator.Source.Files

/-!
# Bytes of texts

A stream is cut into lines before its bytes are decoded, a text is cut after.
The two agree because an encoding of more than one byte has no byte below 128
in it: a feed among the bytes is a feed of the text, a return at their end is
one at its end, and so a line of bytes encodes the line of the text.

Bytes that encode no text have a first line that encodes none. What comes
before that line encodes a text of whole lines (`Spoilt`), and
`encodes_or_spoilt` says that there is no third case.
-/

namespace SetCalculator.Source

/-- The bytes of a text. -/
def encode (text : List Char) : List UInt8 :=
  text.flatMap String.utf8EncodeChar

/-! ## One character -/

/-- A byte below 128 encodes a character alone, and that character has its
code. -/
theorem toNat_eq_of_mem_utf8EncodeChar {c : Char} {b : UInt8}
    (h : b ∈ String.utf8EncodeChar c) (hb : b.toNat < 128) :
    c.toNat = b.toNat := by
  have hc : c.val.toNat = c.toNat := rfl
  simp only [String.utf8EncodeChar] at h
  split at h
  · rw [List.mem_singleton] at h
    rw [h, UInt8.toNat_ofNat']
    omega
  · -- All bytes of a longer encoding are 128 or more.
    exfalso
    split at h
    · simp only [List.mem_cons, List.not_mem_nil, or_false] at h
      rcases h with rfl | rfl <;> rw [UInt8.toNat_ofNat'] at hb <;> omega
    · split at h
      · simp only [List.mem_cons, List.not_mem_nil, or_false] at h
        rcases h with rfl | rfl | rfl <;> rw [UInt8.toNat_ofNat'] at hb <;>
          omega
      · simp only [List.mem_cons, List.not_mem_nil, or_false] at h
        rcases h with rfl | rfl | rfl | rfl <;>
          rw [UInt8.toNat_ofNat'] at hb <;> omega

theorem feed_mem_utf8EncodeChar {c : Char}
    (h : (10 : UInt8) ∈ String.utf8EncodeChar c) : c = '\n' :=
  Char.toNat_inj.1 (toNat_eq_of_mem_utf8EncodeChar h (by decide))

theorem return_mem_utf8EncodeChar {c : Char}
    (h : (13 : UInt8) ∈ String.utf8EncodeChar c) : c = '\r' :=
  Char.toNat_inj.1 (toNat_eq_of_mem_utf8EncodeChar h (by decide))

/-! ## Texts -/

@[simp] theorem encode_append (x y : List Char) :
    encode (x ++ y) = encode x ++ encode y := List.flatMap_append

theorem encode_feed (x y : List Char) :
    encode (x ++ '\n' :: y) = encode x ++ 10 :: encode y := by
  rw [encode_append]
  rfl

theorem encode_line (line rest : String) :
    encode (line ++ "\n" ++ rest).toList =
      encode line.toList ++ 10 :: encode rest.toList := by
  rw [← encode_feed]
  simp

theorem encode_concat_return (x : List Char) :
    encode (x ++ ['\r']) = encode x ++ [13] := by
  rw [encode_append]
  rfl

theorem feed_not_mem_encode {text : List Char} (h : '\n' ∉ text) :
    (10 : UInt8) ∉ encode text := by
  intro hmem
  obtain ⟨c, hc, hbyte⟩ := List.mem_flatMap.1 hmem
  rw [feed_mem_utf8EncodeChar hbyte] at hc
  exact h hc

/-- The last byte of a text is among those of its last character. -/
theorem getLast?_encode_concat (text : List Char) (c : Char) :
    (encode (text ++ [c])).getLast? = (String.utf8EncodeChar c).getLast? := by
  have hone : encode [c] = String.utf8EncodeChar c := List.flatMap_singleton ..
  have hlast := List.getLast?_eq_some_getLast (@String.utf8EncodeChar_ne_nil c)
  rw [encode_append, hone, List.getLast?_append, hlast, Option.some_or]

/-- Dropping a return is the same before decoding and after. -/
theorem dropReturn_encode (text : List Char) :
    Text.dropReturn 13 (encode text) = encode (Text.dropReturn '\r' text) := by
  cases hlast : text.getLast? with
  | none => rw [List.getLast?_eq_none_iff.1 hlast]; rfl
  | some c =>
      obtain ⟨init, rfl⟩ := List.getLast?_eq_some_iff.1 hlast
      by_cases hc : c = '\r'
      · rw [hc, encode_concat_return, Text.dropReturn_concat_return,
          Text.dropReturn_concat_return]
      · have htext : (init ++ [c]).getLast? ≠ some '\r' := by simpa using hc
        have hbytes : (encode (init ++ [c])).getLast? ≠ some 13 := by
          rw [getLast?_encode_concat]
          exact fun h => hc (return_mem_utf8EncodeChar (List.mem_of_getLast? h))
        rw [Text.dropReturn_of_getLast?_ne hbytes,
          Text.dropReturn_of_getLast?_ne htext]

/-! ## Decoding -/

theorem data_toUTF8 (text : String) :
    text.toUTF8.data.toList = encode text.toList := by
  rw [String.toUTF8, ← String.utf8Encode_toList, List.utf8Encode,
    List.toList_data_toByteArray]
  rfl

theorem decode_encode (text : String) :
    Stream.decode (encode text.toList) = .ok text := by
  have hbytes : (encode text.toList).toByteArray = text.toByteArray :=
    String.utf8Encode_toList
  rw [Stream.decode, hbytes, String.fromUTF8?, dif_pos text.isValidUTF8]
  rfl

/-- Bytes are decoded to the text that they encode. -/
theorem decode_eq_ok_iff {bytes : List UInt8} {line : String} :
    Stream.decode bytes = .ok line ↔ bytes = encode line.toList := by
  refine ⟨?_, fun h => by rw [h, decode_encode]⟩
  intro h
  rw [Stream.decode, String.fromUTF8?] at h
  split at h
  · next heq =>
      split at heq
      · next valid =>
          cases heq
          cases h
          rw [← data_toUTF8]
          exact List.toList_data_toByteArray.symm
      · cases heq
  · cases h

theorem decode_eq_error_iff {bytes : List UInt8} {fault : Fault} :
    Stream.decode bytes = .error fault ↔
      fault = .notUtf8 ∧ ∀ text : String, bytes ≠ encode text.toList := by
  refine ⟨?_, ?_⟩
  · intro h
    refine ⟨?_, fun text hbytes => ?_⟩
    · rw [Stream.decode] at h
      split at h
      · cases h
      · cases h
        rfl
    · rw [hbytes, decode_encode] at h
      cases h
  · intro h
    obtain ⟨rfl, hnone⟩ := h
    cases hdecode : Stream.decode bytes with
    | ok text => exact absurd (decode_eq_ok_iff.1 hdecode) (hnone text)
    | error fault =>
        rw [Stream.decode] at hdecode
        split at hdecode
        · cases hdecode
        · cases hdecode
          rfl

/-! ## Lines of texts -/

namespace Stream

theorem untilFault_ok_append (ls : List String) (items : List LineItem) :
    untilFault (ls.map .ok ++ items) = ls.map .ok ++ untilFault items := by
  induction ls with
  | nil => rfl
  | cons line ls ih =>
      rw [List.map_cons, List.cons_append, List.cons_append, ← ih]
      rfl

end Stream

/-- The lines of encoded text are its own, each of them decoded. -/
theorem map_decode_splitLines_encode (text : List Char) :
    (Text.splitLines 10 13 (encode text)).map Stream.decode =
      ((Text.splitLines '\n' '\r' text).map String.ofList).map .ok := by
  have hdecode : ∀ line : List Char,
      Stream.decode (encode line) = .ok (String.ofList line) :=
    fun line => decode_eq_ok_iff.2 (by rw [String.toList_ofList])
  induction text using @Text.induction_on_lines _ '\n' with
  | last line hfeed =>
      rw [Text.splitLines_of_not_mem hfeed,
        Text.splitLines_of_not_mem (feed_not_mem_encode hfeed)]
      cases line with
      | nil => rfl
      | cons c line =>
          have hne : (encode (c :: line)).isEmpty = false := by
            rw [List.isEmpty_eq_false_iff, encode, List.flatMap_cons]
            exact List.append_ne_nil_of_left_ne_nil
              String.utf8EncodeChar_ne_nil _
          rw [hne]
          exact congrArg (· :: []) (hdecode _)
  | feed line rest hline ih =>
      rw [encode_feed, Text.splitLines_line (feed_not_mem_encode hline),
        Text.splitLines_line hline, dropReturn_encode, List.map_cons,
        List.map_cons, List.map_cons, ih, hdecode]

/-- A file with the bytes of a text has the lines of that text. -/
theorem lines_of_encode (text : String) :
    Stream.lines ⟨encode text.toList, none⟩ = (Text.lines text).map .ok := by
  have huntil := Stream.untilFault_ok_append (Text.lines text) []
  rw [List.append_nil] at huntil
  show Stream.untilFault ((Text.splitLines 10 13 _).map Stream.decode) = _
  rw [map_decode_splitLines_encode]
  exact huntil.trans (List.append_nil _)

/-! ## Bytes that encode no text -/

/-- The first line of some bytes that encodes no text, cut out of them: what
comes before it encodes a text of whole lines, and what comes after it, if
there is anything, starts with the feed that ends it. -/
structure Spoilt (bytes : List UInt8) (good : String)
    (segment rest : List UInt8) : Prop where
  cut : bytes = encode good.toList ++ (segment ++ rest)
  whole : good.toList = [] ∨ ∃ text, good.toList = text ++ ['\n']
  feedless : 10 ∉ segment
  ended : rest = [] ∨ ∃ more, rest = 10 :: more
  spoilt : ∀ text : String, segment ≠ encode text.toList

theorem Spoilt.cons_line {bytes segment rest : List UInt8} {good : String}
    (h : Spoilt bytes good segment rest) (line : String) :
    Spoilt (encode line.toList ++ 10 :: bytes) (line ++ "\n" ++ good)
      segment rest where
  cut := by
    rw [encode_line, h.cut, List.append_assoc, List.cons_append]
  whole := by
    right
    rcases h.whole with hnil | ⟨text, htext⟩
    · exact ⟨line.toList, by simp [hnil]⟩
    · exact ⟨line.toList ++ '\n' :: text, by simp [htext]⟩
  feedless := h.feedless
  ended := h.ended
  spoilt := h.spoilt

theorem spoilt_of_first {segment rest : List UInt8} (hfeed : 10 ∉ segment)
    (hended : rest = [] ∨ ∃ more, rest = 10 :: more)
    (hspoilt : ¬ ∃ text : String, segment = encode text.toList) :
    Spoilt (segment ++ rest) "" segment rest where
  cut := rfl
  whole := .inl rfl
  feedless := hfeed
  ended := hended
  spoilt text htext := hspoilt ⟨text, htext⟩

/-- Bytes encode a text, or they have a first line that encodes none. -/
theorem encodes_or_spoilt (bytes : List UInt8) :
    (∃ text : String, bytes = encode text.toList) ∨
      ∃ good segment rest, Spoilt bytes good segment rest := by
  induction bytes using @Text.induction_on_lines _ (10 : UInt8) with
  | last line hfeed =>
      by_cases hline : ∃ text : String, line = encode text.toList
      · exact .inl hline
      · have h := spoilt_of_first hfeed (.inl rfl) hline
        rw [List.append_nil] at h
        exact .inr ⟨"", line, [], h⟩
  | feed line rest hfeed ih =>
      by_cases hline : ∃ text : String, line = encode text.toList
      · obtain ⟨text, rfl⟩ := hline
        rcases ih with ⟨text', rfl⟩ | ⟨good, segment, more, h⟩
        · exact .inl ⟨text ++ "\n" ++ text', (encode_line text text').symm⟩
        · exact .inr ⟨_, segment, more, h.cons_line text⟩
      · exact .inr ⟨"", line, 10 :: rest,
          spoilt_of_first hfeed (.inr ⟨rest, rfl⟩) hline⟩

/-- A line that encodes no text does not do so without its return. -/
theorem decode_dropReturn_of_spoilt {segment : List UInt8}
    (h : ∀ text : String, segment ≠ encode text.toList) :
    Stream.decode (Text.dropReturn 13 segment) = .error .notUtf8 := by
  refine decode_eq_error_iff.2 ⟨rfl, fun text htext => ?_⟩
  by_cases hlast : segment.getLast? = some 13
  · obtain ⟨init, rfl⟩ := List.getLast?_eq_some_iff.1 hlast
    rw [Text.dropReturn_concat_return] at htext
    apply h (text ++ "\r")
    rw [htext, String.toList_append]
    exact (encode_concat_return _).symm
  · rw [Text.dropReturn_of_getLast?_ne hlast] at htext
    exact h text htext

/-- The lines before the first that encodes no text are read as they are, and
the fault stands in its place. -/
theorem Spoilt.lines_eq {bytes segment rest : List UInt8} {good : String}
    (h : Spoilt bytes good segment rest) :
    Stream.lines ⟨bytes, none⟩ =
      (Text.lines good).map .ok ++ [.error .notUtf8] := by
  have hwhole : encode good.toList = [] ∨
      ∃ text, encode good.toList = text ++ [10] := by
    rcases h.whole with hnil | ⟨text, htext⟩
    · exact .inl (by rw [hnil]; rfl)
    · exact .inr ⟨encode text, by rw [htext, encode_append]; rfl⟩
  have hne : segment ≠ [] := h.spoilt ""
  obtain ⟨more, hmore⟩ : ∃ more,
      (Text.splitLines 10 13 (segment ++ rest)).map Stream.decode =
        .error .notUtf8 :: more := by
    rcases h.ended with rfl | ⟨more, rfl⟩
    · rw [List.append_nil, Text.splitLines_of_not_mem h.feedless,
        List.isEmpty_eq_false_iff.2 hne]
      exact ⟨[], congrArg (· :: []) (decode_eq_error_iff.2 ⟨rfl, h.spoilt⟩)⟩
    · rw [Text.splitLines_line h.feedless, List.map_cons,
        decode_dropReturn_of_spoilt h.spoilt]
      exact ⟨_, rfl⟩
  show Stream.untilFault ((Text.splitLines 10 13 bytes).map Stream.decode) = _
  rw [h.cut, Text.splitLines_append hwhole, List.map_append,
    map_decode_splitLines_encode, hmore]
  exact Stream.untilFault_ok_append (Text.lines good) _

end SetCalculator.Source
