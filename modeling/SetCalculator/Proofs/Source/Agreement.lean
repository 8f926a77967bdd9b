import SetCalculator.Proofs.Evaluation.TwoLoaders
import SetCalculator.Proofs.Source.Bytes
import SetCalculator.Source.FileTree
import SetCalculator.Source.Memory

/-!
# Files and texts in memory load alike

A file with the bytes of a text has the very lines of that text on a shelf, so
with files that all encode texts a program runs as it does with these texts in
memory. Where the bytes of a file stop to encode a text, its lines are those of
the text up to there and then a fault. Loading such a file can differ from
loading a text with the same beginning, but only by reading all lines up to the
fault and failing at it: an earlier line with no integer on it is what both
report.
-/

namespace SetCalculator.Source

/-- What a disk and a shelf hold under one name: nothing, a text and its bytes,
or bytes that encode no text and a text that agrees with them on every line
before the first that encodes none. -/
inductive Alike : Option (List UInt8) → Option String → Prop where
  | absent : Alike none none
  | encoded (text : String) : Alike (some (encode text.toList)) (some text)
  | spoilt {bytes segment rest : List UInt8} {good : String}
      (cut : Spoilt bytes good segment rest) (more : String) :
      Alike (some bytes) (some (good ++ more))

/-! ## Loading from items that begin alike -/

variable {loader loader' : Loader} {name : String}

/-- Lines all hold integers, or the first that does not is reported. -/
theorem readItems_lines_cases (name : String) (lines : List String) :
    (∀ line ∈ lines, ∃ n, integer? line = some n) ∨
      ∃ line number, readItems name (lines.map .ok) =
        .error (.notAnInteger name line number) := by
  cases hread : readItems name (lines.map .ok) with
  | ok ns =>
      refine .inl fun line hline => ?_
      obtain ⟨line', n, heq, hn⟩ :=
        holdsInteger_of_readItems hread (.ok line) (List.mem_map_of_mem hline)
      cases heq
      exact ⟨n, hn⟩
  | error error =>
      obtain ⟨before, item, after, hitems, -, hitem⟩ :=
        readItems_eq_error_iff.1 hread
      have hmem : item ∈ lines.map Except.ok := by rw [hitems]; simp
      obtain ⟨line, -, rfl⟩ := List.mem_map.1 hmem
      obtain ⟨-, rfl⟩ := readItem_eq_error_iff.1 hitem
      exact .inr ⟨line, _, rfl⟩

/-- Loading a file whose bytes stop to encode a text reads all lines up to there
and fails, unless one of them holds no integer. Then loading a text that begins
with the same lines reports the same one. -/
theorem load_spoilt_cases {bytes segment rest : List UInt8}
    {good more : String} (hspoilt : Spoilt bytes good segment rest)
    (hfile : loader name = .ok (Stream.lines ⟨bytes, none⟩))
    (hshelf : loader' name = .ok ((Text.lines (good ++ more)).map .ok)) :
    ((∀ line ∈ Text.lines good, ∃ n, integer? line = some n) ∧
      load loader name = .error (.unreadable name .notUtf8)) ∨
    ∃ line number,
      load loader name = .error (.notAnInteger name line number) ∧
      load loader' name = .error (.notAnInteger name line number) := by
  rw [hspoilt.lines_eq] at hfile
  rw [Text.lines_append hspoilt.whole, List.map_append] at hshelf
  rcases readItems_lines_cases name (Text.lines good) with
    hgood | ⟨line, number, hrefused⟩
  · refine .inl ⟨hgood, (load_eq_refusal_iff hfile).2 ⟨_, _, _, rfl,
      fun item hitem => ?_, not_holdsInteger_fault _, rfl⟩⟩
    obtain ⟨line, hline, rfl⟩ := List.mem_map.1 hitem
    obtain ⟨n, hn⟩ := hgood line hline
    exact ⟨line, n, rfl, hn⟩
  · exact .inr ⟨line, number, load_append_of_refused hfile hrefused,
      load_append_of_refused hshelf hrefused⟩

/-! ## A disk and a shelf -/

/-- On the disk the source name leads to what is given for it: to a file with
these bytes, all of which can be read, or to nothing. -/
def Opens (disk : Disk) (base? : Option String)
    (contents : String → Option (List UInt8)) (name : String) : Prop :=
  disk (resolve base? name) =
    match contents name with
    | some bytes => .ok ⟨bytes, none⟩
    | none => .error .notFound

/-- The source is read up to a line that encodes no text: all lines before that
one hold integers. -/
def ReadsToSpoilt (contents : String → Option (List UInt8)) (name : String) :
    Prop :=
  ∃ bytes good segment rest, contents name = some bytes ∧
    Spoilt bytes good segment rest ∧
    ∀ line ∈ Text.lines good, ∃ n, integer? line = some n

variable {disk : Disk} {base? : Option String} {shelf : Shelf}
  {contents : String → Option (List UInt8)}

theorem Opens.fileLoader_of_some (h : Opens disk base? contents name)
    {bytes : List UInt8} (hbytes : contents name = some bytes) :
    fileLoader disk base? name = .ok (Stream.lines ⟨bytes, none⟩) := by
  rw [fileLoader, h, hbytes]
  rfl

theorem Opens.fileLoader_of_none (h : Opens disk base? contents name)
    (hnone : contents name = none) :
    fileLoader disk base? name = .error .notFound := by
  rw [fileLoader, h, hnone]
  rfl

/-- A file with the bytes of a text has its lines. -/
theorem Opens.fileLoader_eq (h : Opens disk base? contents name) {text : String}
    (hbytes : contents name = some (encode text.toList))
    (htext : shelf.get? name = some text) :
    fileLoader disk base? name = shelf.loader name := by
  rw [h.fileLoader_of_some hbytes, lines_of_encode, Shelf.loader_of_some htext]

theorem Opens.fileLoader_eq_of_none (h : Opens disk base? contents name)
    (hbytes : contents name = none) (htext : shelf.get? name = none) :
    fileLoader disk base? name = shelf.loader name := by
  rw [h.fileLoader_of_none hbytes, Shelf.loader_of_none htext]

theorem Opens.fileLoader_eq_of_map (h : Opens disk base? contents name)
    (hsame : contents name =
      (shelf.get? name).map fun text => encode text.toList) :
    fileLoader disk base? name = shelf.loader name := by
  cases htext : shelf.get? name with
  | none =>
      rw [htext] at hsame
      exact h.fileLoader_eq_of_none hsame htext
  | some text =>
      rw [htext] at hsame
      exact h.fileLoader_eq hsame htext

theorem Opens.load_cases (h : Opens disk base? contents name)
    (halike : Alike (contents name) (shelf.get? name)) :
    load (fileLoader disk base?) name = load shelf.loader name ∨
      ∃ error, load (fileLoader disk base?) name = .error error ∧
        error = .unreadable name .notUtf8 ∧ ReadsToSpoilt contents name := by
  generalize hbytes : contents name = bytes? at halike
  generalize htext : shelf.get? name = text? at halike
  cases halike with
  | absent => exact .inl (load_congr (h.fileLoader_eq_of_none hbytes htext))
  | encoded text => exact .inl (load_congr (h.fileLoader_eq hbytes htext))
  | spoilt cut more =>
      rcases load_spoilt_cases cut (h.fileLoader_of_some hbytes)
        (Shelf.loader_of_some htext) with
        ⟨hgood, hload⟩ | ⟨line, number, hload, hload'⟩
      · exact .inr ⟨_, hload, rfl, _, _, _, _, hbytes, cut, hgood⟩
      · exact .inl (hload.trans hload'.symm)

/-- Where a file encodes a text, loading it is loading this text from memory:
the lines are the same. Where its bytes stop to encode a text, the lines up to
there are read and then the fault; a line before that holds no integer is what
loading from memory reports too.

If all sources that a program asks for are files that encode texts, it runs as
it does on these texts, with the same outcome and the same requests. If they are
files that stop to encode them it does so up to a source of which it has read
all lines before that. Whatever else the disk holds, or cannot open, plays no
part. -/
theorem disk_and_shelf_agree (disk : Disk) (base? : Option String)
    (contents : String → Option (List UInt8)) :
    (∀ (shelf : Shelf) (name text : String), Opens disk base? contents name →
      contents name = some (encode text.toList) → shelf.get? name = some text →
      fileLoader disk base? name = shelf.loader name) ∧
    (∀ name bytes, Opens disk base? contents name →
      contents name = some bytes →
      (∀ text : String, bytes ≠ encode text.toList) →
      ∃ good segment rest fault, Spoilt bytes good segment rest ∧
        fileLoader disk base? name =
          .ok ((Text.lines good).map .ok ++ [.error fault]) ∧
        fault.message = "stream did not contain valid UTF-8") ∧
    (∀ (shelf : Shelf) registry source,
      (∀ name ∈
        (Program.run registry (fileLoader disk base?) source).requests,
        Opens disk base? contents name ∧
        contents name =
          (shelf.get? name).map fun text => encode text.toList) →
      Program.run registry (fileLoader disk base?) source =
        Program.run registry shelf.loader source) ∧
    (∀ (shelf : Shelf) (name more : String) bytes good segment rest,
      Opens disk base? contents name → contents name = some bytes →
      Spoilt bytes good segment rest → shelf.get? name = some (good ++ more) →
      (∃ line ∈ Text.lines good, integer? line = none) →
      ∃ line number,
        load (fileLoader disk base?) name =
          .error (.notAnInteger name line number) ∧
        load shelf.loader name = .error (.notAnInteger name line number)) ∧
    ∀ (shelf : Shelf) registry source,
      (∀ name ∈
        (Program.run registry (fileLoader disk base?) source).requests,
        Opens disk base? contents name ∧
        Alike (contents name) (shelf.get? name)) →
      Program.run registry (fileLoader disk base?) source =
        Program.run registry shelf.loader source ∨
      ∃ before name, ReadsToSpoilt contents name ∧
        Program.run registry (fileLoader disk base?) source =
          ⟨.error (.runtime (.unreadable name .notUtf8)), before ++ [name]⟩ ∧
        before ++ [name] <+:
          (Program.run registry shelf.loader source).requests := by
  refine ⟨fun shelf name text opens => opens.fileLoader_eq, ?_, ?_, ?_, ?_⟩
  · intro name bytes opens hbytes hnone
    rcases encodes_or_spoilt bytes with
      ⟨text, htext⟩ | ⟨good, segment, rest, hspoilt⟩
    · exact absurd htext (hnone text)
    · refine ⟨good, segment, rest, .notUtf8, hspoilt, ?_, rfl⟩
      rw [opens.fileLoader_of_some hbytes, hspoilt.lines_eq]
  · intro shelf registry source h
    refine (Program.run_eq_of_requests registry source ?_).symm
    intro name hname
    obtain ⟨opens, hsame⟩ := h name hname
    exact load_congr (opens.fileLoader_eq_of_map hsame)
  · intro shelf name more bytes good segment rest opens hbytes hspoilt htext
      hbad
    rcases load_spoilt_cases hspoilt (opens.fileLoader_of_some hbytes)
      (Shelf.loader_of_some htext) with ⟨hgood, -⟩ | hboth
    · obtain ⟨line, hline, hnone⟩ := hbad
      obtain ⟨n, hn⟩ := hgood line hline
      rw [hnone] at hn
      cases hn
    · exact hboth
  · intro shelf registry source h
    rcases Program.run_eq_or_fails registry source
      (fun name hname => (h name hname).1.load_cases (h name hname).2) with
      hsame | ⟨before, name, error, ⟨rfl, hreads⟩, hrun, hasked⟩
    · exact .inl hsame
    · exact .inr ⟨before, name, hreads, hrun, hasked⟩

/-- Two files in a tree: `a` encodes a text with a letter of two bytes, and the
second line of `b` is the byte 255. There is no file `c`. -/
theorem disk_and_shelf_agree_up_to_lone_byte :
    let bytes : List UInt8 := [55, 10, 255, 10, 56]
    let contents : String → Option (List UInt8) := fun name =>
      if name = "a" then some (encode "5\r\né".toList)
      else if name = "b" then some bytes
      else none
    let disk := (FileTree.ofList [("a", .file (encode "5\r\né".toList)),
      ("b", .file bytes)]).disk
    let shelf := Shelf.ofList [("a", "5\r\né"), ("b", "7\nno integer")]
    (∀ name ∈ ["a", "b", "c"], Opens disk none contents name) ∧
    fileLoader disk none "a" = shelf.loader "a" ∧
    (∃ good segment rest fault, Spoilt bytes good segment rest ∧
      fileLoader disk none "b" =
        .ok ((Text.lines good).map .ok ++ [.error fault]) ∧
      fault.message = "stream did not contain valid UTF-8") ∧
    Program.run .builtin (fileLoader disk none) "[ SUM c a ]" =
      Program.run .builtin shelf.loader "[ SUM c a ]" ∧
    (Program.run .builtin (fileLoader disk none) "[ SUM b c a ]" =
        Program.run .builtin shelf.loader "[ SUM b c a ]" ∨
      ∃ before name, ReadsToSpoilt contents name ∧
        Program.run .builtin (fileLoader disk none) "[ SUM b c a ]" =
          ⟨.error (.runtime (.unreadable name .notUtf8)), before ++ [name]⟩ ∧
        before ++ [name] <+:
          (Program.run .builtin shelf.loader "[ SUM b c a ]").requests) := by
  intro bytes contents disk shelf
  have opens : ∀ name ∈ ["a", "b", "c"], Opens disk none contents name := by
    simp only [List.forall_mem_cons]
    exact ⟨rfl, rfl, rfl, List.forall_mem_nil _⟩
  have hdecode : ∀ text : String, bytes ≠ encode text.toList :=
    (decode_eq_error_iff.1 (by decide +kernel :
      Stream.decode bytes = .error .notUtf8)).2
  have hlone : ∀ text : String, ([255] : List UInt8) ≠ encode text.toList :=
    (decode_eq_error_iff.1 (by decide +kernel :
      Stream.decode [255] = .error .notUtf8)).2
  have hcut : Spoilt bytes "7\n" [255] [10, 56] :=
    ⟨by decide +kernel, .inr ⟨['7'], rfl⟩, by decide, .inr ⟨[56], rfl⟩, hlone⟩
  have halike : ∀ name ∈ ["a", "b", "c"],
      Alike (contents name) (shelf.get? name) := by
    simp only [List.forall_mem_cons]
    exact ⟨.encoded "5\r\né", .spoilt hcut "no integer", .absent,
      List.forall_mem_nil _⟩
  have hsum : Program.compile .builtin "[ SUM c a ]" =
      .ok (.call .sum [.load "c", .load "a"]) :=
    Program.compile_eq_ok_iff.2 ⟨[.callStart, .functionName "SUM",
      .fileName "c", .fileName "a", .callEnd], by decide +kernel, rfl⟩
  have hlong : Program.compile .builtin "[ SUM b c a ]" =
      .ok (.call .sum [.load "b", .load "c", .load "a"]) :=
    Program.compile_eq_ok_iff.2 ⟨[.callStart, .functionName "SUM",
      .fileName "b", .fileName "c", .fileName "a", .callEnd],
      by decide +kernel, rfl⟩
  obtain ⟨hlines, hspoilt, hrun, -, hstops⟩ :=
    disk_and_shelf_agree disk none contents
  refine ⟨opens, hlines shelf "a" "5\r\né" (opens "a" (by simp)) rfl rfl,
    hspoilt "b" bytes (opens "b" (by simp)) rfl hdecode,
    hrun shelf .builtin _ fun name hname => ?_,
    hstops shelf .builtin _ fun name hname => ?_⟩
  · have hsource := Program.mem_sources_of_mem_requests hsum hname
    simp at hsource
    rcases hsource with rfl | rfl
    · exact ⟨opens "c" (by simp), rfl⟩
    · exact ⟨opens "a" (by simp), rfl⟩
  · have hsource := Program.mem_sources_of_mem_requests hlong hname
    have hnames : name ∈ ["a", "b", "c"] := by
      simp at hsource
      rcases hsource with rfl | rfl | rfl <;> simp
    exact ⟨opens name hnames, halike name hnames⟩

end SetCalculator.Source
