import SetCalculator.Proofs.Source.Bytes
import SetCalculator.Source.FileTree

/-!
# What can come out of a file

A file is opened and then read item by item. An item is a line, and no line
holds a feed; or it is a fault, and then one that the disk itself reports or
the one that says that a line encodes no text. A file tree reports no faults
but four, all of them in its own words.
-/

namespace SetCalculator.Source

/-- The fault shows when the path is opened, or when what it leads to is
read. -/
def FaultAt (disk : Disk) (path : String) (fault : Fault) : Prop :=
  disk path = .error (.fault fault) ∨
    ∃ bytes, disk path = .ok ⟨bytes, some fault⟩

/-- No fault is reported in words with a line ending among them. -/
def FaultsOnOneLine (disk : Disk) : Prop :=
  ∀ path fault, FaultAt disk path fault → Text.OneLine fault.message

/-! ## Streams -/

theorem feed_mem_encode {text : List Char} (h : '\n' ∈ text) :
    (10 : UInt8) ∈ encode text :=
  List.mem_flatMap.2 ⟨'\n', h, List.mem_cons_self⟩

theorem decode_cases {bytes : List UInt8} (h : 10 ∉ bytes) :
    (∃ line, Stream.decode bytes = .ok line ∧ Text.OneLine line) ∨
      Stream.decode bytes = .error .notUtf8 := by
  cases hdecode : Stream.decode bytes with
  | ok line =>
      refine .inl ⟨line, rfl, fun hmem => h ?_⟩
      rw [decode_eq_ok_iff.1 hdecode]
      exact feed_mem_encode hmem
  | error fault =>
      rw [(decode_eq_error_iff.1 hdecode).1]
      exact .inr rfl

namespace Stream

theorem mem_of_mem_untilFault {items : List LineItem} {item : LineItem}
    (h : item ∈ untilFault items) : item ∈ items := by
  rw [untilFault, List.mem_append, Option.mem_toList] at h
  rcases h with h | h
  · exact (List.takeWhile_prefix _).subset h
  · exact List.mem_of_find?_eq_some h

/-- An item of a stream is a line without a feed, or a fault: its own, or the
one of a line that encodes no text. -/
theorem item_cases {stream : Stream} {item : LineItem}
    (h : item ∈ stream.lines) :
    (∃ line, item = .ok line ∧ Text.OneLine line) ∨
      ∃ fault, item = .error fault ∧
        (fault = .notUtf8 ∨ stream.fault? = some fault) := by
  have hline : ∀ bytes, 10 ∉ bytes → decode bytes = item →
      (∃ line, item = .ok line ∧ Text.OneLine line) ∨
        ∃ fault, item = .error fault ∧
          (fault = .notUtf8 ∨ stream.fault? = some fault) := by
    intro bytes hfeed hitem
    rw [← hitem]
    rcases decode_cases hfeed with hok | herror
    · exact .inl hok
    · exact .inr ⟨_, herror, .inl rfl⟩
  rw [lines] at h
  split at h
  · obtain ⟨bytes, hbytes, hitem⟩ := List.mem_map.1 (mem_of_mem_untilFault h)
    exact hline bytes (Text.not_mem_of_mem_splitLines hbytes) hitem
  · next fault hfault =>
      rcases List.mem_append.1 (mem_of_mem_untilFault h) with h | h
      · obtain ⟨bytes, hbytes, hitem⟩ := List.mem_map.1 h
        have hmem : bytes ∈ Text.splitLines 10 13 stream.bytes :=
          List.mem_append_left _ hbytes
        exact hline bytes (Text.not_mem_of_mem_splitLines hmem) hitem
      · rw [List.mem_singleton.1 h]
        exact .inr ⟨fault, rfl, .inr hfault⟩

end Stream

/-! ## Loading from a disk -/

theorem fileLoader_eq_ok_iff {disk : Disk} {base? : Option String}
    {name : String} {items : List LineItem} :
    fileLoader disk base? name = .ok items ↔
      ∃ stream, disk (resolve base? name) = .ok stream ∧
        stream.lines = items := by
  rw [fileLoader]
  cases disk (resolve base? name) with
  | error error => simp [Except.map]
  | ok stream => simp [Except.map]

theorem fileLoader_eq_error_iff {disk : Disk} {base? : Option String}
    {name : String} {error : OpenError} :
    fileLoader disk base? name = .error error ↔
      disk (resolve base? name) = .error error := by
  rw [fileLoader]
  cases disk (resolve base? name) with
  | error error => simp [Except.map]
  | ok stream => simp [Except.map]

theorem oneLine_of_fileLoader {disk : Disk} {base? : Option String}
    {name line : String} {items : List LineItem}
    (hopened : fileLoader disk base? name = .ok items)
    (hline : .ok line ∈ items) : Text.OneLine line := by
  obtain ⟨stream, -, rfl⟩ := fileLoader_eq_ok_iff.1 hopened
  rcases Stream.item_cases hline with ⟨line', heq, honeLine⟩ | ⟨_, heq, -⟩
  · cases heq
    exact honeLine
  · cases heq

/-! ## File trees -/

namespace FileTree

variable {tree : FileTree} {fault : Fault}

theorem fault_of_enter {spot : Spot} {name : String}
    (h : tree.enter spot name = .error (.fault fault)) :
    fault = .notADirectory ∨ fault = .nameTooLong := by
  rw [enter.eq_def] at h
  split at h
  · cases h
    exact .inl rfl
  · split at h
    · cases h
      exact .inr rfl
    · split at h <;> cases h

theorem fault_of_foldlM {names : List String} {spot : Spot}
    (h : names.foldlM tree.enter spot = .error (.fault fault)) :
    fault = .notADirectory ∨ fault = .nameTooLong := by
  induction names generalizing spot with
  | nil => cases h
  | cons name names ih =>
      rw [List.foldlM_cons] at h
      cases henter : tree.enter spot name with
      | error error =>
          rw [henter] at h
          cases h
          exact fault_of_enter henter
      | ok next =>
          rw [henter] at h
          exact ih h

theorem fault_of_stream {spot : Spot} (h : spot.stream.fault? = some fault) :
    fault = .isADirectory := by
  cases spot with
  | file bytes => cases h
  | directory place =>
      cases h
      rfl

/-- Opening a path comes to an answer of its own before any name is looked up,
or to whatever following the names comes to. -/
theorem disk_cases (tree : FileTree) (path : String) :
    tree.disk path = .error (.fault .nulInPath) ∨
      tree.disk path = .error (.fault .nameTooLong) ∨
      tree.disk path = .error .notFound ∨
      tree.disk path = ((pathNames path).foldlM tree.enter
        (.directory (pathStart path))).map Spot.stream := by
  rw [disk]
  split
  · exact .inl rfl
  · split
    · exact .inr (.inl rfl)
    · split
      · exact .inr (.inr (.inl rfl))
      · exact .inr (.inr (.inr rfl))

/-- The faults that a file tree reports. -/
theorem fault_cases {path : String} (h : FaultAt tree.disk path fault) :
    fault = .nulInPath ∨ fault = .nameTooLong ∨ fault = .notADirectory ∨
      fault = .isADirectory := by
  rw [FaultAt] at h
  rcases tree.disk_cases path with hdisk | hdisk | hdisk | hdisk <;>
    rw [hdisk] at h
  · rcases h with h | ⟨_, h⟩ <;> cases h
    exact .inl rfl
  · rcases h with h | ⟨_, h⟩ <;> cases h
    exact .inr (.inl rfl)
  · rcases h with h | ⟨_, h⟩ <;> cases h
  · cases hfold : (pathNames path).foldlM tree.enter
        (.directory (pathStart path)) with
    | error error =>
        rw [hfold] at h
        rcases h with h | ⟨_, h⟩ <;> cases h
        rcases fault_of_foldlM hfold with rfl | rfl
        · exact .inr (.inr (.inl rfl))
        · exact .inr (.inl rfl)
    | ok spot =>
        rw [hfold] at h
        rcases h with h | ⟨bytes, h⟩
        · cases h
        · have hfault : spot.stream.fault? = some fault := by
            rw [Except.ok.inj h]
          exact .inr (.inr (.inr (fault_of_stream hfault)))

theorem faultsOnOneLine (tree : FileTree) : FaultsOnOneLine tree.disk := by
  intro path fault h
  rcases fault_cases h with rfl | rfl | rfl | rfl <;> decide

end FileTree

end SetCalculator.Source
