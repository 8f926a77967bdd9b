import SetCalculator.Proofs.CanonicalText
import SetCalculator.Proofs.Evaluation.Requests
import SetCalculator.Proofs.Evaluation.TwoLoaders
import SetCalculator.Proofs.PrintedValues
import SetCalculator.Source.Files

/-!
# Programs cannot leave the base directory aside

A source name that starts at the root of the file system would be opened there,
whatever base directory was given. Expressions can hold such names, texts
cannot: the words that may name a source start with a small letter, the reader
keeps words as they are, and evaluation asks for nothing but the sources of the
expression. So what a program asks for always lies behind the base directory,
letter by letter, and two names never come to one path.

Nothing is said about where the path leads in the end: `..` may stand in a name.
-/

namespace SetCalculator

open Source

/-! ## Paths of file names -/

theorem IsFileName.not_isAbsolute {name : String} (h : IsFileName name) :
    isAbsolute name = false := by
  obtain ⟨first, rest, hname, ⟨hlower, -⟩, -⟩ := h
  have hne : first ≠ '/' := by
    rintro rfl
    exact absurd hlower (by decide)
  simp [isAbsolute, hname, hne]

theorem Source.resolve_none (name : String) : resolve none name = name := rfl

/-- A base directory needs no slash behind it if it is empty or ends in one. -/
def Source.EndsOpen (base : String) : Prop :=
  base = "" ∨ ∃ front, base = front ++ "/"

theorem Source.endsOpen_iff {base : String} :
    EndsOpen base ↔
      (base.isEmpty || base.toList.getLast? == some '/') = true := by
  rw [Bool.or_eq_true, String.isEmpty_iff, beq_iff_eq,
    List.getLast?_eq_some_iff]
  refine or_congr_right ⟨?_, ?_⟩
  · rintro ⟨front, rfl⟩
    exact ⟨front.toList, String.toList_append⟩
  · rintro ⟨front, hfront⟩
    refine ⟨String.ofList front, String.toList_inj.1 ?_⟩
    rw [String.toList_append, String.toList_ofList, hfront]
    rfl

theorem Source.resolve_of_endsOpen {base name : String} (hbase : EndsOpen base)
    (hname : isAbsolute name = false) :
    resolve (some base) name = base ++ name := by
  simp only [resolve, hname, endsOpen_iff.1 hbase]
  rfl

theorem Source.resolve_of_not_endsOpen {base name : String}
    (hbase : ¬ EndsOpen base) (hname : isAbsolute name = false) :
    resolve (some base) name = base ++ "/" ++ name := by
  have hclosed := Bool.eq_false_iff.2 (mt endsOpen_iff.2 hbase)
  simp only [resolve, hname, hclosed]
  rfl

/-- Whatever the base directory is, it stays in front of the name. -/
theorem Source.exists_resolve_eq (base? : Option String) :
    ∃ front, (∀ base, base? = some base → ∃ slash, front = base ++ slash) ∧
      ∀ name, isAbsolute name = false → resolve base? name = front ++ name := by
  cases base? with
  | none =>
      exact ⟨"", ⟨nofun, fun _ _ => String.empty_append.symm⟩⟩
  | some base =>
      by_cases hbase : EndsOpen base
      · refine ⟨base, ⟨fun _ h => ?_, fun _ => resolve_of_endsOpen hbase⟩⟩
        cases h
        exact ⟨"", String.append_empty.symm⟩
      · refine ⟨base ++ "/", ⟨fun _ h => ?_,
          fun _ => resolve_of_not_endsOpen hbase⟩⟩
        cases h
        exact ⟨"/", rfl⟩

theorem IsFileName.resolve_injective {name name' : String}
    (h : IsFileName name) (h' : IsFileName name') {base? : Option String}
    (hsame : resolve base? name = resolve base? name') : name = name' := by
  obtain ⟨front, -, hresolve⟩ := exists_resolve_eq base?
  rw [hresolve name h.not_isAbsolute, hresolve name' h'.not_isAbsolute] at hsame
  exact (String.append_right_inj front).1 hsame

/-! ## What programs ask for -/

namespace Program

theorem isFileName_of_mem_sources {registry : Registry} {source : String}
    {e : Expr} (h : compile registry source = .ok e) :
    ∀ name ∈ e.sources, IsFileName name := by
  obtain ⟨tokens, htext, hroot⟩ := compile_eq_ok_iff.1 h
  exact (Expr.wellFormed_of_spells htext
    (Expr.ofTokens_eq_ok_iff_spells.1 hroot)).named

/-- Some program asks for the source, with some functions and on some
sources. -/
def AsksFor (name : String) : Prop :=
  ∃ registry source e loader, compile registry source = .ok e ∧
    name ∈ (e.evaluate loader).requests

theorem isFileName_of_asksFor {name : String} (h : AsksFor name) :
    IsFileName name := by
  obtain ⟨registry, source, e, loader, hcompile, hrequest⟩ := h
  exact isFileName_of_mem_sources hcompile name
    (Expr.mem_sources_of_mem_requests hrequest)

/-- A file name is a program that asks for itself. -/
theorem asksFor_of_isFileName {name : String} (h : IsFileName name) :
    AsksFor name := by
  have hwf : (Expr.load name).WellFormed .builtin := Expr.wellFormed_load h
  refine ⟨_, _, _, fun _ => .error .notFound, compile_text hwf, ?_⟩
  rw [Expr.evaluate_load_of_fails (.absent rfl)]
  exact List.mem_singleton_self name

theorem isFileName_of_mem_requests {registry : Registry} {loader : Loader}
    {source name : String} (h : name ∈ (run registry loader source).requests) :
    IsFileName name := by
  cases hcompile : compile registry source with
  | error problem =>
      rw [run_of_not_compile hcompile] at h
      cases h
  | ok e =>
      exact isFileName_of_mem_sources hcompile name
        (mem_sources_of_mem_requests hcompile h)

/-- Files whose paths do not begin with the base directory play no part. -/
theorem run_eq_of_same_behind {base : String} {disk disk' : Disk}
    (h : ∀ rest, disk (base ++ rest) = disk' (base ++ rest))
    (registry : Registry) (source : String) :
    run registry (fileLoader disk' (some base)) source =
      run registry (fileLoader disk (some base)) source := by
  obtain ⟨front, hfront, hresolve⟩ := exists_resolve_eq (some base)
  obtain ⟨slash, rfl⟩ := hfront base rfl
  refine run_eq_of_requests registry source fun name hname => load_congr ?_
  have hfile := isFileName_of_mem_requests hname
  rw [fileLoader, fileLoader, hresolve name hfile.not_isAbsolute,
    String.append_assoc, h]

/-- Programs ask for file names and for nothing else. None of them is absolute,
so each lies behind the base directory as it is written, with a slash between
the two unless the directory is empty or ends in one, and no two come to the
same path. Files with other paths have no influence on a run. -/
theorem requests_stay_behind_baseDir :
    (∀ name, AsksFor name ↔ IsFileName name) ∧
    (∀ name, AsksFor name →
      isAbsolute name = false ∧ resolve none name = name ∧
      (∀ base, EndsOpen base → resolve (some base) name = base ++ name) ∧
      ∀ base, ¬ EndsOpen base →
        resolve (some base) name = base ++ "/" ++ name) ∧
    (∀ name name', AsksFor name → AsksFor name' → name ≠ name' →
      ∀ base?, resolve base? name ≠ resolve base? name') ∧
    ∀ (base : String) (disk disk' : Disk),
      (∀ rest, disk (base ++ rest) = disk' (base ++ rest)) →
      ∀ registry source,
        run registry (fileLoader disk' (some base)) source =
          run registry (fileLoader disk (some base)) source := by
  refine ⟨fun name => ⟨isFileName_of_asksFor, asksFor_of_isFileName⟩,
    fun name h => ?_, fun name name' h h' hne base? hsame => ?_,
    fun base disk disk' => run_eq_of_same_behind⟩
  · have hname := (isFileName_of_asksFor h).not_isAbsolute
    exact ⟨hname, resolve_none name,
      fun base hbase => resolve_of_endsOpen hbase hname,
      fun base hbase => resolve_of_not_endsOpen hbase hname⟩
  · exact hne ((isFileName_of_asksFor h).resolve_injective
      (isFileName_of_asksFor h') hsame)

/-- Two names for what may well be the same file, and a base directory with and
without a slash at its end. A file at the root has no influence. -/
theorem requests_of_steps_upwards :
    let e : Expr := .call .dif [.load "a/../b", .load "a//b"]
    (compile .builtin "[ DIF a/../b a//b ]" = .ok e ∧
      (e.evaluate fun _ => .ok []).requests = ["a/../b", "a//b"]) ∧
    (IsFileName "a/../b" ∧ isAbsolute "a/../b" = false ∧
      resolve (some "d") "a/../b" = "d/a/../b" ∧
      resolve (some "d/") "a/../b" = "d/a/../b") ∧
    resolve (some "d") "a/../b" ≠ resolve (some "d") "a//b" ∧
    ∀ bytes, let disk : Disk := fun path =>
        if path = "/b" then .ok ⟨bytes, none⟩ else .error .notFound
      run .builtin (fileLoader disk (some "d")) "[ DIF a/../b a//b ]" =
        run .builtin (fileLoader (fun _ => .error .notFound) (some "d"))
          "[ DIF a/../b a//b ]" := by
  intro e
  have hcompile : compile .builtin "[ DIF a/../b a//b ]" = .ok e :=
    compile_eq_ok_iff.2 ⟨[.callStart, .functionName "DIF", .fileName "a/../b",
      .fileName "a//b", .callEnd], by decide +kernel, rfl⟩
  have hrequests : (e.evaluate fun _ => .ok []).requests =
      ["a/../b", "a//b"] := by
    rw [Expr.evaluate_of_loads fun name _ => Source.loads_of_load rfl]
    simp [e]
  have hasks : ∀ name ∈ ["a/../b", "a//b"], AsksFor name := by
    intro name hname
    exact ⟨.builtin, _, e, fun _ => .ok [], hcompile, by rwa [hrequests]⟩
  have hfirst : AsksFor "a/../b" := hasks _ (by simp)
  have hsecond : AsksFor "a//b" := hasks _ (by simp)
  have hclosed : ¬ EndsOpen "d" := by
    rw [endsOpen_iff]
    decide
  obtain ⟨hnames, hpaths, hdistinct, hdisks⟩ := requests_stay_behind_baseDir
  obtain ⟨habsolute, -, hopen, hslash⟩ := hpaths _ hfirst
  refine ⟨⟨hcompile, hrequests⟩, ⟨(hnames _).1 hfirst, habsolute,
    hslash "d" hclosed, hopen "d/" (.inr ⟨"d", rfl⟩)⟩,
    hdistinct _ _ hfirst hsecond (by decide) _, fun bytes => ?_⟩
  refine hdisks "d" _ _ (fun rest => ?_) .builtin _
  have hne : "d" ++ rest ≠ "/b" := by simp [← String.toList_inj]
  simp [hne]

end Program

end SetCalculator
