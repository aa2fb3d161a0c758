import Mathlib.Algebra.BigOperators.Group.List.Basic
import Mathlib.Data.List.Dedup
import PythonFlow.Proofs.Command.Order
import PythonFlow.Python.Statement

/-!
# The report on dead statements

What is printed, as a function of the files and of whatever parser makes their trees. The files are put in
order and each is reported on as often as it was found, its lines increasing. The findings therefore increase
exactly if no file with findings is found from two of the paths, and then each counts once.
-/

set_option autoImplicit false

namespace PythonFlow.Command

def Finding.Before (a b : Finding) : Prop :=
  Path.compare a.file b.file = .lt ∨ Path.compare a.file b.file = .eq ∧ a.line < b.line

namespace Files
variable (parse : Parser) (files : Files Id) (c : Config)

def below (path : String) : List String := (files.walk path).filterMap Except.toOption

/-- The lines on which dead statements of a file begin. A file that cannot be analysed has none. -/
def linesOf (file : String) : List Nat :=
  match files.read file with
  | .error _ => []
  | .ok source =>
    match (deadLines parse c source).1 with
    | .error _ => []
    | .ok lines => lines

def hits (path : String) : List String :=
  (files.below path).filter fun file => Path.isPython file && !(linesOf parse files c file).isEmpty

/-- A walk comes upon each file once, and paths of the same parts do not lead to different texts. -/
structure Steady (files : Files Id) : Prop where
  once : ∀ path, (files.below path).Pairwise fun a b => Path.compare a b ≠ .eq
  same : ∀ a b s s', Path.compare a b = .eq → files.read a = .ok s → files.read b = .ok s' → s = s'

theorem dead_lines_increase {parse : Parser} {c : Config} {source : String} {lines : List Nat}
    (h : (deadLines parse c source).1 = .ok lines) : lines.Pairwise (· < ·) := by
  unfold deadLines at h
  dsimp only at h
  split at h
  · cases h
  · obtain rfl := Except.ok.inj h
    exact distinct_lines_increase _

theorem lines_of_increase (file : String) : (linesOf parse files c file).Pairwise (· < ·) := by
  unfold linesOf
  split
  · exact .nil
  · split
    · exact .nil
    · next h => exact dead_lines_increase h

theorem findings_of_eq (file : String) :
    (findingsOf parse c file (files.read file)).1 = (linesOf parse files c file).map (Finding.mk file) := by
  unfold findingsOf linesOf
  cases files.read file with
  | error e => rfl
  | ok source =>
    dsimp only
    rcases deadLines parse c source with ⟨_ | lines, log⟩ <;> rfl

/-- The files that are reported on, in the order of the paths. -/
theorem python_files_eq (found : List (Except WalkError String)) :
    (pythonFiles found).1 = Path.sort ((found.filterMap Except.toOption).filter Path.isPython) := by
  unfold pythonFiles
  rw [← List.filterMap_eq_filter, List.filterMap_filterMap]
  refine congrArg Path.sort (List.filterMap_congr fun entry _ => ?_)
  cases entry <;> rfl

theorem findings_eq (paths : List String) :
    (reportUnreachable parse files c paths).findings =
      (Path.sort ((paths.flatMap files.below).filter Path.isPython)).flatMap fun file =>
        (linesOf parse files c file).map (Finding.mk file) := by
  have hfound : (paths.map files.walk).flatten.filterMap Except.toOption = paths.flatMap files.below := by
    rw [List.filterMap_flatten, List.map_map]
    rfl
  have hreport : (reportUnreachable parse files c paths).findings =
      ((pythonFiles (paths.mapM files.walk).run.flatten).1.mapM fun file =>
        (pure (findingsOf parse c file (files.read file)) : Id (List Finding × List LogLine))).run.flatMap
          Prod.fst := rfl
  rw [hreport, List.idRun_mapM, List.idRun_mapM, python_files_eq]
  simp only [Id.run, hfound, List.flatMap_map]
  exact List.flatMap_congr fun file _ => findings_of_eq parse files c file

theorem hits_eq (paths : List String) :
    paths.flatMap (hits parse files c) =
      ((paths.flatMap files.below).filter Path.isPython).filter fun file =>
        !(linesOf parse files c file).isEmpty := by
  rw [List.filter_filter, List.filter_flatMap]
  exact List.flatMap_congr fun path _ => List.filter_congr fun file _ => Bool.and_comm _ _

theorem sort_hits_perm (paths : List String) :
    ((Path.sort ((paths.flatMap files.below).filter Path.isPython)).filter fun file =>
      !(linesOf parse files c file).isEmpty).Perm (paths.flatMap (hits parse files c)) := by
  rw [hits_eq]
  exact (Path.sort_perm _).filter _

theorem lines_before (file : String) :
    ((linesOf parse files c file).map (Finding.mk file)).Pairwise Finding.Before :=
  List.pairwise_map.2 <| (lines_of_increase parse files c file).imp fun hlt =>
    .inr ⟨Std.ReflCmp.compare_self, hlt⟩

section steady
variable {files} (hs : files.Steady)
include hs

theorem Steady.lines_eq {a b : String} (hab : Path.compare a b = .eq) (ha : linesOf parse files c a ≠ [])
    (hb : linesOf parse files c b ≠ []) : linesOf parse files c a = linesOf parse files c b := by
  unfold linesOf at *
  cases hra : files.read a with
  | error e => simp [hra] at ha
  | ok s =>
    cases hrb : files.read b with
    | error e => simp [hrb] at hb
    | ok s' => rw [hs.same a b s s' hab hra hrb]

/-- Of two files in order all findings are in order, unless both are the same file with findings. -/
theorem Steady.before_iff {a b : String} (hle : (Path.compare a b).isLE = true) :
    (∀ x ∈ (linesOf parse files c a).map (Finding.mk a), ∀ y ∈ (linesOf parse files c b).map (Finding.mk b),
        x.Before y) ↔
      (linesOf parse files c a ≠ [] → linesOf parse files c b ≠ [] → Path.compare a b ≠ .eq) := by
  simp only [List.forall_mem_map, Finding.Before]
  constructor
  · intro hall ha hb heq
    obtain ⟨line, hline⟩ := List.exists_mem_of_ne_nil _ ha
    -- The first finding of the file would have to be before itself.
    rcases hall line hline line (hs.lines_eq parse c heq ha hb ▸ hline) with hlt | ⟨-, hlt⟩
    · rw [heq] at hlt
      cases hlt
    · exact absurd hlt (Nat.lt_irrefl line)
  · intro hne x hx y hy
    have hdiffer := hne (List.ne_nil_of_mem hx) (List.ne_nil_of_mem hy)
    left
    cases hcompare : Path.compare a b with
    | lt => rfl
    | eq => exact absurd hcompare hdiffer
    | gt => simp [hcompare] at hle

theorem Steady.findings_before_iff (paths : List String) :
    (reportUnreachable parse files c paths).findings.Pairwise Finding.Before ↔
      (paths.flatMap (hits parse files c)).Pairwise fun a b => Path.compare a b ≠ .eq := by
  have hsorted := Path.sort_sorted ((paths.flatMap files.below).filter Path.isPython)
  have hsymm : ∀ {a b : String}, Path.compare a b ≠ .eq → Path.compare b a ≠ .eq :=
    fun hne heq => hne (Std.OrientedCmp.eq_symm heq)
  rw [findings_eq, List.pairwise_flatMap, ← (sort_hits_perm parse files c paths).pairwise_iff hsymm,
    List.pairwise_filter]
  simp only [Bool.not_eq_true', List.isEmpty_eq_false_iff]
  refine (and_iff_right fun file _ => lines_before parse files c file).trans ⟨fun h => ?_, fun h => ?_⟩
  · exact (h.and hsorted).imp fun hab => (hs.before_iff parse c hab.2).1 hab.1
  · exact (h.and hsorted).imp fun hab => (hs.before_iff parse c hab.2).2 hab.1

end steady

theorem count_of_file (file : String) (x : Finding) :
    ((linesOf parse files c file).map (Finding.mk file)).count x =
      if x.line ∈ linesOf parse files c x.file ∧ file = x.file then 1 else 0 := by
  obtain ⟨name, line⟩ := x
  have hnodup : ((linesOf parse files c file).map (Finding.mk file)).Nodup :=
    ((lines_of_increase parse files c file).imp Nat.ne_of_lt).map _ fun a b hab => by simpa using hab
  rw [hnodup.count]
  by_cases hfile : file = name
  · subst hfile
    simp
  · simp [hfile]

/-- Each finding is printed as often as its file is found. -/
theorem count_findings (paths : List String) (x : Finding) :
    (reportUnreachable parse files c paths).findings.count x =
      if x.line ∈ linesOf parse files c x.file then (paths.flatMap (hits parse files c)).count x.file else 0 := by
  have hreported : ∀ reported : List String,
      (reported.flatMap fun file => (linesOf parse files c file).map (Finding.mk file)).count x =
        if x.line ∈ linesOf parse files c x.file then reported.count x.file else 0 := by
    intro reported
    induction reported with
    | nil => simp
    | cons file rest ih =>
      rw [List.flatMap_cons, List.count_append, ih, count_of_file, List.count_cons]
      by_cases hline : x.line ∈ linesOf parse files c x.file <;> simp [hline, Nat.add_comm]
  rw [findings_eq, hreported]
  split
  · next hline =>
    have hhit : (!(linesOf parse files c x.file).isEmpty) = true := by
      simpa using List.ne_nil_of_mem hline
    rw [← (sort_hits_perm parse files c paths).count_eq]
    exact (List.count_filter (p := fun file => !(linesOf parse files c file).isEmpty) hhit).symm
  · rfl

theorem findings_nodup_iff (paths : List String) :
    (reportUnreachable parse files c paths).findings.Nodup ↔ (paths.flatMap (hits parse files c)).Nodup := by
  simp only [List.nodup_iff_count_le_one, count_findings]
  constructor
  · intro h file
    by_cases hmem : file ∈ paths.flatMap (hits parse files c)
    · rw [hits_eq, List.mem_filter] at hmem
      obtain ⟨line, hline⟩ := List.exists_mem_of_ne_nil (linesOf parse files c file) (by simpa using hmem.2)
      simpa [hline] using h ⟨file, line⟩
    · rw [List.count_eq_zero.2 hmem]
      exact Nat.zero_le 1
  · intro h x
    split
    · exact h x.file
    · exact Nat.zero_le 1

end Files

/-- The findings increase by file and then by line exactly if no two of the paths lead to the same file with
findings. They are put in the order of their files in any case, each is printed as often as its file is found,
and the count is that of distinct findings exactly if no file with findings is found twice. -/
theorem findings_increase_iff (parse : Parser) {files : Files Id} (hs : files.Steady) (c : Config)
    (paths : List String) :
    ((reportUnreachable parse files c paths).findings.Pairwise Finding.Before ↔
      paths.Pairwise fun p q =>
        ∀ a ∈ Files.hits parse files c p, ∀ b ∈ Files.hits parse files c q, Path.compare a b ≠ .eq) ∧
    ((reportUnreachable parse files c paths).findings.Pairwise fun x y =>
      (Path.compare x.file y.file).isLE = true) ∧
    (∀ x, (reportUnreachable parse files c paths).findings.count x =
      if x.line ∈ Files.linesOf parse files c x.file then
        (paths.flatMap (Files.hits parse files c)).count x.file
      else 0) ∧
    ((reportUnreachable parse files c paths).count = (reportUnreachable parse files c paths).findings.dedup.length ↔
      (paths.flatMap (Files.hits parse files c)).Nodup) ∧
    (runUnreachable parse files c paths).output =
      String.join ((reportUnreachable parse files c paths).findings.map Finding.display) := by
  refine ⟨?_, ?_, Files.count_findings parse files c paths, ?_, rfl⟩
  · rw [hs.findings_before_iff, List.pairwise_flatMap]
    exact and_iff_right fun path _ => (hs.once path).filter _
  · have hsorted := Path.sort_sorted ((paths.flatMap files.below).filter Path.isPython)
    rw [Files.findings_eq, List.pairwise_flatMap]
    refine ⟨fun file _ => List.pairwise_map.2 ?_, hsorted.imp fun hab => ?_⟩
    · exact List.Pairwise.imp (fun _ => by simp [Std.ReflCmp.compare_self]) (Files.lines_of_increase parse files c file)
    · simpa only [List.forall_mem_map] using fun _ _ _ _ => hab
  · rw [← Files.findings_nodup_iff, ← List.dedup_eq_self]
    refine ⟨fun h => ?_, fun h => by rw [h]; rfl⟩
    exact (List.dedup_sublist _).eq_of_length h.symm

def smallFiles : Files Id where
  read file :=
    if file = "a.py" then .ok "return\nx\n"
    else if file = "d/b.py" then .ok "x\n"
    else .error .notFound
  walk path :=
    if path = "a.py" then [.ok "a.py"]
    else if path = "d" then [.ok "d/b.py"]
    else [.error ⟨path, .notFound⟩]

theorem small_files_steady : smallFiles.Steady where
  once path := by
    unfold Files.below smallFiles
    dsimp only
    split_ifs
    · exact List.pairwise_singleton _ _
    · exact List.pairwise_singleton _ _
    · exact .nil
  same a b s s' hab ha hb := by
    unfold smallFiles at ha hb
    dsimp only at ha hb
    split_ifs at ha hb
    · exact Except.ok.inj (ha.symm.trans hb)
    · subst_vars
      exact absurd hab (by decide +kernel)
    · subst_vars
      exact absurd hab (by decide +kernel)
    · exact Except.ok.inj (ha.symm.trans hb)

theorem repeated_path_repeats_finding :
    smallFiles.Steady ∧
      (reportUnreachable Python.parseModule smallFiles .standard ["a.py", "d"]).findings.Pairwise Finding.Before ∧
      ¬ (reportUnreachable Python.parseModule smallFiles .standard
        ["a.py", "d", "a.py"]).findings.Pairwise Finding.Before ∧
      (reportUnreachable Python.parseModule smallFiles .standard
        ["a.py", "d", "a.py"]).findings.count ⟨"a.py", 2⟩ = 2 := by
  have hfile : Files.hits Python.parseModule smallFiles .standard "a.py" = ["a.py"] := by decide +kernel
  have hdirectory : Files.hits Python.parseModule smallFiles .standard "d" = [] := by decide +kernel
  have hlines : Files.linesOf Python.parseModule smallFiles .standard "a.py" = [2] := by decide +kernel
  have hself : Path.compare "a.py" "a.py" = .eq := Std.ReflCmp.compare_self
  obtain ⟨honce, -⟩ :=
    findings_increase_iff Python.parseModule small_files_steady .standard ["a.py", "d"]
  obtain ⟨htwice, -, hcount, -⟩ :=
    findings_increase_iff Python.parseModule small_files_steady .standard ["a.py", "d", "a.py"]
  refine ⟨small_files_steady, honce.2 ?_, fun h => absurd (htwice.1 h) ?_, ?_⟩
  · simp [hfile, hdirectory]
  · simp [hfile, hdirectory, hself]
  · simp [hcount, hlines, hfile, hdirectory]

end PythonFlow.Command
