/-
  BridgeCall/Proofs/Marker/Sources.lean
  =====================================
  **What a run may write.**  A run writes nothing but twins of tagged files without
  problems.  A twin ends in the suffix, or is named like a test file with the suffix
  in front of that mark.  Files that are found in a directory do not end in the
  suffix, so that a twin can only take the place of a source that was named on its
  own, or of one that is named like the twin of a test file.  When there is none of
  either every source is left as it is (`Generate.run_spares_sources`).

  The second case is a real one: the twin of `a_test.go` is `a_gen_test.go`, which
  is collected as a source because it does not end in `_gen.go`
  (`Generate.run_overwrites_source`).
-/
import BridgeCall.Proofs.Marker.Generation

namespace BridgeCall.Generate

variable {settings : Settings} {mode : Mode} {r r' : Registry} {f : Files}
  {paths : List Bytes} {scans : List Scan} {jobs : List Job}

/-! ### The names of twins -/

/-- What the twins of test files end in. -/
def testEnd (suffix : Bytes) : Bytes :=
  (if Bytes.endsWith ".go" suffix then suffix.take (suffix.length - 3) else suffix) ++ "_test.go"

theorem endsWith_append (lead tail : Bytes) : Bytes.endsWith tail (lead ++ tail) = true := by
  rw [Bytes.endsWith, List.isPrefixOf_iff_prefix, List.reverse_prefix]
  exact List.suffix_append lead tail

/-- A twin ends in the suffix, or in what the twins of test files end in. -/
theorem endsWith_twinName (name suffix : Bytes) :
    Bytes.endsWith suffix (twinName name suffix) = true
      ∨ Bytes.endsWith (testEnd suffix) (twinName name suffix) = true := by
  unfold twinName
  by_cases htest : Bytes.endsWith "_test.go" name = true
  · right
    simp only [htest, if_true, testEnd]
    rw [List.append_assoc]
    by_cases hgo : Bytes.endsWith ".go" suffix = true
    · simp only [hgo, if_true, Option.getD_some]
      exact endsWith_append _ _
    · simp only [hgo, Bool.false_eq_true, if_false, Option.getD_none]
      exact endsWith_append _ _
  · left
    simp only [htest, Bool.false_eq_true, if_false]
    exact endsWith_append _ _

theorem slash_not_mem_suffix {suffix : Bytes} (h : Pattern.isSuffix suffix = true) : 0x2f ∉ suffix := by
  intro hmem
  have hall := (Bool.and_eq_true _ _ ▸ h : _ ∧ _).2
  have := List.all_eq_true.mp hall _ hmem
  revert this
  decide

theorem slash_not_mem_testEnd {suffix : Bytes} (h : Pattern.isSuffix suffix = true) :
    0x2f ∉ testEnd suffix := by
  have hsuffix := slash_not_mem_suffix h
  intro hmem
  rcases List.mem_append.mp hmem with hmem | hmem
  · split at hmem
    · exact hsuffix (List.mem_of_mem_take hmem)
    · exact hsuffix hmem
  · revert hmem
    decide

/-! ### What a run changes -/

/-- Where something has changed after a run there is the twin of a tagged file without problems. -/
theorem outputs_changed (htree : f.IsTree) {p : List Bytes}
    (hp : (outputs settings mode r f jobs).2.at? p ≠ f.at? p) :
    ∃ j ∈ jobs, mode.writes = true ∧ j.2 ++ (j.1.rewrite settings r).problems = []
      ∧ f.locate (j.target settings) = .ok p
      ∧ ∃ data, (j.1.rewrite settings r).text = some data
        ∧ (outputs settings mode r f jobs).2.at? p = some (.file data) := by
  induction jobs generalizing f with
  | nil => exact absurd rfl hp
  | cons j jobs ih =>
    have hrest : (outputs settings mode r f (j :: jobs)).2
        = (outputs settings mode r (output settings mode r f j.1 j.2).2 jobs).2 := by
      rw [outputs]
    rw [hrest] at hp ⊢
    rcases output_files settings mode r f j with heq | ⟨hwrites, hnil, data, htext, hwrite⟩
    · rw [heq] at hp ⊢
      obtain ⟨i, hi, hchanged⟩ := ih htree hp
      exact ⟨i, List.mem_cons_of_mem _ hi, hchanged⟩
    · obtain ⟨q, hlocate, hfits, heq⟩ := htree.write hwrite
      have hdirs := Files.sameDirs_put hfits.free data
      rw [heq] at hp ⊢
      by_cases hlater :
          (outputs settings mode r (f.put q (.file data)) jobs).2.at? p = (f.put q (.file data)).at? p
      · refine ⟨j, List.mem_cons_self, hwrites, hnil, ?_, data, htext, ?_⟩
        · rw [hlater, Files.at?_put f hfits.ne_nil] at hp
          split at hp
          · rename_i hpq
            rw [hpq]
            exact hlocate
          · exact absurd rfl hp
        · rw [hlater, Files.at?_put f hfits.ne_nil] at hp ⊢
          split at hp
          · rw [if_pos ‹_›]
          · exact absurd rfl hp
      · obtain ⟨i, hi, hwrites', hnil', hlocate', hdata⟩ := ih (htree.put hfits data) hlater
        exact ⟨i, List.mem_cons_of_mem _ hi, hwrites', hnil', hdirs.locate.mp hlocate', hdata⟩

/-- A collected file was named on its own, or it is found in a directory. -/
theorem mem_collect (htree : f.IsTree) {suffix : Bytes} {files : List Bytes} {found : Bytes}
    (h : collect f suffix paths = .ok files) (hfound : found ∈ files) :
    (found ∈ paths ∧ ∃ q content, f.locate found = .ok q ∧ f.at? q = some (.file content))
      ∨ isSource suffix (Path.last found) = true := by
  obtain ⟨lists, hlists, rfl⟩ := collect_eq_ok_iff.mp h
  obtain ⟨l, hl, hmem⟩ := List.mem_flatten.mp (List.mem_mergeSort.mp hfound)
  obtain ⟨path, hpath, hcollect⟩ : ∃ path ∈ paths, collectPath f suffix path = .ok l := by
    clear h hmem hfound
    induction hlists with
    | nil => cases hl
    | cons hfirst _ ih =>
      rcases List.mem_cons.mp hl with rfl | hl
      · exact ⟨_, List.mem_cons_self, hfirst⟩
      · obtain ⟨path, hpath, hcollect⟩ := ih hl
        exact ⟨path, List.mem_cons_of_mem _ hpath, hcollect⟩
  obtain ⟨q, hlocate, ⟨⟨content, hat⟩, rfl⟩ | ⟨hat, rfl⟩⟩ := collectPath_eq_ok_iff.mp hcollect
  · obtain rfl := List.mem_singleton.mp hmem
    exact .inl ⟨hpath, q, content, hlocate, hat⟩
  · obtain ⟨-, -, -, -, hsource⟩ := mem_walk htree hlocate hat hmem
    exact .inr hsource

/-! ### Sources are left as they are -/

/-- Where a source is, with what was scanned there. -/
theorem IsSources.at? (h : IsSources settings f paths scans) {s : Scan} (hs : s ∈ scans) :
    ∃ p, f.locate s.name = .ok p ∧ f.at? p = some (.file s.text) := by
  obtain ⟨files, -, -, rfl⟩ := h
  obtain ⟨path, -, hsource⟩ := List.mem_filterMap.mp hs
  obtain ⟨text, hread, hrun⟩ := scanFile_eq_ok_iff.mp (source?_eq_some_iff.mp hsource).1
  obtain ⟨-, -, rfl, rfl, -⟩ := Scan.run_eq_ok hrun
  exact Files.read_eq_ok_iff.mp hread

/-- No twin takes the place of a source, unless the source was named on its own and ends in the suffix,
    or is named like the twin of a test file. -/
theorem IsSources.apart (htree : f.IsTree) (hsuffix : Pattern.isSuffix settings.suffix = true)
    (h : IsSources settings f paths scans)
    (hnamed : ∀ s ∈ scans, s.name ∈ paths → Bytes.endsWith settings.suffix s.name = false)
    (htest : ∀ s ∈ scans, Bytes.endsWith (testEnd settings.suffix) s.name = false)
    {s : Scan} (hs : s ∈ scans) (t : Scan) {p : List Bytes} (hp : f.locate s.name = .ok p) :
    f.locate (twinName t.name settings.suffix) ≠ .ok p := by
  intro htwin
  obtain ⟨p', hp', hat⟩ := h.at? hs
  obtain rfl : p = p' := by simpa [hp] using hp'
  obtain ⟨d, hsource, -, -⟩ := htree.locate_last hp (by simp [hat])
  obtain ⟨d', htarget, -, -⟩ := htree.locate_last htwin (by simp [hat])
  have hlast : Path.last (twinName t.name settings.suffix) = Path.last s.name := by
    have hsame := congrArg List.getLast? (hsource.symm.trans htarget)
    simpa using hsame.symm
  rcases endsWith_twinName t.name settings.suffix with hend | hend
  · have hslash := slash_not_mem_suffix hsuffix
    rw [Path.endsWith_last hslash, hlast] at hend
    obtain ⟨files, hfiles, -, rfl⟩ := id h
    obtain ⟨path, hpath, hscan⟩ := List.mem_filterMap.mp hs
    obtain rfl := name_of_scanFile (source?_eq_some_iff.mp hscan).1
    rcases mem_collect htree hfiles hpath with ⟨hmem, -⟩ | hsource
    · have hfalse := hnamed s hs hmem
      rw [Path.endsWith_last hslash, hend] at hfalse
      cases hfalse
    · simp [isSource, hend] at hsource
  · have hfalse := htest s hs
    have hslash := slash_not_mem_testEnd hsuffix
    rw [Path.endsWith_last hslash, hlast] at hend
    rw [Path.endsWith_last hslash, hend] at hfalse
    cases hfalse

/-- **A run writes only twins, and spares its sources.** What a run changes are twins of tagged files
    without problems. As long as no source that was named on its own ends in the suffix, and none is
    named like the twin of a test file, no twin takes the place of a source, and every source has its
    text after the run. -/
theorem run_spares_sources (settings : Settings) (mode : Mode) (r : Registry) (f : Files)
    (paths : List Bytes) (htree : f.IsTree) (hsuffix : Pattern.isSuffix settings.suffix = true) :
    (∀ p, (run settings mode r f paths).2.2.at? p ≠ f.at? p →
      ∃ jobs r', IsPrepared settings r f paths jobs r' ∧ ∃ j ∈ jobs,
        mode.writes = true ∧ j.2 ++ (j.1.rewrite settings r').problems = []
        ∧ f.locate (twinName j.1.name settings.suffix) = .ok p
        ∧ ∃ data, (j.1.rewrite settings r').text = some data
          ∧ (run settings mode r f paths).2.2.at? p = some (.file data))
    ∧ ∀ scans, IsSources settings f paths scans →
      (∀ s ∈ scans, s.name ∈ paths → Bytes.endsWith settings.suffix s.name = false) →
      (∀ s ∈ scans, Bytes.endsWith (testEnd settings.suffix) s.name = false) →
      ∀ s ∈ scans,
        (∀ t ∈ scans, ∀ p, f.locate s.name = .ok p →
          f.locate (twinName t.name settings.suffix) ≠ .ok p)
        ∧ (run settings mode r f paths).2.2.read s.name = .ok s.text := by
  have hchanged : ∀ p, (run settings mode r f paths).2.2.at? p ≠ f.at? p →
      ∃ jobs r', IsPrepared settings r f paths jobs r' ∧ ∃ j ∈ jobs,
        mode.writes = true ∧ j.2 ++ (j.1.rewrite settings r').problems = []
        ∧ f.locate (twinName j.1.name settings.suffix) = .ok p
        ∧ ∃ data, (j.1.rewrite settings r').text = some data
          ∧ (run settings mode r f paths).2.2.at? p = some (.file data) := by
    intro p hp
    rcases run_cases settings mode r f paths with ⟨jobs, r', hprepared⟩ | ⟨-, heq⟩
    · rw [run_of_prepared mode hprepared] at hp ⊢
      exact ⟨jobs, r', hprepared, outputs_changed htree hp⟩
    · rw [heq] at hp
      exact absurd rfl hp
  refine ⟨hchanged, fun scans hscans hnamed htest s hs => ?_⟩
  have hapart : ∀ (t : Scan) p, f.locate s.name = .ok p →
      f.locate (twinName t.name settings.suffix) ≠ .ok p :=
    fun t _ => hscans.apart htree hsuffix hnamed htest hs t
  refine ⟨fun t _ => hapart t, ?_⟩
  obtain ⟨p, hp, hat⟩ := hscans.at? hs
  have hdirs : f.SameDirs (run settings mode r f paths).2.2 := by
    rcases run_cases settings mode r f paths with ⟨jobs, r', hprepared⟩ | ⟨-, heq⟩
    · rw [run_of_prepared mode hprepared]
      exact outputs_sameDirs settings mode r' f jobs
    · rw [heq]
      exact .refl f
  have hkept : (run settings mode r f paths).2.2.at? p = f.at? p := by
    by_contra hne
    obtain ⟨jobs, r', -, j, -, -, -, htwin, -⟩ := hchanged p hne
    exact hapart j.1 p hp htwin
  exact Files.read_eq_ok_iff.mpr ⟨p, hdirs.locate.mpr hp, hkept.trans hat⟩

theorem run_spares_sources_pair :
    pair.IsTree ∧ IsSources {} pair ["a.go", "sub"] [sourceScan, testScan]
      ∧ (run {} {} {} pair ["a.go", "sub"]).2.2.read "a.go" = .ok sourceScan.text
      ∧ (run {} {} {} pair ["a.go", "sub"]).2.2.read "sub/b_test.go" = .ok testScan.text := by
  have htree : pair.IsTree := by decide
  have hspared := (run_spares_sources {} {} {} pair ["a.go", "sub"] htree (by decide)).2
    [sourceScan, testScan] pair_isSources (by decide) (by decide)
  exact ⟨htree, pair_isSources, (hspared sourceScan (by simp)).2, (hspared testScan (by simp)).2⟩

/-! ### A source that is not spared -/

/-- A tree with two tagged files, of which one is named like the twin of the other. -/
def colliding : Files where
  entries :=
    [(["a_test.go"], .file "//go:build jnicall\n\npackage p\n"),
      (["a_gen_test.go"], .file "//go:build jnicall\n\npackage q\n")]

/-- With the settings that hold where nothing else is said, both files are sources, and one of them is
    written over with the twin of the other. -/
theorem run_overwrites_source :
    colliding.IsTree ∧ Pattern.isSuffix ({} : Settings).suffix = true
      ∧ collect colliding "_gen.go" ["."] = .ok ["a_gen_test.go", "a_test.go"]
      ∧ (source? {} colliding "a_gen_test.go").isSome = true
      ∧ colliding.read "a_gen_test.go" = .ok "//go:build jnicall\n\npackage q\n"
      ∧ (run {} {} {} colliding ["."]).2.2.read "a_gen_test.go"
        = .ok ("// Code generated by jnicall from a_test.go. DO NOT EDIT.\n\n//go:build !jnicall\n\n"
            ++ "package p\n") := by
  have hcollect : collect colliding "_gen.go" ["."] = .ok ["a_gen_test.go", "a_test.go"] := by
    cbv
  refine ⟨by decide, by decide, hcollect, by decide +kernel, by decide, ?_⟩
  rw [run, show ({} : Settings).suffix = "_gen.go" from rfl, hcollect]
  decide +kernel

end BridgeCall.Generate
